import StyleEngine.Proofs.Settings.Merging

/-! # What a settings file builds on

A settings file and the files that it builds on make a tree: under a file stand,
in the order in which it names them, the trees of its bases.  A file that is
reached twice stands in the tree twice.  Loading puts the files of that tree on
top of each other in post-order (`Settings.loadWithin_eq_ok`), although it merges
what was merged already: a base comes as the one layer that its own tree makes.
-/
namespace StyleEngine

section

variable {ε α β : Type}

theorem bind_eq_ok {x : Except ε α} {f : α → Except ε β} {b : β} :
    x.bind f = .ok b ↔ ∃ a, x = .ok a ∧ f a = .ok b := by
  cases x with
  | error e =>
    constructor
    · intro h
      cases h
    · rintro ⟨a, h, -⟩
      cases h
  | ok a =>
    constructor
    · intro h
      exact ⟨a, rfl, h⟩
    · rintro ⟨a', ha, h⟩
      obtain rfl := Except.ok.inj ha
      exact h

theorem map_eq_ok {x : Except ε α} {f : α → β} {b : β} :
    x.map f = .ok b ↔ ∃ a, x = .ok a ∧ f a = b := by
  cases x with
  | error e =>
    constructor
    · intro h
      cases h
    · rintro ⟨a, h, -⟩
      cases h
  | ok a =>
    constructor
    · intro h
      exact ⟨a, rfl, Except.ok.inj h⟩
    · rintro ⟨a', ha, rfl⟩
      obtain rfl := Except.ok.inj ha
      rfl

theorem exists_ok_of_toOption {x : Except ε α} {f : α → β} {b : β}
    (h : x.toOption.map f = some b) : ∃ a, x = .ok a ∧ f a = b := by
  cases x with
  | error e => cases h
  | ok a => exact ⟨a, rfl, Option.some.inj h⟩

end

/-- The settings that a file holds, over the trees of those that it builds on. -/
inductive SettingsTree where
  | file (own : Settings) (below : List SettingsTree)

namespace SettingsTree

mutual

/-- The settings of a tree's files, each after all that it builds on. -/
def postOrder : SettingsTree → List Settings
  | .file own below => postOrderAll below ++ [own]

def postOrderAll : List SettingsTree → List Settings
  | [] => []
  | tree :: rest => postOrder tree ++ postOrderAll rest

end

mutual

/-- The number of files in the longest chain of a tree. -/
def height : SettingsTree → Nat
  | .file _ below => heightAll below + 1

def heightAll : List SettingsTree → Nat
  | [] => 0
  | tree :: rest => max (height tree) (heightAll rest)

end

mutual

/-- Whether a tree holds what is read from the settings file at a path, over what is read from
all files that it builds on. -/
def Unrolls (t : FileTree) (p : Path) : SettingsTree → Prop
  | .file own below => Settings.readFile t p = .ok own ∧ UnrollsAll t p own.bases below

/-- Whether trees hold what the files are that settings at a path build on, one by one. -/
def UnrollsAll (t : FileTree) (p : Path) : List String → List SettingsTree → Prop
  | [], [] => True
  | base :: bases, tree :: rest =>
    Unrolls t (Settings.basePath p base) tree ∧ UnrollsAll t p bases rest
  | [], _ :: _ => False
  | _ :: _, [] => False

end

variable {t : FileTree} {p : Path}

theorem postOrder_ne_nil (tree : SettingsTree) : tree.postOrder ≠ [] := by
  obtain ⟨own, below⟩ := tree
  rw [postOrder]
  exact List.append_ne_nil_of_right_ne_nil _ (List.cons_ne_nil own [])

theorem height_pos (tree : SettingsTree) : 0 < tree.height := by
  obtain ⟨own, below⟩ := tree
  rw [height]
  exact Nat.succ_pos _

theorem UnrollsAll.eq_nil {below : List SettingsTree} (h : UnrollsAll t p [] below) :
    below = [] := by
  cases below with
  | nil => rfl
  | cons tree rest => exact False.elim h

theorem UnrollsAll.exists_cons {base : String} {bases : List String} {below : List SettingsTree}
    (h : UnrollsAll t p (base :: bases) below) : ∃ tree rest, below = tree :: rest ∧
      Unrolls t (Settings.basePath p base) tree ∧ UnrollsAll t p bases rest := by
  cases below with
  | nil => exact False.elim h
  | cons tree rest => exact ⟨tree, rest, rfl, h⟩

mutual

/-- **A file unrolls to one tree only.** -/
theorem Unrolls.unique {t : FileTree} {p : Path} : {tree tree' : SettingsTree} →
    Unrolls t p tree → Unrolls t p tree' → tree = tree'
  | .file own below, .file own' below', ⟨hown, hbelow⟩, ⟨hown', hbelow'⟩ => by
    obtain rfl : own = own' := Except.ok.inj (hown.symm.trans hown')
    rw [UnrollsAll.unique hbelow hbelow']

theorem UnrollsAll.unique {t : FileTree} {p : Path} {bases : List String} :
    {below below' : List SettingsTree} → UnrollsAll t p bases below →
      UnrollsAll t p bases below' → below = below'
  | [], _, h, h' => by
    cases bases with
    | nil => exact (UnrollsAll.eq_nil h').symm
    | cons base bases => exact False.elim h
  | tree :: rest, _, h, h' => by
    cases bases with
    | nil => exact False.elim h
    | cons base bases =>
      obtain ⟨tree', rest', rfl, htree', hrest'⟩ := UnrollsAll.exists_cons h'
      rw [Unrolls.unique h.1 htree', UnrollsAll.unique h.2 hrest']

end

mutual

theorem Unrolls.isOrdered {t : FileTree} {p : Path} : {tree : SettingsTree} →
    Unrolls t p tree → ∀ s ∈ tree.postOrder, s.IsOrdered
  | .file own below, ⟨hown, hbelow⟩ => by
    intro s hs
    rw [postOrder] at hs
    rcases List.mem_append.mp hs with hs | hs
    · exact UnrollsAll.isOrdered hbelow s hs
    · rw [List.mem_singleton.mp hs]
      exact Settings.isOrdered_of_readFile hown

theorem UnrollsAll.isOrdered {t : FileTree} {p : Path} {bases : List String} :
    {below : List SettingsTree} → UnrollsAll t p bases below →
      ∀ s ∈ postOrderAll below, s.IsOrdered
  | [], _ => fun _ hs => absurd hs List.not_mem_nil
  | tree :: rest, h => by
    intro s hs
    cases bases with
    | nil => exact False.elim h
    | cons base bases =>
      rw [postOrderAll] at hs
      rcases List.mem_append.mp hs with hs | hs
      · exact Unrolls.isOrdered h.1 s hs
      · exact UnrollsAll.isOrdered h.2 s hs

end

end SettingsTree

namespace Settings

open SettingsTree

/-! ## Folds of layers -/

theorem isOrdered_foldl_merge (l : List Settings) {acc : Settings} (hacc : acc.IsOrdered) :
    (l.foldl merge acc).IsOrdered := by
  induction l generalizing acc with
  | nil => exact hacc
  | cons s l ih => exact ih (isOrdered_merge hacc s)

@[simp] theorem bases_foldl_merge (l : List Settings) (acc : Settings) :
    (l.foldl merge acc).bases = acc.bases := by
  induction l generalizing acc with
  | nil => rfl
  | cons s l ih => rw [List.foldl_cons, ih, bases_merge]

theorem merge_foldl_merge {l : List Settings} {acc s : Settings} (hacc : acc.IsOrdered)
    (hs : s.IsOrdered) (hl : ∀ layer ∈ l, layer.IsOrdered) :
    acc.merge (l.foldl merge s) = l.foldl merge (acc.merge s) := by
  induction l generalizing s with
  | nil => rfl
  | cons layer l ih =>
    have hlayer := hl layer List.mem_cons_self
    rw [List.foldl_cons, List.foldl_cons,
      ih (isOrdered_merge hs layer) fun x hx => hl x (List.mem_cons_of_mem _ hx),
      merge_assoc hacc hs hlayer]

/-- A layer made of several, put on top of others, counts as those several one by one. -/
theorem merge_foldl_default {l : List Settings} {acc : Settings} (hacc : acc.IsOrdered)
    (hne : l ≠ []) (hl : ∀ layer ∈ l, layer.IsOrdered) :
    acc.merge (l.foldl merge {}) = l.foldl merge acc := by
  cases l with
  | nil => exact absurd rfl hne
  | cons s l =>
    have hs := hl s List.mem_cons_self
    have hs' : ({ s with bases := [] } : Settings).IsOrdered := ⟨hs.severity, hs.perFile, hs.addins⟩
    rw [List.foldl_cons, List.foldl_cons, default_merge hs,
      merge_foldl_merge hacc hs' fun x hx => hl x (List.mem_cons_of_mem _ hx)]
    -- what the first layer builds on is not looked at
    rfl

/-! ## Loading -/

/-- Puts the settings that a file builds on on top of others. -/
def addBase (t : FileTree) (depth : Nat) (p : Path) (acc : Settings) (base : String) :
    Except SettingsError Settings :=
  (loadWithin t depth (basePath p base)).map acc.merge

/-- What a file builds on is put on settings that say nothing, and the file on top, also where it
builds on nothing. -/
theorem loadWithin_succ (t : FileTree) (depth : Nat) (p : Path) :
    loadWithin t (depth + 1) p = (readFile t p).bind fun own =>
      (own.bases.foldlM (addBase t depth p) {}).map fun below => below.merge own := by
  rw [loadWithin]
  cases hown : readFile t p with
  | error e => rfl
  | ok own =>
    show (if own.bases.isEmpty then _ else _) =
      (own.bases.foldlM (addBase t depth p) {}).map fun below => below.merge own
    by_cases hbases : own.bases = []
    · have hself : ({} : Settings).merge own = own := by
        rw [default_merge (isOrdered_of_readFile hown), ← hbases]
      rw [hbases, if_pos List.isEmpty_nil]
      exact congrArg Except.ok hself.symm
    · rw [if_neg (mt List.isEmpty_iff.mp hbases)]
      have hfold {add : Settings → String → Except SettingsError Settings}
          (hadd : ∀ acc base, add acc base = addBase t depth p acc base) :
          own.bases.foldlM add {} = own.bases.foldlM (addBase t depth p) {} := by
        rw [show add = addBase t depth p from funext fun acc => funext (hadd acc)]
      rw [hfold]
      · cases own.bases.foldlM (addBase t depth p) {} with
        | error e => rfl
        | ok below => rfl
      · intro acc base
        rw [addBase]
        cases loadWithin t depth (basePath p base) with
        | error e => rfl
        | ok layer => rfl

/-- The files of a tree put on top of each other in post-order. -/
def layered (tree : SettingsTree) : Settings := tree.postOrder.foldl merge {}

theorem layered_file (own : Settings) (below : List SettingsTree) :
    layered (.file own below) = ((postOrderAll below).foldl merge {}).merge own := by
  rw [layered, postOrder, List.foldl_append, List.foldl_cons, List.foldl_nil]

/-- A tree's layer, put on top of others, counts as the tree's files one by one. -/
theorem merge_layered {t : FileTree} {p : Path} {tree : SettingsTree} (h : Unrolls t p tree)
    {acc : Settings} (hacc : acc.IsOrdered) :
    acc.merge (layered tree) = tree.postOrder.foldl merge acc :=
  merge_foldl_default hacc tree.postOrder_ne_nil h.isOrdered

/-- Adding a file's bases one by one puts the files of their trees on top of what is there. -/
theorem foldlM_addBase_eq_ok {t : FileTree} {p : Path} {depth : Nat}
    (hload : ∀ {q : Path} {s : Settings}, loadWithin t depth q = .ok s ↔
      ∃ tree, Unrolls t q tree ∧ tree.height ≤ depth ∧ s = layered tree)
    {bases : List String} {acc s : Settings} (hacc : acc.IsOrdered) :
    bases.foldlM (addBase t depth p) acc = .ok s ↔
      ∃ below, UnrollsAll t p bases below ∧ heightAll below ≤ depth ∧
        s = (postOrderAll below).foldl merge acc := by
  induction bases generalizing acc with
  | nil =>
    constructor
    · intro h
      exact ⟨[], trivial, Nat.zero_le _, (Except.ok.inj h).symm⟩
    · rintro ⟨below, hbelow, -, rfl⟩
      rw [hbelow.eq_nil]
      rfl
  | cons base bases ih =>
    rw [List.foldlM_cons]
    show (addBase t depth p acc base).bind _ = .ok s ↔ _
    rw [bind_eq_ok]
    constructor
    · rintro ⟨next, hnext, h⟩
      obtain ⟨layer, hlayer, rfl⟩ := map_eq_ok.mp hnext
      obtain ⟨tree, htree, hheight, rfl⟩ := hload.mp hlayer
      obtain ⟨rest, hrest, hrestHeight, rfl⟩ := (ih (isOrdered_merge hacc _)).mp h
      refine ⟨tree :: rest, ⟨htree, hrest⟩, Nat.max_le.mpr ⟨hheight, hrestHeight⟩, ?_⟩
      rw [merge_layered htree hacc, postOrderAll, List.foldl_append]
    · rintro ⟨below, hbelow, hheight, rfl⟩
      obtain ⟨tree, rest, rfl, htree, hrest⟩ := hbelow.exists_cons
      rw [heightAll, Nat.max_le] at hheight
      have hlayer := hload.mpr ⟨tree, htree, hheight.1, rfl⟩
      refine ⟨acc.merge (layered tree), map_eq_ok.mpr ⟨_, hlayer, rfl⟩, ?_⟩
      refine (ih (isOrdered_merge hacc _)).mpr ⟨rest, hrest, hheight.2, ?_⟩
      rw [merge_layered htree hacc, postOrderAll, List.foldl_append]

/-- **Loading within a depth gives settings just where the file unrolls to a tree of at most that
height**, and they are the files of that tree put on top of each other in post-order. -/
theorem loadWithin_eq_ok {t : FileTree} {depth : Nat} {p : Path} {s : Settings} :
    loadWithin t depth p = .ok s ↔
      ∃ tree, Unrolls t p tree ∧ tree.height ≤ depth ∧ s = layered tree := by
  induction depth generalizing p s with
  | zero =>
    constructor
    · intro h
      cases h
    · rintro ⟨tree, -, hheight, -⟩
      exact absurd tree.height_pos (Nat.not_lt.mpr hheight)
  | succ depth ih =>
    rw [loadWithin_succ, bind_eq_ok]
    constructor
    · rintro ⟨own, hown, h⟩
      obtain ⟨acc, hacc, rfl⟩ := map_eq_ok.mp h
      obtain ⟨below, hall, hheight, rfl⟩ := (foldlM_addBase_eq_ok ih isOrdered_default).mp hacc
      exact ⟨.file own below, ⟨hown, hall⟩, Nat.succ_le_succ hheight, (layered_file ..).symm⟩
    · rintro ⟨⟨own, below⟩, ⟨hown, hall⟩, hheight, rfl⟩
      have hacc := (foldlM_addBase_eq_ok ih isOrdered_default).mpr
        ⟨below, hall, Nat.le_of_succ_le_succ hheight, rfl⟩
      exact ⟨own, hown, map_eq_ok.mpr ⟨_, hacc, (layered_file ..).symm⟩⟩

/-- **Settings that load are the files of the tree that their file unrolls to, put on top of each
other one by one**: it starts from settings that say nothing, and every file comes after those that
it builds on, in the order in which it names them.  There is one such tree, and what was loaded
builds on nothing any more.  In particular layers may be put together in any grouping. -/
theorem load_unrolled :
    (∀ (t : FileTree) (p : Path) (s : Settings), load t p = .ok s →
      s.bases = [] ∧
      ∃ tree : SettingsTree, tree.Unrolls t p ∧
        (∀ other : SettingsTree, other.Unrolls t p → other = tree) ∧
        s = tree.postOrder.foldl merge {}) ∧
    ∀ a b c : Settings, a.IsOrdered → b.IsOrdered → c.IsOrdered →
      (a.merge b).merge c = a.merge (b.merge c) := by
  constructor
  · intro t p s h
    obtain ⟨tree, htree, -, rfl⟩ := loadWithin_eq_ok.mp h
    exact ⟨bases_foldl_merge _ _, tree, htree, fun other hother => hother.unique htree, rfl⟩
  · intro a b c ha hb hc
    exact merge_assoc ha hb hc

/-- A settings file that builds on two others, which both build on a fourth. -/
def woven : FileTree where
  nodes :=
    [(["work", "top.yaml"], .file (.text "extends: [left.yaml, right.yaml]\nengine:\n  jobs: 3\n")),
     (["work", "left.yaml"], .file (.text "extends: [base.yaml]\nrules:\n  disabled: [L]\n")),
     (["work", "right.yaml"], .file (.text "extends: [base.yaml]\nrules:\n  disabled: [R]\n")),
     (["work", "base.yaml"], .file (.text "rules:\n  disabled: [B]\n"))]

/-- Settings that switch a rule off for some files. -/
def muting (rule : String) : Settings where
  rules := { perFile := [("*.txt", [rule])] }

theorem load_unrolled_woven :
    (∃ s, load woven ⟨"top.yaml"⟩ = .ok s ∧ s.rules.disabled = ["B", "L", "B", "R"] ∧
      s.bases = [] ∧
      ∃ tree : SettingsTree, tree.Unrolls woven ⟨"top.yaml"⟩ ∧
        (∀ other : SettingsTree, other.Unrolls woven ⟨"top.yaml"⟩ → other = tree) ∧
        s = tree.postOrder.foldl merge {}) ∧
    ((muting "A").merge (muting "B")).merge (muting "C") =
      (muting "A").merge ((muting "B").merge (muting "C")) := by
  constructor
  · have hrules : (load woven ⟨"top.yaml"⟩).toOption.map (fun s => s.rules.disabled) =
        some ["B", "L", "B", "R"] := by decide +kernel
    obtain ⟨s, hs, hdisabled⟩ := exists_ok_of_toOption hrules
    exact ⟨s, hs, hdisabled, load_unrolled.1 woven ⟨"top.yaml"⟩ s hs⟩
  · exact load_unrolled.2 (muting "A") (muting "B") (muting "C") (by decide) (by decide)
      (by decide)

end Settings

end StyleEngine
