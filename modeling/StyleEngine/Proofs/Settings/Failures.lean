import Mathlib.Logic.Relation
import StyleEngine.Proofs.FileTree.Relative
import StyleEngine.Proofs.Settings.Layers

/-! # When settings do not load

The files that a settings file builds on, and those that they build on, make a
tree that need not be finite.  A file stands in it at a place, the list of
numbers of the bases that lead to it, and the lexicographic order of places, in
which a file comes before all that it builds on, is the order in which loading
comes by them.  A file offends if it cannot be read, or by its depth before it is
looked at; loading fails with what the first file that offends fails with
(`Settings.load_outcome`).  A file that comes back below itself, under whichever
path, does so for ever, and so a chain becomes too deep.
-/
namespace StyleEngine

namespace Settings

open FileTree Relation SettingsTree

variable {t : FileTree} {p q r : Path} {s own : Settings} {e e' : SettingsError}
  {depth i : Nat} {place place' : List Nat}

/-! ## One file -/

/-- Whether a file holds settings: it has a text, in a known format, and settings in it. -/
def Holds (t : FileTree) (p : Path) (s : Settings) : Prop :=
  ∃ text f, t.readText p = .ok text ∧ formatOf? p = some f ∧ parse? f text = some s

/-- What a text that says nothing in a format fails with. -/
def unparsed : DataFormat → SettingsError
  | .yaml => .yaml
  | .json => .json

/-- Why a file holds no settings. -/
inductive Fails (t : FileTree) (p : Path) : SettingsError → Prop
  | unreadable {fault : FileFault} (hread : t.readText p = .error fault) : Fails t p (.file fault)
  | unknown {text : String} (hread : t.readText p = .ok text) (hformat : formatOf? p = none) :
      Fails t p (.unknownFormat (p.extension?.getD ""))
  | unparsed {text : String} {f : DataFormat} (hread : t.readText p = .ok text)
      (hformat : formatOf? p = some f) (hparse : parse? f text = none) : Fails t p (unparsed f)

/-- A text is read in the format that its file is known by. -/
theorem readFile_of_readText {text : String} (hread : t.readText p = .ok text) :
    readFile t p = (formatOf? p).elim (.error (.unknownFormat (p.extension?.getD "")))
      fun f => (parse? f text).elim (.error (unparsed f)) .ok := by
  simp only [readFile, hread, formatOf?]
  split
  · rw [Option.elim_some]
    cases parse? .yaml text <;> rfl
  · split
    · rw [Option.elim_some]
      cases parse? .json text <;> rfl
    · rfl

theorem readFile_eq_ok_iff : readFile t p = .ok s ↔ Holds t p s := by
  constructor
  · exact exists_parse?_of_readFile
  · rintro ⟨text, f, hread, hformat, hparse⟩
    rw [readFile_of_readText hread, hformat, Option.elim_some, hparse, Option.elim_some]

theorem readFile_eq_error_iff : readFile t p = .error e ↔ Fails t p e := by
  constructor
  · intro h
    cases hread : t.readText p with
    | error fault =>
      rw [readFile, hread] at h
      cases h
      exact .unreadable hread
    | ok text =>
      rw [readFile_of_readText hread] at h
      cases hformat : formatOf? p with
      | none =>
        rw [hformat] at h
        cases h
        exact .unknown hread hformat
      | some f =>
        rw [hformat, Option.elim_some] at h
        cases hparse : parse? f text with
        | none =>
          rw [hparse] at h
          cases h
          exact .unparsed hread hformat hparse
        | some s =>
          rw [hparse] at h
          cases h
  · intro h
    cases h with
    | unreadable hread => rw [readFile, hread]
    | unknown hread hformat => rw [readFile_of_readText hread, hformat, Option.elim_none]
    | unparsed hread hformat hparse =>
      rw [readFile_of_readText hread, hformat, Option.elim_some, hparse, Option.elim_none]

theorem not_holds_of_fails (h : Fails t p e) : ¬Holds t p s := by
  intro hs
  cases (readFile_eq_error_iff.mpr h).symm.trans (readFile_eq_ok_iff.mpr hs)

theorem Fails.unique (h : Fails t p e) (h' : Fails t p e') : e = e' :=
  Except.error.inj ((readFile_eq_error_iff.mpr h).symm.trans (readFile_eq_error_iff.mpr h'))

/-! ## Places -/

/-- The file at a place of the tree that a settings file and all it builds on make. -/
def fileAt? (t : FileTree) (p : Path) : List Nat → Option Path
  | [] => some p
  | i :: place =>
    match readFile t p with
    | .error _ => none
    | .ok own => own.bases[i]?.bind fun base => fileAt? t (basePath p base) place

theorem fileAt?_cons (hown : readFile t p = .ok own) :
    fileAt? t p (i :: place) =
      own.bases[i]?.bind fun base => fileAt? t (basePath p base) place := by
  rw [fileAt?, hown]

/-- Whether the file at a place offends, in a chain of at most `depth` files: by its depth, and
else by what it fails with. -/
def Offends (t : FileTree) (depth : Nat) (p : Path) (place : List Nat) (e : SettingsError) : Prop :=
  ∃ q, fileAt? t p place = some q ∧
    (depth ≤ place.length ∧ e = .tooDeep ∨ place.length < depth ∧ Fails t q e)

/-- Whether loading comes by one place before another: by a file before it comes by what that
builds on, and by all below one base before it comes by the next. -/
def ComesBefore : List Nat → List Nat → Prop := List.Lex (· < ·)

/-- Whether the file at a place offends and none does that loading comes by before it. -/
structure IsFirstOffence (t : FileTree) (depth : Nat) (p : Path) (place : List Nat)
    (e : SettingsError) : Prop where
  offends : Offends t depth p place e
  first : ∀ place' e', ComesBefore place' place → ¬Offends t depth p place' e'

theorem comesBefore_trichotomy (place place' : List Nat) :
    ComesBefore place place' ∨ place = place' ∨ ComesBefore place' place := by
  induction place generalizing place' with
  | nil =>
    cases place' with
    | nil => exact .inr (.inl rfl)
    | cons j place' => exact .inl .nil
  | cons i place ih =>
    cases place' with
    | nil => exact .inr (.inr .nil)
    | cons j place' =>
      rcases Nat.lt_trichotomy i j with hlt | rfl | hgt
      · exact .inl (.rel hlt)
      · rcases ih place' with hbefore | rfl | hafter
        · exact .inl (.cons hbefore)
        · exact .inr (.inl rfl)
        · exact .inr (.inr (.cons hafter))
      · exact .inr (.inr (.rel hgt))

theorem Offends.unique (h : Offends t depth p place e) (h' : Offends t depth p place e') :
    e = e' := by
  obtain ⟨q, hq, hcases⟩ := h
  obtain ⟨q', hq', hcases'⟩ := h'
  obtain rfl := Option.some.inj (hq.symm.trans hq')
  rcases hcases with ⟨hdeep, rfl⟩ | ⟨hdepth, hfails⟩
  · rcases hcases' with ⟨-, rfl⟩ | ⟨hdepth, -⟩
    · rfl
    · exact absurd hdeep (Nat.not_le.mpr hdepth)
  · rcases hcases' with ⟨hdeep, -⟩ | ⟨-, hfails'⟩
    · exact absurd hdeep (Nat.not_le.mpr hdepth)
    · exact hfails.unique hfails'

theorem IsFirstOffence.unique (h : IsFirstOffence t depth p place e)
    (h' : IsFirstOffence t depth p place' e') : e = e' := by
  rcases comesBefore_trichotomy place place' with hbefore | rfl | hafter
  · exact absurd h.offends (h'.first place e hbefore)
  · exact h.offends.unique h'.offends
  · exact absurd h'.offends (h.first place' e' hafter)

theorem offends_zero : Offends t 0 p [] .tooDeep := ⟨p, rfl, .inl ⟨Nat.le_refl 0, rfl⟩⟩

/-- A file that may be read offends by what it fails with. -/
theorem offends_nil : Offends t (depth + 1) p [] e ↔ Fails t p e := by
  constructor
  · rintro ⟨q, hq, ⟨hdeep, -⟩ | ⟨-, hfails⟩⟩
    · exact absurd hdeep (Nat.not_succ_le_zero depth)
    · exact Option.some.inj hq ▸ hfails
  · intro h
    exact ⟨p, rfl, .inr ⟨Nat.succ_pos depth, h⟩⟩

/-- Below a file that could be read offends what offends below one of its bases. -/
theorem offends_cons (hown : readFile t p = .ok own) :
    Offends t (depth + 1) p (i :: place) e ↔
      ∃ base, own.bases[i]? = some base ∧ Offends t depth (basePath p base) place e := by
  unfold Offends
  simp only [fileAt?_cons hown, Option.bind_eq_some_iff, List.length_cons,
    Nat.add_le_add_iff_right, Nat.add_lt_add_iff_right]
  constructor
  · rintro ⟨q, ⟨base, hbase, hq⟩, hcases⟩
    exact ⟨base, hbase, q, hq, hcases⟩
  · rintro ⟨base, hbase, q, hq, hcases⟩
    exact ⟨q, ⟨base, hbase, hq⟩, hcases⟩

/-! ## Loading -/

/-- Adding bases one by one stops at the first that does not load. -/
theorem foldlM_addBase_eq_error {bases : List String} {acc : Settings}
    (h : bases.foldlM (addBase t depth p) acc = .error e) :
    ∃ (i : Nat) (base : String), bases[i]? = some base ∧
      loadWithin t depth (basePath p base) = .error e ∧
      ∀ j < i, ∀ base', bases[j]? = some base' →
        ∃ s, loadWithin t depth (basePath p base') = .ok s := by
  induction bases generalizing acc with
  | nil => cases h
  | cons base bases ih =>
    rw [List.foldlM_cons] at h
    cases hload : loadWithin t depth (basePath p base) with
    | error e' =>
      have hadd : addBase t depth p acc base = .error e' := by
        rw [addBase, hload]
        rfl
      rw [hadd] at h
      cases h
      exact ⟨0, base, rfl, hload, fun j hj => absurd hj (Nat.not_lt_zero j)⟩
    | ok layer =>
      have hadd : addBase t depth p acc base = .ok (acc.merge layer) := by
        rw [addBase, hload]
        rfl
      rw [hadd] at h
      obtain ⟨i, base', hbase', hload', hfirst⟩ := ih h
      refine ⟨i + 1, base', hbase', hload', ?_⟩
      intro j hj other hother
      cases j with
      | zero =>
        obtain rfl := Option.some.inj hother
        exact ⟨layer, hload⟩
      | succ j => exact hfirst j (Nat.lt_of_succ_lt_succ hj) other hother

/-- Bases that were all added did all load. -/
theorem exists_layer_of_foldlM {bases : List String} {acc below : Settings} {base : String}
    (h : bases.foldlM (addBase t depth p) acc = .ok below) (hbase : base ∈ bases) :
    ∃ layer, loadWithin t depth (basePath p base) = .ok layer := by
  induction bases generalizing acc with
  | nil => cases hbase
  | cons first bases ih =>
    rw [List.foldlM_cons] at h
    obtain ⟨next, hnext, h⟩ := bind_eq_ok.mp h
    rcases List.mem_cons.mp hbase with rfl | hbase
    · obtain ⟨layer, hlayer, -⟩ := map_eq_ok.mp hnext
      exact ⟨layer, hlayer⟩
    · exact ih h hbase

/-- Nothing offends where settings load. -/
theorem not_offends_of_loadWithin (h : loadWithin t depth p = .ok s) :
    ¬Offends t depth p place e := by
  intro hoffends
  induction depth generalizing p s place with
  | zero => cases h
  | succ depth ih =>
    rw [loadWithin_succ] at h
    obtain ⟨own, hown, h⟩ := bind_eq_ok.mp h
    cases place with
    | nil => exact not_holds_of_fails (offends_nil.mp hoffends) (readFile_eq_ok_iff.mp hown)
    | cons i place =>
      obtain ⟨base, hbase, hbelow⟩ := (offends_cons hown).mp hoffends
      obtain ⟨below, hbases, -⟩ := map_eq_ok.mp h
      obtain ⟨layer, hlayer⟩ := exists_layer_of_foldlM hbases (List.mem_of_getElem? hbase)
      exact ih hlayer hbelow

/-- **Loading fails with what the first file that offends fails with.** -/
theorem exists_first_of_loadWithin (h : loadWithin t depth p = .error e) :
    ∃ place, IsFirstOffence t depth p place e := by
  induction depth generalizing p e with
  | zero =>
    cases h
    exact ⟨[], offends_zero, fun _ _ hbefore => absurd hbefore (by rintro ⟨⟩)⟩
  | succ depth ih =>
    rw [loadWithin_succ] at h
    cases hown : readFile t p with
    | error e' =>
      rw [hown] at h
      cases h
      exact ⟨[], offends_nil.mpr (readFile_eq_error_iff.mp hown),
        fun _ _ hbefore => absurd hbefore (by rintro ⟨⟩)⟩
    | ok own =>
      rw [hown] at h
      have hfold : own.bases.foldlM (addBase t depth p) {} = .error e := by
        cases hfold : own.bases.foldlM (addBase t depth p) {} with
        | error e' =>
          rw [Except.bind, hfold] at h
          exact h
        | ok below =>
          rw [Except.bind, hfold] at h
          cases h
      obtain ⟨i, base, hbase, hload, hearlier⟩ := foldlM_addBase_eq_error hfold
      obtain ⟨place, hfirst⟩ := ih hload
      refine ⟨i :: place, (offends_cons hown).mpr ⟨base, hbase, hfirst.offends⟩, ?_⟩
      intro place' e' hbefore hoffends
      cases hbefore with
      | nil => exact not_holds_of_fails (offends_nil.mp hoffends) (readFile_eq_ok_iff.mp hown)
      | rel hlt =>
        obtain ⟨base', hbase', hbelow⟩ := (offends_cons hown).mp hoffends
        obtain ⟨layer, hlayer⟩ := hearlier _ hlt base' hbase'
        exact not_offends_of_loadWithin hlayer hbelow
      | cons hbefore =>
        obtain ⟨base', hbase', hbelow⟩ := (offends_cons hown).mp hoffends
        obtain rfl := Option.some.inj (hbase.symm.trans hbase')
        exact hfirst.first _ e' hbefore hbelow

/-! ## Files that come back below themselves -/

/-- Whether a settings file could be read and names another as a base. -/
def BuildsOn (t : FileTree) (p q : Path) : Prop :=
  ∃ own, readFile t p = .ok own ∧ ∃ base ∈ own.bases, basePath p base = q

theorem reaches_of_readFile (h : readFile t p = .ok own) : ∃ l, t.Reaches p l := by
  obtain ⟨text, -, hread, -⟩ := readFile_eq_ok_iff.mp h
  exact reaches_of_readText hread

variable {l m : Location}

/-- A settings file is the same under all paths that lead to it. -/
theorem readFile_eq_of_reaches (hp : t.Reaches p l) (hq : t.Reaches q l) :
    readFile t p = readFile t q := by
  rw [readFile, readFile, hp.readText_eq hq, hp.extension?_eq hq]

/-- A base leads to the same file under all paths to the file that names it. -/
theorem reaches_basePath {base : String} (hp : t.Reaches p l) (hq : t.Reaches q l)
    (hbase : t.Reaches (basePath p base) m) : t.Reaches (basePath q base) m := by
  unfold basePath at hbase ⊢
  split at hbase
  · next habsolute => rwa [if_pos habsolute]
  · next hrelative =>
    rw [Bool.not_eq_true] at hrelative
    rw [hrelative, if_neg Bool.false_ne_true, hq.reaches_beside hrelative]
    exact (hp.reaches_beside hrelative m).mp hbase

mutual

/-- **A settings file unrolls to the same tree under all paths that lead to it.** -/
theorem unrolls_of_reaches {p q : Path} {l : Location} (hp : t.Reaches p l) (hq : t.Reaches q l) :
    {tree : SettingsTree} → Unrolls t p tree → Unrolls t q tree
  | .file _ _, ⟨hown, hbelow⟩ =>
    ⟨(readFile_eq_of_reaches hp hq).symm.trans hown, unrollsAll_of_reaches hp hq hbelow⟩

theorem unrollsAll_of_reaches {p q : Path} {l : Location} (hp : t.Reaches p l)
    (hq : t.Reaches q l) {bases : List String} :
    {below : List SettingsTree} → UnrollsAll t p bases below → UnrollsAll t q bases below
  | [], h => by
    cases bases with
    | nil => trivial
    | cons base bases => exact False.elim h
  | .file own below :: rest, h => by
    cases bases with
    | nil => exact False.elim h
    | cons base bases =>
      obtain ⟨hfirst, hrest⟩ := h
      obtain ⟨m, hm⟩ := reaches_of_readFile hfirst.1
      exact ⟨unrolls_of_reaches hm (reaches_basePath hp hq hm) hfirst,
        unrollsAll_of_reaches hp hq hrest⟩

end

/-- What a file builds on unrolls to a smaller tree. -/
theorem UnrollsAll.exists_of_mem {bases : List String} {below : List SettingsTree} {base : String}
    (h : UnrollsAll t p bases below) (hbase : base ∈ bases) :
    ∃ tree, Unrolls t (basePath p base) tree ∧ tree.height ≤ heightAll below := by
  induction bases generalizing below with
  | nil => cases hbase
  | cons first bases ih =>
    obtain ⟨tree, rest, rfl, htree, hrest⟩ := h.exists_cons
    rcases List.mem_cons.mp hbase with rfl | hbase
    · exact ⟨tree, htree, Nat.le_max_left _ _⟩
    · obtain ⟨tree', htree', hheight⟩ := ih hrest hbase
      exact ⟨tree', htree', Nat.le_trans hheight (Nat.le_max_right _ _)⟩

theorem BuildsOn.exists_tree (h : BuildsOn t p q) {tree : SettingsTree} (htree : Unrolls t p tree) :
    ∃ tree', Unrolls t q tree' ∧ tree'.height < tree.height := by
  obtain ⟨own, hown, base, hbase, rfl⟩ := h
  obtain ⟨own', below⟩ := tree
  obtain rfl : own = own' := Except.ok.inj (hown.symm.trans htree.1)
  obtain ⟨tree', htree', hheight⟩ := UnrollsAll.exists_of_mem htree.2 hbase
  exact ⟨tree', htree', Nat.lt_succ_of_le hheight⟩

theorem exists_tree_of_transGen (h : TransGen (BuildsOn t) p q) {tree : SettingsTree}
    (htree : Unrolls t p tree) : ∃ tree', Unrolls t q tree' ∧ tree'.height < tree.height := by
  induction h with
  | single h => exact h.exists_tree htree
  | tail _ h ih =>
    obtain ⟨tree', htree', hheight⟩ := ih
    obtain ⟨tree'', htree'', hheight'⟩ := h.exists_tree htree'
    exact ⟨tree'', htree'', Nat.lt_trans hheight' hheight⟩

/-- **A file that comes back below itself unrolls to no tree**: the tree would be higher than
itself. -/
theorem not_unrolls_of_cycle (h : TransGen (BuildsOn t) q r) (hsame : t.resolve r = t.resolve q)
    (tree : SettingsTree) : ¬Unrolls t q tree := by
  intro htree
  obtain ⟨tree', htree', hheight⟩ := exists_tree_of_transGen h htree
  obtain ⟨l, hl⟩ : ∃ l, t.Reaches q l := by
    obtain ⟨own, below⟩ := tree
    exact reaches_of_readFile htree.1
  have hr : t.Reaches r l := ⟨hsame.trans hl.resolve, hl.file⟩
  rw [(unrolls_of_reaches hr hl htree').unique htree] at hheight
  exact Nat.lt_irrefl _ hheight

theorem exists_error_of_cycle (hq : ReflTransGen (BuildsOn t) p q)
    (hr : TransGen (BuildsOn t) q r) (hsame : t.resolve r = t.resolve q) :
    ∃ e, loadWithin t depth p = .error e := by
  cases hload : loadWithin t depth p with
  | error e => exact ⟨e, rfl⟩
  | ok s =>
    obtain ⟨tree, htree, -, -⟩ := loadWithin_eq_ok.mp hload
    obtain ⟨tree', htree'⟩ : ∃ tree', Unrolls t q tree' := by
      rcases reflTransGen_iff_eq_or_transGen.mp hq with rfl | hq
      · exact ⟨tree, htree⟩
      · obtain ⟨tree', htree', -⟩ := exists_tree_of_transGen hq htree
        exact ⟨tree', htree'⟩
    exact absurd htree' (not_unrolls_of_cycle hr hsame tree')

/-! ## Outcomes -/

theorem loadWithin_eq_error_iff :
    loadWithin t depth p = .error e ↔ ∃ place, IsFirstOffence t depth p place e := by
  constructor
  · exact exists_first_of_loadWithin
  · rintro ⟨place, hfirst⟩
    cases hload : loadWithin t depth p with
    | ok s => exact absurd hfirst.offends (not_offends_of_loadWithin hload)
    | error e' =>
      obtain ⟨place', hfirst'⟩ := exists_first_of_loadWithin hload
      rw [hfirst.unique hfirst']

theorem exists_loadWithin_iff : (∃ s, loadWithin t depth p = .ok s) ↔
    ∀ place q, fileAt? t p place = some q → place.length < depth ∧ ∃ s, Holds t q s := by
  constructor
  · rintro ⟨s, h⟩ place q hq
    have hdepth : place.length < depth := by
      refine Nat.lt_of_not_le ?_
      intro hdeep
      exact not_offends_of_loadWithin h ⟨q, hq, .inl ⟨hdeep, rfl⟩⟩
    refine ⟨hdepth, ?_⟩
    cases hfile : readFile t q with
    | ok own => exact ⟨own, readFile_eq_ok_iff.mp hfile⟩
    | error e =>
      have hfails := readFile_eq_error_iff.mp hfile
      exact absurd ⟨q, hq, .inr ⟨hdepth, hfails⟩⟩ (not_offends_of_loadWithin h)
  · intro h
    cases hload : loadWithin t depth p with
    | ok s => exact ⟨s, rfl⟩
    | error e =>
      obtain ⟨place, ⟨q, hq, hcases⟩, -⟩ := exists_first_of_loadWithin hload
      obtain ⟨hdepth, s, hs⟩ := h place q hq
      rcases hcases with ⟨hdeep, -⟩ | ⟨-, hfails⟩
      · exact absurd hdeep (Nat.not_le.mpr hdepth)
      · exact absurd hs (not_holds_of_fails hfails)

/-- **When settings load, and what they fail with.**  They load just where no chain of the tree of
all that their file builds on has more than ten files and each file of it holds settings.  Else
loading fails with the error of the first file that offends, in the order in which it comes by
them.  In particular it fails where a file builds on itself, directly or not, by whichever paths. -/
theorem load_outcome (t : FileTree) (p : Path) :
    ((∃ s, load t p = .ok s) ↔
      ∀ place q, fileAt? t p place = some q → place.length < 10 ∧ ∃ s, Holds t q s) ∧
    (∀ e, load t p = .error e ↔ ∃ place, IsFirstOffence t 10 p place e) ∧
    ∀ q r, ReflTransGen (BuildsOn t) p q → TransGen (BuildsOn t) q r →
      t.resolve r = t.resolve q → ∃ e, load t p = .error e := by
  refine ⟨exists_loadWithin_iff, fun e => loadWithin_eq_error_iff, ?_⟩
  intro q r hq hr hsame
  exact exists_error_of_cycle hq hr hsame

/-- A settings file that builds on one that builds on itself, under another path, and on one that
is not there. -/
def circling : FileTree where
  nodes :=
    [(["work", "top.yaml"], .file (.text "extends: [loop.yaml, gone.yaml]\n")),
     (["work", "loop.yaml"], .file (.text "extends: [../work/loop.yaml]\n"))]

theorem load_outcome_circling :
    circling.resolve ⟨"../work/loop.yaml"⟩ = circling.resolve ⟨"loop.yaml"⟩ ∧
    ∃ e, load circling ⟨"top.yaml"⟩ = .error e ∧
      ∃ place, IsFirstOffence circling 10 ⟨"top.yaml"⟩ place e := by
  have hsame : circling.resolve ⟨"../work/loop.yaml"⟩ = circling.resolve ⟨"loop.yaml"⟩ :=
    rfl
  have hbases (p : Path) (base : String) (rest : List String)
      (h : (readFile circling p).toOption.map (fun s => s.bases) = some (base :: rest)) :
      BuildsOn circling p (basePath p base) := by
    obtain ⟨own, hown, hown'⟩ := exists_ok_of_toOption h
    exact ⟨own, hown, base, hown' ▸ List.mem_cons_self, rfl⟩
  have htop : BuildsOn circling ⟨"top.yaml"⟩ ⟨"loop.yaml"⟩ :=
    hbases _ "loop.yaml" ["gone.yaml"] (by decide +kernel)
  have hloop : BuildsOn circling ⟨"loop.yaml"⟩ ⟨"../work/loop.yaml"⟩ :=
    hbases _ "../work/loop.yaml" [] (by decide +kernel)
  obtain ⟨e, he⟩ := (load_outcome circling ⟨"top.yaml"⟩).2.2 ⟨"loop.yaml"⟩ ⟨"../work/loop.yaml"⟩
    (.single htop) (.single hloop) hsame
  exact ⟨hsame, e, he, ((load_outcome circling ⟨"top.yaml"⟩).2.1 e).mp he⟩

end Settings

end StyleEngine
