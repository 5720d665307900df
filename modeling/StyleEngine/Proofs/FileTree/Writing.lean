import StyleEngine.FileTree
import StyleEngine.Proofs.Cache.Entries

/-! # Reading what was written to a file tree

A node that is put in a tree or taken from it leaves all others where they are.  Files
are put where no directory is, so that a path that led somewhere still leads there,
and the file that was written or moved is found under its path.
-/
namespace StyleEngine

namespace FileTree

variable {t t' : FileTree} {p : Path} {c : Content}

/-! ## Nodes -/

theorem node?_put_of_ne {l m : Location} (n : Node) (h : m ≠ l) :
    (t.put l n).node? m = t.node? m := by
  have hlookup : (t.put l n).nodes.lookup m = t.nodes.lookup m := by
    rw [put, List.lookup_append, Record.lookup_filter_ne, if_neg h, Record.lookup_cons_ne h,
      List.lookup_nil, Option.or_none]
  unfold node?
  rw [hlookup]
  rfl

/-- A node can be put wherever no directory is. -/
theorem node?_put_self {l : Location} (n : Node) (h : t.node? l ≠ some .directory) :
    (t.put l n).node? l = some n := by
  have hwork : l.isPrefixOf t.workingDirectory = false := by
    refine Bool.eq_false_iff.mpr ?_
    intro hwork
    exact h (if_pos hwork)
  have hlookup : (t.put l n).nodes.lookup l = some n := by
    rw [put, List.lookup_append, Record.lookup_filter_ne, if_pos rfl, List.lookup_cons_self,
      Option.none_or]
  show (if l.isPrefixOf t.workingDirectory then _ else _) = _
  rw [hwork, hlookup]
  rfl

theorem node?_erase_of_ne {l m : Location} (h : m ≠ l) : (t.erase l).node? m = t.node? m := by
  have hlookup : (t.erase l).nodes.lookup m = t.nodes.lookup m := by
    rw [erase, Record.lookup_filter_ne, if_neg h]
  unfold node?
  rw [hlookup]
  rfl

theorem node?_of_node?_erase {l m : Location} {n : Node} (h : (t.erase l).node? m = some n) :
    t.node? m = some n := by
  unfold node? at h ⊢
  split at h
  · next hwork => exact (if_pos hwork).trans h
  · next hwork =>
    rw [erase, Record.lookup_filter_ne] at h
    split at h
    · cases h
    · exact (if_neg hwork).trans h

/-! ## Directories that stay -/

/-- Whether the directories of one tree are directories of another. -/
structure KeepsDirectories (t t' : FileTree) : Prop where
  workingDirectory : t'.workingDirectory = t.workingDirectory
  node? : ∀ l, t.node? l = some .directory → t'.node? l = some .directory

theorem keepsDirectories_put {l : Location} (n : Node) (h : t.node? l ≠ some .directory) :
    KeepsDirectories t (t.put l n) where
  workingDirectory := rfl
  node? m hm := by
    have hne : m ≠ l := fun heq => h (heq ▸ hm)
    rw [node?_put_of_ne n hne, hm]

theorem keepsDirectories_erase {l : Location} (h : t.node? l ≠ some .directory) :
    KeepsDirectories t (t.erase l) where
  workingDirectory := rfl
  node? m hm := by
    have hne : m ≠ l := fun heq => h (heq ▸ hm)
    rw [node?_erase_of_ne hne, hm]

theorem KeepsDirectories.trans {t₁ t₂ t₃ : FileTree} (h : KeepsDirectories t₁ t₂)
    (h' : KeepsDirectories t₂ t₃) : KeepsDirectories t₁ t₃ where
  workingDirectory := h'.workingDirectory.trans h.workingDirectory
  node? l hl := h'.node? l (h.node? l hl)

/-- Segments that lead somewhere lead there while the directories stay. -/
theorem KeepsDirectories.follow (h : KeepsDirectories t t') {l m : Location}
    {segments : List String} (hm : t.follow l segments = .ok m) :
    t'.follow l segments = .ok m := by
  induction segments generalizing l with
  | nil => exact hm
  | cons s rest ih =>
    unfold FileTree.follow at hm ⊢
    split at hm
    · cases hm
    · cases hm
    · next hdir =>
      rw [h.node? l hdir]
      simp only
      split at hm
      · next hs => rw [if_pos hs, ih hm]
      · next hs =>
        rw [if_neg hs]
        split at hm
        · next hup => rw [if_pos hup, ih hm]
        · next hup => rw [if_neg hup, ih hm]

/-- **A path that leads somewhere leads there while the directories stay.** -/
theorem KeepsDirectories.resolve (h : KeepsDirectories t t') {l : Location}
    (hl : t.resolve p = .ok l) : t'.resolve p = .ok l := by
  unfold FileTree.resolve at hl ⊢
  split at hl
  · cases hl
  · next hempty => rw [if_neg hempty, h.workingDirectory, h.follow hl]

/-! ## Files -/

theorem read_of_node? {l : Location} (hl : t.resolve p = .ok l)
    (hn : t.node? l = some (.file c)) : t.read p = .ok c := by
  simp only [read, find, hl, hn]

theorem node?_of_read {l : Location} (hl : t.resolve p = .ok l) (h : t.read p = .ok c) :
    t.node? l = some (.file c) := by
  simp only [read, find, hl] at h
  cases hn : t.node? l with
  | none => simp [hn] at h
  | some n =>
    cases n with
    | directory => simp [hn] at h
    | file c' => simpa [hn] using h

/-- Whether a file can be put at a location: in the place of another or in a directory. -/
def Takes (t : FileTree) (l : Location) : Prop :=
  (∃ c, t.node? l = some (.file c)) ∨ t.node? l = none ∧ t.node? l.dropLast = some .directory

theorem Takes.ne_directory {l : Location} (h : t.Takes l) : t.node? l ≠ some .directory := by
  obtain ⟨c, hn⟩ | ⟨hn, -⟩ := h <;> simp [hn]

/-- When a write succeeds, and what it does. -/
theorem write_eq_ok_iff : t.write p c = .ok t' ↔
    ∃ l, t.resolve p = .ok l ∧ t.Takes l ∧ t' = t.put l (.file c) := by
  constructor
  · intro h
    unfold write at h
    split at h
    · split at h <;> cases h
    · next l hl =>
      refine ⟨l, hl, ?_⟩
      split at h
      · cases h
      · next c' hn => exact ⟨.inl ⟨c', hn⟩, (Except.ok.inj h).symm⟩
      · next hn =>
        split at h
        · next habove => exact ⟨.inr ⟨hn, habove⟩, (Except.ok.inj h).symm⟩
        · cases h
        · cases h
  · rintro ⟨l, hl, ⟨c', hn⟩ | ⟨hn, habove⟩, rfl⟩
    · simp only [write, hl, hn]
    · simp only [write, hl, hn, habove]

/-- **A file that was written is read.** -/
theorem read_write (h : t.write p c = .ok t') : t'.read p = .ok c := by
  obtain ⟨l, hl, htakes, rfl⟩ := write_eq_ok_iff.mp h
  have hn := htakes.ne_directory
  exact read_of_node? ((keepsDirectories_put (.file c) hn).resolve hl) (node?_put_self _ hn)

/-- When a move succeeds, and what it does. -/
theorem rename_eq_ok_iff {source target : Path} : t.rename source target = .ok t' ↔
    ∃ l m c, t.resolve source = .ok l ∧ t.read source = .ok c ∧ t.resolve target = .ok m ∧
      t.Takes m ∧ t' = (t.erase l).put m (.file c) := by
  constructor
  · intro h
    unfold rename at h
    split at h
    · cases h
    · cases h
    · cases h
    · next l c m hl hc hm =>
      refine ⟨l, m, c, hl, hc, hm, ?_⟩
      split at h
      · cases h
      · next c' hn => exact ⟨.inl ⟨c', hn⟩, (Except.ok.inj h).symm⟩
      · next hn =>
        split at h
        · next habove => exact ⟨.inr ⟨hn, habove⟩, (Except.ok.inj h).symm⟩
        · cases h
        · cases h
  · rintro ⟨l, m, c, hl, hc, hm, ⟨c', hn⟩ | ⟨hn, habove⟩, rfl⟩
    · simp only [rename, hl, hc, hm, hn]
    · simp only [rename, hl, hc, hm, hn, habove]

/-- **A file that was moved is read where it was moved to.** -/
theorem read_rename {source target : Path} (h : t.rename source target = .ok t')
    (hc : t.read source = .ok c) : t'.read target = .ok c := by
  obtain ⟨l, m, c', hl, hc', hm, htakes, rfl⟩ := rename_eq_ok_iff.mp h
  obtain rfl := Except.ok.inj (hc'.symm.trans hc)
  have hfile : t.node? l ≠ some .directory := by simp [node?_of_read hl hc]
  have herase := keepsDirectories_erase hfile
  have hplace : (t.erase l).node? m ≠ some .directory := fun hdir =>
    htakes.ne_directory (node?_of_node?_erase hdir)
  exact read_of_node? ((herase.trans (keepsDirectories_put _ hplace)).resolve hm)
    (node?_put_self _ hplace)

/-! ## Trees with the same places -/

/-- Whether two trees have files and directories in the same places, whatever the files hold. -/
structure SamePlaces (t t' : FileTree) : Prop where
  workingDirectory : t'.workingDirectory = t.workingDirectory
  node? : ∀ l, t'.node? l = t.node? l ∨
    ∃ c c', t.node? l = some (.file c) ∧ t'.node? l = some (.file c')

theorem samePlaces_put {l : Location} (h : t.node? l ≠ some .directory) (c c' : Content) :
    SamePlaces (t.put l (.file c)) (t.put l (.file c')) where
  workingDirectory := rfl
  node? m := by
    by_cases hm : m = l
    · subst hm
      exact .inr ⟨c, c', node?_put_self _ h, node?_put_self _ h⟩
    · rw [node?_put_of_ne _ hm, node?_put_of_ne _ hm]
      exact .inl rfl

namespace SamePlaces

theorem directory (h : SamePlaces t t') {l : Location} (hn : t.node? l = some .directory) :
    t'.node? l = some .directory := by
  obtain hsame | ⟨c, c', hfile, -⟩ := h.node? l
  · rw [hsame, hn]
  · rw [hn] at hfile
    cases hfile

theorem file (h : SamePlaces t t') {l : Location} (hn : t.node? l = some (.file c)) :
    ∃ c', t'.node? l = some (.file c') := by
  obtain hsame | ⟨-, c', -, hfile⟩ := h.node? l
  · exact ⟨c, hsame.trans hn⟩
  · exact ⟨c', hfile⟩

theorem none (h : SamePlaces t t') {l : Location} (hn : t.node? l = .none) :
    t'.node? l = .none := by
  obtain hsame | ⟨c, c', hfile, -⟩ := h.node? l
  · rw [hsame, hn]
  · rw [hn] at hfile
    cases hfile

theorem keepsDirectories (h : SamePlaces t t') : KeepsDirectories t t' :=
  ⟨h.workingDirectory, fun _ hl => h.directory hl⟩

theorem takes (h : SamePlaces t t') {l : Location} (ht : t.Takes l) : t'.Takes l := by
  obtain ⟨c, hn⟩ | ⟨hn, habove⟩ := ht
  · exact .inl (h.file hn)
  · exact .inr ⟨h.none hn, h.directory habove⟩

/-- **Whether a file can be moved does not depend on what is in the files.** -/
theorem rename (h : SamePlaces t t') {source target : Path} {t₁ : FileTree}
    (hmove : t.rename source target = .ok t₁) : ∃ t₂, t'.rename source target = .ok t₂ := by
  obtain ⟨l, m, c, hl, hc, hm, htakes, -⟩ := rename_eq_ok_iff.mp hmove
  have hl' := h.keepsDirectories.resolve hl
  obtain ⟨c', hn⟩ := h.file (node?_of_read hl hc)
  exact ⟨_, rename_eq_ok_iff.mpr ⟨l, m, c', hl', read_of_node? hl' hn,
    h.keepsDirectories.resolve hm, h.takes htakes, rfl⟩⟩

end SamePlaces

end FileTree

end StyleEngine
