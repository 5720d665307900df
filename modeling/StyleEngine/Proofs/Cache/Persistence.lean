import StyleEngine.Cache.Basic
import StyleEngine.Proofs.Cache.StoredDocument

/-! # What a store keeps of a cache

A cache that is not dirty can be left: a cache that is opened over its store has the
same document, but for the spelling of the files in violations, which count as equal
if they have the same components (`Cache.Session.persists`).  Each edit says by the
dirty mark whether it left the document as it was (`Cache.Turns`); a session is any
sequence of edits and flushes over a store, with anything happening to the rest of the
file tree in between.
-/
namespace StyleEngine

/-! ## Entries that say the same -/

/-- What a violation says, whatever the spelling of its file. -/
def Violation.gist (v : Violation) :
    String × Nat × Option String × Option (List Component) × String × Severity × Option Fix :=
  (v.ruleId, v.line, v.element, v.file.map Path.components, v.message, v.severity, v.fix)

theorem Violation.sameFile_iff (p q : Option Path) :
    sameFile p q = true ↔ p.map Path.components = q.map Path.components := by
  cases p <;> cases q <;> simp [sameFile, Path.sameAs]

theorem Violation.agrees_iff (v w : Violation) : v.agrees w = true ↔ v.gist = w.gist := by
  simp only [agrees, sameOccurrence, gist, Bool.and_eq_true, beq_iff_eq, sameFile_iff,
    Prod.mk.injEq, and_assoc]

namespace FileEntry

/-- What an entry says, whatever the spelling of files. -/
def gist (e : FileEntry) :=
  (e.configuration, e.settingsDigest, e.contentDigest, e.violations.map Violation.gist)

theorem agrees_iff (a b : FileEntry) : a.agrees b = true ↔ a.gist = b.gist := by
  have hviolations (vs ws : List Violation) :
      (vs.length = ws.length ∧ ((vs.zip ws).all fun vw => vw.1.agrees vw.2) = true) ↔
        vs.map Violation.gist = ws.map Violation.gist := by
    induction vs generalizing ws with
    | nil => cases ws <;> simp
    | cons v vs ih =>
      cases ws with
      | nil => simp
      | cons w ws =>
        rw [List.map_cons, List.map_cons, List.cons.injEq, ← ih]
        simp only [List.length_cons, Nat.add_right_cancel_iff, List.zip_cons_cons, List.all_cons,
          Bool.and_eq_true, Violation.agrees_iff]
        exact and_left_comm
  simp only [agrees, gist, Bool.and_eq_true, beq_iff_eq, Prod.mk.injEq, and_assoc, hviolations]

end FileEntry

/-- Whether two documents are the same but for the spelling of files in violations. -/
structure CacheDocument.Agrees (d d' : CacheDocument) : Prop where
  version : d.version = d'.version
  projects : d.projects = d'.projects
  files : d.files.map (fun e => (e.1, e.2.gist)) = d'.files.map fun e => (e.1, e.2.gist)

namespace CacheDocument

theorem Agrees.refl (d : CacheDocument) : d.Agrees d := ⟨rfl, rfl, rfl⟩

theorem Agrees.trans {d₁ d₂ d₃ : CacheDocument} (h : d₁.Agrees d₂) (h' : d₂.Agrees d₃) :
    d₁.Agrees d₃ where
  version := h.version.trans h'.version
  projects := h.projects.trans h'.projects
  files := h.files.trans h'.files

end CacheDocument

/-! ## Edits -/

/-- What can be done to a cache but saving it. -/
inductive Cache.Edit where
  | saveProject (p : ProjectInfo) (settingsDigest : String)
  | saveFile (p : ProjectInfo) (f : SourceFile) (settingsDigest : String)
      (violations : List Violation)
  | removeFile (path : Path)
  | prune
  | clear

namespace Cache

/-- The cache after an edit, with the files that are there for `prune`. -/
def Edit.apply (t : FileTree) (c : Cache) : Edit → Cache
  | .saveProject p settingsDigest => c.saveProject p settingsDigest
  | .saveFile p f settingsDigest violations => c.saveFile p f settingsDigest violations
  | .removeFile path => c.removeFile path
  | .prune => (c.prune t).1
  | .clear => c.clear

/-- The violations that an edit brings in. -/
def Edit.violations : Edit → List Violation
  | .saveFile _ _ _ violations => violations
  | _ => []

/-- What an edit can do: the mark is left out only if the document says the same as before, and
set only if it is another one. -/
structure Turns (c c' : Cache) : Prop where
  store : c'.store = c.store
  version : c'.document.version = c.document.version
  storable : c'.document.IsStorable
  clean : c'.dirty = false → c.dirty = false ∧ c.document.Agrees c'.document
  dirty : c'.dirty = true → c.dirty = true ∨ c'.document ≠ c.document

end Cache

namespace Record

variable {α β : Type}

/-- Putting an entry that is there already changes nothing. -/
theorem insertSorted_of_lookup {k : String} {v : α} {l : List (String × α)} (h : IsOrdered l)
    (hk : l.lookup k = some v) : insertSorted k v l = l := by
  refine ext_of_lookup (isOrdered_insertSorted k v h) h ?_
  intro q
  rw [lookup_insertSorted]
  split
  · next hq => rw [hq, hk]
  · rfl

/-- Putting an entry in the place of one that says the same leaves what the list says. -/
theorem map_insertSorted_of_lookup (f : α → β) {k : String} {v old : α} {l : List (String × α)}
    (h : IsOrdered l) (hk : l.lookup k = some old) (hf : f old = f v) :
    (insertSorted k v l).map (fun e => (e.1, f e.2)) = l.map fun e => (e.1, f e.2) := by
  unfold IsOrdered at h
  induction l with
  | nil => cases hk
  | cons e rest ih =>
    obtain ⟨k₁, v₁⟩ := e
    rw [List.pairwise_cons] at h
    simp only [insertSorted]
    split
    · next hlt =>
      -- the key stands before all others, where no entry is
      have hnone : ((k₁, v₁) :: rest).lookup k = none := by
        refine lookup_eq_none_of_lt ?_
        intro e he
        rcases List.mem_cons.mp he with rfl | he
        · exact hlt
        · exact String.lt_trans hlt (h.1 e he)
      rw [hnone] at hk
      cases hk
    · split
      · next heq =>
        subst heq
        rw [List.lookup_cons_self] at hk
        rw [List.map_cons, List.map_cons, ← hf, Option.some.inj hk]
      · next hne =>
        rw [lookup_cons_ne hne] at hk
        rw [List.map_cons, List.map_cons, ih h.2 hk]

end Record

namespace Cache

variable {c : Cache}

theorem turns_saveProject (h : c.document.IsStorable) (p : ProjectInfo) (settingsDigest : String) :
    Turns c (c.saveProject p settingsDigest) where
  store := rfl
  version := rfl
  storable := { h with projects := Record.isOrdered_insertSorted _ _ h.projects }
  clean hclean := by
    simp only [saveProject, Bool.or_eq_false_iff, bne_eq_false_iff_eq] at hclean
    refine ⟨hclean.1, rfl, ?_, rfl⟩
    exact (Record.insertSorted_of_lookup h.projects hclean.2).symm
  dirty hdirty := by
    simp only [saveProject, Bool.or_eq_true, bne_iff_ne] at hdirty
    refine hdirty.imp id ?_
    intro hnew heq
    have hlookup := congrArg (fun d => d.projects.lookup p.cacheKey) heq
    simp only [saveProject, Record.lookup_insertSorted, if_pos] at hlookup
    exact hnew hlookup.symm

theorem turns_putEntry (h : c.document.IsStorable) (key : String) {e : FileEntry}
    (he : ∀ v ∈ e.violations, v.line ≤ Record.maxCount) : Turns c (c.putEntry key e) where
  store := rfl
  version := rfl
  storable := by
    refine { h with files := Record.isOrdered_insertSorted _ _ h.files, lines := ?_ }
    intro x hx
    rcases Record.eq_or_mem_of_mem_insertSorted hx with rfl | hx
    · exact he
    · exact h.lines x hx
  clean hclean := by
    simp only [putEntry, Bool.or_eq_false_iff, Bool.not_eq_false', Option.any_eq_true] at hclean
    obtain ⟨hclean, old, hold, hagrees⟩ := hclean
    refine ⟨hclean, rfl, rfl, ?_⟩
    have hgist := (FileEntry.agrees_iff ..).mp hagrees
    exact (Record.map_insertSorted_of_lookup FileEntry.gist h.files hold hgist).symm
  dirty hdirty := by
    simp only [putEntry, Bool.or_eq_true, Bool.not_eq_true'] at hdirty
    refine hdirty.imp id ?_
    intro hnew heq
    have hlookup := congrArg (fun d => d.files.lookup key) heq
    simp only [putEntry, Record.lookup_insertSorted, if_pos] at hlookup
    rw [← hlookup, Option.any_some, (FileEntry.agrees_iff e e).mpr rfl] at hnew
    cases hnew

theorem isStorable_filter (h : c.document.IsStorable) (P : String × FileEntry → Bool) :
    { c.document with files := c.document.files.filter P }.IsStorable :=
  { h with
    files := Record.isOrdered_filter P h.files
    lines := fun e he => h.lines e (List.mem_filter.mp he).1 }

theorem turns_removeFile (h : c.document.IsStorable) (path : Path) :
    Turns c (c.removeFile path) where
  store := rfl
  version := rfl
  storable := isStorable_filter h _
  clean hclean := by
    simp only [removeFile, Bool.or_eq_false_iff, Option.isSome_eq_false_iff,
      Option.isNone_iff_eq_none, List.lookup_eq_none_iff] at hclean
    refine ⟨hclean.1, rfl, rfl, ?_⟩
    have hkeep : c.document.files.filter (fun e => e.1 != path.cacheKey) = c.document.files := by
      refine List.filter_eq_self.mpr ?_
      intro e he
      rw [bne_comm]
      exact hclean.2 e he
    simp only [removeFile, hkeep]
  dirty hdirty := by
    simp only [removeFile, Bool.or_eq_true] at hdirty
    refine hdirty.imp id ?_
    intro hsome heq
    have hlookup := congrArg (fun d => d.files.lookup path.cacheKey) heq
    simp only [removeFile, Record.lookup_filter_ne, if_pos] at hlookup
    rw [← hlookup] at hsome
    cases hsome

theorem turns_prune (h : c.document.IsStorable) (t : FileTree) : Turns c (c.prune t).1 where
  store := rfl
  version := rfl
  storable := isStorable_filter h _
  clean hclean := by
    simp only [prune, Bool.or_eq_false_iff, bne_eq_false_iff_eq] at hclean
    refine ⟨hclean.1, rfl, rfl, ?_⟩
    have hlength : (c.document.files.filter fun e => t.exists? ⟨e.1⟩).length =
        c.document.files.length :=
      Nat.le_antisymm (List.length_filter_le ..) (Nat.le_of_sub_eq_zero hclean.2)
    have hkeep := List.length_filter_eq_length_iff.mp hlength
    simp only [prune, List.filter_eq_self.mpr hkeep]
  dirty hdirty := by
    simp only [prune, Bool.or_eq_true, bne_iff_ne] at hdirty
    refine hdirty.imp id ?_
    intro hremoved heq
    have hlength := congrArg (fun d => d.files.length) heq
    simp only [prune] at hlength
    omega

theorem turns_clear (h : c.document.IsStorable) : Turns c c.clear where
  store := rfl
  version := rfl
  storable := by
    refine { h with projects := List.Pairwise.nil, files := List.Pairwise.nil, lines := ?_ }
    exact fun e he => absurd he List.not_mem_nil
  clean hclean := by
    simp only [clear, Bool.or_eq_false_iff, Bool.not_eq_false', List.isEmpty_iff] at hclean
    obtain ⟨⟨hclean, hprojects⟩, hfiles⟩ := hclean
    exact ⟨hclean, rfl, hprojects, congrArg _ hfiles⟩
  dirty hdirty := by
    simp only [clear, Bool.or_eq_true, Bool.not_eq_true', List.isEmpty_eq_false_iff] at hdirty
    rcases hdirty with (hdirty | hprojects) | hfiles
    · exact .inl hdirty
    · exact .inr fun heq => hprojects (congrArg CacheDocument.projects heq).symm
    · exact .inr fun heq => hfiles (congrArg CacheDocument.files heq).symm

/-- **An edit marks the cache if and only if it has something new to save**, up to the spelling
of files. -/
theorem Edit.turns (h : c.document.IsStorable) (t : FileTree) (e : Edit)
    (he : ∀ v ∈ e.violations, v.line ≤ Record.maxCount) : Turns c (e.apply t c) := by
  cases e with
  | saveProject p settingsDigest => exact turns_saveProject h p settingsDigest
  | saveFile p f settingsDigest violations => exact turns_putEntry h _ he
  | removeFile path => exact turns_removeFile h path
  | prune => exact turns_prune h t
  | clear => exact turns_clear h

end Cache

/-! ## Sessions -/

/-- Whether a store holds no document in memory but one that can be stored. -/
def CacheStore.IsSound : CacheStore → Prop
  | .memory document _ => ∀ d ∈ document, d.IsStorable
  | .file _ => True

namespace Cache

/-- What can happen to a cache from its opening on: edits, saves that succeed or fail, and
anything around it that leaves the stored document as it is.  Of a cache and the tree around it,
the proposition says whether an edit has changed the document since it was last loaded or
saved. -/
inductive Session : Cache → FileTree → Prop → Prop
  | opened {store : CacheStore} (t : FileTree) (hstore : store.IsSound) :
      Session (openOver store t) t False
  | edit {c : Cache} {t : FileTree} {changed : Prop} (h : Session c t changed) (e : Edit)
      (he : ∀ v ∈ e.violations, v.line ≤ Record.maxCount) :
      Session (e.apply t c) t (changed ∨ (e.apply t c).document ≠ c.document)
  | flushed {c c' : Cache} {t t' : FileTree} {changed : Prop} (h : Session c t changed)
      (hflush : c.flush t = (c', t', .ok ())) : Session c' t' False
  | failed {c c' : Cache} {t t' : FileTree} {changed : Prop} {e : FileFault}
      (h : Session c t changed) (hflush : c.flush t = (c', t', .error e)) : Session c' t' changed
  | around {c : Cache} {t : FileTree} {changed : Prop} (h : Session c t changed) (t' : FileTree)
      (hload : c.store.load t' = c.store.load t) : Session c t' changed

/-- What holds of a cache all along. -/
structure Tracks (c : Cache) (t : FileTree) (changed : Prop) : Prop where
  storable : c.document.IsStorable
  version : ∀ path, c.store = .file path → c.document.version = cacheVersion
  reopens : c.dirty = false → (openOver c.store t).document.Agrees c.document
  changed : c.dirty = true → changed

theorem isStorable_empty : ({} : CacheDocument).IsStorable :=
  ⟨by decide, List.Pairwise.nil, List.Pairwise.nil, fun _ he => absurd he List.not_mem_nil⟩

/-- What is loaded from a store can be saved there. -/
theorem isStorable_of_load {store : CacheStore} (hstore : store.IsSound) {t : FileTree}
    {d : CacheDocument} (h : store.load t = .ok (some d)) :
    d.IsStorable ∧ ∀ path, store = .file path → d.version = cacheVersion := by
  cases store with
  | memory document saves => exact ⟨hstore d (Except.ok.inj h), nofun⟩
  | file path =>
    simp only [CacheStore.load] at h
    split at h
    · cases h
    · cases h
    · cases h
    · obtain ⟨hd, hversion⟩ := CacheStore.isStorable_of_usable? (Except.ok.inj h)
      exact ⟨hd, fun _ _ => hversion⟩

theorem tracks_openOver {store : CacheStore} (hstore : store.IsSound) (t : FileTree) :
    Tracks (openOver store t) t False := by
  have hfacts : (openOver store t).document.IsStorable ∧
      ∀ path, store = .file path → (openOver store t).document.version = cacheVersion := by
    unfold openOver
    split
    · next hload => exact isStorable_of_load hstore hload
    · exact ⟨isStorable_empty, fun _ _ => rfl⟩
  have hopen : (openOver store t).store = store ∧ (openOver store t).dirty = false := by
    unfold openOver
    split <;> exact ⟨rfl, rfl⟩
  refine ⟨hfacts.1, ?_, ?_, ?_⟩
  · rw [hopen.1]
    exact hfacts.2
  · intro _
    rw [hopen.1]
    exact CacheDocument.Agrees.refl _
  · rw [hopen.2]
    exact nofun

theorem Tracks.edit {c : Cache} {t : FileTree} {changed : Prop} (h : c.Tracks t changed) {e : Edit}
    (he : ∀ v ∈ e.violations, v.line ≤ Record.maxCount) :
    (e.apply t c).Tracks t (changed ∨ (e.apply t c).document ≠ c.document) := by
  have hturns := e.turns h.storable t he
  refine ⟨hturns.storable, ?_, ?_, ?_⟩
  · intro path hpath
    rw [hturns.version, h.version path (hturns.store ▸ hpath)]
  · intro hclean
    obtain ⟨hbefore, hagrees⟩ := hturns.clean hclean
    rw [hturns.store]
    exact (h.reopens hbefore).trans hagrees
  · intro hdirty
    exact (hturns.dirty hdirty).imp h.changed id

/-- What was saved is loaded. -/
theorem load_of_save {s s' : CacheStore} {t t' : FileTree} {d : CacheDocument}
    (hd : d.IsStorable) (hversion : ∀ path, s = .file path → d.version = cacheVersion)
    (h : s.save t d = (s', t', .ok ())) : s'.load t' = .ok (some d) := by
  cases s with
  | memory document saves =>
    cases h
    rfl
  | file path =>
    obtain ⟨rfl, hread⟩ := CacheStore.read_of_save h
    simp only [CacheStore.load, hread, CacheStore.usable?_compact hd, if_pos (hversion path rfl)]

/-- A save keeps the kind and the place of the store. -/
theorem file_of_save {s s' : CacheStore} {t t' : FileTree} {d : CacheDocument} {path : Path}
    {result : Except FileFault Unit} (h : s.save t d = (s', t', result)) (hs : s' = .file path) :
    s = .file path := by
  subst hs
  cases s with
  | memory document saves => cases h
  | file place =>
    simp only [CacheStore.save] at h
    split at h
    · exact (congrArg Prod.fst h)
    · split at h <;> exact (congrArg Prod.fst h)

/-- What a flush does: nothing to a cache that is not dirty, else one save. -/
theorem flush_cases {c c' : Cache} {t t' : FileTree} {result : Except FileFault Unit}
    (h : c.flush t = (c', t', result)) :
    (c.dirty = false ∧ c' = c ∧ t' = t ∧ result = .ok ()) ∨
      (c.dirty = true ∧ c.store.save t c.document = (c'.store, t', result) ∧
        c'.document = c.document ∧ (c'.dirty = false ↔ result = .ok ())) := by
  unfold flush at h
  split at h
  · next hclean =>
    cases h
    exact .inl ⟨by simpa using hclean, rfl, rfl, rfl⟩
  · next hdirty =>
    have hdirty : c.dirty = true := by simpa using hdirty
    refine .inr ⟨hdirty, ?_⟩
    generalize c.store.save t c.document = saved at h
    obtain ⟨s', t₁, r⟩ := saved
    cases r with
    | error e =>
      cases h
      exact ⟨rfl, rfl, by simp [hdirty]⟩
    | ok u =>
      cases h
      exact ⟨rfl, rfl, by simp⟩

theorem Tracks.flushed {c c' : Cache} {t t' : FileTree} {changed : Prop} (h : c.Tracks t changed)
    (hflush : c.flush t = (c', t', .ok ())) : c'.dirty = false ∧ c'.document = c.document ∧
      c'.Tracks t' False := by
  obtain ⟨hclean, rfl, rfl, -⟩ | ⟨-, hsave, hdocument, hdirty⟩ := flush_cases hflush
  · refine ⟨hclean, rfl, { h with changed := ?_ }⟩
    rw [hclean]
    exact nofun
  · have hclean := hdirty.mpr rfl
    have hload := load_of_save h.storable h.version hsave
    have hopen : (openOver c'.store t').document = c'.document := by
      rw [openOver, hload, hdocument]
    refine ⟨hclean, hdocument, hdocument ▸ h.storable, ?_, ?_, ?_⟩
    · intro path hpath
      rw [hdocument, h.version path (file_of_save hsave hpath)]
    · intro _
      rw [hopen]
      exact CacheDocument.Agrees.refl _
    · rw [hclean]
      exact nofun

theorem Tracks.failed {c c' : Cache} {t t' : FileTree} {changed : Prop} {e : FileFault}
    (h : c.Tracks t changed) (hflush : c.flush t = (c', t', .error e)) :
    c'.dirty = true ∧ c'.document = c.document ∧ c'.Tracks t' changed := by
  obtain ⟨-, -, -, hok⟩ | ⟨hbefore, hsave, hdocument, hdirty⟩ := flush_cases hflush
  · cases hok
  · have hafter : c'.dirty = true := by simpa using hdirty
    refine ⟨hafter, hdocument, hdocument ▸ h.storable, ?_, ?_, fun _ => h.changed hbefore⟩
    · intro path hpath
      rw [hdocument, h.version path (file_of_save hsave hpath)]
    · rw [hafter]
      exact nofun

theorem Tracks.around {c : Cache} {t t' : FileTree} {changed : Prop} (h : c.Tracks t changed)
    (hload : c.store.load t' = c.store.load t) : c.Tracks t' changed := by
  refine { h with reopens := ?_ }
  rw [show openOver c.store t' = openOver c.store t by rw [openOver, openOver, hload]]
  exact h.reopens

/-- What holds of a cache holds all along its session. -/
theorem Session.tracks {c : Cache} {t : FileTree} {changed : Prop} (h : Session c t changed) :
    c.Tracks t changed := by
  induction h with
  | opened t hstore => exact tracks_openOver hstore t
  | edit _ e he ih => exact ih.edit he
  | flushed _ hflush ih => exact (ih.flushed hflush).2.2
  | failed _ hflush ih => exact (ih.failed hflush).2.2
  | around _ t' hload ih => exact ih.around hload

/-- **A cache that is not dirty is in its store.**  All along a session over any store: a cache
that is not dirty is found by the next one that is opened over the store, up to the spelling of
files; a flush that succeeds leaves it not dirty and one that fails dirty, both with the same
document; and a flush saves only what an edit changed since the document was loaded or saved. -/
theorem Session.persists {c : Cache} {t : FileTree} {changed : Prop} (h : Session c t changed) :
    (c.dirty = false → (openOver c.store t).document.Agrees c.document) ∧
      (∀ c' t', c.flush t = (c', t', .ok ()) →
        c'.dirty = false ∧ c'.document = c.document) ∧
      (∀ c' t' e, c.flush t = (c', t', .error e) →
        c'.dirty = true ∧ c'.document = c.document) ∧
      (¬ changed → c.flush t = (c, t, .ok ())) := by
  have htracks := h.tracks
  refine ⟨htracks.reopens, ?_, ?_, ?_⟩
  · intro c' t' hflush
    have hflushed := htracks.flushed hflush
    exact ⟨hflushed.1, hflushed.2.1⟩
  · intro c' t' e hflush
    have hfailed := htracks.failed hflush
    exact ⟨hfailed.1, hfailed.2.1⟩
  · intro hsame
    have hclean : c.dirty = false :=
      Bool.eq_false_iff.mpr fun hdirty => hsame (htracks.changed hdirty)
    simp [flush, hclean]

/-- A violation in a file as it is spelled. -/
def marked (file : String) : Violation :=
  { ruleId := "R", message := "found", file := some ⟨file⟩, line := 1 }

/-- An edit that stores one violation. -/
def marking (file : String) : Edit :=
  .saveFile {} { path := ⟨"x/a.cs"⟩, digest := "", text := none } "" [marked file]

/-- A cache over an empty store in which a violation was saved, and then stored again in another
spelling of its file. -/
def respelled : Cache :=
  (marking "x//a.cs").apply {}
    (((marking "x/a.cs").apply {} (openOver (.memory none 0) {})).flush {}).1

theorem line_marking (file : String) :
    ∀ v ∈ (marking file).violations, v.line ≤ Record.maxCount := by
  intro v hv
  obtain rfl := List.mem_singleton.mp hv
  show 1 ≤ _
  decide

theorem session_respelled : ∃ changed, Session respelled {} changed := by
  have hopened : Session (openOver (.memory none 0) {}) {} False :=
    .opened {} fun d hd => absurd hd (Option.not_mem_none d)
  have hmarked := hopened.edit (marking "x/a.cs") (line_marking "x/a.cs")
  have hflush : ((marking "x/a.cs").apply {} (openOver (.memory none 0) {})).flush {} =
      ((((marking "x/a.cs").apply {} (openOver (.memory none 0) {})).flush {}).1, {}, .ok ()) := rfl
  exact ⟨_, (hmarked.flushed hflush).edit (marking "x//a.cs") (line_marking "x//a.cs")⟩

/-- The spelling of files can be lost. -/
theorem reopened_ne_respelled : ¬ ∀ (c : Cache) (t : FileTree) (changed : Prop),
    Session c t changed → c.dirty = false → (openOver c.store t).document = c.document := by
  intro h
  obtain ⟨changed, hsession⟩ := session_respelled
  have hclean : respelled.dirty = false := by decide
  have hsame := congrArg CacheDocument.files (h _ _ _ hsession hclean)
  revert hsame
  decide

theorem persists_respelled : respelled.dirty = false ∧
    (openOver respelled.store {}).document.Agrees respelled.document := by
  obtain ⟨changed, hsession⟩ := session_respelled
  have hclean : respelled.dirty = false := by decide
  exact ⟨hclean, hsession.persists.1 hclean⟩

end Cache

end StyleEngine
