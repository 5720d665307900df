import StyleEngine.Proofs.Run.FileWork
import StyleEngine.Run.Pool

/-! # Working off slots one after the other

A pass is carried out by several workers, but what they do to a run is the work
on one slot after another.  `Run.Works r hs r'` says that this takes `r` to `r'`
with the results `hs`, in order; it leaves open what has nothing to do with the
work (the cursor, the counters of the pass, the request to stop, what was told).
A run is seen here through its projects without their files (`shell?`) and its
files (`file?`).
-/
namespace StyleEngine

/-- Whether a file counts as analyzed or as served from the cache. -/
def Handled.isCounted (x : Handled) : Bool :=
  x.result.outcome == .analyzed || x.result.outcome == .cached

namespace Run

/-- A project of a run without its files. -/
def shell? (r : Run) (i : Nat) : Option Project :=
  (r.projects[i]?).map fun p => { p with files := [] }

/-- The file of a slot. -/
def file? (r : Run) (s : Slot) : Option SourceFile :=
  (r.projects[s.project]?).bind fun p => p.files[s.file]?

/-- Two runs have the same projects if these are the same without their files and have the same
files. -/
theorem projects_ext {r r' : Run} (hshell : ∀ i, r.shell? i = r'.shell? i)
    (hfile : ∀ s, r.file? s = r'.file? s) : r.projects = r'.projects := by
  refine List.ext_getElem? ?_
  intro i
  have hs := hshell i
  simp only [shell?] at hs
  cases hp : r.projects[i]? with
  | none =>
    cases hp' : r'.projects[i]? with
    | none => rfl
    | some p' => rw [hp, hp'] at hs; cases hs
  | some p =>
    cases hp' : r'.projects[i]? with
    | none => rw [hp, hp'] at hs; cases hs
    | some p' =>
      rw [hp, hp'] at hs
      have hfiles : p.files = p'.files := by
        refine List.ext_getElem? ?_
        intro k
        have hf := hfile ⟨i, k⟩
        simpa only [file?, hp, hp', Option.bind_some] using hf
      obtain ⟨hinfo, hset⟩ : p.toProjectInfo = p'.toProjectInfo ∧ p.settings = p'.settings := by
        simpa using hs
      obtain ⟨info, files, settings⟩ := p
      obtain ⟨info', files', settings'⟩ := p'
      simp only at hinfo hset hfiles
      rw [hinfo, hset, hfiles]

/-- What is read off the files of two runs is the same if it is so slot by slot. -/
theorem map_files_eq {β : Type} (g : SourceFile → β) {r r' : Run}
    (hshell : ∀ i, r.shell? i = r'.shell? i)
    (hfile : ∀ s, (r.file? s).map g = (r'.file? s).map g) :
    (r.projects.map fun p => p.files.map g) = r'.projects.map fun p => p.files.map g := by
  refine List.ext_getElem? ?_
  intro i
  have hs := hshell i
  rw [shell?, shell?] at hs
  rw [List.getElem?_map, List.getElem?_map]
  cases hp : r.projects[i]? with
  | none =>
    rw [hp, Option.map_none] at hs
    rw [Option.map_eq_none_iff.mp hs.symm]
  | some p =>
    rw [hp, Option.map_some] at hs
    obtain ⟨p', hp', -⟩ := Option.map_eq_some_iff.mp hs.symm
    rw [hp', Option.map_some, Option.map_some]
    refine congrArg some (List.ext_getElem? ?_)
    intro k
    have hf := hfile ⟨i, k⟩
    simp only [file?, hp, hp', Option.bind_some] at hf
    rw [List.getElem?_map, List.getElem?_map, hf]

/-- What comes of a file of a project that has a status or none. -/
def outcome (r : Run) (q : Project) (status : Option ProjectStatus) (f : SourceFile) :
    FileJob × Processed :=
  match status with
  | some status => (r.job q status, (r.job q status).process (r.cached? (r.job q status) f) f)
  | none => (r.job q {}, FileJob.skip f)

theorem result?_eq (r : Run) (s : Slot) :
    r.result? s = (r.shell? s.project).bind fun q =>
      (r.file? s).map (r.outcome q r.statuses[s.project]?) := by
  simp only [result?, lookup?, shell?, file?]
  cases r.projects[s.project]? with
  | none => rfl
  | some p =>
    simp only [Option.bind_some, Option.map_some]
    cases p.files[s.file]? with
    | none => rfl
    | some f =>
      simp only [Option.map_some]
      cases r.statuses[s.project]? <;> rfl

theorem result?_isSome {r : Run} {s : Slot} : (r.result? s).isSome ↔ (r.file? s).isSome := by
  rw [result?_eq]
  simp only [shell?, file?]
  cases r.projects[s.project]? <;> simp

/-- The work on a file of a project, given what the cache has for it. -/
theorem outcome_cases (r : Run) (q : Project) (status : Option ProjectStatus) (f : SourceFile) :
    (∃ st, status = some st ∧ (r.outcome q status f) =
      (r.job q st, (r.job q st).process (r.cached? (r.job q st) f) f)) ∨
    (status = none ∧ r.outcome q status f = (r.job q {}, FileJob.skip f)) := by
  cases status with
  | none => exact .inr ⟨rfl, rfl⟩
  | some st => exact .inl ⟨st, rfl, rfl⟩

/-! ## One slot -/

@[simp] theorem shell?_absorb (r : Run) (s : Slot) (j : FileJob) (p : Processed) (i : Nat) :
    (r.absorb s j p).shell? i = r.shell? i := by
  simp only [shell?, absorb, List.getElem?_modify]
  cases r.projects[i]? with
  | none => rfl
  | some q =>
    simp only [Option.map_some]
    split <;> rfl

theorem file?_absorb (r : Run) (s s' : Slot) (j : FileJob) (p : Processed) :
    (r.absorb s j p).file? s' = if s' = s then (r.file? s).map fun _ => p.file else r.file? s' := by
  obtain ⟨a, b⟩ := s
  obtain ⟨a', b'⟩ := s'
  simp only [file?, absorb, List.getElem?_modify, Slot.mk.injEq]
  by_cases ha : a = a'
  · subst ha
    cases r.projects[a]? with
    | none => simp
    | some q =>
      simp only [Option.bind_some, ↓reduceIte, Project.modifyFile, true_and]
      by_cases hb : b = b'
      · subst hb; simp
      · simp [hb, Ne.symm hb]
  · have ha' : ¬ a' = a := fun h => ha h.symm
    simp [ha, ha']

/-- What does not change while slots are worked on. -/
structure SameFrame (r r' : Run) : Prop where
  registry : r'.registry = r.registry
  switches : r'.switches = r.switches
  autoFix : r'.autoFix = r.autoFix
  statuses : r'.statuses = r.statuses
  slots : r'.slots = r.slots
  pass : r'.pass = r.pass
  shell : ∀ i, r'.shell? i = r.shell? i
  name : ∀ s, (r'.file? s).map (fun f => (f.path, f.digest)) =
    (r.file? s).map (fun f => (f.path, f.digest))

namespace SameFrame

variable {r r' r'' : Run}

theorem refl (r : Run) : r.SameFrame r := ⟨rfl, rfl, rfl, rfl, rfl, rfl, fun _ => rfl, fun _ => rfl⟩

theorem trans (h : r.SameFrame r') (h' : r'.SameFrame r'') : r.SameFrame r'' :=
  ⟨h'.registry.trans h.registry, h'.switches.trans h.switches, h'.autoFix.trans h.autoFix,
    h'.statuses.trans h.statuses, h'.slots.trans h.slots, h'.pass.trans h.pass,
    fun i => (h'.shell i).trans (h.shell i), fun s => (h'.name s).trans (h.name s)⟩

theorem isSome_file? (h : r.SameFrame r') (s : Slot) :
    (r'.file? s).isSome = (r.file? s).isSome := by
  have := congrArg Option.isSome (h.name s)
  simpa only [Option.isSome_map] using this

theorem job (h : r.SameFrame r') (q : Project) (status : ProjectStatus) :
    r'.job q status = r.job q status := by
  simp only [Run.job, h.registry, h.switches, h.autoFix, h.pass]

end SameFrame

/-- What comes of a file depends on the cache and on what does not change. -/
theorem SameFrame.outcome {r r' : Run} (h : r.SameFrame r') (q : Project)
    (status : Option ProjectStatus) (f : SourceFile) :
    r'.outcome q status f = { r with cache := r'.cache }.outcome q status f := by
  have hjob (st : ProjectStatus) : r'.job q st = { r with cache := r'.cache }.job q st := h.job q st
  cases status with
  | none => simp only [Run.outcome, hjob]
  | some st => simp only [Run.outcome, hjob, cached?]

/-- What an outcome tells of the file that it is about. -/
theorem outcome_identity (r : Run) (q : Project) (status : Option ProjectStatus) (f : SourceFile) :
    (r.outcome q status f).2.file.path = f.path ∧
      (r.outcome q status f).2.file.digest = f.digest := by
  rcases r.outcome_cases q status f with ⟨st, -, h⟩ | ⟨-, h⟩
  · rw [h]; exact FileJob.process_identity _ _ _
  · rw [h]; exact ⟨rfl, rfl⟩

/-- **What one step of work does**: the file of the slot becomes that of the result, its entry
in the cache changes as the result says, and the result is counted and told. -/
theorem process_eq_some {r r' : Run} {s : Slot} {p : Processed}
    (h : r.process s = (r', some p)) :
    ∃ q f, r.shell? s.project = some q ∧ r.file? s = some f ∧
      p = (r.outcome q r.statuses[s.project]? f).2 ∧
      r' = r.absorb s (r.outcome q r.statuses[s.project]? f).1 p := by
  simp only [process, result?_eq] at h
  cases hq : r.shell? s.project with
  | none => simp [hq] at h
  | some q =>
    cases hf : r.file? s with
    | none => simp [hq, hf] at h
    | some f =>
      simp only [hq, hf, Option.bind_some, Option.map_some, Prod.mk.injEq,
        Option.some.injEq] at h
      exact ⟨q, f, rfl, rfl, h.2.symm, by rw [← h.1, h.2]⟩

theorem process_snd_isSome {r : Run} {s : Slot} (h : (r.file? s).isSome) :
    ∃ p, r.process s = ((r.process s).1, some p) := by
  obtain ⟨⟨j, p⟩, hp⟩ := Option.isSome_iff_exists.mp (result?_isSome.mpr h)
  exact ⟨p, by simp only [process, hp]⟩

theorem SameFrame.of_absorb {r : Run} {s : Slot} {f : SourceFile} {p : Processed}
    (hf : r.file? s = some f) (hpath : p.file.path = f.path) (hdigest : p.file.digest = f.digest)
    (j : FileJob) : r.SameFrame (r.absorb s j p) := by
  refine ⟨rfl, rfl, rfl, rfl, rfl, rfl, fun i => shell?_absorb .., fun s' => ?_⟩
  rw [file?_absorb]
  split
  · next hs =>
    rw [hs, hf]
    simp only [Option.map_some, hpath, hdigest]
  · rfl

theorem SameFrame.of_process {r r' : Run} {s : Slot} {p : Processed}
    (h : r.process s = (r', some p)) : r.SameFrame r' := by
  obtain ⟨q, f, -, hf, rfl, rfl⟩ := process_eq_some h
  obtain ⟨hpath, hdigest⟩ := r.outcome_identity q r.statuses[s.project]? f
  exact .of_absorb hf hpath hdigest _

/-! ## Many slots -/

/-- Whether two runs differ at most in where their pass stands, in whether they are to stop and
in what was told. -/
def SameWork (r r' : Run) : Prop :=
  r' = { r with
    cursor := r'.cursor, outstanding := r'.outstanding, incomplete := r'.incomplete
    cancelled := r'.cancelled, events := r'.events }

/-- Working off slots one after the other takes a run to another, with some results. -/
inductive Works (r : Run) : List Handled → Run → Prop
  | start : Works r [] r
  | shift {hs : List Handled} {r' r'' : Run} : Works r hs r' → r'.SameWork r'' → Works r hs r''
  | work {hs : List Handled} {r' r'' : Run} {s : Slot} {p : Processed} :
    Works r hs r' → r'.process s = (r'', some p) → Works r (hs ++ [⟨s, p⟩]) r''

namespace SameWork

variable {r r' : Run}

theorem frame (h : r.SameWork r') : r.SameFrame r' := by
  unfold SameWork at h
  rw [h]
  exact ⟨rfl, rfl, rfl, rfl, rfl, rfl, fun _ => rfl, fun _ => rfl⟩

theorem file? (h : r.SameWork r') (s : Slot) : r'.file? s = r.file? s := by
  unfold SameWork at h; rw [h]; rfl

theorem projects (h : r.SameWork r') : r'.projects = r.projects := by
  unfold SameWork at h; rw [h]

theorem cache (h : r.SameWork r') : r'.cache = r.cache := by
  unfold SameWork at h; rw [h]

theorem fatal (h : r.SameWork r') : r'.fatal = r.fatal := by
  unfold SameWork at h; rw [h]

theorem tally (h : r.SameWork r') : r'.tally = r.tally := by
  unfold SameWork at h; rw [h]

end SameWork

namespace Works

variable {r r' : Run} {hs : List Handled}

theorem frame (h : r.Works hs r') : r.SameFrame r' := by
  induction h with
  | start => exact .refl r
  | shift _ hw ih => exact ih.trans hw.frame
  | work _ hp ih => exact ih.trans (.of_process hp)

/-- A slot that was not worked on has its file still. -/
theorem file?_of_notMem (h : r.Works hs r') {s : Slot} (hn : s ∉ hs.map Handled.slot) :
    r'.file? s = r.file? s := by
  induction h with
  | start => rfl
  | shift _ hw ih => rw [hw.file?, ih hn]
  | @work hs r₁ r₂ s₀ p _ hp ih =>
    simp only [List.map_append, List.map_cons, List.map_nil, List.mem_append, List.mem_singleton,
      not_or] at hn
    obtain ⟨q, f, -, -, -, rfl⟩ := process_eq_some hp
    rw [file?_absorb, if_neg hn.2, ih hn.1]

/-- A slot that was worked on once has the file of its result. -/
theorem file?_of_mem (h : r.Works hs r') (hnd : (hs.map Handled.slot).Nodup) {x : Handled}
    (hx : x ∈ hs) : r'.file? x.slot = some x.result.file := by
  induction h with
  | start => cases hx
  | shift _ hw ih => rw [hw.file?, ih hnd hx]
  | @work hs r₁ r₂ s p hw hp ih =>
    rw [List.map_append, List.nodup_append] at hnd
    obtain ⟨hnd₁, -, hdis⟩ := hnd
    obtain ⟨q, f, -, hf, -, rfl⟩ := process_eq_some hp
    rw [file?_absorb]
    rcases List.mem_append.mp hx with hx | hx
    · have hne : x.slot ≠ s := hdis _ (List.mem_map_of_mem hx) _ (by simp)
      rw [if_neg hne, ih hnd₁ hx]
    · rw [List.mem_singleton] at hx
      subst x
      rw [if_pos rfl, hf]; rfl

/-- **A property of the cache that the work on each file keeps**, with the files as they were at
first, is kept by work on slots that are each worked on once, and every result comes from a cache
that has it. -/
theorem keeps_cache {P : Option Cache → Prop} (h : r.Works hs r')
    (hnd : (hs.map Handled.slot).Nodup) (hstart : P r.cache)
    (hstep : ∀ s q f cache, r.shell? s.project = some q → r.file? s = some f → P cache →
      P (cache.map fun c => c.change ({ r with cache }.outcome q r.statuses[s.project]? f).1
        ({ r with cache }.outcome q r.statuses[s.project]? f).2)) :
    P r'.cache ∧ ∀ x ∈ hs, ∃ q f cache, r.shell? x.slot.project = some q ∧
      r.file? x.slot = some f ∧ P cache ∧
      x.result = ({ r with cache }.outcome q r.statuses[x.slot.project]? f).2 := by
  induction h with
  | start => exact ⟨hstart, fun x hx => absurd hx List.not_mem_nil⟩
  | shift _ hw ih =>
    obtain ⟨hcache, hres⟩ := ih hnd
    exact ⟨hw.cache ▸ hcache, hres⟩
  | @work hs r₁ r₂ s p hw hp ih =>
    rw [List.map_append, List.nodup_append] at hnd
    obtain ⟨hnd₁, -, hdis⟩ := hnd
    obtain ⟨hcache, hres⟩ := ih hnd₁
    obtain ⟨q, f, hq, hf, hout, rfl⟩ := process_eq_some hp
    rw [hw.frame.shell] at hq
    -- the slot was not worked on before, so its file is the one it had at first
    rw [hw.file?_of_notMem fun hmem => hdis _ hmem _ (by simp) rfl] at hf
    have hsame : r₁.outcome q r₁.statuses[s.project]? f =
        { r with cache := r₁.cache }.outcome q r.statuses[s.project]? f := by
      rw [hw.frame.statuses]
      exact hw.frame.outcome q _ f
    rw [hsame] at hout ⊢
    refine ⟨?_, ?_⟩
    · rw [hout]
      exact hstep s q f r₁.cache hq hf hcache
    · intro x hx
      rcases List.mem_append.mp hx with hx | hx
      · exact hres x hx
      · obtain rfl := List.mem_singleton.mp hx
        exact ⟨q, f, r₁.cache, hq, hf, hcache, hout⟩

/-- **What comes of a slot that is worked on once**: the result for the file that it had at
first, with the cache as it then was. -/
theorem result_eq (h : r.Works hs r') (hnd : (hs.map Handled.slot).Nodup) {x : Handled}
    (hx : x ∈ hs) : ∃ q f cache, r.shell? x.slot.project = some q ∧ r.file? x.slot = some f ∧
      x.result = ({ r with cache }.outcome q r.statuses[x.slot.project]? f).2 := by
  obtain ⟨-, hres⟩ := h.keeps_cache (P := fun _ => True) hnd trivial fun _ _ _ _ _ _ _ => trivial
  obtain ⟨q, f, cache, hq, hf, -, hout⟩ := hres x hx
  exact ⟨q, f, cache, hq, hf, hout⟩

/-- **When the turn of a slot comes**, the slots before it are worked off. -/
theorem exists_turn {before after : List Handled} {x : Handled}
    (h : r.Works (before ++ x :: after) r') :
    ∃ r₁ r₂, r.Works before r₁ ∧ r₁.process x.slot = (r₂, some x.result) := by
  generalize hall : before ++ x :: after = all at h
  induction h generalizing after with
  | start => cases before <;> cases hall
  | shift _ _ ih => exact ih hall
  | @work hs r₁ r₂ s p hw hp ih =>
    rcases List.eq_nil_or_concat after with rfl | ⟨after', y, rfl⟩
    · obtain ⟨rfl, hx⟩ := List.append_inj' hall rfl
      obtain rfl := List.singleton_inj.mp hx
      exact ⟨r₁, r₂, hw, hp⟩
    · rw [List.concat_eq_append, ← List.cons_append, ← List.append_assoc] at hall
      exact ih (List.append_inj' hall rfl).1

/-- What comes of a slot that is worked on once, when its turn comes. -/
theorem result_eq_of_turn {before after : List Handled} {x : Handled}
    (h : r.Works (before ++ x :: after) r')
    (hnd : ((before ++ x :: after).map Handled.slot).Nodup) :
    ∃ q f r₁, r.shell? x.slot.project = some q ∧ r.file? x.slot = some f ∧ r.Works before r₁ ∧
      x.result = (r₁.outcome q r.statuses[x.slot.project]? f).2 := by
  obtain ⟨r₁, r₂, hw, hp⟩ := h.exists_turn
  obtain ⟨q, f, hq, hf, hout, -⟩ := process_eq_some hp
  rw [List.map_append, List.map_cons, List.nodup_append] at hnd
  rw [hw.frame.shell] at hq
  rw [hw.file?_of_notMem fun hmem => hnd.2.2 _ hmem _ List.mem_cons_self rfl] at hf
  rw [hw.frame.statuses] at hout
  exact ⟨q, f, r₁, hq, hf, hw, hout⟩

/-- The first exhaustion of resources among the results is the failure of the run. -/
theorem fatal (h : r.Works hs r') :
    r'.fatal = r.fatal.or (hs.findSome? fun x => x.result.fatal) := by
  induction h with
  | start => simp
  | shift _ hw ih => rw [hw.fatal, ih]
  | work _ hp ih =>
    obtain ⟨q, f, -, -, -, rfl⟩ := process_eq_some hp
    simp only [absorb, ih, List.findSome?_append, List.findSome?_singleton, Option.or_assoc]

/-- Every result is counted. -/
theorem tally_eq (h : r.Works hs r') :
    r'.tally = hs.foldl (fun t x => count t x.result) r.tally := by
  induction h with
  | start => rfl
  | shift _ hw ih => rw [hw.tally, ih]
  | work _ hp ih =>
    obtain ⟨q, f, -, -, -, rfl⟩ := process_eq_some hp
    rw [List.foldl_append, ← ih]
    rfl

/-- The results that were counted as analyzed or as served from the cache. -/
theorem tally (h : r.Works hs r') :
    r'.tally.analyzed + r'.tally.cached = r.tally.analyzed + r.tally.cached +
      (hs.filter Handled.isCounted).length := by
  rw [h.tally_eq]
  clear h
  generalize r.tally = t
  induction hs generalizing t with
  | nil => rfl
  | cons x hs ih =>
    rw [List.foldl_cons, ih, List.filter_cons]
    simp only [count]
    cases ho : x.result.outcome <;> simp [Handled.isCounted, ho] <;> omega

/-- The results that were counted as analyzed. -/
theorem analyzed (h : r.Works hs r') : r'.tally.analyzed =
    r.tally.analyzed + hs.countP fun x => x.result.outcome == .analyzed := by
  rw [h.tally_eq]
  clear h
  generalize r.tally = t
  induction hs generalizing t with
  | nil => rfl
  | cons x hs ih =>
    rw [List.foldl_cons, ih, List.countP_cons]
    simp only [count]
    cases ho : x.result.outcome with
    | analyzed => simp only [beq_self_eq_true, if_true]; omega
    | _ => rfl

theorem isSome_cache (h : r.Works hs r') : r'.cache.isSome = r.cache.isSome := by
  induction h with
  | start => rfl
  | shift _ hw ih => rw [hw.cache, ih]
  | work _ hp ih =>
    obtain ⟨q, f, -, -, -, rfl⟩ := process_eq_some hp
    rw [← ih, absorb, Option.isSome_map]

/-- A run is aborted by an exhaustion of resources only. -/
theorem isAborted_iff (h : r.Works hs r') (hr : r.fatal = none) :
    r'.isAborted ↔ ∃ x ∈ hs, x.result.fatal.isSome := by
  rw [isAborted, h.fatal, hr, Option.none_or, List.findSome?_isSome_iff]

end Works

end Run

end StyleEngine
