import StyleEngine.Proofs.Engine.Runs

/-! # The contract of the passes

Passes are made while files are deferred, and not more than `maxPasses`.  Each
covers all files, also if the run is asked to stop while it is going on; a file
that is done is not touched again; and each file counts once.  Parsers may defer
files and add-ins may fail on them in any pass as they like, and the host and
the add-ins may ask the run to stop at any moment.
-/
namespace StyleEngine

namespace Run

/-- The files of a run are all done, seen through slots and through projects. -/
theorem forall_file?_iff (r : Run) (P : SourceFile → Prop) :
    (∀ s f, r.file? s = some f → P f) ↔ ∀ q ∈ r.projects, ∀ f ∈ q.files, P f := by
  constructor
  · intro h q hq f hf
    obtain ⟨i, hi⟩ := List.mem_iff_getElem?.mp hq
    obtain ⟨k, hk⟩ := List.mem_iff_getElem?.mp hf
    exact h ⟨i, k⟩ f (by rw [file?, hi]; exact hk)
  · intro h s f hsf
    obtain ⟨q, hq, hf⟩ := Option.bind_eq_some_iff.mp hsf
    exact h q (List.mem_of_getElem? hq) f (List.mem_of_getElem? hf)

/-- Passes keep the numbers of files. -/
theorem SameFiles.files_length {r r' : Run} (h : r.SameFiles r') :
    r'.projects.map (fun q => q.files.length) = r.projects.map fun q => q.files.length := by
  refine List.ext_getElem? ?_
  intro i
  rw [List.getElem?_map, List.getElem?_map]
  have hshell := congrArg Option.isSome (h.shell i)
  have hfiles (k : Nat) := h.isSome ⟨i, k⟩
  simp only [shell?, Option.isSome_map] at hshell
  simp only [file?] at hfiles
  have hsome (l : List SourceFile) (k : Nat) : (l[k]?).isSome = true ↔ k < l.length := by
    rw [Option.isSome_iff_exists]
    constructor
    · rintro ⟨_, hk⟩
      exact (List.getElem?_eq_some_iff.mp hk).1
    · intro hk
      exact ⟨_, List.getElem?_eq_getElem hk⟩
  cases hq : r.projects[i]? with
  | none =>
    rw [hq, Option.isSome_none, Option.isSome_eq_false_iff, Option.isNone_iff_eq_none] at hshell
    rw [hshell]
  | some q =>
    rw [hq, Option.isSome_some] at hshell
    obtain ⟨q', hq'⟩ := Option.isSome_iff_exists.mp hshell
    simp only [hq, hq', Option.bind_some] at hfiles
    have hlt (k : Nat) : k < q'.files.length ↔ k < q.files.length := by
      rw [← hsome, ← hsome, hfiles]
    have hle := hlt q.files.length
    have hge := hlt q'.files.length
    rw [hq', Option.map_some, Option.map_some, show q'.files.length = q.files.length from by omega]

/-- What a run keeps to, given what each of its passes left, the run at the end and what the
summary tells of it. -/
structure PassContract (r : Run) (log : List Pool) (r' : Run) (s : RunSummary) : Prop where
  bounded : log.length ≤ maxPasses
  passes : s.passes = log.length
  /-- Every pass works on every file once, and what comes of a file is what the run has then. -/
  covers : ∀ p ∈ log, (p.handled.map Handled.slot).Perm (slotsFrom 0 r.projects) ∧
    ∀ x ∈ p.handled, p.run.file? x.slot = some x.result.file
  /-- After a pass that a file is done in, later passes call no add-in on it. -/
  rests : log.Pairwise fun p q => ∀ s f, p.run.file? s = some f → f.done = true →
    ∀ y ∈ q.handled, y.slot = s → y.result = { file := f, outcome := .skipped }
  /-- Parsers and analyzers are called by the work on files only. -/
  calls : r'.events.filter Event.isCall = r.events.filter Event.isCall ++
    (log.flatMap Pool.handled).flatMap fun x => x.result.events.filter Event.isCall
  converged_iff : s.cancelled = false →
    (s.converged = true ↔ ∀ q ∈ r'.projects, ∀ f ∈ q.files, f.done = true)
  limit : s.cancelled = false → s.converged = false → s.passes = maxPasses
  /-- A run that was asked to stop in a pass makes no other. -/
  stops : ∀ k p, log[k]? = some p → p.run.cancelled = true → log.length = k + 1
  /-- No file counts twice. -/
  counted : (((log.flatMap Pool.handled).filter Handled.isCounted).map Handled.slot).Nodup ∧
    s.filesAnalyzed + s.filesCached =
      ((log.flatMap Pool.handled).filter Handled.isCounted).length
  total : s.filesAnalyzed + s.filesCached ≤ s.filesTotal

/-- No file counts twice, in one pass or in two. -/
theorem nodup_counted {log : List Pool} (hnd : ∀ p ∈ log, (p.handled.map Handled.slot).Nodup)
    (hpair : log.Pairwise fun p q => ∀ x ∈ p.handled, ∀ y ∈ q.handled,
      x.isCounted = true → x.slot = y.slot → y.isCounted = false) :
    (((log.flatMap Pool.handled).filter Handled.isCounted).map Handled.slot).Nodup := by
  induction log with
  | nil => exact List.nodup_nil
  | cons p ps ih =>
    rw [List.pairwise_cons] at hpair
    rw [List.flatMap_cons, List.filter_append, List.map_append, List.nodup_append]
    refine ⟨?_, ih (fun q hq => hnd q (List.mem_cons_of_mem _ hq)) hpair.2, ?_⟩
    · exact (hnd p List.mem_cons_self).sublist (List.filter_sublist.map _)
    · intro a ha b hb hab
      obtain ⟨x, hx, rfl⟩ := List.mem_map.mp ha
      obtain ⟨y, hy, rfl⟩ := List.mem_map.mp hb
      rw [List.mem_filter] at hx hy
      obtain ⟨q, hq, hyq⟩ := List.mem_flatMap.mp hy.1
      have hfalse := hpair.1 q hq x hx.1 y hyq hx.2 hab
      rw [hy.2] at hfalse
      cases hfalse

section Contract

variable {sweep : Run → Pool} {r r' : Run} {log : List Pool}
  {result : Except AddInError PassResult}

/-- Passes that no add-in aborts work on every file once. -/
theorem Passes.covers (h : Passes sweep r log r' result)
    (hs : ∀ r, r.WellPlaced → (sweep r).IsPass r) (hr : Engine.Fresh r)
    (hreg : r.registry.NeverExhausts) {p : Pool} (hp : p ∈ log) :
    (p.handled.map Handled.slot).Perm (slotsFrom 0 r.projects) ∧
      ∀ x ∈ p.handled, p.run.file? x.slot = some x.result.file := by
  obtain ⟨r₀, h₀, hsame, hf, hp₀⟩ := h.isPass hs hr.wellPlaced hr.fatal p hp
  have hfatal := hp₀.fatal_eq_none h₀ hf (hsame.registry ▸ hreg)
  refine ⟨?_, fun x hx => hp₀.file?_handled h₀ hx⟩
  rw [← hr.slots, ← hsame.slots]
  exact hp₀.handled_perm h₀ hfatal

/-- No file counts twice in such passes. -/
theorem Passes.counted_nodup (h : Passes sweep r log r' result)
    (hs : ∀ r, r.WellPlaced → (sweep r).IsPass r) (hr : Engine.Fresh r)
    (hreg : r.registry.NeverExhausts) :
    (((log.flatMap Pool.handled).filter Handled.isCounted).map Handled.slot).Nodup := by
  refine nodup_counted (fun p hp => (h.covers hs hr hreg hp).1.nodup_iff.mpr (nodup_slotsFrom ..))
    ((h.pairwise hs hr.wellPlaced).imp_of_mem fun {p q} hp _ hpq x hx y hy hc hxy => ?_)
  -- a file that counts is not deferred, hence done, and the later pass skips it
  obtain ⟨r₀, h₀, -, -, hp₀⟩ := h.isPass hs hr.wellPlaced hr.fatal p hp
  have hdone : x.result.file.done = true := by
    rw [hp₀.done_iff h₀ hx]
    intro hdef
    rw [Handled.isCounted, hdef] at hc
    cases hc
  have hskip := hpq x.slot _ ((h.covers hs hr hreg hp).2 x hx) hdone y hy hxy.symm
  rw [Handled.isCounted, hskip]
  rfl

/-- What counts are files, each once: they are not more than there are. -/
theorem Passes.counted_le (h : Passes sweep r log r' result)
    (hs : ∀ r, r.WellPlaced → (sweep r).IsPass r) (hr : Engine.Fresh r)
    (hreg : r.registry.NeverExhausts) :
    ((log.flatMap Pool.handled).filter Handled.isCounted).length ≤
      (r'.projects.flatMap Project.files).length := by
  have htotal : (slotsFrom 0 r.projects).length = (r'.projects.flatMap Project.files).length := by
    rw [length_slotsFrom, List.length_flatMap, List.length_flatMap,
      (h.sameFiles hs hr.wellPlaced).files_length]
  have hsub : ((log.flatMap Pool.handled).filter Handled.isCounted).map Handled.slot ⊆
      slotsFrom 0 r.projects := by
    intro s hmem
    obtain ⟨x, hx, rfl⟩ := List.mem_map.mp hmem
    obtain ⟨p, hp, hxp⟩ := List.mem_flatMap.mp (List.mem_filter.mp hx).1
    exact (h.covers hs hr hreg hp).1.mem_iff.mp (List.mem_map_of_mem hxp)
  have hle := List.Nodup.length_le_of_subset (h.counted_nodup hs hr hreg) hsub
  rwa [List.length_map, htotal] at hle

/-- **Passes over a fresh run keep the contract**, if no add-in runs out of resources. -/
theorem passContract_of_passes {res : PassResult} (h : Passes sweep r log r' (.ok res))
    (hs : ∀ r, r.WellPlaced → (sweep r).IsPass r) (hr : Engine.Fresh r)
    (hreg : r.registry.NeverExhausts) :
    r.PassContract log r' { RunSummary.collect r'.projects [] with
      passes := res.passes
      cancelled := res.cancelled
      converged := res.converged
      filesAnalyzed := r'.tally.analyzed
      filesCached := r'.tally.cached
      fixesApplied := r'.tally.fixes } := by
  have hw := hr.wellPlaced
  have htally : r'.tally.analyzed + r'.tally.cached =
      ((log.flatMap Pool.handled).filter Handled.isCounted).length := by
    have htally := h.tally hs hw
    rw [hr.tally] at htally
    simpa using htally
  obtain ⟨hlen, hmax⟩ := h.length_log hs hw (by rw [hr.pass]; decide)
  rw [hr.pass, Nat.zero_add] at hlen
  exact
    { bounded := hlen ▸ hmax
      passes := hlen
      covers := fun p hp => h.covers hs hr hreg hp
      rests := h.pairwise hs hw
      calls := h.calls hs hw
      converged_iff := by
        intro hc
        rw [← r'.forall_file?_iff fun f => f.done = true]
        exact (h.converged_iff hs hw hc).1
      limit := fun hc hn => (h.converged_iff hs hw hc).2 hn
      stops := fun k p hk hc => h.length_of_cancelled hk hc
      counted := ⟨h.counted_nodup hs hr hreg, htally⟩
      total := htally ▸ h.counted_le hs hr hreg }

end Contract

end Run

/-- **Every run keeps the contract of the passes**, for all projects, add-ins that fail, defer
and complete as they like but never run out of resources, orders of the workers' steps and
moments at which the run is asked to stop. -/
theorem Engine.passContract_runWith {e : Engine} {sweep : Sweep} {t : FileTree}
    {switches : Switches} {mode : RunMode} {settingsPath : Option String}
    {projects : List Project} {r : Run} (hs : sweep.Interleaves)
    (hreg : e.registry.NeverExhausts)
    (hstart : e.Starts t switches mode settingsPath projects r) (hclose : e.Closes switches)
    (processors : Nat) :
    ∃ r' summary,
      (e.runWith sweep t switches processors mode settingsPath projects).projects = r'.projects ∧
      (e.runWith sweep t switches processors mode settingsPath projects).result = .ok summary ∧
      r.PassContract (r.passLog (e.sweepOf sweep processors r) maxPasses) r' summary := by
  have hpass := isPass_sweepOf hs e processors r
  have hpasses := hstart.fresh.passes hpass
  have hreg' : r.registry.NeverExhausts := hstart.registry ▸ hreg
  obtain ⟨res, hres⟩ :=
    hpasses.exists_ok hpass hstart.fresh.wellPlaced hstart.fresh.fatal hreg'
  cases hloop : r.passLoop (e.sweepOf sweep processors r) maxPasses with
  | mk r' result =>
    rw [hloop] at hpasses hres
    subst hres
    have hsw : r'.switches = switches :=
      (hpasses.sameFiles hpass hstart.fresh.wellPlaced).switches.trans hstart.switches_eq
    obtain ⟨hprojects, hsummary⟩ := runWith_of_passes hstart hclose hsw hloop
    exact ⟨r', _, hprojects, hsummary,
      Run.passContract_of_passes hpasses hpass hstart.fresh hreg'⟩

/-- An engine with a parser that defers files until some pass. -/
def Engine.patient (passes : Nat) : Engine where
  registry :=
    { parsers := [{
        parser := {
          id := "patient"
          configure := fun _ _ _ p _ => .ok p
          extensions := ["txt"]
          parse := fun _ ctx => if ctx.pass < passes then .done .deferred else .done .complete }
        profile := {}
        trusted := false }]
      extensions := [("txt", "patient")] }
  cache := some { store := .memory none 0 }

theorem Engine.patient_neverExhausts (passes : Nat) :
    (Engine.patient passes).registry.NeverExhausts := by
  refine ⟨?_, fun e he => by cases he⟩
  intro e he ctx s cause hrun
  obtain rfl := List.mem_singleton.mp he
  simp only at hrun
  split at hrun
  · cases hrun
  · cases hrun

/-- A project with a file for the parser and one that it does not read. -/
def Engine.patientProject : Project where
  files := [.ofText ⟨"a.txt"⟩ "a", .ofText ⟨"b.md"⟩ "b"]
  settings := some {}

theorem Engine.passContract_patient : ∃ r : Run,
    (Engine.patient 3).Starts {} [] {} none [Engine.patientProject] r ∧
    (Engine.patient 3).Closes [] ∧
    ∃ r' summary,
      ((Engine.patient 3).runWith Sweep.oneByOne {} [] 2 {} none [Engine.patientProject]).result =
        .ok summary ∧
      r.PassContract (r.passLog ((Engine.patient 3).sweepOf Sweep.oneByOne 2 r) maxPasses) r'
        summary := by
  obtain ⟨r, hstart⟩ : ∃ r, (Engine.patient 3).Starts {} [] {} none [Engine.patientProject] r :=
    ⟨_, rfl, rfl, rfl⟩
  obtain ⟨r', summary, -, hsummary, hcontract⟩ := Engine.passContract_runWith
    Sweep.oneByOne_interleaves.interleaves (Engine.patient_neverExhausts 3) hstart rfl 2
  exact ⟨r, hstart, rfl, r', summary, hsummary, hcontract⟩

end StyleEngine
