import StyleEngine.Proofs.Engine.DirectRuns

/-! # Runs without a cache

Without a cache every run looks at every file, so whether a run is to analyze all
files anew makes no difference (`Engine.runWith_full`).  Where text parsers and
pattern analyzers are the only add-ins, a request is then refused, ends because
settings cannot be read, or is met by one pass, of which summary and written files
tell (`Engine.exists_uncached`).
-/
namespace StyleEngine

namespace Engine

variable {e : Engine} {sweep : Sweep} {t : FileTree} {switches : Switches} {processors : Nat}
  {mode : RunMode} {settingsPath : Option String} {path : Option Path} {projects : List Project}
  {before ready : Prepared} {r r' : Run}

/-! ## The mode -/

theorem cache_prepareUnder (h : before.cache = none) (mode : RunMode) (p : Project) (s : Settings) :
    (prepareUnder mode before p s).cache = none := by
  simp [prepareUnder, h]

/-- Without a cache, projects are made ready alike for every run. -/
theorem prepare_full (e : Engine) (t : FileTree) (mode : RunMode) (path : Option Path)
    (h : before.cache = none) (ps : List Project) :
    e.prepare t mode path before ps = e.prepare t { mode with full := true } path before ps := by
  induction ps generalizing before with
  | nil => rfl
  | cons p ps ih =>
    unfold prepare
    cases e.settingsOf t path p with
    | error cause => rfl
    | ok s =>
      have hunder : prepareUnder mode before p s =
          prepareUnder { mode with full := true } before p s := by
        simp only [prepareUnder, h, statusOf]
      have hrest := ih (cache_prepareUnder h mode p s)
      rw [hunder] at hrest
      simp only [hunder, hrest]

/-- **Without a cache, every run is one that looks at every file.** -/
theorem runWith_full (h : e.cache = none) (sweep : Sweep) (t : FileTree) (switches : Switches)
    (processors : Nat) (mode : RunMode) (settingsPath : Option String)
    (projects : List Project) :
    e.runWith sweep t switches processors mode settingsPath projects =
      e.runWith sweep t switches processors { mode with full := true } settingsPath projects := by
  have hopening : e.busy.opening t switches mode (settingsPath.map Path.mk) projects =
      e.busy.opening t switches { mode with full := true } (settingsPath.map Path.mk) projects := by
    have hcache : ({ cache := e.busy.cache } : Prepared).cache = none := h
    simp only [opening, e.busy.prepare_full t mode _ hcache]
    rfl
  simp only [runWith, runAll, hopening]
  rfl

/-! ## Projects that cannot be made ready -/

/-- A request over projects whose settings cannot all be read fails before any file is touched. -/
theorem runWith_of_unprepared (hacc : e.Accepts settingsPath) {message : String}
    (h : e.busy.prepare t mode (settingsPath.map Path.mk) { cache := e.cache } projects =
      (ready, .error message)) :
    let o := e.runWith sweep t switches processors mode settingsPath projects
    o.projects = ready.projects ∧ o.files = t ∧
      o.result = .ok (.collect ready.projects [Violation.exception message]) := by
  have hprepare : e.busy.prepare t mode (settingsPath.map Path.mk) { cache := e.busy.cache }
      projects = (ready, .error message) := h
  simp [runWith, hacc.1, hacc.2, runAll, opening, openPrepared, hprepare, conclude]

/-! ## One pass -/

theorem Prepares.cache_eq_none (h : e.Prepares t mode path before projects ready)
    (hc : before.cache = none) : ready.cache = none := by
  induction h with
  | done => exact hc
  | next _ _ ih => exact ih (cache_prepareUnder hc ..)

/-- The files that a run without a cache leaves in the file tree. -/
theorem files_runWith_of_passes (h : e.Starts t switches mode settingsPath projects r)
    (hc : e.Closes switches) {res : PassResult} (hsw : r'.switches = switches)
    (hcache : r'.cache = none)
    (hp : r.passLoop (e.sweepOf sweep processors r) maxPasses = (r', .ok res)) :
    (e.runWith sweep t switches processors mode settingsPath projects).files =
      if mode.autoSave then
        (saveFixed e.environment t (r'.projects.flatMap Project.files)).1
      else t := by
  have hclosing : (callAll (fun a p => a.after p r'.switches)
      (participants e.busy.registry)).result = .ok () := hsw ▸ hc
  rw [runWith_of_starts h, hp]
  simp only [close, hclosing, hcache, flushCache]
  split <;> rfl

/-- What a run counts over the work on files. -/
def tallyOf (handled : List Handled) : Tally :=
  handled.foldl (fun t x => Run.count t x.result) {}

/-- **What a run without a cache makes of projects** whose settings can be read. -/
theorem exists_uncached (hb : e.registry.IsBuiltin) (hs : sweep.Interleaves) (hc : e.cache = none)
    (hacc : e.Accepts settingsPath)
    (hset : ∀ p ∈ projects, ∃ s, e.settingsOf t (settingsPath.map Path.mk) p = .ok s)
    (switches : Switches) (processors : Nat) (mode : RunMode) :
    let o := e.runWith sweep t switches processors mode settingsPath projects
    ∃ handled, e.Direct t switches { mode with full := true } settingsPath projects handled o ∧
      o.result = .ok { RunSummary.collect o.projects [] with
        passes := 1
        converged := true
        filesAnalyzed := (tallyOf handled).analyzed
        filesCached := (tallyOf handled).cached
        fixesApplied := (tallyOf handled).fixes } ∧
      o.files = if mode.autoSave then
          (saveFixed e.environment t (o.projects.flatMap Project.files)).1
        else t := by
  intro o
  have ho : o = e.runWith sweep t switches processors { mode with full := true } settingsPath
      projects := runWith_full hc ..
  rw [ho]
  rcases builtin_cases hb sweep t switches processors { mode with full := true } settingsPath
    projects with ⟨hno, -, -⟩ | ⟨-, hfails, -⟩ | ⟨-, -, hstart⟩
  · exact absurd hacc hno
  · have hbusy : ∀ p ∈ projects,
        ∃ s, e.busy.settingsOf t (settingsPath.map Path.mk) p = .ok s := hset
    exact absurd (prepare_eq_ok hbusy) hfails
  · obtain ⟨p, hp, hfatal, hloop⟩ := hstart.one_pass hb hs (.inl rfl) processors
    have hwell := hstart.fresh.wellPlaced
    have hswitches : p.run.settle.switches = switches :=
      (hp.frame hwell).switches.trans hstart.switches_eq
    have hcloses := closes_of_isBuiltin hb switches
    have hcache : p.run.settle.cache = none := by
      obtain ⟨made, told, hr, hprepares⟩ := hstart.prepares
      have hnone := (hp.works hwell).isSome_cache
      rw [hr] at hnone
      have hmade : made.cache.isSome = false := by
        rw [hprepares.cache_eq_none hc]
        rfl
      exact Option.isNone_iff_eq_none.mp (Option.isSome_eq_false_iff.mp (hnone.trans hmade))
    obtain ⟨hprojects, hsummary⟩ := runWith_of_passes hstart hcloses hswitches hloop
    have htally : p.run.settle.tally = tallyOf p.handled := by
      have hworked := (hp.works hwell).tally_eq
      rw [hstart.fresh.tally] at hworked
      exact hworked
    refine ⟨p.handled, hstart.direct_of_pass hb (.inl rfl) hp hfatal hloop, ?_, ?_⟩
    · rw [hsummary, hprojects, htally]
      rfl
    · rw [files_runWith_of_passes hstart hcloses hswitches hcache hloop, hprojects]

end Engine

end StyleEngine
