import StyleEngine.Engine
import StyleEngine.Proofs.Cache.Entries
import StyleEngine.Proofs.Run.Passes

/-! # From a request to passes and back

What surrounds the passes of a run: a request that leads to a run (`Engine.Starts`)
makes its passes over projects whose files are each at one slot, with nothing
counted yet, and what the passes leave is what the summary tells
(`Engine.runWith_of_passes`).
-/
namespace StyleEngine

namespace Engine

variable {e : Engine} {sweep : Sweep} {t : FileTree} {switches : Switches} {processors : Nat}
  {mode : RunMode} {settingsPath : Option String} {projects : List Project} {r r' : Run}

/-- Whether a request leads to passes over a run: it is well-formed, no other run is going on,
the settings of all projects can be read, and the add-ins are ready. -/
structure Starts (e : Engine) (t : FileTree) (switches : Switches) (mode : RunMode)
    (settingsPath : Option String) (projects : List Project) (r : Run) : Prop where
  path : (settingsPath.any fun p => (trimBlanks p).isEmpty) = false
  idle : e.analyzing = false
  opened : e.busy.opening t switches mode (settingsPath.map Path.mk) projects = .ok r

/-- Whether the add-ins see a run to its end without breaking down. -/
def Closes (e : Engine) (switches : Switches) : Prop :=
  (callAll (fun a p => a.after p switches) (participants e.registry)).result = .ok ()

theorem openPrepared_eq_ok {prepared : Prepared × Except String Unit}
    (h : e.openPrepared t switches mode prepared = .ok r) :
    ∃ ready told, prepared = (ready, .ok ()) ∧
      (callAll (fun a p => a.before p switches) (participants e.registry)) =
        { events := told, result := .ok () } ∧ r = e.begin switches mode ready told := by
  obtain ⟨ready, result⟩ := prepared
  cases result with
  | error message => cases h
  | ok _ =>
    simp only [openPrepared] at h
    cases hb : callAll (fun a p => a.before p switches) (participants e.registry) with
    | mk told begun =>
      rw [hb] at h
      cases begun with
      | error crash => cases h
      | ok _ => exact ⟨ready, told, rfl, rfl, (Except.ok.inj h).symm⟩

theorem opening_eq_ok {path : Option Path}
    (h : e.opening t switches mode path projects = .ok r) :
    ∃ ready told, e.prepare t mode path { cache := e.cache } projects = (ready, .ok ()) ∧
      (callAll (fun a p => a.before p switches) (participants e.registry)) =
        { events := told, result := .ok () } ∧ r = e.begin switches mode ready told :=
  openPrepared_eq_ok h

/-- A run at its start: nothing was done yet, and the slots are those of its files. -/
structure Fresh (r : Run) : Prop where
  slots : r.slots = slotsFrom 0 r.projects
  fatal : r.fatal = none
  pass : r.pass = 0
  tally : r.tally = {}

theorem fresh_begin (e : Engine) (switches : Switches) (mode : RunMode) (ready : Prepared)
    (told : List Event) : Fresh (e.begin switches mode ready told) := ⟨rfl, rfl, rfl, rfl⟩

theorem Fresh.wellPlaced (h : Fresh r) : r.WellPlaced := .of_slots h.slots

/-- Passes over a run at its start. -/
theorem Fresh.passes (h : Fresh r) {sweep : Run → Pool}
    (hs : ∀ r, r.WellPlaced → (sweep r).IsPass r) :
    Run.Passes sweep r (r.passLog sweep maxPasses) (r.passLoop sweep maxPasses).1
      (r.passLoop sweep maxPasses).2 :=
  Run.passes_passLoop hs h.wellPlaced (by decide) (by rw [h.pass]; rfl)

namespace Starts

theorem begins (h : e.Starts t switches mode settingsPath projects r) :
    ∃ ready told, r = e.busy.begin switches mode ready told := by
  obtain ⟨ready, told, -, -, hr⟩ := opening_eq_ok h.opened
  exact ⟨ready, told, hr⟩

theorem fresh (h : e.Starts t switches mode settingsPath projects r) : Fresh r := by
  obtain ⟨ready, told, rfl⟩ := h.begins
  exact fresh_begin ..

theorem registry (h : e.Starts t switches mode settingsPath projects r) :
    r.registry = e.registry := by
  obtain ⟨ready, told, rfl⟩ := h.begins
  rfl

theorem switches_eq (h : e.Starts t switches mode settingsPath projects r) :
    r.switches = switches := by
  obtain ⟨ready, told, rfl⟩ := h.begins
  rfl

end Starts

/-- There is at least one worker. -/
theorem workerCount_pos (e : Engine) (processors : Nat) (projects : List Project) :
    0 < e.workerCount processors projects := by
  simp only [workerCount]
  split
  · exact Nat.one_pos
  · split
    · assumption
    · generalize (projects.filterMap Project.settings).map (·.engine.jobs) = jobs
      cases hj : jobs.find? (· > 0) with
      | none => rw [Option.getD_none]; omega
      | some n => simpa using List.find?_some hj

/-- How a run makes its passes. -/
def sweepOf (e : Engine) (sweep : Sweep) (processors : Nat) (r : Run) : Run → Pool :=
  sweep (e.workerCount processors r.projects)

theorem isPass_sweepOf (hs : sweep.Interleaves) (e : Engine) (processors : Nat) (r : Run) :
    ∀ r₀, r₀.WellPlaced → (e.sweepOf sweep processors r r₀).IsPass r₀ :=
  fun r₀ => hs _ r₀ (workerCount_pos ..)

/-- What a run that starts gives back is what is read off its end. -/
theorem runWith_of_starts (h : e.Starts t switches mode settingsPath projects r) :
    e.runWith sweep t switches processors mode settingsPath projects =
      let passes := r.passLoop (e.sweepOf sweep processors r) maxPasses
      let o := e.busy.close t mode passes.1 passes.2
      { engine := { e with
          cache := o.cache, analyzing := false, cancelled := o.events.any Event.isCancel }
        files := o.files
        projects := o.projects
        events := o.events ++ (conclude o).1
        result := (conclude o).2 } := by
  simp only [runWith, h.path, Bool.false_eq_true, ↓reduceIte, h.idle, runAll, h.opened]
  rfl

/-- **The summary tells what the passes have left.** -/
theorem runWith_of_passes (h : e.Starts t switches mode settingsPath projects r)
    (hc : e.Closes switches) {res : PassResult} (hsw : r'.switches = switches)
    (hp : r.passLoop (e.sweepOf sweep processors r) maxPasses = (r', .ok res)) :
    (e.runWith sweep t switches processors mode settingsPath projects).projects = r'.projects ∧
    (e.runWith sweep t switches processors mode settingsPath projects).result =
      .ok { RunSummary.collect r'.projects [] with
        passes := res.passes
        cancelled := res.cancelled
        converged := res.converged
        filesAnalyzed := r'.tally.analyzed
        filesCached := r'.tally.cached
        fixesApplied := r'.tally.fixes } := by
  rw [runWith_of_starts h, hp]
  have hclosing : (callAll (fun a p => a.after p r'.switches)
      (participants e.busy.registry)).result = .ok () := hsw ▸ hc
  refine ⟨?_, ?_⟩
  · simp only [close, hclosing]
  · simp only [close, hclosing]
    rfl

theorem document_flush (c : Cache) (t : FileTree) : (c.flush t).1.document = c.document := by
  unfold Cache.flush
  split
  · rfl
  · obtain ⟨store, t', result⟩ := c.store.save t c.document
    cases result <;> rfl

theorem document_flushCache (cache : Option Cache) (t : FileTree) :
    (flushCache cache t).1.map Cache.document = cache.map Cache.document := by
  cases cache with
  | none => rfl
  | some c =>
    have hflush := document_flush c t
    rcases hf : c.flush t with ⟨c', t', result⟩
    rw [hf] at hflush
    simp only at hflush
    cases result <;> simp [flushCache, hf, hflush]

/-- The document of the cache stays as the passes have left it. -/
theorem document_close (e : Engine) (t : FileTree) (mode : RunMode) (r : Run)
    (result : Except AddInError PassResult) :
    (e.close t mode r result).cache.map Cache.document = r.cache.map Cache.document := by
  simp only [close]
  split
  · rfl
  · split <;> exact document_flushCache ..

theorem document_runWith (h : e.Starts t switches mode settingsPath projects r) :
    (e.runWith sweep t switches processors mode settingsPath projects).engine.cache.map
      Cache.document =
    (r.passLoop (e.sweepOf sweep processors r) maxPasses).1.cache.map Cache.document := by
  rw [runWith_of_starts h]
  exact document_close ..

theorem projects_close (e : Engine) (t : FileTree) (mode : RunMode) (r : Run)
    (result : Except AddInError PassResult) : (e.close t mode r result).projects = r.projects := by
  simp only [close]
  split
  · rfl
  · split <;> rfl

/-- The settings that a run starts with are those of the projects that it gives back. -/
theorem Starts.exists_settings {r : Run} (h : e.Starts t switches mode settingsPath projects r)
    (hs : sweep.Interleaves) (processors : Nat) {p : Project} (hp : p ∈ r.projects) :
    ∃ p' ∈ (e.runWith sweep t switches processors mode settingsPath projects).projects,
      p'.settings = p.settings := by
  have hpass := isPass_sweepOf hs e processors r
  have hsame := (h.fresh.passes hpass).sameFiles hpass h.fresh.wellPlaced
  rw [runWith_of_starts h]
  simp only [projects_close]
  exact hsame.exists_settings hp

end Engine

end StyleEngine
