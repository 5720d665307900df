import StyleEngine.Proofs.Engine.Publication
import StyleEngine.Proofs.Engine.RebuiltProjects

/-! # Runs that fail in preparation

Projects are prepared one after the other, and the first whose settings cannot be
read ends the run.  The projects before it were reset by then; it and those
behind it are as an earlier run has left them, and the summary tells of all
projects.  So such a run tells of its own failure alone exactly if no earlier run
left anything on the projects from the first unreadable one on
(`Engine.runWith_unprepared`).
-/
namespace StyleEngine

namespace Engine

variable {e : Engine} {sweep : Sweep} {t : FileTree} {switches : Switches} {processors : Nat}
  {mode : RunMode} {settingsPath : Option String} {path : Option Path} {ps : List Project}

/-- Whether the settings of a project can be read. -/
def canRead (e : Engine) (t : FileTree) (path : Option Path) (p : Project) : Bool :=
  (e.settingsOf t path p).isOk

/-- The failure to read the settings of a project. -/
def settingsFailure (p : Project) (cause : SettingsError) : Violation :=
  Violation.exception ("Failed to load settings for " ++ p.name ++ ": " ++ cause.message)

/-- A project that was made ready carries nothing from earlier runs. -/
theorem isClean_readied (p : Project) (s : Settings) : (readied p s).IsClean := by
  intro f hf
  obtain ⟨g, -, rfl⟩ := List.mem_map.mp hf
  exact ⟨rfl, rfl⟩

/-- **Preparing stops at the first project whose settings cannot be read.**  Those before it are
made ready; it and those behind it stay as they are. -/
theorem prepare_stops (hbad : ∃ p ∈ ps, ∃ cause, e.settingsOf t path p = .error cause)
    (mode : RunMode) (before : Prepared) : ∃ ready p rest cause,
      ps.dropWhile (e.canRead t path) = p :: rest ∧ e.settingsOf t path p = .error cause ∧
      (∀ q ∈ ready, q.IsClean) ∧
      (e.prepare t mode path before ps).1.projects = before.projects ++ (ready ++ p :: rest) ∧
      (e.prepare t mode path before ps).2 =
        .error ("Failed to load settings for " ++ p.name ++ ": " ++ cause.message) := by
  induction ps generalizing before with
  | nil =>
    obtain ⟨p, hp, -⟩ := hbad
    cases hp
  | cons p ps ih =>
    unfold prepare
    cases hs : e.settingsOf t path p with
    | error cause =>
      have hno : e.canRead t path p = false := by rw [canRead, hs]; rfl
      have hdrop : (p :: ps).dropWhile (e.canRead t path) = p :: ps :=
        List.dropWhile_cons_of_neg (by rw [hno]; exact Bool.false_ne_true)
      exact ⟨[], p, ps, cause, hdrop, hs, List.forall_mem_nil _, rfl, rfl⟩
    | ok s =>
      have hyes : e.canRead t path p = true := by rw [canRead, hs]; rfl
      have hlater : ∃ q ∈ ps, ∃ cause, e.settingsOf t path q = .error cause := by
        obtain ⟨q, hq, cause, hcause⟩ := hbad
        rcases List.mem_cons.mp hq with rfl | hq
        · cases hs.symm.trans hcause
        · exact ⟨q, hq, cause, hcause⟩
      obtain ⟨ready, q, rest, cause, hdrop, hq, hclean, hprojects, hresult⟩ :=
        ih hlater (prepareUnder mode before p s)
      refine ⟨readied p s :: ready, q, rest, cause, ?_, hq, ?_, ?_, hresult⟩
      · rw [List.dropWhile_cons_of_pos hyes, hdrop]
      · intro r hr
        rcases List.mem_cons.mp hr with rfl | hr
        · exact isClean_readied p s
        · exact hclean r hr
      · show (e.prepare t mode path (prepareUnder mode before p s) ps).1.projects = _
        rw [hprojects, prepareUnder, List.append_assoc]
        rfl

/-- All that a run publishes that fails in preparation is its failure. -/
theorem events_of_unprepared (hacc : e.Accepts settingsPath) {ready : Prepared} {message : String}
    (h : e.busy.prepare t mode (settingsPath.map Path.mk) { cache := e.cache } ps =
      (ready, .error message)) :
    (e.runWith sweep t switches processors mode settingsPath ps).events =
      [.violation (Violation.exception message)] := by
  have hprepare : e.busy.prepare t mode (settingsPath.map Path.mk) { cache := e.busy.cache } ps =
      (ready, .error message) := h
  simp [runWith, hacc.1, hacc.2, runAll, opening, openPrepared, hprepare, conclude]

/-- **What a run tells that fails in preparation.**  It publishes one error outside of any file, on
the first project whose settings cannot be read, and touches no file on disk.  Its summary tells
of that error and, before it, of all that earlier runs left on that project and those behind it.
So the error is all it tells exactly if these projects are clean. -/
theorem runWith_unprepared (hacc : e.Accepts settingsPath)
    (hbad : ∃ p ∈ ps, ∃ cause, e.settingsOf t (settingsPath.map Path.mk) p = .error cause)
    (sweep : Sweep) (switches : Switches) (processors : Nat) (mode : RunMode) :
    let o := e.runWith sweep t switches processors mode settingsPath ps
    let stale := ps.dropWhile (e.canRead t (settingsPath.map Path.mk))
    ∃ p cause summary, stale.head? = some p ∧
      e.settingsOf t (settingsPath.map Path.mk) p = .error cause ∧ o.result = .ok summary ∧
      o.files = t ∧ Event.published o.events = [settingsFailure p cause] ∧
      summary.engineViolations = [settingsFailure p cause] ∧
      summary.violations = stale.flatMap Project.violations ++ [settingsFailure p cause] ∧
      summary.filesFixed = (stale.flatMap Project.files).countP SourceFile.modified ∧
      ((summary.violations = summary.engineViolations ∧ summary.filesFixed = 0) ↔
        ∀ q ∈ stale, q.IsClean) := by
  intro o stale
  obtain ⟨ready, p, rest, cause, hdrop, hcause, hclean, hprojects, hfailed⟩ :=
    prepare_stops (e := e.busy) hbad mode { cache := e.cache }
  rcases hmade : e.busy.prepare t mode (settingsPath.map Path.mk) { cache := e.cache } ps with
    ⟨made, result⟩
  rw [hmade] at hprojects hfailed
  obtain rfl : result = _ := hfailed
  have hstale : stale = p :: rest := hdrop
  have hmadeProjects : made.projects = ready ++ stale := by rw [hstale]; exact hprojects
  obtain ⟨-, hfiles, hresult⟩ :
      o.projects = made.projects ∧ o.files = t ∧ o.result = .ok (.collect made.projects _) :=
    runWith_of_unprepared hacc hmade
  have hevents : o.events = [.violation (settingsFailure p cause)] :=
    events_of_unprepared hacc hmade
  -- what was made ready before the failure adds nothing to the summary
  obtain ⟨hnone, hzero⟩ := (Project.forall_isClean_iff ready).mp hclean
  have hviolations : made.projects.flatMap Project.violations =
      stale.flatMap Project.violations := by
    rw [hmadeProjects, List.flatMap_append, hnone, List.nil_append]
  have hfixed : (made.projects.flatMap Project.files).countP SourceFile.modified =
      (stale.flatMap Project.files).countP SourceFile.modified := by
    rw [hmadeProjects, List.flatMap_append, List.countP_append, hzero, Nat.zero_add]
  refine ⟨p, cause, _, by rw [hstale]; rfl, hcause, hresult, hfiles, by rw [hevents]; rfl, rfl,
    congrArg (· ++ [settingsFailure p cause]) hviolations, hfixed, ?_⟩
  rw [Project.forall_isClean_iff, ← hviolations, ← hfixed]
  exact and_congr_left' List.append_left_eq_self

/-- A request to fix a text. -/
def mending (text : String) : Request := { spotting text with mode := { autoFix := true } }

theorem settingsOf_astray : ∃ cause, mender.settingsOf misled none astray = .error cause := by
  have hastray : (mender.settingsOf misled none astray).isOk = false := by decide +kernel
  cases hs : mender.settingsOf misled none astray with
  | error cause => exact ⟨cause, rfl⟩
  | ok s =>
    rw [hs] at hastray
    cases hastray

/-- A project that was fixed comes before one that cannot be prepared, and was reset by then. -/
theorem runWith_unprepared_last :
    let ps := (mending "a\tb\nTODO\n").outcome.projects ++ [astray]
    (ps.map fun p => p.files.map fun f => (f.violations.map Violation.ruleId, f.modified)) =
      [[(["Todo"], true)], []] ∧
    ∃ cause summary, (mender.runWith Sweep.oneByOne misled [] 1 {} none ps).result = .ok summary ∧
      summary.violations = [settingsFailure astray cause] ∧
      summary.engineViolations = [settingsFailure astray cause] ∧ summary.filesFixed = 0 := by
  intro ps
  have hread : ∀ p ∈ (mending "a\tb\nTODO\n").outcome.projects, mender.canRead misled none p := by
    decide +kernel
  have hstale : ps.dropWhile (mender.canRead misled none) = [astray] := by
    obtain ⟨cause, hcause⟩ := settingsOf_astray
    have hno : mender.canRead misled none astray = false := by rw [canRead, hcause]; rfl
    rw [List.dropWhile_append_of_pos hread]
    exact List.dropWhile_cons_of_neg (by rw [hno]; exact Bool.false_ne_true)
  have hbad : ∃ p ∈ ps, ∃ cause, mender.settingsOf misled none p = .error cause :=
    ⟨astray, List.mem_append_right _ List.mem_cons_self, settingsOf_astray⟩
  have hacc : mender.Accepts none := ⟨rfl, rfl⟩
  have hclean : ∀ q ∈ [astray], q.IsClean := by
    intro q hq
    obtain rfl := List.mem_singleton.mp hq
    exact nofun
  obtain ⟨p, cause, summary, hp, -, hresult, -, -, hown, -, -, hiff⟩ :=
    runWith_unprepared hacc hbad Sweep.oneByOne [] 1 {}
  rw [Option.map_none, hstale] at hp hiff
  obtain rfl : astray = p := Option.some.inj hp
  obtain ⟨hviolations, hfixed⟩ := hiff.mpr hclean
  exact ⟨by decide +kernel, cause, summary, hresult, hviolations.trans hown, hown, hfixed⟩

/-- A project that was fixed comes behind one that cannot be prepared, and is told of again. -/
theorem runWith_unprepared_first :
    let ps := astray :: (mending "a\tb\nTODO\n").outcome.projects
    let o := mender.runWith Sweep.oneByOne misled [] 1 {} none ps
    Project.History Project.IsNew (fun _ => True) ps ∧ mender.Accepts none ∧
    (∃ p ∈ ps, ∃ cause, mender.settingsOf misled none p = .error cause) ∧
    (Event.published o.events).map Violation.ruleId = ["ExceptionOccurred"] ∧
    (o.result.toOption.map fun s => (s.violations.map Violation.ruleId,
      s.engineViolations.map Violation.ruleId, s.filesFixed)) =
        some (["Todo", "ExceptionOccurred"], ["ExceptionOccurred"], 1) := by
  intro ps o
  have hmended : Project.History Project.IsNew (fun _ => True)
      ((mending "a\tb\nTODO\n").outcome.projects ++ []) :=
    .run (.build .start (isNew_spotted _)) Sweep.oneByOne_interleaves.interleaves trivial
  have hhistory := hmended.build isNew_astray
  rw [List.append_nil] at hhistory
  exact ⟨hhistory, ⟨rfl, rfl⟩, ⟨astray, List.mem_cons_self, settingsOf_astray⟩, by decide +kernel,
    by decide +kernel⟩

end Engine

end StyleEngine
