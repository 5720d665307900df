import StyleEngine.Proofs.Engine.FailureIsolation
import StyleEngine.Proofs.Run.Profiles

/-! # Exchanging profiles

With other profiles by which the analyzers act alike, add-ins are told of a run alike,
the passes come out as before, and so does the whole run, whatever its schedules and
settings are (`Engine.runWith_reprofiled`).
-/
namespace StyleEngine

namespace Engine

variable {g : AnalyzerEntry → Profile}

theorem callAll_congr {call : AddIn → Profile → Reaction Crash Unit}
    {l l' : List (AddIn × Profile)}
    (h : l.map (fun x => call x.1 x.2) = l'.map fun x => call x.1 x.2) :
    callAll call l = callAll call l' := by
  have hcalls (l : List (AddIn × Profile)) : callAll call l =
      (l.map fun x => call x.1 x.2).foldr (fun x y => x.andThen fun _ => y) (.ok ()) := by
    induction l with
    | nil => rfl
    | cons x l ih => rw [callAll, ih, List.map_cons, List.foldr_cons]
  rw [hcalls, hcalls, h]

/-- Add-ins that act alike are told of a run alike. -/
theorem callAll_reprofiled {call : AddIn → Profile → Reaction Crash Unit} {r : Registry}
    (h : ∀ a ∈ r.analyzers,
      call a.analyzer.toAddIn (g a) = call a.analyzer.toAddIn a.profile) :
    callAll call (participants (r.reprofiled g)) = callAll call (participants r) := by
  refine callAll_congr ?_
  unfold participants
  rw [show (r.reprofiled g).parsers = r.parsers from rfl, List.map_flatMap, List.map_flatMap]
  congr 1
  funext e
  rw [Registry.analyzersOf_reprofiled, List.map_map, List.map_cons, List.map_cons, List.map_map,
    List.map_map]
  refine congrArg (List.cons _) (List.map_congr_left fun a ha => ?_)
  exact h a (Registry.mem_analyzers_of_analyzersOf ha)

/-- The engine with other profiles for its analyzers. -/
def reprofiled (e : Engine) (g : AnalyzerEntry → Profile) : Engine :=
  e.wiredTo (e.registry.reprofiled g)

variable {e : Engine} {plan : Nat → Nat → Nat → List Move} {t : FileTree} {switches : Switches}
  {processors : Nat} {mode : RunMode}

theorem opening_reprofiled (h : e.registry.ActsAlike g) (path : Option Path)
    (projects : List Project) :
    (e.reprofiled g).opening t switches mode path projects =
      (e.opening t switches mode path projects).map (·.reprofiled g) := by
  have hbegun : callAll (fun a p => a.before p switches)
      (participants (e.reprofiled g).registry) =
    callAll (fun a p => a.before p switches) (participants e.registry) :=
    callAll_reprofiled fun a ha => (h a ha).before switches
  unfold opening openPrepared
  rw [hbegun, reprofiled, prepare_wiredTo]
  rw [show (e.wiredTo (e.registry.reprofiled g)).cache = e.cache from rfl]
  obtain ⟨ready, prepared⟩ := e.prepare t mode path { cache := e.cache } projects
  cases prepared with
  | error message => rfl
  | ok _ =>
    dsimp only
    cases (callAll (fun a p => a.before p switches) (participants e.registry)).result with
    | error crash => rfl
    | ok _ => rfl

theorem close_reprofiled (h : e.registry.ActsAlike g) (r : Run)
    (result : Except AddInError PassResult) :
    (e.reprofiled g).close t mode (r.reprofiled g) result = e.close t mode r result := by
  have hclosing : callAll (fun a p => a.after p r.switches)
      (participants (e.reprofiled g).registry) =
    callAll (fun a p => a.after p r.switches) (participants e.registry) :=
    callAll_reprofiled fun a ha => (h a ha).after r.switches
  unfold close
  rw [show (r.reprofiled g).switches = r.switches from rfl, hclosing]
  rfl

theorem registry_of_opening {path : Option Path} {projects : List Project} {r : Run}
    (h : e.opening t switches mode path projects = .ok r) : r.registry = e.registry := by
  obtain ⟨ready, told, -, -, rfl⟩ := opening_eq_ok h
  rfl

theorem runAll_reprofiled (h : e.registry.ActsAlike g) (path : Option Path)
    (projects : List Project) :
    (e.reprofiled g).runAll (.following plan) t switches processors mode path projects =
      e.runAll (.following plan) t switches processors mode path projects := by
  unfold runAll
  rw [opening_reprofiled h]
  cases hopen : e.opening t switches mode path projects with
  | error ended => rfl
  | ok r =>
    have hr : r.registry.ActsAlike g := (registry_of_opening hopen).symm ▸ h
    rw [show Except.map (·.reprofiled g) (Except.ok r : Except Ended Run) =
      .ok (r.reprofiled g) from rfl]
    dsimp only
    rw [show (r.reprofiled g).projects = r.projects from rfl,
      show (e.reprofiled g).workerCount processors r.projects =
        e.workerCount processors r.projects from rfl,
      Run.passLoop_reprofiled hr]
    exact close_reprofiled h _ _

/-- **Runs do not look into profiles.**  With other profiles by which the analyzers act alike, a
run comes out as before. -/
theorem runWith_reprofiled (h : e.registry.ActsAlike g) (settingsPath : Option String)
    (projects : List Project) :
    let o := e.runWith (.following plan) t switches processors mode settingsPath projects
    (e.reprofiled g).runWith (.following plan) t switches processors mode settingsPath projects =
      { o with engine := o.engine.reprofiled g } := by
  intro o
  by_cases haccepts : e.Accepts settingsPath
  · have hbusy : e.busy.registry.ActsAlike g := h
    have haccepts' : (e.reprofiled g).Accepts settingsPath := haccepts
    rw [runWith_of_accepts haccepts', show o = _ from runWith_of_accepts haccepts]
    rw [show (e.reprofiled g).busy = e.busy.reprofiled g from rfl, runAll_reprofiled hbusy]
    rfl
  · have hrefuses : ¬ (e.reprofiled g).Accepts settingsPath := haccepts
    rw [runWith_of_refused hrefuses, show o = _ from runWith_of_refused haccepts]

end Engine

end StyleEngine
