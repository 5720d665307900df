import StyleEngine.Run.Pool

/-! # The passes of a run

Passes follow each other until none leaves a file for the next one, the run is
cancelled, or there have been too many.
-/
namespace StyleEngine

/-- The greatest number of passes of a run. -/
def maxPasses : Nat := 64

/-- What is told of a run with too many passes. -/
def noConvergence : Output :=
  .warning ("Analysis did not converge after " ++ toString maxPasses ++ " passes")

/-- How the passes of a run ended. -/
structure PassResult where
  passes : Nat
  cancelled : Bool := false
  /-- Whether a pass left no file for the next one. -/
  converged : Bool := false

namespace Run

/-- Notes which projects are complete. -/
def settle (r : Run) : Run :=
  { r with
    statuses := (r.statuses.zipIdx).map fun (status, i) =>
      { status with complete := (r.projects[i]?).any Project.isComplete } }

/-- The run that the next pass is made over. -/
def next (r : Run) : Run := { r with pass := r.pass + 1 }

/-- Passes from the current one on, at most as many as given. -/
def passLoop (sweep : Run → Pool) : Nat → Run → Run × Except AddInError PassResult
  | 0, r => (r, .ok { passes := r.pass })
  | left + 1, r =>
    if r.cancelled then (r, .ok { passes := r.pass, cancelled := true })
    else
      let r := (sweep r).run
      match r.fatal with
      | some e => (r, .error e)
      | none =>
        let r := r.settle
        if !r.incomplete then (r, .ok { passes := r.pass + 1, converged := true })
        else if r.pass + 1 ≥ maxPasses then
          (r.emit (.output noConvergence), .ok { passes := maxPasses })
        else passLoop sweep left r.next

end Run

end StyleEngine
