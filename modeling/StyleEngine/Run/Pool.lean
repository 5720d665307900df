import StyleEngine.Run.Basic

/-! # The workers of a pass

A worker checks whether the run is aborted, claims the next slot, works on it,
and so on until the slots are used up; then it reports whether it left a file for
the next pass, and leaves.  Each of these is one step (`Pool.step`), and the
steps of the workers may come in any order, with the host's request to stop
anywhere among them (`Pool.runSchedule`).  How a pass is carried out is thus left
open (`Sweep`); `Sweep.oneByOne` lets one worker after the other finish.
-/
namespace StyleEngine

/-- What a worker does next. -/
inductive Phase where
  | checking
  | claiming
  | working (slot : Slot)
  | reporting
  | leaving
  /-- The worker has left, possibly as the last one. -/
  | gone (last : Bool)
deriving DecidableEq

/-- A worker, and whether it left a file for the next pass. -/
structure Worker where
  phase : Phase := .checking
  leftover : Bool := false

/-- A slot that a worker has claimed. -/
structure Claim where
  worker : Nat
  slot : Slot
deriving DecidableEq

/-- A slot that a worker has worked on, and what came of it. -/
structure Handled where
  slot : Slot
  result : Processed

/-- The workers of a pass, what they share, the claims so far and the work done. -/
structure Pool where
  run : Run
  workers : List Worker
  claims : List Claim := []
  handled : List Handled := []

/-- What happens next in a pass. -/
inductive Move where
  | step (worker : Nat)
  /-- The host asks the run to stop. -/
  | cancel
deriving DecidableEq

namespace Pool

/-- A pass at its start. -/
def start (r : Run) (workers : Nat) : Pool :=
  { run := { r with cursor := 0, incomplete := false, outstanding := workers }
    workers := List.replicate workers {} }

def setWorker (p : Pool) (i : Nat) (w : Worker) : Pool := { p with workers := p.workers.set i w }

/-- A worker that claims the next slot. -/
def claim (p : Pool) (i : Nat) (w : Worker) : Pool :=
  let q : Pool := { p with run.cursor := p.run.cursor + 1 }
  match p.run.slots[p.run.cursor]? with
  | some slot =>
    setWorker { q with claims := p.claims ++ [⟨i, slot⟩] } i { w with phase := .working slot }
  | none => q.setWorker i { w with phase := .reporting }

/-- A worker that works on the slot it has claimed. -/
def work (p : Pool) (i : Nat) (w : Worker) (slot : Slot) : Pool :=
  let (run, result) := p.run.process slot
  setWorker { p with run, handled := p.handled ++ (result.map (Handled.mk slot)).toList } i
    { phase := .checking
      leftover := w.leftover || result.any fun r => r.outcome == FileOutcome.deferred }

/-- One step of a worker. -/
def step (p : Pool) (i : Nat) : Pool :=
  match p.workers[i]? with
  | none => p
  | some w =>
    match w.phase with
    | .checking =>
      p.setWorker i { w with phase := if p.run.isAborted then .reporting else .claiming }
    | .claiming => p.claim i w
    | .working slot => p.work i w slot
    | .reporting =>
      setWorker { p with run.incomplete := p.run.incomplete || w.leftover } i
        { w with phase := .leaving }
    | .leaving =>
      setWorker { p with run.outstanding := p.run.outstanding - 1 } i
        { w with phase := .gone (p.run.outstanding == 1) }
    | .gone _ => p

/-- A step of a worker, or the host's request to stop. -/
def move (p : Pool) : Move → Pool
  | .step i => p.step i
  | .cancel => { p with run := { p.run.emit .cancel with cancelled := true } }

/-- What happens in a pass, in the order of a schedule. -/
def runSchedule (p : Pool) (schedule : List Move) : Pool := schedule.foldl move p

/-- The schedule that lets the first worker do all work and then the others find none. -/
def oneByOne (slots workers : Nat) : List Move :=
  List.replicate (3 * slots + 4) (.step 0) ++
    (List.range workers).flatMap fun i => if i = 0 then [] else List.replicate 4 (.step i)

end Pool

/-- How passes are carried out: what a pass leaves, given the number of workers and the run. -/
abbrev Sweep := Nat → Run → Pool

/-- One worker after the other. -/
def Sweep.oneByOne : Sweep := fun workers r =>
  (Pool.start r workers).runSchedule (Pool.oneByOne r.slots.length workers)

end StyleEngine
