import StyleEngine.Violation

/-! # Events

What happens while add-ins are loaded and run, in order.  Violations and outputs
are told to subscribers (`EventHub`); the calls of add-ins are there to be
accounted for.
-/
namespace StyleEngine

/-- How important an output is. -/
inductive OutputLevel where
  | info
  | warning
deriving DecidableEq

/-- A message to the user of an engine. -/
structure Output where
  level : OutputLevel
  message : String
deriving DecidableEq

namespace Output

def info (message : String) : Output := ⟨.info, message⟩

def warning (message : String) : Output := ⟨.warning, message⟩

end Output

/-- Something that happened. -/
inductive Event where
  /-- A violation was recorded. -/
  | violation (v : Violation)
  | output (o : Output)
  /-- A parser was called on a file. -/
  | parsing (parser : String) (file : Path) (pass : Nat)
  /-- An analyzer was called on a file. -/
  | analyzing (analyzer : String) (file : Path) (pass : Nat)
  /-- An add-in made a note of its own. -/
  | note (text : String)
  /-- The run was asked to stop. -/
  | cancel
  /-- A changed file was to be written. -/
  | saving (file : Path) (text : String)
deriving DecidableEq

namespace Event

def isCancel : Event → Bool
  | .cancel => true
  | _ => false

def violation? : Event → Option Violation
  | .violation v => some v
  | _ => none

def output? : Event → Option Output
  | .output o => some o
  | _ => none

def note? : Event → Option String
  | .note text => some text
  | _ => none

end Event

/-- The subscribers to violations and outputs, each of whom answers with an `α`. -/
structure EventHub (α : Type) where
  violationHandlers : List (Violation → α) := []
  outputHandlers : List (Output → α) := []

namespace EventHub

variable {α : Type}

def onViolation (h : EventHub α) (handler : Violation → α) : EventHub α :=
  { h with violationHandlers := h.violationHandlers ++ [handler] }

def onOutput (h : EventHub α) (handler : Output → α) : EventHub α :=
  { h with outputHandlers := h.outputHandlers ++ [handler] }

/-- The answers of the subscribers to an event, in the order of their subscription. -/
def publish (h : EventHub α) : Event → List α
  | .violation v => h.violationHandlers.map (· v)
  | .output o => h.outputHandlers.map (· o)
  | _ => []

/-- How many subscribe to violations and to outputs. -/
def subscriberCount (h : EventHub α) : Nat × Nat :=
  (h.violationHandlers.length, h.outputHandlers.length)

def describe (h : EventHub α) : String :=
  "EventHub \x7b violation_handlers: " ++ toString h.subscriberCount.1 ++
    ", output_handlers: " ++ toString h.subscriberCount.2 ++ " \x7d"

end EventHub

end StyleEngine
