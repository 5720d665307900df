import StyleEngine.Record
import StyleEngine.Text.Case

/-! # Severities

How grave a violation is: `info`, `warning` or `error`, in ascending order.
-/
namespace StyleEngine

/-- How grave a violation is. -/
inductive Severity where
  | info
  | warning
  | error
deriving DecidableEq, Inhabited

namespace Severity

def name : Severity → String
  | .info => "info"
  | .warning => "warning"
  | .error => "error"

def rank : Severity → Nat
  | .info => 0
  | .warning => 1
  | .error => 2

/-- The graver of two severities. -/
def max (s t : Severity) : Severity := if s.rank < t.rank then t else s

/-- The severity that a word names, in any case. -/
def ofWord? (word : String) : Option Severity :=
  let w := lowerCase word
  if w = "info" ∨ w = "hint" ∨ w = "note" then some .info
  else if w = "warning" ∨ w = "warn" then some .warning
  else if w = "error" ∨ w = "err" then some .error
  else none

/-- The severity with a name. -/
def ofName? (name : String) : Option Severity :=
  if name = "info" then some .info
  else if name = "warning" then some .warning
  else if name = "error" then some .error
  else none

theorem ofName?_name (s : Severity) : ofName? s.name = some s := by
  cases s <;> rfl

def read? {ν : Type} [DataNode ν] (n : ν) : Option Severity :=
  (DataNode.variant? n).bind ofName?

end Severity

end StyleEngine
