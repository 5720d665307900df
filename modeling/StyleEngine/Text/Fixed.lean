/-! # Numbers with fixed places

Durations are shown in seconds with two places.  The seconds are first brought to
the nearest number with a binary fraction of 53 digits, and it is this number
whose exact value is rounded to the places; a half goes to the even neighbour in
both steps.
-/
namespace StyleEngine

/-- The whole number nearest to a quotient; a half goes to the even one. -/
def roundDiv (num den : Nat) : Nat :=
  let q := num / den
  let twice := 2 * (num % den)
  if twice < den then q
  else if den < twice then q + 1
  else if q % 2 = 0 then q else q + 1

/-- A fraction. -/
structure Ratio where
  num : Nat
  den : Nat

namespace Ratio

def add (a b : Ratio) : Ratio := ⟨a.num * b.den + b.num * a.den, a.den * b.den⟩

/-- The nearest fraction with 53 binary digits. -/
def nearestBinary (a : Ratio) : Ratio :=
  if a.num = 0 then a
  else if a.num < a.den <<< 53 then
    let up := ((List.range 1100).find? fun k => a.den <<< 52 ≤ a.num <<< k).getD 0
    ⟨roundDiv (a.num <<< up) a.den, 1 <<< up⟩
  else
    let down := ((List.range 1100).find? fun k => a.num < a.den <<< (53 + k)).getD 0
    ⟨roundDiv a.num (a.den <<< down) <<< down, 1⟩

/-- A fraction with two places after the point. -/
def twoPlaces (a : Ratio) : String :=
  let n := roundDiv (a.num * 100) a.den
  let rest := n % 100
  toString (n / 100) ++ "." ++ (if rest < 10 then "0" else "") ++ toString rest

end Ratio

/-- A number of milliseconds in seconds. -/
def showSeconds (ms : Nat) : String :=
  let part := (Ratio.mk (ms % 1000) 1000).nearestBinary
  (((Ratio.mk (ms / 1000) 1).nearestBinary.add part).nearestBinary).twoPlaces

end StyleEngine
