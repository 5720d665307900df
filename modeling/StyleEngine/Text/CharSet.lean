import StyleEngine.Text.Split

/-! # Sets of characters

A character set is an array of inclusive ranges of code points, ascending and
apart from one another.  Sets are read from short tables of hexadecimal text
(`CharSet.ofTable`), combined by the Boolean operations, and asked for
membership by bisection (`CharSet.mem`).
-/
namespace StyleEngine

/-- A set of code points, as ascending ranges with a gap between any two. -/
structure CharSet where
  ranges : Array (Nat × Nat)

namespace CharSet

/-- The greatest code point. -/
def top : Nat := 0x10FFFF

/-- Merges ranges that touch or overlap; the input is sorted by its lower ends. -/
def coalesce : List (Nat × Nat) → List (Nat × Nat)
  | [] => []
  | [r] => [r]
  | (a, b) :: (c, d) :: rest =>
    if c ≤ b + 1 then coalesce ((a, max b d) :: rest)
    else (a, b) :: coalesce ((c, d) :: rest)
  termination_by l => l.length

/-- The set covered by any list of ranges. -/
def ofRanges (l : List (Nat × Nat)) : CharSet :=
  ⟨(coalesce ((l.filter fun r => r.1 ≤ r.2).mergeSort fun r s => r.1 ≤ s.1)).toArray⟩

def empty : CharSet := ⟨#[]⟩

def singleton (c : Char) : CharSet := ⟨#[(c.toNat, c.toNat)]⟩

def ofRange (lo hi : Char) : CharSet := ofRanges [(lo.toNat, hi.toNat)]

/-- Every code point. -/
def full : CharSet := ⟨#[(0, top)]⟩

def union (s t : CharSet) : CharSet :=
  ofRanges (s.ranges.toList ++ t.ranges.toList)

/-- The gaps of ascending ranges, from `start` up to the greatest code point. -/
def gaps (start : Nat) : List (Nat × Nat) → List (Nat × Nat)
  | [] => if start ≤ top then [(start, top)] else []
  | (a, b) :: rest =>
    if start < a then (start, a - 1) :: gaps (b + 1) rest else gaps (b + 1) rest

def compl (s : CharSet) : CharSet := ⟨(gaps 0 s.ranges.toList).toArray⟩

def inter (s t : CharSet) : CharSet := (s.compl.union t.compl).compl

def diff (s t : CharSet) : CharSet := s.inter t.compl

def symmDiff (s t : CharSet) : CharSet := (s.union t).diff (s.inter t)

/-- Bisection: whether one of the ranges from `lo` up to, but without, `hi` holds `n`. -/
def search (ranges : Array (Nat × Nat)) (n lo hi : Nat) : Bool :=
  if lo < hi then
    match ranges[(lo + hi) / 2]? with
    | none => false
    | some (a, b) =>
      if n < a then search ranges n lo ((lo + hi) / 2)
      else if b < n then search ranges n ((lo + hi) / 2 + 1) hi
      else true
  else false
  termination_by hi - lo

def mem (s : CharSet) (c : Char) : Bool :=
  search s.ranges c.toNat 0 s.ranges.size

def isEmpty (s : CharSet) : Bool := s.ranges.isEmpty

/-! ### Tables -/

/-- The value of hexadecimal digits, written with capitals. -/
def hexValue (digits : List Char) : Nat :=
  digits.foldl (fun n c => n * 16 + (if c.isDigit then c.toNat - 48 else c.toNat - 55)) 0

/-- Every `step`-th code point from `lo` to `hi`, each as a range of its own. -/
def stride (lo hi step : Nat) : List (Nat × Nat) :=
  (List.range ((hi - lo) / step + 1)).map fun i => (lo + i * step, lo + i * step)

/-- Splits a table's entry `41`, `41-5A` or `100-12E/2` into its ends and step. -/
def readEntry (entry : List Char) : Nat × Nat × Nat :=
  let first := entry.takeWhile Char.isAlphanum
  let rest := entry.dropWhile Char.isAlphanum
  match rest with
  | '-' :: rest =>
    let last := rest.takeWhile Char.isAlphanum
    match rest.dropWhile Char.isAlphanum with
    | '/' :: step => (hexValue first, hexValue last, hexValue step)
    | _ => (hexValue first, hexValue last, 1)
  | _ => (hexValue first, hexValue first, 1)

/-- The words of a table, which may go over several lines. -/
def words (table : String) : List (List Char) :=
  (parts ' ' (table.toList.map fun c => if c = '\n' then ' ' else c)).filter fun word =>
    !word.isEmpty

/-- Reads a table: entries separated by blanks, where `a-b` stands for a range and
`a-b/2` for every second code point of it. -/
def ofTable (table : String) : CharSet :=
  ofRanges ((words table).flatMap fun entry =>
    match readEntry entry with
    | (lo, hi, 1) => [(lo, hi)]
    | (lo, hi, step) => stride lo hi step)

end CharSet

end StyleEngine
