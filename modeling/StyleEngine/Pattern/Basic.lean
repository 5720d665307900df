import StyleEngine.Text.GeneralCategory

/-! # Patterns

A pattern is a regular expression over characters, with groups that remember
what they matched and repetitions that prefer more or fewer rounds.
-/
namespace StyleEngine

namespace Pattern

/-- A condition on a place between two characters. -/
inductive Assertion where
  | startText
  | endText
  | startLine
  | endLine
  | startLineCrlf
  | endLineCrlf
  /-- Whether the characters on the two sides are of words; `ascii` words have only ASCII
  letters, digits and the underscore. -/
  | boundary (ascii : Bool)
  | noBoundary (ascii : Bool)
  | wordStart (ascii : Bool)
  | wordEnd (ascii : Bool)
  | wordStartHalf (ascii : Bool)
  | wordEndHalf (ascii : Bool)

/-- A regular expression. -/
inductive Expr where
  | empty
  | chars (set : CharSet)
  | look (a : Assertion)
  | group (index : Nat) (e : Expr)
  | seq (e f : Expr)
  | alt (e f : Expr)
  /-- At least `least` and at most `most` rounds, as many as possible if `greedy`. -/
  | rounds (least : Nat) (most : Option Nat) (greedy : Bool) (e : Expr)

namespace Expr

/-- Whether every match of an expression has at least one character. -/
def consumes : Expr → Bool
  | .empty => false
  | .chars set => !set.isEmpty
  | .look _ => false
  | .group _ e => e.consumes
  | .seq e f => e.consumes || f.consumes
  | .alt e f => e.consumes && f.consumes
  | .rounds least _ _ e => least > 0 && e.consumes

/-- Whether an expression matches nothing but the empty text. -/
def onlyEmpty : Expr → Bool
  | .empty => true
  | .chars _ => false
  | .look _ => true
  | .group _ e => e.onlyEmpty
  | .seq e f => e.onlyEmpty && f.onlyEmpty
  | .alt e f => e.onlyEmpty && f.onlyEmpty
  | .rounds _ most _ e => most == some 0 || e.onlyEmpty

/-- A measure of the size of the matcher for an expression, in bytes. -/
def cost : Expr → Nat
  | .empty => 8
  | .chars set => 32 + 24 * set.ranges.size
  | .look _ => 32
  | .group _ e => 64 + e.cost
  | .seq e f => e.cost + f.cost
  | .alt e f => 32 + e.cost + f.cost
  | .rounds least most _ e => 32 + (Nat.max least (most.getD 1)) * (e.cost + 32)

end Expr

/-- The characters of words in ASCII. -/
def asciiWord : CharSet := CharSet.ofTable "30-39 41-5A 5F 61-7A"

def asciiDigit : CharSet := CharSet.ofTable "30-39"

def asciiSpace : CharSet := CharSet.ofTable "9-D 20"

def ascii : CharSet := CharSet.ofTable "0-7F"

end Pattern

end StyleEngine
