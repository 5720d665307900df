import StyleEngine.Suppression
import StyleEngine.Text.Lines

/-! # Texts as models

The model that rules are checked on: the lines of a text, how they end, and the
rules that comments switch off.  Lines are counted from one.
-/
namespace StyleEngine

/-- How lines end. -/
inductive LineEnding where
  | lf
  | crlf
deriving DecidableEq

def LineEnding.text : LineEnding → String
  | .lf => "\n"
  | .crlf => "\r\n"

/-- A text, split into lines. -/
structure TextModel where
  lines : List String
  ending : LineEnding
  /-- Whether the last line is ended too. -/
  closed : Bool
  suppressions : List Suppression
deriving DecidableEq

namespace TextModel

/-- The model of a text.  One carriage return in front of a line feed makes it a text whose
lines all end so. -/
def ofText (text : String) : TextModel :=
  let cs := text.toList
  let lines := splitLines text
  { lines
    ending := if hasCrlf cs then .crlf else .lf
    closed := cs.getLast? == some '\n'
    suppressions := Suppression.ofLines 1 lines }

def lineCount (m : TextModel) : Nat := m.lines.length

/-- The line with a number. -/
def line? (m : TextModel) : Nat → Option String
  | 0 => none
  | n + 1 => m.lines[n]?

/-- The model with another text on a line, if there is such a line. -/
def replaceLine? (m : TextModel) (n : Nat) (text : String) : Option TextModel :=
  match n with
  | 0 => none
  | n + 1 => if n < m.lines.length then some { m with lines := m.lines.set n text } else none

/-- The text of a model. -/
def source (m : TextModel) : String :=
  m.ending.text.intercalate m.lines ++ (if m.closed then m.ending.text else "")

def isSuppressed (m : TextModel) (rule : String) (line : Nat) : Bool :=
  Suppression.covers m.suppressions rule line

def suppressionReason? (m : TextModel) (rule : String) (line : Nat) : Option String :=
  Suppression.reason? m.suppressions rule line

end TextModel

end StyleEngine
