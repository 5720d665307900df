import StyleEngine.Path
import StyleEngine.Text.Lines

/-! # Differences between two texts

Lines are compared place by place.  The difference is one hunk, which starts at
the line in front of the first one that differs and goes on to the end.
-/
namespace StyleEngine

/-- A line of a hunk. -/
inductive DiffLine where
  | same (text : String)
  | removed (text : String)
  | added (text : String)
deriving DecidableEq

namespace DiffLine

def render : DiffLine → String
  | same text => " " ++ text ++ "\n"
  | removed text => "-" ++ text ++ "\n"
  | added text => "+" ++ text ++ "\n"

/-- Compares two lists of lines place by place. -/
def compare : List String → List String → List DiffLine
  | [], ms => ms.map DiffLine.added
  | os, [] => os.map DiffLine.removed
  | o :: os, m :: ms =>
    if o = m then .same o :: compare os ms else .removed o :: .added m :: compare os ms

end DiffLine

/-- A hunk: the number of its first line that differs, and its lines. -/
structure Hunk where
  start : Nat
  lines : List DiffLine

/-- The hunk between two lists of lines, the first of which has the number `n`; `before` is
the line in front of them. -/
def Hunk.between? (n : Nat) (before : Option String) : List String → List String → Option Hunk
  | [], [] => none
  | o :: os, m :: ms =>
    if o = m then between? (n + 1) (some o) os ms
    else some ⟨n, (before.map DiffLine.same).toList ++ DiffLine.compare (o :: os) (m :: ms)⟩
  | os, ms => some ⟨n, (before.map DiffLine.same).toList ++ DiffLine.compare os ms⟩

/-- The difference between two texts of a file. -/
def unifiedDiff (file : Path) (old new : String) : String :=
  let os := splitLines old
  let ms := splitLines new
  let body := match Hunk.between? 1 none os ms with
    | none => ""
    | some h =>
      "@@ -" ++ toString h.start ++ "," ++ toString os.length ++ " +" ++ toString h.start ++ "," ++
        toString ms.length ++ " @@\n" ++ String.join (h.lines.map DiffLine.render)
  "--- a/" ++ file.text ++ "\n+++ b/" ++ file.text ++ "\n" ++ body

end StyleEngine
