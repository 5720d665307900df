import StyleEngine.Text.GeneralCategory

/-! # Quoted texts

How a text is shown between quotes in a description of a value: what a reader
could not see or would take for the end of the text is escaped.
-/
namespace StyleEngine

namespace Quoted

/-- Characters that show up on their own. -/
def printable : CharSet :=
  (CharSet.unionAll [CharSet.other, CharSet.separator, CharSet.nonspacingMark,
    CharSet.enclosingMark]).compl.union (CharSet.singleton ' ')

/-- The digits of a number in base sixteen. -/
def hexText (n : Nat) : String := String.ofList (Nat.toDigits 16 n)

def escape (c : Char) : String :=
  if c = '\x00' then "\\0"
  else if c = '\t' then "\\t"
  else if c = '\r' then "\\r"
  else if c = '\n' then "\\n"
  else if c = '"' then "\\\""
  else if c = '\'' then "\\'"
  else if c = '\\' then "\\\\"
  else if printable.mem c then c.toString
  else "\\u\x7b" ++ hexText c.toNat ++ "\x7d"

end Quoted

/-- A text between quotes. -/
def quoted (s : String) : String := "\"" ++ String.join (s.toList.map Quoted.escape) ++ "\""

end StyleEngine
