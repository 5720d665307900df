import StyleEngine.Json.Basic

/-! # Writing JSON

Two layouts: compact, without any blank, and indented by two spaces a level.
Strings escape the quote, the backslash and the control characters below space,
the latter by one letter where JSON has one and by four lower-case hexadecimal
digits otherwise.
-/
namespace StyleEngine

namespace Json

def hexLower (n : Nat) : Char := Char.ofNat (if n < 10 then 48 + n else 87 + n)

/-- A character as it is written inside a string. -/
def escapeChar (c : Char) : List Char :=
  if c = '"' then ['\\', '"']
  else if c = '\\' then ['\\', '\\']
  else if c = '\n' then ['\\', 'n']
  else if c = '\r' then ['\\', 'r']
  else if c = '\t' then ['\\', 't']
  else if c = '\x08' then ['\\', 'b']
  else if c = '\x0c' then ['\\', 'f']
  else if c.toNat < 0x20 then
    ['\\', 'u', '0', '0', hexLower (c.toNat / 16), hexLower (c.toNat % 16)]
  else [c]

def quote (s : String) : List Char := '"' :: s.toList.flatMap escapeChar ++ ['"']

/-- The parts joined, with a separator between any two. -/
def sepBy (sep : List Char) : List (List Char) → List Char
  | [] => []
  | [x] => x
  | x :: rest => x ++ sep ++ sepBy sep rest

mutual

/-- The compact layout. -/
def compactChars : Json → List Char
  | .null => ['n', 'u', 'l', 'l']
  | .bool true => ['t', 'r', 'u', 'e']
  | .bool false => ['f', 'a', 'l', 's', 'e']
  | .nat n => Nat.toDigits 10 n
  | .number spelling => spelling.toList
  | .str s => quote s
  | .arr items => '[' :: sepBy [','] (compactItems items) ++ [']']
  | .obj members => '{' :: sepBy [','] (compactMembers members) ++ ['}']
  | .garbled => ['n', 'u', 'l', 'l']

def compactItems : List Json → List (List Char)
  | [] => []
  | v :: rest => compactChars v :: compactItems rest

def compactMembers : List (String × Json) → List (List Char)
  | [] => []
  | (k, v) :: rest => (quote k ++ ':' :: compactChars v) :: compactMembers rest

end

/-- A line break and the indentation of a level. -/
def newline (level : Nat) : List Char := '\n' :: List.replicate (2 * level) ' '

mutual

/-- The indented layout of a value at a level. -/
def prettyChars (level : Nat) : Json → List Char
  | .arr [] => ['[', ']']
  | .obj [] => ['{', '}']
  | .arr items =>
    '[' :: newline (level + 1) ++
      sepBy (',' :: newline (level + 1)) (prettyItems (level + 1) items) ++
      newline level ++ [']']
  | .obj members =>
    '{' :: newline (level + 1) ++
      sepBy (',' :: newline (level + 1)) (prettyMembers (level + 1) members) ++
      newline level ++ ['}']
  | v => compactChars v

def prettyItems (level : Nat) : List Json → List (List Char)
  | [] => []
  | v :: rest => prettyChars level v :: prettyItems level rest

def prettyMembers (level : Nat) : List (String × Json) → List (List Char)
  | [] => []
  | (k, v) :: rest =>
    (quote k ++ ':' :: ' ' :: prettyChars level v) :: prettyMembers level rest

end

/-- A value that may be absent: `null` stands for none. -/
def ofOption {α : Type} (f : α → Json) : Option α → Json
  | none => .null
  | some a => f a

def compact (v : Json) : String := String.ofList (compactChars v)

def pretty (v : Json) : String := String.ofList (prettyChars 0 v)

end Json

end StyleEngine
