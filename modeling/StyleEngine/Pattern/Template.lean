import StyleEngine.Pattern.Matcher

/-! # Replacement templates

In a template `$1` and `$name` stand for what a group has matched, `${...}` for
the group whose number or name is between the braces, and `$$` for a dollar
sign.  A group that took no part in the match, or that there is not, stands for
nothing; a dollar sign that starts none of these stands for itself.
-/
namespace StyleEngine

namespace Pattern

/-- A part of a template. -/
inductive Part where
  | text (c : Char)
  | number (n : Nat)
  | name (s : String)

def isReferenceChar (c : Char) : Bool := c.isAlphanum || c == '_'

/-- The number that a reference spells: digits, possibly after a plus sign, of at most 64
bits. -/
def referenceNumber? (cs : List Char) : Option Nat :=
  let ds := match cs with
    | '+' :: rest => rest
    | cs => cs
  if ds.isEmpty || !ds.all Char.isDigit then none
  else
    let n := Json.decimalValue ds
    if n < UInt64.size then some n else none

def reference (cs : List Char) : Part :=
  match referenceNumber? cs with
  | some n => .number n
  | none => .name (String.ofList cs)

/-- The parts of a template; `fuel` bounds their number. -/
def parts : Nat → List Char → List Part
  | 0, _ => []
  | _ + 1, [] => []
  | fuel + 1, '$' :: '$' :: rest => .text '$' :: parts fuel rest
  | fuel + 1, '$' :: '{' :: rest =>
    match rest.dropWhile (· != '}') with
    | '}' :: after => reference (rest.takeWhile (· != '}')) :: parts fuel after
    | _ => .text '$' :: parts fuel ('{' :: rest)
  | fuel + 1, '$' :: rest =>
    match rest.takeWhile isReferenceChar with
    | [] => .text '$' :: parts fuel rest
    | word => reference word :: parts fuel (rest.dropWhile isReferenceChar)
  | fuel + 1, c :: rest => .text c :: parts fuel rest

/-- What a part of a template becomes for a match. -/
def Part.expand (p : Pattern) (text : Array Char) (c : Captures) : Part → List Char
  | .text ch => [ch]
  | .number n => (groupText text c n).getD []
  | .name s =>
    match p.names.lookup s with
    | some n => (groupText text c n).getD []
    | none => []

/-- A text with matches replaced; `done` characters of it have been passed. -/
def replaceMatches (p : Pattern) (template : List Part) (text : Array Char) :
    Nat → List (Nat × Nat × Captures) → List Char
  | done, [] => (text.extract done text.size).toList
  | done, (a, b, c) :: rest =>
    (text.extract done a).toList ++ template.flatMap (Part.expand p text c) ++
      replaceMatches p template text b rest

/-- A text with every match of a pattern replaced by a template. -/
def replaceAll (p : Pattern) (text template : String) : String :=
  let chars := text.toList.toArray
  let cs := template.toList
  String.ofList (p.replaceMatches (parts (cs.length + 1) cs) chars 0 (p.allMatches chars))

/-- What a pattern has matched in a text: its first group, or the whole match if that took no
part. -/
def matched? (p : Pattern) (text : String) : Option String :=
  let chars := text.toList.toArray
  (p.find? chars 0).map fun c =>
    match groupText chars c 1 with
    | some cs => String.ofList cs
    | none => String.ofList ((groupText chars c 0).getD [])

end Pattern

end StyleEngine
