/-! # A place in a YAML text

A cursor holds the characters still to be read and counts the characters, lines
and columns passed.  Lines end at a line feed, a carriage return, the two
together, a next-line character or one of the two Unicode separators.
-/
namespace StyleEngine

namespace Yaml

/-- The unread characters and the place of the first of them. -/
structure Cursor where
  rest : List Char
  index : Nat := 0
  line : Nat := 0
  column : Nat := 0

/-- Whether YAML admits a character at all. -/
def isAdmitted (c : Char) : Bool :=
  let n := c.toNat
  n == 0x09 || n == 0x0A || n == 0x0D || (0x20 ≤ n && n ≤ 0x7E) || n == 0x85 ||
    (0xA0 ≤ n && n ≤ 0xFFFD) || 0x10000 ≤ n

def isBreak (c : Char) : Bool :=
  let n := c.toNat
  n == 0x0A || n == 0x0D || n == 0x85 || n == 0x2028 || n == 0x2029

def isGap (c : Char) : Bool := c == ' ' || c == '\t'

/-- A character of an anchor, a tag handle or a directive's name. -/
def isWordChar (c : Char) : Bool := c.isAlphanum || c == '_' || c == '-'

/-- Whether the text is over or a line break is next. -/
def atBreak : List Char → Bool
  | [] => true
  | c :: _ => isBreak c

/-- Whether the text is over or a space, a tab or a line break is next. -/
def atGap : List Char → Bool
  | [] => true
  | c :: _ => isGap c || isBreak c

/-- Whether a document marker of three characters `c` is next, on its own. -/
def atMarker (c : Char) : List Char → Bool
  | x :: y :: z :: rest => x == c && y == c && z == c && atGap rest
  | _ => false

namespace Cursor

/-- Past one character that ends no line. -/
def skip (p : Cursor) : Cursor :=
  match p.rest with
  | [] => p
  | _ :: rest => { p with rest, index := p.index + 1, column := p.column + 1 }

/-- Past `n` characters that end no line. -/
def skipN (p : Cursor) (n : Nat) : Cursor :=
  { p with rest := p.rest.drop n, index := p.index + n, column := p.column + n }

/-- Past one line break, if one is next. -/
def skipLine (p : Cursor) : Cursor :=
  match p.rest with
  | '\r' :: '\n' :: rest => { rest, index := p.index + 2, line := p.line + 1, column := 0 }
  | c :: rest =>
    if isBreak c then { rest, index := p.index + 1, line := p.line + 1, column := 0 } else p
  | [] => p

/-- The text that the line break ahead stands for: the separators stay, all others become a
line feed. -/
def breakText (p : Cursor) : List Char :=
  match p.rest with
  | [] => []
  | c :: _ =>
    if c.toNat == 0x2028 || c.toNat == 0x2029 then [c] else if isBreak c then ['\n'] else []

/-- Past all characters that a predicate holds of, none of which ends a line. -/
def skipWhile (p : Cursor) (f : Char → Bool) : Cursor :=
  p.skipN (p.rest.takeWhile f).length

/-- Whether a document marker stands here, at the start of a line. -/
def atDocumentMarker (p : Cursor) : Bool :=
  p.column == 0 && (atMarker '-' p.rest || atMarker '.' p.rest)

end Cursor

end Yaml

end StyleEngine
