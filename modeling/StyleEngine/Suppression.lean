import StyleEngine.Text.Blank
import StyleEngine.Text.Substitute

/-! # Suppressions

A comment of any style may switch a rule off: `stylecheck-disable Rule` for its
own line, `stylecheck-disable-next-line Rule` for the next one and
`stylecheck-disable-file Rule` for the whole file, each followed by a reason
after a colon if there is one.  The directive has to reach to the end of its
line; a closing `-->` or `*/` is no part of it.

A line may be read as a directive in several ways, since the characters of a
rule's name also start the closing marks.  The leftmost directive counts, then
the longest name of a rule, then the shortest reason.
-/
namespace StyleEngine

/-- What a directive is for. -/
inductive DirectiveKind where
  | line
  | nextLine
  | file
deriving DecidableEq

/-- A directive on a line. -/
structure Directive where
  kind : DirectiveKind
  rule : String
  reason : Option String
deriving DecidableEq

namespace Directive

def keyword : List Char := "stylecheck-disable".toList

/-- A character of a rule's name. -/
def isNameChar (c : Char) : Bool :=
  c.isAlphanum || c == '_' || c == '.' || c == '#' || c == '*' || c == '-'

/-- Whether nothing but blanks and one closing mark is left of a line. -/
def closes (cs : List Char) : Bool :=
  let cs := trimStart cs
  cs.isEmpty ||
    (match dropWord? ['-', '-', '>'] cs with
      | some rest => (trimStart rest).isEmpty
      | none => false) ||
    (match dropWord? ['*', '/'] cs with
      | some rest => (trimStart rest).isEmpty
      | none => false)

/-- The shortest start of a text, with at least one character, after which the line closes. -/
def shortestReason : List Char → Option (List Char)
  | [] => none
  | c :: cs => if closes cs then some [c] else (shortestReason cs).map (c :: ·)

/-- The reason after a rule's name: a colon and some text.  If only blanks follow the colon,
the last of them is the text. -/
def reason? (cs : List Char) : Option (List Char) :=
  match trimStart cs with
  | ':' :: rest =>
    match trimStart rest with
    | [] => rest.getLast?.map fun c => [c]
    | text => shortestReason text
  | _ => none

/-- What follows a rule's name up to the end of the line: a reason, or nothing. -/
def ending? (cs : List Char) : Option (Option (List Char)) :=
  match reason? cs with
  | some r => some (some r)
  | none => if closes cs then some none else none

/-- Finds the longest name, of at most `n` characters, after which the line ends well. -/
def nameUpTo (run rest : List Char) : Nat → Option (List Char × Option (List Char))
  | 0 => none
  | n + 1 =>
    match ending? (run.drop (n + 1) ++ rest) with
    | some reason => some (run.take (n + 1), reason)
    | none => nameUpTo run rest n

/-- The kind of a directive, by what follows the keyword. -/
def kindOf (cs : List Char) : DirectiveKind × List Char :=
  match dropWord? "-next-line".toList cs with
  | some rest => (.nextLine, rest)
  | none =>
    match dropWord? "-file".toList cs with
    | some rest => (.file, rest)
    | none => (.line, cs)

/-- A directive after its keyword. -/
def after? (cs : List Char) : Option Directive :=
  let (kind, cs) := kindOf cs
  let rest := trimStart cs
  if rest.length = cs.length then none
  else
    let run := rest.takeWhile isNameChar
    (nameUpTo run (rest.dropWhile isNameChar) run.length).map fun found =>
      { kind
        rule := String.ofList found.1
        reason := found.2.map fun r => trimBlanks (String.ofList r) }

/-- The directive on a line: the leftmost place at which one can be read. -/
def read? : List Char → Option Directive
  | [] => none
  | c :: cs =>
    match (dropWord? keyword (c :: cs)).bind after? with
    | some d => some d
    | none => read? cs

end Directive

/-- Where a rule is switched off. -/
inductive Target where
  | file
  | line (n : Nat)
deriving DecidableEq

/-- A rule switched off somewhere. -/
structure Suppression where
  target : Target
  rule : String
  reason : Option String
deriving DecidableEq

namespace Suppression

/-- What a directive on line `n`, counted from one, switches off. -/
def ofDirective (n : Nat) (d : Directive) : Suppression where
  target := match d.kind with
    | .file => .file
    | .nextLine => .line (n + 1)
    | .line => .line n
  rule := d.rule
  reason := d.reason

/-- The suppressions of lines that are counted from `n` on. -/
def ofLines (n : Nat) : List String → List Suppression
  | [] => []
  | l :: rest =>
    match Directive.read? l.toList with
    | some d => ofDirective n d :: ofLines (n + 1) rest
    | none => ofLines (n + 1) rest

/-- The name that stands for every rule. -/
def everyRule : String := "all"

/-- Whether a suppression reaches a line. -/
def reaches (s : Suppression) (line : Nat) : Bool := s.target == .file || s.target == .line line

/-- Whether a rule is switched off on a line. -/
def covers (ss : List Suppression) (rule : String) (line : Nat) : Bool :=
  ss.any fun s => (s.rule == rule || s.rule == everyRule) && s.reaches line

/-- The last reason that is given for a name and a target. -/
def lastReason (ss : List Suppression) (name : String) (target : Target) : Option String :=
  (ss.filterMap fun s => if s.rule == name && s.target == target then s.reason else none).getLast?

/-- The reason for a name on a line, or else for the whole file. -/
def reasonFor (ss : List Suppression) (name : String) (line : Nat) : Option String :=
  match lastReason ss name (.line line) with
  | some r => some r
  | none => lastReason ss name .file

/-- Why a rule is switched off on a line: a reason of its own goes before one for every
rule. -/
def reason? (ss : List Suppression) (rule : String) (line : Nat) : Option String :=
  match reasonFor ss rule line with
  | some r => some r
  | none => reasonFor ss everyRule line

end Suppression

end StyleEngine
