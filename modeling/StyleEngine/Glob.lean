/-! # Globs for files

Settings name files by globs: `?` matches one byte, `*` any bytes, `[...]` one
byte of a class, `{a,b}` one of several globs, and `**` as a whole component any
number of components.  Separators are matched like other bytes.  A glob is read
as a list of tokens, and a token is what it does to a set of places in a text
(`Glob.Token.step`): a text matches if the whole glob leads from its start to
its end.
-/
namespace StyleEngine

namespace Glob

/-- A part of a glob. -/
inductive Token where
  | literal (c : Char)
  | anyByte
  | anyBytes
  /-- `**` at the start: nothing, or all up to a separator. -/
  | leading
  /-- `**` at the end: a separator and all after it. -/
  | trailing
  /-- `**` between separators: one separator, or two with anything between them. -/
  | inner
  | oneOf (negated : Bool) (ranges : List (Char × Char))
  | alternates (branches : List (List Token))

/-! ### Reading -/

/-- The state of reading a glob.  The branches that are open, the innermost first, each in
reverse; how many of them were open outside each brace; and the last character read. -/
structure Reading where
  rest : List Char
  last : Option Char := none
  branches : List (List Token) := [[]]
  depths : List Nat := []

namespace Reading

def bump (s : Reading) : Reading :=
  match s.rest with
  | [] => { s with last := none }
  | c :: rest => { s with rest, last := some c }

def push (s : Reading) (t : Token) : Reading :=
  match s.branches with
  | b :: bs => { s with branches := (t :: b) :: bs }
  | [] => s

/-- Two stars that stand for any bytes. -/
def pushStars (s : Reading) : Reading := (s.push .anyBytes).push .anyBytes

/-- The class after its opening bracket and a possible negation: its ranges, in reverse. -/
def classRanges : Nat → List Char → Bool → Bool → List (Char × Char) →
    Option (List (Char × Char) × Bool × List Char)
  | 0, _, _, _, _ => none
  | fuel + 1, cs, first, inRange, ranges =>
    match cs with
    | [] => none
    | ']' :: rest =>
      if first then classRanges fuel rest false inRange ((']', ']') :: ranges)
      else some (ranges, inRange, rest)
    | '-' :: rest =>
      if first then classRanges fuel rest false inRange (('-', '-') :: ranges)
      else if inRange then
        match ranges with
        | (a, _) :: more =>
          if '-' < a then none else classRanges fuel rest false false ((a, '-') :: more)
        | [] => none
      else classRanges fuel rest false true ranges
    | c :: rest =>
      if inRange then
        match ranges with
        | (a, _) :: more =>
          if c < a then none else classRanges fuel rest false false ((a, c) :: more)
        | [] => none
      else classRanges fuel rest false false ((c, c) :: ranges)

/-- A class, after its opening bracket. -/
def oneOf? (s : Reading) : Option Reading :=
  let (negated, cs) := match s.rest with
    | '!' :: rest => (true, rest)
    | '^' :: rest => (true, rest)
    | rest => (false, rest)
  match classRanges (cs.length + 1) cs true false [] with
  | none => none
  | some (ranges, inRange, rest) =>
    let ranges := if inRange then ('-', '-') :: ranges else ranges
    some ({ s with rest, last := some ']' }.push (.oneOf negated ranges.reverse))

/-- A star, after it was read; `before` is the character in front of it. -/
def star (s : Reading) (before : Option Char) : Reading :=
  match s.rest with
  | '*' :: _ =>
    let s := s.bump
    if s.branches.headD [] |>.isEmpty then
      match s.rest with
      | [] => (s.push .leading).bump
      | '/' :: _ => (s.push .leading).bump
      | _ => s.pushStars
    else if before != some '/' &&
        (s.branches.length ≤ 1 || (before != some ',' && before != some '\x7b')) then s.pushStars
    else
      let suffix : Option (Bool × Reading) := match s.rest with
        | [] => some (true, s.bump)
        | '/' :: _ => some (false, s.bump)
        | c :: _ =>
          if (c == ',' || c == '\x7d') && s.branches.length ≥ 2 then some (true, s) else none
      match suffix with
      | none => s.pushStars
      | some (isSuffix, s) =>
        match s.branches with
        | (t :: b) :: bs =>
          let s := { s with branches := b :: bs }
          match t with
          | .leading => s.push .leading
          | .trailing => s.push .trailing
          | _ => s.push (if isSuffix then .trailing else .inner)
        | _ => s
  | _ => s.push .anyBytes

/-- Closes the innermost brace. -/
def close? (s : Reading) : Option Reading :=
  match s.depths with
  | [] => none
  | depth :: depths =>
    let inside := s.branches.length - depth
    some ({ s with branches := s.branches.drop inside, depths }.push
      (.alternates ((s.branches.take inside).reverse.map List.reverse)))

/-- Reads all of a glob; `fuel` bounds the number of steps. -/
def run : Nat → Reading → Option Reading
  | 0, _ => none
  | fuel + 1, s =>
    match s.rest with
    | [] => some s
    | c :: _ =>
      let before := s.last
      let s := s.bump
      if c == '?' then run fuel (s.push .anyByte)
      else if c == '*' then run fuel (s.star before)
      else if c == '[' then s.oneOf?.bind (run fuel)
      else if c == '\x7b' then
        run fuel { s with branches := [] :: s.branches, depths := s.branches.length :: s.depths }
      else if c == '\x7d' then s.close?.bind (run fuel)
      else if c == ',' && !s.depths.isEmpty then run fuel { s with branches := [] :: s.branches }
      else if c == '\\' then
        match s.rest with
        | [] => none
        | d :: _ => run fuel (s.bump.push (.literal d))
      else run fuel (s.push (.literal c))

end Reading

/-- Reads a glob. -/
def parse? (text : String) : Option (List Token) :=
  let cs := text.toList
  match Reading.run (cs.length + 1) { rest := cs } with
  | some s =>
    match s.branches with
    | [b] => some b.reverse
    | _ => none
  | none => none

/-! ### Matching -/

/-- The bytes of a character. -/
def bytesOf (c : Char) : List UInt8 := (String.singleton c).toUTF8.toList

/-- The byte ranges of a range of characters: its two ends are spelled out byte by byte, and
the range goes from the last byte of one to the first of the other. -/
def byteRanges (r : Char × Char) : List (UInt8 × UInt8) :=
  let single := fun (b : UInt8) => (b, b)
  if r.1 = r.2 then (bytesOf r.1).map single
  else
    let first := bytesOf r.1
    let last := bytesOf r.2
    first.dropLast.map single ++ [(first.getLastD 0, last.headD 0)] ++ (last.drop 1).map single

/-- Whether the byte at a place is one that a predicate holds of. -/
def byteIs (text : Array UInt8) (i : Nat) (f : UInt8 → Bool) : Bool :=
  match text[i]? with
  | some b => f b
  | none => false

def isSlash (b : UInt8) : Bool := b == 47

/-- The places from `i` to the end of a text. -/
def onward (text : Array UInt8) (i : Nat) : List Nat :=
  (List.range (text.size + 1 - i)).map (· + i)

/-- The places reached from `i` by passing given bytes. -/
def pass (text : Array UInt8) (i : Nat) (bytes : List UInt8) : List Nat :=
  if bytes.length ≤ text.size - i ∧ (text.extract i (i + bytes.length)).toList = bytes then
    [i + bytes.length]
  else []

mutual

/-- Whether a token leaves no trace in a glob: braces around nothing. -/
def Token.isVoid : Token → Bool
  | .alternates branches => allVoidBranches branches
  | _ => false

def allVoid : List Token → Bool
  | [] => true
  | t :: rest => t.isVoid && allVoid rest

def allVoidBranches : List (List Token) → Bool
  | [] => true
  | b :: rest => allVoid b && allVoidBranches rest

end

mutual

/-- The places that a token leads to from a place. -/
def Token.step (text : Array UInt8) (t : Token) (i : Nat) : List Nat :=
  match t with
  | .literal c => pass text i (bytesOf c)
  | .anyByte => if i < text.size then [i + 1] else []
  | .anyBytes => onward text i
  | .leading =>
    i :: ((onward text (i + 1)).filter fun j => byteIs text (j - 1) isSlash)
  | .trailing => if byteIs text i isSlash then onward text (i + 1) else []
  | .inner =>
    if byteIs text i isSlash then
      (i + 1) :: ((onward text (i + 2)).filter fun j => byteIs text (j - 1) isSlash)
    else []
  | .oneOf negated ranges =>
    let inClass := fun b => (ranges.flatMap byteRanges).any fun r => r.1 ≤ b && b ≤ r.2
    if byteIs text i fun b => inClass b != negated then [i + 1] else []
  | .alternates branches =>
    if allVoidBranches branches then [i] else stepBranches text branches i

/-- The places that a list of tokens leads to from some places. -/
def stepAll (text : Array UInt8) (ts : List Token) (places : List Nat) : List Nat :=
  match ts with
  | [] => places
  | t :: rest => stepAll text rest (places.flatMap (t.step text)).eraseDups

/-- The places that one of several branches leads to; branches of nothing are left out. -/
def stepBranches (text : Array UInt8) (branches : List (List Token)) (i : Nat) : List Nat :=
  match branches with
  | [] => []
  | b :: rest =>
    (if allVoid b then [] else stepAll text b [i]) ++ stepBranches text rest i

end

/-- Whether a text matches a glob as a whole; `**` alone matches every text. -/
def matches? (ts : List Token) (text : String) : Bool :=
  let bytes := text.toUTF8.toList.toArray
  match ts with
  | [.leading] => true
  | ts => (stepAll bytes ts [0]).contains bytes.size

end Glob

end StyleEngine
