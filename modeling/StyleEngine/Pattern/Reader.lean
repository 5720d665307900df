import StyleEngine.Pattern.Class
import StyleEngine.Json.Reader

/-! # Reading patterns

The syntax of patterns: literals, classes, groups, alternation, repetition,
assertions and flags.  Flags are set for the rest of the group they stand in.
Look-around, references to groups, unknown escapes, flags and classes are
refused (`none`).
-/
namespace StyleEngine

namespace Pattern

/-- The flags in force at a place of a pattern. -/
structure Flags where
  ignoreCase : Bool := false
  multiLine : Bool := false
  dotAll : Bool := false
  lazyFirst : Bool := false
  unicode : Bool := true
  crlf : Bool := false
  verbose : Bool := false

/-- The state of reading a pattern. -/
structure Reading where
  rest : List Char
  flags : Flags := {}
  groups : Nat := 0
  names : List (String × Nat) := []

namespace Reading

/-- Past blanks and comments, if they are to be disregarded; `fuel` bounds their number. -/
def skipBlanks (cs : List Char) : Nat → List Char
  | 0 => cs
  | fuel + 1 =>
    match cs with
    | '#' :: rest => skipBlanks (rest.dropWhile (· != '\n')) fuel
    | c :: rest => if isBlank c then skipBlanks rest fuel else cs
    | [] => []

def tidy (s : Reading) (cs : List Char) : List Char :=
  if s.flags.verbose then skipBlanks cs (cs.length + 1) else cs

/-- Past `n` characters and the blanks after them. -/
def advance (s : Reading) (cs : List Char) : Reading := { s with rest := s.tidy cs }

end Reading

/-! ### Escapes -/

/-- The characters with a meaning of their own. -/
def isMeta (c : Char) : Bool :=
  ['\\', '.', '+', '*', '?', '(', ')', '|', '[', ']', '{', '}', '^', '$', '#', '&', '-',
    '~'].contains c

/-- Whether a backslash in front of a character only takes its meaning away. -/
def isEscapable (c : Char) : Bool :=
  isMeta c || (c.toNat < 0x80 && !c.isAlphanum && c != '<' && c != '>')

/-- What an escape stands for. -/
inductive Atom where
  /-- A character; `byte` if it was written with two hexadecimal digits. -/
  | char (c : Char) (byte : Bool)
  | set (s : CharSet)
  | look (a : Assertion)

/-- The character with a code point. -/
def scalar? (n : Nat) : Option Char :=
  if n.isValidChar then some (Char.ofNat n) else none

/-- `n` hexadecimal digits, between which blanks may be disregarded. -/
def hexDigits? (s : Reading) : Nat → Nat → List Char → Option (Nat × List Char)
  | 0, acc, cs => some (acc, cs)
  | _ + 1, _, [] => none
  | n + 1, acc, c :: cs =>
    match Json.hexDigit? c with
    | some d => hexDigits? s n (acc * 16 + d) (if n = 0 then cs else s.tidy cs)
    | none => none

/-- Hexadecimal digits up to a closing brace. -/
def hexBraced? (s : Reading) : Nat → Nat → Bool → List Char → Option (Nat × List Char)
  | 0, _, _, _ => none
  | fuel + 1, acc, some?, cs =>
    match cs with
    | '}' :: rest => if some? then some (acc, rest) else none
    | c :: rest =>
      match Json.hexDigit? c with
      | some d =>
        if acc > 0x10FFFF then none else hexBraced? s fuel (acc * 16 + d) true (s.tidy rest)
      | none => none
    | [] => none

/-- A character by its code point, after `x`, `u` or `U`. -/
def hexEscape? (s : Reading) (digits : Nat) (cs : List Char) : Option (Atom × List Char) :=
  match s.tidy cs with
  | '{' :: rest =>
    match hexBraced? s (rest.length + 1) 0 false (s.tidy rest) with
    | some (n, rest) => (scalar? n).map fun c => (.char c false, rest)
    | none => none
  | cs =>
    match hexDigits? s digits 0 cs with
    | some (n, rest) => (scalar? n).map fun c => (.char c (digits == 2), rest)
    | none => none

/-- A set as the flags want it: closed under case folding, then turned round. -/
def foldAndNegate (f : Flags) (negated : Bool) (s : CharSet) : CharSet :=
  let s := if f.ignoreCase then (if f.unicode then closeFold s else closeFoldAscii s) else s
  if negated then s.compl else s

/-- A set that was read without Unicode must be one of ASCII. -/
def admitted? (f : Flags) (s : CharSet) : Option CharSet :=
  if f.unicode then some s
  else if (s.diff ascii).isEmpty then some s
  else none

/-- The name of a class up to a closing brace, blanks disregarded if they are to be. -/
def braced? (s : Reading) : Nat → List Char → List Char → Option (List Char × List Char)
  | 0, _, _ => none
  | fuel + 1, acc, cs =>
    match cs with
    | '}' :: rest => some (acc.reverse, rest)
    | c :: rest => braced? s fuel (c :: acc) (s.tidy rest)
    | [] => none

/-- Cuts a text at the first occurrence of a character. -/
def cutAt? (c : Char) (cs : List Char) : Option (List Char × List Char) :=
  match cs.dropWhile (· != c) with
  | _ :: rest => some (cs.takeWhile (· != c), rest)
  | [] => none

/-- The class that the text between the braces of `\p` stands for, and whether it is negated
by an inequality. -/
def propertyClass? (name : List Char) : Option (CharSet × Bool) :=
  match cutAt? '!' name with
  | some (p, '=' :: v) => (valued? p v).map (·, true)
  | _ =>
    match cutAt? ':' name with
    | some (p, v) => (valued? p v).map (·, false)
    | none =>
      match cutAt? '=' name with
      | some (p, v) => (valued? p v).map (·, false)
      | none => (named? name).map (·, false)

/-- A Unicode class, after `p` or `P`. -/
def unicodeClass? (s : Reading) (negated : Bool) (cs : List Char) : Option (Atom × List Char) :=
  let found : Option ((CharSet × Bool) × List Char) :=
    match s.tidy cs with
    | '{' :: rest =>
      match braced? s (rest.length + 1) [] (s.tidy rest) with
      | some (name, rest) => (propertyClass? name).map (·, rest)
      | none => none
    | '\\' :: _ => none
    | c :: rest => (category? (normalizeName [c])).map fun set => ((set, false), rest)
    | [] => none
  match found with
  | none => none
  | some ((set, flipped), rest) =>
    if s.flags.unicode then
      some (.set (foldAndNegate s.flags (negated != flipped) set), rest)
    else none

/-- The classes `\d`, `\s` and `\w`. -/
def perlClass (f : Flags) (c : Char) : CharSet :=
  match c, f.unicode with
  | 'd', true => CharSet.decimalNumber
  | 'd', false => asciiDigit
  | 's', true => CharSet.whiteSpace
  | 's', false => asciiSpace
  | _, true => CharSet.word
  | _, false => asciiWord

/-- The letters of a special word boundary. -/
def isBoundaryLetter (c : Char) : Bool := c.isAlpha || c == '-'

/-- The contents of `\b{...}`. -/
def boundaryName (s : Reading) : Nat → List Char → List Char → List Char × List Char
  | 0, acc, cs => (acc.reverse, cs)
  | fuel + 1, acc, cs =>
    match cs with
    | c :: rest =>
      if isBoundaryLetter c then boundaryName s fuel (c :: acc) (s.tidy rest) else (acc.reverse, cs)
    | [] => (acc.reverse, cs)

/-- The word boundary after `\b`: with a name in braces one of its halves or sides. -/
def boundary? (s : Reading) (cs : List Char) : Option (Assertion × List Char) :=
  let ascii := !s.flags.unicode
  match cs with
  | '{' :: rest =>
    match s.tidy rest with
    | [] => none
    | c :: rest' =>
      if isBoundaryLetter c then
        match boundaryName s (rest'.length + 1) [] (c :: rest') with
        | (name, '}' :: rest) =>
          match String.ofList name with
          | "start" => some (.wordStart ascii, rest)
          | "end" => some (.wordEnd ascii, rest)
          | "start-half" => some (.wordStartHalf ascii, rest)
          | "end-half" => some (.wordEndHalf ascii, rest)
          | _ => none
        | _ => none
      else some (.boundary ascii, cs)
  | cs => some (.boundary ascii, cs)

/-- An escape, after its backslash. -/
def escape? (s : Reading) : List Char → Option (Atom × List Char)
  | [] => none
  | c :: rest =>
    let ascii := !s.flags.unicode
    if c.isDigit then none
    else if c == 'x' then hexEscape? s 2 rest
    else if c == 'u' then hexEscape? s 4 rest
    else if c == 'U' then hexEscape? s 8 rest
    else if c == 'p' then unicodeClass? s false rest
    else if c == 'P' then unicodeClass? s true rest
    else if ['d', 's', 'w'].contains c then some (.set (perlClass s.flags c), rest)
    else if ['D', 'S', 'W'].contains c then
      (admitted? s.flags (perlClass s.flags c.toLower).compl).map fun set => (.set set, rest)
    else if isEscapable c then some (.char c false, rest)
    else match c with
      | 'a' => some (.char '\x07' false, rest)
      | 'f' => some (.char '\x0c' false, rest)
      | 't' => some (.char '\t' false, rest)
      | 'n' => some (.char '\n' false, rest)
      | 'r' => some (.char '\r' false, rest)
      | 'v' => some (.char '\x0b' false, rest)
      | 'A' => some (.look .startText, rest)
      | 'z' => some (.look .endText, rest)
      | 'b' => (boundary? s rest).map fun r => (.look r.1, r.2)
      | 'B' => some (.look (.noBoundary ascii), rest)
      | '<' => some (.look (.wordStart ascii), rest)
      | '>' => some (.look (.wordEnd ascii), rest)
      | _ => none

/-! ### Classes in brackets -/

/-- How two classes are combined. -/
inductive SetOp where
  | inter
  | diff
  | symmDiff

def SetOp.apply : SetOp → CharSet → CharSet → CharSet
  | .inter => CharSet.inter
  | .diff => CharSet.diff
  | .symmDiff => CharSet.symmDiff

/-- The class with a POSIX name in brackets and colons, from its opening bracket on. -/
def posixItem? (f : Flags) : List Char → Option (CharSet × List Char)
  | '[' :: ':' :: rest =>
    let (negated, rest) := match rest with
      | '^' :: rest => (true, rest)
      | rest => (false, rest)
    match rest.dropWhile (· != ':') with
    | ':' :: ']' :: after =>
      (posix? (String.ofList (rest.takeWhile (· != ':')))).map fun set =>
        (foldAndNegate f negated set, after)
    | _ => none
  | _ => none

/-- One end of a range, or a class by an escape. -/
def classItem? (s : Reading) : List Char → Option (Atom × List Char)
  | '\\' :: rest => escape? s rest
  | c :: rest => some (.char c false, rest)
  | [] => none

/-- The character of a range's end, which without Unicode must be one of ASCII. -/
def rangeEnd? (f : Flags) : Atom → Option Char
  | .char c byte => if f.unicode || c.toNat < 0x80 then some c else if byte then none else none
  | _ => none

/-- An item of a class: a character, a range or a class by an escape. -/
def classRange? (s : Reading) (cs : List Char) : Option (CharSet × List Char) :=
  match classItem? s cs with
  | none => none
  | some (first, rest) =>
    let rest := s.tidy rest
    let alone : Option (CharSet × List Char) :=
      match first with
      | .set set => some (set, rest)
      | .char _ _ => (rangeEnd? s.flags first).map fun c => (CharSet.singleton c, rest)
      | .look _ => none
    match rest with
    | [] => none
    | '-' :: after =>
      match s.tidy after with
      | ']' :: _ => alone
      | '-' :: _ => alone
      | [] => none
      | after =>
        match classItem? s after with
        | none => none
        | some (last, rest) =>
          match rangeEnd? s.flags first, rangeEnd? s.flags last with
          | some a, some b => if a ≤ b then some (CharSet.ofRange a b, rest) else none
          | _, _ => none
    | _ => alone

/-- Leading hyphens of a class, which stand for themselves. -/
def leadingHyphens (s : Reading) : Nat → CharSet → List Char → CharSet × List Char
  | 0, set, cs => (set, cs)
  | fuel + 1, set, cs =>
    match cs with
    | '-' :: rest => leadingHyphens s fuel (set.union (CharSet.singleton '-')) (s.tidy rest)
    | cs => (set, cs)

/-- Closes the side of an operation that has just been read. -/
def combine (f : Flags) (pending : Option (SetOp × CharSet)) (set : CharSet) : CharSet :=
  match pending with
  | none => set
  | some (op, left) => op.apply (foldAndNegate f false left) (foldAndNegate f false set)

mutual

/-- A class, after its opening bracket. -/
def bracket? : Nat → Reading → List Char → Option (CharSet × List Char)
  | 0, _, _ => none
  | fuel + 1, s, cs =>
    let cs := s.tidy cs
    let (negated, cs) := match cs with
      | '^' :: rest => (true, s.tidy rest)
      | cs => (false, cs)
    let (set, cs) := leadingHyphens s (cs.length + 1) CharSet.empty cs
    let (set, cs) := match set.isEmpty, cs with
      | true, ']' :: rest => (CharSet.singleton ']', s.tidy rest)
      | _, cs => (set, cs)
    match bracketItems? fuel s none set cs with
    | none => none
    | some (set, rest) =>
      (admitted? s.flags (foldAndNegate s.flags negated set)).map (·, rest)

/-- The items of a class up to and with its closing bracket. -/
def bracketItems? : Nat → Reading → Option (SetOp × CharSet) → CharSet → List Char →
    Option (CharSet × List Char)
  | 0, _, _, _, _ => none
  | fuel + 1, s, pending, set, cs =>
    match s.tidy cs with
    | [] => none
    | ']' :: rest => some (combine s.flags pending set, rest)
    | '[' :: rest =>
      match posixItem? s.flags ('[' :: rest) with
      | some (item, rest) => bracketItems? fuel s pending (set.union item) rest
      | none =>
        match bracket? fuel s rest with
        | none => none
        | some (item, rest) => bracketItems? fuel s pending (set.union item) rest
    | '&' :: '&' :: rest =>
      bracketItems? fuel s (some (.inter, combine s.flags pending set)) CharSet.empty rest
    | '-' :: '-' :: rest =>
      bracketItems? fuel s (some (.diff, combine s.flags pending set)) CharSet.empty rest
    | '~' :: '~' :: rest =>
      bracketItems? fuel s (some (.symmDiff, combine s.flags pending set)) CharSet.empty rest
    | cs =>
      match classRange? s cs with
      | none => none
      | some (item, rest) => bracketItems? fuel s pending (set.union item) rest

end

/-! ### Repetition -/

/-- Decimal digits with blanks around them. -/
def decimal? (s : Reading) (cs : List Char) : Option (Nat × List Char) :=
  let cs := cs.dropWhile isBlank
  let rec digits : Nat → List Char → List Char → List Char × List Char
    | 0, acc, cs => (acc.reverse, cs)
    | fuel + 1, acc, cs =>
      match cs with
      | c :: rest => if c.isDigit then digits fuel (c :: acc) (s.tidy rest) else (acc.reverse, cs)
      | [] => (acc.reverse, cs)
  let (ds, rest) := digits (cs.length + 1) [] cs
  if ds.isEmpty then none
  else
    let n := Json.decimalValue ds
    if n < UInt32.size then some (n, s.tidy (rest.dropWhile isBlank)) else none

/-- The bounds of a counted repetition, after its opening brace. -/
def bounds? (s : Reading) (cs : List Char) : Option (Nat × Option Nat × List Char) :=
  match decimal? s (s.tidy cs) with
  | none => none
  | some (least, rest) =>
    match rest with
    | '}' :: rest => some (least, some least, rest)
    | ',' :: rest =>
      match s.tidy rest with
      | '}' :: rest => some (least, none, rest)
      | cs =>
        match decimal? s cs with
        | some (most, '}' :: rest) => if least ≤ most then some (least, some most, rest) else none
        | _ => none
    | _ => none

/-- A repetition; of an expression that matches only the empty text one round is enough. -/
def repeated (least : Nat) (most : Option Nat) (greedy : Bool) (e : Expr) : Expr :=
  if e.onlyEmpty then .rounds (Nat.min least 1) (some (Nat.min (most.getD 1) 1)) greedy e
  else .rounds least most greedy e

/-! ### Groups and flags -/

/-- Whether a character may stand in a group's name. -/
def isNameChar (first : Bool) (c : Char) : Bool :=
  c == '_' || CharSet.alphabetic.mem c ||
    (!first && (c == '.' || c == '[' || c == ']' || CharSet.number.mem c))

/-- The name of a group up to its closing angle bracket. -/
def groupName? (cs : List Char) : Option (String × List Char) :=
  match cs.dropWhile (· != '>') with
  | '>' :: rest =>
    match cs.takeWhile (· != '>') with
    | [] => none
    | c :: more =>
      if isNameChar true c && more.all (isNameChar false) then
        some (String.ofList (c :: more), rest)
      else none
  | _ => none

/-- Sets or clears one flag. -/
def setFlag? (f : Flags) (c : Char) (v : Bool) : Option Flags :=
  match c with
  | 'i' => some { f with ignoreCase := v }
  | 'm' => some { f with multiLine := v }
  | 's' => some { f with dotAll := v }
  | 'U' => some { f with lazyFirst := v }
  | 'u' => some { f with unicode := v }
  | 'R' => some { f with crlf := v }
  | 'x' => some { f with verbose := v }
  | _ => none

/-- Flags up to a colon or a closing parenthesis; the result has the flags and the text from
the closing character on.  No flag may be given twice. -/
def flags? : Flags → Bool → List Char → List Char → Option (Flags × List Char)
  | _, _, _, [] => none
  | f, negated, seen, c :: rest =>
    if c == ':' || c == ')' then
      if seen.head? == some '-' then none else some (f, c :: rest)
    else if c == '-' then
      if negated then none else flags? f true ('-' :: seen) rest
    else if seen.contains c then none
    else match setFlag? f c (!negated) with
      | none => none
      | some f => flags? f negated (c :: seen) rest

/-- A literal character under the flags. -/
def literal? (f : Flags) (c : Char) (byte : Bool) : Option Expr :=
  if byte && !f.unicode && c.toNat > 0x7F then none
  else some (.chars (foldAndNegate f false (CharSet.singleton c)))

/-- What the dot matches under the flags. -/
def dot? (f : Flags) : Option Expr :=
  if !f.unicode then none
  else if f.dotAll then some (.chars CharSet.full)
  else if f.crlf then some (.chars (CharSet.ofRanges [(10, 10), (13, 13)]).compl)
  else some (.chars (CharSet.singleton '\n').compl)

def startAssertion (f : Flags) : Assertion :=
  if f.multiLine then (if f.crlf then .startLineCrlf else .startLine) else .startText

def endAssertion (f : Flags) : Assertion :=
  if f.multiLine then (if f.crlf then .endLineCrlf else .endLine) else .endText

/-- An item of a sequence: an expression, or flags, which cannot be repeated. -/
inductive Item where
  | expr (e : Expr)
  | flags

def Item.toExpr : Item → Expr
  | .expr e => e
  | .flags => .empty

/-- The sequence of items that were read in reverse. -/
def sequenceOf (items : List Item) : Expr :=
  items.foldl (fun acc i => match acc, i.toExpr with
    | .empty, e => e
    | acc, .empty => acc
    | acc, e => .seq e acc) .empty

/-- Repeats the last item, after the repetition's operator. -/
def repeatLast? (s : Reading) (items : List Item) (least : Nat) (most : Option Nat)
    (rest : List Char) : Option (List Item × Reading) :=
  match items with
  | .expr e :: items =>
    let (isLazy, rest) := match rest with
      | '?' :: rest => (true, rest)
      | rest => (false, rest)
    some (.expr (repeated least most (isLazy == s.flags.lazyFirst) e) :: items, { s with rest })
  | _ => none

mutual

/-- Alternatives up to the end of the pattern or of the group, whose parenthesis stays. -/
def alternatives? (inGroup : Bool) : Nat → Reading → Option (Expr × Reading)
  | 0, _ => none
  | fuel + 1, s =>
    match sequence? inGroup fuel s [] with
    | none => none
    | some (e, s) =>
      match s.rest with
      | '|' :: rest =>
        (alternatives? inGroup fuel { s with rest }).map fun r => (.alt e r.1, r.2)
      | _ => some (e, s)

/-- A sequence of items up to a bar or the end of its group. -/
def sequence? (inGroup : Bool) : Nat → Reading → List Item → Option (Expr × Reading)
  | 0, _, _ => none
  | fuel + 1, s, items =>
    let s := s.advance s.rest
    match s.rest with
    | [] => some (sequenceOf items, s)
    | '|' :: _ => some (sequenceOf items, s)
    | ')' :: _ => if inGroup then some (sequenceOf items, s) else none
    | '(' :: rest =>
      match group? fuel (s.advance rest) with
      | none => none
      | some (item, s) => sequence? inGroup fuel s (item :: items)
    | '[' :: rest =>
      match bracket? (rest.length + 1) s rest with
      | none => none
      | some (set, rest) => sequence? inGroup fuel { s with rest } (.expr (.chars set) :: items)
    | '?' :: rest =>
      match repeatLast? s items 0 (some 1) rest with
      | none => none
      | some (items, s) => sequence? inGroup fuel s items
    | '*' :: rest =>
      match repeatLast? s items 0 none rest with
      | none => none
      | some (items, s) => sequence? inGroup fuel s items
    | '+' :: rest =>
      match repeatLast? s items 1 none rest with
      | none => none
      | some (items, s) => sequence? inGroup fuel s items
    | '{' :: rest =>
      match bounds? s rest with
      | none => none
      | some (least, most, rest) =>
        match repeatLast? s items least most (s.tidy rest) with
        | none => none
        | some (items, s) => sequence? inGroup fuel s items
    | '\\' :: rest =>
      match escape? s rest with
      | none => none
      | some (.char c byte, rest) =>
        match literal? s.flags c byte with
        | none => none
        | some e => sequence? inGroup fuel { s with rest } (.expr e :: items)
      | some (.set set, rest) =>
        sequence? inGroup fuel { s with rest } (.expr (.chars set) :: items)
      | some (.look a, rest) => sequence? inGroup fuel { s with rest } (.expr (.look a) :: items)
    | '.' :: rest =>
      match dot? s.flags with
      | none => none
      | some e => sequence? inGroup fuel { s with rest } (.expr e :: items)
    | '^' :: rest =>
      sequence? inGroup fuel { s with rest } (.expr (.look (startAssertion s.flags)) :: items)
    | '$' :: rest =>
      sequence? inGroup fuel { s with rest } (.expr (.look (endAssertion s.flags)) :: items)
    | c :: rest =>
      match literal? s.flags c false with
      | none => none
      | some e => sequence? inGroup fuel { s with rest } (.expr e :: items)

/-- A group after its opening parenthesis, or flags in parentheses. -/
def group? : Nat → Reading → Option (Item × Reading)
  | 0, _ => none
  | fuel + 1, s =>
    match s.rest with
    | '?' :: '=' :: _ => none
    | '?' :: '!' :: _ => none
    | '?' :: '<' :: '=' :: _ => none
    | '?' :: '<' :: '!' :: _ => none
    | '?' :: 'P' :: '<' :: rest => namedGroup? fuel s rest
    | '?' :: '<' :: rest => namedGroup? fuel s rest
    | '?' :: rest =>
      match flags? s.flags false [] rest with
      | none => none
      | some (f, ')' :: after) =>
        if rest.head? == some ')' then none else some (.flags, { s with rest := after, flags := f })
      | some (f, _ :: after) =>
        let inner := { s with rest := after, flags := f }
        match closeGroup? s.flags (alternatives? true fuel inner) with
        | none => none
        | some (e, s) => some (.expr e, s)
      | some (_, []) => none
    | rest =>
      let index := s.groups + 1
      match closeGroup? s.flags (alternatives? true fuel { s with rest, groups := index }) with
      | none => none
      | some (e, s) => some (.expr (.group index e), s)

/-- A group with a name, after the angle bracket in front of it. -/
def namedGroup? : Nat → Reading → List Char → Option (Item × Reading)
  | 0, _, _ => none
  | fuel + 1, s, rest =>
    match groupName? rest with
    | none => none
    | some (name, rest) =>
      if (s.names.lookup name).isSome then none
      else
        let index := s.groups + 1
        let inner := { s with rest, groups := index, names := s.names ++ [(name, index)] }
        match closeGroup? s.flags (alternatives? true fuel inner) with
        | none => none
        | some (e, s) => some (.expr (.group index e), s)

/-- Passes the closing parenthesis of a group and restores the flags from before it. -/
def closeGroup? (flags : Flags) (inner : Option (Expr × Reading)) : Option (Expr × Reading) :=
  match inner with
  | some (e, s) =>
    match s.rest with
    | ')' :: rest => some (e, { s with rest, flags })
    | _ => none
  | none => none

end

/-- Reads a pattern: its expression, the number of its groups and their names. -/
def parse? (text : String) : Option (Expr × Nat × List (String × Nat)) :=
  let cs := text.toList
  match alternatives? false (4 * cs.length + 4) { rest := cs } with
  | none => none
  | some (e, s) => if s.rest.isEmpty then some (e, s.groups, s.names) else none

end Pattern

end StyleEngine
