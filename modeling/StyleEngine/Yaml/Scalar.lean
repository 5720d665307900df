import StyleEngine.Yaml.Cursor
import StyleEngine.Json.Reader

/-! # YAML scalars

The three ways to write a scalar over several lines: plain, quoted and as an
indented block.  In all of them a single line break between two lines of text
is folded to a space (not so in a literal block), and further breaks are kept.
-/
namespace StyleEngine

namespace Yaml

/-- How a scalar is written. -/
inductive Style where
  | plain
  | single
  | double
  | literal
  | folded
deriving DecidableEq

/-- Blanks and line breaks between two runs of text: the blanks of the line, and once a line
has ended, the text of the first break and of those after it. -/
structure Gap where
  blanks : List Char := []
  broken : Bool := false
  first : List Char := []
  more : List Char := []

/-- The text that a gap stands for when lines are folded. -/
def Gap.fold (g : Gap) : List Char :=
  if g.broken then
    if g.first == ['\n'] then (if g.more.isEmpty then [' '] else g.more)
    else g.first ++ g.more
  else g.blanks

/-- Reads blanks and line breaks.  A tab left of `indent` on a later line is refused. -/
def readGap (indent : Option Int) : Nat → Cursor → Gap → Option (Cursor × Gap)
  | 0, p, g => some (p, g)
  | fuel + 1, p, g =>
    match p.rest with
    | [] => some (p, g)
    | c :: _ =>
      if isGap c then
        if g.broken && c == '\t' &&
            (match indent with | some n => decide ((p.column : Int) < n) | none => false) then none
        else readGap indent fuel p.skip
          (if g.broken then g else { g with blanks := g.blanks ++ [c] })
      else if isBreak c then
        readGap indent fuel p.skipLine
          (if g.broken then { g with more := g.more ++ p.breakText }
          else { g with blanks := [], broken := true, first := p.breakText })
      else some (p, g)

/-! ### Plain scalars -/

/-- Whether a plain scalar ends in front of these characters; `none` where a colon is
misplaced inside a flow collection. -/
def plainEnds (inFlow : Bool) : List Char → Option Bool
  | [] => some true
  | c :: rest =>
    if inFlow && c == ':' &&
        (match rest with | d :: _ => [',', '?', '[', ']', '{', '}'].contains d | [] => false) then
      none
    else some ((c == ':' && atGap rest) || (inFlow && [',', '[', ']', '{', '}'].contains c))

/-- Reads a run of text of a plain scalar up to a blank, a break or an indicator. -/
def plainRun (inFlow : Bool) : Nat → Cursor → List Char → Option (Cursor × List Char)
  | 0, p, acc => some (p, acc)
  | fuel + 1, p, acc =>
    match p.rest with
    | [] => some (p, acc)
    | c :: _ =>
      if isGap c || isBreak c then some (p, acc)
      else match plainEnds inFlow p.rest with
        | none => none
        | some true => some (p, acc)
        | some false => plainRun inFlow fuel p.skip (c :: acc)

/-- Reads a plain scalar: its text, in reverse, and whether it ended after a line break. -/
def plainFrom (inFlow : Bool) (indent : Int) :
    Nat → Cursor → List Char → Gap → Option (Cursor × List Char × Bool)
  | 0, p, acc, g => some (p, acc, g.broken)
  | fuel + 1, p, acc, g =>
    if p.atDocumentMarker then some (p, acc, g.broken)
    else if p.rest.head? == some '#' then some (p, acc, g.broken)
    else match plainRun inFlow p.rest.length p [] with
      | none => none
      | some (q, run) =>
        let moved := q.index != p.index
        let acc := if moved then run ++ (g.fold.reverse ++ acc) else acc
        let g := if moved then {} else g
        match q.rest with
        | [] => some (q, acc, g.broken)
        | c :: _ =>
          if isGap c || isBreak c then
            match readGap (some indent) q.rest.length q g with
            | none => none
            | some (r, g) =>
              if !inFlow && decide ((r.column : Int) < indent) then some (r, acc, g.broken)
              else plainFrom inFlow indent fuel r acc g
          else some (q, acc, g.broken)

/-- A plain scalar inside an indentation. -/
def plain (inFlow : Bool) (indent : Int) (p : Cursor) : Option (Cursor × String × Bool) :=
  (plainFrom inFlow (indent + 1) (p.rest.length + 1) p [] {}).map fun r =>
    (r.1, String.ofList r.2.1.reverse, r.2.2)

/-! ### Quoted scalars -/

/-- The number that `n` hexadecimal digits denote. -/
def hexNumber? : Nat → Nat → List Char → Option Nat
  | 0, acc, _ => some acc
  | _ + 1, _, [] => none
  | n + 1, acc, c :: rest =>
    match Json.hexDigit? c with
    | some d => hexNumber? n (acc * 16 + d) rest
    | none => none

/-- The character of a numeric escape with `n` digits. -/
def numericEscape? (n : Nat) (cs : List Char) : Option Char :=
  match hexNumber? n 0 cs with
  | none => none
  | some v => if (0xD800 ≤ v ∧ v ≤ 0xDFFF) ∨ 0x10FFFF < v then none else some (Char.ofNat v)

/-- The character of an escape after its backslash, and how many characters it takes. -/
def escape? : List Char → Option (Char × Nat)
  | '0' :: _ => some ('\x00', 1)
  | 'a' :: _ => some ('\x07', 1)
  | 'b' :: _ => some ('\x08', 1)
  | 't' :: _ => some ('\t', 1)
  | '\t' :: _ => some ('\t', 1)
  | 'n' :: _ => some ('\n', 1)
  | 'v' :: _ => some ('\x0b', 1)
  | 'f' :: _ => some ('\x0c', 1)
  | 'r' :: _ => some ('\r', 1)
  | 'e' :: _ => some ('\x1b', 1)
  | ' ' :: _ => some (' ', 1)
  | '"' :: _ => some ('"', 1)
  | '/' :: _ => some ('/', 1)
  | '\\' :: _ => some ('\\', 1)
  | 'N' :: _ => some ('\x85', 1)
  | '_' :: _ => some ('\xa0', 1)
  | 'L' :: _ => some ('\u2028', 1)
  | 'P' :: _ => some ('\u2029', 1)
  | 'x' :: rest => (numericEscape? 2 rest).map (·, 3)
  | 'u' :: rest => (numericEscape? 4 rest).map (·, 5)
  | 'U' :: rest => (numericEscape? 8 rest).map (·, 9)
  | _ => none

/-- How a run of text inside quotes ended. -/
inductive RunEnd where
  | closed
  | gap
  | escapedBreak

/-- Reads a run of text inside quotes, in reverse. -/
def quotedRun (single : Bool) : Nat → Cursor → List Char → Option (Cursor × List Char × RunEnd)
  | 0, _, _ => none
  | fuel + 1, p, acc =>
    match p.rest with
    | [] => some (p, acc, .gap)
    | c :: rest =>
      if isGap c || isBreak c then some (p, acc, .gap)
      else if single && c == '\'' then
        match rest with
        | '\'' :: _ => quotedRun single fuel (p.skipN 2) ('\'' :: acc)
        | _ => some (p, acc, .closed)
      else if !single && c == '"' then some (p, acc, .closed)
      else if !single && c == '\\' then
        if !rest.isEmpty && atBreak rest then some (p.skip.skipLine, acc, .escapedBreak)
        else match escape? rest with
          | none => none
          | some (d, n) => quotedRun single fuel (p.skipN (n + 1)) (d :: acc)
      else quotedRun single fuel p.skip (c :: acc)

/-- Reads a quoted scalar after its opening quote, in reverse, up to its closing one. -/
def quotedFrom (single : Bool) : Nat → Cursor → List Char → Option (Cursor × List Char)
  | 0, _, _ => none
  | fuel + 1, p, acc =>
    if p.atDocumentMarker || p.rest.isEmpty then none
    else match quotedRun single (p.rest.length + 1) p acc with
      | none => none
      | some (q, acc, .closed) => some (q.skip, acc)
      | some (q, acc, .gap) =>
        match readGap none q.rest.length q {} with
        | none => none
        | some (r, g) => quotedFrom single fuel r (g.fold.reverse ++ acc)
      | some (q, acc, .escapedBreak) =>
        match readGap none q.rest.length q { broken := true } with
        | none => none
        | some (r, g) => quotedFrom single fuel r (g.more.reverse ++ acc)

/-- A quoted scalar, from its opening quote on. -/
def quoted (single : Bool) (p : Cursor) : Option (Cursor × String) :=
  (quotedFrom single (p.rest.length + 1) p.skip []).map fun r =>
    (r.1, String.ofList r.2.reverse)

/-! ### Block scalars -/

/-- What becomes of the line breaks at the end of a block. -/
inductive Chomping where
  | strip
  | clip
  | keep
deriving DecidableEq

/-- Reads indentation and empty lines in front of a block's next line; the indentation is
measured while it is not known.  The result has the greatest column met. -/
def blockBreaks (indent : Nat) :
    Nat → Cursor → Nat → List Char → Option (Cursor × Nat × List Char)
  | 0, p, widest, acc => some (p, widest, acc)
  | fuel + 1, p, widest, acc =>
    let spaces := (p.rest.takeWhile (· == ' ')).length
    let p := p.skipN (if indent == 0 then spaces else min spaces (indent - p.column))
    let widest := max widest p.column
    match p.rest with
    | [] => some (p, widest, acc)
    | c :: _ =>
      if (indent == 0 || p.column < indent) && c == '\t' then none
      else if isBreak c then blockBreaks indent fuel p.skipLine widest (acc ++ p.breakText)
      else some (p, widest, acc)

/-- Reads the lines of a block.  `leading` is the break after the last line, `trailing` the
breaks after that one, `blank` whether the last line started with a blank. -/
def blockLines (isLiteral : Bool) (indent : Nat) :
    Nat → Cursor → List Char → List Char → List Char → Bool →
      Option (Cursor × List Char × List Char × List Char)
  | 0, p, acc, leading, trailing, _ => some (p, acc, leading, trailing)
  | fuel + 1, p, acc, leading, trailing, blank =>
    match p.rest with
    | [] => some (p, acc, leading, trailing)
    | c :: _ =>
      if p.column != indent then some (p, acc, leading, trailing)
      else
        let startsBlank := isGap c
        let joint :=
          if !isLiteral && leading == ['\n'] && !blank && !startsBlank then
            if trailing.isEmpty then [' '] else []
          else leading
        let line := p.rest.takeWhile fun c => !isBreak c
        let q := p.skipN line.length
        let acc := acc ++ joint ++ trailing ++ line
        match blockBreaks indent (q.rest.length + 1) q.skipLine 0 [] with
        | none => none
        | some (r, _, trailing) =>
          blockLines isLiteral indent fuel r acc q.breakText trailing startsBlank

/-- The header of a block after its indicator: chomping and a given indentation. -/
def blockHeader (p : Cursor) : Option (Cursor × Chomping × Nat) :=
  let chomping? : Char → Option Chomping := fun c =>
    if c == '+' then some .keep else if c == '-' then some .strip else none
  let digit? : List Char → Option (Option Nat) := fun cs =>
    match cs with
    | c :: _ =>
      if c == '0' then none
      else if c.isDigit then some (some (c.toNat - 48))
      else some none
    | [] => some none
  match p.rest with
  | [] => some (p, .clip, 0)
  | c :: _ =>
    match chomping? c with
    | some chomping =>
      match digit? p.skip.rest with
      | none => none
      | some (some n) => some (p.skipN 2, chomping, n)
      | some none => some (p.skip, chomping, 0)
    | none =>
      match digit? p.rest with
      | none => none
      | some none => some (p, .clip, 0)
      | some (some n) =>
        match p.skip.rest.head?.bind chomping? with
        | some chomping => some (p.skipN 2, chomping, n)
        | none => some (p.skip, .clip, n)

/-- A block scalar, from its indicator on, inside an indentation. -/
def block (isLiteral : Bool) (outer : Int) (p : Cursor) : Option (Cursor × String) :=
  match blockHeader p.skip with
  | none => none
  | some (p, chomping, increment) =>
    let p := p.skipWhile isGap
    let p := if p.rest.head? == some '#' then p.skipWhile fun c => !isBreak c else p
    if !atBreak p.rest then none
    else
      let p := p.skipLine
      let given : Nat :=
        if increment == 0 then 0 else if outer ≥ 0 then outer.toNat + increment else increment
      match blockBreaks given (p.rest.length + 1) p 0 [] with
      | none => none
      | some (p, widest, trailing) =>
        let indent := if given == 0 then max (max widest (outer + 1).toNat) 1 else given
        match blockLines isLiteral indent (p.rest.length + 1) p [] [] trailing false with
        | none => none
        | some (p, text, leading, trailing) =>
          let tail := match chomping with
            | .strip => []
            | .clip => leading
            | .keep => leading ++ trailing
          some (p, String.ofList (text ++ tail))

end Yaml

end StyleEngine
