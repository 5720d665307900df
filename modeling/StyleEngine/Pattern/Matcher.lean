import StyleEngine.Pattern.Reader

/-! # Matching patterns

An expression is laid out as a program of numbered instructions, and a text is
matched by trying the program's branches in order of preference: of all matches
that start leftmost the one preferred by the alternatives and repetitions is
found.  A pair of an instruction and a place that has failed once is never tried
again, so the work is bounded by the number of such pairs.
-/
namespace StyleEngine

namespace Pattern

/-- An instruction of a matcher. -/
inductive Inst where
  | chars (set : CharSet) (next : Nat)
  | look (a : Assertion) (next : Nat)
  | save (slot : Nat) (next : Nat)
  | split (first second : Nat)
  | accept
  | fail

/-- A program together with the number of the instruction to start with. -/
abbrev Layout := Array Inst × Nat

/-- Adds an instruction in front. -/
def emit (code : Array Inst) (i : Inst) : Layout := (code.push i, code.size)

def choice (greedy : Bool) (body next : Nat) : Inst :=
  if greedy then .split body next else .split next body

/-- `n` copies of a part, one after the other. -/
def copies (part : Array Inst → Nat → Layout) : Nat → Array Inst → Nat → Layout
  | 0, code, next => (code, next)
  | n + 1, code, next =>
    let (code, start) := copies part n code next
    part code start

/-- Up to `n` copies of a part; after each one may go on to `exit`. -/
def optionalCopies (part : Array Inst → Nat → Layout) (greedy : Bool) (exit : Nat) :
    Nat → Array Inst → Layout
  | 0, code => (code, exit)
  | n + 1, code =>
    let (code, next) := optionalCopies part greedy exit n code
    let (code, body) := part code next
    emit code (choice greedy body exit)

/-- A part that may be repeated without end; the result starts with the first round. -/
def loop (part : Array Inst → Nat → Layout) (greedy : Bool) (code : Array Inst) (next : Nat) :
    Layout :=
  let again := code.size
  let (code, body) := part (code.push .fail) again
  (code.setIfInBounds again (choice greedy body next), body)

/-- Lays out an expression in front of the instruction `next`. -/
def layout : Expr → Array Inst → Nat → Layout
  | .empty, code, next => (code, next)
  | .chars set, code, next => emit code (.chars set next)
  | .look a, code, next => emit code (.look a next)
  | .group index e, code, next =>
    let (code, close) := emit code (.save (2 * index + 1) next)
    let (code, body) := layout e code close
    emit code (.save (2 * index) body)
  | .seq e f, code, next =>
    let (code, mid) := layout f code next
    layout e code mid
  | .alt e f, code, next =>
    let (code, second) := layout f code next
    let (code, first) := layout e code next
    emit code (.split first second)
  | .rounds least (some most) greedy e, code, next =>
    let (code, start) := optionalCopies (layout e) greedy next (most - least) code
    copies (layout e) least code start
  | .rounds 0 none greedy e, code, next =>
    if e.consumes then
      let again := code.size
      let (code, body) := layout e (code.push .fail) again
      (code.setIfInBounds again (choice greedy body next), again)
    else
      let (code, body) := loop (layout e) greedy code next
      emit code (choice greedy body next)
  | .rounds (least + 1) none greedy e, code, next =>
    let (code, start) := loop (layout e) greedy code next
    copies (layout e) least code start

/-! ### Assertions -/

/-- Whether the character at a place is one of words. -/
def wordAt (ascii : Bool) (text : Array Char) (i : Nat) : Bool :=
  match text[i]? with
  | some c => if ascii || c.toNat < 0x80 then asciiWord.mem c else CharSet.word.mem c
  | none => false

/-- Whether the character in front of a place is one of words. -/
def wordBefore (ascii : Bool) (text : Array Char) (i : Nat) : Bool :=
  match i with
  | 0 => false
  | i + 1 => wordAt ascii text i

/-- The character in front of a place. -/
def before? (text : Array Char) : Nat → Option Char
  | 0 => none
  | i + 1 => text[i]?

/-- Whether an assertion holds at a place. -/
def Assertion.holdsAt (a : Assertion) (text : Array Char) (i : Nat) : Bool :=
  match a with
  | .startText => i == 0
  | .endText => i == text.size
  | .startLine => i == 0 || before? text i == some '\n'
  | .endLine => i == text.size || text[i]? == some '\n'
  | .startLineCrlf =>
    i == 0 || before? text i == some '\n' ||
      (before? text i == some '\r' && text[i]? != some '\n')
  | .endLineCrlf =>
    i == text.size || text[i]? == some '\r' ||
      (text[i]? == some '\n' && before? text i != some '\r')
  | .boundary ascii => wordBefore ascii text i != wordAt ascii text i
  | .noBoundary ascii => wordBefore ascii text i == wordAt ascii text i
  | .wordStart ascii => !wordBefore ascii text i && wordAt ascii text i
  | .wordEnd ascii => wordBefore ascii text i && !wordAt ascii text i
  | .wordStartHalf ascii => !wordBefore ascii text i
  | .wordEndHalf ascii => !wordAt ascii text i

/-! ### Search -/

/-- The places that groups have been entered and left at, by slot. -/
abbrev Slots := Array (Option Nat)

/-- A branch still to be tried. -/
structure Branch where
  inst : Nat
  place : Nat
  slots : Slots

/-- Tries branches in order until one is accepted.  `tried` marks the pairs of instruction and
place that are settled. -/
def tryBranches (code : Array Inst) (text : Array Char) :
    Nat → List Branch → Array Bool → Option Slots × Array Bool
  | 0, _, tried => (none, tried)
  | _ + 1, [], tried => (none, tried)
  | fuel + 1, b :: rest, tried =>
    let mark := b.inst * (text.size + 1) + b.place
    if tried.getD mark true then tryBranches code text fuel rest tried
    else
      let tried := tried.setIfInBounds mark true
      match code[b.inst]? with
      | none => tryBranches code text fuel rest tried
      | some .fail => tryBranches code text fuel rest tried
      | some .accept => (some (b.slots.setIfInBounds 1 (some b.place)), tried)
      | some (.chars set next) =>
        match text[b.place]? with
        | some c =>
          if set.mem c then
            tryBranches code text fuel ({ b with inst := next, place := b.place + 1 } :: rest) tried
          else tryBranches code text fuel rest tried
        | none => tryBranches code text fuel rest tried
      | some (.look a next) =>
        if a.holdsAt text b.place then
          tryBranches code text fuel ({ b with inst := next } :: rest) tried
        else tryBranches code text fuel rest tried
      | some (.save slot next) =>
        tryBranches code text fuel
          ({ b with inst := next, slots := b.slots.setIfInBounds slot (some b.place) } :: rest)
          tried
      | some (.split first second) =>
        tryBranches code text fuel
          ({ b with inst := first } :: { b with inst := second } :: rest) tried

end Pattern

/-- A pattern that is ready to be matched. -/
structure Pattern where
  code : Array Pattern.Inst
  start : Nat
  groups : Nat
  names : List (String × Nat)

namespace Pattern

/-- The size that a matcher may have. -/
def maxCost : Nat := 10 * 1024 * 1024

/-- Makes a matcher of a pattern's text, if the text is a pattern and the matcher not too
large.  The properties and scripts that it may name are those of `named?` and `valued?`, the size
is an estimate, and groups may be nested without limit. -/
def compile? (text : String) : Option Pattern :=
  match parse? text with
  | none => none
  | some (e, groups, names) =>
    if e.cost ≤ maxCost then
      let (code, start) := layout e #[.accept] 0
      some { code, start, groups, names }
    else none

/-- What the groups of a match have matched, the whole match first, by places in the text. -/
abbrev Captures := List (Option (Nat × Nat))

/-- The captures that slots record. -/
def captures (p : Pattern) (slots : Slots) : Captures :=
  (List.range (p.groups + 1)).map fun i =>
    match slots.getD (2 * i) none, slots.getD (2 * i + 1) none with
    | some a, some b => some (a, b)
    | _, _ => none

/-- Looks for a match that starts at one of `count` places from `i` on. -/
def searchFrom (p : Pattern) (text : Array Char) :
    Nat → Nat → Array Bool → Option Captures
  | 0, _, _ => none
  | count + 1, i, tried =>
    let slots : Slots := (Array.replicate (2 * p.groups + 2) none).setIfInBounds 0 (some i)
    let fuel := 2 * p.code.size * (text.size + 1) + 2
    match tryBranches p.code text fuel [⟨p.start, i, slots⟩] tried with
    | (some slots, _) => some (p.captures slots)
    | (none, tried) => searchFrom p text count (i + 1) tried

/-- The leftmost match at a place or after it. -/
def find? (p : Pattern) (text : Array Char) (i : Nat) : Option Captures :=
  if i ≤ text.size then
    p.searchFrom text (text.size + 1 - i) i (Array.replicate (p.code.size * (text.size + 1)) false)
  else none

/-- The text of a group in a match. -/
def groupText (text : Array Char) (caps : Captures) (i : Nat) : Option (List Char) :=
  match caps[i]? with
  | some (some (a, b)) => some (text.extract a b).toList
  | _ => none

/-- The matches of a pattern from a place on, none overlapping the one before; an empty match
right behind another one is passed over.  `fuel` bounds their number. -/
def matchesFrom (p : Pattern) (text : Array Char) :
    Nat → Nat → Option Nat → List (Nat × Nat × Captures)
  | 0, _, _ => []
  | fuel + 1, i, last =>
    match p.find? text i with
    | none => []
    | some c =>
      match c.head? with
      | some (some (a, b)) =>
        if a = b ∧ some b = last then
          match p.find? text (i + 1) with
          | none => []
          | some c =>
            match c.head? with
            | some (some (a, b)) => (a, b, c) :: matchesFrom p text fuel b (some b)
            | _ => []
        else (a, b, c) :: matchesFrom p text fuel b (some b)
      | _ => []

/-- All matches of a pattern in a text. -/
def allMatches (p : Pattern) (text : Array Char) : List (Nat × Nat × Captures) :=
  p.matchesFrom text (text.size + 2) 0 none

end Pattern

end StyleEngine
