import Mathlib
import StyleEngine.Proofs.Pattern.Continuations
import StyleEngine.Proofs.Pattern.Layouts
import StyleEngine.Proofs.Text.Directives
import StyleEngine.Proofs.Text.Rendering

/-! # Directives as matches of a pattern

What directives look like can be said by a pattern (`Directive.pattern`).  A line is read
character by character (`Directive.read?`), with what a matcher would try and give up again
left out: blanks are passed all at once, a word that says what the directive is for is taken
if it stands there, and of the blanks in front of a reason one is given back only if there is
nothing else.  All the same a line is read as the directive that the pattern's first match on
it spells (`Directive.read?_eq_find?`), and the suppressions of a text are what the pattern
finds on its lines (`TextModel.suppressions_eq_matches`).
-/
namespace StyleEngine

namespace Directive

open Pattern

/-- The pattern of directives.  Its groups are what the directive is for, the name of the rule
and the reason. -/
def pattern : String :=
  r"stylecheck-disable(-next-line|-file)?\s+([A-Za-z0-9_.#*-]+)(?:\s*:\s*(.+?))?\s*(?:-->|\*/)?\s*$"

/-! ## The pattern's expression -/

/-- The set of the characters of names, as it is read. -/
def nameSet : CharSet :=
  ((((((((CharSet.empty.union (.ofRange 'A' 'Z')).union (.ofRange 'a' 'z')).union
    (.ofRange '0' '9')).union (.singleton '_')).union (.singleton '.')).union
      (.singleton '#')).union (.singleton '*')).union (.singleton '-'))

/-- The characters that stand within lines: all but the line feed. -/
def withinLine : CharSet := (CharSet.singleton '\n').compl

/-- Blanks, at least so many. -/
def blanksExpr (least : Nat) : Expr := .rounds least none true (.chars CharSet.whiteSpace)

/-- The end of a line, behind a closing mark if there is one. -/
def closingExpr : Expr :=
  .seq (blanksExpr 0)
    (.seq (optional (.alt (word ClosingMark.arrow.text) (word ClosingMark.star.text)))
      (.seq (blanksExpr 0) (.look .endText)))

/-- A reason behind its colon. -/
def reasonExpr : Expr :=
  .seq (blanksExpr 0)
    (.seq (.chars (.singleton ':'))
      (.seq (blanksExpr 0) (.group 3 (.rounds 1 none false (.chars withinLine)))))

/-- What follows the name of a rule. -/
def endingExpr : Expr := .seq (optional reasonExpr) closingExpr

/-- What follows the keyword and what the directive is for. -/
def nameExpr : Expr :=
  .seq (blanksExpr 1) (.seq (.group 2 (.rounds 1 none true (.chars nameSet))) endingExpr)

/-- What follows the keyword. -/
def afterExpr : Expr :=
  .seq (optional (.group 1 (.alt (word "-next-line".toList) (word "-file".toList)))) nameExpr

set_option maxRecDepth 4000 in
theorem parse?_pattern : parse? pattern = some (spelled keyword afterExpr, 3, []) := by cbv

/-! ## Sets of characters -/

theorem whiteSpace_eq : CharSet.whiteSpace = .ofRanges [(9, 13), (32, 32), (133, 133), (160, 160),
    (5760, 5760), (8192, 8202), (8232, 8233), (8239, 8239), (8287, 8287), (12288, 12288)] := by
  rfl

theorem mem_whiteSpace (c : Char) : CharSet.whiteSpace.mem c = isBlank c := by
  rw [Bool.eq_iff_iff, whiteSpace_eq, CharSet.mem_ofRanges_iff]
  simp only [List.mem_cons, List.not_mem_nil, or_false, exists_eq_or_imp, exists_eq_left,
    CharSet.Spans, isBlank, Bool.or_eq_true, Bool.and_eq_true, decide_eq_true_eq, beq_iff_eq]
  omega

theorem mem_nameSet (c : Char) : nameSet.mem c = isNameChar c := by
  have hsingle {s : CharSet} (hs : s.IsOrdered) (a : Char) :
      (s.union (.singleton a)).mem c = true ↔ s.mem c = true ∨ c = a := by
    rw [CharSet.mem_union_iff hs (CharSet.isOrdered_singleton a), CharSet.mem_singleton_iff]
  have hrange {s : CharSet} (hs : s.IsOrdered) (lo hi : Char) :
      (s.union (.ofRange lo hi)).mem c = true ↔
        s.mem c = true ∨ lo.toNat ≤ c.toNat ∧ c.toNat ≤ hi.toNat := by
    rw [CharSet.mem_union_iff hs (CharSet.isOrdered_ofRange lo hi), CharSet.mem_ofRange_iff]
  rw [Bool.eq_iff_iff, nameSet]
  rw [hsingle (CharSet.isOrdered_union _ _), hsingle (CharSet.isOrdered_union _ _),
    hsingle (CharSet.isOrdered_union _ _), hsingle (CharSet.isOrdered_union _ _),
    hsingle (CharSet.isOrdered_union _ _), hrange (CharSet.isOrdered_union _ _),
    hrange (CharSet.isOrdered_union _ _), hrange CharSet.isOrdered_empty, CharSet.mem_empty]
  delta isNameChar Char.isAlphanum Char.isAlpha Char.isUpper Char.isLower Char.isDigit
  simp only [Bool.or_eq_true, Bool.and_eq_true, decide_eq_true_eq, beq_iff_eq,
    UInt32.le_iff_toNat_le, ge_iff_le, Bool.false_eq_true, false_or]
  rfl

theorem mem_withinLine (c : Char) : withinLine.mem c = true ↔ c ≠ '\n' := by
  rw [withinLine, CharSet.mem_compl_iff (CharSet.isOrdered_singleton _),
    CharSet.mem_singleton_iff]

/-! ## How a line closes -/

section Line

variable {text : Array Char} {x : Cursor} {w rest : List Char} {α : Type}
  {go : Cursor → Option α}

theorem drop_of_dropWord? (h : dropWord? w (x.rest text) = some rest) :
    (x.rest text).drop w.length = rest := by
  rw [eq_append_of_dropWord? h, List.drop_left]

theorem place_le_of_dropWord? (hx : x.place ≤ text.size)
    (h : dropWord? w (x.rest text) = some rest) : x.place + w.length ≤ text.size := by
  have hlength := congrArg List.length (eq_append_of_dropWord? h)
  rw [Cursor.length_rest, List.length_append] at hlength
  omega

/-- The end of a text. -/
def toEnd (text : Array Char) (x : Cursor) : Cursor := { x with place := text.size }

@[simp] theorem toEnd_moved (text : Array Char) (n : Nat) (x : Cursor) :
    toEnd text (x.moved n) = toEnd text x := rfl

theorem runOf_whiteSpace (text : Array Char) (x : Cursor) :
    x.runOf text CharSet.whiteSpace = ((x.rest text).takeWhile isBlank).length := by
  rw [Cursor.runOf, funext mem_whiteSpace]

/-- Behind the blanks that a text goes on with it goes on visibly. -/
theorem rest_moved_runOf (text : Array Char) (x : Cursor) :
    (x.moved (x.runOf text CharSet.whiteSpace)).rest text = trimStart (x.rest text) := by
  have hsplit : (x.rest text).takeWhile isBlank ++ trimStart (x.rest text) = x.rest text :=
    List.takeWhile_append_dropWhile
  rw [runOf_whiteSpace, Cursor.rest_moved]
  calc (x.rest text).drop ((x.rest text).takeWhile isBlank).length
      = ((x.rest text).takeWhile isBlank ++ trimStart (x.rest text)).drop
          ((x.rest text).takeWhile isBlank).length := by rw [hsplit]
    _ = trimStart (x.rest text) := List.drop_left

theorem trimStart_rest_moved {i : Nat} (hi : i ≤ x.runOf text CharSet.whiteSpace) :
    trimStart ((x.moved i).rest text) = trimStart (x.rest text) := by
  rw [← rest_moved_runOf, ← rest_moved_runOf, Cursor.moved_moved, Nat.add_comm, runOf_moved hi]

/-- In front of the end of a run of blanks a text goes on with one. -/
theorem exists_blank_of_lt_runOf {i : Nat} (hi : i < x.runOf text CharSet.whiteSpace) :
    ∃ c cs, (x.moved i).rest text = c :: cs ∧ isBlank c = true := by
  have hrun := runOf_moved hi.le
  rw [runOf_whiteSpace] at hrun
  cases hrest : (x.moved i).rest text with
  | nil =>
    rw [hrest] at hrun
    simp at hrun
    omega
  | cons c cs =>
    refine ⟨c, cs, rfl, ?_⟩
    by_contra hblank
    rw [hrest, List.takeWhile_cons_of_neg hblank] at hrun
    simp at hrun
    omega

theorem first_blanks {least : Nat}
    (hgo : ∀ i < x.runOf text CharSet.whiteSpace, least ≤ i →
      go (x.moved (x.runOf text CharSet.whiteSpace)) = none → go (x.moved i) = none) :
    (blanksExpr least).first text go x =
      if least ≤ x.runOf text CharSet.whiteSpace then
        go (x.moved (x.runOf text CharSet.whiteSpace))
      else none :=
  Expr.first_longest hgo

theorem first_lineEnd (hx : x.place ≤ text.size) :
    (Expr.seq (blanksExpr 0) (.look .endText)).first text go x =
      if (trimStart (x.rest text)).isEmpty then go (toEnd text x) else none := by
  have hrest := rest_moved_runOf text x
  have hlength := congrArg List.length hrest
  rw [Cursor.length_rest, Cursor.moved_place] at hlength
  have hle := runOf_le text CharSet.whiteSpace x
  rw [Expr.first_seq, first_blanks, if_pos (Nat.zero_le _), Expr.first_endText]
  · by_cases hend : trimStart (x.rest text) = []
    · rw [hend] at hlength ⊢
      have hplace : (x.moved (x.runOf text CharSet.whiteSpace)).place = text.size := by
        simp only [List.length_nil, Cursor.moved_place] at hlength ⊢
        omega
      rw [if_pos hplace, toEnd, ← hplace]
      rfl
    · have hpos := List.length_pos_iff.mpr hend
      rw [if_neg (by simp only [Cursor.moved_place]; omega), if_neg (by simpa using hend)]
  · intro i hi _ _
    rw [Expr.first_endText, if_neg]
    simp only [Cursor.moved_place]
    omega

/-- A closing mark is passed exactly if it stands there and nothing but blanks is left. -/
theorem first_closingMark (hx : x.place ≤ text.size) (m : ClosingMark) :
    (word m.text).first text ((Expr.seq (blanksExpr 0) (.look .endText)).first text go) x =
      if (dropWord? m.text (x.rest text)).any (trimStart · |>.isEmpty) then go (toEnd text x)
      else none := by
  rw [Expr.first_word]
  cases hdrop : dropWord? m.text (x.rest text) with
  | none => rfl
  | some rest =>
    have hmoved : (x.moved m.text.length).rest text = rest := by
      rw [Cursor.rest_moved, drop_of_dropWord? hdrop]
    rw [Option.bind_some, first_lineEnd (place_le_of_dropWord? hx hdrop), hmoved]
    rfl

/-- Behind blanks, a line closes at once or with a mark. -/
theorem first_mark (hx : x.place ≤ text.size) :
    (Expr.seq (optional (.alt (word ClosingMark.arrow.text) (word ClosingMark.star.text)))
      (.seq (blanksExpr 0) (.look .endText))).first text go x =
      if (trimStart (x.rest text)).isEmpty ||
          (dropWord? ClosingMark.arrow.text (x.rest text)).any (trimStart · |>.isEmpty) ||
          (dropWord? ClosingMark.star.text (x.rest text)).any (trimStart · |>.isEmpty) then
        go (toEnd text x)
      else none := by
  rw [Expr.first_seq, Expr.first_optional, Expr.first_alt, first_closingMark hx,
    first_closingMark hx, first_lineEnd hx]
  generalize (dropWord? ClosingMark.arrow.text (x.rest text)).any _ = arrow
  generalize (dropWord? ClosingMark.star.text (x.rest text)).any _ = star
  generalize (trimStart (x.rest text)).isEmpty = blank
  cases arrow <;> cases star <;> cases blank <;> simp

theorem dropWord?_mark_eq_none (m : ClosingMark) {c : Char} (hc : isBlank c = true)
    (cs : List Char) : dropWord? m.text (c :: cs) = none := by
  have hne (a : Char) (ha : isBlank a = false) : a ≠ c := by
    rintro rfl
    rw [ha] at hc
    cases hc
  cases m with
  | arrow => simp [ClosingMark.text, dropWord?, hne '-' (by decide)]
  | star => simp [ClosingMark.text, dropWord?, hne '*' (by decide)]

/-- The rest of a line is passed exactly if it closes. -/
theorem first_closing (hx : x.place ≤ text.size) :
    closingExpr.first text go x =
      if closes (x.rest text) then go (toEnd text x) else none := by
  rw [closingExpr, Expr.first_seq, first_blanks, if_pos (Nat.zero_le _),
    first_mark (moved_place_le hx le_rfl), trimStart_rest_moved le_rfl, rest_moved_runOf,
    ← closes_eq]
  · rfl
  · intro i hi _ hnone
    -- a run that is given back leaves a blank, so that no mark follows
    obtain ⟨c, cs, hrest, hblank⟩ := exists_blank_of_lt_runOf hi
    rw [first_mark (moved_place_le hx le_rfl), trimStart_rest_moved le_rfl] at hnone
    rw [first_mark (moved_place_le hx hi.le), trimStart_rest_moved hi.le, hrest,
      dropWord?_mark_eq_none _ hblank, dropWord?_mark_eq_none _ hblank]
    by_cases hend : (trimStart (x.rest text)).isEmpty = true
    · rw [hend, Bool.true_or, Bool.true_or, if_pos rfl] at hnone
      simpa [hend] using hnone
    · simp [hend]

end Line

/-! ## What the groups spell -/

/-- What a directive is for, by the word behind the keyword. -/
def kindOfWord : Option (List Char) → DirectiveKind
  | none => .line
  | some w => if w = kindWord .file then .file else .nextLine

/-- The directive that the texts of the groups spell. -/
def ofGroups (groups : Nat → Option (List Char)) : Directive where
  kind := kindOfWord (groups 1)
  rule := String.ofList ((groups 2).getD [])
  reason := (groups 3).map fun r => trimBlanks (String.ofList r)

/-- The directive that the groups spell where a match has come to. -/
def spell (text : Array Char) (x : Cursor) : Directive := ofGroups (groupIn text x.slots)

section Groups

variable {text : Array Char} {x : Cursor}

theorem notMem_rest_moved {c : Char} (h : c ∉ x.rest text) (n : Nat) :
    c ∉ (x.moved n).rest text := by
  rw [Cursor.rest_moved]
  exact fun hc => h (List.mem_of_mem_drop hc)

theorem spell_noted_kind (hsize : x.slots.size = 8) (n : Nat) :
    spell text (x.noted 1 n) =
      { spell text x with kind := kindOfWord (some ((x.rest text).take n)) } := by
  simp [spell, ofGroups, groupIn_noted (show 2 * 1 + 1 < x.slots.size by omega)]

theorem spell_noted_rule (hsize : x.slots.size = 8) (n : Nat) :
    spell text (x.noted 2 n) =
      { spell text x with rule := String.ofList ((x.rest text).take n) } := by
  simp [spell, ofGroups, groupIn_noted (show 2 * 2 + 1 < x.slots.size by omega)]

theorem spell_noted_reason (hsize : x.slots.size = 8) (n : Nat) :
    spell text (x.noted 3 n) =
      { spell text x with reason := some (trimBlanks (String.ofList ((x.rest text).take n))) } := by
  simp [spell, ofGroups, groupIn_noted (show 2 * 3 + 1 < x.slots.size by omega)]

/-- What is made of an accepted match. -/
def made (text : Array Char) (x : Cursor) : Option Directive := some (spell text x)

theorem first_closing_made (hx : x.place ≤ text.size) :
    closingExpr.first text (made text) x =
      if closes (x.rest text) then some (spell text x) else none :=
  first_closing hx

/-! ## Reasons -/

theorem findSome?_shortestReason {β : Type} (f : List Char → β) (cs : List Char) :
    ((List.range' 1 cs.length).findSome? fun i =>
      if closes (cs.drop i) then some (f (cs.take i)) else none) = (shortestReason cs).map f := by
  induction cs generalizing f with
  | nil => rfl
  | cons c cs ih =>
    rw [List.length_cons, List.range'_succ, List.findSome?_cons, shortestReason]
    by_cases hcloses : closes cs = true
    · simp [hcloses]
    · rw [← List.map_add_range' 1 cs.length 1, List.findSome?_map]
      have hrest := ih fun r => f (c :: r)
      simp only [Function.comp_def, Nat.add_comm 1, List.drop_succ_cons, List.take_succ_cons]
      simp [hcloses, hrest, Function.comp_def]

theorem shortestReason_cons_ne_none (c : Char) (cs : List Char) :
    shortestReason (c :: cs) ≠ none := by
  induction cs generalizing c with
  | nil => simp [shortestReason, closes, trimStart]
  | cons d cs ih =>
    rw [shortestReason]
    split
    · simp
    · simpa using ih d

/-- A reason is as short as can be. -/
theorem first_reasonGroup (hx : x.place ≤ text.size) (hsize : x.slots.size = 8)
    (hline : '\n' ∉ x.rest text) :
    (Expr.group 3 (.rounds 1 none false (.chars withinLine))).first text
      (closingExpr.first text (made text)) x =
      (shortestReason (x.rest text)).map fun r =>
        { spell text x with reason := some (trimBlanks (String.ofList r)) } := by
  have hrun : (x.save (2 * 3)).runOf text withinLine = (x.rest text).length := by
    rw [Cursor.runOf, Cursor.rest_save, List.takeWhile_eq_self_iff.mpr]
    exact fun c hc => (mem_withinLine c).mpr fun h => hline (h ▸ hc)
  have hlength := Cursor.length_rest text x
  rw [Expr.first_group, Expr.first_rounds_chars, hrun, ← findSome?_shortestReason,
    Nat.add_sub_cancel]
  refine findSome?_congr fun i hi => ?_
  rw [mem_inOrder_iff, List.mem_range'_1] at hi
  change closingExpr.first text (made text) (x.noted 3 i) = _
  rw [first_closing_made (by simp only [Cursor.noted_place]; omega), Cursor.rest_noted,
    spell_noted_reason hsize]

/-- Behind the colon, blanks are passed; of blanks alone the last one is the reason. -/
theorem first_afterColon (hx : x.place ≤ text.size) (hsize : x.slots.size = 8)
    (hline : '\n' ∉ x.rest text) :
    (Expr.seq (blanksExpr 0) (.group 3 (.rounds 1 none false (.chars withinLine)))).first text
      (closingExpr.first text (made text)) x =
      (match trimStart (x.rest text) with
        | [] => (x.rest text).getLast?.map fun c => [c]
        | cs => shortestReason cs).map fun r =>
          { spell text x with reason := some (trimBlanks (String.ofList r)) } := by
  have hreason {i : Nat} (hi : i ≤ x.runOf text CharSet.whiteSpace) :
      (Expr.group 3 (.rounds 1 none false (.chars withinLine))).first text
        (closingExpr.first text (made text)) (x.moved i) =
        (shortestReason ((x.rest text).drop i)).map fun r =>
          { spell text x with reason := some (trimBlanks (String.ofList r)) } := by
    rw [first_reasonGroup (moved_place_le hx hi) hsize (notMem_rest_moved hline i),
      Cursor.rest_moved]
    rfl
  have htrim := rest_moved_runOf text x
  rw [Cursor.rest_moved] at htrim
  rw [Expr.first_seq]
  cases hrest : trimStart (x.rest text) with
  | cons c cs =>
    rw [first_blanks, if_pos (Nat.zero_le _), hreason le_rfl, htrim, hrest]
    intro i _ _ hnone
    rw [hreason le_rfl, htrim, hrest, Option.map_eq_none_iff] at hnone
    exact absurd hnone (shortestReason_cons_ne_none c cs)
  | nil =>
    -- behind all of the blanks no reason is left, so the last of them is given back
    have hall : x.runOf text CharSet.whiteSpace = (x.rest text).length := by
      have hle := runOf_le text CharSet.whiteSpace x
      rw [hrest, List.drop_eq_nil_iff] at htrim
      rw [← Cursor.length_rest] at hle
      omega
    rw [blanksExpr, Expr.first_rounds_chars, findSome?_congr fun i hi => hreason ?_, hall]
    · rcases List.eq_nil_or_concat (x.rest text) with hnil | ⟨front, c, hconcat⟩
      · rw [hnil]
        rfl
      · have hfirst : inOrder true (List.range' 0 (front.length + 1 + 1 - 0)) =
            (front.length + 1) :: front.length :: (List.range' 0 front.length).reverse := by
          simp [inOrder, List.range'_1_concat]
        have hlast : shortestReason [c] = some [c] := rfl
        rw [hconcat, List.concat_eq_append, List.length_append, List.length_singleton, hfirst,
          List.findSome?_cons, List.findSome?_cons, List.drop_of_length_le (by simp),
          List.drop_left, hlast, List.getLast?_concat]
        rfl
    · rw [mem_inOrder_iff, List.mem_range'_1] at hi
      omega

/-- Blanks, a colon and a text are passed exactly if they are read as a reason. -/
theorem first_reason (hsize : x.slots.size = 8) (hline : '\n' ∉ x.rest text) :
    reasonExpr.first text (closingExpr.first text (made text)) x =
      (reason? (x.rest text)).map fun r =>
        { spell text x with reason := some (trimBlanks (String.ofList r)) } := by
  have htrim := rest_moved_runOf text x
  have hcolon (c : Char) : (CharSet.singleton ':').mem c = true ↔ c = ':' :=
    CharSet.mem_singleton_iff
  rw [reasonExpr, Expr.first_seq, first_blanks, if_pos (Nat.zero_le _), Expr.first_seq,
    Expr.first_chars, htrim]
  · unfold reason?
    cases hrest : trimStart (x.rest text) with
    | nil => rfl
    | cons c cs =>
      by_cases hc : c = ':'
      · subst hc
        have hmoved : ((x.moved (x.runOf text CharSet.whiteSpace)).moved 1).rest text = cs := by
          rw [Cursor.rest_moved, htrim, hrest]
          rfl
        have hlength := congrArg List.length htrim
        rw [Cursor.length_rest, Cursor.moved_place, hrest, List.length_cons] at hlength
        rw [List.head?_cons, Option.any_some, if_pos ((hcolon ':').mpr rfl), first_afterColon,
          hmoved]
        · rfl
        · simp only [Cursor.moved_place]
          omega
        · exact hsize
        · exact notMem_rest_moved (notMem_rest_moved hline _) 1
      · have hmem : ¬ (CharSet.singleton ':').mem c = true := fun h => hc ((hcolon c).mp h)
        rw [List.head?_cons, Option.any_some, if_neg hmem]
        split
        · next heq => exact absurd (List.cons.inj heq).1 hc
        · rfl
  · intro i hi _ _
    obtain ⟨c, cs, hrest, hblank⟩ := exists_blank_of_lt_runOf hi
    rw [Expr.first_seq, Expr.first_chars, hrest, List.head?_cons, Option.any_some, if_neg]
    rw [hcolon]
    rintro rfl
    exact absurd hblank (by decide)

/-- What follows a rule's name is passed as it is read: with a reason if there is one. -/
theorem first_ending (hx : x.place ≤ text.size) (hsize : x.slots.size = 8)
    (hline : '\n' ∉ x.rest text) (hnone : (spell text x).reason = none) :
    endingExpr.first text (made text) x =
      (ending? (x.rest text)).map fun reason =>
        { spell text x with reason := reason.map fun r => trimBlanks (String.ofList r) } := by
  rw [endingExpr, Expr.first_seq, Expr.first_optional, first_reason hsize hline,
    first_closing_made hx, ending?]
  cases reason? (x.rest text) with
  | some r => rfl
  | none =>
    by_cases hcloses : closes (x.rest text) = true
    · simp [hcloses, ← hnone]
    · simp [hcloses]

/-! ## Names -/

theorem nameUpTo_eq_findSome? (run rest : List Char) (n : Nat) :
    nameUpTo run rest n = (List.range' 1 n).reverse.findSome? fun i =>
      (ending? (run.drop i ++ rest)).map fun reason => (run.take i, reason) := by
  induction n with
  | zero => rfl
  | succ n ih =>
    rw [nameUpTo, List.range'_1_concat, List.reverse_append, List.reverse_singleton,
      List.singleton_append, List.findSome?_cons, Nat.add_comm 1 n, ← ih]
    cases ending? (run.drop (n + 1) ++ rest) <;> rfl

/-- A directive of a kind, by what follows the word that says it. -/
def nameAfter? (d : Directive) (cs : List Char) : Option Directive :=
  let rest := trimStart cs
  if rest.length = cs.length then none
  else
    let run := rest.takeWhile isNameChar
    (nameUpTo run (rest.dropWhile isNameChar) run.length).map fun found =>
      { d with
        rule := String.ofList found.1
        reason := found.2.map fun r => trimBlanks (String.ofList r) }

theorem after?_eq_nameAfter? (cs : List Char) :
    after? cs = nameAfter? { kind := (kindOf cs).1, rule := "", reason := none } (kindOf cs).2 :=
  rfl

/-- A name is as long as it can be. -/
theorem first_nameGroup (hx : x.place ≤ text.size) (hsize : x.slots.size = 8)
    (hline : '\n' ∉ x.rest text) (hnone : (spell text x).reason = none) :
    (Expr.seq (.group 2 (.rounds 1 none true (.chars nameSet))) endingExpr).first text
      (made text) x =
      (nameUpTo ((x.rest text).takeWhile isNameChar) ((x.rest text).dropWhile isNameChar)
        ((x.rest text).takeWhile isNameChar).length).map fun found =>
          { spell text x with
            rule := String.ofList found.1
            reason := found.2.map fun r => trimBlanks (String.ofList r) } := by
  have hrun : (x.save (2 * 2)).runOf text nameSet =
      ((x.rest text).takeWhile isNameChar).length := by
    rw [Cursor.runOf, Cursor.rest_save, funext mem_nameSet]
  have hle : ((x.rest text).takeWhile isNameChar).length ≤ text.size - x.place := by
    rw [← Cursor.length_rest]
    exact (List.takeWhile_prefix _).length_le
  rw [Expr.first_seq, Expr.first_group, Expr.first_rounds_chars, hrun, nameUpTo_eq_findSome?,
    List.map_findSome?, Nat.add_sub_cancel]
  refine findSome?_congr fun i hi => ?_
  rw [mem_inOrder_iff, List.mem_range'_1] at hi
  change endingExpr.first text (made text) (x.noted 2 i) = _
  have hsplit : (x.rest text).takeWhile isNameChar ++ (x.rest text).dropWhile isNameChar =
      x.rest text := List.takeWhile_append_dropWhile
  have hdrop : ((x.rest text).takeWhile isNameChar).drop i ++
      (x.rest text).dropWhile isNameChar = (x.rest text).drop i := by
    rw [← List.drop_append_of_le_length (by omega), hsplit]
  have htake : ((x.rest text).takeWhile isNameChar).take i = (x.rest text).take i := by
    rw [← List.take_append_of_le_length (by omega), hsplit]
  have hrule : spell text (x.noted 2 i) = _ := spell_noted_rule hsize i
  rw [first_ending, Cursor.rest_noted, hrule, Function.comp_apply, hdrop, htake, Option.map_map]
  · rfl
  · simp only [Cursor.noted_place]
    omega
  · rw [Cursor.size_slots_noted, hsize]
  · rw [Cursor.rest_noted]
    exact fun h => hline (List.mem_of_mem_drop h)
  · rw [hrule]
    exact hnone

/-- Blanks and a name are passed as they are read. -/
theorem first_name (hx : x.place ≤ text.size) (hsize : x.slots.size = 8)
    (hline : '\n' ∉ x.rest text) (hnone : (spell text x).reason = none) :
    nameExpr.first text (made text) x = nameAfter? (spell text x) (x.rest text) := by
  have hle := runOf_le text CharSet.whiteSpace x
  have htrim := rest_moved_runOf text x
  have hlength := congrArg List.length htrim
  rw [Cursor.length_rest, Cursor.moved_place] at hlength
  rw [nameExpr, Expr.first_seq, first_blanks, nameAfter?, Cursor.length_rest]
  · by_cases hpos : 1 ≤ x.runOf text CharSet.whiteSpace
    · rw [if_pos hpos, first_nameGroup (moved_place_le hx le_rfl) hsize
        (notMem_rest_moved hline _) hnone, htrim, if_neg (by omega)]
      rfl
    · rw [if_neg hpos, if_pos (by omega)]
  · intro i hi _ _
    obtain ⟨c, cs, hrest, hblank⟩ := exists_blank_of_lt_runOf hi
    have hname : ¬ isNameChar c = true := by
      rw [isNameChar_of_isBlank hblank]
      exact Bool.false_ne_true
    rw [first_nameGroup (moved_place_le hx hi.le) hsize (notMem_rest_moved hline _) hnone, hrest,
      List.takeWhile_cons_of_neg hname]
    rfl

/-! ## What a directive is for -/

/-- Nothing is read where no blank follows. -/
theorem nameAfter?_cons (d : Directive) {c : Char} (hc : isBlank c = false)
    (cs : List Char) : nameAfter? d (c :: cs) = none := by
  have htrim : trimStart (c :: cs) = c :: cs := List.dropWhile_cons_of_neg (by simp [hc])
  rw [nameAfter?, htrim, if_pos rfl]

/-- What a directive is for is read first, and then its name. -/
theorem first_after (hx : x.place ≤ text.size) (hsize : x.slots.size = 8)
    (hline : '\n' ∉ x.rest text)
    (hstart : spell text x = { kind := .line, rule := "", reason := none }) :
    afterExpr.first text (made text) x = after? (x.rest text) := by
  have hword {w rest : List Char} (hdrop : dropWord? w (x.rest text) = some rest) :
      nameExpr.first text (made text) (x.noted 1 w.length) =
        nameAfter? { kind := kindOfWord (some w), rule := "", reason := none } rest := by
    have hnoted : (x.noted 1 w.length).rest text = rest := by
      rw [Cursor.rest_noted, drop_of_dropWord? hdrop]
    have hkind : spell text (x.noted 1 w.length) =
        { kind := kindOfWord (some w), rule := "", reason := none } := by
      rw [spell_noted_kind hsize, hstart, eq_append_of_dropWord? hdrop, List.take_left]
    have hline' : '\n' ∉ (x.noted 1 w.length).rest text := by
      rw [Cursor.rest_noted]
      exact fun h => hline (List.mem_of_mem_drop h)
    rw [first_name (place_le_of_dropWord? hx hdrop) (by rw [Cursor.size_slots_noted, hsize])
      hline' (by rw [hkind]), hnoted, hkind]
  have hplain : nameExpr.first text (made text) x =
      nameAfter? { kind := .line, rule := "", reason := none } (x.rest text) := by
    rw [first_name hx hsize hline (by rw [hstart]), hstart]
  -- a word that stands there leaves no blank for a name in its place
  have hhyphen {w rest : List Char} (hdrop : dropWord? ('-' :: w) (x.rest text) = some rest) :
      nameExpr.first text (made text) x = none := by
    rw [hplain, eq_append_of_dropWord? hdrop]
    exact nameAfter?_cons _ (by decide) _
  rw [afterExpr, Expr.first_seq, Expr.first_optional, Expr.first_group, Expr.first_alt,
    Expr.first_word, Expr.first_word, after?_eq_nameAfter?, kindOf, Cursor.rest_save]
  cases hnext : dropWord? "-next-line".toList (x.rest text) with
  | some rest =>
    have hfile : dropWord? "-file".toList (x.rest text) = none := by
      rw [eq_append_of_dropWord? hnext]
      rfl
    rw [hfile, Option.bind_none, Option.or_none, Option.bind_some, hhyphen hnext, Option.or_none]
    exact hword hnext
  | none =>
    cases hfile : dropWord? "-file".toList (x.rest text) with
    | some rest =>
      rw [Option.bind_none, Option.none_or, Option.bind_some, hhyphen hfile, Option.or_none]
      exact hword hfile
    | none => exact hplain

end Groups

/-! ## The leftmost directive -/

theorem read?_eq_findSome? (cs : List Char) : read? cs =
    (List.range' 0 (cs.length + 1)).findSome? fun i =>
      (dropWord? keyword (cs.drop i)).bind after? := by
  induction cs with
  | nil => rfl
  | cons c cs ih =>
    rw [read?, List.length_cons, List.range'_succ, List.findSome?_cons, List.drop_zero,
      ← List.map_add_range' 0 (cs.length + 1) 1, List.findSome?_map]
    cases (dropWord? keyword (c :: cs)).bind after? with
    | some d => rfl
    | none => simpa [Function.comp_def, Nat.add_comm 1] using ih

/-- The matcher of directives. -/
def matcher : Pattern := .ofExpr (spelled keyword afterExpr) 3 []

theorem compile?_pattern : compile? pattern = some matcher :=
  (compile?_eq_some_iff parse?_pattern).mpr ⟨by cbv, rfl⟩

theorem consumes_chars_of_mem {set : CharSet} {c : Char} (h : set.mem c = true) :
    (Expr.chars set).consumes = true := by
  rw [Expr.consumes, CharSet.isEmpty_eq_false_of_mem h]
  rfl

theorem advances_pattern : (spelled keyword afterExpr).Advances := by
  have hblanks (least : Nat) : (blanksExpr least).Advances :=
    ⟨trivial, consumes_chars_of_mem (c := ' ') ((mem_whiteSpace ' ').trans (by decide))⟩
  have hclosing : closingExpr.Advances :=
    ⟨hblanks 0, ⟨Expr.advances_word _, Expr.advances_word _⟩, hblanks 0, trivial⟩
  have hreason : reasonExpr.Advances :=
    ⟨hblanks 0, trivial, hblanks 0, trivial,
      consumes_chars_of_mem (c := ' ') ((mem_withinLine ' ').mpr (by decide))⟩
  have hname : nameExpr.Advances :=
    ⟨hblanks 1, ⟨trivial, consumes_chars_of_mem (c := 'A') ((mem_nameSet 'A').trans (by decide))⟩,
      hreason, hclosing⟩
  exact Expr.advances_spelled ⟨⟨Expr.advances_word _, Expr.advances_word _⟩, hname⟩

/-- The directive that the groups of a match spell. -/
def ofCaptures (text : Array Char) (c : Captures) : Directive := ofGroups (groupText text c)

theorem ofCaptures_captures (text : Array Char) (x : Cursor) :
    ofCaptures text (matcher.captures (x.save 1).slots) = spell text x := by
  have hgroup {g : Nat} (hpos : 0 < g) (hg : g ≤ 3) :
      groupText text (matcher.captures (x.save 1).slots) g = groupIn text x.slots g := by
    rw [groupText_captures hg, groupIn_save_of_ne (by omega)]
  simp [ofCaptures, spell, ofGroups, hgroup]

theorem rest_startCursor (line : List Char) (i : Nat) :
    (startCursor 3 i).rest line.toArray = line.drop i := rfl

/-- Before any group has been entered, the groups spell the plainest directive. -/
theorem spell_startCursor (text : Array Char) (i : Nat) : spell text (startCursor 3 i) =
    { kind := .line, rule := "", reason := none } := by
  have hnone (g : Nat) (hg : 0 < g) : groupIn text (startCursor 3 i).slots g = none := by
    have hslot : (startCursor 3 i).slots.getD (2 * g) none = none := by
      rw [startCursor, Array.getD_eq_getD_getElem?, Array.getElem?_setIfInBounds_ne (by omega),
        Array.getElem?_replicate]
      split <;> rfl
    simp [groupIn, hslot]
  simp [spell, ofGroups, hnone, kindOfWord]

/-- **A line is read as the pattern matches it**: the directive on a line is what the groups of the
pattern's leftmost match spell. -/
theorem read?_eq_find? {line : List Char} (hline : '\n' ∉ line) :
    read? line = (matcher.find? line.toArray 0).map (ofCaptures line.toArray) := by
  rw [find?_eq_outcomes parse?_pattern compile?_pattern advances_pattern, Option.map_map,
    List.map_findSome?, read?_eq_findSome?]
  refine findSome?_congr fun i hi => ?_
  rw [List.mem_range'_1] at hi
  have hmade (e : Expr) (x : Cursor) : (e.outcomes line.toArray x).head?.map
      (ofCaptures line.toArray ∘ fun x => matcher.captures (x.save 1).slots) =
      e.first line.toArray (made line.toArray) x := by
    rw [Expr.head?_outcomes, Expr.map_first]
    simp only [Option.map_some, Function.comp_apply, ofCaptures_captures]
    rfl
  rw [Function.comp_apply, hmade, Expr.first_spelled, rest_startCursor]
  cases hdrop : dropWord? keyword (line.drop i) with
  | none => rfl
  | some rest =>
    rw [← rest_startCursor] at hdrop
    have hx : (startCursor 3 i).place ≤ line.toArray.size := by
      simp only [startCursor, List.size_toArray]
      omega
    have hstart : '\n' ∉ (startCursor 3 i).rest line.toArray := by
      rw [rest_startCursor]
      exact fun h => hline (List.mem_of_mem_drop h)
    rw [Option.bind_some, Option.bind_some, first_after (place_le_of_dropWord? hx hdrop)
      (by simp [startCursor]) (notMem_rest_moved hstart _) (spell_startCursor line.toArray i),
      Cursor.rest_moved, drop_of_dropWord? hdrop]

end Directive

/-- **The suppressions of a text are what the pattern finds**: each line on which the pattern
matches switches off what the groups of its leftmost match spell. -/
theorem TextModel.suppressions_eq_matches (text : String) :
    (TextModel.ofText text).suppressions =
      ((TextModel.ofText text).lines.zipIdx 1).filterMap fun x =>
        (Directive.matcher.find? x.1.toList.toArray 0).map fun c =>
          Suppression.ofDirective x.2 (Directive.ofCaptures x.1.toList.toArray c) := by
  change Suppression.ofLines 1 (TextModel.ofText text).lines = _
  rw [Suppression.ofLines_eq]
  refine List.filterMap_congr fun x hx => ?_
  have hline := TextModel.notMem_ofText_lines text x.1 (List.fst_mem_of_mem_zipIdx hx)
  rw [Directive.read?_eq_find? hline, Option.map_map]
  rfl

end StyleEngine
