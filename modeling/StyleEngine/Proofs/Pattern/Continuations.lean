import Mathlib.Data.List.TakeWhile
import StyleEngine.Proofs.Pattern.Outcomes
import StyleEngine.Proofs.Text.CharSets
import StyleEngine.Text.Substitute

/-! # Matching with what follows

Which of an expression's outcomes counts depends on what follows the expression: the first
one that something can be made of (`Expr.first`).  For each kind of expression there is one
law; a word is passed if the text goes on with it, and a repeated class of characters is
tried from its longest run down to its shortest one, or the other way round.
-/
namespace StyleEngine

namespace Pattern

namespace Cursor

/-- Passes some characters. -/
def moved (n : Nat) (x : Cursor) : Cursor := { x with place := x.place + n }

@[simp] theorem moved_place (n : Nat) (x : Cursor) : (x.moved n).place = x.place + n := rfl

@[simp] theorem moved_slots (n : Nat) (x : Cursor) : (x.moved n).slots = x.slots := rfl

@[simp] theorem moved_zero (x : Cursor) : x.moved 0 = x := rfl

theorem moved_moved (m n : Nat) (x : Cursor) : (x.moved m).moved n = x.moved (m + n) := by
  simp [moved, Nat.add_assoc]

/-- What is left of a text. -/
def rest (text : Array Char) (x : Cursor) : List Char := text.toList.drop x.place

@[simp] theorem rest_moved (text : Array Char) (n : Nat) (x : Cursor) :
    (x.moved n).rest text = (x.rest text).drop n := by
  simp [rest]

@[simp] theorem rest_save (text : Array Char) (slot : Nat) (x : Cursor) :
    (x.save slot).rest text = x.rest text := rfl

theorem length_rest (text : Array Char) (x : Cursor) :
    (x.rest text).length = text.size - x.place := by
  simp [rest]

theorem head?_rest (text : Array Char) (x : Cursor) :
    (x.rest text).head? = text[x.place]? := by
  rw [rest, List.head?_drop, Array.getElem?_toList]

/-- The number of characters of a set that a text goes on with. -/
def runOf (text : Array Char) (set : CharSet) (x : Cursor) : Nat :=
  ((x.rest text).takeWhile set.mem).length

end Cursor

/-- Some characters one after the other, and an expression behind them. -/
def spelled (word : List Char) (e : Expr) : Expr :=
  word.foldr (fun c e => .seq (.chars (.singleton c)) e) e

/-- Some characters one after the other. -/
def word : List Char → Expr
  | [] => .empty
  | [c] => .chars (.singleton c)
  | c :: cs => .seq (.chars (.singleton c)) (word cs)

/-- An expression that may be left out. -/
def optional (e : Expr) : Expr := .rounds 0 (some 1) true e

variable {α : Type} {text : Array Char} {e f : Expr} {set : CharSet} {x : Cursor}
  {go : Cursor → Option α}

theorem findSome?_flatMap {β γ : Type} (xs : List β) (step : β → List γ) (go : γ → Option α) :
    (xs.flatMap step).findSome? go = xs.findSome? fun x => (step x).findSome? go := by
  simp only [← List.head?_filterMap, List.filterMap_flatMap, List.head?_flatMap]

theorem findSome?_congr {β : Type} {xs : List β} {go go' : β → Option α}
    (h : ∀ x ∈ xs, go x = go' x) : xs.findSome? go = xs.findSome? go' := by
  rw [← List.head?_filterMap, List.filterMap_congr h, List.head?_filterMap]

namespace Expr

/-- What is made of the first of an expression's outcomes that anything can be made of. -/
def first (text : Array Char) (e : Expr) (go : Cursor → Option α) (x : Cursor) : Option α :=
  (e.outcomes text x).findSome? go

theorem head?_outcomes (text : Array Char) (e : Expr) (x : Cursor) :
    (e.outcomes text x).head? = e.first text some x := by
  rw [first]
  cases e.outcomes text x <;> rfl

theorem map_first {β : Type} (f : α → β) :
    (e.first text go x).map f = e.first text (fun y => (go y).map f) x :=
  List.map_findSome?

theorem first_seq : (seq e f).first text go x = e.first text (f.first text go) x :=
  findSome?_flatMap _ _ _

theorem first_alt : (alt e f).first text go x = (e.first text go x).or (f.first text go x) :=
  List.findSome?_append

theorem first_group (index : Nat) : (group index e).first text go x =
    e.first text (fun y => go (y.save (2 * index + 1))) (x.save (2 * index)) :=
  List.findSome?_map

theorem first_optional : (optional e).first text go x = (e.first text go x).or (go x) := by
  simp only [first, optional, outcomes, times, List.flatMap_singleton, upTo, if_true,
    List.findSome?_append, findSome?_flatMap, List.findSome?_singleton]

theorem first_chars : (chars set).first text go x =
    if (x.rest text).head?.any set.mem then go (x.moved 1) else none := by
  rw [first, outcomes, ← Cursor.head?_rest]
  cases (x.rest text).head? with
  | none => rfl
  | some c =>
    cases hmem : set.mem c <;> simp [hmem, Cursor.pass, Cursor.moved]

/-- A word is passed if the text goes on with it. -/
theorem first_spelled {word : List Char} : (spelled word e).first text go x =
    (dropWord? word (x.rest text)).bind fun _ => e.first text go (x.moved word.length) := by
  induction word generalizing x with
  | nil => rfl
  | cons a word ih =>
    change (seq (chars (.singleton a)) (spelled word e)).first text go x = _
    rw [first_seq, first_chars, ih, Cursor.rest_moved, Cursor.moved_moved]
    cases hrest : x.rest text with
    | nil => rfl
    | cons c cs =>
      by_cases hc : a = c
      · subst hc
        have hmem : (CharSet.singleton a).mem a = true := CharSet.mem_singleton_iff.mpr rfl
        simp only [List.head?_cons, Option.any_some, hmem, if_true, dropWord?, List.drop_one,
          List.tail_cons, List.length_cons, Nat.add_comm 1]
      · have hmem : (CharSet.singleton a).mem c = false := by
          rw [Bool.eq_false_iff]
          exact fun h => hc (CharSet.mem_singleton_iff.mp h).symm
        simp [dropWord?, hc, hmem]

theorem first_word (w : List Char) : (word w).first text go x =
    (dropWord? w (x.rest text)).bind fun _ => go (x.moved w.length) := by
  have hempty : Expr.empty.first text go = go := by
    funext y
    simp [first, outcomes]
  -- behind its last character a word has nothing, where a spelled one has the empty expression
  have hword : (word w).first text go x = (spelled w .empty).first text go x := by
    induction w using word.induct generalizing x with
    | case1 => rfl
    | case2 c =>
      change (chars (.singleton c)).first text go x =
        (seq (chars (.singleton c)) .empty).first text go x
      rw [first_seq, hempty]
    | case3 c cs _ ih =>
      change _ = (seq (chars (.singleton c)) (spelled cs .empty)).first text go x
      rw [word, first_seq, first_seq]
      · exact congrArg (fun go => (chars (.singleton c)).first text go x) (funext fun _ => ih)
      · assumption
  rw [hword, first_spelled]
  exact congrArg (Option.bind _) (funext fun _ => congrFun hempty _)

theorem advances_spelled {w : List Char} (h : e.Advances) : (spelled w e).Advances := by
  induction w with
  | nil => exact h
  | cons c w ih => exact ⟨trivial, ih⟩

theorem advances_word (w : List Char) : (word w).Advances := by
  induction w using word.induct with
  | case1 => trivial
  | case2 c => trivial
  | case3 c cs hcs ih =>
    rw [word]
    · exact ⟨trivial, ih⟩
    · exact hcs

end Expr

/-! ## Runs of characters -/

/-- A character of a set is passed, or there is no run of them. -/
theorem outcomes_chars_cases (text : Array Char) (set : CharSet) (x : Cursor) :
    ((Expr.chars set).outcomes text x = [x.moved 1] ∧
        x.runOf text set = (x.moved 1).runOf text set + 1) ∨
      (Expr.chars set).outcomes text x = [] ∧ x.runOf text set = 0 := by
  simp only [Expr.outcomes, ← Cursor.head?_rest, Cursor.runOf, Cursor.rest_moved]
  cases x.rest text with
  | nil => exact .inr ⟨rfl, rfl⟩
  | cons c cs =>
    by_cases hmem : set.mem c = true
    · left
      simp [hmem, Cursor.pass, Cursor.moved]
    · right
      simp [hmem]

theorem runOf_le (text : Array Char) (set : CharSet) (x : Cursor) :
    x.runOf text set ≤ text.size - x.place := by
  rw [← Cursor.length_rest]
  exact (List.takeWhile_prefix _).length_le

theorem times_chars (text : Array Char) (set : CharSet) (n : Nat) (x : Cursor) :
    times ((Expr.chars set).outcomes text) n x =
      if n ≤ x.runOf text set then [x.moved n] else [] := by
  induction n generalizing x with
  | zero => simp [times]
  | succ n ih =>
    rw [times]
    rcases outcomes_chars_cases text set x with ⟨hstep, hrun⟩ | ⟨hstep, hrun⟩
    · rw [hstep, List.flatMap_singleton, ih, hrun, Cursor.moved_moved, Nat.add_comm 1 n]
      simp only [Nat.add_le_add_iff_right]
    · rw [hstep, hrun]
      rfl

/-- The numbers of rounds in the order they are tried in. -/
def inOrder (greedy : Bool) (ns : List Nat) : List Nat := if greedy then ns.reverse else ns

theorem mem_inOrder_iff {greedy : Bool} {ns : List Nat} {i : Nat} :
    i ∈ inOrder greedy ns ↔ i ∈ ns := by
  cases greedy <;> simp [inOrder]

theorem upTo_chars (text : Array Char) (set : CharSet) (greedy : Bool) (n : Nat) (x : Cursor)
    (hn : x.runOf text set ≤ n) :
    upTo ((Expr.chars set).outcomes text) greedy n x =
      (inOrder greedy (List.range (x.runOf text set + 1))).map fun i => x.moved i := by
  induction n generalizing x with
  | zero =>
    rw [Nat.le_zero.mp hn]
    cases greedy <;> rfl
  | succ n ih =>
    rw [upTo]
    rcases outcomes_chars_cases text set x with ⟨hstep, hrun⟩ | ⟨hstep, hrun⟩
    · rw [hstep, List.flatMap_singleton, ih (x.moved 1) (by omega), hrun,
        List.range_succ_eq_map (n := (x.moved 1).runOf text set + 1)]
      cases greedy with
      | true =>
        simp [inOrder, Cursor.moved_moved, Nat.add_comm 1, Function.comp_def]
      | false =>
        simp [inOrder, Cursor.moved_moved, Nat.add_comm 1, Function.comp_def]
    · rw [hstep, hrun]
      cases greedy <;> rfl

theorem runOf_moved {n : Nat} (hn : n ≤ x.runOf text set) :
    (x.moved n).runOf text set + n = x.runOf text set := by
  induction n with
  | zero => rfl
  | succ n ih =>
    have hrun := ih (by omega)
    rcases outcomes_chars_cases text set (x.moved n) with ⟨-, hstep⟩ | ⟨-, hstep⟩
    · rw [Cursor.moved_moved] at hstep
      omega
    · omega

theorem moved_place_le (hx : x.place ≤ text.size) {i : Nat} (hi : i ≤ x.runOf text set) :
    (x.moved i).place ≤ text.size := by
  have hle := runOf_le text set x
  simp only [Cursor.moved_place]
  omega

/-- A repeated class passes runs of its characters, of any length from its least one up to that
of the longest run. -/
theorem outcomes_rounds_chars (text : Array Char) (set : CharSet) (least : Nat) (greedy : Bool)
    (x : Cursor) : (Expr.rounds least none greedy (.chars set)).outcomes text x =
      (inOrder greedy (List.range' least (x.runOf text set + 1 - least))).map
        fun i => x.moved i := by
  rw [Expr.outcomes, times_chars]
  by_cases hle : least ≤ x.runOf text set
  · have hrun := runOf_moved hle
    rw [if_pos hle, List.flatMap_singleton, upTo_chars _ _ _ _ _ (runOf_le ..),
      List.range'_eq_map_range, show x.runOf text set + 1 - least =
        (x.moved least).runOf text set + 1 by omega]
    cases greedy <;> simp [inOrder, Cursor.moved_moved, Function.comp_def]
  · rw [if_neg hle, show x.runOf text set + 1 - least = 0 by omega]
    cases greedy <;> rfl

namespace Expr

theorem first_rounds_chars (least : Nat) (greedy : Bool) :
    (rounds least none greedy (chars set)).first text go x =
      (inOrder greedy (List.range' least (x.runOf text set + 1 - least))).findSome?
        fun i => go (x.moved i) := by
  rw [first, outcomes_rounds_chars, List.findSome?_map]
  rfl

/-- Only the longest run counts if nothing can be made of a shorter one where nothing can be made
of the longest. -/
theorem first_longest {least : Nat}
    (hgo : ∀ i < x.runOf text set, least ≤ i → go (x.moved (x.runOf text set)) = none →
      go (x.moved i) = none) :
    (rounds least none true (chars set)).first text go x =
      if least ≤ x.runOf text set then go (x.moved (x.runOf text set)) else none := by
  rw [first_rounds_chars]
  by_cases hle : least ≤ x.runOf text set
  · rw [if_pos hle, inOrder, if_pos rfl, show x.runOf text set + 1 - least =
      (x.runOf text set - least) + 1 by omega, List.range'_1_concat, List.reverse_append,
      List.reverse_singleton, List.singleton_append, List.findSome?_cons,
      Nat.add_sub_cancel' hle]
    cases hlongest : go (x.moved (x.runOf text set)) with
    | some a => rfl
    | none =>
      simp only
      rw [List.findSome?_eq_none_iff]
      intro i hi
      rw [List.mem_reverse, List.mem_range'_1] at hi
      exact hgo i (by omega) hi.1 hlongest
  · rw [if_neg hle, show x.runOf text set + 1 - least = 0 by omega]
    rfl

theorem first_endText : (look .endText).first text go x =
    if x.place = text.size then go x else none := by
  by_cases hx : x.place = text.size
  · simp [first, outcomes, Assertion.holdsAt, hx]
  · simp [first, outcomes, Assertion.holdsAt, hx]

end Expr

/-! ## What groups have noted -/

/-- The text of a group, by the slots that note where it was entered and left. -/
def groupIn (text : Array Char) (slots : Slots) (g : Nat) : Option (List Char) :=
  match slots.getD (2 * g) none, slots.getD (2 * g + 1) none with
  | some a, some b => some (text.extract a b).toList
  | _, _ => none

theorem groupText_captures {p : Pattern} {g : Nat} (hg : g ≤ p.groups) (slots : Slots) :
    groupText text (p.captures slots) g = groupIn text slots g := by
  rw [groupText, captures, List.getElem?_map, List.getElem?_range (Nat.lt_succ_of_le hg), groupIn]
  simp only [Option.map_some]
  cases slots.getD (2 * g) none <;> cases slots.getD (2 * g + 1) none <;> rfl

theorem groupIn_save_of_ne {slot g : Nat} (hne : slot / 2 ≠ g) :
    groupIn text (x.save slot).slots g = groupIn text x.slots g := by
  simp only [groupIn, Cursor.save, Array.getD_eq_getD_getElem?]
  rw [Array.getElem?_setIfInBounds_ne (by omega), Array.getElem?_setIfInBounds_ne (by omega)]

/-- Passes some characters as those of a group. -/
def Cursor.noted (g n : Nat) (x : Cursor) : Cursor :=
  ((x.save (2 * g)).moved n).save (2 * g + 1)

@[simp] theorem Cursor.noted_place (g n : Nat) (x : Cursor) : (x.noted g n).place = x.place + n :=
  rfl

@[simp] theorem Cursor.rest_noted (text : Array Char) (g n : Nat) (x : Cursor) :
    (x.noted g n).rest text = (x.rest text).drop n := by
  simp [noted]

@[simp] theorem Cursor.size_slots_noted (g n : Nat) (x : Cursor) :
    (x.noted g n).slots.size = x.slots.size := by
  simp [noted, save]

/-- A group has the characters that were passed as its own; the others are left as they were. -/
theorem groupIn_noted {g : Nat} (hsize : 2 * g + 1 < x.slots.size) (n g' : Nat) :
    groupIn text (x.noted g n).slots g' =
      if g' = g then some ((x.rest text).take n) else groupIn text x.slots g' := by
  by_cases hg : g' = g
  · subst hg
    have henter : (x.noted g' n).slots.getD (2 * g') none = some x.place := by
      simp only [Cursor.noted, Cursor.save, Cursor.moved, Array.getD_eq_getD_getElem?]
      rw [Array.getElem?_setIfInBounds_ne (by omega),
        Array.getElem?_setIfInBounds_self_of_lt (by omega), Option.getD_some]
    have hleave : (x.noted g' n).slots.getD (2 * g' + 1) none = some (x.place + n) := by
      simp only [Cursor.noted, Cursor.save, Cursor.moved, Array.getD_eq_getD_getElem?]
      rw [Array.getElem?_setIfInBounds_self_of_lt (by simpa using hsize), Option.getD_some]
    rw [if_pos rfl, groupIn, henter, hleave]
    simp [Cursor.rest, List.extract_eq_take_drop]
  · rw [if_neg hg, Cursor.noted, groupIn_save_of_ne (by omega), Cursor.moved_slots,
      groupIn_save_of_ne (by omega)]

end Pattern

end StyleEngine
