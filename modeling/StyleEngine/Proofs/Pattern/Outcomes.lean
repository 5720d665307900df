import StyleEngine.Pattern.Matcher

/-! # What an expression matches

The ways to match an expression from a place of a text on are listed, the preferred one
first (`Expr.outcomes`): alternatives in the order they are written in, a greedy repetition
with more rounds before one with fewer, a lazy one the other way round.  Nothing is said
here about instructions and branches; that a matcher finds the first of the outcomes is
proved where matchers are laid out and run.

A repetition without an upper bound is one of as many rounds as there are characters left.
That covers all of them if each round passes a character, so this is asked of the
expressions that the laws are about (`Expr.Advances`).
-/
namespace StyleEngine

namespace Pattern

/-- Where a match has come to: a place of the text, and the places of the groups so far. -/
structure Cursor where
  place : Nat
  slots : Slots

namespace Cursor

/-- Notes the place in a slot. -/
def save (slot : Nat) (x : Cursor) : Cursor :=
  { x with slots := x.slots.setIfInBounds slot (some x.place) }

@[simp] theorem save_place (slot : Nat) (x : Cursor) : (x.save slot).place = x.place := rfl

/-- Passes one character. -/
def pass (x : Cursor) : Cursor := { x with place := x.place + 1 }

@[simp] theorem pass_place (x : Cursor) : x.pass.place = x.place + 1 := rfl

@[simp] theorem pass_slots (x : Cursor) : x.pass.slots = x.slots := rfl

end Cursor

/-- The outcomes of `n` rounds of a step. -/
def times (step : Cursor → List Cursor) : Nat → Cursor → List Cursor
  | 0, x => [x]
  | n + 1, x => (step x).flatMap (times step n)

/-- The outcomes of at most `n` rounds of a step, more rounds first if `greedy`. -/
def upTo (step : Cursor → List Cursor) (greedy : Bool) : Nat → Cursor → List Cursor
  | 0, x => [x]
  | n + 1, x =>
    if greedy then (step x).flatMap (upTo step greedy n) ++ [x]
    else x :: (step x).flatMap (upTo step greedy n)

namespace Expr

/-- The ways to match an expression from a place on, the preferred one first. -/
def outcomes (text : Array Char) : Expr → Cursor → List Cursor
  | .empty, x => [x]
  | .chars set, x =>
    match text[x.place]? with
    | some c => if set.mem c then [x.pass] else []
    | none => []
  | .look a, x => if a.holdsAt text x.place then [x] else []
  | .group index e, x =>
    (e.outcomes text (x.save (2 * index))).map (Cursor.save (2 * index + 1))
  | .seq e f, x => (e.outcomes text x).flatMap (f.outcomes text)
  | .alt e f, x => e.outcomes text x ++ f.outcomes text x
  | .rounds least (some most) greedy e, x =>
    (times (e.outcomes text) least x).flatMap (upTo (e.outcomes text) greedy (most - least))
  | .rounds least none greedy e, x =>
    (times (e.outcomes text) least x).flatMap fun y =>
      upTo (e.outcomes text) greedy (text.size - y.place) y

/-- Whether each round of a repetition without an upper bound passes a character. -/
def Advances : Expr → Prop
  | .empty => True
  | .chars _ => True
  | .look _ => True
  | .group _ e => e.Advances
  | .seq e f => e.Advances ∧ f.Advances
  | .alt e f => e.Advances ∧ f.Advances
  | .rounds _ (some _) _ e => e.Advances
  | .rounds _ none _ e => e.Advances ∧ e.consumes = true

end Expr

/-! ## Where outcomes lie -/

/-- Whether a step goes on to places of the text, by at least `least` characters. -/
def StaysWithin (text : Array Char) (least : Nat) (step : Cursor → List Cursor) : Prop :=
  ∀ x, ∀ y ∈ step x, x.place + least ≤ y.place ∧ (y.place = x.place ∨ y.place ≤ text.size)

namespace StaysWithin

variable {text : Array Char} {least more : Nat} {step next : Cursor → List Cursor}

theorem mono (h : StaysWithin text more step) (hle : least ≤ more) :
    StaysWithin text least step := by
  intro x y hy
  obtain ⟨hfar, hwithin⟩ := h x y hy
  exact ⟨by omega, hwithin⟩

theorem here : StaysWithin text 0 fun x => [x] := by
  intro x y hy
  obtain rfl := List.mem_singleton.mp hy
  exact ⟨by omega, .inl rfl⟩

theorem followedBy (h : StaysWithin text least step) (hnext : StaysWithin text more next) :
    StaysWithin text (least + more) fun x => (step x).flatMap next := by
  intro x z hz
  obtain ⟨y, hy, hz⟩ := List.mem_flatMap.mp hz
  obtain ⟨hfar, hwithin⟩ := h x y hy
  obtain ⟨hfar', hwithin'⟩ := hnext y z hz
  exact ⟨by omega, by omega⟩

theorem orElse (h : StaysWithin text least step) (hnext : StaysWithin text least next) :
    StaysWithin text least fun x => step x ++ next x := by
  intro x y hy
  rcases List.mem_append.mp hy with hy | hy
  · exact h x y hy
  · exact hnext x y hy

theorem times (h : StaysWithin text least step) (n : Nat) :
    StaysWithin text (n * least) (times step n) := by
  induction n with
  | zero => simpa [Pattern.times] using here
  | succ n ih =>
    have hstep := h.followedBy ih
    rwa [Nat.add_comm, ← Nat.succ_mul] at hstep

theorem upTo (h : StaysWithin text 0 step) (greedy : Bool) (n : Nat) :
    StaysWithin text 0 (upTo step greedy n) := by
  induction n with
  | zero => simpa [Pattern.upTo] using here
  | succ n ih =>
    have hround := h.followedBy ih
    cases greedy with
    | true => exact hround.orElse here
    | false => exact here.orElse hround

end StaysWithin

namespace Expr

/-- A match goes on to places of the text, and passes a character if the expression consumes. -/
theorem staysWithin_outcomes (text : Array Char) (e : Expr) :
    StaysWithin text e.consumes.toNat (e.outcomes text) := by
  induction e with
  | empty => exact .here
  | chars set =>
    intro x y hy
    simp only [outcomes] at hy
    split at hy
    · rename_i c hc
      split at hy
      · obtain rfl := List.mem_singleton.mp hy
        have hlt := (Array.getElem?_eq_some_iff.mp hc).1
        have hone := Bool.toNat_le (chars set).consumes
        simp only [Cursor.pass_place]
        omega
      · cases hy
    · cases hy
  | look a =>
    intro x y hy
    simp only [outcomes] at hy
    split at hy
    · exact StaysWithin.here x y hy
    · cases hy
  | group index e ih =>
    intro x y hy
    obtain ⟨z, hz, rfl⟩ := List.mem_map.mp hy
    exact ih (x.save (2 * index)) z hz
  | seq e f ihe ihf =>
    refine (ihe.followedBy ihf).mono ?_
    simp only [consumes]
    cases e.consumes <;> cases f.consumes <;> decide
  | alt e f ihe ihf =>
    refine (ihe.mono ?_).orElse (ihf.mono ?_) <;> simp only [consumes] <;>
      cases e.consumes <;> cases f.consumes <;> decide
  | rounds least most greedy e ih =>
    have hless (n : Nat) : StaysWithin text 0 (upTo (e.outcomes text) greedy n) :=
      (ih.mono (Nat.zero_le _)).upTo greedy n
    have hfloor : (rounds least most greedy e).consumes.toNat ≤ least * e.consumes.toNat + 0 := by
      simp only [consumes]
      cases e.consumes with
      | true => cases least <;> simp
      | false => simp
    cases most with
    | some most => exact ((ih.times least).followedBy (hless _)).mono hfloor
    | none =>
      refine StaysWithin.mono ((ih.times least).followedBy fun y z hz => ?_) hfloor
      exact hless _ y z hz

/-- Nothing but a character can be consumed, so nothing is at the end of a text. -/
theorem outcomes_eq_nil_of_consumes {text : Array Char} {e : Expr} (h : e.consumes = true)
    {x : Cursor} (hx : text.size ≤ x.place) : e.outcomes text x = [] := by
  rw [List.eq_nil_iff_forall_not_mem]
  intro y hy
  obtain ⟨hfar, hwithin⟩ := e.staysWithin_outcomes text x y hy
  rw [h] at hfar
  simp only [Bool.toNat_true] at hfar
  omega

end Expr

end Pattern

end StyleEngine
