import Mathlib.Data.List.Forall2
import StyleEngine.Proofs.Pattern.Outcomes

/-! # Trying branches

A matcher tries branches in order of preference, and no pair of an instruction and a place
twice.  What it would find without its marks is said by a relation (`Runs`): the first branch
counts that comes to be accepted, each followed to its end before the next one is tried.  A
branch that has a run at all has a finite one, which never comes back to a pair it has come
by.  So a pair that is marked has either failed or takes longer than what is run below it
(`Sound`), and the search with marks finds the same (`Runs.finds`, `Runs.givesUp`).

Marks are kept from one start to the next one, where all of them stand for failures
(`Settled`).  The leftmost start with an accepted branch is therefore the one that is found
(`find?_eq_findSome?`).
-/
namespace StyleEngine

namespace Pattern

namespace Branch

/-- The slots that a branch is accepted with, if its instruction accepts. -/
def accepted? (code : Array Inst) (b : Branch) : Option Slots :=
  match code[b.inst]? with
  | some .accept => some (b.slots.setIfInBounds 1 (some b.place))
  | _ => none

/-- The branches that a branch goes on with, in order of preference. -/
def next (code : Array Inst) (text : Array Char) (b : Branch) : List Branch :=
  match code[b.inst]? with
  | some (.chars set next) =>
    match text[b.place]? with
    | some c => if set.mem c then [{ b with inst := next, place := b.place + 1 }] else []
    | none => []
  | some (.look a next) => if a.holdsAt text b.place then [{ b with inst := next }] else []
  | some (.save slot next) =>
    [{ b with inst := next, slots := b.slots.setIfInBounds slot (some b.place) }]
  | some (.split first second) => [{ b with inst := first }, { b with inst := second }]
  | _ => []

/-- The number of the pair of a branch's instruction and place. -/
def mark (text : Array Char) (b : Branch) : Nat := b.inst * (text.size + 1) + b.place

/-- Whether two branches are at the same instruction and place. -/
structure SameSpot (b c : Branch) : Prop where
  inst : b.inst = c.inst
  place : b.place = c.place

end Branch

variable {code : Array Inst} {text : Array Char} {b c : Branch} {bs cs rest : List Branch}
  {n m : Nat} {r : Option Slots} {s : Slots} {tried : Array Bool}

/-- Trying branches without marks, with the number of branches that had to be followed: the
slots of the first one that comes to be accepted. -/
inductive Runs (code : Array Inst) (text : Array Char) : Nat → List Branch → Option Slots → Prop
  | exhausted : Runs code text 0 [] none
  | accept (b : Branch) (bs : List Branch) (s : Slots) (h : b.accepted? code = some s) :
      Runs code text 0 (b :: bs) (some s)
  | descend (n : Nat) (b : Branch) (bs : List Branch) (s : Slots)
      (h : b.accepted? code = none) (hnext : Runs code text n (b.next code text) (some s)) :
      Runs code text (n + 1) (b :: bs) (some s)
  | backtrack (n m : Nat) (b : Branch) (bs : List Branch) (r : Option Slots)
      (h : b.accepted? code = none) (hnext : Runs code text n (b.next code text) none)
      (hrest : Runs code text m bs r) : Runs code text (n + m + 1) (b :: bs) r

/-- Whether trying branches comes to an end with some result. -/
def Leads (code : Array Inst) (text : Array Char) (bs : List Branch) (r : Option Slots) : Prop :=
  ∃ n, Runs code text n bs r

/-! ## Runs of branches -/

theorem Runs.unique {n' : Nat} {r' : Option Slots} (h : Runs code text n bs r)
    (h' : Runs code text n' bs r') : n = n' ∧ r = r' := by
  induction h generalizing n' r' with
  | exhausted =>
    cases h'
    exact ⟨rfl, rfl⟩
  | accept b bs s hacc =>
    cases h' with
    | accept _ _ s' hacc' => exact ⟨rfl, hacc.symm.trans hacc'⟩
    | descend n' _ _ s' hacc' => simp [hacc] at hacc'
    | backtrack n' m' _ _ r' hacc' => simp [hacc] at hacc'
  | descend n b bs s hacc _ ih =>
    cases h' with
    | accept _ _ s' hacc' => simp [hacc] at hacc'
    | descend n' _ _ s' _ hnext' =>
      obtain ⟨rfl, hs⟩ := ih hnext'
      exact ⟨rfl, hs⟩
    | backtrack n' m' _ _ r' _ hnext' => cases (ih hnext').2
  | backtrack n m b bs r hacc _ _ ihnext ihrest =>
    cases h' with
    | accept _ _ s' hacc' => simp [hacc] at hacc'
    | descend n' _ _ s' _ hnext' => cases (ihnext hnext').2
    | backtrack n' m' _ _ r' _ hnext' hrest' =>
      obtain ⟨rfl, -⟩ := ihnext hnext'
      obtain ⟨rfl, hr⟩ := ihrest hrest'
      exact ⟨rfl, hr⟩

theorem Branch.SameSpot.isSome_accepted? (h : b.SameSpot c) :
    (b.accepted? code).isSome = (c.accepted? code).isSome := by
  simp only [accepted?, h.inst]
  split <;> rfl

theorem Branch.SameSpot.next (h : b.SameSpot c) :
    List.Forall₂ SameSpot (b.next code text) (c.next code text) := by
  simp only [Branch.next, h.inst, h.place]
  split
  · split
    · split
      · exact .cons ⟨rfl, rfl⟩ .nil
      · exact .nil
    · exact .nil
  · split
    · exact .cons ⟨rfl, rfl⟩ .nil
    · exact .nil
  · exact .cons ⟨rfl, rfl⟩ .nil
  · exact .cons ⟨rfl, rfl⟩ (.cons ⟨rfl, rfl⟩ .nil)
  · exact .nil

/-- What the groups have noted has no part in how branches run. -/
theorem Runs.sameSpots (h : Runs code text n bs r) (hsame : List.Forall₂ Branch.SameSpot bs cs) :
    ∃ r', Runs code text n cs r' ∧ r'.isSome = r.isSome := by
  induction h generalizing cs with
  | exhausted =>
    cases hsame
    exact ⟨none, .exhausted, rfl⟩
  | accept b bs s hacc =>
    cases hsame with
    | @cons _ c _ cs hb _ =>
      have hsome : (b.accepted? code).isSome = _ := hb.isSome_accepted?
      rw [hacc, Option.isSome_some] at hsome
      obtain ⟨s', hs'⟩ := Option.isSome_iff_exists.mp hsome.symm
      exact ⟨some s', .accept c cs s' hs', rfl⟩
  | descend n b bs s hacc _ ih =>
    cases hsame with
    | @cons _ c _ cs hb _ =>
      have hnone : (b.accepted? code).isSome = _ := hb.isSome_accepted?
      rw [hacc, Option.isSome_none] at hnone
      obtain ⟨r', hr', hsome⟩ := ih hb.next
      obtain ⟨s', rfl⟩ := Option.isSome_iff_exists.mp hsome
      exact ⟨some s', .descend n c cs s' (by simpa using hnone.symm) hr', rfl⟩
  | backtrack n m b bs r hacc _ _ ihnext ihrest =>
    cases hsame with
    | @cons _ c _ cs hb hbs =>
      have hnone : (b.accepted? code).isSome = _ := hb.isSome_accepted?
      rw [hacc, Option.isSome_none] at hnone
      obtain ⟨r', hr', hfails⟩ := ihnext hb.next
      obtain rfl : r' = none := by simpa using hfails
      obtain ⟨r', hrest, hsome⟩ := ihrest hbs
      exact ⟨r', .backtrack n m c cs r' (by simpa using hnone.symm) hr' hrest, hsome⟩

/-- Branches that lie at one pair both fail or both lead to acceptance, in runs of one length. -/
theorem Runs.sameSpot (h : Runs code text n [b] r) (hsame : b.SameSpot c) :
    ∃ r', Runs code text n [c] r' ∧ r'.isSome = r.isSome :=
  h.sameSpots (.cons hsame .nil)

/-- Branches that come first and fail leave it to the others. -/
theorem Runs.append_of_none (h : Runs code text n bs none) (hcs : Runs code text m cs r) :
    Runs code text (n + m) (bs ++ cs) r := by
  generalize hr : (none : Option Slots) = r' at h
  induction h with
  | exhausted => simpa using hcs
  | accept b bs s hacc => cases hr
  | descend n b bs s hacc _ _ => cases hr
  | backtrack n k b bs r' hacc hnext _ _ ih =>
    rw [show n + k + 1 + m = n + (k + m) + 1 by omega]
    exact .backtrack n (k + m) b (bs ++ cs) r hacc hnext (ih hr)

theorem Runs.append_of_some (h : Runs code text n bs (some s)) (cs : List Branch) :
    Runs code text n (bs ++ cs) (some s) := by
  generalize hr : some s = r at h
  induction h with
  | exhausted => cases hr
  | accept b bs s' hacc =>
    obtain rfl := Option.some.inj hr
    exact .accept b (bs ++ cs) s hacc
  | descend n b bs s' hacc hnext _ =>
    obtain rfl := Option.some.inj hr
    exact .descend n b (bs ++ cs) s hacc hnext
  | backtrack n m b bs r hacc hnext _ _ ih =>
    exact .backtrack n m b (bs ++ cs) _ hacc hnext (ih hr)

/-! ## Marks -/

/-- Whether every run from a branch fails. -/
def Branch.Fails (code : Array Inst) (text : Array Char) (b : Branch) : Prop :=
  Leads code text [b] none

theorem Branch.Fails.sameSpot (h : b.Fails code text) (hsame : b.SameSpot c) :
    c.Fails code text := by
  obtain ⟨n, hn⟩ := h
  obtain ⟨r, hr, hsome⟩ := hn.sameSpot hsame
  obtain rfl : r = none := by simpa using hsome
  exact ⟨n, hr⟩

theorem Branch.Fails.of_next (hacc : b.accepted? code = none)
    (hnext : Runs code text n (b.next code text) none) : b.Fails code text :=
  ⟨n + 0 + 1, .backtrack n 0 b [] none hacc hnext .exhausted⟩

/-- Whether a branch's pair is marked, or lies outside the marks. -/
def Branch.IsMarked (text : Array Char) (tried : Array Bool) (b : Branch) : Prop :=
  tried.getD (b.mark text) true = true

/-- Whether a marked pair has failed, or takes longer than `n` branches. -/
def Sound (code : Array Inst) (text : Array Char) (n : Nat) (tried : Array Bool) : Prop :=
  ∀ b : Branch, b.place ≤ text.size → b.IsMarked text tried →
    b.Fails code text ∨ ∀ k r, Runs code text k [b] r → n < k

/-- Whether every marked pair has failed. -/
def Settled (code : Array Inst) (text : Array Char) (tried : Array Bool) : Prop :=
  ∀ b : Branch, b.place ≤ text.size → b.IsMarked text tried → b.Fails code text

theorem Settled.sound (h : Settled code text tried) (n : Nat) : Sound code text n tried :=
  fun b hplace hmarked => .inl (h b hplace hmarked)

theorem Sound.mono (h : Sound code text n tried) (hle : m ≤ n) : Sound code text m tried := by
  intro b hplace hmarked
  rcases h b hplace hmarked with hfails | hlong
  · exact .inl hfails
  · exact .inr fun k r hk => Nat.lt_of_le_of_lt hle (hlong k r hk)

/-- Different pairs have different numbers. -/
theorem Branch.sameSpot_of_mark_eq (hb : b.place ≤ text.size) (hc : c.place ≤ text.size)
    (h : b.mark text = c.mark text) : b.SameSpot c := by
  simp only [mark] at h
  have hplace : b.place = c.place := by
    have hmod := congrArg (· % (text.size + 1)) h
    simpa [Nat.mul_add_mod_self_right, Nat.mod_eq_of_lt (Nat.lt_succ_of_le hb),
      Nat.mod_eq_of_lt (Nat.lt_succ_of_le hc)] using hmod
  rw [hplace] at h
  exact ⟨Nat.eq_of_mul_eq_mul_right (Nat.succ_pos _) (Nat.add_right_cancel h), hplace⟩

/-- The marks together with one for a branch. -/
def withMark (text : Array Char) (tried : Array Bool) (b : Branch) : Array Bool :=
  tried.setIfInBounds (b.mark text) true

theorem lt_size_of_not_isMarked (h : ¬ b.IsMarked text tried) : b.mark text < tried.size := by
  by_contra hge
  rw [Branch.IsMarked, Array.getD_eq_getD_getElem?,
    Array.getElem?_eq_none (Nat.not_lt.mp hge)] at h
  simp at h

theorem isMarked_withMark (hb : b.place ≤ text.size) (hc : c.place ≤ text.size)
    (h : c.IsMarked text (withMark text tried b)) : c.IsMarked text tried ∨ b.SameSpot c := by
  by_cases hmark : b.mark text = c.mark text
  · exact .inr (Branch.sameSpot_of_mark_eq hb hc hmark)
  · left
    rw [Branch.IsMarked, withMark, Array.getD_eq_getD_getElem?,
      Array.getElem?_setIfInBounds_ne hmark, ← Array.getD_eq_getD_getElem?] at h
    exact h

/-- A pair that is being followed takes longer than what is run below it. -/
theorem Sound.withMark (h : Sound code text (n + 1) tried) (hb : b.place ≤ text.size)
    (hrun : Runs code text (n + 1) [b] r) :
    Sound code text n (withMark text tried b) := by
  intro c hc hmarked
  rcases isMarked_withMark hb hc hmarked with hmarked | hsame
  · exact h.mono (Nat.le_succ n) c hc hmarked
  · right
    intro k r' hk
    obtain ⟨r'', hr'', -⟩ := hrun.sameSpot hsame
    rw [(hk.unique hr'').1]
    exact Nat.lt_succ_self n

/-- Whether every mark is one of those before or stands for a failure. -/
def AddsFailures (code : Array Inst) (text : Array Char) (tried tried' : Array Bool) : Prop :=
  ∀ c : Branch, c.place ≤ text.size → c.IsMarked text tried' →
    c.IsMarked text tried ∨ c.Fails code text

theorem AddsFailures.trans {tried₁ tried₂ : Array Bool} (h : AddsFailures code text tried tried₁)
    (h' : AddsFailures code text tried₁ tried₂) : AddsFailures code text tried tried₂ := by
  intro c hc hmarked
  rcases h' c hc hmarked with hmarked | hfails
  · exact h c hc hmarked
  · exact .inr hfails

theorem addsFailures_withMark (hb : b.place ≤ text.size) (hfails : b.Fails code text) :
    AddsFailures code text tried (withMark text tried b) := by
  intro c hc hmarked
  rcases isMarked_withMark hb hc hmarked with hmarked | hsame
  · exact .inl hmarked
  · exact .inr (hfails.sameSpot hsame)

theorem AddsFailures.sound {tried' : Array Bool} (h : AddsFailures code text tried tried')
    (hsound : Sound code text n tried) : Sound code text n tried' := by
  intro c hc hmarked
  rcases h c hc hmarked with hmarked | hfails
  · exact hsound c hc hmarked
  · exact .inl hfails

theorem AddsFailures.settled {tried' : Array Bool} (h : AddsFailures code text tried tried')
    (hsettled : Settled code text tried) : Settled code text tried' := by
  intro c hc hmarked
  rcases h c hc hmarked with hmarked | hfails
  · exact hsettled c hc hmarked
  · exact hfails

/-! ## The search with marks -/

/-- The number of turns that are left at most: two for each pair that is not marked, and one
for each branch. -/
def turnsLeft (tried : Array Bool) (bs : List Branch) : Nat := 2 * tried.count false + bs.length

theorem length_next_le (b : Branch) : (b.next code text).length ≤ 2 := by
  simp only [Branch.next]
  split
  · split
    · split <;> simp
    · simp
  · split <;> simp
  · simp
  · simp
  · simp

theorem next_place_le (hb : b.place ≤ text.size) : ∀ c ∈ b.next code text, c.place ≤ text.size := by
  intro c hc
  simp only [Branch.next] at hc
  split at hc
  · split at hc
    · rename_i hplace
      split at hc
      · obtain rfl := List.mem_singleton.mp hc
        exact (Array.getElem?_eq_some_iff.mp hplace).1
      · cases hc
    · cases hc
  · split at hc
    · obtain rfl := List.mem_singleton.mp hc
      exact hb
    · cases hc
  · obtain rfl := List.mem_singleton.mp hc
    exact hb
  · rcases List.mem_pair.mp hc with rfl | rfl
    · exact hb
    · exact hb
  · cases hc

theorem count_withMark (h : ¬ b.IsMarked text tried) :
    (withMark text tried b).count false + 1 = tried.count false := by
  have hlt := lt_size_of_not_isMarked h
  have hfalse : tried[b.mark text] = false := by
    rw [Branch.IsMarked, Array.getD_eq_getD_getElem?, Array.getElem?_eq_getElem hlt] at h
    simpa using h
  have hpos : 0 < tried.count false :=
    Array.count_pos_iff.mpr (hfalse ▸ Array.getElem_mem hlt)
  rw [withMark, Array.setIfInBounds_def, dif_pos hlt, Array.count_set, hfalse]
  simp only [BEq.rfl, if_true]
  simp
  omega

theorem tryBranches_of_isMarked (fuel : Nat) (h : b.IsMarked text tried) :
    tryBranches code text (fuel + 1) (b :: rest) tried = tryBranches code text fuel rest tried := by
  rw [tryBranches]
  exact if_pos h

theorem tryBranches_of_accepted (fuel : Nat) (h : ¬ b.IsMarked text tried)
    (hacc : b.accepted? code = some s) :
    (tryBranches code text (fuel + 1) (b :: rest) tried).1 = some s := by
  have hmarked : ¬ tried.getD (b.inst * (text.size + 1) + b.place) true = true := h
  rw [tryBranches, if_neg hmarked]
  simp only [Branch.accepted?] at hacc
  split at hacc
  · rename_i hinst
    simp only [hinst]
    exact hacc
  · cases hacc

/-- A branch that is neither marked nor accepted leaves its mark, and what it goes on with. -/
theorem tryBranches_of_not_accepted (fuel : Nat) (h : ¬ b.IsMarked text tried)
    (hacc : b.accepted? code = none) :
    tryBranches code text (fuel + 1) (b :: rest) tried =
      tryBranches code text fuel (b.next code text ++ rest) (withMark text tried b) := by
  have hmarked : ¬ tried.getD (b.inst * (text.size + 1) + b.place) true = true := h
  rw [tryBranches, if_neg hmarked]
  simp only [Branch.accepted?] at hacc
  simp only [Branch.next, withMark, Branch.mark]
  cases hinst : code[b.inst]? with
  | none => rfl
  | some i =>
    rw [hinst] at hacc
    cases i with
    | chars set next =>
      cases hplace : text[b.place]? with
      | none => simp
      | some c =>
        cases hmem : set.mem c <;> simp [hmem]
    | look a next =>
      cases hholds : a.holdsAt text b.place <;> simp [hholds]
    | save slot next => rfl
    | split first second => rfl
    | accept => cases hacc
    | fail => rfl

/-- What the search does with branches that fail: it gives them up, whatever follows them, and
leaves marks for pairs that have failed. -/
structure GivesUp (code : Array Inst) (text : Array Char) (bs : List Branch)
    (tried tried' : Array Bool) : Prop where
  size : tried'.size = tried.size
  passes : ∀ fuel rest, turnsLeft tried (bs ++ rest) < fuel →
    ∃ fuel', turnsLeft tried' rest < fuel' ∧
      tryBranches code text fuel (bs ++ rest) tried = tryBranches code text fuel' rest tried'
  failed : AddsFailures code text tried tried'

/-- A branch that fails and is marked is passed over. -/
theorem GivesUp.cons_of_isMarked {tried' : Array Bool} (h : GivesUp code text bs tried tried')
    (hmarked : b.IsMarked text tried) : GivesUp code text (b :: bs) tried tried' where
  size := h.size
  passes := by
    intro fuel rest hfuel
    obtain ⟨fuel, rfl⟩ : ∃ k, fuel = k + 1 := Nat.exists_eq_succ_of_ne_zero (by omega)
    rw [List.cons_append, tryBranches_of_isMarked fuel hmarked]
    refine h.passes fuel rest ?_
    simp only [turnsLeft, List.cons_append, List.length_cons] at hfuel ⊢
    omega
  failed := h.failed

/-- A branch that fails and is not marked is followed, and then the others are tried. -/
theorem GivesUp.cons {tried₁ tried₂ : Array Bool} (hb : b.place ≤ text.size)
    (hmarked : ¬ b.IsMarked text tried) (hacc : b.accepted? code = none)
    (hfails : b.Fails code text)
    (hnext : GivesUp code text (b.next code text) (withMark text tried b) tried₁)
    (hrest : GivesUp code text bs tried₁ tried₂) :
    GivesUp code text (b :: bs) tried tried₂ where
  size := by
    rw [hrest.size, hnext.size, withMark, Array.size_setIfInBounds]
  passes := by
    intro fuel rest hfuel
    obtain ⟨fuel, rfl⟩ : ∃ k, fuel = k + 1 := Nat.exists_eq_succ_of_ne_zero (by omega)
    have hcount := count_withMark hmarked
    have hlength : (b.next code text).length ≤ 2 := length_next_le b
    obtain ⟨fuel₁, hfuel₁, heq₁⟩ := hnext.passes fuel (bs ++ rest) (by
      simp only [turnsLeft, List.cons_append, List.length_cons, List.length_append] at hfuel ⊢
      omega)
    obtain ⟨fuel₂, hfuel₂, heq₂⟩ := hrest.passes fuel₁ rest hfuel₁
    refine ⟨fuel₂, hfuel₂, ?_⟩
    rw [List.cons_append, tryBranches_of_not_accepted fuel hmarked hacc, heq₁, heq₂]
  failed := ((addsFailures_withMark hb hfails).trans hnext.failed).trans hrest.failed

/-- A branch that is about to be followed to an acceptance is not marked. -/
theorem Sound.not_isMarked (h : Sound code text n tried) (hb : b.place ≤ text.size)
    (hrun : Runs code text n [b] (some s)) : ¬ b.IsMarked text tried := by
  intro hmarked
  rcases h b hb hmarked with ⟨k, hk⟩ | hlong
  · cases (hk.unique hrun).2
  · exact absurd (hlong n _ hrun) (Nat.lt_irrefl n)

/-- Branches that fail without marks are given up by the search with marks. -/
theorem Runs.givesUp (h : Runs code text n bs none) (hplace : ∀ b ∈ bs, b.place ≤ text.size)
    (hsound : Sound code text n tried) : ∃ tried', GivesUp code text bs tried tried' := by
  generalize hr : (none : Option Slots) = r at h
  induction h generalizing tried with
  | exhausted => exact ⟨tried, rfl, fun fuel rest hfuel => ⟨fuel, hfuel, rfl⟩, fun c _ => .inl⟩
  | accept b bs s hacc => cases hr
  | descend n b bs s hacc _ _ => cases hr
  | backtrack n m b bs r hacc hnext hrest ihnext ihrest =>
    subst hr
    obtain ⟨hb, hbs⟩ := List.forall_mem_cons.mp hplace
    by_cases hmarked : b.IsMarked text tried
    · obtain ⟨tried', h'⟩ := ihrest hbs (hsound.mono (by omega)) rfl
      exact ⟨tried', h'.cons_of_isMarked hmarked⟩
    · have hrun : Runs code text (n + 1) [b] none :=
        .backtrack n 0 b [] none hacc hnext .exhausted
      -- while the branch is followed, its mark is one of a pair that takes longer
      obtain ⟨tried₁, h₁⟩ :=
        ihnext (next_place_le hb) ((hsound.mono (by omega)).withMark hb hrun) rfl
      -- from then on it is one of a pair that has failed
      have hfails : b.Fails code text := .of_next hacc hnext
      have hadded := (addsFailures_withMark hb hfails).trans h₁.failed
      obtain ⟨tried₂, h₂⟩ := ihrest hbs (hadded.sound (hsound.mono (by omega))) rfl
      exact ⟨tried₂, .cons hb hmarked hacc hfails h₁ h₂⟩

/-- Branches of which one is accepted without marks are tried with marks to the same end. -/
theorem Runs.finds (h : Runs code text n bs (some s)) (hplace : ∀ b ∈ bs, b.place ≤ text.size)
    (hsound : Sound code text n tried) {fuel : Nat} (rest : List Branch)
    (hfuel : turnsLeft tried (bs ++ rest) < fuel) :
    (tryBranches code text fuel (bs ++ rest) tried).1 = some s := by
  generalize hr : some s = r at h
  induction h generalizing tried fuel rest with
  | exhausted => cases hr
  | accept b bs s' hacc =>
    obtain rfl := Option.some.inj hr
    obtain ⟨hb, -⟩ := List.forall_mem_cons.mp hplace
    obtain ⟨fuel, rfl⟩ : ∃ k, fuel = k + 1 := Nat.exists_eq_succ_of_ne_zero (by omega)
    exact tryBranches_of_accepted fuel (hsound.not_isMarked hb (.accept b [] s hacc)) hacc
  | descend n b bs s' hacc hnext ih =>
    obtain rfl := Option.some.inj hr
    obtain ⟨hb, -⟩ := List.forall_mem_cons.mp hplace
    obtain ⟨fuel, rfl⟩ : ∃ k, fuel = k + 1 := Nat.exists_eq_succ_of_ne_zero (by omega)
    have hrun : Runs code text (n + 1) [b] (some s) := .descend n b [] s hacc hnext
    have hmarked := hsound.not_isMarked hb hrun
    have hcount := count_withMark hmarked
    have hlength : (b.next code text).length ≤ 2 := length_next_le b
    -- the other branches are never come to, so they may go with what follows
    rw [List.cons_append, tryBranches_of_not_accepted fuel hmarked hacc]
    refine ih (next_place_le hb) (hsound.withMark hb hrun) (bs ++ rest) ?_ rfl
    simp only [turnsLeft, List.cons_append, List.length_cons, List.length_append] at hfuel ⊢
    omega
  | backtrack n m b bs r hacc hnext hrest _ ihrest =>
    subst hr
    obtain ⟨hb, hbs⟩ := List.forall_mem_cons.mp hplace
    have hfails : Runs code text (n + 1) [b] none :=
      .backtrack n 0 b [] none hacc hnext .exhausted
    have hsound' : Sound code text (n + 1) tried := hsound.mono (by omega)
    obtain ⟨tried', h'⟩ := hfails.givesUp (by simpa using hb) hsound'
    obtain ⟨fuel', hfuel', heq⟩ := h'.passes fuel (bs ++ rest) hfuel
    rw [List.cons_append, ← List.singleton_append, heq]
    exact ihrest hbs (h'.failed.sound (hsound.mono (by omega))) rest hfuel' rfl

/-! ## The leftmost start -/

/-- The branch that a match is started with at a place. -/
def entry (p : Pattern) (i : Nat) : Branch :=
  ⟨p.start, i, (Array.replicate (2 * p.groups + 2) none).setIfInBounds 0 (some i)⟩

/-- No mark at all is one for failures only: what lies outside the marks fails. -/
theorem settled_replicate (code : Array Inst) (text : Array Char) :
    Settled code text (Array.replicate (code.size * (text.size + 1)) false) := by
  intro b hb hmarked
  have hout : code.size * (text.size + 1) ≤ b.mark text := by
    by_contra hlt
    rw [Branch.IsMarked, Array.getD_eq_getD_getElem?,
      Array.getElem?_eq_getElem (by simpa using Nat.not_le.mp hlt)] at hmarked
    simp at hmarked
  have hinst : code.size ≤ b.inst := by
    by_contra hlt
    have hle := Nat.mul_le_mul_right (text.size + 1) (Nat.succ_le_of_lt (Nat.not_le.mp hlt))
    rw [Nat.succ_mul] at hle
    simp only [Branch.mark] at hout
    omega
  have hnone : code[b.inst]? = none := Array.getElem?_eq_none hinst
  have hnext : b.next code text = [] := by simp [Branch.next, hnone]
  exact .of_next (n := 0) (by simp [Branch.accepted?, hnone]) (hnext ▸ .exhausted)

variable {p : Pattern} {found : Nat → Option Slots}

/-- From one start on the search finds what its branch leads to; if that is nothing, all marks
still stand for failures. -/
theorem tryBranches_entry (hsettled : Settled p.code text tried)
    (hsize : tried.size = p.code.size * (text.size + 1)) {i : Nat} (hi : i ≤ text.size)
    (hfound : Leads p.code text [p.entry i] r) {fuel : Nat}
    (hfuel : 2 * p.code.size * (text.size + 1) + 1 < fuel) :
    ∃ tried', tryBranches p.code text fuel [p.entry i] tried = (r, tried') ∧
      (r = none → Settled p.code text tried' ∧ tried'.size = tried.size) := by
  obtain ⟨n, hn⟩ := hfound
  have hplace : ∀ b ∈ [p.entry i], b.place ≤ text.size := by simpa [entry] using hi
  have hturns : turnsLeft tried ([p.entry i] ++ []) < fuel := by
    have hcount := tried.count_le_size (a := false)
    rw [hsize] at hcount
    rw [Nat.mul_assoc] at hfuel
    simp only [turnsLeft, List.append_nil, List.length_singleton]
    omega
  cases r with
  | some s =>
    have hfinds := hn.finds hplace (hsettled.sound n) [] hturns
    exact ⟨_, Prod.ext hfinds rfl, by simp⟩
  | none =>
    obtain ⟨tried', h'⟩ := hn.givesUp hplace (hsettled.sound n)
    obtain ⟨fuel', hfuel', heq⟩ := h'.passes fuel [] hturns
    obtain ⟨fuel', rfl⟩ : ∃ k, fuel' = k + 1 := Nat.exists_eq_succ_of_ne_zero (by omega)
    refine ⟨tried', ?_, fun _ => ⟨h'.failed.settled hsettled, h'.size⟩⟩
    rw [List.append_nil] at heq
    rw [heq, tryBranches]

theorem searchFrom_eq_findSome? (hfound : ∀ i ≤ text.size, Leads p.code text [p.entry i] (found i))
    {count i : Nat} (hcount : i + count ≤ text.size + 1) (hsettled : Settled p.code text tried)
    (hsize : tried.size = p.code.size * (text.size + 1)) :
    p.searchFrom text count i tried = ((List.range' i count).findSome? found).map p.captures := by
  induction count generalizing i tried with
  | zero => rfl
  | succ count ih =>
    obtain ⟨tried', htry, hnone⟩ := tryBranches_entry hsettled hsize (by omega)
      (hfound i (by omega)) (Nat.lt_succ_self _)
    rw [searchFrom, List.range'_succ, List.findSome?_cons]
    have hentry : p.entry i = ⟨p.start, i,
      (Array.replicate (2 * p.groups + 2) none).setIfInBounds 0 (some i)⟩ := rfl
    rw [← hentry, htry]
    cases hi : found i with
    | some s => rfl
    | none =>
      obtain ⟨hsettled', hsize'⟩ := hnone hi
      exact ih (by omega) hsettled' (hsize'.trans hsize)

/-- The leftmost place counts from which a branch comes to be accepted. -/
theorem find?_eq_findSome? (hfound : ∀ i ≤ text.size, Leads p.code text [p.entry i] (found i))
    (i : Nat) : p.find? text i =
      ((List.range' i (text.size + 1 - i)).findSome? found).map p.captures := by
  rw [find?]
  by_cases hi : i ≤ text.size
  · rw [if_pos hi]
    exact searchFrom_eq_findSome? hfound (by omega) (settled_replicate _ _) (by simp)
  · rw [if_neg hi, Nat.sub_eq_zero_of_le (by omega)]
    rfl

end Pattern

end StyleEngine
