import StyleEngine.TextModel

/-! # What directives switch off

A line of a text carries a directive if one can be read on it.  A directive is aimed
at its own line, the next one or the whole file, and a rule is switched off on a
line exactly where a directive for the rule, or for every rule, is aimed at the line
or the file, whether there is such a line or not (`TextModel.suppression_law`).  Of
the reasons for one name and one target the last in the text counts.
-/
namespace StyleEngine

/-- The last value that a function has on a list stands at a place behind which it has none. -/
theorem getLast?_filterMap_eq_some_iff {α β : Type} {f : α → Option β} {l : List α} {b : β} :
    (l.filterMap f).getLast? = some b ↔
      ∃ (i : Nat) (a : α), l[i]? = some a ∧ f a = some b ∧
        ∀ (j : Nat) (a' : α), i < j → l[j]? = some a' → f a' = none := by
  rw [List.getLast?_filterMap, List.findSome?_eq_some_iff]
  constructor
  · rintro ⟨after, a, before, hsplit, hb, hafter⟩
    have hl : l = before.reverse ++ a :: after.reverse := by
      rw [← List.reverse_reverse l, hsplit]
      simp
    refine ⟨before.reverse.length, a, by simp [hl], hb, ?_⟩
    intro j a' hj ha'
    obtain ⟨i, rfl⟩ := Nat.exists_eq_add_of_lt hj
    rw [hl, List.getElem?_append_right (by omega)] at ha'
    have hmem : a' ∈ after.reverse := by
      refine List.mem_of_getElem? (i := i) ?_
      rw [← ha']
      simp [Nat.add_assoc]
    exact hafter a' (List.mem_reverse.mp hmem)
  · rintro ⟨i, a, ha, hb, hlater⟩
    obtain ⟨hi, rfl⟩ := List.getElem?_eq_some_iff.mp ha
    refine ⟨(l.drop (i + 1)).reverse, l[i], (l.take i).reverse, ?_, hb, ?_⟩
    · calc l.reverse = (l.take i ++ l[i] :: l.drop (i + 1)).reverse := by simp
        _ = (l.drop (i + 1)).reverse ++ l[i] :: (l.take i).reverse := by simp
    · intro a' ha'
      obtain ⟨j, hj⟩ := List.mem_iff_getElem?.mp (List.mem_reverse.mp ha')
      rw [List.getElem?_drop] at hj
      exact hlater (i + 1 + j) a' (by omega) hj

/-- Whether a directive on line `k` is aimed at a target. -/
def Directive.AimsAt (d : Directive) (k : Nat) : Target → Prop
  | .file => d.kind = .file
  | .line n => (d.kind = .nextLine ∧ k + 1 = n) ∨ (d.kind = .line ∧ k = n)

namespace Suppression

variable {k n : Nat} {d : Directive} {name : String} {target : Target}

@[simp] theorem rule_ofDirective (k : Nat) (d : Directive) : (ofDirective k d).rule = d.rule := rfl

theorem target_ofDirective_eq_iff : (ofDirective k d).target = target ↔ d.AimsAt k target := by
  cases target <;> cases hkind : d.kind <;> simp [ofDirective, Directive.AimsAt, hkind]

/-- Lines are read one by one, each under its number. -/
theorem ofLines_eq (n : Nat) (lines : List String) : ofLines n lines =
    (lines.zipIdx n).filterMap fun x => (Directive.read? x.1.toList).map (ofDirective x.2) := by
  induction lines generalizing n with
  | nil => rfl
  | cons l rest ih =>
    rw [ofLines, List.zipIdx_cons, ih]
    cases hread : Directive.read? l.toList with
    | none => simp [hread]
    | some d => simp [hread]

/-- The reason that a line gives for a name and a target. -/
def reasonOn? (name : String) (target : Target) (x : String × Nat) : Option String :=
  (Directive.read? x.1.toList).bind fun d =>
    if d.rule == name && (ofDirective x.2 d).target == target then d.reason else none

theorem reasonOn?_eq_some_iff {l reason : String} :
    reasonOn? name target (l, k) = some reason ↔
      ∃ d, Directive.read? l.toList = some d ∧ d.rule = name ∧ d.AimsAt k target ∧
        d.reason = some reason := by
  rw [reasonOn?, Option.bind_eq_some_iff]
  refine exists_congr fun d => and_congr_right fun _ => ?_
  simp [target_ofDirective_eq_iff, and_assoc]

theorem lastReason_ofLines (n : Nat) (lines : List String) (name : String) (target : Target) :
    lastReason (ofLines n lines) name target =
      ((lines.zipIdx n).filterMap (reasonOn? name target)).getLast? := by
  rw [lastReason, ofLines_eq, List.filterMap_filterMap]
  refine congrArg (fun f => ((lines.zipIdx n).filterMap f).getLast?) (funext fun x => ?_)
  rw [reasonOn?, Option.bind_map]
  rfl

end Suppression

namespace TextModel

open Suppression (everyRule lastReason reasonOn?)

/-- Whether a line of a model carries a directive. -/
def Carries (m : TextModel) (k : Nat) (d : Directive) : Prop :=
  ∃ l, m.line? k = some l ∧ Directive.read? l.toList = some d

/-- Whether a line gives a reason for a name and a target. -/
def GivesReason (m : TextModel) (name : String) (target : Target) (k : Nat) (reason : String) :
    Prop :=
  ∃ d, m.Carries k d ∧ d.rule = name ∧ d.AimsAt k target ∧ d.reason = some reason

/-- Whether a reason is the last one for a name and a target. -/
def IsLastReason (m : TextModel) (place : String × Target) (reason : String) : Prop :=
  ∃ k, m.GivesReason place.1 place.2 k reason ∧
    ∀ k' other, k < k' → ¬ m.GivesReason place.1 place.2 k' other

/-- The names and targets under which the reason for a rule on a line is looked for, in this
order. -/
def reasonPlaces (rule : String) (line : Nat) : List (String × Target) :=
  [(rule, .line line), (rule, .file), (everyRule, .line line), (everyRule, .file)]

variable {text name rule reason : String} {target : Target} {k line : Nat} {d : Directive}

theorem line?_ofText_eq_some_iff {l : String} : (ofText text).line? k = some l ↔
    ∃ i, (splitLines text)[i]? = some l ∧ k = 1 + i := by
  cases k with
  | zero =>
    refine iff_of_false nofun ?_
    rintro ⟨i, -, hi⟩
    omega
  | succ n =>
    constructor
    · intro h
      exact ⟨n, h, Nat.add_comm n 1⟩
    · rintro ⟨i, h, hi⟩
      obtain rfl : n = i := by omega
      exact h

/-- The numbered lines of a text are those that its model has under their numbers. -/
theorem getElem?_zipIdx_eq_some_iff {i : Nat} {l : String} :
    ((splitLines text).zipIdx 1)[i]? = some (l, k) ↔
      k = 1 + i ∧ (ofText text).line? k = some l := by
  rw [List.getElem?_zipIdx, Option.map_eq_some_iff]
  constructor
  · rintro ⟨l', hl, heq⟩
    obtain ⟨rfl, rfl⟩ := Prod.mk.inj heq
    exact ⟨rfl, line?_ofText_eq_some_iff.mpr ⟨i, hl, rfl⟩⟩
  · rintro ⟨rfl, hl⟩
    obtain ⟨j, hj, hij⟩ := line?_ofText_eq_some_iff.mp hl
    obtain rfl : i = j := by omega
    exact ⟨l, hj, rfl⟩

theorem mem_suppressions_iff {s : Suppression} : s ∈ (ofText text).suppressions ↔
    ∃ k d, (ofText text).Carries k d ∧ Suppression.ofDirective k d = s := by
  show s ∈ Suppression.ofLines 1 (splitLines text) ↔ _
  rw [Suppression.ofLines_eq, List.mem_filterMap]
  constructor
  · rintro ⟨⟨l, k⟩, hx, hs⟩
    obtain ⟨i, hi⟩ := List.mem_iff_getElem?.mp hx
    obtain ⟨d, hd, rfl⟩ := Option.map_eq_some_iff.mp hs
    exact ⟨k, d, ⟨l, (getElem?_zipIdx_eq_some_iff.mp hi).2, hd⟩, rfl⟩
  · rintro ⟨k, d, ⟨l, hl, hd⟩, rfl⟩
    obtain ⟨i, -, rfl⟩ := line?_ofText_eq_some_iff.mp hl
    refine ⟨(l, 1 + i), List.mem_of_getElem? (getElem?_zipIdx_eq_some_iff.mpr ⟨rfl, hl⟩), ?_⟩
    rw [hd, Option.map_some]

theorem givesReason_iff {i : Nat} : (ofText text).GivesReason name target (1 + i) reason ↔
    ∃ x, ((splitLines text).zipIdx 1)[i]? = some x ∧ reasonOn? name target x = some reason := by
  constructor
  · rintro ⟨d, ⟨l, hl, hd⟩, hreason⟩
    refine ⟨(l, 1 + i), getElem?_zipIdx_eq_some_iff.mpr ⟨rfl, hl⟩, ?_⟩
    exact Suppression.reasonOn?_eq_some_iff.mpr ⟨d, hd, hreason⟩
  · rintro ⟨⟨l, k⟩, hx, hreason⟩
    obtain ⟨rfl, hl⟩ := getElem?_zipIdx_eq_some_iff.mp hx
    obtain ⟨d, hd, hreason⟩ := Suppression.reasonOn?_eq_some_iff.mp hreason
    exact ⟨d, ⟨l, hl, hd⟩, hreason⟩

/-- A reason is given on a line only. -/
theorem exists_of_givesReason (h : (ofText text).GivesReason name target k reason) :
    ∃ i, k = 1 + i := by
  obtain ⟨d, ⟨l, hl, -⟩, -⟩ := h
  obtain ⟨i, -, hi⟩ := line?_ofText_eq_some_iff.mp hl
  exact ⟨i, hi⟩

theorem lastReason_eq_some_iff :
    lastReason (ofText text).suppressions name target = some reason ↔
      (ofText text).IsLastReason (name, target) reason := by
  show lastReason (Suppression.ofLines 1 (splitLines text)) name target = _ ↔ _
  rw [Suppression.lastReason_ofLines, getLast?_filterMap_eq_some_iff]
  constructor
  · rintro ⟨i, x, hx, hreason, hlater⟩
    refine ⟨1 + i, givesReason_iff.mpr ⟨x, hx, hreason⟩, fun k' other hk' hgives => ?_⟩
    obtain ⟨j, rfl⟩ := exists_of_givesReason hgives
    obtain ⟨y, hy, hother⟩ := givesReason_iff.mp hgives
    rw [hlater j y (by omega) hy] at hother
    cases hother
  · rintro ⟨k, hgives, hlater⟩
    obtain ⟨i, rfl⟩ := exists_of_givesReason hgives
    obtain ⟨x, hx, hreason⟩ := givesReason_iff.mp hgives
    refine ⟨i, x, hx, hreason, fun j y hj hy => Option.eq_none_iff_forall_ne_some.mpr ?_⟩
    intro other hother
    exact hlater (1 + j) other (by omega) (givesReason_iff.mpr ⟨y, hy, hother⟩)

theorem lastReason_eq_none_iff : lastReason (ofText text).suppressions name target = none ↔
    ∀ k other, ¬ (ofText text).GivesReason name target k other := by
  show lastReason (Suppression.ofLines 1 (splitLines text)) name target = _ ↔ _
  rw [Suppression.lastReason_ofLines, List.getLast?_eq_none_iff, List.filterMap_eq_nil_iff]
  constructor
  · intro hnone k other hgives
    obtain ⟨i, rfl⟩ := exists_of_givesReason hgives
    obtain ⟨x, hx, hother⟩ := givesReason_iff.mp hgives
    rw [hnone x (List.mem_of_getElem? hx)] at hother
    cases hother
  · intro hnone x hx
    obtain ⟨i, hi⟩ := List.mem_iff_getElem?.mp hx
    refine Option.eq_none_iff_forall_ne_some.mpr fun other hother => ?_
    exact hnone (1 + i) other (givesReason_iff.mpr ⟨x, hi, hother⟩)

/-- The reasons for a rule on a line are looked up place by place. -/
theorem suppressionReason?_eq (m : TextModel) (rule : String) (line : Nat) :
    m.suppressionReason? rule line =
      (reasonPlaces rule line).findSome? fun place => lastReason m.suppressions place.1 place.2 := by
  unfold suppressionReason? Suppression.reason? Suppression.reasonFor reasonPlaces
  simp only [List.findSome?_cons, List.findSome?_nil]
  cases lastReason m.suppressions rule (.line line) with
  | some reason => rfl
  | none =>
    cases lastReason m.suppressions rule .file with
    | some reason => rfl
    | none =>
      cases lastReason m.suppressions everyRule (.line line) with
      | some reason => rfl
      | none => cases lastReason m.suppressions everyRule .file <;> rfl

theorem isSuppressed_iff : (ofText text).isSuppressed rule line = true ↔
    ∃ name ∈ [rule, everyRule], ∃ k d, (ofText text).Carries k d ∧ d.rule = name ∧
      (d.AimsAt k .file ∨ d.AimsAt k (.line line)) := by
  unfold isSuppressed Suppression.covers
  rw [List.any_eq_true]
  constructor
  · rintro ⟨s, hs, hcovers⟩
    obtain ⟨k, d, hcarries, rfl⟩ := mem_suppressions_iff.mp hs
    rw [Bool.and_eq_true, Bool.or_eq_true, beq_iff_eq, beq_iff_eq] at hcovers
    obtain ⟨hname, hreach⟩ := hcovers
    rw [Suppression.reaches, Bool.or_eq_true, beq_iff_eq, beq_iff_eq,
      Suppression.target_ofDirective_eq_iff, Suppression.target_ofDirective_eq_iff] at hreach
    exact ⟨d.rule, by simpa using hname, k, d, hcarries, rfl, hreach⟩
  · rintro ⟨name, hname, k, d, hcarries, rfl, haim⟩
    refine ⟨_, mem_suppressions_iff.mpr ⟨k, d, hcarries, rfl⟩, ?_⟩
    rw [← Suppression.target_ofDirective_eq_iff, ← Suppression.target_ofDirective_eq_iff] at haim
    rw [Bool.and_eq_true, Bool.or_eq_true, beq_iff_eq, beq_iff_eq, Suppression.reaches,
      Bool.or_eq_true, beq_iff_eq, beq_iff_eq]
    exact ⟨by simpa using hname, haim⟩

/-- **Where a rule is switched off, and why.**  A rule is switched off on a line just where some
line carries a directive for it, or for every rule, that is aimed at the file or at that line.
There is a reason only for a rule that is switched off there: the last one that the text gives for
the first of these that it gives one for: the rule on the line, the rule in the file, every rule on
the line, every rule in the file. -/
theorem suppression_law (text rule : String) (line : Nat) :
    let m := ofText text
    (m.isSuppressed rule line = true ↔
      ∃ name ∈ [rule, everyRule], ∃ k d, m.Carries k d ∧ d.rule = name ∧
        (d.kind = .file ∨ (d.kind = .nextLine ∧ k + 1 = line) ∨ (d.kind = .line ∧ k = line))) ∧
    ∀ reason,
      (m.suppressionReason? rule line = some reason → m.isSuppressed rule line = true) ∧
      (m.suppressionReason? rule line = some reason ↔
        ∃ before place after, reasonPlaces rule line = before ++ place :: after ∧
          (∀ earlier ∈ before, ∀ k other, ¬ m.GivesReason earlier.1 earlier.2 k other) ∧
          m.IsLastReason place reason) := by
  intro m
  have hreason (reason : String) : m.suppressionReason? rule line = some reason ↔
      ∃ before place after, reasonPlaces rule line = before ++ place :: after ∧
        (∀ earlier ∈ before, ∀ k other, ¬ m.GivesReason earlier.1 earlier.2 k other) ∧
        m.IsLastReason place reason := by
    rw [suppressionReason?_eq, List.findSome?_eq_some_iff]
    refine exists_congr fun before => exists_congr fun place => exists_congr fun after =>
      and_congr_right fun _ => ?_
    rw [lastReason_eq_some_iff, and_comm]
    refine and_congr_left fun _ => forall₂_congr fun earlier _ => lastReason_eq_none_iff
  refine ⟨isSuppressed_iff, fun reason => ⟨fun h => isSuppressed_iff.mpr ?_, hreason reason⟩⟩
  obtain ⟨before, place, after, hplace, -, k, ⟨d, hcarries, hname, haim, -⟩, -⟩ :=
    (hreason reason).mp h
  -- every place has one of the two names, and the line or the file for its target
  have hmem : place ∈ reasonPlaces rule line := hplace ▸ List.mem_append_right _ List.mem_cons_self
  have hplaces : place.1 ∈ [rule, everyRule] ∧ (place.2 = .file ∨ place.2 = .line line) := by
    simp only [reasonPlaces, List.mem_cons, List.not_mem_nil, or_false] at hmem
    rcases hmem with rfl | rfl | rfl | rfl <;> simp
  refine ⟨place.1, hplaces.1, k, d, hcarries, hname, ?_⟩
  rcases hplaces.2 with htarget | htarget
  · exact .inl (htarget ▸ haim)
  · exact .inr (htarget ▸ haim)

end TextModel

end StyleEngine
