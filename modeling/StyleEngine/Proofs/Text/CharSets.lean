import Mathlib.Data.List.Sort
import StyleEngine.Text.CharSet

/-! # What a character set holds

Membership is decided by bisection, which finds a code point exactly if the ranges are in
order (`CharSet.mem_iff`).  A set that was made of any list of ranges is in order and holds
what the ranges span (`CharSet.mem_ofRanges_iff`), and from this follows what a union and a
complement hold.
-/
namespace StyleEngine

namespace CharSet

/-- Whether a code point lies between the ends of a range. -/
def Spans (r : Nat × Nat) (n : Nat) : Prop := r.1 ≤ n ∧ n ≤ r.2

/-- Whether ranges are in order: none is empty, and there is a gap between any two. -/
structure IsAscending (rs : List (Nat × Nat)) : Prop where
  nonempty : ∀ r ∈ rs, r.1 ≤ r.2
  apart : rs.Pairwise fun r t => r.2 + 1 < t.1

namespace IsAscending

theorem tail {r : Nat × Nat} {rs : List (Nat × Nat)} (h : IsAscending (r :: rs)) :
    IsAscending rs :=
  ⟨fun t ht => h.nonempty t (List.mem_cons_of_mem _ ht), h.apart.of_cons⟩

theorem below_tail {r t : Nat × Nat} {rs : List (Nat × Nat)} (h : IsAscending (r :: rs))
    (ht : t ∈ rs) : r.2 + 1 < t.1 :=
  List.rel_of_pairwise_cons h.apart ht

/-- A range at an earlier place ends in front of one at a later place. -/
theorem lt_of_lt {rs : Array (Nat × Nat)} (h : IsAscending rs.toList) {i j : Nat}
    {r t : Nat × Nat} (hi : rs[i]? = some r) (hj : rs[j]? = some t) (hij : i < j) :
    r.2 < t.1 := by
  obtain ⟨hi', rfl⟩ := Array.getElem?_eq_some_iff.mp hi
  obtain ⟨hj', rfl⟩ := Array.getElem?_eq_some_iff.mp hj
  have hapart := List.pairwise_iff_getElem.mp h.apart i j (by simpa) (by simpa) hij
  simp only [Array.getElem_toList] at hapart
  omega

theorem le {rs : Array (Nat × Nat)} (h : IsAscending rs.toList) {i : Nat} {r : Nat × Nat}
    (hi : rs[i]? = some r) : r.1 ≤ r.2 :=
  h.nonempty r (Array.mem_toList_iff.mpr (Array.mem_of_getElem? hi))

end IsAscending

/-- Bisection finds a code point exactly if a range at one of the places holds it. -/
theorem search_eq_true_iff {rs : Array (Nat × Nat)} (h : IsAscending rs.toList) {n lo hi : Nat}
    (hhi : hi ≤ rs.size) :
    search rs n lo hi = true ↔ ∃ i r, lo ≤ i ∧ i < hi ∧ rs[i]? = some r ∧ Spans r n := by
  induction lo, hi using search.induct rs n with
  | case1 lo hi hlt hnone =>
    rw [Array.getElem?_eq_none_iff] at hnone
    omega
  | case2 lo hi hlt a b hmid hbelow ih =>
    rw [search, if_pos hlt, hmid]
    -- the range in the middle lies behind `n`, and so do those after it
    simp only [if_pos hbelow]
    rw [ih (by omega)]
    constructor
    · rintro ⟨i, r, hlo, hi', hr, hspans⟩
      exact ⟨i, r, hlo, by omega, hr, hspans⟩
    · rintro ⟨i, r, hlo, hi', hr, hspans⟩
      refine ⟨i, r, hlo, ?_, hr, hspans⟩
      by_contra hge
      rcases Nat.lt_or_eq_of_le (not_lt.mp hge) with hafter | rfl
      · have hapart := h.lt_of_lt hmid hr hafter
        have hle := h.le hmid
        have hspans := hspans.1
        simp only at hapart hle
        omega
      · rw [hmid] at hr
        obtain rfl := Option.some.inj hr
        exact absurd hspans.1 (by simpa using hbelow)
  | case3 lo hi hlt a b hmid hbelow habove ih =>
    rw [search, if_pos hlt, hmid]
    -- the range in the middle lies in front of `n`, and so do those before it
    simp only [if_neg hbelow, if_pos habove]
    rw [ih hhi]
    constructor
    · rintro ⟨i, r, hlo, hi', hr, hspans⟩
      exact ⟨i, r, by omega, hi', hr, hspans⟩
    · rintro ⟨i, r, hlo, hi', hr, hspans⟩
      refine ⟨i, r, ?_, hi', hr, hspans⟩
      by_contra hlt'
      rcases Nat.lt_or_eq_of_le (Nat.lt_succ_iff.mp (not_le.mp hlt')) with hbefore | rfl
      · have hapart := h.lt_of_lt hr hmid hbefore
        have hle := h.le hmid
        have hspans := hspans.2
        simp only at hapart hle
        omega
      · rw [hmid] at hr
        obtain rfl := Option.some.inj hr
        exact absurd hspans.2 (by simpa using habove)
  | case4 lo hi hlt a b hmid hbelow habove =>
    rw [search, if_pos hlt, hmid]
    simp only [if_neg hbelow, if_neg habove, true_iff]
    exact ⟨(lo + hi) / 2, (a, b), by omega, by omega, hmid, not_lt.mp hbelow, not_lt.mp habove⟩
  | case5 lo hi hge =>
    rw [search, if_neg hge]
    constructor
    · simp
    · rintro ⟨i, r, hlo, hi', -⟩
      omega

/-- A set whose ranges are in order holds the characters that its ranges span. -/
theorem mem_iff {s : CharSet} (h : IsAscending s.ranges.toList) {c : Char} :
    s.mem c = true ↔ ∃ r ∈ s.ranges.toList, Spans r c.toNat := by
  rw [mem, search_eq_true_iff h le_rfl]
  constructor
  · rintro ⟨i, r, -, -, hr, hspans⟩
    exact ⟨r, Array.mem_toList_iff.mpr (Array.mem_of_getElem? hr), hspans⟩
  · rintro ⟨r, hr, hspans⟩
    obtain ⟨i, hi, rfl⟩ := Array.mem_iff_getElem.mp (Array.mem_toList_iff.mp hr)
    exact ⟨i, _, Nat.zero_le i, hi, Array.getElem?_eq_getElem hi, hspans⟩

theorem isEmpty_eq_false_of_mem {s : CharSet} {c : Char} (h : s.mem c = true) :
    s.isEmpty = false := by
  rw [Bool.eq_false_iff]
  intro hempty
  rw [isEmpty, Array.isEmpty_iff] at hempty
  rw [mem, hempty, search] at h
  simp at h

/-! ## Sets of any ranges -/

/-- Whether ranges come in the order of their lower ends, and none is empty. -/
structure IsSorted (rs : List (Nat × Nat)) : Prop where
  nonempty : ∀ r ∈ rs, r.1 ≤ r.2
  sorted : rs.Pairwise fun r t => r.1 ≤ t.1

theorem IsSorted.tail {r : Nat × Nat} {rs : List (Nat × Nat)} (h : IsSorted (r :: rs)) :
    IsSorted rs :=
  ⟨fun t ht => h.nonempty t (List.mem_cons_of_mem _ ht), h.sorted.of_cons⟩

/-- Two ranges that touch or overlap are sorted among the others when they are merged. -/
theorem IsSorted.merge {a b c d : Nat} {rs : List (Nat × Nat)}
    (h : IsSorted ((a, b) :: (c, d) :: rs)) : IsSorted ((a, max b d) :: rs) where
  nonempty := by
    rintro r (_ | ⟨_, hr⟩)
    · have hab := h.nonempty (a, b) (by simp)
      simp only at hab ⊢
      omega
    · exact h.tail.tail.nonempty r hr
  sorted := by
    refine List.pairwise_cons.mpr ⟨fun t ht => ?_, h.tail.tail.sorted⟩
    exact List.rel_of_pairwise_cons h.sorted (List.mem_cons_of_mem _ ht)

theorem le_of_mem_coalesce {rs : List (Nat × Nat)} {n : Nat} (h : ∀ r ∈ rs, n ≤ r.1) :
    ∀ r ∈ coalesce rs, n ≤ r.1 := by
  induction rs using coalesce.induct with
  | case1 => simp [coalesce]
  | case2 r =>
    rw [coalesce]
    exact h
  | case3 a b c d rest htouch ih =>
    rw [coalesce, if_pos htouch]
    refine ih ?_
    rintro r (_ | ⟨_, hr⟩)
    · exact h (a, b) (by simp)
    · exact h r (List.mem_cons_of_mem _ (List.mem_cons_of_mem _ hr))
  | case4 a b c d rest happart ih =>
    rw [coalesce, if_neg happart]
    rintro r (_ | ⟨_, hr⟩)
    · exact h (a, b) (by simp)
    · exact ih (fun t ht => h t (List.mem_cons_of_mem _ ht)) r hr

theorem isAscending_coalesce {rs : List (Nat × Nat)} (h : IsSorted rs) :
    IsAscending (coalesce rs) := by
  induction rs using coalesce.induct with
  | case1 => exact ⟨by simp [coalesce], by simp [coalesce]⟩
  | case2 r =>
    rw [coalesce]
    exact ⟨h.nonempty, List.pairwise_singleton _ r⟩
  | case3 a b c d rest htouch ih =>
    rw [coalesce, if_pos htouch]
    exact ih h.merge
  | case4 a b c d rest happart ih =>
    rw [coalesce, if_neg happart]
    have hrest := ih h.tail
    have hbelow : ∀ t ∈ (c, d) :: rest, c ≤ t.1 := by
      rintro t (_ | ⟨_, ht⟩)
      · exact le_rfl
      · exact List.rel_of_pairwise_cons h.tail.sorted ht
    refine ⟨?_, List.pairwise_cons.mpr ⟨fun t ht => ?_, hrest.apart⟩⟩
    · rintro r (_ | ⟨_, hr⟩)
      · exact h.nonempty _ (by simp)
      · exact hrest.nonempty r hr
    · have hle := le_of_mem_coalesce hbelow t ht
      simp only
      omega

theorem spans_coalesce_iff {rs : List (Nat × Nat)} (h : IsSorted rs) {n : Nat} :
    (∃ r ∈ coalesce rs, Spans r n) ↔ ∃ r ∈ rs, Spans r n := by
  induction rs using coalesce.induct with
  | case1 => simp [coalesce]
  | case2 r => simp [coalesce]
  | case3 a b c d rest htouch ih =>
    have hle : a ≤ c := List.rel_of_pairwise_cons h.sorted (List.mem_cons_self ..)
    have hab := h.nonempty (a, b) (by simp)
    have hmerged : Spans (a, max b d) n ↔ Spans (a, b) n ∨ Spans (c, d) n := by
      simp only [Spans]
      omega
    rw [coalesce, if_pos htouch, ih h.merge]
    simp only [List.mem_cons, exists_eq_or_imp, hmerged, or_assoc]
  | case4 a b c d rest happart ih =>
    rw [coalesce, if_neg happart]
    simp only [List.mem_cons, exists_eq_or_imp]
    rw [ih h.tail]
    simp only [List.mem_cons, exists_eq_or_imp]

/-- The ranges of a list that are not empty, by their lower ends. -/
theorem isSorted_mergeSort (rs : List (Nat × Nat)) :
    IsSorted ((rs.filter fun r => r.1 ≤ r.2).mergeSort fun r t => r.1 ≤ t.1) where
  nonempty r hr := by
    rw [(List.mergeSort_perm _ _).mem_iff] at hr
    simpa using (List.mem_filter.mp hr).2
  sorted := by
    refine (List.pairwise_mergeSort ?_ ?_ _).imp fun h => by simpa using h
    · intro r t u hrt htu
      simp only [decide_eq_true_eq] at hrt htu ⊢
      omega
    · intro r t
      simp only [Bool.or_eq_true, decide_eq_true_eq]
      omega

/-- Whether the ranges of a set are in order. -/
def IsOrdered (s : CharSet) : Prop := IsAscending s.ranges.toList

theorem isOrdered_ofRanges (rs : List (Nat × Nat)) : (ofRanges rs).IsOrdered :=
  isAscending_coalesce (isSorted_mergeSort rs)

/-- The set of some ranges holds the characters that one of them spans. -/
theorem mem_ofRanges_iff {rs : List (Nat × Nat)} {c : Char} :
    (ofRanges rs).mem c = true ↔ ∃ r ∈ rs, Spans r c.toNat := by
  rw [mem_iff (isOrdered_ofRanges rs), ofRanges, spans_coalesce_iff (isSorted_mergeSort rs)]
  constructor
  · rintro ⟨r, hr, hspans⟩
    rw [(List.mergeSort_perm _ _).mem_iff] at hr
    exact ⟨r, (List.mem_filter.mp hr).1, hspans⟩
  · rintro ⟨r, hr, hspans⟩
    refine ⟨r, (List.mergeSort_perm _ _).mem_iff.mpr (List.mem_filter.mpr ⟨hr, ?_⟩), hspans⟩
    simpa using hspans.1.trans hspans.2

/-! ## Operations -/

theorem isOrdered_singleton (c : Char) : (singleton c).IsOrdered :=
  ⟨by simp [singleton], List.pairwise_singleton _ _⟩

@[simp] theorem mem_singleton_iff {c d : Char} : (singleton c).mem d = true ↔ d = c := by
  rw [mem_iff (isOrdered_singleton c), singleton]
  simp only [List.mem_singleton, exists_eq_left, Spans]
  rw [← Char.toNat_inj]
  omega

theorem isOrdered_ofRange (lo hi : Char) : (ofRange lo hi).IsOrdered := isOrdered_ofRanges _

@[simp] theorem mem_ofRange_iff {lo hi c : Char} :
    (ofRange lo hi).mem c = true ↔ lo.toNat ≤ c.toNat ∧ c.toNat ≤ hi.toNat := by
  rw [ofRange, mem_ofRanges_iff]
  simp only [List.mem_singleton, exists_eq_left, Spans]

/-- A union holds what one of the two sets holds. -/
theorem mem_union_iff {s t : CharSet} (hs : s.IsOrdered) (ht : t.IsOrdered) {c : Char} :
    (s.union t).mem c = true ↔ s.mem c = true ∨ t.mem c = true := by
  rw [union, mem_ofRanges_iff, mem_iff hs, mem_iff ht]
  simp only [List.mem_append, or_and_right, exists_or]

theorem isOrdered_union (s t : CharSet) : (s.union t).IsOrdered := isOrdered_ofRanges _

theorem isOrdered_empty : empty.IsOrdered := ⟨by simp [empty], List.Pairwise.nil⟩

@[simp] theorem mem_empty (c : Char) : empty.mem c = false := by
  rw [Bool.eq_false_iff, ne_eq, mem_iff isOrdered_empty]
  simp [empty]

/-- The gaps between ranges that are in order lie behind the place they are counted from. -/
theorem le_of_mem_gaps {rs : List (Nat × Nat)} (h : IsAscending rs) {start : Nat}
    (hstart : ∀ r ∈ rs, start ≤ r.1) : ∀ r ∈ gaps start rs, start ≤ r.1 := by
  induction rs generalizing start with
  | nil =>
    intro r hr
    rw [gaps] at hr
    split at hr
    · obtain rfl := List.mem_singleton.mp hr
      exact le_rfl
    · cases hr
  | cons t rs ih =>
    obtain ⟨a, b⟩ := t
    have ha : start ≤ a := hstart (a, b) (by simp)
    have hab : a ≤ b := h.nonempty (a, b) (by simp)
    have hrest : ∀ r ∈ gaps (b + 1) rs, b + 1 ≤ r.1 :=
      ih h.tail fun r hr => (h.below_tail hr).le
    intro r hr
    rw [gaps] at hr
    by_cases hgap : start < a
    · rw [if_pos hgap] at hr
      rcases List.mem_cons.mp hr with rfl | hr
      · exact le_rfl
      · have hle := hrest r hr
        omega
    · rw [if_neg hgap] at hr
      have hle := hrest r hr
      omega

theorem isAscending_gaps {rs : List (Nat × Nat)} (h : IsAscending rs) (start : Nat) :
    IsAscending (gaps start rs) := by
  induction rs generalizing start with
  | nil =>
    rw [gaps]
    split
    · rename_i hle
      exact ⟨by simpa using hle, List.pairwise_singleton _ _⟩
    · exact ⟨by simp, List.Pairwise.nil⟩
  | cons t rs ih =>
    obtain ⟨a, b⟩ := t
    have hab : a ≤ b := h.nonempty (a, b) (by simp)
    have hrest := ih h.tail (b + 1)
    rw [gaps]
    by_cases hgap : start < a
    · rw [if_pos hgap]
      refine ⟨?_, List.pairwise_cons.mpr ⟨fun r hr => ?_, hrest.apart⟩⟩
      · rintro r (_ | ⟨_, hr⟩)
        · simp only
          omega
        · exact hrest.nonempty r hr
      · have hle := le_of_mem_gaps h.tail (fun t ht => (h.below_tail ht).le) r hr
        simp only at hle ⊢
        omega
    · rw [if_neg hgap]
      exact hrest

/-- The gaps hold what is not spanned by the ranges between them. -/
theorem spans_gaps_iff {rs : List (Nat × Nat)} (h : IsAscending rs) {start n : Nat}
    (hstart : ∀ r ∈ rs, start ≤ r.1) (hn : n ≤ top) :
    (∃ r ∈ gaps start rs, Spans r n) ↔ start ≤ n ∧ ¬ ∃ r ∈ rs, Spans r n := by
  induction rs generalizing start with
  | nil =>
    rw [gaps]
    by_cases hle : start ≤ top
    · simp [if_pos hle, Spans, hn]
    · simp only [if_neg hle, List.not_mem_nil, false_and, exists_false, not_false_eq_true,
        and_true, false_iff]
      omega
  | cons t rs ih =>
    obtain ⟨a, b⟩ := t
    have ha : start ≤ a := hstart (a, b) (by simp)
    have hab : a ≤ b := h.nonempty (a, b) (by simp)
    have hrest : (∃ r ∈ gaps (b + 1) rs, Spans r n) ↔ b + 1 ≤ n ∧ ¬ ∃ r ∈ rs, Spans r n :=
      ih h.tail fun r hr => (h.below_tail hr).le
    have hbehind : (∃ r ∈ rs, Spans r n) → b < n := by
      rintro ⟨r, hr, hspans⟩
      have hbelow := h.below_tail hr
      have hle := hspans.1
      simp only at hbelow
      omega
    have hgaps : (∃ r ∈ gaps start ((a, b) :: rs), Spans r n) ↔
        (start ≤ n ∧ n < a) ∨ ∃ r ∈ gaps (b + 1) rs, Spans r n := by
      rw [gaps]
      by_cases hgap : start < a
      · rw [if_pos hgap]
        simp only [List.mem_cons, exists_eq_or_imp]
        refine or_congr_left ?_
        simp only [Spans]
        omega
      · rw [if_neg hgap]
        refine (or_iff_right ?_).symm
        omega
    have hranges : (∃ r ∈ (a, b) :: rs, Spans r n) ↔
        (a ≤ n ∧ n ≤ b) ∨ ∃ r ∈ rs, Spans r n := by
      simp only [List.mem_cons, exists_eq_or_imp]
      rfl
    rw [hgaps, hrest, hranges]
    by_cases hspans : ∃ r ∈ rs, Spans r n
    · have hlt := hbehind hspans
      simp only [hspans, or_true, not_true_eq_false, and_false, or_false, iff_false]
      omega
    · simp only [hspans, or_false, not_false_eq_true, and_true]
      omega

theorem isOrdered_compl {s : CharSet} (h : s.IsOrdered) : s.compl.IsOrdered :=
  isAscending_gaps h 0

/-- A complement holds every other character. -/
theorem mem_compl_iff {s : CharSet} (h : s.IsOrdered) {c : Char} :
    s.compl.mem c = true ↔ ¬ s.mem c = true := by
  have htop : c.toNat ≤ top := by
    have hvalid : c.toNat.isValidChar := c.valid
    unfold Nat.isValidChar at hvalid
    rw [top]
    omega
  rw [mem_iff (isOrdered_compl h), mem_iff h]
  rw [compl]
  simp only
  rw [spans_gaps_iff h (fun _ _ => Nat.zero_le _) htop]
  simp

end CharSet

end StyleEngine
