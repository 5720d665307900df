import StyleEngine.Proofs.Analysis.FixRuns

/-! # What becomes of fixes

Fixes are tried from the last line up, those on one line in their order.  So the order
of the attempts is determined by the violations on each line (`bottomUp_congr`), and it
does not matter how those of several lines are mixed.  What then becomes of violations
and file is said in one place (`SourceFile.Settles`).
-/
namespace StyleEngine

open Violation

/-! ## From the last line up -/

namespace Violation

/-- Whether violations stand from the last line up. -/
def IsBottomUp (vs : List Violation) : Prop := vs.Pairwise fun v w => w.line ≤ v.line

theorem IsBottomUp.line_le {v w : Violation} {vs : List Violation} (h : IsBottomUp (v :: vs))
    (hw : w ∈ v :: vs) : w.line ≤ v.line := by
  rcases List.mem_cons.mp hw with rfl | hw
  · exact Nat.le_refl _
  · exact (List.pairwise_cons.mp h).1 w hw

/-- **Violations from the last line up are determined by those on each line.** -/
theorem IsBottomUp.eq_of_onLine {vs ws : List Violation} (hv : IsBottomUp vs)
    (hw : IsBottomUp ws) (h : ∀ n, onLine n vs = onLine n ws) : vs = ws := by
  induction vs generalizing ws with
  | nil =>
    cases ws with
    | nil => rfl
    | cons w ws =>
      have hnil := h w.line
      rw [onLine_cons_self] at hnil
      cases hnil
  | cons v vs ih =>
    cases ws with
    | nil =>
      have hnil := h v.line
      rw [onLine_cons_self] at hnil
      cases hnil
    | cons w ws =>
      -- each head stands in the other list too, so neither line is above the other
      have hvmem : v ∈ w :: ws := by
        rw [← mem_onLine_self, ← h, mem_onLine_self]
        exact List.mem_cons_self
      have hwmem : w ∈ v :: vs := by
        rw [← mem_onLine_self, h, mem_onLine_self]
        exact List.mem_cons_self
      have hline : w.line = v.line := Nat.le_antisymm (hv.line_le hwmem) (hw.line_le hvmem)
      have hhead := h v.line
      rw [onLine_cons_self, ← hline, onLine_cons_self, hline] at hhead
      obtain ⟨rfl, htail⟩ := List.cons.inj hhead
      refine congrArg (v :: ·) (ih hv.of_cons hw.of_cons ?_)
      intro n
      by_cases hn : v.line = n
      · exact hn ▸ htail
      · have hrest := h n
        rwa [onLine_cons_ne hn, onLine_cons_ne hn] at hrest

end Violation

theorem below_trans (u v w : Violation) (huv : decide (v.line ≤ u.line) = true)
    (hvw : decide (w.line ≤ v.line) = true) : decide (w.line ≤ u.line) = true :=
  decide_eq_true (Nat.le_trans (of_decide_eq_true hvw) (of_decide_eq_true huv))

theorem below_total (v w : Violation) :
    (decide (w.line ≤ v.line) || decide (v.line ≤ w.line)) = true := by
  simpa using Nat.le_total w.line v.line

theorem isBottomUp_bottomUp (vs : List Violation) : IsBottomUp (bottomUp vs) :=
  (List.pairwise_mergeSort below_trans below_total vs).imp fun hvw => of_decide_eq_true hvw

/-- Violations on one line keep their order. -/
theorem onLine_bottomUp (n : Nat) (vs : List Violation) :
    onLine n (bottomUp vs) = onLine n vs := by
  -- they are a sublist in order, which a stable sort leaves in order, and no others stand there
  have htied : (onLine n vs).Pairwise fun v w => decide (w.line ≤ v.line) = true := by
    refine List.pairwise_of_forall_mem_list ?_
    intro v hv w hw
    rw [line_of_mem_onLine hv, line_of_mem_onLine hw]
    exact decide_eq_true (Nat.le_refl n)
  have hsub : (onLine n vs).Sublist (bottomUp vs) :=
    List.sublist_mergeSort below_trans below_total htied List.filter_sublist
  have hfilter := hsub.filter (fun v => v.line == n)
  rw [onLine, List.filter_filter] at hfilter
  simp only [Bool.and_self] at hfilter
  exact (hfilter.eq_of_length ((bottomUp_perm vs).filter _).length_eq.symm).symm

/-- **Only the order on each line matters for the order from the last line up.** -/
theorem bottomUp_congr {vs ws : List Violation} (h : ∀ n, onLine n ws = onLine n vs) :
    bottomUp ws = bottomUp vs := by
  refine (isBottomUp_bottomUp ws).eq_of_onLine (isBottomUp_bottomUp vs) ?_
  intro n
  rw [onLine_bottomUp, onLine_bottomUp, h]

/-! ## All fixes -/

/-- What has become of violations whose fixes were to be applied to a file. -/
structure SourceFile.Settles (f : SourceFile) (vs : List Violation) (o : FixOutcome) : Prop where
  perm : (o.applied ++ o.rejected).Perm vs
  /-- On a line of the file the first violation with a safe fix is applied, and only there. -/
  applied : ∀ n, onLine n o.applied =
    if f.hasLine n then ((onLine n vs).find? hasSafeFix).toList else []
  /-- All others are rejected, in their order. -/
  rejected : ∀ n, onLine n o.rejected =
    if f.hasLine n then (onLine n vs).eraseP hasSafeFix else onLine n vs
  bottomUp : IsBottomUp o.applied ∧ IsBottomUp o.rejected
  /-- A file without a model is left alone. -/
  unread : f.model = none → o.applied = [] ∧ o.file = f
  /-- The model has the replacements on the lines of the applied violations and is unchanged
  otherwise; nothing else of the file changes but that it is marked. -/
  model : ∀ m, f.model = some m → ∃ lines, m.IsPatch o.applied { m with lines } ∧
    o.file = { f with
      model := some { m with lines }
      modified := f.modified || !o.applied.isEmpty }

/-- What becomes of violations whose fixes are to be applied. -/
theorem SourceFile.settles (f : SourceFile) (vs : List Violation) :
    f.Settles vs (f.applyFixes vs) := by
  obtain ⟨o, h, ho⟩ := f.applyFixes_accounts vs
  have hsorted := isBottomUp_bottomUp vs
  rw [ho]
  refine ⟨?_, ?_, ?_, ?_, ?_, ?_⟩
  · simpa using h.perm.trans (bottomUp_perm vs)
  · intro n
    rw [FixOutcome.mark_applied, h.applied, onLine_bottomUp]
  · intro n
    rw [FixOutcome.mark_rejected, h.rejected, onLine_bottomUp]
  · rw [FixOutcome.mark_applied, FixOutcome.mark_rejected]
    exact ⟨hsorted.sublist h.sublists.1, hsorted.sublist h.sublists.2⟩
  · intro hm
    have hnil : o.applied = [] := by
      refine List.eq_nil_iff_forall_not_mem.mpr ?_
      intro v hv
      have hline := h.applied v.line
      rw [if_neg (by rw [hasLine_of_model_eq_none hm]; exact Bool.false_ne_true),
        onLine_eq_nil_iff] at hline
      exact hline (List.mem_map_of_mem hv)
    have hfile : o.file = f := by rw [h.file, h.unread hm, ← hm]
    simp [FixOutcome.mark_file, hnil, hfile]
  · intro m hm
    obtain ⟨lines, hlines, hpatch⟩ := h.model m hm
    refine ⟨lines, by rwa [FixOutcome.mark_applied], ?_⟩
    rw [FixOutcome.mark_file, FixOutcome.mark_applied, h.file, hlines]

/-- **What becomes of violations** whose fixes are to be applied, for every file and all
violations; and only their order on each line matters. -/
theorem SourceFile.settles_applyFixes (f : SourceFile) (vs : List Violation) :
    f.Settles vs (f.applyFixes vs) ∧
      ∀ ws, (∀ n, onLine n ws = onLine n vs) → f.applyFixes ws = f.applyFixes vs := by
  refine ⟨f.settles vs, ?_⟩
  intro ws hws
  rw [applyFixes, bottomUp_congr hws, applyFixes]

end StyleEngine
