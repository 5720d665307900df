import StyleEngine.Proofs.Run.FileWork

/-! # Fixes, one after the other

What is done about a violation depends on the violations on its own line only.  If the
file has the line, the first of them with a safe fix is applied and the others are
rejected; if it has not, or has no model at all, they are all rejected.  This is kept
by one more attempt (`FixOutcome.Accounts`), and so holds at the end, whatever the
order of the attempts.

If all fixes can be applied, then every line with a violation is fixed, and the model
is unchanged on all others (`FixOutcome.Tried`).
-/
namespace StyleEngine

namespace Violation

/-- The violations on a line, in their order. -/
def onLine (n : Nat) (vs : List Violation) : List Violation := vs.filter (·.line == n)

@[simp] theorem onLine_nil (n : Nat) : onLine n [] = [] := rfl

@[simp] theorem onLine_append (n : Nat) (vs ws : List Violation) :
    onLine n (vs ++ ws) = onLine n vs ++ onLine n ws := List.filter_append ..

theorem onLine_cons_self (v : Violation) (vs : List Violation) :
    onLine v.line (v :: vs) = v :: onLine v.line vs :=
  List.filter_cons_of_pos (beq_self_eq_true v.line)

theorem onLine_cons_ne {v : Violation} {n : Nat} (h : v.line ≠ n) (vs : List Violation) :
    onLine n (v :: vs) = onLine n vs :=
  List.filter_cons_of_neg (by simpa using h)

theorem onLine_singleton_self (v : Violation) : onLine v.line [v] = [v] :=
  onLine_cons_self v []

theorem onLine_singleton_ne {v : Violation} {n : Nat} (h : v.line ≠ n) : onLine n [v] = [] :=
  onLine_cons_ne h []

theorem line_of_mem_onLine {n : Nat} {vs : List Violation} {v : Violation}
    (h : v ∈ onLine n vs) : v.line = n := beq_iff_eq.mp (List.mem_filter.mp h).2

theorem mem_onLine_self {vs : List Violation} {v : Violation} :
    v ∈ onLine v.line vs ↔ v ∈ vs := by simp [onLine]

theorem onLine_eq_nil_iff {n : Nat} {vs : List Violation} :
    onLine n vs = [] ↔ n ∉ vs.map Violation.line := by
  simp [onLine, List.filter_eq_nil_iff]

end Violation

open Violation

/-- Whether the fix of a violation can be applied to a model: it is safe and its line exists. -/
def Violation.IsFixable (m : TextModel) (v : Violation) : Prop :=
  v.hasSafeFix = true ∧ 1 ≤ v.line ∧ v.line ≤ m.lines.length

/-- Whether a model is another one with the fixes of violations on their lines. -/
structure TextModel.IsPatch (m : TextModel) (vs : List Violation) (m' : TextModel) : Prop where
  fixed : ∀ v ∈ vs, m'.line? v.line = v.fix.map Fix.replacement
  kept : ∀ n, n ∉ vs.map Violation.line → m'.line? n = m.line? n
  length : m'.lines.length = m.lines.length

namespace TextModel

theorem replaceLine?_eq_some {m : TextModel} {n : Nat} (h : 1 ≤ n ∧ n ≤ m.lines.length)
    (text : String) :
    m.replaceLine? n text = some { m with lines := m.lines.set (n - 1) text } := by
  obtain ⟨k, rfl⟩ : ∃ k, n = k + 1 := ⟨n - 1, by omega⟩
  have hlt : k < m.lines.length := by omega
  simp [replaceLine?, hlt]

theorem line?_set {m : TextModel} {n : Nat} (h : 1 ≤ n ∧ n ≤ m.lines.length) (text : String)
    (l : Nat) :
    ({ m with lines := m.lines.set (n - 1) text } : TextModel).line? l =
      if l = n then some text else m.line? l := by
  cases l with
  | zero =>
    have hne : ¬ 0 = n := by omega
    rw [if_neg hne]
    rfl
  | succ k =>
    have hlt : n - 1 < m.lines.length := by omega
    simp only [line?, List.getElem?_set, hlt, ↓reduceIte]
    by_cases hk : n - 1 = k
    · rw [if_pos hk, if_pos (by omega)]
    · rw [if_neg hk, if_neg (by omega)]

/-- One more fix on a line of its own. -/
theorem IsPatch.set {m m' : TextModel} {vs : List Violation} (h : m.IsPatch vs m')
    {v : Violation} (hv : v.line ∉ vs.map Violation.line)
    (hline : 1 ≤ v.line ∧ v.line ≤ m.lines.length) {fix : Fix} (hfix : v.fix = some fix) :
    m.IsPatch (vs ++ [v]) { m' with lines := m'.lines.set (v.line - 1) fix.replacement } := by
  have hline' : 1 ≤ v.line ∧ v.line ≤ m'.lines.length := h.length ▸ hline
  refine ⟨?_, ?_, by simp [h.length]⟩
  · intro w hw
    rw [line?_set hline']
    rcases List.mem_append.mp hw with hw | hw
    · have hne : w.line ≠ v.line := fun heq => hv (heq ▸ List.mem_map_of_mem hw)
      rw [if_neg hne]
      exact h.fixed w hw
    · obtain rfl := List.mem_singleton.mp hw
      rw [if_pos rfl, hfix, Option.map_some]
  · intro n hn
    rw [List.map_append, List.mem_append, not_or] at hn
    have hne : n ≠ v.line := fun heq => hn.2 (heq ▸ List.mem_singleton_self _)
    rw [line?_set hline', if_neg hne]
    exact h.kept n hn.1

end TextModel

/-- Whether a file has a model with a line. -/
def SourceFile.hasLine (f : SourceFile) (n : Nat) : Bool :=
  f.model.any fun m => decide (1 ≤ n ∧ n ≤ m.lineCount)

theorem SourceFile.hasLine_eq {f : SourceFile} {m : TextModel} (h : f.model = some m) (n : Nat) :
    f.hasLine n = decide (1 ≤ n ∧ n ≤ m.lineCount) := by simp [hasLine, h]

theorem SourceFile.hasLine_of_model_eq_none {f : SourceFile} (h : f.model = none) (n : Nat) :
    f.hasLine n = false := by simp [hasLine, h]

namespace FixOutcome

/-- A line that is fixed already is not fixed again. -/
theorem attempt_of_mem {o : FixOutcome} {v : Violation}
    (h : v.line ∈ o.applied.map Violation.line) :
    o.attempt v = { o with rejected := o.rejected ++ [v] } := by
  have hany : o.applied.any (·.line == v.line) = true := by
    obtain ⟨w, hw, hline⟩ := List.mem_map.mp h
    exact List.any_eq_true.mpr ⟨w, hw, beq_iff_eq.mpr hline⟩
  have hnone : o.replacement? v = none := by
    unfold replacement?
    split
    · rw [hany]
      simp
    · rfl
  simp [attempt, fixed?, hnone]

/-- The first fix for a line is applied, if it can be. -/
theorem attempt_of_notMem {o : FixOutcome} {v : Violation} {m : TextModel}
    (h : v.line ∉ o.applied.map Violation.line) (hm : o.file.model = some m) {fix : Fix}
    (hfix : v.fix = some fix) (hsafe : fix.isSafe = true)
    (hline : 1 ≤ v.line ∧ v.line ≤ m.lines.length) :
    o.attempt v = { o with
      file := o.file.setModel { m with lines := m.lines.set (v.line - 1) fix.replacement }
      applied := o.applied ++ [v] } := by
  have hany : o.applied.any (·.line == v.line) = false := by
    refine List.any_eq_false.mpr ?_
    intro w hw hline
    exact h (beq_iff_eq.mp hline ▸ List.mem_map_of_mem hw)
  have hsome : o.replacement? v = some fix.replacement := by
    simp [replacement?, hfix, hsafe, hany]
  simp [attempt, fixed?, hsome, hm, TextModel.replaceLine?_eq_some hline]

variable {f : SourceFile} {tried : List Violation} {o : FixOutcome} {v : Violation}

/-- A violation is rejected if it has no safe fix or stands on no line of the file. -/
theorem attempt_of_not (h : v.hasSafeFix = false ∨ o.file.hasLine v.line = false) :
    o.attempt v = { o with rejected := o.rejected ++ [v] } := by
  suffices hnone : o.fixed? v = none by simp [attempt, hnone]
  unfold fixed?
  split
  · next text m htext hm =>
    rcases h with h | h
    · unfold replacement? at htext
      split at htext
      · next fix hfix => simp [hasSafeFix, hfix] at h; simp [h] at htext
      · cases htext
    · rw [SourceFile.hasLine_eq hm, decide_eq_false_iff_not] at h
      cases hline : v.line with
      | zero => rfl
      | succ k =>
        have hout : ¬ k < m.lines.length := by
          intro hk
          exact h ⟨by omega, by rw [hline]; exact hk⟩
        simp [TextModel.replaceLine?, hout]
  · rfl

/-- What has become of violations that were tried in their order. -/
structure Accounts (f : SourceFile) (tried : List Violation) (o : FixOutcome) : Prop where
  perm : (o.applied ++ o.rejected).Perm tried
  applied : ∀ n, onLine n o.applied =
    if f.hasLine n then ((onLine n tried).find? hasSafeFix).toList else []
  rejected : ∀ n, onLine n o.rejected =
    if f.hasLine n then (onLine n tried).eraseP hasSafeFix else onLine n tried
  sublists : o.applied.Sublist tried ∧ o.rejected.Sublist tried
  file : o.file = { f with model := o.file.model }
  unread : f.model = none → o.file.model = none
  model : ∀ m, f.model = some m → ∃ lines,
    o.file.model = some { m with lines } ∧ m.IsPatch o.applied { m with lines }

theorem accounts_nil (f : SourceFile) : Accounts f [] { file := f } where
  perm := .nil
  applied n := by simp
  rejected n := by simp
  sublists := ⟨.slnil, .slnil⟩
  file := rfl
  unread h := h
  model m hm := ⟨m.lines, hm, nofun, fun _ _ => rfl, rfl⟩

/-- The lines of the file are still there. -/
theorem Accounts.hasLine (h : Accounts f tried o) (n : Nat) : o.file.hasLine n = f.hasLine n := by
  cases hm : f.model with
  | none => rw [SourceFile.hasLine_of_model_eq_none hm,
      SourceFile.hasLine_of_model_eq_none (h.unread hm)]
  | some m =>
    obtain ⟨lines, hlines, hpatch⟩ := h.model m hm
    rw [SourceFile.hasLine_eq hm, SourceFile.hasLine_eq hlines, TextModel.lineCount,
      hpatch.length, TextModel.lineCount]

/-- The first violation with a safe fix is not the last one, if that has none or another has. -/
theorem eraseP_append_singleton {vs : List Violation}
    (h : v.hasSafeFix = false ∨ vs.any hasSafeFix = true) :
    (vs ++ [v]).eraseP hasSafeFix = vs.eraseP hasSafeFix ++ [v] := by
  rw [List.eraseP_append]
  split
  · rfl
  · next hany =>
    have hsafe : v.hasSafeFix = false := h.resolve_right hany
    have hnone : ∀ w ∈ vs, ¬ w.hasSafeFix = true := by simpa using hany
    rw [List.eraseP_of_forall_not hnone]
    simp [hsafe]

/-- One more violation that is rejected: it stands on no line of the file, has no safe fix, or
comes after one that has. -/
theorem Accounts.reject (h : Accounts f tried o) (hv : f.hasLine v.line = false ∨
    v.hasSafeFix = false ∨ (onLine v.line tried).any hasSafeFix = true) :
    Accounts f (tried ++ [v]) { o with rejected := o.rejected ++ [v] } where
  perm := by
    show (o.applied ++ (o.rejected ++ [v])).Perm (tried ++ [v])
    rw [← List.append_assoc]
    exact h.perm.append_right [v]
  applied n := by
    show onLine n o.applied = _
    rw [h.applied, onLine_append]
    by_cases hn : v.line = n
    · subst hn
      rw [onLine_singleton_self, List.find?_append]
      rcases hv with hv | hv | hv
      · simp [hv]
      · simp [hv]
      · obtain ⟨w, hw⟩ := Option.isSome_iff_exists.mp
          (List.find?_isSome.mpr (List.any_eq_true.mp hv))
        simp [hw]
    · rw [onLine_singleton_ne hn, List.append_nil]
  rejected n := by
    show onLine n (o.rejected ++ [v]) = _
    rw [onLine_append, onLine_append, h.rejected]
    by_cases hn : v.line = n
    · subst hn
      rw [onLine_singleton_self]
      rcases hv with hv | hv
      · simp [hv]
      · rw [eraseP_append_singleton hv]
        split <;> rfl
    · simp [onLine_singleton_ne hn]
  sublists := ⟨h.sublists.1.trans (List.sublist_append_left ..), h.sublists.2.append (.refl _)⟩
  file := h.file
  unread := h.unread
  model := h.model

/-- One more violation that is applied: its fix is safe, and the line is there and has no safe fix
yet. -/
theorem Accounts.apply (h : Accounts f tried o) {m : TextModel} {lines : List String} {fix : Fix}
    (hm : f.model = some m) (hfix : v.fix = some fix) (hsafe : fix.isSafe = true)
    (hline : 1 ≤ v.line ∧ v.line ≤ m.lineCount)
    (hpatch : m.IsPatch o.applied { m with lines })
    (hnone : ∀ w ∈ onLine v.line tried, ¬ w.hasSafeFix = true)
    (hfirst : v.line ∉ o.applied.map Violation.line) :
    Accounts f (tried ++ [v]) { o with
      file := o.file.setModel { m with lines := lines.set (v.line - 1) fix.replacement }
      applied := o.applied ++ [v] } := by
  have hvsafe : v.hasSafeFix = true := by simp [hasSafeFix, hfix, hsafe]
  have hhas : f.hasLine v.line = true := by simp [SourceFile.hasLine_eq hm, hline]
  have hfind : (onLine v.line tried).find? hasSafeFix = none := List.find?_eq_none.mpr hnone
  refine
    { perm := ?_
      applied := fun n => ?_
      rejected := fun n => ?_
      sublists :=
        ⟨h.sublists.1.append (.refl _), h.sublists.2.trans (List.sublist_append_left ..)⟩
      file := by rw [h.file]; rfl
      unread := fun hnomodel => by rw [hm] at hnomodel; cases hnomodel
      model := fun m' hm' => ?_ }
  · rw [List.append_assoc]
    refine (List.perm_append_comm.append_left o.applied).trans ?_
    rw [← List.append_assoc]
    exact h.perm.append_right [v]
  · rw [onLine_append, onLine_append]
    by_cases hn : v.line = n
    · subst hn
      rw [onLine_eq_nil_iff.mpr hfirst, onLine_singleton_self, List.find?_append, hfind, hhas]
      simp [hvsafe]
    · rw [onLine_singleton_ne hn, List.append_nil, List.append_nil]
      exact h.applied n
  · rw [h.rejected, onLine_append]
    by_cases hn : v.line = n
    · subst hn
      rw [if_pos hhas, if_pos hhas, onLine_singleton_self, List.eraseP_append_right _ hnone,
        List.eraseP_of_forall_not hnone, List.eraseP_cons_of_pos hvsafe, List.append_nil]
    · rw [onLine_singleton_ne hn, List.append_nil]
  · obtain rfl := Option.some.inj (hm.symm.trans hm')
    exact ⟨_, rfl, hpatch.set hfirst hline hfix⟩

/-- **One more attempt.** -/
theorem Accounts.attempt (h : Accounts f tried o) (v : Violation) :
    Accounts f (tried ++ [v]) (o.attempt v) := by
  by_cases hline : f.hasLine v.line = true
  case neg =>
    rw [Bool.not_eq_true] at hline
    rw [attempt_of_not (.inr ((h.hasLine v.line).trans hline))]
    exact h.reject (.inl hline)
  by_cases hsafe : v.hasSafeFix = true
  case neg =>
    rw [Bool.not_eq_true] at hsafe
    rw [attempt_of_not (.inl hsafe)]
    exact h.reject (.inr (.inl hsafe))
  have happlied := h.applied v.line
  rw [if_pos hline] at happlied
  by_cases hany : (onLine v.line tried).any hasSafeFix = true
  · -- the line is fixed already, by the first of its safe fixes
    obtain ⟨w, hw⟩ := Option.isSome_iff_exists.mp
      (List.find?_isSome.mpr (List.any_eq_true.mp hany))
    have hmem : v.line ∈ o.applied.map Violation.line := by
      refine Decidable.byContradiction fun hnot => ?_
      rw [onLine_eq_nil_iff.mpr hnot, hw] at happlied
      cases happlied
    rw [attempt_of_mem hmem]
    exact h.reject (.inr (.inr hany))
  · have hnone : ∀ w ∈ onLine v.line tried, ¬ hasSafeFix w = true := by simpa using hany
    have hfind : (onLine v.line tried).find? hasSafeFix = none := List.find?_eq_none.mpr hnone
    rw [hfind, Option.toList_none, onLine_eq_nil_iff] at happlied
    cases hm : f.model with
    | none =>
      rw [SourceFile.hasLine_of_model_eq_none hm] at hline
      cases hline
    | some m =>
      rw [SourceFile.hasLine_eq hm, decide_eq_true_eq] at hline
      obtain ⟨lines, hlines, hpatch⟩ := h.model m hm
      obtain ⟨fix, hfix, hfixsafe⟩ : ∃ fix, v.fix = some fix ∧ fix.isSafe = true := by
        unfold Violation.hasSafeFix at hsafe
        split at hsafe
        · exact ⟨_, ‹_›, hsafe⟩
        · cases hsafe
      have hrange : 1 ≤ v.line ∧ v.line ≤ lines.length := by
        rw [hpatch.length]
        exact hline
      rw [attempt_of_notMem happlied hlines hfix hfixsafe hrange]
      exact (h.apply hm hfix hfixsafe hline hpatch hnone happlied :)

/-- **All attempts.** -/
theorem Accounts.attempts (h : Accounts f tried o) (vs : List Violation) :
    Accounts f (tried ++ vs) (vs.foldl FixOutcome.attempt o) := by
  induction vs generalizing tried o with
  | nil => rwa [List.append_nil]
  | cons v vs ih =>
    have hrest := ih (h.attempt v)
    rwa [List.append_assoc] at hrest

@[simp] theorem mark_applied (o : FixOutcome) : o.mark.applied = o.applied := by
  unfold mark; split <;> rfl

@[simp] theorem mark_rejected (o : FixOutcome) : o.mark.rejected = o.rejected := by
  unfold mark; split <;> rfl

theorem mark_file (o : FixOutcome) : o.mark.file =
    { o.file with modified := o.file.modified || !o.applied.isEmpty } := by
  unfold mark
  split
  · next hnone => simp [hnone]
  · next hsome => simp [hsome]

/-! ## Fixes that can be applied -/

/-- What is known of a file with a model when the fixes of some violations have been tried. -/
structure Tried (f : SourceFile) (m : TextModel) (tried : List Violation) (o : FixOutcome) :
    Prop where
  file : ∃ m', o.file = { f with model := some m' } ∧ m.IsPatch o.applied m'
  /-- Every violation was applied or rejected. -/
  perm : (o.applied ++ o.rejected).Perm tried
  /-- No line is fixed twice. -/
  once : (o.applied.map Violation.line).Nodup
  /-- Every line with a violation is fixed. -/
  covers : ∀ v ∈ tried, v.line ∈ o.applied.map Violation.line

/-- **If all fixes can be applied**, one of those on each line is. -/
theorem Accounts.of_fixable (h : Accounts f tried o) {m : TextModel} (hm : f.model = some m)
    (hvs : ∀ v ∈ tried, v.IsFixable m) : Tried f m tried o where
  file := by
    obtain ⟨lines, hlines, hpatch⟩ := h.model m hm
    exact ⟨_, by rw [h.file, hlines], hpatch⟩
  perm := h.perm
  once := by
    refine List.nodup_iff_count.mpr ?_
    intro n
    have hcount : (o.applied.map Violation.line).count n = (onLine n o.applied).length := by
      rw [List.count, List.countP_map, List.countP_eq_length_filter]
      rfl
    rw [hcount, h.applied]
    split
    · cases (onLine n tried).find? hasSafeFix with
      | none => exact Nat.zero_le 1
      | some w => exact Nat.le_refl 1
    · exact Nat.zero_le 1
  covers v hv := by
    obtain ⟨hsafe, hline⟩ := hvs v hv
    refine Decidable.byContradiction fun hnot => ?_
    have happlied := h.applied v.line
    have hhas : f.hasLine v.line = true := by
      rw [SourceFile.hasLine_eq hm]
      exact decide_eq_true hline
    rw [onLine_eq_nil_iff.mpr hnot, if_pos hhas] at happlied
    have hnone := List.find?_eq_none.mp (Option.toList_eq_nil_iff.mp happlied.symm)
    exact hnone v (mem_onLine_self.mpr hv) hsafe

/-- A file is marked as changed exactly if a fix was applied. -/
theorem Tried.mark_file {m : TextModel} (h : Tried f m tried o) : ∃ m', m.IsPatch o.applied m' ∧
    o.mark.file = { f with model := some m', modified := f.modified || !o.applied.isEmpty } := by
  obtain ⟨m', hfile, hpatch⟩ := h.file
  exact ⟨m', hpatch, by rw [FixOutcome.mark_file, hfile]⟩

end FixOutcome

theorem bottomUp_perm (vs : List Violation) : (bottomUp vs).Perm vs := List.mergeSort_perm ..

/-- What becomes of violations, before the file is marked. -/
theorem SourceFile.applyFixes_accounts (f : SourceFile) (vs : List Violation) :
    ∃ o, FixOutcome.Accounts f (bottomUp vs) o ∧ f.applyFixes vs = o.mark :=
  ⟨_, (FixOutcome.accounts_nil f).attempts (bottomUp vs), rfl⟩

/-- **What comes of fixes that can all be applied.** -/
theorem SourceFile.applyFixes_tried {f : SourceFile} {m : TextModel} {vs : List Violation}
    (hm : f.model = some m) (hvs : ∀ v ∈ vs, v.IsFixable m) :
    ∃ o, FixOutcome.Tried f m (bottomUp vs) o ∧ f.applyFixes vs = o.mark := by
  obtain ⟨o, haccounts, ho⟩ := f.applyFixes_accounts vs
  refine ⟨o, haccounts.of_fixable hm ?_, ho⟩
  intro v hv
  exact hvs v ((bottomUp_perm vs).mem_iff.mp hv)

end StyleEngine
