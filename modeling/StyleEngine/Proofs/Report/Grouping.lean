import StyleEngine.Proofs.Cache.Entries
import StyleEngine.Proofs.Text.Bytes
import StyleEngine.Report.Text

/-! # Violations in groups

The violations of a text report are put into groups one by one.  After each of them
every file name has the violations shown under it, in the order in which they came,
and the groups together have all violations (`ViolationGroups.Holds`).  So a report shows
every violation once: under the name of its file, or at the end
(`TextReport.format_plain`).
-/
namespace StyleEngine

namespace Record

variable {α : Type}

theorem lookup_of_mem {l : List (String × α)} (h : IsOrdered l) {e : String × α} (he : e ∈ l) :
    l.lookup e.1 = some e.2 := by
  induction l with
  | nil => cases he
  | cons e₁ rest ih =>
    obtain ⟨hlt, hrest⟩ := List.pairwise_cons.mp h
    rcases List.mem_cons.mp he with rfl | he
    · exact List.lookup_cons_self
    · have hne : e.1 ≠ e₁.1 := (String.ne_of_lt (hlt e he)).symm
      rw [← ih hrest he, lookup_cons_ne hne]

/-- The values of a map after one more item was put to the list under a key. -/
theorem flatMap_insertSorted_perm {l : List (String × List α)} (h : IsOrdered l) (k : String)
    (a : α) : ((insertSorted k ((l.lookup k).getD [] ++ [a]) l).flatMap Prod.snd).Perm
      (l.flatMap Prod.snd ++ [a]) := by
  induction l with
  | nil => exact List.Perm.refl _
  | cons e rest ih =>
    obtain ⟨k', as⟩ := e
    obtain ⟨hlt, hrest⟩ := List.pairwise_cons.mp h
    simp only [insertSorted]
    split
    · next hk =>
      have hnone : ((k', as) :: rest).lookup k = none := by
        refine lookup_eq_none_of_lt ?_
        intro e he
        rcases List.mem_cons.mp he with rfl | he
        · exact hk
        · exact String.lt_trans hk (hlt e he)
      rw [hnone, List.flatMap_cons]
      exact List.perm_append_comm
    · split
      · next heq =>
        subst heq
        rw [List.lookup_cons_self, Option.getD_some, List.flatMap_cons, List.flatMap_cons,
          List.append_assoc, List.append_assoc]
        exact List.perm_append_comm.append_left as
      · next hne =>
        rw [lookup_cons_ne hne, List.flatMap_cons, List.flatMap_cons, List.append_assoc]
        exact (ih hrest).append_left as

end Record

/-- Whether a violation is shown under a file name. -/
def Violation.isUnder (name : String) (v : Violation) : Bool :=
  v.file.any fun file => file.text == name

namespace ViolationGroups

/-- Whether groups have just the given violations, each of them under the name of its file or
outside of any file, in their order. -/
structure Holds (g : ViolationGroups) (vs : List Violation) : Prop where
  ordered : Record.IsOrdered g.files
  lookup (name : String) : g.files.lookup name =
    if vs.any (Violation.isUnder name) then some (vs.filter (Violation.isUnder name)) else none
  others : g.others = vs.filter fun v => v.file.isNone
  perm : (g.files.flatMap Prod.snd ++ g.others).Perm vs

theorem holds_nil : Holds {} [] := ⟨List.Pairwise.nil, fun _ => rfl, rfl, List.Perm.refl _⟩

/-- **Putting a violation into its group** changes no other group. -/
theorem Holds.add {g : ViolationGroups} {vs : List Violation} (h : g.Holds vs) (v : Violation) :
    (g.add v).Holds (vs ++ [v]) := by
  unfold ViolationGroups.add
  cases hfile : v.file with
  | none =>
    have hunder (name : String) : v.isUnder name = false := by simp [Violation.isUnder, hfile]
    refine ⟨h.ordered, ?_, ?_, ?_⟩
    · intro name
      simp [h.lookup, hunder]
    · simp [h.others, hfile]
    · rw [← List.append_assoc]
      exact h.perm.append_right [v]
  | some file =>
    refine ⟨Record.isOrdered_insertSorted _ _ h.ordered, ?_, ?_, ?_⟩
    · intro name
      have hunder : v.isUnder name = (file.text == name) := by simp [Violation.isUnder, hfile]
      have hfound : (g.files.lookup file.text).getD [] =
          vs.filter (Violation.isUnder file.text) := by
        rw [h.lookup]
        split
        · rfl
        · next hnone =>
          symm
          simpa [List.filter_eq_nil_iff] using hnone
      rw [Record.lookup_insertSorted, hfound]
      by_cases hname : name = file.text
      · subst hname
        simp [hunder]
      · have hother : (file.text == name) = false := beq_false_of_ne (Ne.symm hname)
        simp [hname, hunder, hother, h.lookup]
    · simp [h.others, hfile]
    · have hput := Record.flatMap_insertSorted_perm h.ordered file.text v
      have hmove : (g.files.flatMap Prod.snd ++ [v] ++ g.others).Perm
          (g.files.flatMap Prod.snd ++ g.others ++ [v]) := by
        rw [List.append_assoc, List.append_assoc]
        exact List.perm_append_comm.append_left _
      exact ((hput.append_right g.others).trans hmove).trans (h.perm.append_right [v])

/-- **All violations are in their groups** at the end. -/
theorem holds_ofViolations (vs : List Violation) : (ofViolations vs).Holds vs := by
  have hfold (ws done : List Violation) (g : ViolationGroups) (h : g.Holds done) :
      (ws.foldl add g).Holds (done ++ ws) := by
    induction ws generalizing g done with
    | nil => rwa [List.append_nil]
    | cons v ws ih =>
      have hrest := ih (done ++ [v]) (g.add v) (h.add v)
      rwa [List.append_assoc, List.singleton_append] at hrest
  exact hfold vs [] {} holds_nil

variable {g : ViolationGroups} {vs : List Violation}

/-- The violations of a group are those that are shown under its name. -/
theorem Holds.eq_of_mem (h : g.Holds vs) {file : String × List Violation} (hfile : file ∈ g.files) :
    vs.any (Violation.isUnder file.1) = true ∧ vs.filter (Violation.isUnder file.1) = file.2 := by
  have hlookup := h.lookup file.1
  rw [Record.lookup_of_mem h.ordered hfile] at hlookup
  split at hlookup
  · next hany => exact ⟨hany, (Option.some.inj hlookup).symm⟩
  · cases hlookup

/-- The names of groups are those that violations are shown under. -/
theorem Holds.mem_names_iff (h : g.Holds vs) (name : String) :
    name ∈ g.files.map Prod.fst ↔ ∃ v ∈ vs, v.isUnder name = true := by
  rw [← List.any_eq_true]
  constructor
  · intro hname
    obtain ⟨file, hfile, rfl⟩ := List.mem_map.mp hname
    exact (h.eq_of_mem hfile).1
  · intro hany
    have hlookup := h.lookup name
    rw [if_pos hany] at hlookup
    obtain ⟨before, rest, hfiles, -⟩ := List.lookup_eq_some_iff.mp hlookup
    rw [hfiles, List.map_append, List.map_cons]
    exact List.mem_append_right _ List.mem_cons_self

theorem Holds.map_files (h : g.Holds vs) {β : Type} (f : String → List Violation → β) :
    g.files.map (fun file => f file.1 file.2) =
      (g.files.map Prod.fst).map fun name => f name (vs.filter (Violation.isUnder name)) := by
  rw [List.map_map]
  refine List.map_congr_left ?_
  intro file hfile
  rw [Function.comp, (h.eq_of_mem hfile).2]

end ViolationGroups

namespace TextReport

/-- The report without colours. -/
def plain (r : TextReport) : TextReport := { r with colored := false }

/-- A report starts with the violations; what comes then does not tell of them. -/
theorem format_eq (r : TextReport) (s : RunSummary) :
    r.format s = r.violationPart s.violations ++ r.format { s with violations := [] } := by
  have hnil : r.violationPart [] = "" := rfl
  simp only [format, hnil, String.empty_append, String.append_assoc]
  rfl

/-- **A report without colours shows every violation once**: under the name of its file, with the
names in ascending order of their bytes, or behind all files if it has none.  Violations under one
name keep their order. -/
theorem format_plain (r : TextReport) (s : RunSummary) :
    ∃ names : List String,
      names.Pairwise (fun name name' => name.toUTF8.toList < name'.toUTF8.toList) ∧
      (∀ name, name ∈ names ↔ ∃ v ∈ s.violations, v.isUnder name = true) ∧
      r.plain.format s =
        String.join (names.map fun name => name ++ "\n" ++
          String.join ((s.violations.filter (Violation.isUnder name)).map
            r.plain.formatViolation) ++ "\n") ++
        String.join ((s.violations.filter fun v => v.file.isNone).map r.plain.formatViolation) ++
        r.plain.format { s with violations := [] } ∧
      (names.flatMap (fun name => s.violations.filter (Violation.isUnder name)) ++
        s.violations.filter fun v => v.file.isNone).Perm s.violations := by
  have h := ViolationGroups.holds_ofViolations s.violations
  refine ⟨(ViolationGroups.ofViolations s.violations).files.map Prod.fst, ?ascending,
    h.mem_names_iff, ?text, ?permutation⟩
  case ascending =>
    rw [List.pairwise_map]
    exact h.ordered.imp toList_toUTF8_lt_iff.mpr
  case text =>
    have hfiles := h.map_files fun name vs =>
      name ++ "\n" ++ String.join (vs.map r.plain.formatViolation) ++ "\n"
    rw [format_eq, ← hfiles, ← h.others]
    rfl
  case permutation =>
    have hfiles := h.map_files fun _ vs => vs
    have hperm := h.perm
    rw [h.others, List.flatMap_def, hfiles, ← List.flatMap_def] at hperm
    exact hperm

end TextReport

end StyleEngine
