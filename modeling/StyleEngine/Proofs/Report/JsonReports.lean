import StyleEngine.Proofs.Cache.StoredDocument
import StyleEngine.Proofs.Json.Layouts
import StyleEngine.Report.Json

/-! # Reports that are read back

A JSON report shows violations in an order of members of its own, and leaves out what
a violation lacks.  Whoever reads violations from data files reads from it the same
violations (`JsonReport.read?_ofViolation`), in either layout, one by one or as the
list that the report of a run has (`JsonReport.read?_format`).
-/
namespace StyleEngine

namespace JsonReport

/-! ## Members that may be left out -/

section

variable {α : Type} (name : String) (f : α → Json) (o : Option α)

theorem keys_member_sublist : ((member name f o).map Prod.fst).Sublist [name] := by
  cases o with
  | none => exact List.nil_sublist _
  | some a => exact List.Sublist.refl _

variable {name f o} in
theorem isPlain_of_mem_member (hf : ∀ a, (f a).IsPlain) {m : String × Json}
    (hm : m ∈ member name f o) : m.2.IsPlain := by
  cases o with
  | none => cases hm
  | some a =>
    rw [List.mem_singleton.mp hm]
    exact hf a

theorem lookup_member (key : String) :
    (member name f o).lookup key = if key = name then o.map f else none := by
  cases o with
  | none => exact (ite_self none).symm
  | some a =>
    by_cases hkey : key = name
    · rw [if_pos hkey, hkey]
      exact List.lookup_cons_self
    · rw [if_neg hkey]
      exact Record.lookup_cons_ne hkey ..

end

/-! ## Violations -/

/-- The members of a violation are those of its record, in another order. -/
theorem row?_members (v : Violation) :
    Record.row? Violation.fieldNames (.obj (members v)) = some (members v) := by
  refine Record.row?_of_sublist
    ["rule_id", "severity", "message", "file", "line", "element", "fix"]
    (by decide) (by decide) ?_
  simp only [members, List.map_append]
  exact ((((List.Sublist.refl _).append (keys_member_sublist ..)).append
    (List.Sublist.refl _)).append (keys_member_sublist ..)).append (keys_member_sublist ..)

/-- **What is shown of a violation is read as that violation**, if its line is a number of 64
bits. -/
theorem read?_ofViolation {v : Violation} (h : v.line ≤ Record.maxCount) :
    Violation.read? (ofViolation v) = some v := by
  have hruleId : Record.required (members v) "rule_id" DataNode.text? = some v.ruleId := rfl
  have hseverity : Record.orElse (members v) "severity" .warning Severity.read? =
      some v.severity := Severity.ofName?_name v.severity
  have hmessage : Record.required (members v) "message" DataNode.text? = some v.message := rfl
  have hfile : Record.orElse (members v) "file" none (Record.optional DataNode.text?) =
      some (v.file.map Path.text) := by
    refine Record.orElse_of_lookup_str ?_
    simp [members, List.lookup_append, lookup_member, List.lookup_cons, Function.comp_def]
  have helement : Record.orElse (members v) "element" none (Record.optional DataNode.text?) =
      some v.element := by
    refine Record.orElse_of_lookup_str ?_
    simp [members, List.lookup_append, lookup_member, List.lookup_cons]
  have hline : Record.required (members v) "line" (Record.countUpTo Record.maxCount) =
      some v.line := by
    simp [Record.required, members, List.lookup_append, lookup_member, List.lookup_cons,
      Record.countUpTo_nat h]
  have hfix : Record.orElse (members v) "fix" none (Record.optional Fix.read?) = some v.fix := by
    refine Record.orElse_of_lookup Fix.toJson ?_ fun f _ => ⟨f.read?_toJson, by simp [Fix.toJson]⟩
    simp [members, List.lookup_append, lookup_member, List.lookup_cons]
  have hpath : (v.file.map Path.text).map Path.mk = v.file := by
    cases v.file <;> rfl
  rw [Violation.read?, ofViolation, row?_members, Option.bind_some]
  simp only [hruleId, hseverity, hmessage, hfile, helement, hline, hfix]
  show some { v with file := (v.file.map Path.text).map Path.mk } = some v
  rw [hpath]

theorem isPlain_ofViolation (v : Violation) : (ofViolation v).IsPlain := by
  refine .obj ?_
  intro m hm
  simp only [members, List.mem_append, List.mem_cons, List.not_mem_nil, or_false] at hm
  rcases hm with (((((rfl | rfl | rfl) | hm) | rfl) | hm) | hm)
  · exact .str _
  · exact .str _
  · exact .str _
  · exact isPlain_of_mem_member (fun p => .str (Path.text p)) hm
  · exact .nat _
  · exact isPlain_of_mem_member .str hm
  · exact isPlain_of_mem_member Fix.isPlain_toJson hm

/-! ## Summaries -/

/-- Reads the violations from the report of a run. -/
def readViolations? {ν : Type} [DataNode ν] (n : ν) : Option (List Violation) :=
  (Record.row? ["violations"] n).bind fun row =>
    Record.required row "violations" (Record.list Violation.read?)

theorem readViolations?_ofSummary {s : RunSummary}
    (h : ∀ v ∈ s.violations, v.line ≤ Record.maxCount) :
    readViolations? (ofSummary s) = some s.violations := by
  -- the counts of the run are passed over
  have hrow : Record.row? ["violations"] (ofSummary s) =
      some [("violations", .arr (s.violations.map ofViolation))] := rfl
  rw [readViolations?, hrow, Option.bind_some]
  exact Record.list_arr fun v hv => read?_ofViolation (h v hv)

theorem isPlain_ofSummary (s : RunSummary) : (ofSummary s).IsPlain := by
  refine .obj ?_
  intro m hm
  simp only [List.mem_cons, List.not_mem_nil, or_false] at hm
  rcases hm with rfl | rfl
  · exact Json.isPlain_arr isPlain_ofViolation _
  · refine .obj ?_
    simp [Json.IsPlain.nat, Json.IsPlain.bool]

/-! ## Texts -/

theorem parse?_render (r : JsonReport) {v : Json} (h : v.IsPlain) :
    Json.parse? (r.render v) = some v := by
  unfold render
  split
  · exact h.parse?_pretty
  · exact h.parse?_compact

/-- **Reports are read back**, in either layout and whatever their texts are: that of a violation
as the violation, and that of a run as a document with just the violations of the run, in their
order.  The lines of violations are numbers of 64 bits. -/
theorem read?_format (r : JsonReport) :
    (∀ v : Violation, v.line ≤ Record.maxCount →
      DataFormat.json.read? (fun _ => Violation.read?) (r.formatViolation v) = some v) ∧
    ∀ s : RunSummary, (∀ v ∈ s.violations, v.line ≤ Record.maxCount) →
      DataFormat.json.read? (fun _ => readViolations?) (r.format s) = some s.violations := by
  refine ⟨?_, ?_⟩
  · intro v hline
    show (Json.parse? (r.render (ofViolation v))).bind Violation.read? = some v
    rw [parse?_render r (isPlain_ofViolation v), Option.bind_some, read?_ofViolation hline]
  · intro s hlines
    show (Json.parse? (r.render (ofSummary s))).bind readViolations? = some s.violations
    rw [parse?_render r (isPlain_ofSummary s), Option.bind_some, readViolations?_ofSummary hlines]

/-- A run with quotes, control characters and letters of several alphabets in its violations, one
of them with all it may have and one with as little as there can be. -/
def motley : RunSummary where
  violations := [
    { ruleId := "NoTabs", severity := .info, message := "\t\"\\\u001f 日本 😀\r\n"
      file := some ⟨"src/\"a\"\\b.txt"⟩, element := some "", line := Record.maxCount
      fix := some { description := "пример", replacement := "", safety := .risky } },
    Violation.exception "boom"]
  filesTotal := 1
  durationMs := 18446744073709551616

theorem read?_format_motley :
    (∀ v ∈ motley.violations, v.line ≤ Record.maxCount) ∧
      (∀ v ∈ motley.violations, DataFormat.json.read? (fun _ => Violation.read?)
        (formatViolation { pretty := true } v) = some v) ∧
      DataFormat.json.read? (fun _ => readViolations?) (format {} motley) =
        some motley.violations := by
  have hlines : ∀ v ∈ motley.violations, v.line ≤ Record.maxCount := by decide
  exact ⟨hlines, fun v hv => (read?_format { pretty := true }).1 v (hlines v hv),
    (read?_format {}).2 motley hlines⟩

end JsonReport

end StyleEngine
