import StyleEngine.Proofs.Analysis.Findings
import StyleEngine.Proofs.Analysis.FixRuns
import StyleEngine.Proofs.Text.Rendering

/-! # What is recorded on a file

Where text parsers and pattern analyzers are the only add-ins, a run that does not
fix files records on a file exactly what is found in it.  One that fixes files
does so too unless it changes the file: a report that is held back can always be
applied, as its fix is safe and its line exists.
-/
namespace StyleEngine

/-! ## Fixing -/

/-- A hit stands on a line of the file. -/
theorem PatternAnalyzer.line_of_mem_hitsFrom {path : Path} {r : Rule} {p : Pattern} {n : Nat}
    {lines : List String} {v : Violation} (h : v ∈ hitsFrom path r p n lines) :
    n ≤ v.line ∧ v.line < n + lines.length := by
  induction lines generalizing n with
  | nil => cases h
  | cons line rest ih =>
    rw [List.length_cons]
    rcases List.mem_append.mp h with h | h
    · obtain ⟨text, -, rfl⟩ := Option.map_eq_some_iff.mp (Option.mem_toList.mp h)
      exact ⟨Nat.le_refl n, Nat.lt_add_of_pos_right (Nat.succ_pos _)⟩
    · obtain ⟨hge, hlt⟩ := ih h
      exact ⟨by omega, by omega⟩

theorem Registry.line_of_mem_reports {r : Registry} {ctx : FileContext} {parser : String}
    {path : Path} {m : TextModel} {v : Violation} (h : v ∈ r.reports ctx parser path m) :
    1 ≤ v.line ∧ v.line ≤ m.lines.length := by
  obtain ⟨a, -, ha⟩ := List.mem_flatMap.mp h
  split at ha
  · obtain ⟨⟨rule, p⟩, -, hrule⟩ := List.mem_flatMap.mp ha
    simp only at hrule
    split at hrule
    · obtain ⟨hge, hlt⟩ := PatternAnalyzer.line_of_mem_hitsFrom hrule
      exact ⟨hge, by omega⟩
    · cases hrule
  · cases ha

theorem Visit.graded_line (ctx : FileContext) (v : Violation) :
    (graded ctx v).line = v.line := by
  unfold graded; split <;> rfl

/-- What is held back can be applied: it has a safe fix and stands on a line. -/
theorem Visit.Reported.of_mem_held {ctx : FileContext} {f : SourceFile} {m : TextModel}
    {vs : List Violation} {s : Visit} (h : Reported ctx f m vs s)
    (hvs : ∀ v ∈ vs, 1 ≤ v.line ∧ v.line ≤ m.lines.length) {v : Violation} (hv : v ∈ s.held) :
    v.IsFixable m := by
  rw [h.held] at hv
  obtain ⟨hcounted, hback⟩ := List.mem_filter.mp (Violation.mem_of_mem_distinct hv)
  obtain ⟨hgraded, -⟩ := List.mem_filter.mp hcounted
  obtain ⟨w, hw, rfl⟩ := List.mem_map.mp hgraded
  refine ⟨(Bool.and_eq_true_iff.mp hback).2, ?_⟩
  rw [graded_line]
  exact hvs w hw

theorem SourceFile.applyFixes_nil (f : SourceFile) : f.applyFixes [] = { file := f } := by
  simp [applyFixes, bottomUp, FixOutcome.mark]

/-- **Fixes that can be applied change the file.** -/
theorem SourceFile.applyFixes_modified {f : SourceFile} {m : TextModel} {vs : List Violation}
    (hm : f.model = some m) (hne : vs ≠ []) (h : ∀ v ∈ vs, v.IsFixable m) :
    ∃ m', (f.applyFixes vs).file = { f with model := some m', modified := true } := by
  obtain ⟨o, htried, ho⟩ := applyFixes_tried hm h
  obtain ⟨m', -, hfile⟩ := htried.mark_file
  obtain ⟨v, hv⟩ := List.exists_mem_of_ne_nil vs hne
  have happlied : o.applied ≠ [] := by
    intro hnil
    have hline := htried.covers v ((bottomUp_perm vs).mem_iff.mpr hv)
    rw [hnil] at hline
    cases hline
  refine ⟨m', ?_⟩
  rw [ho, hfile]
  simp [happlied]

/-- If nothing is held back, everything that counts is recorded. -/
theorem Visit.Reported.violations_eq {ctx : FileContext} {f : SourceFile} {m : TextModel}
    {vs : List Violation} {s : Visit} (h : Reported ctx f m vs s) (hheld : s.held = []) :
    s.file.violations = Violation.distinct (counted ctx m vs) := by
  rw [h.held] at hheld
  have hnone := List.filter_eq_nil_iff.mp (Violation.eq_nil_of_distinct hheld)
  have hall : (counted ctx m vs).filter (fun v => !isHeldBack ctx v) = counted ctx m vs :=
    List.filter_eq_self.mpr fun v hv => by simpa using hnone v hv
  rw [h.file, hall]

/-! ## The work on a file -/

/-- Whether a file is as it is before a run, with a text. -/
structure SourceFile.IsReset (f : SourceFile) (text : String) : Prop where
  text : f.text = some text
  violations : f.violations = []
  done : f.done = false
  modified : f.modified = false

/-- A file that was reset is as before its next run. -/
theorem SourceFile.isReset_reset {f : SourceFile} {text : String}
    (h : f.sourceText? = some text) : f.reset.IsReset text := ⟨h, rfl, rfl, rfl⟩

/-- What is known of the result of work on a file with a text, in which `vs` is found. -/
structure Processed.Finds (p : Processed) (text : String) (vs : List Violation) : Prop where
  fatal : p.fatal = none
  outcome : p.outcome ≠ .deferred
  saved : p.change = .save → p.file.modified = false
  violations : p.file.modified = false → p.file.violations = vs
  source : ∃ text', p.file.sourceText? = some text' ∧
    (p.file.modified = false → TextModel.ofText text' = TextModel.ofText text)

namespace FileJob

variable {j : FileJob} {f : SourceFile} {m : TextModel} {vs : List Violation} {text : String}

/-- Fixes that are tried leave what was recorded, or change the file. -/
theorem fix_reported {s : Visit} (h : Visit.Reported j.context f m vs s)
    (hvs : ∀ v ∈ vs, 1 ≤ v.line ∧ v.line ≤ m.lines.length) :
    (j.fix { visit := s }).1.visit.file.text = f.text ∧
    (j.fix { visit := s }).1.visit.file.model.isSome = true ∧
    ((j.fix { visit := s }).1.visit.file.modified = false →
      (j.fix { visit := s }).1.visit.file.model = some m ∧
      (j.fix { visit := s }).1.visit.file.violations =
        Violation.distinct (Visit.counted j.context m vs)) := by
  have htext : s.file.text = f.text := by rw [h.file]
  unfold fix
  cases hfix : j.context.autoFix with
  | false =>
    -- without fixes nothing is held back, and what was recorded stays
    have hback : Visit.isHeldBack j.context = fun _ => false := by
      funext v
      simp [Visit.isHeldBack, hfix]
    have hheld : s.held = [] := by
      rw [h.held, hback, List.filter_eq_nil_iff.mpr fun v _ => Bool.false_ne_true]
      rfl
    exact ⟨htext, by simp [h.model], fun _ => ⟨h.model, h.violations_eq hheld⟩⟩
  | true =>
    simp only [↓reduceIte]
    by_cases hheld : s.held = []
    · rw [hheld, SourceFile.applyFixes_nil]
      exact ⟨htext, by simp [h.model], fun _ => ⟨h.model, h.violations_eq hheld⟩⟩
    · -- a fix that was held back changes the file, whose violations are then not looked at
      obtain ⟨m', hfile⟩ := SourceFile.applyFixes_modified h.model hheld
        fun v hv => h.of_mem_held hvs hv
      simp only [Visit.publishAll_file, hfile]
      exact ⟨htext, rfl, nofun⟩

/-- A file with a text is parsed, analyzed and fixed. -/
theorem parse_reported (hj : j.registry.IsBuiltin) {e : ParserEntry} (he : e ∈ j.registry.parsers)
    (hf : f.IsReset text) : ∃ s, Visit.Reported j.context { f with text := none }
        (TextModel.ofText text)
        (j.registry.reports j.context e.parser.id f.path (TextModel.ofText text)) s ∧
      j.parse e f = j.finish (j.fix { visit := s }).1 (j.fix { visit := s }).2 := by
  obtain ⟨id, extensions, heq⟩ := hj.parser e he
  have hparse : e.parser.parse e.profile j.context = TextParser.parse := by rw [heq]; rfl
  have hrun : TextParser.parse.run j.context
      (({ file := f } : Visit).emit (.parsing e.parser.id f.path j.context.pass)) =
      ({ file := { f with text := none, model := some (TextModel.ofText text) }
         events := [.parsing e.parser.id f.path j.context.pass] }, .ok .complete) := by
    simp [TextParser.parse, Act.run, Visit.emit, hf.text, SourceFile.takeText,
      SourceFile.setModel]
  have hstart : Visit.Reported j.context { f with text := none } (TextModel.ofText text) []
      { file := { f with text := none, model := some (TextModel.ofText text) }
        events := [.parsing e.parser.id f.path j.context.pass] } :=
    ⟨by simp [Visit.counted, Violation.distinct, hf.violations], rfl⟩
  obtain ⟨s, hs, hrep⟩ := analyzeAll_reported hj (a := { visit := _ }) hstart e.parser.id
  refine ⟨s, hrep, ?_⟩
  simp only [parse, hparse, hrun, hs]

/-- **What comes of a file that is parsed.** -/
theorem parse_finds (hj : j.registry.IsBuiltin) {e : ParserEntry} (he : e ∈ j.registry.parsers)
    (hf : f.IsReset text) : (j.parse e f).Finds text (Violation.distinct
      (Visit.counted j.context (TextModel.ofText text)
        (j.registry.reports j.context e.parser.id f.path (TextModel.ofText text)))) := by
  obtain ⟨s, hrep, hparsed⟩ := parse_reported hj he hf
  obtain ⟨htext, hmodel, hkept⟩ := fix_reported hrep fun v hv => Registry.line_of_mem_reports hv
  have hfailed : (j.fix { visit := s }).1.failed = false ∧
      (j.fix { visit := s }).1.fatal = none := by
    unfold fix; split <;> exact ⟨rfl, rfl⟩
  rw [hparsed]
  obtain ⟨m', hm'⟩ := Option.isSome_iff_exists.mp hmodel
  have hsource : (j.fix { visit := s }).1.visit.file.markDone.sourceText? = some m'.source := by
    simp only [SourceFile.sourceText?, SourceFile.markDone, htext, hm', Option.map_some]
  refine ⟨hfailed.2, by simp [finish], ?_, fun hno => (hkept hno).2, m'.source, hsource, ?_⟩
  · intro hsave
    simp only [finish] at hsave
    split at hsave
    · next hcond =>
      have hsame : (j.fix { visit := s }).1.visit.file.modified = false := by
        simpa [hfailed.1] using (Bool.and_eq_true_iff.mp hcond).2
      exact hsame
    · cases hsave
  · intro hno
    obtain rfl : m' = TextModel.ofText text := Option.some.inj (hm'.symm.trans (hkept hno).1)
    exact TextModel.ofText_source text

/-- A file on which cached violations are put has these. -/
theorem process_serves (hf : f.IsReset text) (hvs : Violation.NoRepeats vs) :
    (j.process (some vs) f).Finds text vs := by
  have hp : j.process (some vs) f = serve f vs := by simp [process, hf.done]
  rw [hp]
  refine ⟨rfl, by simp [serve], (fun h => by cases h), ?_, text, ?_, fun _ => rfl⟩
  · intro _
    rw [serve_file, hf.violations]
    exact Violation.distinct_of_noRepeats hvs
  · simp [serve_file, SourceFile.sourceText?, hf.text]

/-- **What comes of a file** if the cache has nothing for it, or what is found in it: that, or
the file is changed. -/
theorem process_finds (hj : j.registry.IsBuiltin) (hf : f.IsReset text)
    {cached : Option (List Violation)}
    (hc : ∀ vs, cached = some vs →
      vs = j.registry.findings j.context f.path (TextModel.ofText text)) :
    (j.process cached f).Finds text
      (j.registry.findings j.context f.path (TextModel.ofText text)) := by
  rcases j.process_cases cached f with ⟨hd, -⟩ | ⟨-, -, hp, hoff⟩ | ⟨-, vs, hvs, -⟩ |
    ⟨-, -, e, he, hon, hp⟩
  · rw [hf.done] at hd
    cases hd
  · have hnone : j.registry.findings j.context f.path (TextModel.ofText text) = [] := by
      rw [Registry.findings, reader?_eq_none hoff]
    rw [hp, hnone]
    refine ⟨rfl, by simp [skip], (fun h => by cases h), fun _ => hf.violations, text, ?_,
      fun _ => rfl⟩
    simp [skip, SourceFile.markDone, SourceFile.sourceText?, hf.text]
  · obtain rfl := hc vs hvs
    rw [hvs]
    exact process_serves hf (Registry.noRepeats_findings ..)
  · have hfindings := parse_finds hj (mem_parsers_of_parserOf? he) hf
    rw [hp, Registry.findings, reader?_of_parserOf? he hon]
    exact hfindings

end FileJob

end StyleEngine
