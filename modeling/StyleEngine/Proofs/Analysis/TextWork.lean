import StyleEngine.Proofs.Analysis.Findings

/-! # The text of a file under analysis

Where a text parser reads a file and what checks it leaves the text alone
(`Registry.ReadsTexts`), a file has its text all through a run: raw until the parser
takes it, then in the model (`FileJob.process_holds`).  Only a fix gives it another
text, and then the file is marked as modified.
-/
namespace StyleEngine

/-! ## Acts that leave the text alone -/

/-- Whether acts neither take the text of a file nor set its model. -/
def Act.LeavesText {α : Type} : Act α → Prop
  | .done _ => True
  | .stop _ => True
  | .takeText _ => False
  | .look next => ∀ f, (next f).LeavesText
  | .setModel _ _ => False
  | .report _ next => ∀ isNew, (next isNew).LeavesText
  | .reportOn _ _ next => ∀ f isNew, (next f isNew).LeavesText
  | .output _ next => next.LeavesText
  | .note _ next => next.LeavesText
  | .cancel next => next.LeavesText

/-- Whether a file has the text, the model and the modified marker of another. -/
structure SourceFile.SameContent (f g : SourceFile) : Prop where
  text : g.text = f.text
  model : g.model = f.model
  modified : g.modified = f.modified

namespace SourceFile.SameContent

theorem refl (f : SourceFile) : f.SameContent f := ⟨rfl, rfl, rfl⟩

theorem trans {f g h : SourceFile} (hg : f.SameContent g) (hh : g.SameContent h) :
    f.SameContent h :=
  ⟨hh.text.trans hg.text, hh.model.trans hg.model, hh.modified.trans hg.modified⟩

end SourceFile.SameContent

namespace Visit

theorem publish_sameContent (s : Visit) (v : Violation) :
    s.file.SameContent (s.publish v).1.file := by
  rw [publish_file]
  exact ⟨rfl, rfl, rfl⟩

theorem report_sameContent (ctx : FileContext) (s : Visit) (v : Violation) :
    s.file.SameContent (s.report ctx v).1.file := by
  simp only [report]
  split
  · exact .refl _
  · split
    · split <;> exact .refl _
    · exact publish_sameContent _ _

/-- A report on another file leaves the file under analysis alone. -/
@[simp] theorem reportOn_file (ctx : FileContext) (s : Visit) (f : SourceFile) (v : Violation) :
    (s.reportOn ctx f v).1.file = s.file := by
  simp only [reportOn]
  split
  · rfl
  · split
    · split <;> rfl
    · split <;> rfl

end Visit

namespace Act

variable {α β : Type}

theorem LeavesText.run {a : Act α} (h : a.LeavesText) (ctx : FileContext) (s : Visit) :
    s.file.SameContent (a.run ctx s).1.file := by
  induction a generalizing s with
  | done _ => exact .refl _
  | stop _ => exact .refl _
  | takeText _ _ => cases h
  | look _ ih => exact ih _ (h _) s
  | setModel _ _ _ => cases h
  | report v _ ih => exact (s.report_sameContent ctx v).trans (ih _ (h _) _)
  | reportOn f v _ ih =>
    rw [← s.reportOn_file ctx f v]
    exact ih _ _ (h _ _) _
  | output o _ ih => exact ih h (s.emit (.output o))
  | note text _ ih => exact ih h (s.emit (.note text))
  | cancel _ ih => exact ih h (s.emit .cancel)

theorem LeavesText.bind {a : Act α} (h : a.LeavesText) {k : α → Act β}
    (hk : ∀ x, (k x).LeavesText) : (a.bind k).LeavesText := by
  induction a with
  | done x => exact hk x
  | stop _ => exact h
  | takeText _ _ => cases h
  | look _ ih => exact fun f => ih f (h f)
  | setModel _ _ _ => cases h
  | report _ _ ih => exact fun isNew => ih isNew (h isNew)
  | reportOn _ _ _ ih => exact fun f isNew => ih f isNew (h f isNew)
  | output _ _ ih => exact ih h
  | note _ _ ih => exact ih h
  | cancel _ ih => exact ih h

theorem leavesText_reportAll (vs : List Violation) : (reportAll vs).LeavesText := by
  induction vs with
  | nil => trivial
  | cons v vs ih => exact fun _ => ih

end Act

/-- Pattern analyzers only look at a file and report. -/
theorem PatternAnalyzer.leavesText_check (ctx : FileContext) (rules : List (Rule × Pattern)) :
    (check ctx rules).LeavesText := by
  induction rules with
  | nil => trivial
  | cons rp rest ih =>
    obtain ⟨r, p⟩ := rp
    intro f
    show Act.LeavesText (if ctx.isRuleEnabled r.id f.path = true then _ else _)
    split
    · exact (Act.leavesText_reportAll _).bind fun _ => ih
    · exact ih

/-! ## Files that hold a text -/

/-- Whether a text parser reads the file at a path, if any parser does, and those who check the
file leave its text alone. -/
structure Registry.ReadsTexts (r : Registry) (path : Path) : Prop where
  parse : ∀ {s : Settings} {e : ParserEntry}, r.reader? s path = some e → ∀ ctx,
    e.parser.parse e.profile ctx = TextParser.parse
  analyze : ∀ {s : Settings} {e : ParserEntry}, r.reader? s path = some e →
    ∀ a ∈ r.analyzersOf e.parser.id, ∀ ctx, (a.analyzer.analyze a.profile ctx).LeavesText

theorem Registry.mem_parsers_of_reader? {r : Registry} {s : Settings} {path : Path}
    {e : ParserEntry} (h : r.reader? s path = some e) : e ∈ r.parsers := by
  obtain ⟨hparser, -⟩ := Option.filter_eq_some_iff.mp h
  obtain ⟨extension, -, he⟩ := Option.bind_eq_some_iff.mp hparser
  exact mem_parsers_of_parserFor? he

/-- Text parsers and pattern analyzers treat texts so. -/
theorem Registry.IsBuiltin.readsTexts {r : Registry} (h : r.IsBuiltin) (path : Path) :
    r.ReadsTexts path where
  parse he ctx := by
    obtain ⟨id, extensions, heq⟩ := h.parser _ (mem_parsers_of_reader? he)
    rw [heq]
    rfl
  analyze _ a ha ctx := by
    obtain ⟨id, parserId, heq⟩ := h.analyzer a (mem_analyzers_of_analyzersOf ha)
    rw [heq]
    exact PatternAnalyzer.leavesText_check ctx _

/-- Whether a file has a text, raw or in the model that it was made into.  The model of a file
that fixes have changed may be that of any text. -/
inductive SourceFile.Holds (f : SourceFile) (text : String) : Prop
  | raw (htext : f.text = some text) (hmodel : f.model = none) (hmodified : f.modified = false)
  | parsed {m : TextModel} (htext : f.text = none) (hmodel : f.model = some m)
    (horigin : f.modified = false → m = .ofText text)

namespace SourceFile

variable {f g : SourceFile} {text : String}

theorem Holds.of_sameContent (h : f.Holds text) (hg : f.SameContent g) : g.Holds text := by
  rcases h with ⟨htext, hmodel, hmodified⟩ | ⟨htext, hmodel, horigin⟩
  · exact .raw (hg.text.trans htext) (hg.model.trans hmodel) (hg.modified.trans hmodified)
  · exact .parsed (hg.text.trans htext) (hg.model.trans hmodel) fun h =>
      horigin (hg.modified.symm.trans h)

theorem holds_reset (h : f.reset.text = some text) : f.reset.Holds text := .raw h rfl rfl

/-- What a file that fixes have not changed is reset to. -/
theorem Holds.reset (h : f.Holds text) (hmodified : f.modified = false) :
    f.reset.digest = f.digest ∧
      (f.reset.text = some text ∨ f.reset.text = some (TextModel.ofText text).source) := by
  have hdigest : f.reset.digest = f.digest := by simp [SourceFile.reset, hmodified]
  refine ⟨hdigest, ?_⟩
  rcases h with ⟨htext, -, -⟩ | ⟨htext, hmodel, horigin⟩
  · exact .inl (by simp [SourceFile.reset, sourceText?, htext])
  · obtain rfl := horigin hmodified
    exact .inr (by simp [SourceFile.reset, sourceText?, htext, hmodel])

/-- A file that fixes have changed is reset to a text with its digest. -/
theorem Holds.reset_modified (h : f.Holds text) (hmodified : f.modified = true) :
    ∃ text', f.sourceText? = some text' ∧ f.reset.text = some text' ∧
      f.reset.digest = Digest.ofText text' := by
  rcases h with ⟨-, -, hno⟩ | @⟨m, htext, hmodel, -⟩
  · rw [hmodified] at hno
    cases hno
  · have hsource : f.sourceText? = some m.source := by
      rw [sourceText?, htext, hmodel, Option.map_some]
    exact ⟨_, hsource, hsource, by simp only [SourceFile.reset, hmodified, hsource]⟩

end SourceFile

/-! ## Fixes -/

/-- Trying a fix keeps a model of the file, and keeps this one if the fix is not applied. -/
theorem FixOutcome.attempt_kept {o : FixOutcome} {m : TextModel} (hm : o.file.model = some m)
    (v : Violation) : ∃ m', (o.attempt v).file = { o.file with model := some m' } ∧
      ((o.attempt v).applied = [] → o.applied = [] ∧ m' = m) := by
  unfold attempt
  cases hf : o.fixed? v with
  | none => exact ⟨m, by rw [← hm], fun h => ⟨h, rfl⟩⟩
  | some file =>
    simp only [fixed?] at hf
    split at hf
    · obtain ⟨m', -, rfl⟩ := Option.map_eq_some_iff.mp hf
      exact ⟨m', rfl, fun h => absurd h (by simp)⟩
    · cases hf

theorem FixOutcome.attempts_kept {o : FixOutcome} {m : TextModel} (hm : o.file.model = some m)
    (vs : List Violation) : ∃ m', (vs.foldl attempt o).file = { o.file with model := some m' } ∧
      ((vs.foldl attempt o).applied = [] → o.applied = [] ∧ m' = m) := by
  induction vs generalizing o m with
  | nil => exact ⟨m, by rw [List.foldl_nil, ← hm], fun h => ⟨h, rfl⟩⟩
  | cons v vs ih =>
    obtain ⟨m₁, hfile₁, hkept₁⟩ := attempt_kept hm v
    obtain ⟨m₂, hfile₂, hkept₂⟩ := ih (o := o.attempt v) (m := m₁) (by rw [hfile₁])
    refine ⟨m₂, by rw [List.foldl_cons, hfile₂, hfile₁], ?_⟩
    intro h
    obtain ⟨hnone, rfl⟩ := hkept₂ h
    exact hkept₁ hnone

/-- **Fixes give a file that was parsed another text only by marking it as modified.** -/
theorem SourceFile.Holds.applyFixes {f : SourceFile} {text : String} (h : f.Holds text)
    (hparsed : f.model.isSome = true) (vs : List Violation) : (f.applyFixes vs).file.Holds text := by
  rcases h with ⟨-, hmodel, -⟩ | ⟨htext, hmodel, horigin⟩
  · rw [hmodel] at hparsed
    cases hparsed
  · obtain ⟨m', hfile, hkept⟩ := FixOutcome.attempts_kept (o := { file := f }) hmodel (bottomUp vs)
    unfold SourceFile.applyFixes FixOutcome.mark
    split
    · next hnone =>
      obtain ⟨-, rfl⟩ := hkept (List.isEmpty_iff.mp hnone)
      refine .parsed (m := m') (by rw [hfile]; exact htext) (by rw [hfile]) ?_
      rw [hfile]
      exact horigin
    · exact .parsed (m := m') (by rw [hfile]; exact htext) (by rw [hfile]) nofun

namespace FileJob

variable {j : FileJob} {f : SourceFile} {text : String}

/-! ## Work -/

/-- An attempt on a file that was parsed and holds a text. -/
structure Keeps (text : String) (a : Attempt) : Prop where
  holds : a.visit.file.Holds text
  parsed : a.visit.file.model.isSome = true

theorem Keeps.of_sameContent {a a' : Attempt} (h : Keeps text a)
    (hs : a.visit.file.SameContent a'.visit.file) : Keeps text a' :=
  ⟨h.holds.of_sameContent hs, by rw [hs.model]; exact h.parsed⟩

theorem fail_sameContent (a : Attempt) (who : String) (cause : Stop) :
    a.visit.file.SameContent (a.fail who cause).visit.file := by
  simp only [Attempt.fail]
  split
  · exact .refl _
  · exact Visit.publish_sameContent _ _

/-- An analyzer that leaves the text alone, even if it fails. -/
theorem analyze_sameContent (j : FileJob) (a : Attempt) {e : AnalyzerEntry}
    (he : ∀ ctx, (e.analyzer.analyze e.profile ctx).LeavesText) :
    a.visit.file.SameContent (j.analyze a e).visit.file := by
  have hrun := (he j.context).run j.context
    (a.visit.emit (.analyzing e.analyzer.id a.visit.file.path j.context.pass))
  simp only [analyze]
  split
  · exact .refl _
  · split
    · next heq =>
      rw [heq] at hrun
      exact hrun
    · next visit cause heq =>
      rw [heq] at hrun
      have hfail := fail_sameContent { a with visit } ("Analyzer " ++ e.analyzer.id) cause
      exact hrun.trans hfail

theorem analyzeAll_sameContent (j : FileJob) (a : Attempt) {parser : String}
    (h : ∀ e ∈ j.registry.analyzersOf parser, ∀ ctx,
      (e.analyzer.analyze e.profile ctx).LeavesText) :
    a.visit.file.SameContent (j.analyzeAll a parser).visit.file := by
  unfold analyzeAll
  generalize j.registry.analyzersOf parser = es at h
  induction es generalizing a with
  | nil => exact .refl _
  | cons e es ih =>
    exact (j.analyze_sameContent a (h e List.mem_cons_self)).trans
      (ih _ fun x hx => h x (List.mem_cons_of_mem _ hx))

theorem Keeps.fix {a : Attempt} (h : Keeps text a) (j : FileJob) :
    (j.fix a).1.visit.file.Holds text := by
  simp only [FileJob.fix]
  split
  · rw [Visit.publishAll_file]
    exact (h.holds.applyFixes h.parsed _).of_sameContent ⟨rfl, rfl, rfl⟩
  · exact h.holds

/-- A text parser takes a file that holds a text to one that holds it in a model. -/
theorem parse_run_holds (ctx : FileContext) {s : Visit} (h : s.file.Holds text) :
    ∃ s', TextParser.parse.run ctx s = (s', .ok .complete) ∧ s'.file.Holds text ∧
      s'.file.model.isSome = true := by
  rcases h with ⟨htext, hmodel, hmodified⟩ | ⟨htext, hmodel, horigin⟩
  · refine ⟨{ s with file := s.file.takeText.2.setModel (.ofText text) }, ?_, ?_, rfl⟩
    · simp only [TextParser.parse, Act.run, htext]
    · exact .parsed rfl rfl fun _ => rfl
  · have hparsed : (s.file.takeText.2).model.isSome = true := by
      show s.file.model.isSome = true
      rw [hmodel]
      rfl
    refine ⟨{ s with file := s.file.takeText.2 }, ?_, ?_, hparsed⟩
    · simp only [TextParser.parse, Act.run, htext, hparsed, ↓reduceIte]
    · exact .parsed rfl hmodel horigin

/-- **A file holds its text all through a run.** -/
theorem process_holds (hr : j.registry.ReadsTexts f.path) (h : f.Holds text)
    (cached : Option (List Violation)) : (j.process cached f).file.Holds text := by
  rcases j.process_cases cached f with ⟨-, hp⟩ | ⟨-, -, hp, -⟩ | ⟨-, vs, -, hp⟩ |
    ⟨-, -, e, he, hon, hp⟩
  · rwa [hp]
  · rw [hp]
    exact h.of_sameContent ⟨rfl, rfl, rfl⟩
  · rw [hp, serve_file]
    exact h.of_sameContent ⟨rfl, rfl, rfl⟩
  · have hreader := reader?_of_parserOf? he hon
    obtain ⟨s, hrun, hs, hparsed⟩ := parse_run_holds j.context
      (s := ({ file := f } : Visit).emit (.parsing e.parser.id f.path j.context.pass)) h
    have hkeeps : Keeps text (j.analyzeAll { visit := s } e.parser.id) :=
      Keeps.of_sameContent ⟨hs, hparsed⟩ (j.analyzeAll_sameContent _ (hr.analyze hreader))
    rw [hp, parse, hr.parse hreader]
    simp only [hrun, finish]
    exact (hkeeps.fix j).of_sameContent ⟨rfl, rfl, rfl⟩

end FileJob

end StyleEngine
