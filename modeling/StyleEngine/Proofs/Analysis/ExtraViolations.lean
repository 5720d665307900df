import StyleEngine.Proofs.Analysis.Findings

/-! # Files with extra violations

Add-ins can look at what is recorded on a file, and are told whether a report is
new.  Those that do not look (`Act.IgnoresViolations`) do the same on a file with
some extra violations, unless they report one of these themselves
(`FileJob.analyzeEach_withExtra`): the file that they leave has the extra violations
too, and all others in the same order.
-/
namespace StyleEngine

/-! ## Acts that do not look at what is recorded -/

/-- Whether acts go on alike whatever is recorded on the file. -/
def Act.IgnoresViolations {α : Type} : Act α → Prop
  | .done _ => True
  | .stop _ => True
  | .takeText next => ∀ text, (next text).IgnoresViolations
  | .look next =>
    (∀ (f : SourceFile) (vs : List Violation), next { f with violations := vs } = next f) ∧
      ∀ f, (next f).IgnoresViolations
  | .setModel _ next => next.IgnoresViolations
  | .report _ next => ∀ isNew, (next isNew).IgnoresViolations
  | .reportOn _ _ next => ∀ f isNew, (next f isNew).IgnoresViolations
  | .output _ next => next.IgnoresViolations
  | .note _ next => next.IgnoresViolations
  | .cancel next => next.IgnoresViolations

namespace Act

variable {α β : Type}

theorem IgnoresViolations.bind {a : Act α} (h : a.IgnoresViolations) {k : α → Act β}
    (hk : ∀ x, (k x).IgnoresViolations) : (a.bind k).IgnoresViolations := by
  induction a with
  | done x => exact hk x
  | stop _ => exact h
  | takeText _ ih => exact fun text => ih text (h text)
  | look _ ih =>
    refine ⟨fun f vs => ?_, fun f => ih f (h.2 f)⟩
    simp only [h.1 f vs]
  | setModel _ _ ih => exact ih h
  | report _ _ ih => exact fun isNew => ih isNew (h isNew)
  | reportOn _ _ _ ih => exact fun f isNew => ih f isNew (h f isNew)
  | output _ _ ih => exact ih h
  | note _ _ ih => exact ih h
  | cancel _ ih => exact ih h

theorem ignoresViolations_reportAll (vs : List Violation) : (reportAll vs).IgnoresViolations := by
  induction vs with
  | nil => trivial
  | cons v vs ih => exact fun _ => ih

end Act

/-- Pattern analyzers look at the path and the model of a file only. -/
theorem PatternAnalyzer.ignoresViolations_check (ctx : FileContext)
    (rules : List (Rule × Pattern)) : (check ctx rules).IgnoresViolations := by
  induction rules with
  | nil => trivial
  | cons rp rest ih =>
    obtain ⟨r, p⟩ := rp
    refine ⟨fun f vs => rfl, fun f => ?_⟩
    show Act.IgnoresViolations (if ctx.isRuleEnabled r.id f.path = true then _ else _)
    split
    · exact (Act.ignoresViolations_reportAll _).bind fun _ => ih
    · exact ih

/-- Whether the analyzers of a registry go on alike whatever is recorded on a file. -/
def Registry.IgnoresViolations (r : Registry) : Prop :=
  ∀ e ∈ r.analyzers, ∀ ctx, (e.analyzer.analyze e.profile ctx).IgnoresViolations

/-! ## Files -/

namespace SourceFile

/-- Whether a file is another one with extra violations between two of its own. -/
def WithExtra (vs : List Violation) (f f' : SourceFile) : Prop :=
  ∃ l₁ l₂, f.violations = l₁ ++ l₂ ∧ f' = { f with violations := l₁ ++ vs ++ l₂ }

/-- Whether a file has none of some occurrences. -/
def Lacks (f : SourceFile) (vs : List Violation) : Prop :=
  ∀ v ∈ vs, f.hasOccurrence v = false

/-- Whether a file has all occurrences of another. -/
def Keeps (f g : SourceFile) : Prop :=
  ∀ v, f.hasOccurrence v = true → g.hasOccurrence v = true

variable {f f' g h : SourceFile} {vs : List Violation}

theorem Keeps.refl (f : SourceFile) : f.Keeps f := fun _ hv => hv

theorem Keeps.trans (hg : f.Keeps g) (hh : g.Keeps h) : f.Keeps h := fun v hv => hh v (hg v hv)

theorem Lacks.of_keeps (hg : g.Lacks vs) (hk : f.Keeps g) : f.Lacks vs := by
  intro v hv
  refine Bool.eq_false_iff.mpr fun hocc => ?_
  have hno := hg v hv
  rw [hk v hocc] at hno
  cases hno

theorem keeps_record (f : SourceFile) (w : Violation) : f.Keeps (f.record w) := by
  intro v hv
  obtain ⟨x, hx, hsame⟩ := List.any_eq_true.mp hv
  exact List.any_eq_true.mpr ⟨x, Violation.mem_insertNew_of_mem hx w, hsame⟩

theorem record_of_new {w : Violation} (hw : f.hasOccurrence w = false) :
    f.record w = { f with violations := f.violations ++ [w] } := by
  have hany : (f.violations.any fun x => x.sameOccurrence w) = false := hw
  simp only [record, Violation.insertNew, hany, Bool.false_eq_true, ↓reduceIte]

theorem withExtra_nil : f.WithExtra [] f' ↔ f' = f := by
  constructor
  · rintro ⟨l₁, l₂, hf, rfl⟩
    rw [List.append_nil, ← hf]
  · rintro rfl
    exact ⟨f'.violations, [], (List.append_nil _).symm, by rw [List.append_nil, List.append_nil]⟩

theorem WithExtra.path (hf : f.WithExtra vs f') : f'.path = f.path := by
  obtain ⟨l₁, l₂, -, rfl⟩ := hf
  rfl

theorem WithExtra.hasOccurrence (hf : f.WithExtra vs f') (w : Violation) :
    f'.hasOccurrence w = (f.hasOccurrence w || vs.any (·.sameOccurrence w)) := by
  obtain ⟨l₁, l₂, hl, rfl⟩ := hf
  simp only [SourceFile.hasOccurrence, hl, List.any_append]
  rw [Bool.or_assoc, Bool.or_assoc, Bool.or_comm (vs.any _)]

/-- What is new to both files is recorded on both. -/
theorem WithExtra.append (hf : f.WithExtra vs f') (w : Violation) :
    WithExtra vs { f with violations := f.violations ++ [w] }
      { f' with violations := f'.violations ++ [w] } := by
  obtain ⟨l₁, l₂, hl, rfl⟩ := hf
  exact ⟨l₁, l₂ ++ [w], by rw [hl, List.append_assoc], by simp only [List.append_assoc]⟩

end SourceFile

/-! ## Visits -/

/-- No occurrence is lost while add-ins work on a file. -/
theorem Visit.keeps_invariant (ctx : FileContext) (f : SourceFile) :
    Visit.Invariant ctx (fun s => f.Keeps s.file) True where
  takeText h := h
  setModel _ h := h
  hold _ h := h
  publish {s} v h := by
    rw [s.publish_file]
    exact h.trans (s.file.keeps_record v)
  emit _ _ h := h
  fix {s} _ h := by
    obtain ⟨m, b, hm⟩ := s.file.applyFixes_file s.held
    simp only [hm]
    exact h

namespace Visit

/-- Whether a visit is another one with extra violations on the file. -/
structure WithExtra (vs : List Violation) (s s' : Visit) : Prop where
  file : s.file.WithExtra vs s'.file
  held : s'.held = s.held
  cancels : s'.events.any Event.isCancel = s.events.any Event.isCancel

namespace WithExtra

variable {vs : List Violation} {s s' : Visit} {ctx : FileContext}

/-- All of the file but what is recorded. -/
theorem file_eq (h : s.WithExtra vs s') : ∃ ws, s'.file = { s.file with violations := ws } := by
  obtain ⟨l₁, l₂, -, hfile⟩ := h.file
  exact ⟨_, hfile⟩

theorem takeText (h : s.WithExtra vs s') : WithExtra vs { s with file := s.file.takeText.2 }
    { s' with file := s'.file.takeText.2 } := by
  obtain ⟨l₁, l₂, hl, hfile⟩ := h.file
  exact ⟨⟨l₁, l₂, hl, by rw [hfile]; rfl⟩, h.held, h.cancels⟩

theorem setModel (h : s.WithExtra vs s') (m : TextModel) :
    WithExtra vs { s with file := s.file.setModel m } { s' with file := s'.file.setModel m } := by
  obtain ⟨l₁, l₂, hl, hfile⟩ := h.file
  exact ⟨⟨l₁, l₂, hl, by rw [hfile]; rfl⟩, h.held, h.cancels⟩

theorem emit (h : s.WithExtra vs s') (e : Event) : (s.emit e).WithExtra vs (s'.emit e) :=
  ⟨h.file, h.held, by simp only [Visit.emit, List.any_append, h.cancels]⟩

/-- **A violation is new to a file with extra violations exactly if it is new without them**,
unless it is one of these. -/
theorem publish (h : s.WithExtra vs s') (w : Violation)
    (hlacks : (s.publish w).1.file.Lacks vs) :
    (s.publish w).1.WithExtra vs (s'.publish w).1 ∧ (s'.publish w).2 = (s.publish w).2 := by
  have hocc := h.file.hasOccurrence w
  cases hw : s.file.hasOccurrence w with
  | true =>
    rw [hw, Bool.true_or] at hocc
    simp only [Visit.publish, hw, hocc, ↓reduceIte]
    exact ⟨h, trivial⟩
  | false =>
    -- the violation is recorded, so it is none of the extra ones
    have hother : (vs.any fun v => v.sameOccurrence w) = false := by
      refine List.any_eq_false.mpr fun v hv hsame => ?_
      have hno := hlacks v hv
      rw [s.publish_file, SourceFile.record_of_new hw, SourceFile.hasOccurrence, List.any_append,
        Bool.or_eq_false_iff, List.any_cons, Violation.sameOccurrence_comm, hsame] at hno
      exact absurd hno.2 (by simp)
    rw [hw, Bool.false_or, hother] at hocc
    simp only [Visit.publish, hw, hocc, Bool.false_eq_true, ↓reduceIte,
      SourceFile.record_of_new hw, SourceFile.record_of_new hocc]
    refine ⟨⟨h.file.append w, h.held, ?_⟩, trivial⟩
    simp only [List.any_append, h.cancels]

theorem report (h : s.WithExtra vs s') (w : Violation)
    (hlacks : (s.report ctx w).1.file.Lacks vs) :
    (s.report ctx w).1.WithExtra vs (s'.report ctx w).1 ∧
      (s'.report ctx w).2 = (s.report ctx w).2 := by
  obtain ⟨ws, hfile⟩ := h.file_eq
  have hsuppressed (rule : String) (line : Nat) :
      s'.file.isSuppressed rule line = s.file.isSuppressed rule line := by
    rw [hfile]
    rfl
  simp only [Visit.report, hsuppressed, h.held] at hlacks ⊢
  split at hlacks
  · next hoff => simp only [hoff, ↓reduceIte, h, and_self]
  · next hon =>
    split at hlacks
    · next hfix =>
      simp only [hon, hfix, Bool.false_eq_true, ↓reduceIte]
      split
      · exact ⟨h, rfl⟩
      · exact ⟨⟨h.file, rfl, h.cancels⟩, rfl⟩
    · next hfix =>
      simp only [hon, hfix, Bool.false_eq_true, ↓reduceIte]
      exact h.publish _ hlacks

/-- A report on another file has nothing to do with what is recorded on this one. -/
theorem reportOn (h : s.WithExtra vs s') (ctx : FileContext) (f : SourceFile) (w : Violation) :
    (s.reportOn ctx f w).1.WithExtra vs (s'.reportOn ctx f w).1 ∧
      (s'.reportOn ctx f w).2 = (s.reportOn ctx f w).2 := by
  simp only [Visit.reportOn, h.held]
  split
  · exact ⟨h, rfl⟩
  · split
    · split
      · exact ⟨h, rfl⟩
      · exact ⟨⟨h.file, rfl, h.cancels⟩, rfl⟩
    · split
      · exact ⟨h, rfl⟩
      · exact ⟨h.emit _, rfl⟩

end WithExtra

end Visit

/-- **Acts that do not look at what is recorded do the same with extra violations**, unless they
report one of these themselves. -/
theorem Act.run_withExtra {α : Type} {a : Act α} (ha : a.IgnoresViolations) (ctx : FileContext)
    {vs : List Violation} {s s' : Visit} (h : s.WithExtra vs s')
    (hlacks : (a.run ctx s).1.file.Lacks vs) :
    (a.run ctx s).1.WithExtra vs (a.run ctx s').1 ∧ (a.run ctx s').2 = (a.run ctx s).2 := by
  induction a generalizing s s' with
  | done _ => exact ⟨h, rfl⟩
  | stop _ => exact ⟨h, rfl⟩
  | takeText next ih =>
    obtain ⟨ws, hfile⟩ := h.file_eq
    have htext : s'.file.text = s.file.text := by rw [hfile]
    simp only [run, htext] at hlacks ⊢
    exact ih _ (ha _) h.takeText hlacks
  | look next ih =>
    obtain ⟨ws, hfile⟩ := h.file_eq
    have hnext : next s'.file = next s.file := by rw [hfile, ha.1]
    simp only [run, hnext] at hlacks ⊢
    exact ih _ (ha.2 _) h hlacks
  | setModel m next ih => exact ih ha (h.setModel m) hlacks
  | report v next ih =>
    -- what is recorded by the report is there at the end
    have hkeeps := (Visit.keeps_invariant ctx (s.report ctx v).1.file).act
      (next (s.report ctx v).2) (.inl trivial) (s := (s.report ctx v).1) (.refl _)
    obtain ⟨hreport, hanswer⟩ := h.report v (hlacks.of_keeps hkeeps)
    simp only [run, hanswer] at hlacks ⊢
    exact ih _ (ha _) hreport hlacks
  | reportOn f v next ih =>
    obtain ⟨hreport, hanswer⟩ := h.reportOn ctx f v
    simp only [run, hanswer] at hlacks ⊢
    exact ih _ _ (ha _ _) hreport hlacks
  | output o next ih => exact ih ha (h.emit _) hlacks
  | note text next ih => exact ih ha (h.emit _) hlacks
  | cancel next ih => exact ih ha (h.emit _) hlacks

/-! ## Analyzers -/

/-- Whether an attempt is another one with extra violations on the file.  Where there are any, an
add-in has failed. -/
structure Attempt.WithExtra (vs : List Violation) (a a' : Attempt) : Prop where
  visit : a.visit.WithExtra vs a'.visit
  failed : a'.failed = (a.failed || !vs.isEmpty)

theorem Attempt.WithExtra.fail {vs : List Violation} {a a' : Attempt} (h : a.WithExtra vs a')
    (who : String) (cause : Stop) (hlacks : (a.fail who cause).visit.file.Lacks vs) :
    (a.fail who cause).WithExtra vs (a'.fail who cause) := by
  obtain ⟨ws, hfile⟩ := h.visit.file_eq
  have hpath : a'.visit.file.path = a.visit.file.path := by rw [hfile]
  simp only [Attempt.fail] at hlacks ⊢
  split
  · exact ⟨h.visit, (Bool.true_or _).symm⟩
  · next hcause =>
    simp only [hcause, Bool.false_eq_true, ↓reduceIte] at hlacks
    rw [hpath]
    exact ⟨(h.visit.publish _ hlacks).1, (Bool.true_or _).symm⟩

namespace FileJob

variable {j j' : FileJob} {vs : List Violation} {a a' : Attempt}

/-- An analyzer that is switched off leaves a file alone. -/
theorem analyze_of_off {e : AnalyzerEntry} (h : j.isAddinEnabled e.analyzer.id = false) :
    j.analyze a e = a := by
  simp [analyze, h]

/-- What an analyzer that is switched on makes of a file. -/
theorem analyze_of_on {e : AnalyzerEntry} (h : j.isAddinEnabled e.analyzer.id = true) :
    j.analyze a e =
      match (e.analyzer.analyze e.profile j.context).run j.context
        (a.visit.emit (.analyzing e.analyzer.id a.visit.file.path j.context.pass)) with
      | (visit, .ok ()) => { a with visit }
      | (visit, .error cause) => { a with visit }.fail ("Analyzer " ++ e.analyzer.id) cause := by
  rw [analyze, h]
  rfl

theorem analyze_withExtra (hctx : j'.context = j.context) (h : a.WithExtra vs a')
    {e : AnalyzerEntry} (he : (e.analyzer.analyze e.profile j.context).IgnoresViolations)
    (hlacks : (j.analyze a e).visit.file.Lacks vs) :
    (j.analyze a e).WithExtra vs (j'.analyze a' e) := by
  obtain ⟨ws, hfile⟩ := h.visit.file_eq
  have hpath : a'.visit.file.path = a.visit.file.path := by rw [hfile]
  have hon' : j'.isAddinEnabled e.analyzer.id = j.isAddinEnabled e.analyzer.id := by
    rw [isAddinEnabled, hctx, isAddinEnabled]
  cases hon : j.isAddinEnabled e.analyzer.id with
  | false =>
    rw [analyze_of_off hon, analyze_of_off (hon'.trans hon)]
    exact h
  | true =>
    rw [analyze_of_on hon] at hlacks ⊢
    rw [analyze_of_on (hon'.trans hon), hctx, hpath]
    have hemit := h.visit.emit (.analyzing e.analyzer.id a.visit.file.path j.context.pass)
    have hrun := Act.run_withExtra he j.context hemit
    generalize (e.analyzer.analyze e.profile j.context).run j.context
      (a.visit.emit (.analyzing e.analyzer.id a.visit.file.path j.context.pass)) = o at hrun hlacks ⊢
    generalize (e.analyzer.analyze e.profile j.context).run j.context
      (a'.visit.emit (.analyzing e.analyzer.id a.visit.file.path j.context.pass)) = o' at hrun ⊢
    obtain ⟨s, result⟩ := o
    obtain ⟨s', result'⟩ := o'
    cases result with
    | ok _ =>
      obtain ⟨hvisit, hresult⟩ := hrun hlacks
      obtain rfl : result' = .ok () := hresult
      exact ⟨hvisit, h.failed⟩
    | error cause =>
      have hkeeps : s.file.Keeps
          (({ a with visit := s } : Attempt).fail ("Analyzer " ++ e.analyzer.id) cause).visit.file :=
        (Visit.keeps_invariant j.context s.file).fail _ _ (.refl _)
      obtain ⟨hvisit, hresult⟩ := hrun (hlacks.of_keeps hkeeps)
      obtain rfl : result' = .error cause := hresult
      have hstopped : Attempt.WithExtra vs { a with visit := s } { a' with visit := s' } :=
        ⟨hvisit, h.failed⟩
      exact hstopped.fail _ _ hlacks

theorem keeps_analyzeEach (j : FileJob) (es : List AnalyzerEntry) (a : Attempt) :
    a.visit.file.Keeps (es.foldl j.analyze a).visit.file :=
  (Visit.keeps_invariant j.context a.visit.file).analyzeEach (.inl trivial) (.refl _)

/-- **Analyzers that do not look at what is recorded do the same with extra violations** on the
file, unless one of them reports one of these. -/
theorem analyzeEach_withExtra (hctx : j'.context = j.context) (h : a.WithExtra vs a')
    {es : List AnalyzerEntry}
    (hes : ∀ e ∈ es, (e.analyzer.analyze e.profile j.context).IgnoresViolations)
    (hlacks : (es.foldl j.analyze a).visit.file.Lacks vs) :
    (es.foldl j.analyze a).WithExtra vs (es.foldl j'.analyze a') := by
  induction es generalizing a a' with
  | nil => exact h
  | cons e es ih =>
    have hfirst := analyze_withExtra hctx h (hes e List.mem_cons_self)
      (hlacks.of_keeps (j.keeps_analyzeEach es _))
    exact ih hfirst (fun e' he' => hes e' (List.mem_cons_of_mem _ he')) hlacks

end FileJob

end StyleEngine
