import StyleEngine.Proofs.Analysis.FailingAnalyzer
import StyleEngine.Proofs.Analysis.FixOutcomes
import StyleEngine.Proofs.Analysis.Recording

/-! # What becomes of reports

A report that is not suppressed is recorded on the file, or held back until its
fix was tried, unless the same occurrence is there already.  What is held back is
in the end applied or recorded, however the analyzers end
(`FileJob.accounts_for`).  Only a parser that stops takes with it what was held
back by then: such a report is lost unless its occurrence is recorded for another
reason (`FileJob.Drops`).
-/
namespace StyleEngine

/-! ## Occurrences -/

namespace Violation

theorem sameOccurrence_refl (v : Violation) : v.sameOccurrence v = true := by
  have hfile : sameFile v.file v.file = true := by
    cases v.file with
    | none => rfl
    | some p => exact beq_self_eq_true p.components
  simp [sameOccurrence, hfile]

theorem sameOccurrence_trans {u v w : Violation} (h : u.sameOccurrence v = true)
    (h' : v.sameOccurrence w = true) : u.sameOccurrence w = true := by
  have hfile (hf : sameFile u.file v.file = true) (hf' : sameFile v.file w.file = true) :
      sameFile u.file w.file = true := by
    cases hu : u.file <;> cases hv : v.file <;> cases hw : w.file <;>
      simp_all [sameFile, Path.sameAs]
  simp only [sameOccurrence, Bool.and_eq_true, beq_iff_eq] at h h' ⊢
  obtain ⟨⟨⟨⟨hrule, hline⟩, helement⟩, hsame⟩, hmessage⟩ := h
  obtain ⟨⟨⟨⟨hrule', hline'⟩, helement'⟩, hsame'⟩, hmessage'⟩ := h'
  exact ⟨⟨⟨⟨hrule.trans hrule', hline.trans hline'⟩, helement.trans helement'⟩,
    hfile hsame hsame'⟩, hmessage.trans hmessage'⟩

/-- Whether one of some violations is the same occurrence as another. -/
def OccursIn (v : Violation) (vs : List Violation) : Prop :=
  ∃ w ∈ vs, w.sameOccurrence v = true

instance (v : Violation) (vs : List Violation) : Decidable (v.OccursIn vs) :=
  inferInstanceAs (Decidable (∃ w ∈ vs, w.sameOccurrence v = true))

variable {v w : Violation} {vs ws : List Violation}

theorem occursIn_of_mem (h : v ∈ vs) : v.OccursIn vs := ⟨v, h, v.sameOccurrence_refl⟩

theorem not_occursIn_nil : ¬v.OccursIn [] := by
  rintro ⟨w, hw, -⟩
  cases hw

theorem occursIn_append : v.OccursIn (vs ++ ws) ↔ v.OccursIn vs ∨ v.OccursIn ws := by
  simp only [OccursIn, List.mem_append, or_and_right, exists_or]

theorem occursIn_singleton : v.OccursIn [w] ↔ w.sameOccurrence v = true := by
  simp only [OccursIn, List.mem_singleton, exists_eq_left]

theorem OccursIn.perm (h : v.OccursIn vs) (hp : vs.Perm ws) : v.OccursIn ws := by
  obtain ⟨w, hw, hsame⟩ := h
  exact ⟨w, hp.mem_iff.mp hw, hsame⟩

/-- Recording a violation lets its occurrence be recorded, and no other. -/
theorem occursIn_insertNew :
    v.OccursIn (insertNew vs w) ↔ v.OccursIn vs ∨ w.sameOccurrence v = true := by
  unfold insertNew
  split
  · next hany =>
    obtain ⟨u, hu, hsame⟩ := List.any_eq_true.mp hany
    refine (or_iff_left_of_imp ?_).symm
    intro hv
    exact ⟨u, hu, sameOccurrence_trans hsame hv⟩
  · rw [occursIn_append, occursIn_singleton]

theorem occursIn_foldl_insertNew :
    v.OccursIn (vs.foldl insertNew ws) ↔ v.OccursIn ws ∨ v.OccursIn vs := by
  induction vs generalizing ws with
  | nil => exact (or_iff_left not_occursIn_nil).symm
  | cons w vs ih =>
    rw [List.foldl_cons, ih, occursIn_insertNew, or_assoc, ← occursIn_singleton, ← occursIn_append]
    rfl

end Violation

open Violation

/-! ## What add-ins report -/

/-- What acts report while they run, in order, less what comments switch off by then.  Of the
reports on other files, those that are held back with the others are among them. -/
def Act.reports {α : Type} (ctx : FileContext) : Act α → Visit → List Violation
  | .done _, _ => []
  | .stop _, _ => []
  | .takeText next, s => (next s.file.text).reports ctx { s with file := s.file.takeText.2 }
  | .look next, s => (next s.file).reports ctx s
  | .setModel m next, s => next.reports ctx { s with file := s.file.setModel m }
  | .report v next, s =>
    let answer := s.report ctx v
    (if s.file.isSuppressed v.ruleId v.line then [] else [v]) ++
      (next answer.2).reports ctx answer.1
  | .reportOn f v next, s =>
    let answer := s.reportOn ctx f v
    (if !f.isSuppressed v.ruleId v.line && Visit.isHeldBack ctx v then [v] else []) ++
      (next answer.2.1 answer.2.2).reports ctx answer.1
  | .output o next, s => next.reports ctx (s.emit (.output o))
  | .note text next, s => next.reports ctx (s.emit (.note text))
  | .cancel next, s => next.reports ctx (s.emit .cancel)

namespace Visit

variable {ctx : FileContext} {s s' s'' : Visit} {v w : Violation} {vs ws : List Violation}

/-- The severity does not count for occurrences. -/
theorem graded_sameOccurrence (ctx : FileContext) (v w : Violation) :
    (graded ctx v).sameOccurrence w = v.sameOccurrence w := by
  unfold graded
  split <;> rfl

theorem graded_ruleId (ctx : FileContext) (v : Violation) :
    (graded ctx v).ruleId = v.ruleId := by
  unfold graded
  split <;> rfl

/-- What reports do to a visit: those that are held back are held then, and the others are
recorded, up to the same occurrence. -/
structure Takes (ctx : FileContext) (s : Visit) (vs : List Violation) (s' : Visit) : Prop where
  recorded : ∀ v : Violation, v.OccursIn s'.file.violations ↔
    v.OccursIn s.file.violations ∨ v.OccursIn (vs.filter fun w => !isHeldBack ctx w)
  held : ∀ v : Violation, v.OccursIn s'.held ↔
    v.OccursIn s.held ∨ v.OccursIn (vs.filter (isHeldBack ctx))

namespace Takes

theorem of_same (hfile : s'.file.violations = s.file.violations) (hheld : s'.held = s.held) :
    Takes ctx s [] s' where
  recorded v := by rw [hfile]; exact (or_iff_left not_occursIn_nil).symm
  held v := by rw [hheld]; exact (or_iff_left not_occursIn_nil).symm

theorem trans (h : Takes ctx s vs s') (h' : Takes ctx s' ws s'') :
    Takes ctx s (vs ++ ws) s'' where
  recorded v := by
    rw [h'.recorded, h.recorded, List.filter_append, occursIn_append, or_assoc]
  held v := by rw [h'.held, h.held, List.filter_append, occursIn_append, or_assoc]

theorem after (h : Takes ctx s' vs s'') (hfile : s'.file.violations = s.file.violations)
    (hheld : s'.held = s.held) : Takes ctx s vs s'' :=
  (of_same hfile hheld).trans h

end Takes

/-- What one report does to a visit. -/
theorem report_fst (ctx : FileContext) (s : Visit) (v : Violation) : (s.report ctx v).1 =
    if s.file.isSuppressed v.ruleId v.line then s
    else if isHeldBack ctx v then { s with held := insertNew s.held (graded ctx v) }
    else (s.publish (graded ctx v)).1 := by
  simp only [Visit.report, isHeldBack, graded_ruleId, graded_line, graded_hasSafeFix, insertNew]
  by_cases hback : (ctx.autoFix && v.hasSafeFix) = true
  · simp only [hback, ↓reduceIte]
    split
    · rfl
    · split <;> rfl
  · simp only [hback, Bool.false_eq_true, ↓reduceIte]
    split <;> rfl

/-- What a report on another file does to a visit. -/
theorem reportOn_fst (ctx : FileContext) (s : Visit) (f : SourceFile) (v : Violation) :
    (s.reportOn ctx f v).1 =
      if f.isSuppressed v.ruleId v.line then s
      else if isHeldBack ctx v then { s with held := insertNew s.held (graded ctx v) }
      else if f.hasOccurrence (graded ctx v) then s
      else s.emit (.violation (graded ctx v)) := by
  simp only [Visit.reportOn, isHeldBack, graded_ruleId, graded_line, graded_hasSafeFix, insertNew]
  split
  · rfl
  · split
    · split <;> rfl
    · split <;> rfl

/-- One report is taken, unless comments switch it off. -/
theorem takes_report (ctx : FileContext) (s : Visit) (v : Violation) :
    Takes ctx s (if s.file.isSuppressed v.ruleId v.line then [] else [v]) (s.report ctx v).1 := by
  rw [report_fst]
  split
  · exact .of_same rfl rfl
  have hinsert (vs : List Violation) (w : Violation) :
      w.OccursIn (insertNew vs (graded ctx v)) ↔ w.OccursIn vs ∨ w.OccursIn [v] := by
    rw [occursIn_insertNew, graded_sameOccurrence, occursIn_singleton]
  cases hback : isHeldBack ctx v with
  | true => exact
    { recorded := fun w => by simp [hback, not_occursIn_nil]
      held := fun w => by simpa [hback] using hinsert s.held w }
  | false => exact
    { recorded := fun w => by
        simpa [hback, publish_file_violations] using hinsert s.file.violations w
      held := fun w => by simp [hback, not_occursIn_nil] }

/-- A report on another file is taken if it is held back. -/
theorem takes_reportOn (ctx : FileContext) (s : Visit) (f : SourceFile) (v : Violation) :
    Takes ctx s (if !f.isSuppressed v.ruleId v.line && isHeldBack ctx v then [v] else [])
      (s.reportOn ctx f v).1 := by
  rw [reportOn_fst]
  cases f.isSuppressed v.ruleId v.line with
  | true => exact .of_same rfl rfl
  | false =>
    cases hback : isHeldBack ctx v with
    | true => exact
      { recorded := fun w => by simp [hback, not_occursIn_nil]
        held := fun w => by
          simp [hback, occursIn_insertNew, graded_sameOccurrence, occursIn_singleton] }
    | false =>
      simp only [Bool.not_false, Bool.and_false, Bool.false_eq_true, ↓reduceIte]
      split <;> exact .of_same rfl rfl

/-- **What acts report, the visit takes.** -/
theorem takes_reports {α : Type} (ctx : FileContext) (a : Act α) (s : Visit) :
    Takes ctx s (a.reports ctx s) (a.run ctx s).1 := by
  induction a generalizing s with
  | done _ => exact .of_same rfl rfl
  | stop _ => exact .of_same rfl rfl
  | takeText _ ih => exact (ih _ _).after rfl rfl
  | look _ ih => exact ih _ s
  | setModel _ _ ih => exact (ih _).after rfl rfl
  | report v _ ih => exact (takes_report ctx s v).trans (ih _ _)
  | reportOn f v _ ih => exact (takes_reportOn ctx s f v).trans (ih _ _ _)
  | output _ _ ih => exact (ih _).after rfl rfl
  | note _ _ ih => exact (ih _).after rfl rfl
  | cancel _ ih => exact (ih _).after rfl rfl

/-- Whether an occurrence is recorded or held back. -/
def HasTaken (s : Visit) (v : Violation) : Prop :=
  v.OccursIn s.file.violations ∨ v.OccursIn s.held

theorem Takes.keeps (h : Takes ctx s vs s') (hv : s.HasTaken v) : s'.HasTaken v :=
  hv.imp (fun hv => (h.recorded v).mpr (.inl hv)) fun hv => (h.held v).mpr (.inl hv)

theorem Takes.hasTaken (h : Takes ctx s vs s') (hv : v ∈ vs) : s'.HasTaken v := by
  by_cases hback : isHeldBack ctx v = true
  · exact .inr ((h.held v).mpr (.inr (occursIn_of_mem (List.mem_filter.mpr ⟨hv, hback⟩))))
  · refine .inl ((h.recorded v).mpr (.inr (occursIn_of_mem (List.mem_filter.mpr ⟨hv, ?_⟩))))
    simpa using hback

theorem HasTaken.publish (h : s.HasTaken v) (w : Violation) : (s.publish w).1.HasTaken v := by
  refine h.imp ?_ ?_
  · intro hv
    rw [publish_file_violations, occursIn_insertNew]
    exact .inl hv
  · intro hv
    rwa [publish_held]

end Visit

/-! ## What the work on a file accounts for -/

/-- A stop is noted on a file unless it ends the run. -/
theorem Attempt.fail_violations (a : Attempt) (who : String) (cause : Stop) :
    (a.fail who cause).visit.file.violations = if cause.toError.isExhaustion
      then a.visit.file.violations
      else insertNew a.visit.file.violations
        (.fileFailed a.visit.file.path (who ++ " failed: " ++ cause.toError.message)) := by
  simp only [Attempt.fail]
  split
  · rfl
  · exact Visit.publish_file_violations ..

theorem Attempt.hasTaken_fail {a : Attempt} {v : Violation} (h : a.visit.HasTaken v)
    (who : String) (cause : Stop) : (a.fail who cause).visit.HasTaken v := by
  simp only [Attempt.fail]
  split
  · exact h
  · exact h.publish _

namespace FileJob

variable {j : FileJob} {f : SourceFile} {e : ParserEntry} {a : Attempt} {v : Violation}

/-- What an analyzer reports on a file. -/
def analyzerReports (j : FileJob) (a : Attempt) (e : AnalyzerEntry) : List Violation :=
  if j.isAddinEnabled e.analyzer.id then
    (e.analyzer.analyze e.profile j.context).reports j.context
      (a.visit.emit (.analyzing e.analyzer.id a.visit.file.path j.context.pass))
  else []

/-- What analyzers report on a file, one after the other. -/
def analyzersReports (j : FileJob) : List AnalyzerEntry → Attempt → List Violation
  | [], _ => []
  | e :: es, a => j.analyzerReports a e ++ j.analyzersReports es (j.analyze a e)

/-- What a parser reports on a file. -/
def parserReports (j : FileJob) (e : ParserEntry) (f : SourceFile) : List Violation :=
  (e.parser.parse e.profile j.context).reports j.context
    (({ file := f } : Visit).emit (.parsing e.parser.id f.path j.context.pass))

/-- The parser that reads a file, if it is on. -/
def readerOf? (j : FileJob) (f : SourceFile) : Option ParserEntry :=
  (j.parserOf? f).filter fun e => j.isAddinEnabled e.parser.id

/-- What add-ins report on a file in an attempt: its parser and, if that reads it to the end, the
analyzers of the parser. -/
def reports (j : FileJob) (f : SourceFile) : List Violation :=
  match j.readerOf? f with
  | none => []
  | some e => j.parserReports e f ++ match j.read e f with
    | (visit, .ok .complete) =>
      j.analyzersReports (j.registry.analyzersOf e.parser.id) { visit }
    | _ => []

theorem takes_read (j : FileJob) (e : ParserEntry) (f : SourceFile) :
    Visit.Takes j.context { file := f } (j.parserReports e f) (j.read e f).1 :=
  (Visit.takes_reports ..).after rfl rfl

/-- What an analyzer reports is taken, however it ends, and nothing is given up. -/
theorem hasTaken_analyze (e : AnalyzerEntry) (h : a.visit.HasTaken v ∨ v ∈ j.analyzerReports a e) :
    (j.analyze a e).visit.HasTaken v := by
  unfold analyzerReports at h
  unfold analyze
  by_cases hon : j.isAddinEnabled e.analyzer.id = true
  · have htakes := Visit.takes_reports j.context (e.analyzer.analyze e.profile j.context)
      (a.visit.emit (.analyzing e.analyzer.id a.visit.file.path j.context.pass))
    rw [if_pos hon] at h
    have hv : (((e.analyzer.analyze e.profile j.context).run j.context
        (a.visit.emit (.analyzing e.analyzer.id a.visit.file.path j.context.pass))).1).HasTaken v :=
      h.elim htakes.keeps htakes.hasTaken
    simp only [hon, Bool.not_true, Bool.false_eq_true, ↓reduceIte]
    split <;> rename_i hrun <;> rw [hrun] at hv
    · exact hv
    · exact Attempt.hasTaken_fail (a := { a with visit := _ }) hv _ _
  · rw [if_neg hon] at h
    have hoff : (!j.isAddinEnabled e.analyzer.id) = true := by simpa using hon
    rw [if_pos hoff]
    exact h.resolve_right List.not_mem_nil

/-- What analyzers report is taken, however each of them ends. -/
theorem hasTaken_analyzeEach (es : List AnalyzerEntry)
    (h : a.visit.HasTaken v ∨ v ∈ j.analyzersReports es a) :
    (es.foldl j.analyze a).visit.HasTaken v := by
  induction es generalizing a with
  | nil => exact h.resolve_right List.not_mem_nil
  | cons e es ih =>
    refine ih ?_
    rcases h with h | h
    · exact .inl (hasTaken_analyze e (.inl h))
    · exact (List.mem_append.mp h).imp (fun h => hasTaken_analyze e (.inr h)) id

end FileJob

/-! ## What becomes of reports on a file -/

/-- Whether a result stands for violations whose fixes were applied: as many fixes are counted,
and their replacements stand on their lines. -/
structure Processed.Applies (p : Processed) (applied : List Violation) : Prop where
  count : p.fixes = applied.length
  line : ∀ w ∈ applied, ∃ m fix, p.file.model = some m ∧ w.fix = some fix ∧
    m.line? w.line = some fix.replacement

theorem Processed.Applies.nil {p : Processed} (h : p.fixes = 0) : p.Applies [] := ⟨h, nofun⟩

/-- Whether a result accounts for a violation, by a fix that was applied or by what is recorded on
the file. -/
def Processed.AccountsFor (p : Processed) (applied : List Violation) (v : Violation) : Prop :=
  v.OccursIn applied ∨ v.OccursIn p.file.violations

/-- The fixes that are applied are safe. -/
theorem SourceFile.Settles.exists_fix {f : SourceFile} {vs : List Violation} {o : FixOutcome}
    (h : f.Settles vs o) {w : Violation} (hw : w ∈ o.applied) :
    ∃ m fix, o.file.model = some m ∧ w.fix = some fix ∧ m.line? w.line = some fix.replacement := by
  have hsafe : w.hasSafeFix = true := by
    have hline := mem_onLine_self.mpr hw
    rw [h.applied] at hline
    split at hline
    · exact List.find?_some (Option.mem_toList.mp hline)
    · cases hline
  obtain ⟨fix, hfix⟩ : ∃ fix, w.fix = some fix := by
    unfold hasSafeFix at hsafe
    split at hsafe
    · next fix hfix => exact ⟨fix, hfix⟩
    · cases hsafe
  cases hm : f.model with
  | none =>
    rw [(h.unread hm).1] at hw
    cases hw
  | some m =>
    obtain ⟨lines, hpatch, hfile⟩ := h.model m hm
    refine ⟨{ m with lines }, fix, by rw [hfile], hfix, ?_⟩
    rw [hpatch.fixed w hw, hfix]
    rfl

namespace FileJob

variable {j : FileJob} {f : SourceFile} {e : ParserEntry} {v : Violation} {visit : Visit}
  {cause : Stop}

/-! ### How a file is parsed -/

theorem process_of_not_done (hd : f.done = false) : j.process none f =
    match j.readerOf? f with
    | none => skip f
    | some e => j.parse e f := by
  unfold process readerOf?
  rw [if_neg (by rw [hd]; exact Bool.false_ne_true)]
  cases j.parserOf? f with
  | none => rfl
  | some e => cases hon : j.isAddinEnabled e.parser.id <;> simp [hon, Option.filter]

theorem parse_of_stopped (hread : j.read e f = (visit, .error cause)) : j.parse e f =
    j.finish (({ visit } : Attempt).fail ("Parser " ++ e.parser.id) cause) 0 := by
  unfold read at hread
  simp only [parse, hread]

theorem parse_of_complete (hread : j.read e f = (visit, .ok .complete)) : j.parse e f =
    j.finish (j.fix (j.analyzeAll { visit } e.parser.id)).1
      (j.fix (j.analyzeAll { visit } e.parser.id)).2 := by
  unfold read at hread
  simp only [parse, hread]

/-- A file that is deferred is as far from done as before. -/
theorem done_of_deferred (hread : j.read e f = (visit, .ok .deferred)) :
    (j.parse e f).file.done = f.done := by
  have hsame := (Visit.sameIdentity_invariant j.context f).act (e.parser.parse e.profile j.context)
    (.inl trivial) (s := ({ file := f } : Visit).emit (.parsing e.parser.id f.path j.context.pass))
    ⟨rfl, rfl, rfl⟩
  unfold read at hread
  rw [hread] at hsame
  simp only [parse, hread]
  exact hsame.done

/-! ### Parsers that stop -/

/-- The failures that are noted on a file when its parser stops. -/
def parserFailures (e : ParserEntry) (f : SourceFile) (cause : Stop) : List Violation :=
  if cause.toError.isExhaustion then []
  else [.fileFailed f.path ("Parser " ++ e.parser.id ++ " failed: " ++ cause.toError.message)]

/-- What is recorded on a file when its parser stops: what earlier passes have recorded, the
reports without a safe fix and the failure. -/
def stoppedViolations (j : FileJob) (e : ParserEntry) (f : SourceFile) (cause : Stop) :
    List Violation :=
  f.violations ++ (j.parserReports e f).filter (fun w => !w.hasSafeFix) ++ parserFailures e f cause

theorem occursIn_of_stopped (hfix : j.context.autoFix = true)
    (hread : j.read e f = (visit, .error cause)) :
    v.OccursIn (j.parse e f).file.violations ↔ v.OccursIn (j.stoppedViolations e f cause) := by
  have htakes := j.takes_read e f
  have hpath := j.path_read e f
  rw [hread] at htakes hpath
  have hback : (fun w => !Visit.isHeldBack j.context w) = fun w : Violation => !w.hasSafeFix := by
    funext w
    simp [Visit.isHeldBack, hfix]
  have hfail := Attempt.fail_violations { visit } ("Parser " ++ e.parser.id) cause
  rw [parse_of_stopped hread, stoppedViolations, occursIn_append, occursIn_append, ← hback,
    ← htakes.recorded]
  simp only [finish, SourceFile.markDone, hfail, parserFailures]
  split
  · exact (or_iff_left not_occursIn_nil).symm
  · rw [occursIn_insertNew, occursIn_singleton, ← hpath]

/-- Whether a report is lost: its fix was still to be tried when the parser of the file stopped,
and its occurrence is not recorded for another reason. -/
def Drops (j : FileJob) (f : SourceFile) (v : Violation) : Prop :=
  v.hasSafeFix = true ∧ ∃ e cause, j.readerOf? f = some e ∧ (j.read e f).2 = .error cause ∧
    ¬v.OccursIn (j.stoppedViolations e f cause)

/-- A parser that stops has nothing applied, and what it reported is recorded unless it is lost. -/
theorem accounts_of_stopped (hfix : j.context.autoFix = true) (hreader : j.readerOf? f = some e)
    (hread : j.read e f = (visit, .error cause)) (hv : v ∈ j.reports f) :
    (j.parse e f).AccountsFor [] v ↔ ¬j.Drops f v := by
  simp only [reports, hreader, hread, List.append_nil] at hv
  rw [Processed.AccountsFor, or_iff_right not_occursIn_nil, occursIn_of_stopped hfix hread]
  constructor
  · rintro hocc ⟨-, e', cause', he', hcause, hnot⟩
    obtain rfl := Option.some.inj (hreader.symm.trans he')
    rw [hread] at hcause
    obtain rfl := Except.error.inj hcause
    exact hnot hocc
  · intro hdrops
    by_cases hsafe : v.hasSafeFix = true
    · refine Decidable.byContradiction fun hnot => ?_
      exact hdrops ⟨hsafe, e, cause, hreader, by rw [hread], hnot⟩
    · refine occursIn_append.mpr (.inl (occursIn_append.mpr (.inr (occursIn_of_mem ?_))))
      exact List.mem_filter.mpr ⟨hv, by simpa using hsafe⟩

/-! ### Parsers that read a file to the end -/

/-- Fixing applies or records what was taken. -/
theorem fix_accounts (hfix : j.context.autoFix = true) (a : Attempt) : ∃ applied,
    (j.finish (j.fix a).1 (j.fix a).2).Applies applied ∧
      ∀ v, a.visit.HasTaken v → (j.finish (j.fix a).1 (j.fix a).2).AccountsFor applied v := by
  have hsettles := a.visit.file.settles a.visit.held
  obtain ⟨m, b, hfile⟩ := a.visit.file.applyFixes_file a.visit.held
  unfold fix
  rw [if_pos hfix]
  refine ⟨(a.visit.file.applyFixes a.visit.held).applied, ⟨rfl, ?_⟩, ?_⟩
  · intro w hw
    simp only [finish, Visit.publishAll_file]
    exact hsettles.exists_fix hw
  · intro v hv
    simp only [Processed.AccountsFor, finish, Visit.publishAll_file, SourceFile.markDone,
      occursIn_foldl_insertNew]
    rcases hv with hv | hv
    · refine .inr (.inl ?_)
      rwa [hfile]
    · exact (occursIn_append.mp (hv.perm hsettles.perm.symm)).imp_right .inr

/-- If the parser reads the file to the end, everything is applied or recorded, however the
analyzers end. -/
theorem accounts_of_complete (hfix : j.context.autoFix = true) (hreader : j.readerOf? f = some e)
    (hread : j.read e f = (visit, .ok .complete)) : ∃ applied, (j.parse e f).Applies applied ∧
      ∀ v ∈ j.reports f, (j.parse e f).AccountsFor applied v := by
  have htakes := j.takes_read e f
  rw [hread] at htakes
  obtain ⟨applied, happlied, haccounts⟩ := fix_accounts hfix (j.analyzeAll { visit } e.parser.id)
  rw [parse_of_complete hread]
  refine ⟨applied, happlied, fun v hv => haccounts v ?_⟩
  simp only [reports, hreader, hread] at hv
  exact hasTaken_analyzeEach _ ((List.mem_append.mp hv).imp_left htakes.hasTaken)

/-! ### All of it -/

/-- **What becomes of reports** in the attempt that finishes a file: every one is applied or
recorded, but for those that a parser takes with it when it stops. -/
theorem accounts_for (hfix : j.context.autoFix = true) (hd : f.done = false)
    (hdone : (j.process none f).file.done = true) : ∃ applied,
      (j.process none f).Applies applied ∧
        ∀ v ∈ j.reports f, (j.process none f).AccountsFor applied v ↔ ¬j.Drops f v := by
  rw [process_of_not_done hd] at hdone ⊢
  cases hreader : j.readerOf? f with
  | none =>
    refine ⟨[], .nil rfl, ?_⟩
    intro v hv
    rw [reports, hreader] at hv
    cases hv
  | some e =>
    simp only [hreader] at hdone ⊢
    rcases hread : j.read e f with ⟨visit, cause | (_ | _)⟩
    · refine ⟨[], .nil ?_, fun v hv => accounts_of_stopped hfix hreader hread hv⟩
      rw [parse_of_stopped hread]
      rfl
    · obtain ⟨applied, happlied, haccounts⟩ := accounts_of_complete hfix hreader hread
      refine ⟨applied, happlied, fun v hv => iff_of_true (haccounts v hv) ?_⟩
      rintro ⟨-, e', cause, he', hcause, -⟩
      obtain rfl := Option.some.inj (hreader.symm.trans he')
      rw [hread] at hcause
      cases hcause
    · rw [done_of_deferred hread, hd] at hdone
      cases hdone

end FileJob

end StyleEngine
