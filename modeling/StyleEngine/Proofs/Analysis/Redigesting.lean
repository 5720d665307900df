import StyleEngine.Proofs.Analysis.Recording

/-! # Work on files with other digests

The digest of a file is there for the cache.  Where text parsers and pattern analyzers
are the only add-ins, nothing else depends on it: a file with another digest fares the
same in every project whose root and settings decide alike
(`FileJob.process_withDigest`).
-/
namespace StyleEngine

/-- A file with another digest. -/
def SourceFile.withDigest (d : String) (f : SourceFile) : SourceFile := { f with digest := d }

/-! ## Fixes -/

namespace FixOutcome

/-- What became of violations when their fixes were applied to the file with another digest. -/
def withDigest (d : String) (o : FixOutcome) : FixOutcome := { o with file := o.file.withDigest d }

theorem fixed?_withDigest (d : String) (o : FixOutcome) (v : Violation) :
    (o.withDigest d).fixed? v = (o.fixed? v).map (SourceFile.withDigest d) := by
  have hreplacement : (o.withDigest d).replacement? v = o.replacement? v := rfl
  have hmodel : (o.withDigest d).file.model = o.file.model := rfl
  unfold fixed?
  rw [hreplacement, hmodel]
  cases o.replacement? v with
  | none => rfl
  | some text =>
    cases o.file.model with
    | none => rfl
    | some m =>
      simp only [Option.map_map]
      rfl

theorem attempt_withDigest (d : String) (o : FixOutcome) (v : Violation) :
    (o.withDigest d).attempt v = (o.attempt v).withDigest d := by
  unfold attempt
  rw [fixed?_withDigest]
  cases o.fixed? v <;> rfl

theorem attempts_withDigest (d : String) (o : FixOutcome) (vs : List Violation) :
    vs.foldl attempt (o.withDigest d) = (vs.foldl attempt o).withDigest d := by
  induction vs generalizing o with
  | nil => rfl
  | cons v vs ih => rw [List.foldl_cons, attempt_withDigest, ih, List.foldl_cons]

theorem mark_withDigest (d : String) (o : FixOutcome) :
    (o.withDigest d).mark = o.mark.withDigest d := by
  have happlied : (o.withDigest d).applied = o.applied := rfl
  unfold mark
  rw [happlied]
  split <;> rfl

end FixOutcome

theorem SourceFile.applyFixes_withDigest (d : String) (f : SourceFile) (vs : List Violation) :
    (f.withDigest d).applyFixes vs = (f.applyFixes vs).withDigest d := by
  have hattempts := FixOutcome.attempts_withDigest d { file := f } (bottomUp vs)
  exact (congrArg FixOutcome.mark hattempts).trans (FixOutcome.mark_withDigest d _)

/-! ## Reports -/

/-- What was reported on two files that differ in the digest. -/
theorem Visit.Reported.withDigest {ctx ctx' : FileContext} {f : SourceFile} {m : TextModel}
    {vs : List Violation} {s s' : Visit} {d : String} (h : Reported ctx f m vs s)
    (h' : Reported ctx' (f.withDigest d) m vs s') (hset : ctx.settings = ctx'.settings)
    (hfix : ctx.autoFix = ctx'.autoFix) : s'.file = s.file.withDigest d ∧ s'.held = s.held := by
  have hback : isHeldBack ctx = isHeldBack ctx' := by
    funext v
    simp only [isHeldBack, hfix]
  have hcounted := counted_congr hset m vs
  refine ⟨?_, ?_⟩
  · rw [h'.file, h.file, hcounted, hback]
    rfl
  · rw [h'.held, h.held, hcounted, hback]

/-! ## Work -/

/-- Whether work had the same result as other work, on a file with another digest.  What is to be
done about the cache is left open. -/
structure Processed.Redigests (d : String) (p p' : Processed) : Prop where
  file : p'.file = p.file.withDigest d
  outcome : p'.outcome = p.outcome
  fixes : p'.fixes = p.fixes

namespace FileJob

variable {j j' : FileJob} {f : SourceFile} {text : String}

/-- Whether two jobs are to do the same work, apart from what they tell the cache. -/
structure WorksLike (j j' : FileJob) : Prop where
  registry : j.registry = j'.registry
  context : j.context.DecidesLike j'.context
  autoFix : j.context.autoFix = j'.context.autoFix

theorem fix_withDigest (h : j.WorksLike j') {s s' : Visit} {d : String}
    (hfile : s'.file = s.file.withDigest d) (hheld : s'.held = s.held) :
    (j'.fix { visit := s' }).1.visit.file = (j.fix { visit := s }).1.visit.file.withDigest d ∧
      (j'.fix { visit := s' }).2 = (j.fix { visit := s }).2 := by
  unfold fix
  rw [← h.autoFix]
  split
  · simp only [Visit.publishAll_file, hfile, hheld, SourceFile.applyFixes_withDigest]
    exact ⟨rfl, rfl⟩
  · exact ⟨hfile, rfl⟩

theorem parse_withDigest (h : j.WorksLike j') (hj : j.registry.IsBuiltin) {e : ParserEntry}
    (he : e ∈ j.registry.parsers) (hf : f.IsReset text) (d : String) :
    (j.parse e f).Redigests d (j'.parse e (f.withDigest d)) := by
  have hf' : (f.withDigest d).IsReset text := ⟨hf.text, hf.violations, hf.done, hf.modified⟩
  obtain ⟨s, hs, hparsed⟩ := parse_reported hj he hf
  obtain ⟨s', hs', hparsed'⟩ := parse_reported (h.registry ▸ hj) (h.registry ▸ he) hf'
  have hreports : j'.registry.reports j'.context e.parser.id f.path (TextModel.ofText text) =
      j.registry.reports j.context e.parser.id f.path (TextModel.ofText text) := by
    rw [← h.registry]
    exact (j.registry.reports_congr h.context.settings
      (fun rule => h.context.isRuleEnabled rule f.path) e.parser.id _).symm
  have hpath : (f.withDigest d).path = f.path := rfl
  rw [hpath, hreports] at hs'
  obtain ⟨hfile, hheld⟩ := hs.withDigest hs' h.context.settings h.autoFix
  obtain ⟨hfixed, hfixes⟩ := fix_withDigest h hfile hheld
  rw [hparsed, hparsed']
  exact ⟨congrArg SourceFile.markDone hfixed, rfl, hfixes⟩

/-- **A file with another digest fares the same**, as the cache is not asked for it. -/
theorem process_withDigest (h : j.WorksLike j') (hj : j.registry.IsBuiltin) (hf : f.IsReset text)
    (d : String) : (j.process none f).Redigests d (j'.process none (f.withDigest d)) := by
  have hparser : j'.parserOf? (f.withDigest d) = j.parserOf? f := by
    simp only [parserOf?, h.registry]
    rfl
  have henabled (id : String) : j'.isAddinEnabled id = j.isAddinEnabled id := by
    simp only [isAddinEnabled, h.context.settings]
  have hskip : (skip f).Redigests d (skip (f.withDigest d)) := ⟨rfl, rfl, rfl⟩
  have hdone : (f.withDigest d).done = false := hf.done
  simp only [process, hf.done, hdone, Bool.false_eq_true, ↓reduceIte, hparser, henabled]
  cases he : j.parserOf? f with
  | none => exact hskip
  | some e =>
    by_cases hon : j.isAddinEnabled e.parser.id = true
    · simp only [hon, ↓reduceIte]
      exact parse_withDigest h hj (mem_parsers_of_parserOf? he) hf d
    · simp only [hon]
      exact hskip

end FileJob

end StyleEngine
