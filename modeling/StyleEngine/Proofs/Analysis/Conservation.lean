import StyleEngine.Proofs.Analysis.Recording

/-! # Fixing conserves violations

Fixing a file takes another way than analyzing it: reports with a safe fix are held
back, their fixes are tried from the last line up, and what was rejected is recorded
after all.  If no two rules that check the file have the same id, nothing is lost and
nothing is added on that way: what the analysis records is what was fixed together
with what the fixing run records (`SourceFile.Conserves`).
-/
namespace StyleEngine

/-! ## Rules with ids of their own -/

namespace Violation

theorem sameOccurrence_eq_false {v w : Violation} (h : v.ruleId ≠ w.ruleId ∨ v.line ≠ w.line) :
    v.sameOccurrence w = false := by
  rcases h with h | h <;> simp [sameOccurrence, h]

theorem NoRepeats.perm {vs ws : List Violation} (h : NoRepeats vs) (hp : vs.Perm ws) :
    NoRepeats ws :=
  (hp.pairwise_iff fun {v w} hvw => w.sameOccurrence_comm v ▸ hvw).mp h

end Violation

namespace PatternAnalyzer

variable {ctx : FileContext} {path : Path} {rules : List (Rule × Pattern)} {lines : List String}

theorem ruleId_of_mem_hitsFrom {rule : Rule} {p : Pattern} {n : Nat} {v : Violation}
    (h : v ∈ hitsFrom path rule p n lines) : v.ruleId = rule.id := by
  induction lines generalizing n with
  | nil => cases h
  | cons line rest ih =>
    rcases List.mem_append.mp h with h | h
    · obtain ⟨text, -, rfl⟩ := Option.map_eq_some_iff.mp (Option.mem_toList.mp h)
      rfl
    · exact ih h

/-- A rule is broken at most once on a line. -/
theorem noRepeats_hitsFrom (path : Path) (rule : Rule) (p : Pattern) (n : Nat)
    (lines : List String) : Violation.NoRepeats (hitsFrom path rule p n lines) := by
  induction lines generalizing n with
  | nil => exact .nil
  | cons line rest ih =>
    refine List.pairwise_append.mpr ⟨?_, ih (n + 1), ?_⟩
    · cases hit? path rule p n line with
      | none => exact .nil
      | some v => exact List.pairwise_singleton _ _
    · intro v hv w hw
      obtain ⟨text, -, rfl⟩ := Option.map_eq_some_iff.mp (Option.mem_toList.mp hv)
      refine Violation.sameOccurrence_eq_false (.inr ?_)
      have hlater := (line_of_mem_hitsFrom hw).1
      exact Nat.ne_of_lt hlater

theorem exists_rule_of_mem_hitsOf {v : Violation} (h : v ∈ hitsOf ctx rules path lines) :
    ∃ x ∈ rules, v.ruleId = x.1.id := by
  obtain ⟨x, hx, hv⟩ := List.mem_flatMap.mp h
  simp only at hv
  split at hv
  · exact ⟨x, hx, ruleId_of_mem_hitsFrom hv⟩
  · cases hv

/-- Rules with ids of their own find nothing twice. -/
theorem noRepeats_hitsOf (h : rules.Pairwise fun x y => x.1.id ≠ y.1.id) :
    Violation.NoRepeats (hitsOf ctx rules path lines) := by
  refine List.pairwise_flatMap.mpr ⟨?_, h.imp ?_⟩
  · intro x _
    simp only
    split
    · exact noRepeats_hitsFrom ..
    · exact .nil
  · intro x y hxy v hv w hw
    simp only at hv hw
    split at hv
    · split at hw
      · refine Violation.sameOccurrence_eq_false (.inl ?_)
        rwa [ruleId_of_mem_hitsFrom hv, ruleId_of_mem_hitsFrom hw]
      · cases hw
    · cases hv

theorem mem_rules_of_mem_activeRules {p : Profile} {x : Rule × Pattern} (h : x ∈ activeRules p) :
    x.1 ∈ p.rules := by
  obtain ⟨rule, hrule, hx⟩ := List.mem_filterMap.mp h
  obtain ⟨pattern, -, rfl⟩ := Option.map_eq_some_iff.mp hx
  exact (List.mem_filter.mp hrule).1

theorem pairwise_activeRules {p : Profile} (h : p.rules.Pairwise fun r r' => r.id ≠ r'.id) :
    (activeRules p).Pairwise fun x y => x.1.id ≠ y.1.id := by
  refine List.pairwise_filterMap.mpr ((h.filter _).imp ?_)
  intro r r' hne x hx y hy
  obtain ⟨_, -, rfl⟩ := Option.map_eq_some_iff.mp hx
  obtain ⟨_, -, rfl⟩ := Option.map_eq_some_iff.mp hy
  exact hne

end PatternAnalyzer

namespace Registry

/-- Whether no two rules of the analyzers of a parser have the same id. -/
def HasOwnIds (r : Registry) (parser : String) : Prop :=
  (((r.analyzersOf parser).flatMap fun a => a.profile.rules).map Rule.id).Nodup

/-- **Analyzers whose rules have ids of their own report nothing twice.** -/
theorem noRepeats_reports {r : Registry} {parser : String} (h : r.HasOwnIds parser)
    (ctx : FileContext) (path : Path) (m : TextModel) :
    Violation.NoRepeats (r.reports ctx parser path m) := by
  -- no analyzer has a rule twice, and no two analyzers share one
  obtain ⟨hown, hacross⟩ := List.pairwise_flatMap.mp (List.pairwise_map.mp h)
  refine List.pairwise_flatMap.mpr ⟨?_, hacross.imp ?_⟩
  · intro a ha
    split
    · exact PatternAnalyzer.noRepeats_hitsOf (PatternAnalyzer.pairwise_activeRules (hown a ha))
    · exact .nil
  · intro a b hab v hv w hw
    split at hv
    · split at hw
      · obtain ⟨x, hx, hvx⟩ := PatternAnalyzer.exists_rule_of_mem_hitsOf hv
        obtain ⟨y, hy, hwy⟩ := PatternAnalyzer.exists_rule_of_mem_hitsOf hw
        refine Violation.sameOccurrence_eq_false (.inl ?_)
        rw [hvx, hwy]
        exact hab _ (PatternAnalyzer.mem_rules_of_mem_activeRules hx) _
          (PatternAnalyzer.mem_rules_of_mem_activeRules hy)
      · cases hw
    · cases hv

end Registry

theorem Visit.noRepeats_counted {ctx : FileContext} {m : TextModel} {vs : List Violation}
    (h : Violation.NoRepeats vs) : Violation.NoRepeats (counted ctx m vs) := by
  have hgraded (v w : Violation) :
      (graded ctx v).sameOccurrence (graded ctx w) = v.sameOccurrence w := by
    unfold graded
    split <;> split <;> rfl
  refine List.Pairwise.filter _ (List.pairwise_map.mpr (h.imp ?_))
  intro v w hvw
  rwa [hgraded]

/-! ## One file -/

/-- What fixing conserves on a file, given what an analysis has made of it and the violations whose
fixes were applied. -/
structure SourceFile.Conserves (full fixed : SourceFile) (applied : List Violation) : Prop where
  violations : full.violations.Perm (applied ++ fixed.violations)
  /-- One fix is applied on each line for which there is one. -/
  count : ∀ n, applied.countP (·.line == n) =
    if full.violations.any (fun v => v.line == n && v.hasSafeFix) then 1 else 0
  safe : ∀ v ∈ applied, v.hasSafeFix = true
  modified : fixed.modified = true ↔ applied ≠ []
  model : ∀ m, full.model = some m → ∃ m', fixed.model = some m' ∧ m.IsPatch applied m'

/-- A file without fixes stays as it is. -/
theorem SourceFile.Conserves.refl {f : SourceFile} (h : ∀ v ∈ f.violations, v.hasSafeFix = false)
    (hf : f.modified = false) : f.Conserves f [] where
  violations := .refl _
  count n := by
    have hnone : f.violations.any (fun v => v.line == n && v.hasSafeFix) = false := by
      refine List.any_eq_false.mpr ?_
      intro v hv
      simp [h v hv]
    rw [hnone]
    rfl
  safe := nofun
  modified := by simp [hf]
  model m hm := ⟨m, hm, nofun, fun _ _ => rfl, rfl⟩

namespace FixOutcome

variable {f : SourceFile} {m : TextModel} {tried cs : List Violation} {o : FixOutcome}

/-- Every line that was to be fixed is fixed once, and no other. -/
theorem Tried.countP_applied (h : Tried f m tried o) (n : Nat) :
    o.applied.countP (·.line == n) = if tried.any (·.line == n) then 1 else 0 := by
  have hcount : o.applied.countP (·.line == n) = (o.applied.map Violation.line).count n := by
    rw [List.count_eq_countP, List.countP_map]
    rfl
  have hmem : n ∈ o.applied.map Violation.line ↔ tried.any (·.line == n) = true := by
    rw [List.any_eq_true]
    constructor
    · intro hn
      obtain ⟨v, hv, rfl⟩ := List.mem_map.mp hn
      exact ⟨v, h.perm.mem_iff.mp (List.mem_append_left _ hv), beq_self_eq_true _⟩
    · rintro ⟨v, hv, hline⟩
      exact beq_iff_eq.mp hline ▸ h.covers v hv
  -- applied fixes stand on lines of their own, so that a count is a question of membership
  rw [hcount, h.once.count]
  by_cases hn : n ∈ o.applied.map Violation.line
  · rw [if_pos hn, if_pos (hmem.mp hn)]
  · rw [if_neg hn, if_neg fun hany => hn (hmem.mpr hany)]

/-- What was reported is what was applied, what has no safe fix and what was rejected. -/
theorem Tried.parts (h : Tried f m (bottomUp (cs.filter Violation.hasSafeFix)) o) :
    cs.Perm (o.applied ++ ((cs.filter fun v => !v.hasSafeFix) ++ o.rejected)) := by
  refine (List.filter_append_perm Violation.hasSafeFix cs).symm.trans ?_
  refine ((h.perm.trans (bottomUp_perm _)).symm.append_right _).trans ?_
  rw [List.append_assoc]
  exact List.perm_append_comm.append_left o.applied

/-- Fixing conserves what was reported. -/
theorem Tried.conserves (h : Tried f m (bottomUp (cs.filter Violation.hasSafeFix)) o)
    {full fixed : SourceFile} {m' : TextModel} (hfull : full.violations = cs)
    (hmodel : full.model = some m)
    (hfixed : fixed.violations = (cs.filter fun v => !v.hasSafeFix) ++ o.rejected)
    (hmodel' : fixed.model = some m') (hmodified : fixed.modified = !o.applied.isEmpty)
    (hpatch : m.IsPatch o.applied m') : full.Conserves fixed o.applied where
  violations := by
    rw [hfull, hfixed]
    exact h.parts
  count n := by
    have hany : (bottomUp (cs.filter Violation.hasSafeFix)).any (·.line == n) =
        cs.any (fun v => v.line == n && v.hasSafeFix) := by
      rw [(bottomUp_perm _).any_eq, List.any_filter]
      exact congrArg cs.any (funext fun v => Bool.and_comm _ _)
    rw [hfull, h.countP_applied, hany]
  safe v hv := by
    have htried := h.perm.mem_iff.mp (List.mem_append_left _ hv)
    exact (List.mem_filter.mp ((bottomUp_perm _).mem_iff.mp htried)).2
  modified := by
    rw [hmodified]
    simp
  model m₀ hm₀ := by
    obtain rfl := Option.some.inj (hmodel.symm.trans hm₀)
    exact ⟨m', hmodel', hpatch⟩

end FixOutcome

/-- What is recorded and what is held back if nothing is reported twice. -/
theorem Visit.Reported.split {ctx : FileContext} {f : SourceFile} {m : TextModel}
    {vs : List Violation} {s : Visit} (h : Reported ctx f m vs s)
    (hnr : Violation.NoRepeats vs) :
    s.file = { f with
      model := some m
      violations := (counted ctx m vs).filter fun v => !isHeldBack ctx v } ∧
    s.held = (counted ctx m vs).filter (isHeldBack ctx) := by
  have hcounted : Violation.NoRepeats (counted ctx m vs) := noRepeats_counted hnr
  rw [h.file, h.held, Violation.distinct_of_noRepeats (hcounted.filter _),
    Violation.distinct_of_noRepeats (hcounted.filter _)]
  exact ⟨rfl, rfl⟩

namespace FileJob

variable {j : FileJob} {f : SourceFile} {m : TextModel} {vs : List Violation} {s : Visit}

/-- An analysis records all that counts. -/
theorem fix_of_analyzing (hj : j.context.autoFix = false) (h : Visit.Reported j.context f m vs s)
    (hnr : Violation.NoRepeats vs) : (j.fix { visit := s }).1.visit.file =
      { f with model := some m, violations := Visit.counted j.context m vs } := by
  have hoff : ¬ j.context.autoFix = true := by simp [hj]
  have hall : (Visit.counted j.context m vs).filter (fun v => !Visit.isHeldBack j.context v) =
      Visit.counted j.context m vs :=
    List.filter_eq_self.mpr fun v _ => by simp [Visit.isHeldBack, hj]
  rw [fix, if_neg hoff, ← hall]
  exact (h.split hnr).1

/-- A fixing run tries the safe fixes and records the rest. -/
theorem fix_of_fixing (hj : j.context.autoFix = true) (h : Visit.Reported j.context f m vs s)
    (hf : f.modified = false) (hvs : ∀ v ∈ vs, 1 ≤ v.line ∧ v.line ≤ m.lines.length)
    (hnr : Violation.NoRepeats vs) : ∃ o m', FixOutcome.Tried s.file m
        (bottomUp ((Visit.counted j.context m vs).filter Violation.hasSafeFix)) o ∧
      m.IsPatch o.applied m' ∧ (j.fix { visit := s }).2 = o.applied.length ∧
      (j.fix { visit := s }).1.visit.file = { f with
        model := some m'
        modified := !o.applied.isEmpty
        violations := ((Visit.counted j.context m vs).filter fun v => !v.hasSafeFix) ++
          o.rejected } := by
  have hback : Visit.isHeldBack j.context = Violation.hasSafeFix := by
    funext v
    simp [Visit.isHeldBack, hj]
  obtain ⟨hfile, hheld⟩ := h.split hnr
  rw [hback] at hfile hheld
  obtain ⟨o, htried, ho⟩ := SourceFile.applyFixes_tried h.model fun v hv => h.of_mem_held hvs hv
  obtain ⟨m', hpatch, hmarked⟩ := htried.mark_file
  rw [hheld] at htried
  have hcounted : Violation.NoRepeats (Visit.counted j.context m vs) := Visit.noRepeats_counted hnr
  -- what was rejected is none of what was recorded before
  have hrest := (List.pairwise_append.mp (hcounted.perm htried.parts)).2.1
  refine ⟨o, m', htried, hpatch, ?_, ?_⟩
  · simp only [fix, hj, ↓reduceIte, ho, FixOutcome.mark_applied]
  · simp only [fix, hj, ↓reduceIte, Visit.publishAll_file, ho, hmarked, FixOutcome.mark_rejected]
    simp [hfile, hf, Violation.foldl_insertNew hrest]

/-- The job as one that fixes files. -/
def fixing (j : FileJob) (status : ProjectStatus) : FileJob :=
  { j with context := { j.context with autoFix := true }, status }

theorem process_reset (j : FileJob) (f : SourceFile) : j.process none f.reset =
    match j.parserOf? f.reset with
    | none => skip f.reset
    | some e => if j.isAddinEnabled e.parser.id then j.parse e f.reset else skip f.reset := rfl

/-- On a file without text and model the parser fails, whether the file is to be fixed or not. -/
theorem parse_of_textless (hj : j.registry.IsBuiltin) {e : ParserEntry}
    (he : e ∈ j.registry.parsers) (htext : f.text = none) (hmodel : f.model = none) :
    (j.parse e f).fixes = 0 ∧
    (j.parse e f).file = (f.record (.fileFailed f.path ("Parser " ++ e.parser.id ++ " failed: " ++
      ("No source text for " ++ f.path.text)))).markDone := by
  obtain ⟨id, extensions, heq⟩ := hj.parser e he
  have hparse : e.parser.parse e.profile j.context = TextParser.parse := by rw [heq]; rfl
  have hrun : TextParser.parse.run j.context
      (({ file := f } : Visit).emit (.parsing e.parser.id f.path j.context.pass)) =
      (({ file := f } : Visit).emit (.parsing e.parser.id f.path j.context.pass),
        .error (.error (.failed ("No source text for " ++ f.path.text)))) := by
    cases f
    cases htext
    cases hmodel
    rfl
  constructor
  · simp only [parse, hparse, hrun, finish]
  · simp only [parse, hparse, hrun, finish, Attempt.fail, Stop.toError, AddInError.isExhaustion,
      Bool.false_eq_true, ↓reduceIte, Visit.publish_file]
    rfl

/-- Fixing conserves what is found in a file with a text. -/
theorem parse_conserves {text : String} (hj : j.registry.IsBuiltin)
    (hoff : j.context.autoFix = false) {e : ParserEntry} (he : e ∈ j.registry.parsers)
    (hids : j.registry.HasOwnIds e.parser.id) (hf : f.IsReset text) (status : ProjectStatus) :
    ∃ applied, (j.parse e f).file.Conserves ((j.fixing status).parse e f).file applied ∧
      ((j.fixing status).parse e f).fixes = applied.length := by
  obtain ⟨s, hs, hparsed⟩ := parse_reported hj he hf
  obtain ⟨s', hs', hparsed'⟩ := parse_reported (j := j.fixing status) hj he hf
  have hnr := Registry.noRepeats_reports hids j.context f.path (TextModel.ofText text)
  have hfull := fix_of_analyzing hoff hs hnr
  obtain ⟨o, m', htried, hpatch, hfixes, hfixed⟩ := fix_of_fixing (j := j.fixing status) rfl hs'
    hf.modified (fun v hv => Registry.line_of_mem_reports hv) hnr
  rw [hparsed, hparsed']
  refine ⟨o.applied, htried.conserves ?_ ?_ ?_ ?_ ?_ hpatch, hfixes⟩
  · exact congrArg SourceFile.violations hfull
  · exact congrArg SourceFile.model hfull
  · exact congrArg SourceFile.violations hfixed
  · exact congrArg SourceFile.model hfixed
  · exact congrArg SourceFile.modified hfixed

/-- **What fixing conserves on a file**, compared with an analysis of it. -/
theorem process_conserves (hj : j.registry.IsBuiltin) (hoff : j.context.autoFix = false)
    (hids : ∀ parser, j.registry.HasOwnIds parser) (status : ProjectStatus) (f : SourceFile) :
    ∃ applied, (j.process none f.reset).file.Conserves
        ((j.fixing status).process none f.reset).file applied ∧
      ((j.fixing status).process none f.reset).fixes = applied.length := by
  have hskip : (skip f.reset).file.Conserves (skip f.reset).file [] := .refl nofun rfl
  have hparser : (j.fixing status).parserOf? f.reset = j.parserOf? f.reset := rfl
  have henabled (id : String) : (j.fixing status).isAddinEnabled id = j.isAddinEnabled id := rfl
  rw [process_reset, process_reset, hparser]
  cases he : j.parserOf? f.reset with
  | none => exact ⟨[], hskip, rfl⟩
  | some e =>
    have hmem := mem_parsers_of_parserOf? he
    simp only [henabled]
    by_cases hon : j.isAddinEnabled e.parser.id = true
    · rw [if_pos hon, if_pos hon]
      cases htext : f.sourceText? with
      | none =>
        -- both runs record the same failure, which has no fix
        obtain ⟨-, hfile⟩ := parse_of_textless hj hmem (f := f.reset) htext rfl
        obtain ⟨hfixes, hfile'⟩ :=
          parse_of_textless (j := j.fixing status) hj hmem (f := f.reset) htext rfl
        refine ⟨[], ?_, hfixes⟩
        rw [hfile, hfile']
        refine .refl ?_ rfl
        intro v hv
        obtain rfl := List.mem_singleton.mp hv
        rfl
      | some text =>
        exact parse_conserves hj hoff hmem (hids e.parser.id) (SourceFile.isReset_reset htext) status
    · rw [if_neg hon, if_neg hon]
      exact ⟨[], hskip, rfl⟩

end FileJob

end StyleEngine
