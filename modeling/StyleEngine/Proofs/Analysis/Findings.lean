import StyleEngine.Proofs.Run.FileWork

/-! # What text parsers and pattern analyzers find

Where text parsers and pattern analyzers are the only add-ins (`Registry.IsBuiltin`),
what is found in a file follows from its model, the registry and the context
(`Registry.findings`).  The analyzers report just that, one after the other
(`FileJob.analyzeAll_reported`).
-/
namespace StyleEngine

/-- Whether text parsers and pattern analyzers are the only add-ins. -/
structure Registry.IsBuiltin (r : Registry) : Prop where
  parser : ∀ e ∈ r.parsers, ∃ id extensions, e.parser = textParser id extensions
  analyzer : ∀ e ∈ r.analyzers, ∃ id parserId, e.analyzer = patternAnalyzer id parserId

/-! ## The findings -/

/-- The violations of rules on lines, rule after rule. -/
def PatternAnalyzer.hitsOf (ctx : FileContext) (rules : List (Rule × Pattern)) (path : Path)
    (lines : List String) : List Violation :=
  rules.flatMap fun (r, p) =>
    if ctx.isRuleEnabled r.id path then hitsFrom path r p 1 lines else []

namespace Visit

/-- Violations as they count: with the severities that the settings give them, less those that
comments switch off. -/
def counted (ctx : FileContext) (m : TextModel) (vs : List Violation) : List Violation :=
  (vs.map (graded ctx)).filter fun v => !m.isSuppressed v.ruleId v.line

/-- Whether a violation is held back until its fix was tried. -/
def isHeldBack (ctx : FileContext) (v : Violation) : Bool := ctx.autoFix && v.hasSafeFix

end Visit

namespace Registry

/-- What the analyzers of a parser report on the model of a file, in order. -/
def reports (r : Registry) (ctx : FileContext) (parser : String) (path : Path) (m : TextModel) :
    List Violation :=
  (r.analyzersOf parser).flatMap fun a =>
    if ctx.settings.isAddinEnabled a.analyzer.id then
      PatternAnalyzer.hitsOf ctx (PatternAnalyzer.activeRules a.profile) path m.lines
    else []

/-- What is found in the file at a path, given its model. -/
def findings (r : Registry) (ctx : FileContext) (path : Path) (m : TextModel) : List Violation :=
  match r.reader? ctx.settings path with
  | some e => Violation.distinct (Visit.counted ctx m (r.reports ctx e.parser.id path m))
  | none => []

end Registry

/-! ## What the findings depend on -/

theorem Path.stripBase?_congr {base base' : Path} (h : base.components = base'.components)
    (p : Path) : p.stripBase? base = p.stripBase? base' := by
  simp only [stripBase?, h]

/-- Whether two contexts decide alike about rules. -/
structure FileContext.DecidesLike (ctx ctx' : FileContext) : Prop where
  settings : ctx.settings = ctx'.settings
  ruleDefault : ctx.ruleDefault = ctx'.ruleDefault
  root : ctx.project.root.components = ctx'.project.root.components

theorem Visit.counted_congr {ctx ctx' : FileContext} (hset : ctx.settings = ctx'.settings)
    (m : TextModel) (vs : List Violation) : counted ctx m vs = counted ctx' m vs := by
  have hgraded : graded ctx = graded ctx' := by
    funext v
    simp only [graded, hset]
  simp only [counted, hgraded]

/-- What is reported depends on the settings and on the rules that apply to the file. -/
theorem Registry.reports_congr (r : Registry) {ctx ctx' : FileContext} {path : Path}
    (hset : ctx.settings = ctx'.settings)
    (hrule : ∀ rule, ctx.isRuleEnabled rule path = ctx'.isRuleEnabled rule path) (parser : String)
    (m : TextModel) : r.reports ctx parser path m = r.reports ctx' parser path m := by
  simp only [reports, PatternAnalyzer.hitsOf, hset, hrule]

/-- What is found in a file depends on the settings and on the rules that apply to the file. -/
theorem Registry.findings_congr (r : Registry) {ctx ctx' : FileContext} {path : Path}
    (hset : ctx.settings = ctx'.settings)
    (hrule : ∀ rule, ctx.isRuleEnabled rule path = ctx'.isRuleEnabled rule path) (m : TextModel) :
    r.findings ctx path m = r.findings ctx' path m := by
  simp only [findings, hset, r.reports_congr hset hrule, Visit.counted_congr hset]

theorem FileContext.DecidesLike.isRuleEnabled {ctx ctx' : FileContext} (h : ctx.DecidesLike ctx')
    (rule : String) (path : Path) :
    ctx.isRuleEnabled rule path = ctx'.isRuleEnabled rule path := by
  simp only [FileContext.isRuleEnabled, h.settings, h.ruleDefault, Path.stripBase?_congr h.root]

theorem FileContext.DecidesLike.findings {ctx ctx' : FileContext} (h : ctx.DecidesLike ctx')
    (r : Registry) (path : Path) (m : TextModel) :
    r.findings ctx path m = r.findings ctx' path m :=
  r.findings_congr h.settings (fun rule => h.isRuleEnabled rule path) m

theorem Registry.noRepeats_findings (r : Registry) (ctx : FileContext) (path : Path)
    (m : TextModel) : Violation.NoRepeats (r.findings ctx path m) := by
  unfold findings
  split
  · exact Violation.noRepeats_distinct _
  · exact List.Pairwise.nil

/-! ## Reporting -/

namespace Act

variable {α β : Type}

theorem run_bind (ctx : FileContext) (a : Act α) (k : α → Act β) (s : Visit) :
    (a.bind k).run ctx s = match a.run ctx s with
      | (s', .ok x) => (k x).run ctx s'
      | (s', .error cause) => (s', .error cause) := by
  induction a generalizing s with
  | done _ => rfl
  | stop _ => rfl
  | takeText _ ih => exact ih _ _
  | look _ ih => exact ih _ _
  | setModel _ _ ih => exact ih _
  | report _ _ ih => exact ih _ _
  | reportOn _ _ _ ih => exact ih _ _ _
  | output _ _ ih => exact ih _
  | note _ _ ih => exact ih _
  | cancel _ ih => exact ih _

end Act

namespace Visit

/-- Whether a visit is one to a file on whose model violations were reported. -/
structure Reported (ctx : FileContext) (f : SourceFile) (m : TextModel) (vs : List Violation)
    (s : Visit) : Prop where
  file : s.file = { f with
    model := some m
    violations := Violation.distinct ((counted ctx m vs).filter fun v => !isHeldBack ctx v) }
  held : s.held = Violation.distinct ((counted ctx m vs).filter (isHeldBack ctx))

namespace Reported

variable {ctx : FileContext} {f : SourceFile} {m : TextModel} {vs : List Violation} {s : Visit}

theorem path (h : Reported ctx f m vs s) : s.file.path = f.path := by rw [h.file]

theorem model (h : Reported ctx f m vs s) : s.file.model = some m := by rw [h.file]

theorem emit (h : Reported ctx f m vs s) (e : Event) : Reported ctx f m vs (s.emit e) :=
  ⟨h.file, h.held⟩

/-- One more report. -/
theorem report (h : Reported ctx f m vs s) (v : Violation) :
    Reported ctx f m (vs ++ [v]) (s.report ctx v).1 := by
  have hsup : s.file.isSuppressed (graded ctx v).ruleId (graded ctx v).line =
      m.isSuppressed (graded ctx v).ruleId (graded ctx v).line := by
    rw [SourceFile.isSuppressed, h.model]
  simp only [Visit.report, hsup]
  split
  · next hs =>
    have hcounted : counted ctx m (vs ++ [v]) = counted ctx m vs := by
      simp [counted, hs]
    exact ⟨by rw [hcounted]; exact h.file, by rw [hcounted]; exact h.held⟩
  · next hs =>
    have hcounted : counted ctx m (vs ++ [v]) = counted ctx m vs ++ [graded ctx v] := by
      simp [counted, hs]
    split
    · next hheld =>
      have hback : isHeldBack ctx (graded ctx v) = true := hheld
      have hinsert : (Violation.insertNew s.held (graded ctx v)) = Violation.distinct
          ((counted ctx m (vs ++ [v])).filter (isHeldBack ctx)) := by
        simp [hcounted, hback, Violation.distinct_concat, h.held]
      have hfile : s.file = { f with
          model := some m
          violations := Violation.distinct
            ((counted ctx m (vs ++ [v])).filter fun v => !isHeldBack ctx v) } := by
        simp [hcounted, hback, h.file]
      -- a violation that is held back twice is kept once
      rw [Violation.insertNew] at hinsert
      split
      · next hany => exact ⟨hfile, by rw [← hinsert, if_pos hany]⟩
      · next hany => exact ⟨hfile, by rw [← hinsert, if_neg hany]⟩
    · next hheld =>
      have hback : isHeldBack ctx (graded ctx v) = false := Bool.eq_false_iff.mpr hheld
      refine ⟨?_, ?_⟩
      · rw [publish_file, h.file]
        simp [SourceFile.record, hcounted, hback, Violation.distinct_concat]
      · simp [hcounted, hback, h.held]

/-- Reports one after the other. -/
theorem reportAll (h : Reported ctx f m vs s) (ws : List Violation) :
    ∃ s', (Act.reportAll ws).run ctx s = (s', .ok ()) ∧ Reported ctx f m (vs ++ ws) s' := by
  induction ws generalizing vs s with
  | nil => exact ⟨s, rfl, by rwa [List.append_nil]⟩
  | cons w ws ih =>
    obtain ⟨s', hrun, hs'⟩ := ih (h.report w)
    rw [List.append_assoc] at hs'
    exact ⟨s', hrun, hs'⟩

/-- What a pattern analyzer reports. -/
theorem check (h : Reported ctx f m vs s) (rules : List (Rule × Pattern)) :
    ∃ s', (PatternAnalyzer.check ctx rules).run ctx s = (s', .ok ()) ∧
      Reported ctx f m (vs ++ PatternAnalyzer.hitsOf ctx rules f.path m.lines) s' := by
  induction rules generalizing vs s with
  | nil => exact ⟨s, rfl, by simpa [PatternAnalyzer.hitsOf] using h⟩
  | cons rp rest ih =>
    obtain ⟨r, p⟩ := rp
    simp only [PatternAnalyzer.check, Act.run, h.path]
    have hits : PatternAnalyzer.hits s.file r p =
        PatternAnalyzer.hitsFrom f.path r p 1 m.lines := by
      rw [PatternAnalyzer.hits, h.model, h.path]
    by_cases hon : ctx.isRuleEnabled r.id f.path = true
    · obtain ⟨s₁, hrun₁, hs₁⟩ := h.reportAll (PatternAnalyzer.hitsFrom f.path r p 1 m.lines)
      obtain ⟨s₂, hrun₂, hs₂⟩ := ih hs₁
      refine ⟨s₂, ?_, ?_⟩
      · rw [if_pos hon, Act.run_bind, hits, hrun₁]
        exact hrun₂
      · rw [List.append_assoc] at hs₂
        simpa [PatternAnalyzer.hitsOf, hon] using hs₂
    · obtain ⟨s₁, hrun₁, hs₁⟩ := ih h
      refine ⟨s₁, by rw [if_neg hon]; exact hrun₁, ?_⟩
      simpa [PatternAnalyzer.hitsOf, hon] using hs₁

end Reported

end Visit

namespace FileJob

variable {j : FileJob} {f : SourceFile} {m : TextModel} {vs : List Violation} {a : Attempt}

/-- A pattern analyzer that is on reports its hits. -/
theorem analyze_reported (hj : j.registry.IsBuiltin) (ha : Visit.Reported j.context f m vs a.visit)
    {e : AnalyzerEntry} (he : e ∈ j.registry.analyzers) :
    ∃ s, j.analyze a e = { a with visit := s } ∧ Visit.Reported j.context f m
      (vs ++ if j.context.settings.isAddinEnabled e.analyzer.id then
        PatternAnalyzer.hitsOf j.context (PatternAnalyzer.activeRules e.profile) f.path m.lines
      else []) s := by
  unfold analyze
  by_cases hon : j.context.settings.isAddinEnabled e.analyzer.id = true
  · have hoff : ¬ (!j.isAddinEnabled e.analyzer.id) = true := by simp [isAddinEnabled, hon]
    obtain ⟨s, hrun, hs⟩ := (ha.emit
      (.analyzing e.analyzer.id a.visit.file.path j.context.pass)).check
      (PatternAnalyzer.activeRules e.profile)
    obtain ⟨id, parserId, heq⟩ := hj.analyzer e he
    have hact : e.analyzer.analyze e.profile j.context =
        PatternAnalyzer.check j.context (PatternAnalyzer.activeRules e.profile) := by
      rw [heq]; rfl
    refine ⟨s, ?_, by rw [if_pos hon]; exact hs⟩
    simp only [if_neg hoff, hact, hrun]
  · have hoff : (!j.isAddinEnabled e.analyzer.id) = true := by simp [isAddinEnabled, hon]
    exact ⟨a.visit, by rw [if_pos hoff], by simpa [hon] using ha⟩

/-- The analyzers of a parser report their hits, one analyzer after the other. -/
theorem analyzeAll_reported (hj : j.registry.IsBuiltin)
    (ha : Visit.Reported j.context f m [] a.visit) (parser : String) :
    ∃ s, j.analyzeAll a parser = { a with visit := s } ∧
      Visit.Reported j.context f m (j.registry.reports j.context parser f.path m) s := by
  have hmem (e : AnalyzerEntry) (he : e ∈ j.registry.analyzersOf parser) :
      e ∈ j.registry.analyzers := Registry.mem_analyzers_of_analyzersOf he
  have hfold (es : List AnalyzerEntry) (hes : ∀ e ∈ es, e ∈ j.registry.analyzers)
      (vs : List Violation) (a : Attempt) (ha : Visit.Reported j.context f m vs a.visit) :
      ∃ s, es.foldl j.analyze a = { a with visit := s } ∧ Visit.Reported j.context f m
        (vs ++ es.flatMap fun e => if j.context.settings.isAddinEnabled e.analyzer.id then
          PatternAnalyzer.hitsOf j.context (PatternAnalyzer.activeRules e.profile) f.path m.lines
        else []) s := by
    induction es generalizing vs a with
    | nil => exact ⟨a.visit, rfl, by simpa using ha⟩
    | cons e es ih =>
      obtain ⟨s₁, h₁, hs₁⟩ := analyze_reported hj ha (hes e List.mem_cons_self)
      obtain ⟨s₂, h₂, hs₂⟩ := ih (fun x hx => hes x (List.mem_cons_of_mem _ hx)) _
        { a with visit := s₁ } hs₁
      refine ⟨s₂, by rw [List.foldl_cons, h₁, h₂], ?_⟩
      rw [List.flatMap_cons, ← List.append_assoc]
      exact hs₂
  obtain ⟨s, hs, hrep⟩ := hfold _ hmem [] a ha
  exact ⟨s, hs, hrep⟩

end FileJob

end StyleEngine
