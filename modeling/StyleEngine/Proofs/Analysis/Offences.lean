import StyleEngine.Proofs.Registry.Equipment

/-! # The offences in a text

What rules find fault with in a text is said here line by line, without regard to
how it is looked for (`Registry.offences`): which analyzers check the text, with
which rules, on which lines a rule is broken, and what is then said about it.  Where
the add-ins are wired and their profiles fit, the analyzers report just that
(`Registry.findings_eq`).
-/
namespace StyleEngine

/-! ## The offences -/

/-- The offence against a rule on a line: its pattern matches there, and no comment switches the
rule off. -/
def Rule.offence? (rule : Rule) (p : Pattern) (s : Settings) (path : Path) (m : TextModel)
    (number : Nat) (line : String) : Option Violation :=
  if m.isSuppressed rule.id number then none
  else
    let chars := line.toList.toArray
    (p.find? chars 0).map fun c =>
      { ruleId := rule.id
        severity := (s.severityOf? rule.id).getD rule.severity
        message := rule.render
          [String.ofList (((Pattern.groupText chars c 1).or (Pattern.groupText chars c 0)).getD [])]
        file := some path
        element := none
        line := number
        fix := rule.fix.map fun template =>
          { description := "Apply " ++ rule.id
            replacement := p.replaceAll line template
            safety := .safe } }

/-- The rules of an analyzer that apply to a file, with their patterns. -/
def AnalyzerEntry.rulesFor (a : AnalyzerEntry) (ctx : FileContext) (path : Path) :
    List (Rule × Pattern) :=
  (a.profile.rules.filter fun rule =>
    (a.trusted || !rule.trustedOnly) && ctx.isRuleEnabled rule.id path).filterMap fun rule =>
      (rule.pattern.bind Pattern.compile?).map (rule, ·)

namespace Registry

/-- The analyzers that a parser owns and the settings leave on, in the order of their
registration. -/
def checkers (r : Registry) (s : Settings) (parser : String) : List AnalyzerEntry :=
  r.analyzers.filter fun a => a.owner = some parser && s.isAddinEnabled a.analyzer.id

/-- The offences in a file that a parser has read, given its model. -/
def offences (r : Registry) (ctx : FileContext) (parser : String) (path : Path) (m : TextModel) :
    List Violation :=
  (r.checkers ctx.settings parser).flatMap fun a =>
    (a.rulesFor ctx path).flatMap fun (rule, p) =>
      (m.lines.zipIdx 1).filterMap fun (line, number) =>
        rule.offence? p ctx.settings path m number line

end Registry

/-! ## What is reported -/

theorem flatMap_filter {α β : Type} (p : α → Bool) (f : α → List β) (l : List α) :
    (l.filter p).flatMap f = l.flatMap fun a => if p a then f a else [] := by
  induction l with
  | nil => rfl
  | cons a l ih =>
    by_cases ha : p a = true
    · rw [List.filter_cons_of_pos ha, List.flatMap_cons, List.flatMap_cons, ih, if_pos ha]
    · rw [List.filter_cons_of_neg ha, List.flatMap_cons, ih, if_neg ha, List.nil_append]

theorem Pattern.matched?_eq (p : Pattern) (text : String) :
    p.matched? text = (p.find? text.toList.toArray 0).map fun c =>
      String.ofList (((groupText text.toList.toArray c 1).or
        (groupText text.toList.toArray c 0)).getD []) := by
  simp only [matched?]
  congr 1
  funext c
  cases groupText text.toList.toArray c 1 <;> rfl

namespace Visit

variable {ctx : FileContext} {m : TextModel}

theorem counted_append (vs ws : List Violation) :
    counted ctx m (vs ++ ws) = counted ctx m vs ++ counted ctx m ws := by
  simp only [counted, List.map_append, List.filter_append]

theorem counted_flatMap {α : Type} (f : α → List Violation) (l : List α) :
    counted ctx m (l.flatMap f) = l.flatMap fun a => counted ctx m (f a) := by
  simp only [counted, List.map_flatMap, List.filter_flatMap]

/-- A hit counts as the offence on its line. -/
theorem counted_hit? (path : Path) (rule : Rule) (p : Pattern) (n : Nat) (line : String) :
    counted ctx m (PatternAnalyzer.hit? path rule p n line).toList =
      (rule.offence? p ctx.settings path m n line).toList := by
  simp only [PatternAnalyzer.hit?, Pattern.matched?_eq, Rule.offence?]
  cases p.find? line.toList.toArray 0 with
  | none => simp [counted]
  | some c =>
    simp only [Option.map_some, Option.toList_some, counted, List.map_cons, List.map_nil]
    cases hseverity : ctx.settings.severityOf? rule.id <;>
      cases hoff : m.isSuppressed rule.id n <;> simp [graded, hseverity, hoff]

/-- The hits of a rule count as the offences against it. -/
theorem counted_hitsFrom (path : Path) (rule : Rule) (p : Pattern) (n : Nat)
    (lines : List String) :
    counted ctx m (PatternAnalyzer.hitsFrom path rule p n lines) =
      (lines.zipIdx n).filterMap fun (line, number) =>
        rule.offence? p ctx.settings path m number line := by
  induction lines generalizing n with
  | nil => rfl
  | cons line rest ih =>
    rw [PatternAnalyzer.hitsFrom, counted_append, counted_hit?, ih, List.zipIdx_cons,
      List.filterMap_cons]
    simp only
    cases rule.offence? p ctx.settings path m n line <;> rfl

end Visit

/-- The rules that a pattern analyzer checks in a file, if its profile fits. -/
theorem AnalyzerEntry.rulesFor_eq {a : AnalyzerEntry} (h : a.profile.Fits a.trusted)
    (ctx : FileContext) (path : Path) :
    a.rulesFor ctx path =
      (PatternAnalyzer.activeRules a.profile).filter fun x => ctx.isRuleEnabled x.1.id path := by
  rw [PatternAnalyzer.activeRules_eq]
  by_cases hrules : a.profile.rules = []
  · simp [rulesFor, hrules]
  · rw [rulesFor, h.trust hrules, List.filter_filterMap,
      List.filterMap_filter, List.filterMap_filter]
    congr 1
    funext rule
    by_cases htrust : (a.trusted || !rule.trustedOnly) = true
    · cases hon : ctx.isRuleEnabled rule.id path <;>
        cases rule.pattern.bind Pattern.compile? <;> simp [htrust, hon, Option.filter]
    · simp [htrust]

namespace Registry

variable {r : Registry} {ctx : FileContext} {path : Path} {m : TextModel}

/-- **The reports that count are the offences.** -/
theorem counted_reports (hw : r.IsWired) (hf : ∀ a ∈ r.analyzers, a.profile.Fits a.trusted)
    (parser : String) :
    Visit.counted ctx m (r.reports ctx parser path m) = r.offences ctx parser path m := by
  have hrules (a : AnalyzerEntry) (ha : a ∈ r.analyzers) :
      Visit.counted ctx m (PatternAnalyzer.hitsOf ctx (PatternAnalyzer.activeRules a.profile) path
        m.lines) = (a.rulesFor ctx path).flatMap fun (rule, p) =>
          (m.lines.zipIdx 1).filterMap fun (line, number) =>
            rule.offence? p ctx.settings path m number line := by
    rw [a.rulesFor_eq (hf a ha), PatternAnalyzer.hitsOf, Visit.counted_flatMap, flatMap_filter]
    congr 1
    funext x
    obtain ⟨rule, p⟩ := x
    simp only
    split
    · exact Visit.counted_hitsFrom path rule p 1 m.lines
    · rfl
  -- an analyzer that is off reports nothing, so it may as well be left out beforehand
  have hfilter : r.checkers ctx.settings parser =
      (r.analyzersOf parser).filter fun a => ctx.settings.isAddinEnabled a.analyzer.id := by
    rw [hw.analyzersOf_eq, List.filter_filter, checkers]
    congr 1
    funext a
    exact Bool.and_comm _ _
  rw [reports, offences, hfilter, flatMap_filter, Visit.counted_flatMap]
  refine congrArg List.flatten (List.map_congr_left fun a ha => ?_)
  split
  · exact hrules a (mem_analyzers_of_analyzersOf ha)
  · rfl

end Registry

/-! ## Repetitions -/

namespace Violation

/-- To keep each occurrence once is to drop those that came before. -/
theorem distinct_eq_eraseDupsBy (vs : List Violation) :
    distinct vs = vs.eraseDupsBy sameOccurrence := by
  have hkeep (kept : List Violation) (v : Violation) : insertNew (kept.map id) v =
      if kept.any (sameOccurrence · v) then kept.map id else (kept ++ [v]).map id := by
    simp only [List.map_id_fun, id_eq, insertNew]
  rw [distinct, foldl_eq_map_eraseDupsBy sameOccurrence_comm hkeep, List.map_id_fun, id_eq]

end Violation

/-- **What is found in a file** are the offences in it, each occurrence once. -/
theorem Registry.findings_eq {r : Registry} (hw : r.IsWired)
    (hf : ∀ a ∈ r.analyzers, a.profile.Fits a.trusted) {ctx : FileContext} {path : Path}
    {parser : ParserEntry} (hparser : r.reader? ctx.settings path = some parser) (m : TextModel) :
    r.findings ctx path m =
      (r.offences ctx parser.parser.id path m).eraseDupsBy Violation.sameOccurrence := by
  rw [findings, hparser]
  simp only [counted_reports hw hf, Violation.distinct_eq_eraseDupsBy]

end StyleEngine
