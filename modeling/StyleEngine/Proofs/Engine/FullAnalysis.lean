import StyleEngine.Proofs.Analysis.Offences
import StyleEngine.Proofs.Analysis.Recording
import StyleEngine.Proofs.Engine.DirectRuns

/-! # What a full analysis records

A host may equip an engine with text parsers and pattern analyzers in any way.  On
every file that a parser reads, a full analysis then records the offences in its
text, each occurrence once, and nothing else.
-/
namespace StyleEngine

namespace Engine

variable {e : Engine} {sweep : Sweep} {t : FileTree} {switches : Switches} {processors : Nat}
  {settingsPath : Option String} {projects : List Project} {summary : RunSummary}

/-- What a full analysis records on a file with a text. -/
theorem violations_process_full (he : e.registry.IsEquipped) {p : Project} {f : SourceFile}
    {text : String} {s : Settings} {parser : ParserEntry} (htext : f.sourceText? = some text)
    (hparser : f.extension?.bind e.registry.parserFor? = some parser)
    (hon : s.isAddinEnabled parser.parser.id = true) (status : ProjectStatus) :
    ((e.jobOf switches { full := true } p s status).process none f.reset).file.violations =
      (e.registry.offences
        { project := p.toProjectInfo, settings := s, ruleDefault := e.registry.ruleDefault? }
        parser.parser.id f.path (TextModel.ofText text)).eraseDupsBy Violation.sameOccurrence := by
  have hfinds := FileJob.process_finds (j := e.jobOf switches { full := true } p s status)
    he.isBuiltin (SourceFile.isReset_reset htext) (fun vs hvs => nomatch (hvs : none = some vs))
  have hmodified := FileJob.process_modified (j := e.jobOf switches { full := true } p s status)
    rfl none f.reset
  have hlike : (e.jobOf switches { full := true } p s status).context.DecidesLike
      { project := p.toProjectInfo, settings := s, ruleDefault := e.registry.ruleDefault? } :=
    ⟨rfl, rfl, rfl⟩
  have hreader : e.registry.reader? s f.path = some parser :=
    FileJob.reader?_of_parserOf? (j := e.jobOf switches { full := true } p s status) hparser hon
  rw [hfinds.violations hmodified, hlike.findings]
  exact Registry.findings_eq he.isWired he.fits hreader _

/-- **What a full analysis records** on a file that a parser reads: for every analyzer of the
parser that is on, for every rule of it that applies to the file and for every line that breaks the
rule, one violation, less repetitions.  The patterns of all rules can be read. -/
theorem violations_runWith_full (hs : sweep.Interleaves) (he : e.IsEquipped)
    (h : (e.runWith sweep t switches processors { full := true } settingsPath projects).result =
      .ok summary) (hconverged : summary.converged = true) {i k : Nat} {p : Project}
    {f : SourceFile} {text : String} {parser : ParserEntry} (hp : projects[i]? = some p)
    (hf : p.files[k]? = some f) (htext : f.sourceText? = some text)
    (hparser : f.extension?.bind e.registry.parserFor? = some parser) :
    let o := e.runWith sweep t switches processors { full := true } settingsPath projects
    (∃ s p' f', e.settingsOf t (settingsPath.map Path.mk) p = .ok s ∧
      o.projects[i]? = some p' ∧ p'.files[k]? = some f' ∧
      (s.isAddinEnabled parser.parser.id = true →
        f'.violations = (e.registry.offences
          { project := p.toProjectInfo, settings := s, ruleDefault := e.registry.ruleDefault? }
          parser.parser.id f.path (TextModel.ofText text)).eraseDupsBy
            Violation.sameOccurrence)) ∧
    ∀ a ∈ e.registry.analyzers, ∀ rule ∈ a.profile.rules, ∀ pattern, rule.pattern = some pattern →
      (Pattern.compile? pattern).isSome = true := by
  intro o
  refine ⟨?_, fun a ha => (he.registry.fits a ha).pattern⟩
  rcases e.runWith_cases sweep t switches processors { full := true } settingsPath projects with
    ⟨-, -, -, cause, hcause⟩ | ⟨-, -, -, -, -, hnever⟩ | ⟨-, -, -, hstart⟩
  · rw [hcause] at h
    cases h
  · rw [hnever summary h] at hconverged
    cases hconverged
  · obtain ⟨handled, hdirect⟩ :=
      hstart.direct he.registry.isBuiltin hs (.inl rfl) processors
    obtain ⟨x, hx, hslot, s, status, hset, hresult⟩ := hdirect.exists_handled hp hf
    obtain ⟨p', hp', hf'⟩ := hdirect.file x hx
    rw [hslot] at hp' hf'
    rw [hresult] at hf'
    exact ⟨s, p', _, hset, hp', hf', fun hon =>
      violations_process_full he.registry htext hparser hon status⟩

/-- An engine whose analyzer was registered before the parser that it is for. -/
def proofreader : Engine :=
  let started : Engine := {}
  let analyzing := (started.registerAnalyzer [] (patternAnalyzer "marks" "text")
    [{ id := "marks"
       rules := [
        { id := "Tab", context := "tab", pattern := some "\\t", fix := some " " },
        { id := "Inner", context := "{0}", pattern := some "a", trustedOnly := true },
        { id := "Todo", context := "{0} left", pattern := some "TO(DO)" }] }] false).engine
  (analyzing.registerParser [] (textParser "text" ["txt"]) [] false).engine

/-- A file with two tabs and two notes, one of which a comment allows. -/
def draft : SourceFile := .ofText ⟨"a.txt"⟩ "a\tb\nTODO // stylecheck-disable Todo\nTODO\tz\n"

/-- A project with one file, for which notes are errors. -/
def drafts : Project where
  files := [draft]
  settings := some { rules := { severity := [("Todo", .error)] } }

theorem proofreader_isEquipped : proofreader.IsEquipped :=
  .parser (.analyzer (.fresh rfl) _ _ _ _ _) _ _ _ _ _

theorem violations_runWith_full_drafts : ∃ p' f',
    let o := proofreader.runWith Sweep.oneByOne {} [] 2 { full := true } none [drafts]
    proofreader.IsEquipped ∧ o.projects[0]? = some p' ∧ p'.files[0]? = some f' ∧
    f'.violations = (proofreader.registry.offences
      { settings := drafts.effectiveSettings, ruleDefault := proofreader.registry.ruleDefault? }
      "text" draft.path
      (TextModel.ofText "a\tb\nTODO // stylecheck-disable Todo\nTODO\tz\n")).eraseDupsBy
        Violation.sameOccurrence ∧
    (o.projects.map fun p => p.files.map fun f =>
      f.violations.map fun v => (v.ruleId, v.severity.name, v.message, v.line)) =
    [[[("Tab", "warning", "tab", 1), ("Tab", "warning", "tab", 3),
       ("Todo", "error", "DO left", 3)]]] := by
  have hs := Sweep.oneByOne_interleaves.interleaves
  have hread : ∀ p ∈ [drafts], ∃ s, proofreader.settingsOf {} none p = .ok s := by
    intro p hp
    obtain rfl := List.mem_singleton.mp hp
    exact ⟨_, rfl⟩
  have haccepts : proofreader.Accepts none := ⟨rfl, by decide +kernel⟩
  have hdirect : ∃ handled, proofreader.Direct {} [] { full := true } none [drafts] handled
      (proofreader.runWith Sweep.oneByOne {} [] 2 { full := true } none [drafts]) :=
    exists_direct proofreader_isEquipped.registry.isBuiltin hs (.inl rfl) haccepts hread [] 2
  obtain ⟨handled, hdirect⟩ := hdirect
  obtain ⟨summary, hresult, hconverged, -⟩ := hdirect.summary
  have hid : (draft.extension?.bind proofreader.registry.parserFor?).map (fun e => e.parser.id) =
      some "text" := by decide +kernel
  obtain ⟨parser, hparser, hid⟩ := Option.map_eq_some_iff.mp hid
  obtain ⟨⟨s, p', f', hset, hp', hf', hviolations⟩, -⟩ := violations_runWith_full hs
    proofreader_isEquipped hresult hconverged (p := drafts) (f := draft) (i := 0) (k := 0)
    rfl rfl rfl hparser
  obtain rfl : drafts.effectiveSettings = s := Except.ok.inj hset
  rw [hid] at hviolations
  exact ⟨p', f', proofreader_isEquipped, hp', hf', hviolations rfl, by decide +kernel⟩

end Engine

end StyleEngine
