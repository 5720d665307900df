import StyleEngine.Proofs.Analysis.FixedLines
import StyleEngine.Proofs.Engine.FixConservation
import StyleEngine.Proofs.Engine.RebuiltProjects

/-! # The texts that fixing runs leave

A fixing run puts replacements on lines and leaves all other lines alone.  Whether
the text that a file holds then is read as these lines depends on the replacements
alone: each of them has to survive on its line (`Engine.reread_runWith`).  A request
that does not come to a run, because it is refused or because settings cannot be
read, leaves the texts as they are.
-/
namespace StyleEngine

namespace Engine

variable {e : Engine} {sweep : Sweep} {t : FileTree} {switches : Switches} {processors : Nat}
  {mode : RunMode} {settingsPath : Option String} {projects : List Project}

/-- Preparing projects keeps their texts. -/
theorem texts_prepare (e : Engine) (t : FileTree) (mode : RunMode) (path : Option Path)
    (before : Prepared) (ps : List Project) :
    Project.texts (e.prepare t mode path before ps).1.projects =
      Project.texts before.projects ++ Project.texts ps := by
  induction ps generalizing before with
  | nil => exact (List.append_nil _).symm
  | cons p ps ih =>
    unfold prepare
    cases hs : e.settingsOf t path p with
    | error cause => exact List.map_append
    | ok s =>
      have hready : Project.texts (prepareUnder mode before p s).projects =
          Project.texts before.projects ++ Project.texts [p] := by
        simp only [Project.texts, prepareUnder, Project.reset, List.map_append, List.map_cons,
          List.map_nil, List.map_map, Function.comp_def, SourceFile.sourceText?_reset]
        rfl
      show Project.texts (e.prepare t mode path (prepareUnder mode before p s) ps).1.projects = _
      rw [ih, hready, List.append_assoc]
      rfl

/-- Whether the texts of the files of projects are as fixes have left them, given those that were
applied on each. -/
def HasFixed (projects fixed : List Project) (applied : Slot → List Violation) : Prop :=
  ∀ (i k : Nat) (p : Project) (f : SourceFile) (text : String), projects[i]? = some p →
    p.files[k]? = some f → f.sourceText? = some text → ∃ p' f', fixed[i]? = some p' ∧
      p'.files[k]? = some f' ∧ f'.Fixed text (applied ⟨i, k⟩)

/-- Projects with the same texts are as if nothing had been fixed. -/
theorem hasFixed_of_texts {ps ps' : List Project} (h : Project.texts ps' = Project.texts ps) :
    HasFixed ps ps' fun _ => [] := by
  intro i k p f text hp hf htext
  have hplace := congrArg (fun l => l[i]?) h
  simp only [Project.texts, List.getElem?_map, hp, Option.map_some] at hplace
  obtain ⟨p', hp', hfiles⟩ := Option.map_eq_some_iff.mp hplace
  have hfile := congrArg (fun l => l[k]?) hfiles
  simp only [List.getElem?_map, hf, Option.map_some] at hfile
  obtain ⟨f', hf', heq⟩ := Option.map_eq_some_iff.mp hfile
  refine ⟨p', f', hp', hf', .untouched ?_⟩
  rw [(Prod.mk.inj heq).2, htext]

/-- What a run that comes to its end makes of the texts. -/
theorem Direct.hasFixed {handled : List Handled} {o : RunOutcome}
    (h : e.Direct t switches mode settingsPath projects handled o) (hb : e.registry.IsBuiltin)
    (hmode : mode.autoFix = true) : ∃ applied : Slot → List Violation,
      (∀ x ∈ handled, x.result.fixes = (applied x.slot).length) ∧
        HasFixed projects o.projects applied := by
  have hslot (s : Slot) : ∃ applied : List Violation, ∀ x ∈ handled, x.slot = s →
      x.result.fixes = applied.length ∧ ∀ p f text, projects[s.project]? = some p →
        p.files[s.file]? = some f → f.sourceText? = some text →
        x.result.file.Fixed text applied := by
    by_cases hex : ∃ x ∈ handled, x.slot = s
    · obtain ⟨x, hx, rfl⟩ := hex
      obtain ⟨p, f, s, status, hp, hf, -, hresult⟩ := h.result x hx
      obtain ⟨applied, hfixes, hfixed⟩ :=
        FileJob.process_fixed (j := e.jobOf switches mode p s status) hb hmode f
      rw [← hresult] at hfixes hfixed
      refine ⟨applied, ?_⟩
      intro y hy hyx
      obtain rfl := h.eq_of_slot_eq hy hx hyx
      refine ⟨hfixes, ?_⟩
      intro p' f' text hp' hf' htext
      obtain rfl := Option.some.inj (hp.symm.trans hp')
      obtain rfl := Option.some.inj (hf.symm.trans hf')
      exact hfixed text htext
    · exact ⟨[], fun x hx hxs => absurd ⟨x, hx, hxs⟩ hex⟩
  obtain ⟨applied, happlied⟩ := Classical.skolem.mp hslot
  refine ⟨applied, fun x hx => (happlied x.slot x hx rfl).1, ?_⟩
  intro i k p f text hp hf htext
  obtain ⟨x, hx, hxs, -⟩ := h.exists_handled hp hf
  obtain ⟨p', hp', hf'⟩ := h.file x hx
  rw [hxs] at hp' hf'
  exact ⟨p', _, hp', hf', (happlied ⟨i, k⟩ x hx hxs).2 p f text hp hf htext⟩

/-- A request whose projects cannot be made ready leaves their texts and counts no fixes. -/
theorem texts_of_unprepared (hacc : e.Accepts settingsPath)
    (hfails : (e.busy.prepare t mode (settingsPath.map Path.mk) { cache := e.cache } projects).2 ≠
      .ok ()) :
    let o := e.runWith sweep t switches processors mode settingsPath projects
    Project.texts o.projects = Project.texts projects ∧
      ∀ summary, o.result = .ok summary → summary.fixesApplied = 0 := by
  intro o
  have htexts := texts_prepare e.busy t mode (settingsPath.map Path.mk) { cache := e.cache } projects
  rcases hprepare : e.busy.prepare t mode (settingsPath.map Path.mk) { cache := e.cache }
    projects with ⟨ready, result⟩
  rw [hprepare] at hfails htexts
  obtain ⟨message, rfl⟩ : ∃ message, result = .error message := by
    cases result with
    | ok u => exact absurd rfl hfails
    | error message => exact ⟨message, rfl⟩
  obtain ⟨hprojects, -, hresult⟩ : o.projects = ready.projects ∧ o.files = t ∧
      o.result = .ok (.collect ready.projects _) := runWith_of_unprepared hacc hprepare
  refine ⟨(congrArg Project.texts hprojects).trans htexts, ?_⟩
  intro summary hsummary
  obtain rfl := Except.ok.inj (hresult.symm.trans hsummary)
  rfl

/-- **What a request makes of the texts**, however it is met. -/
theorem exists_hasFixed (hs : sweep.Interleaves) (hb : e.registry.IsBuiltin)
    (hmode : mode.autoFix = true) (t : FileTree) (switches : Switches) (processors : Nat)
    (settingsPath : Option String) (projects : List Project) :
    let o := e.runWith sweep t switches processors mode settingsPath projects
    ∃ applied : Slot → List Violation,
      (∀ summary, o.result = .ok summary → summary.fixesApplied =
        ((slotsFrom 0 projects).map fun s => (applied s).length).sum) ∧
      HasFixed projects o.projects applied := by
  intro o
  rcases builtin_cases hb sweep t switches processors mode settingsPath projects with
    ⟨hno, hprojects, -⟩ | ⟨hacc, hfails, -⟩ | ⟨-, -, hstart⟩
  · refine ⟨fun _ => [], ?_, hasFixed_of_texts (congrArg Project.texts hprojects)⟩
    intro summary hresult
    simp only [o, runWith_of_refused hno] at hresult
    cases hresult
  · obtain ⟨htexts, hnone⟩ : Project.texts o.projects = Project.texts projects ∧
        ∀ summary, o.result = .ok summary → summary.fixesApplied = 0 :=
      texts_of_unprepared hacc hfails
    refine ⟨fun _ => [], ?_, hasFixed_of_texts htexts⟩
    intro summary hresult
    simp [hnone summary hresult]
  · obtain ⟨handled, hdirect⟩ := hstart.direct hb hs (.inr hmode) processors
    obtain ⟨applied, hcount, hfixed⟩ := hdirect.hasFixed hb hmode
    obtain ⟨summary, hresult, -, hfixes⟩ := hdirect.summary
    refine ⟨applied, ?_, hfixed⟩
    intro summary' hresult'
    obtain rfl := Except.ok.inj (hresult.symm.trans hresult')
    rw [hfixes, hdirect.fixes_eq_sum hcount]

/-- **The texts that fixing runs leave.**  For all projects, text parsers and pattern analyzers, and
however a request to fix files is met, there are violations for each file whose fixes were applied:
the summary counts them, and the text that the file holds then is rendered from the old lines and
the replacements.  Read again it has just these lines, so as many as before, exactly if all the
replacements survive on their lines. -/
theorem reread_runWith (hs : sweep.Interleaves) (hb : e.registry.IsBuiltin)
    (hmode : mode.autoFix = true) (t : FileTree) (switches : Switches) (processors : Nat)
    (settingsPath : Option String) (projects : List Project) :
    let o := e.runWith sweep t switches processors mode settingsPath projects
    ∃ applied : Slot → List Violation,
      (∀ summary, o.result = .ok summary → summary.fixesApplied =
        ((slotsFrom 0 projects).map fun s => (applied s).length).sum) ∧
      ∀ (i k : Nat) (p : Project) (f : SourceFile) (text : String), projects[i]? = some p →
        p.files[k]? = some f → f.sourceText? = some text →
        ∃ (p' : Project) (f' : SourceFile) (text' : String), o.projects[i]? = some p' ∧
          p'.files[k]? = some f' ∧ f'.Fixed text (applied ⟨i, k⟩) ∧
          f'.sourceText? = some text' ∧
          ((TextModel.ofText text).IsPatch (applied ⟨i, k⟩) (.ofText text') ↔
            ∀ v ∈ applied ⟨i, k⟩, v.KeepsLines (.ofText text)) := by
  intro o
  obtain ⟨applied, hcount, hfixed⟩ :=
    exists_hasFixed hs hb hmode t switches processors settingsPath projects
  refine ⟨applied, hcount, ?_⟩
  intro i k p f text hp hf htext
  obtain ⟨p', f', hp', hf', hfile⟩ := hfixed i k p f text hp hf htext
  obtain ⟨text', htext', hiff⟩ := hfile.isPatch_iff
  exact ⟨p', f', text', hp', hf', hfile, htext', hiff⟩

/-- A project with a file that has a fix for one of its lines. -/
def dated : Project where
  files := [.ofText ⟨"a.txt"⟩ "TODO\r\nold"]
  settings := some {}

theorem reread_runWith_dated :
    let o := mender.runWith Sweep.oneByOne {} [] 1 { autoFix := true } none [dated]
    (o.projects.map fun p => p.files.map SourceFile.sourceText?) = [[some "TODO\r\nnew"]] ∧
    ∃ applied : Slot → List Violation,
      (∀ summary, o.result = .ok summary →
        summary.fixesApplied = ((slotsFrom 0 [dated]).map fun s => (applied s).length).sum) ∧
      ∃ (p' : Project) (f' : SourceFile) (text' : String), o.projects[0]? = some p' ∧
        p'.files[0]? = some f' ∧ f'.Fixed "TODO\r\nold" (applied ⟨0, 0⟩) ∧
        f'.sourceText? = some text' ∧
        ((TextModel.ofText "TODO\r\nold").IsPatch (applied ⟨0, 0⟩) (.ofText text') ↔
          ∀ v ∈ applied ⟨0, 0⟩, v.KeepsLines (.ofText "TODO\r\nold")) := by
  have hmode : ({ autoFix := true } : RunMode).autoFix = true := rfl
  obtain ⟨applied, hcount, hfiles⟩ := reread_runWith Sweep.oneByOne_interleaves.interleaves
    mender_isBuiltin hmode {} [] 1 none [dated]
  exact ⟨by decide +kernel, applied, hcount, hfiles 0 0 dated _ _ rfl rfl rfl⟩

/-- An engine with rules whose fixes empty a line, break it and end it with a carriage return. -/
def frayer : Engine where
  registry :=
    { parsers := [{
        parser := textParser "text" ["txt"]
        profile := {}
        trusted := false
        analyzers := ["ends"] }]
      analyzers := [{
        analyzer := patternAnalyzer "ends" "text"
        profile := { rules := [
          { id := "Blank", context := "blank", pattern := some " ", fix := some "" },
          { id := "Split", context := "split", pattern := some ";", fix := some "\n" },
          { id := "Return", context := "return", pattern := some "!", fix := some "\r" }] }
        trusted := false
        owner := some "text" }]
      extensions := [("txt", "text")] }

/-- A project with a file for each of the rules. -/
def fraying : Project where
  files := [.ofText ⟨"a.txt"⟩ "a\n ", .ofText ⟨"b.txt"⟩ "b;c\n", .ofText ⟨"c.txt"⟩ "d!\ne\n"]
  settings := some {}

/-- Fixes can remove a line, add one, and leave a line that is not the replacement. -/
theorem reread_runWith_frayed :
    let o := frayer.runWith Sweep.oneByOne {} [] 1 { autoFix := true } none [fraying]
    let lines (f : SourceFile) := f.sourceText?.map splitLines
    fraying.files.map lines = [some ["a", " "], some ["b;c"], some ["d!", "e"]] ∧
    (o.projects.map fun p => p.files.map fun f => f.model.map TextModel.lines) =
      [[some ["a", ""], some ["b\nc"], some ["d\r", "e"]]] ∧
    (o.projects.map fun p => p.files.map lines) =
      [[some ["a"], some ["b", "c"], some ["d", "e"]]] := by
  decide +kernel

end Engine

end StyleEngine
