import StyleEngine.Proofs.Analysis.Conservation
import StyleEngine.Proofs.Engine.DirectRuns

/-! # Fixing runs conserve violations

A full analysis and a fixing run over the same projects are compared file by file:
what the analysis records is what was fixed together with what the fixing run
records, and the fixes that the run counts are those applied on all the files.
-/
namespace StyleEngine

namespace Engine

variable {e : Engine} {sweep₁ sweep₂ : Sweep} {t : FileTree} {switches : Switches}
  {processors₁ processors₂ : Nat} {mode : RunMode} {settingsPath : Option String}
  {projects : List Project}

theorem jobOf_eq_fixing (hmode : mode.autoFix = true) (p : Project) (s : Settings)
    (status status' : ProjectStatus) : e.jobOf switches mode p s status =
      (e.jobOf switches { full := true } p s status').fixing status := by
  unfold jobOf FileJob.fixing
  rw [hmode]

namespace Direct

variable {handled handled₁ handled₂ : List Handled} {o o₁ o₂ : RunOutcome}

/-- No file is worked on twice. -/
theorem eq_of_slot_eq (h : e.Direct t switches mode settingsPath projects handled o)
    {x y : Handled} (hx : x ∈ handled) (hy : y ∈ handled) (hxy : x.slot = y.slot) : x = y := by
  have hnodup : (handled.map Handled.slot).Nodup :=
    h.slots.nodup_iff.mpr (nodup_slotsFrom 0 projects)
  obtain ⟨i, hi⟩ := List.mem_iff_getElem?.mp hx
  obtain ⟨k, hk⟩ := List.mem_iff_getElem?.mp hy
  have hlt : i < (handled.map Handled.slot).length := by
    rw [List.length_map]
    exact (List.getElem?_eq_some_iff.mp hi).1
  have hik : i = k := by
    refine (List.getElem?_inj hlt hnodup).mp ?_
    rw [List.getElem?_map, List.getElem?_map, hi, hk, Option.map_some, Option.map_some, hxy]
  rw [hik, hk] at hi
  exact (Option.some.inj hi).symm

/-- What fixing conserves on a file that both runs have worked on. -/
theorem conserves (h₁ : e.Direct t switches { full := true } settingsPath projects handled₁ o₁)
    (h₂ : e.Direct t switches mode settingsPath projects handled₂ o₂)
    (hb : e.registry.IsBuiltin) (hids : ∀ parser, e.registry.HasOwnIds parser)
    (hmode : mode.autoFix = true) {x y : Handled} (hx : x ∈ handled₁) (hy : y ∈ handled₂)
    (hxy : x.slot = y.slot) : ∃ applied,
      x.result.file.Conserves y.result.file applied ∧ y.result.fixes = applied.length := by
  obtain ⟨p, f, s, status₁, hp, hf, hs, hresult⟩ := h₁.result x hx
  obtain ⟨p', f', s', status₂, hp', hf', hs', hresult'⟩ := h₂.result y hy
  rw [← hxy] at hp' hf'
  obtain rfl := Option.some.inj (hp.symm.trans hp')
  obtain rfl := Option.some.inj (hf.symm.trans hf')
  obtain rfl := Except.ok.inj (hs.symm.trans hs')
  rw [hresult, hresult', jobOf_eq_fixing hmode p s status₂ status₁]
  exact FileJob.process_conserves hb rfl hids status₂ f

/-- The violations whose fixes were applied, file by file. -/
theorem exists_applied (h₁ : e.Direct t switches { full := true } settingsPath projects handled₁ o₁)
    (h₂ : e.Direct t switches mode settingsPath projects handled₂ o₂)
    (hb : e.registry.IsBuiltin) (hids : ∀ parser, e.registry.HasOwnIds parser)
    (hmode : mode.autoFix = true) : ∃ applied : Slot → List Violation,
      ∀ x ∈ handled₁, ∀ y ∈ handled₂, x.slot = y.slot →
        x.result.file.Conserves y.result.file (applied y.slot) ∧
        y.result.fixes = (applied y.slot).length := by
  have hslot (s : Slot) : ∃ applied : List Violation, ∀ x ∈ handled₁, ∀ y ∈ handled₂,
      x.slot = y.slot → y.slot = s →
        x.result.file.Conserves y.result.file applied ∧ y.result.fixes = applied.length := by
    by_cases hex : ∃ x ∈ handled₁, ∃ y ∈ handled₂, x.slot = y.slot ∧ y.slot = s
    · -- each run has worked on the file once, so there is one pair to compare
      obtain ⟨x, hx, y, hy, hxy, hys⟩ := hex
      obtain ⟨applied, hconserves⟩ := conserves h₁ h₂ hb hids hmode hx hy hxy
      refine ⟨applied, ?_⟩
      intro x' hx' y' hy' hxy' hys'
      obtain rfl := h₂.eq_of_slot_eq hy hy' (hys.trans hys'.symm)
      obtain rfl := h₁.eq_of_slot_eq hx hx' (hxy.trans hxy'.symm)
      exact hconserves
    · refine ⟨[], ?_⟩
      intro x hx y hy hxy hys
      exact absurd ⟨x, hx, y, hy, hxy, hys⟩ hex
  obtain ⟨applied, happlied⟩ := Classical.skolem.mp hslot
  exact ⟨applied, fun x hx y hy hxy => happlied y.slot x hx y hy hxy rfl⟩

/-- The fixes that a run counts are those applied on all the files. -/
theorem fixes_eq_sum (h : e.Direct t switches mode settingsPath projects handled o)
    {applied : Slot → List Violation}
    (happlied : ∀ y ∈ handled, y.result.fixes = (applied y.slot).length) :
    (handled.map fun y => y.result.fixes).sum =
      ((slotsFrom 0 projects).map fun s => (applied s).length).sum := by
  calc (handled.map fun y => y.result.fixes).sum
      = ((handled.map Handled.slot).map fun s => (applied s).length).sum := by
        rw [List.map_map]
        exact congrArg List.sum (List.map_congr_left happlied)
    _ = ((slotsFrom 0 projects).map fun s => (applied s).length).sum :=
        (h.slots.map fun s => (applied s).length).sum_nat

end Direct

/-- **Fixing conserves violations.**  A full analysis and a fixing run over the same projects both
succeed, and there are violations for each file, those whose fixes were applied, such that the
analysis records them and what the fixing run records, on each line with a safe fix just one of
them stands, the file is marked as changed if there are any, and the run counts them all. -/
theorem conserves_runWith (hs₁ : sweep₁.Interleaves) (hs₂ : sweep₂.Interleaves)
    (hb : e.registry.IsBuiltin) (hids : ∀ parser, e.registry.HasOwnIds parser)
    (hacc : e.Accepts settingsPath)
    (hset : ∀ p ∈ projects, ∃ s, e.settingsOf t (settingsPath.map Path.mk) p = .ok s)
    (hmode : mode.autoFix = true) (switches : Switches) (processors₁ processors₂ : Nat) :
    let full := e.runWith sweep₁ t switches processors₁ { full := true } settingsPath projects
    let fixed := e.runWith sweep₂ t switches processors₂ mode settingsPath projects
    ∃ (summary₁ summary₂ : RunSummary) (applied : Slot → List Violation),
      full.result = .ok summary₁ ∧ fixed.result = .ok summary₂ ∧
      (∀ (i k : Nat) (p : Project) (f : SourceFile), projects[i]? = some p →
        p.files[k]? = some f → ∃ (p₁ p₂ : Project) (f₁ f₂ : SourceFile),
          full.projects[i]? = some p₁ ∧ p₁.files[k]? = some f₁ ∧
          fixed.projects[i]? = some p₂ ∧ p₂.files[k]? = some f₂ ∧
          f₁.Conserves f₂ (applied ⟨i, k⟩)) ∧
      summary₂.fixesApplied = ((slotsFrom 0 projects).map fun s => (applied s).length).sum := by
  intro full fixed
  have hfull : ∃ handled, e.Direct t switches { full := true } settingsPath projects handled full :=
    exists_direct hb hs₁ (.inl rfl) hacc hset switches processors₁
  have hfixed : ∃ handled, e.Direct t switches mode settingsPath projects handled fixed :=
    exists_direct hb hs₂ (.inr hmode) hacc hset switches processors₂
  obtain ⟨handled₁, h₁⟩ := hfull
  obtain ⟨handled₂, h₂⟩ := hfixed
  obtain ⟨summary₁, hresult₁, -, -⟩ := h₁.summary
  obtain ⟨summary₂, hresult₂, -, hfixes⟩ := h₂.summary
  obtain ⟨applied, happlied⟩ := h₁.exists_applied h₂ hb hids hmode
  refine ⟨summary₁, summary₂, applied, hresult₁, hresult₂, ?_, ?_⟩
  · intro i k p f hp hf
    obtain ⟨x, hx, hxs, -⟩ := h₁.exists_handled hp hf
    obtain ⟨y, hy, hys, -⟩ := h₂.exists_handled hp hf
    obtain ⟨p₁, hp₁, hf₁⟩ := h₁.file x hx
    obtain ⟨p₂, hp₂, hf₂⟩ := h₂.file y hy
    have hconserves := (happlied x hx y hy (hxs.trans hys.symm)).1
    rw [hxs] at hp₁ hf₁
    rw [hys] at hp₂ hf₂ hconserves
    exact ⟨p₁, p₂, _, _, hp₁, hf₁, hp₂, hf₂, hconserves⟩
  · rw [hfixes]
    refine h₂.fixes_eq_sum ?_
    intro y hy
    have hslot : y.slot ∈ handled₁.map Handled.slot :=
      h₁.slots.mem_iff.mpr (h₂.slots.mem_iff.mp (List.mem_map_of_mem hy))
    obtain ⟨x, hx, hxy⟩ := List.mem_map.mp hslot
    exact (happlied x hx y hy hxy).2

/-- An engine with two analyzers whose rules have fixes for the same lines, and one without. -/
def mender : Engine where
  registry :=
    { parsers := [{
        parser := textParser "text" ["txt"]
        profile := {}
        trusted := false
        analyzers := ["blanks", "words"] }]
      analyzers := [
        { analyzer := patternAnalyzer "blanks" "text"
          profile := { rules := [
            { id := "Tab", context := "tab", pattern := some "\t", fix := some " " }] }
          trusted := false
          owner := some "text" },
        { analyzer := patternAnalyzer "words" "text"
          profile := { rules := [
            { id := "Todo", context := "{0}", pattern := some "TODO" },
            { id := "Old", context := "{0}", pattern := some "old", fix := some "new" }] }
          trusted := false
          owner := some "text" }]
      extensions := [("txt", "text")] }

/-- A project with a file that has two fixes for one line, and one that no parser reads. -/
def worn : Project where
  files := [.ofText ⟨"a.txt"⟩ "old\tTODO\nold\n", .ofText ⟨"b.md"⟩ "old"]
  settings := some {}

theorem mender_isBuiltin : mender.registry.IsBuiltin where
  parser x hx := by
    obtain rfl := List.mem_singleton.mp hx
    exact ⟨_, _, rfl⟩
  analyzer x hx := by
    rcases List.mem_cons.mp hx with rfl | hx
    · exact ⟨_, _, rfl⟩
    · obtain rfl := List.mem_singleton.mp hx
      exact ⟨_, _, rfl⟩

theorem mender_hasOwnIds (parser : String) : mender.registry.HasOwnIds parser := by
  by_cases hparser : "text" = parser
  · subst hparser
    unfold Registry.HasOwnIds
    decide +kernel
  · have hnone : mender.registry.parserEntry? parser = none := by
      simp [ Registry.parserEntry?, mender, textParser, hparser]
    have hempty : mender.registry.analyzersOf parser = [] := by
      rw [Registry.analyzersOf, hnone]
    rw [Registry.HasOwnIds, hempty]
    exact .nil

theorem conserves_runWith_worn :
    let full := mender.runWith Sweep.oneByOne {} [] 2 { full := true } none [worn]
    let fixed := mender.runWith Sweep.oneByOne {} [] 1 { autoFix := true } none [worn]
    (full.projects.map fun p => p.files.map fun f =>
      f.violations.map fun v => (v.ruleId, v.line)) =
        [[[("Tab", 1), ("Todo", 1), ("Old", 1), ("Old", 2)], []]] ∧
    ∃ (summary₁ summary₂ : RunSummary) (applied : Slot → List Violation),
      full.result = .ok summary₁ ∧ fixed.result = .ok summary₂ ∧
      (∃ (p₁ p₂ : Project) (f₁ f₂ : SourceFile),
        full.projects[0]? = some p₁ ∧ p₁.files[0]? = some f₁ ∧
        fixed.projects[0]? = some p₂ ∧ p₂.files[0]? = some f₂ ∧
        f₁.Conserves f₂ (applied ⟨0, 0⟩)) ∧
      summary₂.fixesApplied = (applied ⟨0, 0⟩).length + (applied ⟨0, 1⟩).length := by
  have hs := Sweep.oneByOne_interleaves.interleaves
  have haccepts : mender.Accepts none := ⟨rfl, rfl⟩
  have hread : ∀ p ∈ [worn],
      ∃ s, mender.settingsOf {} ((none : Option String).map Path.mk) p = .ok s := by
    intro p hp
    obtain rfl := List.mem_singleton.mp hp
    exact ⟨_, rfl⟩
  have hmode : ({ autoFix := true } : RunMode).autoFix = true := rfl
  obtain ⟨summary₁, summary₂, applied, hresult₁, hresult₂, hfiles, hsum⟩ :=
    conserves_runWith hs hs mender_isBuiltin mender_hasOwnIds haccepts hread hmode [] 2 1
  refine ⟨by decide +kernel, summary₁, summary₂, applied, hresult₁, hresult₂,
    hfiles 0 0 worn _ rfl rfl, ?_⟩
  rw [hsum]
  simp [slotsFrom, worn, List.range_succ]

end Engine

end StyleEngine
