import StyleEngine.Proofs.Analysis.FixReports
import StyleEngine.Proofs.Engine.DirectRuns
import StyleEngine.Proofs.Run.ClaimProtocol

/-! # What fixing runs account for

A file that is done at the end of a fixing run was finished by one attempt in one
of the passes (`Run.Attempts`), and what was reported in that attempt was applied,
is recorded at the end of the run, or was lost with a parser that stopped
(`Engine.runWith_accounts`).
-/
namespace StyleEngine

namespace Run

/-- Whether a pass of a run worked on a file that was not done, without the cache: the job, the
file as it was and the result. -/
inductive Attempts (r : Run) (log : List Pool) :
    Slot → FileJob → SourceFile → Processed → Prop
  | intro {r₀ : Run} {p : Pool} {q : Project} {st : ProjectStatus} {s : Slot} {f : SourceFile}
    (hr : r.ComesTo r₀) (hp : p ∈ log) (hpass : p.IsPass r₀)
    (hq : r₀.shell? s.project = some q) (hst : r₀.statuses[s.project]? = some st)
    (hf : r₀.file? s = some f) (hd : f.done = false)
    (hx : ⟨s, (r₀.job q st).process none f⟩ ∈ p.handled) :
    Attempts r log s (r₀.job q st) f ((r₀.job q st).process none f)

variable {r r₁ r' : Run} {p : Pool} {s : Slot} {f : SourceFile}

theorem Attempts.mono {log log' : List Pool} {j : FileJob} {p : Processed}
    (h : r.Attempts log s j f p) (hsub : log ⊆ log') : r.Attempts log' s j f p := by
  cases h with
  | intro hr hp hpass hq hst hf hd hx => exact .intro hr (hsub hp) hpass hq hst hf hd hx

theorem Attempts.result_eq {log : List Pool} {j : FileJob} {p : Processed}
    (h : r.Attempts log s j f p) : p = j.process none f := by
  cases h
  rfl

/-- Fixing runs pay no heed to the cache. -/
theorem cached?_of_fixing (h : r.autoFix = true) (q : Project) (st : ProjectStatus)
    (f : SourceFile) : r.cached? (r.job q st) f = none := by
  have huse : (r.job q st).usesCache = false := by simp [FileJob.usesCache, job, h]
  rw [cached?, huse]
  rfl

theorem ComesTo.autoFix (h : r.ComesTo r₁) (hr : r.WellPlaced) (hst : r.HasStatuses) :
    r₁.autoFix = r.autoFix := by
  induction h with
  | start => rfl
  | @next r₀ p h₀ hp _ ih =>
    obtain ⟨hr₀, -, -⟩ := h₀.keeps hr hst
    exact (hp.frame hr₀).autoFix.trans ih

/-- The work of a pass on a file that was not done is an attempt. -/
theorem Attempts.of_handled (hcome : r.ComesTo r₁) (hr : r.WellPlaced) (hst : r.HasStatuses)
    (hfix : r.autoFix = true) (hp : p.IsPass r₁) {x : Handled} (hx : x ∈ p.handled)
    (hf : r₁.file? x.slot = some f) (hd : f.done = false) :
    ∃ q st, r₁.shell? x.slot.project = some q ∧ r₁.statuses[x.slot.project]? = some st ∧
      r.Attempts [p] x.slot (r₁.job q st) f x.result := by
  obtain ⟨hr₁, hst₁, -⟩ := hcome.keeps hr hst
  obtain ⟨q, f', cache, hq, hf', hresult⟩ := hp.result_eq hr₁ hx
  obtain rfl := Option.some.inj (hf.symm.trans hf')
  obtain ⟨st, hstatus⟩ := hst₁ _ q hq
  have hfix₁ : ({ r₁ with cache } : Run).autoFix = true := (hcome.autoFix hr hst).trans hfix
  simp only [hstatus, outcome, cached?_of_fixing hfix₁] at hresult
  change x.result = (r₁.job q st).process none f at hresult
  obtain ⟨slot, result⟩ := x
  obtain rfl := hresult
  exact ⟨q, st, hq, hstatus, .intro hcome (List.mem_singleton_self p) hp hq hstatus hf hd hx⟩

/-- **What a pass makes of a file**: it is as it was before, or comes from an attempt. -/
theorem Pass.attempts (hcome : r.ComesTo r₁) (hr : r.WellPlaced) (hst : r.HasStatuses)
    (hfix : r.autoFix = true) (hp : p.IsPass r₁) (hf : p.run.file? s = some f) :
    r₁.file? s = some f ∨ ∃ j f₀ result,
      r.Attempts [p] s j f₀ result ∧ result.file = f := by
  have hr₁ := (hcome.keeps hr hst).1
  by_cases hmem : s ∈ p.handled.map Handled.slot
  · obtain ⟨x, hx, rfl⟩ := List.mem_map.mp hmem
    obtain ⟨-, f₀, -, -, hf₀, -⟩ := hp.result_eq hr₁ hx
    have hfile : x.result.file = f := Option.some.inj ((hp.file?_handled hr₁ hx).symm.trans hf)
    cases hd : f₀.done with
    | true =>
      -- a file that was done is left as it is
      rw [hp.result_of_done hr₁ hx hf₀ hd] at hfile
      exact .inl (hfile ▸ hf₀)
    | false =>
      obtain ⟨q, st, -, -, hattempt⟩ := Attempts.of_handled hcome hr hst hfix hp hx hf₀ hd
      exact .inr ⟨_, f₀, _, hattempt, hfile⟩
  · exact .inl (((hp.works hr₁).file?_of_notMem hmem).symm.trans hf)

/-- What passes make of a file. -/
theorem Passes.attempts {sweep : Run → Pool} {log : List Pool}
    {result : Except AddInError PassResult} (h : Passes sweep r₁ log r' result)
    (hs : ∀ r, r.WellPlaced → (sweep r).IsPass r) (hcome : r.ComesTo r₁) (hr : r.WellPlaced)
    (hst : r.HasStatuses) (hfix : r.autoFix = true) (hf : r'.file? s = some f) :
    r₁.file? s = some f ∨ ∃ j f₀ result,
      r.Attempts log s j f₀ result ∧ result.file = f := by
  have hone {r₂ : Run} (hcome : r.ComesTo r₂) (hf : (sweep r₂).run.file? s = some f) :=
    Pass.attempts hcome hr hst hfix (hs r₂ (hcome.keeps hr hst).1) hf
  induction h with
  | cancelled _ => exact .inl hf
  | aborted _ _ | converged _ _ _ | limit _ _ _ _ => exact hone hcome hf
  | @next r₂ r' log result _ hfatal _ _ _ ih =>
    rcases ih (.next hcome (hs r₂ (hcome.keeps hr hst).1) hfatal) hf with
      hbefore | ⟨j, f₀, p, hp, hfile⟩
    · refine (hone hcome hbefore).imp_right ?_
      rintro ⟨j, f₀, p, hp, hfile⟩
      exact ⟨j, f₀, p, hp.mono fun x hx => List.mem_singleton.mp hx ▸ List.mem_cons_self, hfile⟩
    · exact .inr ⟨j, f₀, p, hp.mono (List.subset_cons_self ..), hfile⟩

/-- The first pass of a run is made, unless the run is to stop before. -/
theorem mem_passLog {sweep : Run → Pool} (hc : r.cancelled = false) (left : Nat) :
    sweep r ∈ r.passLog sweep (left + 1) := by
  unfold passLog
  simp only [hc, Bool.false_eq_true, ↓reduceIte]
  split <;> exact List.mem_cons_self

/-- The fixes that a run counts are those of the work on files. -/
theorem Passes.fixes {sweep : Run → Pool} {log : List Pool}
    {result : Except AddInError PassResult} (h : Passes sweep r log r' result)
    (hs : ∀ r, r.WellPlaced → (sweep r).IsPass r) (hr : r.WellPlaced) : r'.tally.fixes =
      r.tally.fixes + ((log.flatMap Pool.handled).map fun x => x.result.fixes).sum := by
  refine h.accumulates (m := fun r => r.tally.fixes) hs hr
    (fun n l => n + (l.map fun x => x.result.fixes).sum) (fun _ => rfl) ?_
    (fun _ _ h₁ hp => (hp.works h₁).fixes) (fun _ => rfl) (fun _ => rfl) (fun _ => rfl)
  intro n l l'
  rw [List.map_append, List.sum_append, Nat.add_assoc]

end Run

namespace Engine

variable {e : Engine} {sweep : Sweep} {t : FileTree} {switches : Switches} {mode : RunMode}
  {settingsPath : Option String} {projects : List Project} {r : Run}

theorem Starts.autoFix_eq (h : e.Starts t switches mode settingsPath projects r) :
    r.autoFix = mode.autoFix := by
  obtain ⟨ready, told, rfl⟩ := h.begins
  rfl

/-- No file is done when a run starts. -/
theorem Starts.done_eq (h : e.Starts t switches mode settingsPath projects r) {s : Slot}
    {f : SourceFile} (hf : r.file? s = some f) : f.done = false := by
  rw [h.file?_eq] at hf
  obtain ⟨p, -, hf⟩ := Option.bind_eq_some_iff.mp hf
  obtain ⟨f₀, -, rfl⟩ := Option.map_eq_some_iff.mp hf
  rfl

/-- A run that does not fail counts the fixes of its passes. -/
theorem fixesApplied_conclude {t : FileTree} {r : Run} {result : Except AddInError PassResult}
    {summary : RunSummary} (h : (conclude (e.close t mode r result)).2 = .ok summary)
    (hfail : summary.engineViolations = []) : summary.fixesApplied = r.tally.fixes := by
  have htally : (e.close t mode r result).tally = r.tally := by
    simp only [close]
    split
    · rfl
    · split <;> rfl
  unfold conclude at h
  split at h
  · cases h
  · obtain rfl := Except.ok.inj h
    cases hfail
  · obtain rfl := Except.ok.inj h
    rw [htally]

/-- **Fixing runs account for reports.**  For all add-ins, every file that is done at the end was
finished by an attempt of one of the passes; the fixes that the attempt counts were applied on
their lines; and what was reported in it, less what comments switch off, is among them or recorded
on the file, unless the parser of the file stopped on it and the report is not recorded for another
reason.  The run counts the fixes of all attempts. -/
theorem runWith_accounts (hs : sweep.Interleaves) (hmode : mode.autoFix = true)
    (hstart : e.Starts t switches mode settingsPath projects r) (processors : Nat) :
    let o := e.runWith sweep t switches processors mode settingsPath projects
    let log := r.passLog (e.sweepOf sweep processors r) maxPasses
    (∀ (i k : Nat) (q : Project) (f : SourceFile), o.projects[i]? = some q →
      q.files[k]? = some f → f.done = true → ∃ (j : FileJob) (f₀ : SourceFile) (p : Processed),
        r.Attempts log ⟨i, k⟩ j f₀ p ∧ p.file = f ∧ ∃ applied, p.Applies applied ∧
          ∀ v ∈ j.reports f₀, v.OccursIn applied ∨ v.OccursIn f.violations ↔ ¬j.Drops f₀ v) ∧
    ∀ summary, o.result = .ok summary → summary.engineViolations = [] →
      summary.fixesApplied = ((log.flatMap Pool.handled).map fun x => x.result.fixes).sum := by
  intro o log
  have hpass := isPass_sweepOf hs e processors r
  have hpasses := hstart.fresh.passes hpass
  have hwell := hstart.fresh.wellPlaced
  have hfix : r.autoFix = true := hstart.autoFix_eq.trans hmode
  have ho : o = _ := runWith_of_starts hstart
  refine ⟨?_, ?_⟩
  · intro i k q f hq hk hd
    have hprojects : o.projects =
        (r.passLoop (e.sweepOf sweep processors r) maxPasses).1.projects := by
      simp only [o, ho, projects_close]
    rw [hprojects] at hq
    have hf : (r.passLoop (e.sweepOf sweep processors r) maxPasses).1.file? ⟨i, k⟩ = some f := by
      simp only [Run.file?, hq, Option.bind_some, hk]
    rcases hpasses.attempts hpass .start hwell hstart.hasStatuses hfix hf with
      hbefore | ⟨j, f₀, p, hattempt, hfile⟩
    · rw [hstart.done_eq hbefore] at hd
      cases hd
    · refine ⟨j, f₀, p, hattempt, hfile, ?_⟩
      subst hfile
      cases hattempt with
      | intro hcome _ _ _ _ _ hd₀ _ =>
        exact FileJob.accounts_for ((hcome.autoFix hwell hstart.hasStatuses).trans hfix) hd₀ hd
  · intro summary hresult hfail
    have hfixes := hpasses.fixes hpass hwell
    rw [hstart.fresh.tally, Nat.zero_add] at hfixes
    simp only [o, ho] at hresult
    rw [fixesApplied_conclude hresult hfail, hfixes]

/-- A report with a safe fix for the first line. -/
def looseEnd : Violation where
  ruleId := "Blank"
  message := "blank"
  line := 1
  fix := some { description := "Trim", replacement := "a" }

/-- An engine with a parser that reports a loose end before it ends one way or another, and an
analyzer that reports the end of the file and breaks down. -/
def trimmer (ending : Act ParseOutcome) : Engine where
  registry :=
    { parsers := [{
        parser := {
          id := "text"
          configure := fun _ _ _ p _ => .ok p
          extensions := ["txt"]
          parse := fun _ _ => .takeText fun text =>
            .setModel (.ofText (text.getD "")) (.report looseEnd fun _ => ending) }
        profile := {}
        trusted := false
        analyzers := ["ends"] }]
      analyzers := [{
        analyzer := {
          id := "ends"
          parserId := "text"
          configure := fun _ _ _ p _ => .ok p
          analyze := fun _ _ =>
            .report { looseEnd with ruleId := "End", fix := none } fun _ => .stop (.crash {}) }
        profile := {}
        trusted := false
        owner := some "text" }]
      extensions := [("txt", "text")] }

/-- A project with a file that has a blank at its end. -/
def loose : Project where
  files := [.ofText ⟨"a.txt"⟩ "a \n"]
  settings := some {}

theorem runWith_accounts_loose :
    let o := (trimmer (.done .complete)).runWith Sweep.oneByOne {} [] 1 { autoFix := true } none
      [loose]
    (o.projects.map fun q => q.files.map fun f =>
      (f.done, f.sourceText?, f.violations.map Violation.ruleId)) =
        [[(true, some "a\n", ["End", "FileAnalysisFailed"])]] ∧
    ∃ r, (trimmer (.done .complete)).Starts {} [] { autoFix := true } none [loose] r ∧
      let log := r.passLog ((trimmer (.done .complete)).sweepOf Sweep.oneByOne 1 r) maxPasses
      (∃ (f : SourceFile) (j : FileJob) (f₀ : SourceFile) (p : Processed),
        r.Attempts log ⟨0, 0⟩ j f₀ p ∧ p.file = f ∧ ∃ applied, p.Applies applied ∧
          ∀ v ∈ j.reports f₀, v.OccursIn applied ∨ v.OccursIn f.violations ↔ ¬j.Drops f₀ v) ∧
      ∃ summary, o.result = .ok summary ∧ summary.fixesApplied = 1 ∧
        ((log.flatMap Pool.handled).map fun x => x.result.fixes).sum = 1 := by
  intro o
  obtain ⟨r, hstart⟩ : ∃ r,
      (trimmer (.done .complete)).Starts {} [] { autoFix := true } none [loose] r :=
    ⟨_, rfl, rfl, rfl⟩
  obtain ⟨hfiles, hfixes⟩ := runWith_accounts Sweep.oneByOne_interleaves.interleaves rfl hstart 1
  have hsummary : ∃ summary, o.result = .ok summary ∧ summary.engineViolations = [] ∧
      summary.fixesApplied = 1 := ⟨_, rfl, by decide +kernel, by decide +kernel⟩
  obtain ⟨summary, hok, hnone, hone⟩ := hsummary
  obtain ⟨q, f, hq, hf, hd⟩ : ∃ q f, o.projects[0]? = some q ∧ q.files[0]? = some f ∧
      f.done = true := ⟨_, _, rfl, rfl, by decide +kernel⟩
  refine ⟨by decide +kernel, r, hstart, ⟨f, hfiles 0 0 q f hq hf hd⟩, summary, hok, hone, ?_⟩
  rw [← hfixes summary hok hnone, hone]

/-- A parser that fails takes with it what it has reported. -/
theorem runWith_drops_looseEnd : ∃ (r : Run) (j : FileJob) (f₀ : SourceFile) (p : Processed),
    let e := trimmer (.stop (.error (.failed "boom")))
    let o := e.runWith Sweep.oneByOne {} [] 1 { autoFix := true } none [loose]
    e.Starts {} [] { autoFix := true } none [loose] r ∧
    r.Attempts (r.passLog (e.sweepOf Sweep.oneByOne 1 r) maxPasses) ⟨0, 0⟩ j f₀ p ∧
    o.projects.map Project.files = [[p.file]] ∧ p.file.done = true ∧
    looseEnd ∈ j.reports f₀ ∧ ¬looseEnd.OccursIn p.file.violations ∧
    ∀ applied, p.Applies applied → ¬looseEnd.OccursIn applied := by
  let e := trimmer (.stop (.error (.failed "boom")))
  let o := e.runWith Sweep.oneByOne {} [] 1 { autoFix := true } none [loose]
  -- the work on the one file of the project, in the first pass
  obtain ⟨r, q, st, f₀, hstart, hcancelled, hq, hst, hf, hd, hsweep, hfile, hdone, hreported,
      hlost, hfixes⟩ : ∃ (r : Run) (q : Project) (st : ProjectStatus) (f₀ : SourceFile),
      e.Starts {} [] { autoFix := true } none [loose] r ∧ r.cancelled = false ∧
      r.shell? 0 = some q ∧ r.statuses[0]? = some st ∧ r.file? ⟨0, 0⟩ = some f₀ ∧
      f₀.done = false ∧ (e.sweepOf Sweep.oneByOne 1 r r).run.fatal = none ∧
      o.projects.map Project.files = [[((r.job q st).process none f₀).file]] ∧
      ((r.job q st).process none f₀).file.done = true ∧
      looseEnd ∈ (r.job q st).reports f₀ ∧
      ¬looseEnd.OccursIn ((r.job q st).process none f₀).file.violations ∧
      ((r.job q st).process none f₀).fixes = 0 :=
    ⟨_, _, _, _, ⟨rfl, rfl, rfl⟩, rfl, rfl, rfl, rfl, rfl, by decide +kernel, by decide +kernel,
      by decide +kernel, by decide +kernel, by decide +kernel, by decide +kernel⟩
  have hwell := hstart.fresh.wellPlaced
  have hpass := isPass_sweepOf Sweep.oneByOne_interleaves.interleaves e 1 r r hwell
  obtain ⟨f, hf'⟩ : ∃ f, (e.sweepOf Sweep.oneByOne 1 r r).run.file? ⟨0, 0⟩ = some f := by
    refine Option.isSome_iff_exists.mp ?_
    rw [(hpass.frame hwell).isSome_file?, hf]
    rfl
  obtain ⟨x, hx, hslot, -⟩ := hpass.exists_handled hwell hsweep hf'
  obtain ⟨q', st', hq', hst', hattempt⟩ := Run.Attempts.of_handled .start hwell
    hstart.hasStatuses hstart.autoFix_eq hpass hx (hslot ▸ hf) hd
  rw [hslot] at hq' hst' hattempt
  obtain rfl := Option.some.inj (hq.symm.trans hq')
  obtain rfl := Option.some.inj (hst.symm.trans hst')
  rw [hattempt.result_eq] at hattempt
  refine ⟨r, r.job q st, f₀, _, hstart, hattempt.mono ?_, hfile, hdone, hreported, hlost, ?_⟩
  · intro p hp
    obtain rfl := List.mem_singleton.mp hp
    exact Run.mem_passLog hcancelled 63
  · intro applied happlied
    rw [List.eq_nil_of_length_eq_zero (happlied.count.symm.trans hfixes)]
    exact Violation.not_occursIn_nil

end Engine

end StyleEngine
