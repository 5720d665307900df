import StyleEngine.Proofs.Analysis.FailingAnalyzer
import StyleEngine.Proofs.Engine.RunEffects
import StyleEngine.Proofs.Run.Schedules

/-! # Passes beside a failing analyzer

Two runs that analyze all files anew, one of them with one more analyzer, which fails
on some files, stay side by side pass after pass (`Run.Suffers`): they differ in the
files on which the analyzer has failed only, and there in its failure and in the
cache entry, which is gone.  Each pass strikes the files that their parser reads to
the end in it (`Run.Suffers.of_passes`), so after all passes those are struck that were
read to the end in one of them (`Run.Passes.suffers`).
-/
namespace StyleEngine

/-! ## What is lost of a file -/

/-- No occurrence is ever lost by work on a file. -/
theorem SourceFile.Worked.keeps {r : Registry} {f g : SourceFile} (h : f.Worked r g) :
    f.Keeps g := by
  induction h with
  | start => exact .refl _
  | @work g _ j _ cached ih =>
    obtain ⟨s, hs, -, hfile | hfile⟩ := j.process_visit (.inl trivial) cached g
      (Visit.keeps_invariant j.context g) (.refl g)
    · rw [hfile]
      exact ih.trans hs
    · rw [hfile]
      exact ih.trans hs
  | skip _ ih => exact ih

/-- Whether nobody has reported a failure of an analyzer on a file on which it does fail. -/
def AnalyzerEntry.IsUnreported (a : AnalyzerEntry) (F : Path → Prop) (f : SourceFile) : Prop :=
  F f.path → ∀ message, f.hasOccurrence (a.failure f.path message) = false

/-- Where nobody reports failures at all, nobody reports this one. -/
theorem AnalyzerEntry.IsUnreported.of_rules {a : AnalyzerEntry} {F : Path → Prop} {f : SourceFile}
    (h : ∀ v ∈ f.violations, v.ruleId ≠ Violation.fileFailedRule) : a.IsUnreported F f := by
  intro _ message
  refine List.any_eq_false.mpr fun v hv hsame => h v hv ?_
  simp only [Violation.sameOccurrence, Bool.and_eq_true, beq_iff_eq] at hsame
  exact hsame.1.1.1.1

theorem AnalyzerEntry.IsUnreported.of_worked {a : AnalyzerEntry} {F : Path → Prop}
    {f g : SourceFile} (hg : a.IsUnreported F g) {r : Registry} (h : f.Worked r g) :
    a.IsUnreported F f := by
  intro hF message
  have hpath := h.identity.1
  refine Bool.eq_false_iff.mpr fun hocc => ?_
  have hlater := hg (hpath ▸ hF) message
  rw [hpath, h.keeps _ hocc] at hlater
  cases hlater

/-- How work on a file is counted, and whether it asks the run to stop. -/
def Handled.tells (x : Handled) : FileOutcome × Bool :=
  (x.result.outcome, x.result.events.any Event.isCancel)

namespace Run

/-! ## Runs that analyze everything anew -/

/-- Whether a run is to analyze all files anew, each under a key of its own, and nothing has
gone wrong yet. -/
structure Anew (r : Run) : Prop where
  wellPlaced : r.WellPlaced
  distinctKeys : r.DistinctKeys
  fatal : r.fatal = none
  cached : r.cache.isSome = true
  autoFix : r.autoFix = false
  statuses : ∀ st ∈ r.statuses, st.ignoreCache = true

/-- Whether the parser with an id reads the file of a slot to the end in a pass over a run. -/
def Completes (r : Run) (id : String) (s : Slot) : Prop :=
  ∃ q f st, r.shell? s.project = some q ∧ r.file? s = some f ∧
    r.statuses[s.project]? = some st ∧ (r.job q st).Completes id f

/-- Whether an analyzer that fails on some files comes to fail on the file of a slot in a pass
over a run: it is switched on, and its parser reads the file to the end. -/
def Strikes (r : Run) (a : AnalyzerEntry) (F : Path → Prop) (s : Slot) : Prop :=
  ∃ q f st, r.shell? s.project = some q ∧ r.file? s = some f ∧
    r.statuses[s.project]? = some st ∧ (r.job q st).Completes a.analyzer.parserId f ∧
    (r.job q st).isAddinEnabled a.analyzer.id = true ∧ F f.path

theorem exists_of_result? {r : Run} {s : Slot} {j : FileJob} {x : Processed}
    (h : r.result? s = some (j, x)) : ∃ q f, r.shell? s.project = some q ∧ r.file? s = some f ∧
      r.outcome q r.statuses[s.project]? f = (j, x) := by
  rw [result?_eq] at h
  obtain ⟨q, hq, h⟩ := Option.bind_eq_some_iff.mp h
  obtain ⟨f, hf, h⟩ := Option.map_eq_some_iff.mp h
  exact ⟨q, f, hq, hf, h⟩

/-- A file that is done is left as it is. -/
theorem result?_of_done {r : Run} {s : Slot} {f : SourceFile} (hf : r.file? s = some f)
    (hd : f.done = true) :
    ∃ j, r.result? s = some (j, { file := f, outcome := .skipped }) := by
  have hsome : (r.result? s).isSome := by
    rw [result?_isSome, hf]
    rfl
  obtain ⟨⟨j, x⟩, hx⟩ := Option.isSome_iff_exists.mp hsome
  obtain ⟨q, g, -, hg, hout⟩ := exists_of_result? hx
  obtain rfl := Option.some.inj (hf.symm.trans hg)
  obtain rfl : x = { file := f, outcome := .skipped } := by
    rw [← outcome_done r q r.statuses[s.project]? hd, hout]
  exact ⟨j, hx⟩

namespace Anew

variable {r : Run}

/-- Nothing is served from the cache. -/
theorem outcome_eq (h : r.Anew) {st : ProjectStatus} (hst : st ∈ r.statuses) (q : Project)
    (f : SourceFile) :
    r.outcome q (some st) f = (r.job q st, (r.job q st).process none f) := by
  have huses : (r.job q st).usesCache = false := by
    simp [FileJob.usesCache, Run.job, h.statuses st hst]
  have hcached : r.cached? (r.job q st) f = none := by
    simp [cached?, huses]
  simp only [outcome, hcached]

/-- A pass leaves of a file what the work on it gives, seen from the start of the pass. -/
theorem pass_leaves (h : r.Anew) {p : Pool} (hp : p.IsPass r) (hf : p.run.fatal = none)
    {s : Slot} {j : FileJob} {x : Processed} (hx : r.result? s = some (j, x)) :
    p.run.file? s = some x.file ∧
      p.run.entryAt? x.file.path.cacheKey = x.entryAt? j (r.entryAt? x.file.path.cacheKey) := by
  have hworks := hp.works h.wellPlaced
  have hnd := hp.handled_nodup h.wellPlaced
  have hfile : (p.run.file? s).isSome := by
    rw [(hp.frame h.wellPlaced).isSome_file?, ← Run.result?_isSome, hx]
    rfl
  obtain ⟨f, hf'⟩ := Option.isSome_iff_exists.mp hfile
  obtain ⟨y, hy, rfl, rfl⟩ := hp.exists_handled h.wellPlaced hf hf'
  obtain ⟨j', hj'⟩ := hworks.result?_eq hnd h.distinctKeys hy
  obtain ⟨rfl, hyx⟩ := Prod.mk.inj (Option.some.inj (hx.symm.trans hj'))
  rw [hyx]
  exact ⟨hf', hworks.entryAt?_of_mem hnd h.distinctKeys h.cached hy hj'⟩

/-- A pass keeps it so. -/
theorem next (h : r.Anew) {p : Pool} (hp : p.IsPass r) (hf : p.run.fatal = none) :
    p.run.settle.next.Anew where
  wellPlaced := wellPlaced_next (hp.wellPlaced h.wellPlaced)
  distinctKeys := (hp.frame h.wellPlaced).distinctKeys h.distinctKeys
  fatal := hf
  cached := (hp.works h.wellPlaced).isSome_cache.trans h.cached
  autoFix := (hp.frame h.wellPlaced).autoFix.trans h.autoFix
  statuses st hst := by
    obtain ⟨i, hi⟩ := List.getElem?_of_mem hst
    obtain ⟨st₀, hst₀, heq⟩ := settle_statuses hi
    rw [heq]
    rw [(hp.frame h.wellPlaced).statuses] at hst₀
    exact h.statuses st₀ (List.mem_of_getElem? hst₀)

end Anew

/-! ## Two runs side by side -/

/-- Whether a run is another one with one more analyzer, which has failed on the files of some
slots: these have its failure beside all else, are done, and have no entry in the cache; every
other file, and its entry, is the same in both. -/
structure Suffers (a : AnalyzerEntry) (S : Slot → Prop) (r r' : Run) : Prop where
  registry : r.registry.Gains a r'.registry
  switches : r'.switches = r.switches
  autoFix : r'.autoFix = r.autoFix
  statuses : r'.statuses = r.statuses
  slots : r'.slots = r.slots
  pass : r'.pass = r.pass
  cancelled : r'.cancelled = r.cancelled
  cached : r'.cache.isSome = r.cache.isSome
  analyzed : r'.tally.analyzed = r.tally.analyzed
  shell : ∀ i, r'.shell? i = r.shell? i
  spared : ∀ s, ¬ S s → r'.file? s = r.file? s
  kept : ∀ s f, ¬ S s → r.file? s = some f →
    r'.entryAt? f.path.cacheKey = r.entryAt? f.path.cacheKey
  struck : ∀ s, S s → ∃ f f' message, r.file? s = some f ∧ r'.file? s = some f' ∧
    f.WithExtra [a.failure f.path message] f' ∧ f.done = true ∧
    r'.entryAt? f.path.cacheKey = none

namespace Suffers

variable {r r' : Run} {a : AnalyzerEntry} {F : Path → Prop} {S : Slot → Prop}

/-- What does not depend on the violations of a file is the same in both. -/
theorem map_file? (h : r.Suffers a S r') {β : Type} (g : SourceFile → β)
    (hg : ∀ f vs, g { f with violations := vs } = g f) (s : Slot) :
    (r'.file? s).map g = (r.file? s).map g := by
  by_cases hs : S s
  · obtain ⟨f, f', message, hf, hf', ⟨l₁, l₂, -, rfl⟩, -⟩ := h.struck s hs
    rw [hf, hf', Option.map_some, Option.map_some, hg]
  · rw [h.spared s hs]

theorem isSome_file? (h : r.Suffers a S r') (s : Slot) :
    (r'.file? s).isSome = (r.file? s).isSome := by
  have hsome := congrArg Option.isSome (h.map_file? SourceFile.path (fun _ _ => rfl) s)
  simpa only [Option.isSome_map] using hsome

theorem anew (h : r.Suffers a S r') (hr : r.Anew) (hf : r'.fatal = none) : r'.Anew where
  wellPlaced := ⟨h.slots ▸ hr.wellPlaced.nodup, fun s => by
    rw [h.slots, h.isSome_file?, hr.wellPlaced.mem_iff]⟩
  distinctKeys := hr.distinctKeys.of_path (h.map_file? SourceFile.path fun _ _ => rfl)
  fatal := hf
  cached := h.cached.trans hr.cached
  autoFix := h.autoFix.trans hr.autoFix
  statuses := h.statuses ▸ hr.statuses

theorem congr {S' : Slot → Prop} (h : r.Suffers a S r') (hS : ∀ s, S s ↔ S' s) :
    r.Suffers a S' r' := by
  obtain rfl : S = S' := funext fun s => propext (hS s)
  exact h

theorem context_job (h : r.Suffers a S r') (q : Project) (st : ProjectStatus) :
    (r'.job q st).context = (r.job q st).context := by
  simp only [Run.job, h.registry.ruleDefault?_eq, h.switches, h.autoFix, h.pass]

/-! ### One file in one pass -/

/-- A file that was struck is left alone. -/
theorem result?_of_struck (h : r.Suffers a S r') {s : Slot} (hs : S s) :
    ∃ f f' message j j', r.file? s = some f ∧ r'.file? s = some f' ∧
      f.WithExtra [a.failure f.path message] f' ∧ f.done = true ∧
      r'.entryAt? f.path.cacheKey = none ∧
      r.result? s = some (j, { file := f, outcome := .skipped }) ∧
      r'.result? s = some (j', { file := f', outcome := .skipped }) := by
  obtain ⟨f, f', message, hf, hf', hextra, hdone, hentry⟩ := h.struck s hs
  have hdone' : f'.done = true := by
    obtain ⟨l₁, l₂, -, rfl⟩ := hextra
    exact hdone
  obtain ⟨j, hj⟩ := result?_of_done hf hdone
  obtain ⟨j', hj'⟩ := result?_of_done hf' hdone'
  exact ⟨f, f', message, j, j', hf, hf', hextra, hdone, hentry, hj, hj'⟩

/-- A file that was not struck has the same project and status in both runs, and what comes of it
is the work on it without the cache, or it is skipped for want of a status. -/
theorem result?_of_spared (h : r.Suffers a S r') (hr : r.Anew) (hr' : r'.Anew) {s : Slot}
    (hs : ¬ S s) {j : FileJob} {x : Processed} (hx : r.result? s = some (j, x)) :
    ∃ q f, r.shell? s.project = some q ∧ r.file? s = some f ∧
      ((∃ st, r.statuses[s.project]? = some st ∧ j = r.job q st ∧ x = j.process none f ∧
        r'.result? s = some (r'.job q st, (r'.job q st).process none f)) ∨
      (r.statuses[s.project]? = none ∧ x = FileJob.skip f ∧
        r'.result? s = some (r'.job q {}, x))) := by
  obtain ⟨q, f, hq, hf, hout⟩ := exists_of_result? hx
  refine ⟨q, f, hq, hf, ?_⟩
  have hresult' : r'.result? s = some (r'.outcome q r.statuses[s.project]? f) := by
    rw [result?_eq, h.shell, hq, h.spared s hs, hf, h.statuses]
    rfl
  cases hst : r.statuses[s.project]? with
  | none =>
    rw [hst] at hout hresult'
    obtain ⟨-, rfl⟩ := Prod.mk.inj hout
    exact .inr ⟨rfl, rfl, hresult'⟩
  | some st =>
    have hmem := List.mem_of_getElem? hst
    rw [hst, hr.outcome_eq hmem] at hout
    rw [hst, hr'.outcome_eq (h.statuses ▸ hmem)] at hresult'
    obtain ⟨rfl, rfl⟩ := Prod.mk.inj hout
    exact .inl ⟨st, rfl, rfl, rfl, hresult'⟩

/-- **A file on which the analyzer does not come to fail goes through the pass alike.** -/
theorem spares (h : r.Suffers a S r') (ha : a.FailsOn F)
    (hblind : r.registry.IgnoresViolations) (hr : r.Anew) (hr' : r'.Anew) {s : Slot}
    (hs : ¬ S s) (hno : ¬ r.Strikes a F s) {j : FileJob} {x : Processed}
    (hx : r.result? s = some (j, x)) : ∃ j' x', r'.result? s = some (j', x') ∧
      x.WithExtra [] x' ∧ ∀ old, x'.entryAt? j' old = x.entryAt? j old := by
  obtain ⟨q, f, hq, hf, ⟨st, hst, rfl, rfl, hx'⟩ | ⟨hst, rfl, hx'⟩⟩ :=
    h.result?_of_spared hr hr' hs hx
  · have hextra : ((r.job q st).process none f).WithExtra [] ((r'.job q st).process none f) := by
      refine FileJob.process_spared h.registry ha hblind (h.context_job q st) rfl hr.autoFix ?_
      intro hcompletes hon hF
      exact hno ⟨q, f, st, hq, hf, hst, hcompletes, hon, hF⟩
    refine ⟨_, _, hx', hextra, fun old => ?_⟩
    have hfile := SourceFile.withExtra_nil.mp hextra.file
    have hchange : ((r'.job q st).process none f).change = ((r.job q st).process none f).change :=
      hextra.change
    simp only [Processed.entryAt?, hchange, hfile]
    rfl
  · exact ⟨_, _, hx', .refl _, fun old => rfl⟩

/-- **A file on which the analyzer comes to fail** has the failure beside all else that is found,
and is done; its entry is dropped. -/
theorem strikes (h : r.Suffers a S r') (ha : a.FailsOn F)
    (hblind : r.registry.IgnoresViolations) (hr : r.Anew) (hr' : r'.Anew) {s : Slot}
    (hs : ¬ S s) (hyes : r.Strikes a F s) {j : FileJob} {x : Processed}
    (hx : r.result? s = some (j, x)) (hclean : a.IsUnreported F x.file) :
    ∃ j' x' message, r'.result? s = some (j', x') ∧
      x.WithExtra [a.failure x.file.path message] x' ∧ x.file.done = true ∧
      ∀ old, x'.entryAt? j' old = none := by
  obtain ⟨q₀, f₀, st₀, hq₀, hf₀, hst₀, hcompletes, hon, hF⟩ := hyes
  obtain ⟨q, f, hq, hf, ⟨st, hst, rfl, rfl, hx'⟩ | ⟨hst, -, -⟩⟩ :=
    h.result?_of_spared hr hr' hs hx
  · obtain rfl := Option.some.inj (hq₀.symm.trans hq)
    obtain rfl := Option.some.inj (hf₀.symm.trans hf)
    obtain rfl := Option.some.inj (hst₀.symm.trans hst)
    have hpath := ((r.job q₀ st₀).process_identity none f₀).1
    have hlacks := hclean (hpath.symm ▸ hF)
    rw [hpath] at hlacks
    obtain ⟨houtcome, message, hextra⟩ := FileJob.process_struck h.registry ha hblind
      (h.context_job q₀ st₀) rfl hr.autoFix hcompletes hon hF hlacks
    refine ⟨_, _, message, hx', hpath.symm ▸ hextra, ?_, fun old => ?_⟩
    · rw [FileJob.process_done_iff, houtcome]
      exact FileOutcome.noConfusion
    · have hchange : ((r'.job q₀ st₀).process none f₀).change = .drop := hextra.change
      simp only [Processed.entryAt?, hchange]
  · rw [hst₀] at hst
    cases hst

/-- What comes of a file is counted alike in both runs, and asks both to stop or neither. -/
theorem exists_result? (h : r.Suffers a S r') (ha : a.FailsOn F)
    (hblind : r.registry.IgnoresViolations) (hr : r.Anew) (hr' : r'.Anew) {s : Slot}
    {j : FileJob} {x : Processed} (hx : r.result? s = some (j, x))
    (hclean : a.IsUnreported F x.file) : ∃ j' x', r'.result? s = some (j', x') ∧
      x'.outcome = x.outcome ∧ x'.events.any Event.isCancel = x.events.any Event.isCancel := by
  by_cases hs : S s
  · obtain ⟨f, f', message, j₀, j', -, -, -, -, -, hx₀, hx'⟩ := h.result?_of_struck hs
    obtain ⟨-, rfl⟩ := Prod.mk.inj (Option.some.inj (hx.symm.trans hx₀))
    exact ⟨j', _, hx', rfl, rfl⟩
  · by_cases hyes : r.Strikes a F s
    · obtain ⟨j', x', message, hx', hextra, -⟩ := h.strikes ha hblind hr hr' hs hyes hx hclean
      exact ⟨j', x', hx', hextra.outcome, hextra.cancels⟩
    · obtain ⟨j', x', hx', hextra, -⟩ := h.spares ha hblind hr hr' hs hyes hx
      exact ⟨j', x', hx', hextra.outcome, hextra.cancels⟩

/-! ### One pass -/

/-- The work of a pass is counted alike in both runs, and asks both to stop or neither. -/
theorem workload_tells (h : r.Suffers a S r') (ha : a.FailsOn F)
    (hblind : r.registry.IgnoresViolations) (hr : r.Anew) (hr' : r'.Anew)
    (hclean : ∀ s j x, r.result? s = some (j, x) → a.IsUnreported F x.file) :
    r'.workload.map Handled.tells = r.workload.map Handled.tells := by
  have hslot (s : Slot) : (r'.handledAt s).map Handled.tells =
      (r.handledAt s).map Handled.tells := by
    cases hx : r.result? s with
    | none =>
      have hnone : r'.result? s = none := by
        rw [← Option.not_isSome_iff_eq_none, result?_isSome, h.isSome_file?, ← result?_isSome, hx]
        exact Bool.noConfusion
      rw [handledAt, handledAt, hx, hnone]
    | some jx =>
      obtain ⟨j, x⟩ := jx
      obtain ⟨j', x', hx', houtcome, hcancels⟩ :=
        h.exists_result? ha hblind hr hr' hx (hclean s j x hx)
      rw [handledAt_of_result? hx, handledAt_of_result? hx']
      simp only [List.map_cons, List.map_nil, Handled.tells, houtcome, hcancels]
  simp only [workload, List.map_flatMap, h.slots, hslot]

section

variable {p p' : Pool} {s : Slot}

/-- A file that a pass leaves comes of the work on it. -/
theorem exists_result?_of_pass (hr : r.Anew) (hp : p.IsPass r) (hf : p.run.fatal = none)
    {f : SourceFile} (hsf : p.run.file? s = some f) :
    ∃ j x, r.result? s = some (j, x) ∧ x.file = f := by
  have hsome : (r.result? s).isSome := by
    rw [result?_isSome, ← (hp.frame hr.wellPlaced).isSome_file?, hsf]
    rfl
  obtain ⟨⟨j, x⟩, hx⟩ := Option.isSome_iff_exists.mp hsome
  exact ⟨j, x, hx, Option.some.inj ((hr.pass_leaves hp hf hx).1.symm.trans hsf)⟩

variable (h : r.Suffers a S r') (ha : a.FailsOn F) (hblind : r.registry.IgnoresViolations)
  (hr : r.Anew) (hr' : r'.Anew) (hp : p.IsPass r) (hp' : p'.IsPass r')
  (hf : p.run.fatal = none) (hf' : p'.run.fatal = none)

include h ha hblind hr hr' hp hp' hf hf'

/-- What a pass leaves of a file on which the analyzer does not come to fail. -/
theorem spared_after (hs : ¬ S s) (hno : ¬ r.Strikes a F s) :
    p'.run.file? s = p.run.file? s ∧ ∀ f, p.run.file? s = some f →
      p'.run.entryAt? f.path.cacheKey = p.run.entryAt? f.path.cacheKey := by
  cases hsf : p.run.file? s with
  | none =>
    refine ⟨?_, fun f hno => by cases hno⟩
    rw [← Option.not_isSome_iff_eq_none, (hp'.frame hr'.wellPlaced).isSome_file?, h.isSome_file?,
      ← (hp.frame hr.wellPlaced).isSome_file?, hsf]
    exact Bool.noConfusion
  | some f =>
    obtain ⟨j, x, hx, rfl⟩ := exists_result?_of_pass hr hp hf hsf
    obtain ⟨j', x', hx', hextra, hentry⟩ := h.spares ha hblind hr hr' hs hno hx
    have hfile := SourceFile.withExtra_nil.mp hextra.file
    obtain ⟨q, f₀, -, hf₀, hout⟩ := exists_of_result? hx
    have hpath : x.file.path = f₀.path := by
      have hsame := (r.outcome_identity q r.statuses[s.project]? f₀).1
      rwa [hout] at hsame
    obtain ⟨hfile', hentry'⟩ := hr'.pass_leaves hp' hf' hx'
    rw [hfile] at hfile' hentry'
    refine ⟨hfile', ?_⟩
    rintro _ ⟨⟩
    rw [hentry', hentry, (hr.pass_leaves hp hf hx).2, hpath, h.kept s f₀ hs hf₀]

/-- What a pass leaves of a file on which the analyzer has failed before, or comes to fail. -/
theorem struck_after (hclean : ∀ s f, p.run.file? s = some f → a.IsUnreported F f)
    (hs : S s ∨ r.Strikes a F s) : ∃ f f' message, p.run.file? s = some f ∧
      p'.run.file? s = some f' ∧ f.WithExtra [a.failure f.path message] f' ∧ f.done = true ∧
      p'.run.entryAt? f.path.cacheKey = none := by
  by_cases hbefore : S s
  · obtain ⟨f, f', message, j, j', -, -, hextra, hdone, hentry, hx, hx'⟩ :=
      h.result?_of_struck hbefore
    obtain ⟨hfile', hentry'⟩ := hr'.pass_leaves hp' hf' hx'
    simp only [hextra.path] at hentry'
    exact ⟨f, f', message, (hr.pass_leaves hp hf hx).1, hfile', hextra, hdone,
      hentry'.trans hentry⟩
  · have hyes := hs.resolve_left hbefore
    have hsome : (r.result? s).isSome := by
      obtain ⟨q, f, st, -, hsf, -⟩ := hyes
      rw [result?_isSome, hsf]
      rfl
    obtain ⟨⟨j, x⟩, hx⟩ := Option.isSome_iff_exists.mp hsome
    obtain ⟨hfile, -⟩ := hr.pass_leaves hp hf hx
    obtain ⟨j', x', message, hx', hextra, hdone, hentry⟩ :=
      h.strikes ha hblind hr hr' hbefore hyes hx (hclean s _ hfile)
    obtain ⟨hfile', hentry'⟩ := hr'.pass_leaves hp' hf' hx'
    rw [hextra.file.path] at hentry'
    exact ⟨x.file, x'.file, message, hfile, hfile', hextra.file, hdone, hentry'.trans (hentry _)⟩

end

/-- **A pass strikes the files that their parser reads to the end in it**, where the analyzer is
switched on and fails on them, and leaves all others alike. -/
theorem of_passes (h : r.Suffers a S r') (ha : a.FailsOn F)
    (hblind : r.registry.IgnoresViolations) (hr : r.Anew) (hr' : r'.Anew) {p p' : Pool}
    (hp : p.IsQuietPass r) (hp' : p'.IsQuietPass r') (hf : p.run.fatal = none)
    (hf' : p'.run.fatal = none) (hclean : ∀ s f, p.run.file? s = some f → a.IsUnreported F f) :
    p.run.Suffers a (fun s => S s ∨ r.Strikes a F s) p'.run := by
  have hframe := hp.isPass.frame hr.wellPlaced
  have hframe' := hp'.isPass.frame hr'.wellPlaced
  have hworks := hp.isPass.works hr.wellPlaced
  have hworks' := hp'.isPass.works hr'.wellPlaced
  -- the order of the work has no part in how it is counted
  have htells : (p'.handled.map Handled.tells).Perm (p.handled.map Handled.tells) := by
    have hwork := hp.isPass.handled_perm_workload hr.wellPlaced hr.distinctKeys hf
    have hwork' := hp'.isPass.handled_perm_workload hr'.wellPlaced hr'.distinctKeys hf'
    refine (hwork'.map _).trans (.trans ?_ (hwork.map _).symm)
    rw [h.workload_tells ha hblind hr hr' fun s j x hx =>
      hclean s _ (hr.pass_leaves hp.isPass hf hx).1]
  have hspared (s : Slot) (hs : ¬ (S s ∨ r.Strikes a F s)) :=
    h.spared_after ha hblind hr hr' hp.isPass hp'.isPass hf hf' (not_or.mp hs).1 (not_or.mp hs).2
  exact
    { registry := by rw [hframe.registry, hframe'.registry]; exact h.registry
      switches := by rw [hframe.switches, hframe'.switches, h.switches]
      autoFix := by rw [hframe.autoFix, hframe'.autoFix, h.autoFix]
      statuses := by rw [hframe.statuses, hframe'.statuses, h.statuses]
      slots := by rw [hframe.slots, hframe'.slots, h.slots]
      pass := by rw [hframe.pass, hframe'.pass, h.pass]
      cancelled := by
        have hany := any_eq_of_perm htells Prod.snd
        rw [List.any_map, List.any_map] at hany
        rw [hp.cancelled, hp'.cancelled, h.cancelled]
        exact congrArg (r.cancelled || ·) hany
      cached := by rw [hworks.isSome_cache, hworks'.isSome_cache, h.cached]
      analyzed := by
        have hcount := htells.countP_eq fun t => t.1 == .analyzed
        rw [List.countP_map, List.countP_map] at hcount
        rw [hworks.analyzed, hworks'.analyzed, h.analyzed]
        exact congrArg (r.tally.analyzed + ·) hcount
      shell := fun i => by rw [hframe.shell, hframe'.shell, h.shell]
      spared := fun s hs => (hspared s hs).1
      kept := fun s f hs hsf => (hspared s hs).2 f hsf
      struck := fun s hs =>
        h.struck_after ha hblind hr hr' hp.isPass hp'.isPass hf hf' hclean hs }

/-! ### All passes -/

/-- After a pass that was not aborted, both runs have files left or neither. -/
theorem incomplete_eq {p p' : Pool} (h : p.run.Suffers a S p'.run) (hr : r.WellPlaced)
    (hr' : r'.WellPlaced) (hp : p.IsPass r) (hp' : p'.IsPass r') (hf : p.run.fatal = none)
    (hf' : p'.run.fatal = none) : p'.run.incomplete = p.run.incomplete := by
  have hdone (s : Slot) : (p'.run.file? s).map SourceFile.done =
      (p.run.file? s).map SourceFile.done := h.map_file? SourceFile.done (fun _ _ => rfl) s
  have hleft (r : Run) : (∃ s f, r.file? s = some f ∧ f.done = false) ↔
      ∃ s, (r.file? s).map SourceFile.done = some false := by
    simp only [Option.map_eq_some_iff]
  rw [Bool.eq_iff_iff, hp.incomplete_iff hr hf, hp'.incomplete_iff hr' hf', hleft, hleft]
  simp only [hdone]

/-- What a pass makes of two runs side by side. -/
theorem step (h : r.Suffers a S r') {p p' : Pool} (hp : p.IsQuietPass r)
    (hp' : p'.IsQuietPass r') (ha : a.FailsOn F) (hnever : r.registry.NeverExhausts)
    (hblind : r.registry.IgnoresViolations) (hr : r.Anew) (hr' : r'.Anew)
    (hclean : ∀ s f, p.run.file? s = some f → a.IsUnreported F f) :
    p'.run.fatal = none ∧ p'.run.incomplete = p.run.incomplete ∧
      p.run.Suffers a (fun s => S s ∨ r.Strikes a F s) p'.run := by
  have hf := hp.isPass.fatal_eq_none hr.wellPlaced hr.fatal hnever
  have hf' := hp'.isPass.fatal_eq_none hr'.wellPlaced hr'.fatal (h.registry.neverExhausts ha hnever)
  have hafter := h.of_passes ha hblind hr hr' hp hp' hf hf' hclean
  exact ⟨hf', hafter.incomplete_eq hr.wellPlaced hr'.wellPlaced hp.isPass hp'.isPass hf hf', hafter⟩

theorem settle (h : r.Suffers a S r') : r.settle.Suffers a S r'.settle :=
  { h with
    statuses := by
      have hdone := map_files_eq SourceFile.done (fun i => (h.shell i).symm)
        fun s => (h.map_file? SourceFile.done (fun _ _ => rfl) s).symm
      have hcomplete (i : Nat) :
          (r'.projects[i]?).any Project.isComplete = (r.projects[i]?).any Project.isComplete := by
        have hplace := congrArg (fun l => l[i]?) hdone
        simp only [List.getElem?_map] at hplace
        have hany (o : Option Project) : o.any Project.isComplete =
            (o.map fun p => p.files.map SourceFile.done).any fun l => l.all id := by
          cases o with
          | none => rfl
          | some p => simp [Project.isComplete]
        rw [hany, hany, hplace]
      simp only [Run.settle, h.statuses, hcomplete] }

theorem emit (h : r.Suffers a S r') (e : Event) : (r.emit e).Suffers a S (r'.emit e) :=
  { h with }

/-- Runs side by side are so before their next passes. -/
theorem next (h : r.Suffers a S r') : r.settle.next.Suffers a S r'.settle.next :=
  { h.settle with pass := congrArg (· + 1) h.pass }

end Suffers

/-- If no pass follows the first one, it is the only one. -/
theorem reaches_iff {sweep : Run → Pool} {r r₀ : Run} (hc : r.cancelled = false)
    (hlast : (sweep r).run.incomplete = true → maxPasses ≤ (sweep r).run.pass + 1) :
    Reaches sweep r r₀ ↔ r₀ = r := by
  constructor
  · intro h
    cases h with
    | now _ => rfl
    | later _ _ hi hl _ => exact absurd (hlast hi) (Nat.not_le_of_lt hl)
  · rintro rfl
    exact .now hc

/-- From a run that passes reach on, they go on as they do. -/
theorem Reaches.passes {sweep : Run → Pool} {r r₀ r₁ : Run} {log : List Pool}
    {res : Except AddInError PassResult} (h : Reaches sweep r r₀)
    (hs : ∀ r, r.WellPlaced → (sweep r).IsPass r) (hr : r.WellPlaced)
    (hp : Passes sweep r log r₁ res) : r₀.WellPlaced ∧ ∃ log', Passes sweep r₀ log' r₁ res := by
  induction h generalizing log with
  | now _ => exact ⟨hr, log, hp⟩
  | later hc hf hi hl _ ih =>
    obtain ⟨rest, -, hrest⟩ := hp.exists_rest hc hf hi hl
    exact ih (wellPlaced_next ((hs _ hr).wellPlaced hr)) hrest

/-- The path of a file stays the same in all passes. -/
theorem Passes.path_file? {sweep : Run → Pool} {r r₁ : Run} {log : List Pool}
    {res : Except AddInError PassResult} (h : Passes sweep r log r₁ res)
    (hs : ∀ r, r.WellPlaced → (sweep r).IsPass r) (hr : r.WellPlaced) (s : Slot) :
    (r₁.file? s).map SourceFile.path = (r.file? s).map SourceFile.path := by
  have hsome := (h.sameFiles hs hr).isSome s
  cases hf : r₁.file? s with
  | none =>
    rw [hf, Option.isSome_none, Eq.comm, Option.isSome_eq_false_iff,
      Option.isNone_iff_eq_none] at hsome
    rw [hsome]
  | some f =>
    obtain ⟨g, hg, hworked⟩ := h.worked hs hr hf
    rw [hg, Option.map_some, Option.map_some, hworked.identity.1]

/-- A run that passes reach strikes the files of the set that are read to the end, where the
analyzer is switched on. -/
theorem Reaches.strikes_iff {sweep : Run → Pool} {r r₀ r₁ : Run} {log : List Pool}
    {res : Except AddInError PassResult} {a : AnalyzerEntry} {F : Path → Prop} {s : Slot}
    (h : Reaches sweep r r₀) (hs : ∀ r, r.WellPlaced → (sweep r).IsPass r) (hr : r.WellPlaced)
    (hp : Passes sweep r log r₁ res)
    (hon : ∀ i q, r.shell? i = some q →
      q.effectiveSettings.isAddinEnabled a.analyzer.id = true) :
    r₀.Strikes a F s ↔
      r₀.Completes a.analyzer.parserId s ∧ ∃ f, r₁.file? s = some f ∧ F f.path := by
  obtain ⟨hr₀, log₀, hp₀⟩ := h.passes hs hr hp
  have hshell (i : Nat) : r₀.shell? i = r.shell? i :=
    ((hp₀.sameFiles hs hr₀).shell i).symm.trans ((hp.sameFiles hs hr).shell i)
  have hpath := hp₀.path_file? hs hr₀ s
  constructor
  · rintro ⟨q, f, st, hq, hf, hst, hcompletes, -, hF⟩
    rw [hf, Option.map_some] at hpath
    obtain ⟨f₁, hf₁, hsame⟩ := Option.map_eq_some_iff.mp hpath
    exact ⟨⟨q, f, st, hq, hf, hst, hcompletes⟩, f₁, hf₁, hsame ▸ hF⟩
  · rintro ⟨⟨q, f, st, hq, hf, hst, hcompletes⟩, f₁, hf₁, hF⟩
    rw [hf, hf₁, Option.map_some, Option.map_some] at hpath
    exact ⟨q, f, st, hq, hf, hst, hcompletes, hon _ q (hshell _ ▸ hq), Option.some.inj hpath ▸ hF⟩

/-- What was reported on no file at the end of passes was reported on none before. -/
theorem Passes.isUnreported {sweep : Run → Pool} {r r₁ : Run} {log : List Pool}
    {res : Except AddInError PassResult} {a : AnalyzerEntry} {F : Path → Prop}
    (h : Passes sweep r log r₁ res) (hs : ∀ r, r.WellPlaced → (sweep r).IsPass r)
    (hr : r.WellPlaced) (hclean : ∀ s f, r₁.file? s = some f → a.IsUnreported F f) {s : Slot}
    {f : SourceFile} (hf : r.file? s = some f) : a.IsUnreported F f := by
  have hsome : (r₁.file? s).isSome := by
    rw [(h.sameFiles hs hr).isSome, hf]
    rfl
  obtain ⟨g, hg⟩ := Option.isSome_iff_exists.mp hsome
  obtain ⟨f₀, hf₀, hworked⟩ := h.worked hs hr hg
  obtain rfl := Option.some.inj (hf.symm.trans hf₀)
  exact (hclean s g hg).of_worked hworked

/-- **Passes side by side end alike.**  They are as many, they have the same result, and the
analyzer has failed on the files that their parser has read to the end in one of them. -/
theorem Passes.suffers {sweep sweep' : Run → Pool} {r r' r₁ r₁' : Run} {log log' : List Pool}
    {res res' : Except AddInError PassResult} {a : AnalyzerEntry} {F : Path → Prop}
    {S : Slot → Prop} (h : Passes sweep r log r₁ res) (h' : Passes sweep' r' log' r₁' res')
    (hs : ∀ r, r.WellPlaced → (sweep r).IsQuietPass r)
    (hs' : ∀ r, r.WellPlaced → (sweep' r).IsQuietPass r) (ha : a.FailsOn F)
    (hsuffers : r.Suffers a S r') (hnever : r.registry.NeverExhausts)
    (hblind : r.registry.IgnoresViolations) (hr : r.Anew) (hr' : r'.Anew)
    (hclean : ∀ s f, r₁.file? s = some f → a.IsUnreported F f) :
    res' = res ∧
      r₁.Suffers a (fun s => S s ∨ ∃ r₀, Reaches sweep r r₀ ∧ r₀.Strikes a F s) r₁' := by
  induction h generalizing r' S log' with
  | @cancelled r hc =>
    obtain ⟨-, rfl, rfl⟩ := h'.unique (.cancelled (hsuffers.cancelled.trans hc))
    refine ⟨by rw [hsuffers.pass], hsuffers.congr fun s => ⟨.inl, ?_⟩⟩
    rintro (h | ⟨r₀, hreaches, -⟩)
    · exact h
    · cases hreaches with
      | now hc' | later hc' _ _ _ _ => rw [hc] at hc'; cases hc'
  | @aborted r e hc hfatal =>
    rw [(hs r hr.wellPlaced).isPass.fatal_eq_none hr.wellPlaced hr.fatal hnever] at hfatal
    cases hfatal
  | @converged r hc hf hi =>
    obtain ⟨hf', hi', hafter⟩ := hsuffers.step (hs r hr.wellPlaced) (hs' r' hr'.wellPlaced) ha
      hnever hblind hr hr' hclean
    obtain ⟨-, rfl, rfl⟩ :=
      h'.unique (.converged (hsuffers.cancelled.trans hc) hf' (hi'.trans hi))
    refine ⟨by rw [hafter.pass], hafter.settle.congr fun s => ?_⟩
    simp only [reaches_iff hc fun hleft => absurd (hi.symm.trans hleft) Bool.false_ne_true,
      exists_eq_left]
  | @limit r hc hf hi hl =>
    obtain ⟨hf', hi', hafter⟩ := hsuffers.step (hs r hr.wellPlaced) (hs' r' hr'.wellPlaced) ha
      hnever hblind hr hr' hclean
    obtain ⟨-, rfl, rfl⟩ :=
      h'.unique (.limit (hsuffers.cancelled.trans hc) hf' (hi'.trans hi) (hafter.pass ▸ hl))
    refine ⟨rfl, (hafter.settle.emit _).congr fun s => ?_⟩
    simp only [reaches_iff hc fun _ => hl, exists_eq_left]
  | @next r r₁ log res hc hf hi hl hrest ih =>
    have hpass := (hs r hr.wellPlaced).isPass
    have hpass' := (hs' r' hr'.wellPlaced).isPass
    have hnext := hr.next hpass hf
    obtain ⟨hf', hi', hafter⟩ := hsuffers.step (hs r hr.wellPlaced) (hs' r' hr'.wellPlaced) ha
      hnever hblind hr hr' fun s f hsf =>
        hrest.isUnreported (fun r hr => (hs r hr).isPass) hnext.wellPlaced hclean hsf
    have hregistry : (sweep r).run.settle.next.registry = r.registry :=
      (hpass.frame hr.wellPlaced).registry
    obtain ⟨rest, -, hrest'⟩ := h'.exists_rest (hsuffers.cancelled.trans hc) hf' (hi'.trans hi)
      (hafter.pass ▸ hl)
    obtain ⟨hres, hend⟩ := ih hrest' hafter.next (hregistry ▸ hnever) (hregistry ▸ hblind)
      hnext (hr'.next hpass' hf') hclean
    refine ⟨hres, hend.congr fun s => ?_⟩
    -- a file is struck in the first pass or in one of those after it
    constructor
    · rintro ((h | h) | ⟨r₀, hreaches, h⟩)
      · exact .inl h
      · exact .inr ⟨r, .now hc, h⟩
      · exact .inr ⟨r₀, .later hc hf hi hl hreaches, h⟩
    · rintro (h | ⟨r₀, hreaches, h⟩)
      · exact .inl (.inl h)
      · cases hreaches with
        | now _ => exact .inl (.inr h)
        | later _ _ _ _ hreaches => exact .inr ⟨r₀, hreaches, h⟩

end Run

end StyleEngine
