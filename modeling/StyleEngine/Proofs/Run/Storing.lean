import StyleEngine.Proofs.Run.Snapshot

/-! # What a run stores

In a run that stores its results and does not fix files, a file that is done has
its violations in the cache, unless no parser reads it or an add-in failed on it
(`FileJob.Stands`).  The work on a file keeps this, pass after pass, and so do
the passes of a run that comes to an end.
-/
namespace StyleEngine

/-! ## Failures are told -/

/-- Whether a failure is recorded on the file of a visit. -/
def Visit.TellsFailure (s : Visit) : Prop :=
  ∃ v ∈ s.file.violations, v.ruleId = Violation.fileFailedRule

theorem Visit.tellsFailure_invariant (ctx : FileContext) :
    Visit.Invariant ctx Visit.TellsFailure True where
  takeText h := h
  setModel _ h := h
  hold _ h := h
  publish {s} w h := by
    obtain ⟨v, hv, hrule⟩ := h
    refine ⟨v, ?_, hrule⟩
    rw [s.publish_file_violations w]
    exact Violation.mem_insertNew_of_mem hv w
  emit _ _ h := h
  fix {s} _ h := by
    obtain ⟨m, b, hm⟩ := s.file.applyFixes_file s.held
    simp only [TellsFailure, hm]
    exact h

/-- Whether a failure of an attempt is recorded, or ends the run. -/
def Attempt.IsExplained (a : Attempt) : Prop :=
  a.failed = true → a.fatal.isSome = true ∨ a.visit.TellsFailure

namespace Attempt

theorem isExplained_fail (a : Attempt) (who : String) (cause : Stop) :
    (a.fail who cause).IsExplained := by
  intro _
  simp only [fail]
  split
  · exact .inl (by cases a.fatal <;> rfl)
  · refine .inr ?_
    generalize hv : Violation.fileFailed a.visit.file.path _ = v
    have hrule : v.ruleId = Violation.fileFailedRule := by rw [← hv]; rfl
    by_cases hold : (a.visit.file.violations.any fun w => w.sameOccurrence v) = true
    · -- the occurrence is there already, and has the same rule
      obtain ⟨w, hw, hsame⟩ := List.any_eq_true.mp hold
      refine ⟨w, ?_, ?_⟩
      · rw [Visit.publish_file_violations]
        exact Violation.mem_insertNew_of_mem hw v
      · simp only [Violation.sameOccurrence, Bool.and_eq_true, beq_iff_eq] at hsame
        rw [hsame.1.1.1.1, hrule]
    · refine ⟨v, ?_, hrule⟩
      rw [Visit.publish_file_violations, Violation.insertNew, if_neg hold]
      exact List.mem_append_right _ (List.mem_singleton.mpr rfl)

theorem IsExplained.analyze {a : Attempt} (h : a.IsExplained) (j : FileJob) (e : AnalyzerEntry) :
    (j.analyze a e).IsExplained := by
  simp only [FileJob.analyze]
  split
  · exact h
  · have hkeeps (hs : a.visit.TellsFailure) :=
      (Visit.tellsFailure_invariant j.context).act (e.analyzer.analyze e.profile j.context)
        (.inl trivial) ((Visit.tellsFailure_invariant j.context).emit
          (.analyzing e.analyzer.id a.visit.file.path j.context.pass) (.inr trivial) hs)
    split <;> rename_i heq <;> rw [heq] at hkeeps
    · exact fun hfailed => (h hfailed).imp id hkeeps
    · exact isExplained_fail _ _ _

theorem IsExplained.analyzeAll {a : Attempt} (h : a.IsExplained) (j : FileJob) (parser : String) :
    (j.analyzeAll a parser).IsExplained := by
  unfold FileJob.analyzeAll
  induction j.registry.analyzersOf parser generalizing a with
  | nil => exact h
  | cons e es ih => exact ih (h.analyze j e)

end Attempt

namespace FileJob

variable {j : FileJob} {f : SourceFile} {entry : Option FileEntry}

/-! ## One file -/

/-- Whether results under a job are stored and can be found again. -/
structure Stores (j : FileJob) : Prop where
  fix : j.context.autoFix = false
  write : j.status.writeCache = true
  configuration : sameConfiguration j.context.project.fingerprint j.context.project.flags = true

/-- What comes of a file that is parsed: it is deferred, or its results are stored, or a failure
is told or ends the run. -/
theorem parse_stores (hj : j.Stores) (e : ParserEntry) (hm : f.modified = false) :
    ((j.parse e f).outcome = .deferred ∧ (j.parse e f).change = .keep) ∨
    ((j.parse e f).outcome ≠ .deferred ∧ ((j.parse e f).change = .save ∨
      (∃ v ∈ (j.parse e f).file.violations, v.ruleId = Violation.fileFailedRule) ∨
      (j.parse e f).fatal.isSome = true)) := by
  have hfinish (a : Attempt) (n : Nat) (ha : a.IsExplained) (hmod : a.visit.file.modified = false) :
      (j.finish a n).outcome ≠ .deferred ∧ ((j.finish a n).change = .save ∨
        (∃ v ∈ (j.finish a n).file.violations, v.ruleId = Violation.fileFailedRule) ∨
        (j.finish a n).fatal.isSome = true) := by
    refine ⟨by simp [finish], ?_⟩
    cases hfailed : a.failed with
    | false => exact .inl (by simp [finish, hfailed, hmod, hj.write])
    | true => exact .inr (ha hfailed).symm
  have hmodified := Visit.modified_invariant hj.fix false
  have hrun := hmodified.act (e.parser.parse e.profile j.context) (.inl trivial)
    (hmodified.emit (.parsing e.parser.id f.path j.context.pass) (.inr trivial)
      (s := { file := f }) hm)
  simp only [parse]
  split <;> rename_i heq <;> rw [heq] at hrun
  · exact .inl ⟨rfl, rfl⟩
  · exact .inr (hfinish _ _ (Attempt.isExplained_fail _ _ _) (hmodified.fail _ _ hrun))
  · next visit =>
    have hstart : ({ visit } : Attempt).IsExplained := fun h => by cases h
    have hfix : j.fix (j.analyzeAll { visit } e.parser.id) =
        (j.analyzeAll { visit } e.parser.id, 0) := by simp [fix, hj.fix]
    rw [hfix]
    exact .inr (hfinish _ _ (hstart.analyzeAll j _)
      (hmodified.analyzeAll (.inl trivial) _ hrun))

/-- How a file stands in a run that stores its results, given the entry under its key. -/
inductive Stands (j : FileJob) (entry : Option FileEntry) (f : SourceFile) : Prop
  | fresh (hd : f.done = false) (hv : f.violations = [])
  | deferred (hd : f.done = false) (hc : j.cachedFrom entry f = none)
    (hr : (j.registry.reader? j.context.settings f.path).isSome = true)
  | unread (hd : f.done = true) (hr : j.registry.reader? j.context.settings f.path = none)
    (hv : f.violations = [])
  | stored (e : FileEntry) (hd : f.done = true) (he : entry = some e)
    (hc : Cache.isCurrent e j.context.project f j.status.settingsDigest = true)
    (hv : Violation.distinct e.violations = f.violations)
  | failed (v : Violation) (hd : f.done = true) (hv : v ∈ f.violations)
    (hr : v.ruleId = Violation.fileFailedRule)

theorem cachedFrom_congr {f' : SourceFile} (h : f'.digest = f.digest) :
    j.cachedFrom entry f' = j.cachedFrom entry f := by
  have hcurrent (e : FileEntry) : Cache.isCurrent e j.context.project f' j.status.settingsDigest =
      Cache.isCurrent e j.context.project f j.status.settingsDigest := by
    rw [Cache.isCurrent, Cache.isCurrent, h]
  simp only [cachedFrom, hcurrent]

/-- A file that is not done is as before the run, or was deferred because nothing stands for it
in the cache. -/
theorem Stands.of_not_done (h : j.Stands entry f) (hd : f.done = false) :
    f.violations = [] ∨ (j.cachedFrom entry f = none ∧
      (j.registry.reader? j.context.settings f.path).isSome = true) := by
  cases h with
  | fresh _ hv => exact .inl hv
  | deferred _ hc hr => exact .inr ⟨hc, hr⟩
  | unread hd' _ _ => rw [hd] at hd'; cases hd'
  | stored _ hd' _ _ _ => rw [hd] at hd'; cases hd'
  | failed _ hd' _ _ => rw [hd] at hd'; cases hd'

/-- **The work on a file leaves it as it should stand.** -/
theorem Stands.process (h : j.Stands entry f) (hj : j.Stores) (hm : f.modified = false)
    (hn : Violation.NoRepeats f.violations)
    (hfatal : (j.process (j.cachedFrom entry f) f).fatal = none) :
    j.Stands ((j.process (j.cachedFrom entry f) f).entryAt? j entry)
      (j.process (j.cachedFrom entry f) f).file := by
  have hpath := (j.process_identity (j.cachedFrom entry f) f).1
  have hdigest := (j.process_identity (j.cachedFrom entry f) f).2
  have hdone := j.process_done_iff (j.cachedFrom entry f) f
  have hnew := j.process_noRepeats (j.cachedFrom entry f) hn
  rcases j.process_cases (j.cachedFrom entry f) f with ⟨-, hp⟩ | ⟨hd, -, hp, hoff⟩ |
    ⟨hd, vs, hvs, hp⟩ | ⟨hd, hc, e, he, hon, hp⟩
  · rw [hp]
    exact h
  · have hnone := reader?_eq_none hoff
    rw [hp]
    rcases h.of_not_done hd with hv | ⟨-, hr⟩
    · exact .unread rfl hnone hv
    · rw [hnone] at hr
      cases hr
  · -- what is served has no repetitions, since nothing was recorded on the file before
    rw [hp]
    rcases h.of_not_done hd with hv | ⟨hnone, -⟩
    · obtain ⟨e, rfl, hcurrent, rfl⟩ := cachedFrom_eq_some hvs
      rw [serve_file, hv]
      exact .stored e rfl rfl hcurrent rfl
    · rw [hnone] at hvs
      cases hvs
  · have hreader : (j.registry.reader? j.context.settings
        (j.process (j.cachedFrom entry f) f).file.path).isSome = true := by
      rw [hpath, reader?_of_parserOf? he hon]
      rfl
    rw [hp] at hpath hdigest hdone hnew hfatal hreader ⊢
    rcases parse_stores hj e hm with ⟨hdef, hkeep⟩ | ⟨hnot, hsave | ⟨v, hv, hrule⟩ | hsome⟩
    · -- what is stored for the file is as useless as before
      refine .deferred ?_ ?_ hreader
      · exact Bool.eq_false_iff.mpr fun hd' => hdone.mp hd' hdef
      · rw [Processed.entryAt?, hkeep, cachedFrom_congr hdigest]
        exact hc
    · refine .stored (Cache.entryFor j.context.project (j.parse e f).file j.status.settingsDigest
        (j.parse e f).file.violations) (hdone.mpr hnot) (by rw [Processed.entryAt?, hsave]) ?_ ?_
      · simp [Cache.isCurrent, Cache.entryFor, hj.configuration]
      · exact Violation.distinct_of_noRepeats hnew
    · exact .failed v (hdone.mpr hnot) hv hrule
    · rw [hfatal] at hsome
      cases hsome

/-- How a file stands does not depend on the pass. -/
theorem Stands.congr {j' : FileJob} (h : j.Stands entry f) (hr : j'.registry = j.registry)
    (hp : j'.context.project = j.context.project) (hs : j'.context.settings = j.context.settings)
    (hu : j'.usesCache = j.usesCache) (hd : j'.status.settingsDigest = j.status.settingsDigest) :
    j'.Stands entry f := by
  cases h with
  | fresh hd hv => exact .fresh hd hv
  | deferred hdone hc hreader =>
    refine .deferred hdone ?_ (by rw [hr, hs]; exact hreader)
    rw [cachedFrom, hu, hp, hd]
    exact hc
  | unread hdone hreader hv => exact .unread hdone (by rw [hr, hs]; exact hreader) hv
  | stored e hdone he hc hv => exact .stored e hdone he (by rw [hp, hd]; exact hc) hv
  | failed v hdone hv hrule => exact .failed v hdone hv hrule

end FileJob

/-! ## All passes -/

namespace Run

variable {r r' : Run}

/-- Whether every project of a run has a status. -/
def HasStatuses (r : Run) : Prop :=
  ∀ i q, r.shell? i = some q → ∃ st, r.statuses[i]? = some st

/-- Whether a run stores its results, and its files stand as they should. -/
structure Stores (r : Run) : Prop where
  cache : r.cache.isSome = true
  statuses : r.HasStatuses
  job : ∀ i q st, r.shell? i = some q → r.statuses[i]? = some st → (r.job q st).Stores
  stands : ∀ s q f st, r.shell? s.project = some q → r.file? s = some f →
    r.statuses[s.project]? = some st → (r.job q st).Stands (r.entryAt? f.path.cacheKey) f
  modified : ∀ s f, r.file? s = some f → f.modified = false
  noRepeats : ∀ s f, r.file? s = some f → Violation.NoRepeats f.violations

/-- What comes of a file in a pass, as a job says, and what stands under its key then. -/
theorem Works.result_at {hs : List Handled} (h : r.Works hs r')
    (hnd : (hs.map Handled.slot).Nodup) (hd : r.DistinctKeys) (hst : r.HasStatuses) {x : Handled}
    (hx : x ∈ hs) :
    ∃ q f st, r.shell? x.slot.project = some q ∧ r.file? x.slot = some f ∧
      r.statuses[x.slot.project]? = some st ∧
      x.result = (r.job q st).process
        ((r.job q st).cachedFrom (r.entryAt? f.path.cacheKey) f) f ∧
      (r.cache.isSome = true → r'.entryAt? f.path.cacheKey =
        x.result.entryAt? (r.job q st) (r.entryAt? f.path.cacheKey)) := by
  obtain ⟨j, hj⟩ := h.result?_eq hnd hd hx
  obtain ⟨q, f, -, hq, hf, -⟩ := h.result_eq hnd hx
  obtain ⟨f', hf', hpath⟩ := h.path_eq hnd hx
  obtain rfl := Option.some.inj (hf.symm.trans hf')
  obtain ⟨st, hstatus⟩ := hst _ q hq
  have hout : (r.job q st, (r.job q st).process (r.cached? (r.job q st) f) f) = (j, x.result) := by
    have hresult := hj
    rw [Run.result?_eq, hq, hf, hstatus] at hresult
    exact Option.some.inj hresult
  obtain ⟨hjob, hres⟩ := Prod.mk.inj hout
  refine ⟨q, f, st, hq, hf, hstatus, ?_, ?_⟩
  · rw [← hres, cached?_eq]
  · intro hc
    have hentry := h.entryAt?_of_mem hnd hd hc hx hj
    rw [hpath, ← hjob] at hentry
    exact hentry

/-- **A pass that is not aborted keeps a run storing.** -/
theorem Stores.pass {p : Pool} (h : r.Stores) (hr : r.WellPlaced) (hd : r.DistinctKeys)
    (hp : p.IsPass r) (hfatal : p.run.fatal = none) : p.run.Stores := by
  have hframe := hp.frame hr
  have hworks := hp.works hr
  have hnd := hp.handled_nodup hr
  have hquiet (x : Handled) (hx : x ∈ p.handled) : x.result.fatal = none := by
    have hall := hworks.fatal
    rw [hfatal] at hall
    exact List.findSome?_eq_none_iff.mp (Option.or_eq_none_iff.mp hall.symm).2 x hx
  refine
    { cache := hworks.isSome_cache.trans h.cache
      statuses := ?_
      job := ?_
      stands := ?_
      modified := ?_
      noRepeats := ?_ }
  · intro i q hq
    rw [hframe.shell] at hq
    rw [hframe.statuses]
    exact h.statuses i q hq
  · intro i q st hq hst
    rw [hframe.shell] at hq
    rw [hframe.statuses] at hst
    rw [hframe.job]
    exact h.job i q st hq hst
  · intro s q f st hq hf hst
    rw [hframe.shell] at hq
    rw [hframe.statuses] at hst
    rw [hframe.job]
    obtain ⟨x, hx, rfl, rfl⟩ := hp.exists_handled hr hfatal hf
    -- the file came from its slot, and no other file shares its key in the cache
    obtain ⟨q', f, st', hq', hf, hst', hres, hentry⟩ := hworks.result_at hnd hd h.statuses hx
    obtain rfl := Option.some.inj (hq.symm.trans hq')
    obtain rfl := Option.some.inj (hst.symm.trans hst')
    have hpath : x.result.file.path = f.path := by rw [hres]; exact (FileJob.process_identity ..).1
    have hstands := (h.stands _ q f st hq hf hst).process (h.job _ q st hq hst)
      (h.modified _ f hf) (h.noRepeats _ f hf) (hres ▸ hquiet x hx)
    rw [hpath, hentry h.cache, hres]
    exact hstands
  · intro s f hf
    obtain ⟨x, hx, rfl, rfl⟩ := hp.exists_handled hr hfatal hf
    obtain ⟨q, f, st, hq, hf, hst, hres, -⟩ := hworks.result_at hnd hd h.statuses hx
    rw [hres, FileJob.process_modified (h.job _ q st hq hst).fix]
    exact h.modified _ f hf
  · intro s f hf
    obtain ⟨x, hx, rfl, rfl⟩ := hp.exists_handled hr hfatal hf
    obtain ⟨q, f, st, hq, hf, hst, hres, -⟩ := hworks.result_at hnd hd h.statuses hx
    rw [hres]
    exact FileJob.process_noRepeats _ _ (h.noRepeats _ f hf)

theorem Stores.settle (h : r.Stores) : r.settle.Stores where
  cache := h.cache
  statuses i q hq := by
    obtain ⟨st, hst⟩ := h.statuses i q hq
    refine ⟨{ st with complete := (r.projects[i]?).any Project.isComplete }, ?_⟩
    simp [Run.settle, hst]
  job i q st hq hst := by
    obtain ⟨st₀, hst₀, heq⟩ := settle_statuses hst
    obtain ⟨hfix, hwrite, hconf⟩ := h.job i q st₀ hq hst₀
    rw [heq]
    exact ⟨hfix, hwrite, hconf⟩
  stands s q f st hq hf hst := by
    obtain ⟨st₀, hst₀, heq⟩ := settle_statuses hst
    rw [heq]
    exact (h.stands s q f st₀ hq hf hst₀).congr rfl rfl rfl rfl rfl
  modified := h.modified
  noRepeats := h.noRepeats

theorem Stores.next (h : r.Stores) : r.next.Stores where
  cache := h.cache
  statuses := h.statuses
  job i q st hq hst := by
    obtain ⟨hfix, hwrite, hconf⟩ := h.job i q st hq hst
    exact ⟨hfix, hwrite, hconf⟩
  stands s q f st hq hf hst := (h.stands s q f st hq hf hst).congr rfl rfl rfl rfl rfl
  modified := h.modified
  noRepeats := h.noRepeats

theorem Stores.emit (h : r.Stores) (e : Event) : (r.emit e).Stores :=
  ⟨h.cache, h.statuses, h.job, h.stands, h.modified, h.noRepeats⟩

/-- **Passes that come to an end keep a run storing.** -/
theorem Passes.stores {sweep : Run → Pool} {log : List Pool} {res : PassResult}
    (h : Passes sweep r log r' (.ok res)) (hs : ∀ r, r.WellPlaced → (sweep r).IsPass r)
    (hr : r.WellPlaced) (hd : r.DistinctKeys) (hst : r.Stores) : r'.Stores := by
  generalize hres : Except.ok res = result at h
  induction h with
  | cancelled _ => exact hst
  | aborted _ _ => cases hres
  | @converged r₁ _ hf _ => exact (hst.pass hr hd (hs r₁ hr) hf).settle
  | @limit r₁ _ hf _ _ => exact (hst.pass hr hd (hs r₁ hr) hf).settle.emit _
  | @next r₁ _ _ _ _ hf _ _ _ ih =>
    have hd' : (sweep r₁).run.DistinctKeys := ((hs r₁ hr).frame hr).distinctKeys hd
    exact ih (wellPlaced_next ((hs r₁ hr).wellPlaced hr)) hd'
      (hst.pass hr hd (hs r₁ hr) hf).settle.next hres

theorem Passes.cancelled_of_converged {sweep : Run → Pool} {log : List Pool} {res : PassResult}
    (h : Passes sweep r log r' (.ok res)) (hc : res.converged = true) :
    r.cancelled = false ∧ res.cancelled = false := by
  generalize hres : Except.ok res = result at h
  induction h with
  | cancelled _ => cases hres; cases hc
  | aborted _ _ => cases hres
  | converged hr _ _ => cases hres; exact ⟨hr, rfl⟩
  | limit hr _ _ _ => cases hres; exact ⟨hr, rfl⟩
  | next hr _ _ _ _ ih => exact ⟨hr, (ih hres).2⟩

/-- After a run that has converged, every file stands as one that is done. -/
theorem Passes.done_of_converged {sweep : Run → Pool} {log : List Pool} {res : PassResult}
    (h : Passes sweep r log r' (.ok res)) (hs : ∀ r, r.WellPlaced → (sweep r).IsPass r)
    (hr : r.WellPlaced) (hc : res.converged = true) :
    ∀ s f, r'.file? s = some f → f.done = true :=
  ((h.converged_iff hs hr (h.cancelled_of_converged hc).2).1).mp hc

end Run

end StyleEngine
