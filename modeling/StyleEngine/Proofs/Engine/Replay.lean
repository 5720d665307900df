import StyleEngine.Proofs.Engine.Lineage
import StyleEngine.Proofs.Run.Storing

/-! # Runs that repeat others

In a run that has converged and in which no add-in failed, every file has come to
rest: no parser reads it, or its violations stand under its key (`FileJob.Rests`).
A run that follows, over the same files and at the same cache (`Run.Follows`), then
finds all it needs in the cache, exactly if the files that a parser reads have the
digests that they had.
-/
namespace StyleEngine

/-- What comes of a file that no add-in has to see again. -/
structure Processed.Recalls (p : Processed) (vs : List Violation) : Prop where
  violations : p.file.violations = vs
  outcome : p.outcome = .skipped ∨ p.outcome = .cached
  quiet : p.events.any Event.isCall = false
  fatal : p.fatal = none

/-! ## One file -/

namespace FileJob

variable {j : FileJob} {entry : Option FileEntry} {f f' : SourceFile}

/-- A file that the add-ins are through with: no parser reads it, or its violations are stored. -/
inductive Rests (j : FileJob) (entry : Option FileEntry) (f : SourceFile) : Prop
  | unread (hr : j.registry.reader? j.context.settings f.path = none) (hv : f.violations = [])
  | stored (e : FileEntry) (he : entry = some e)
    (hc : Cache.isCurrent e j.context.project f j.status.settingsDigest = true)
    (hv : Violation.distinct e.violations = f.violations)

theorem Stands.rests (h : j.Stands entry f) (hd : f.done = true)
    (hclean : ∀ v ∈ f.violations, v.ruleId ≠ Violation.fileFailedRule) : j.Rests entry f := by
  cases h with
  | fresh hd' _ => rw [hd] at hd'; cases hd'
  | deferred hd' _ _ => rw [hd] at hd'; cases hd'
  | unread _ hr hv => exact .unread hr hv
  | stored e _ he hc hv => exact .stored e he hc hv
  | failed v _ hv hr => exact absurd hr (hclean v hv)

/-- Whether a file is at rest depends on the flags of its project, but not on its root. -/
theorem Rests.congr {j' : FileJob} (h : j.Rests entry f) (hr : j'.registry = j.registry)
    (hp : j'.context.project.flags = j.context.project.flags)
    (hs : j'.context.settings = j.context.settings)
    (hd : j'.status.settingsDigest = j.status.settingsDigest) : j'.Rests entry f := by
  cases h with
  | unread hreader hv => exact .unread (by rw [hr, hs]; exact hreader) hv
  | stored e he hc hv => exact .stored e he (by rw [Cache.isCurrent, hp, hd]; exact hc) hv

theorem serve_quiet (f : SourceFile) (vs : List Violation) :
    (serve f vs).events.any Event.isCall = false := by
  have hfold (s : Visit) (hs : s.events.any Event.isCall = false) :
      (vs.foldl (fun s v => (s.publish v).1) s).events.any Event.isCall = false := by
    induction vs generalizing s with
    | nil => exact hs
    | cons v vs ih =>
      refine ih _ ?_
      simp only [Visit.publish]
      split
      · exact hs
      · rw [List.any_append, hs]
        rfl
  exact hfold { file := f } rfl

/-- An entry that was made under other settings, or for another text, is of no use. -/
theorem cachedFrom_eq_none (h : ∀ e, entry = some e →
    e.contentDigest ≠ f.digest ∨ e.settingsDigest ≠ j.status.settingsDigest) :
    j.cachedFrom entry f = none := by
  rw [cachedFrom]
  split
  · cases entry with
    | none => rfl
    | some e =>
      have hnot : Cache.isCurrent e j.context.project f j.status.settingsDigest = false := by
        rcases h e rfl with hne | hne <;> simp [Cache.isCurrent, hne]
      rw [Option.bind_some, hnot]
      rfl
  · rfl

/-- **A file at rest is recalled** if it has the digest that it had, or no parser reads it. -/
theorem Rests.recalls (h : j.Rests entry f') (hu : j.usesCache = true) (hd : f.done = false)
    (hv : f.violations = []) (hpath : f.path = f'.path)
    (hearned : ∀ e, entry = some e → e.settingsDigest = j.status.settingsDigest →
      (j.registry.reader? j.context.settings f.path).isSome = true)
    (hdigest : (j.registry.reader? j.context.settings f.path).isSome = true →
      f.digest = f'.digest) :
    (j.process (j.cachedFrom entry f) f).Recalls f'.violations := by
  cases h with
  | unread hr hv' =>
    rw [← hpath] at hr
    -- an entry under these settings would have been earned by a parser that reads the file
    have hnone : j.cachedFrom entry f = none := by
      refine cachedFrom_eq_none fun e he => .inr ?_
      intro hsettings
      have hsome := hearned e he hsettings
      rw [hr] at hsome
      cases hsome
    rcases j.process_cases (j.cachedFrom entry f) f with ⟨hd', -⟩ | ⟨-, -, hp, -⟩ |
      ⟨-, vs, hvs, -⟩ | ⟨-, -, e, he, hon, -⟩
    · rw [hd] at hd'; cases hd'
    · rw [hp]
      exact ⟨hv.trans hv'.symm, .inl rfl, rfl, rfl⟩
    · rw [hnone] at hvs; cases hvs
    · rw [reader?_of_parserOf? he hon] at hr; cases hr
  | stored e he hc hv' =>
    have hsettings : e.settingsDigest = j.status.settingsDigest := by
      simp only [Cache.isCurrent, Bool.and_eq_true, beq_iff_eq] at hc
      exact hc.1.2
    have hsame := hdigest (hearned e he hsettings)
    have hcached : j.cachedFrom entry f = some e.violations := by
      rw [cachedFrom_congr hsame, cachedFrom, if_pos hu, he, Option.bind_some, if_pos hc]
    have hp : j.process (j.cachedFrom entry f) f = serve f e.violations := by
      rw [hcached, process, hd]
      rfl
    rw [hp]
    refine ⟨?_, .inr rfl, serve_quiet .., rfl⟩
    rw [serve_file, hv, ← hv']
    rfl

theorem parse_outcome (j : FileJob) (e : ParserEntry) (f : SourceFile) :
    (j.parse e f).outcome = .analyzed ∨ (j.parse e f).outcome = .deferred := by
  simp only [parse]
  split
  · exact .inr rfl
  · exact .inl rfl
  · exact .inl rfl

/-- A file at rest that a parser reads is parsed again if it has another digest. -/
theorem Rests.parses (h : j.Rests entry f') (hd : f.done = false) (hpath : f.path = f'.path)
    (hr : (j.registry.reader? j.context.settings f.path).isSome = true)
    (hne : f.digest ≠ f'.digest) :
    (j.process (j.cachedFrom entry f) f).outcome = .analyzed ∨
      (j.process (j.cachedFrom entry f) f).outcome = .deferred := by
  cases h with
  | unread hr' _ => rw [hpath, hr'] at hr; cases hr
  | stored e he hc _ =>
    have hcontent : e.contentDigest = f'.digest := by
      simp only [Cache.isCurrent, Bool.and_eq_true, beq_iff_eq] at hc
      exact hc.1.1
    have hnone : j.cachedFrom entry f = none := by
      refine cachedFrom_eq_none fun e' he' => .inl ?_
      obtain rfl := Option.some.inj (he.symm.trans he')
      rw [hcontent]
      exact hne.symm
    rcases j.process_cases (j.cachedFrom entry f) f with ⟨hd', -⟩ | ⟨-, -, -, hoff⟩ |
      ⟨-, vs, hvs, -⟩ | ⟨-, -, p, -, -, hp⟩
    · rw [hd] at hd'; cases hd'
    · rw [reader?_eq_none hoff] at hr; cases hr
    · rw [hnone] at hvs; cases hvs
    · rw [hp]
      exact j.parse_outcome p f

end FileJob

/-! ## One pass -/

namespace Run

variable {S : Settings → Prop} {r r₂ r₂' : Run}

/-- A run that is over, with every file at rest. -/
structure Rests (S : Settings → Prop) (r : Run) : Prop where
  earned : Cache.IsEarned r.registry S r.cache
  settings : r.UnderSettings S
  statuses : r.HasStatuses
  keys : r.DistinctKeys
  file : ∀ s q f st, r.shell? s.project = some q → r.file? s = some f →
    r.statuses[s.project]? = some st → (r.job q st).Rests (r.entryAt? f.path.cacheKey) f

/-- A run at its start, over the files of another one and at a cache with the same entries that
may be used. -/
structure Follows (r r₂ : Run) : Prop where
  registry : r₂.registry = r.registry
  shell : ∀ i, r₂.shell? i = r.shell? i
  autoFix : r₂.autoFix = false
  status : ∀ i q, r₂.shell? i = some q → ∃ st, r₂.statuses[i]? = some st ∧
    st.ignoreCache = false ∧ st.settingsDigest = q.effectiveSettings.digest
  path : ∀ s, (r₂.file? s).map SourceFile.path = (r.file? s).map SourceFile.path
  fresh : ∀ s f, r₂.file? s = some f → f.done = false ∧ f.violations = []
  entry : ∀ key, r₂.entryAt? key = r.entryAt? key

/-- Whether the files that a parser reads have the digests that they had in another run. -/
def SameDigests (r r₂ : Run) : Prop :=
  ∀ s q f f₂, r.shell? s.project = some q → r.file? s = some f → r₂.file? s = some f₂ →
    (r.registry.reader? q.effectiveSettings f.path).isSome = true → f₂.digest = f.digest

namespace Follows

theorem exists_file (h : r.Follows r₂) {s : Slot} {f₂ : SourceFile} (hf : r₂.file? s = some f₂) :
    ∃ f, r.file? s = some f ∧ f₂.path = f.path := by
  have hpath := h.path s
  rw [hf, Option.map_some] at hpath
  obtain ⟨f, hf, heq⟩ := Option.map_eq_some_iff.mp hpath.symm
  exact ⟨f, hf, heq.symm⟩

theorem distinctKeys (h : r.Follows r₂) (hd : r.DistinctKeys) : r₂.DistinctKeys := hd.of_path h.path

theorem hasStatuses (h : r.Follows r₂) : r₂.HasStatuses := by
  intro i q hq
  obtain ⟨st, hst, -⟩ := h.status i q hq
  exact ⟨st, hst⟩

/-- The job of a file at rest, in the run that follows. -/
theorem rests (h : r.Follows r₂) (hr : r.Rests S) {s : Slot} {q : Project} {f f₂ : SourceFile}
    {st : ProjectStatus} (hq : r₂.shell? s.project = some q) (hf₂ : r₂.file? s = some f₂)
    (hf : r.file? s = some f) (hst : r₂.statuses[s.project]? = some st) :
    (r₂.job q st).Rests (r₂.entryAt? f₂.path.cacheKey) f ∧ (r₂.job q st).usesCache = true ∧
      S q.effectiveSettings ∧ st.settingsDigest = q.effectiveSettings.digest := by
  obtain ⟨g, hg, hpath⟩ := h.exists_file hf₂
  obtain rfl := Option.some.inj (hf.symm.trans hg)
  obtain ⟨st', hst', hignore, hdigest⟩ := h.status _ q hq
  obtain rfl := Option.some.inj (hst.symm.trans hst')
  have hq' : r.shell? s.project = some q := (h.shell _).symm.trans hq
  obtain ⟨st₀, hst₀⟩ := hr.statuses _ q hq'
  obtain ⟨hS, hdigest₀⟩ := hr.settings _ q st₀ hq' hst₀
  refine ⟨?_, ?_, hS, hdigest⟩
  · rw [h.entry, hpath]
    exact (hr.file s q f st₀ hq' hf hst₀).congr h.registry rfl rfl (hdigest.trans hdigest₀.symm)
  · simp [FileJob.usesCache, Run.job, hignore, h.autoFix]

/-- **What comes of a file in a run that follows**: it is recalled if it has its digest or no
parser reads it, and otherwise it is parsed. -/
theorem handled (h : r.Follows r₂) (hr : r.Rests S)
    (hS : ∀ s s', S s → S s' → s.digest = s'.digest → s = s') (hw : r₂.WellPlaced) {p : Pool}
    (hp : p.IsPass r₂) {x : Handled} (hx : x ∈ p.handled) :
    ∃ q f f₂, r.shell? x.slot.project = some q ∧ r.file? x.slot = some f ∧
      r₂.file? x.slot = some f₂ ∧
      (((r.registry.reader? q.effectiveSettings f.path).isSome = true → f₂.digest = f.digest) →
        x.result.Recalls f.violations) ∧
      ((r.registry.reader? q.effectiveSettings f.path).isSome = true → f₂.digest ≠ f.digest →
        x.result.outcome = .analyzed ∨ x.result.outcome = .deferred) := by
  obtain ⟨q, f₂, st, hq, hf₂, hst, hres, -⟩ := (hp.works hw).result_at (hp.handled_nodup hw)
    (h.distinctKeys hr.keys) h.hasStatuses hx
  obtain ⟨f, hf, hpath⟩ := h.exists_file hf₂
  obtain ⟨hrests, huses, hknown, hdigest⟩ := h.rests hr hq hf₂ hf hst
  obtain ⟨hdone, hviolations⟩ := h.fresh _ f₂ hf₂
  have hreader : (r₂.job q st).registry.reader? (r₂.job q st).context.settings f₂.path =
      r.registry.reader? q.effectiveSettings f.path := by
    rw [hpath, ← h.registry]
    rfl
  refine ⟨q, f, f₂, (h.shell _).symm.trans hq, hf, hf₂, ?_, ?_⟩
  · intro hsame
    rw [hres]
    refine hrests.recalls huses hdone hviolations hpath ?_ ?_
    · intro e he hsettings
      -- the entry was made under the same settings, which leave a parser on
      rw [h.entry] at he
      obtain ⟨s, hs, hsd, hsome⟩ := hr.earned f₂.path e he
      have hsame : s.digest = q.effectiveSettings.digest := by
        rw [← hsd, hsettings, ← hdigest]
        rfl
      obtain rfl := hS s _ hs hknown hsame
      rw [hreader, ← hpath]
      exact hsome
    · rw [hreader]
      exact hsame
  · intro hread hne
    rw [hres]
    exact hrests.parses hdone hpath (hreader ▸ hread) hne

end Follows

/-! ## All passes -/

/-- A pass in which every file is recalled is complete, and nothing is analyzed in it. -/
theorem complete_of_recalls {p : Pool} (hp : p.IsPass r) (hw : r.WellPlaced) (hf : r.fatal = none)
    (h : ∀ x ∈ p.handled, ∃ vs, x.result.Recalls vs) :
    p.run.fatal = none ∧ p.run.incomplete = false ∧
      p.run.tally.analyzed = r.tally.analyzed := by
  have hnone : p.run.fatal = none := by
    rw [(hp.works hw).fatal, hf, Option.none_or, List.findSome?_eq_none_iff]
    intro x hx
    obtain ⟨vs, hrecall⟩ := h x hx
    exact hrecall.fatal
  refine ⟨hnone, ?_, ?_⟩
  · refine Bool.eq_false_iff.mpr ?_
    intro hinc
    obtain ⟨s, f, hf, hundone⟩ := (hp.incomplete_iff hw hnone).mp hinc
    obtain ⟨x, hx, rfl, rfl⟩ := hp.exists_handled hw hnone hf
    obtain ⟨vs, hrecall⟩ := h x hx
    have hdone : x.result.outcome ≠ .deferred := by
      rcases hrecall.outcome with ho | ho <;> rw [ho] <;> exact fun hno => by cases hno
    rw [(hp.done_iff hw hx).mpr hdone] at hundone
    cases hundone
  · rw [(hp.works hw).analyzed, List.countP_eq_zero.mpr, Nat.add_zero]
    intro x hx
    obtain ⟨vs, hrecall⟩ := h x hx
    rcases hrecall.outcome with ho | ho <;> rw [ho] <;> decide

theorem flatMap_violations (ps : List Project) : ps.flatMap Project.violations =
    (ps.map fun p => p.files.map SourceFile.violations).flatten.flatten := by
  induction ps with
  | nil => rfl
  | cons p ps ih =>
    rw [List.flatMap_cons, ih, List.map_cons, List.flatten_cons, List.flatten_append]
    rfl

namespace Follows

/-- A pass in which every file is recalled leaves the violations of the first run. -/
theorem violations (h : r.Follows r₂) (hw : r₂.WellPlaced) {p : Pool} (hp : p.IsPass r₂)
    (hnone : p.run.fatal = none)
    (hrecalls : ∀ x ∈ p.handled, ∃ f, r.file? x.slot = some f ∧ x.result.Recalls f.violations) :
    p.run.projects.flatMap Project.violations = r.projects.flatMap Project.violations := by
  have hshell (i : Nat) : p.run.shell? i = r.shell? i :=
    ((hp.frame hw).shell i).trans (h.shell i)
  have hfile (s : Slot) : (p.run.file? s).map SourceFile.violations =
      (r.file? s).map SourceFile.violations := by
    cases hf₂ : p.run.file? s with
    | some f₂ =>
      obtain ⟨x, hx, rfl, rfl⟩ := hp.exists_handled hw hnone hf₂
      obtain ⟨f, hf, hrecall⟩ := hrecalls x hx
      rw [hf, Option.map_some, Option.map_some, hrecall.violations]
    | none =>
      have hnofile : r₂.file? s = none := by
        have hsome := (hp.frame hw).isSome_file? s
        rw [hf₂] at hsome
        simpa using hsome.symm
      have hpath := h.path s
      rw [hnofile, Option.map_none] at hpath
      rw [Option.map_eq_none_iff.mp hpath.symm]
  rw [flatMap_violations, flatMap_violations, map_files_eq _ hshell hfile]

/-- **A run that follows one at rest recalls it** if the files that a parser reads have their
digests: one pass is enough, and no add-in is called. -/
theorem replays (h : r.Follows r₂) (hr : r.Rests S)
    (hS : ∀ s s', S s → S s' → s.digest = s'.digest → s = s') (hfresh : Engine.Fresh r₂)
    (hcancel : r₂.cancelled = false) {sweep : Run → Pool}
    (hs : ∀ r, r.WellPlaced → (sweep r).IsPass r) {log : List Pool}
    {result : Except AddInError PassResult} (hp : Passes sweep r₂ log r₂' result)
    (hsame : r.SameDigests r₂) :
    (∀ p ∈ log, ∀ x ∈ p.handled, x.result.events.any Event.isCall = false) ∧
      result = .ok { passes := 1, converged := true } ∧ r₂'.tally.analyzed = 0 ∧
      r₂'.projects.flatMap Project.violations = r.projects.flatMap Project.violations := by
  have hw := hfresh.wellPlaced
  have hpass := hs r₂ hw
  have hrecalls (x : Handled) (hx : x ∈ (sweep r₂).handled) :
      ∃ f, r.file? x.slot = some f ∧ x.result.Recalls f.violations := by
    obtain ⟨q, f, f₂, hq, hf, hf₂, hrecalls, -⟩ := h.handled hr hS hw hpass hx
    exact ⟨f, hf, hrecalls (hsame x.slot q f f₂ hq hf hf₂)⟩
  have hall (x : Handled) (hx : x ∈ (sweep r₂).handled) : ∃ vs, x.result.Recalls vs := by
    obtain ⟨f, -, hrecall⟩ := hrecalls x hx
    exact ⟨f.violations, hrecall⟩
  obtain ⟨hnone, hcomplete, hanalyzed⟩ := complete_of_recalls hpass hw hfresh.fatal hall
  obtain ⟨rfl, rfl, rfl⟩ := hp.unique (.converged hcancel hnone hcomplete)
  refine ⟨?_, ?_, ?_, h.violations hw hpass hnone hrecalls⟩
  · intro p hp x hx
    obtain rfl := List.mem_singleton.mp hp
    obtain ⟨f, -, hrecall⟩ := hrecalls x hx
    exact hrecall.quiet
  · rw [(hpass.frame hw).pass, hfresh.pass]
  · rw [settle_tally, hanalyzed, hfresh.tally]

/-- Only files with their digests let a run that follows be over after one pass in which nothing
was analyzed. -/
theorem sameDigests (h : r.Follows r₂) (hr : r.Rests S)
    (hS : ∀ s s', S s → S s' → s.digest = s'.digest → s = s') (hfresh : Engine.Fresh r₂)
    {sweep : Run → Pool} (hs : ∀ r, r.WellPlaced → (sweep r).IsPass r) {log : List Pool}
    {res : PassResult} (hp : Passes sweep r₂ log r₂' (.ok res)) (hconverged : res.converged = true)
    (hone : res.passes = 1) (hanalyzed : r₂'.tally.analyzed = 0) : r.SameDigests r₂ := by
  have hw := hfresh.wellPlaced
  have hpass := hs r₂ hw
  obtain ⟨hlen, -⟩ := hp.length_log hs hw (by rw [hfresh.pass]; decide)
  rw [hone, hfresh.pass, Nat.zero_add] at hlen
  generalize hresult : Except.ok res = result at hp
  cases hp with
  | cancelled _ => cases hlen
  | aborted _ _ => cases hresult
  | limit _ _ _ _ => cases hresult; cases hconverged
  | next _ _ _ _ hrest =>
    -- after the first pass none follows, so that the run was stopped and did not converge
    cases hrest with
    | cancelled _ => cases hresult; cases hconverged
    | aborted _ _ | converged _ _ _ | limit _ _ _ _ | next _ _ _ _ _ => simp at hlen
  | converged _ hnone hcomplete =>
    rw [settle_tally, (hpass.works hw).analyzed, hfresh.tally, Nat.zero_add,
      List.countP_eq_zero] at hanalyzed
    intro s q f f₂ hq hf hf₂ hread
    refine Decidable.byContradiction ?_
    intro hne
    have hslot : s ∈ r₂.slots := by
      rw [hw.mem_iff, hf₂]
      rfl
    obtain ⟨x, hx, rfl⟩ := List.mem_map.mp ((hpass.handled_perm hw hnone).mem_iff.mpr hslot)
    obtain ⟨q', g, g₂, hq', hg, hg₂, -, hparsed⟩ := h.handled hr hS hw hpass hx
    obtain rfl := Option.some.inj (hq.symm.trans hq')
    obtain rfl := Option.some.inj (hf.symm.trans hg)
    obtain rfl := Option.some.inj (hf₂.symm.trans hg₂)
    rcases hparsed hread hne with ho | ho
    · exact hanalyzed x hx (by rw [ho]; rfl)
    · have hundone : x.result.file.done = false :=
        Bool.eq_false_iff.mpr fun hdone => (hpass.done_iff hw hx).mp hdone ho
      rw [(hpass.incomplete_iff hw hnone).mpr
        ⟨x.slot, x.result.file, hpass.file?_handled hw hx, hundone⟩] at hcomplete
      cases hcomplete

end Follows

end Run

end StyleEngine
