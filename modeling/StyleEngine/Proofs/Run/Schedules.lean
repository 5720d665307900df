import StyleEngine.Proofs.Run.Snapshot

/-! # Passes in different orders

Two passes over a run whose files have different keys do the same work, seen from
the start of the pass (`Run.workload`), in different orders.  So either both are
aborted, or both leave the same run up to the order of what was told
(`Run.Alike`); the passes after them then go the same way too.
-/
namespace StyleEngine

namespace Run

/-- What comes of a slot, seen from a run. -/
def handledAt (r : Run) (s : Slot) : List Handled := (r.result? s).toList.map fun jp => ⟨s, jp.2⟩

/-- The work of a pass over a run, seen from its start. -/
def workload (r : Run) : List Handled := r.slots.flatMap r.handledAt

theorem handledAt_of_result? {r : Run} {s : Slot} {j : FileJob} {p : Processed}
    (h : r.result? s = some (j, p)) : r.handledAt s = [⟨s, p⟩] := by
  rw [handledAt, h]; rfl

theorem Works.handled_eq {r r' : Run} {hs : List Handled} (h : r.Works hs r')
    (hnd : (hs.map Handled.slot).Nodup) (hd : r.DistinctKeys) :
    (hs.map Handled.slot).flatMap r.handledAt = hs := by
  have hone (x : Handled) (hx : x ∈ hs) : r.handledAt x.slot = [x] := by
    obtain ⟨j, hj⟩ := h.result?_eq hnd hd hx
    exact handledAt_of_result? hj
  clear h hnd
  induction hs with
  | nil => rfl
  | cons x hs ih =>
    rw [List.map_cons, List.flatMap_cons, hone x List.mem_cons_self,
      ih fun y hy => hone y (List.mem_cons_of_mem _ hy)]
    rfl

/-- Whether two runs differ at most in where their pass stands and in the order of what was
told. -/
structure Alike (r r' : Run) : Prop where
  registry : r'.registry = r.registry
  switches : r'.switches = r.switches
  autoFix : r'.autoFix = r.autoFix
  projects : r'.projects = r.projects
  statuses : r'.statuses = r.statuses
  slots : r'.slots = r.slots
  cache : r'.cache = r.cache
  cancelled : r'.cancelled = r.cancelled
  pass : r'.pass = r.pass
  incomplete : r'.incomplete = r.incomplete
  fatal : r'.fatal = r.fatal
  tally : r'.tally = r.tally
  told : r'.events.Perm r.events

namespace Alike

variable {r r' : Run}

theorem refl (r : Run) : r.Alike r :=
  ⟨rfl, rfl, rfl, rfl, rfl, rfl, rfl, rfl, rfl, rfl, rfl, rfl, .refl _⟩

theorem file?_eq (h : r.Alike r') (s : Slot) : r'.file? s = r.file? s := by
  rw [Run.file?, Run.file?, h.projects]

theorem shell?_eq (h : r.Alike r') (i : Nat) : r'.shell? i = r.shell? i := by
  rw [Run.shell?, Run.shell?, h.projects]

theorem entryAt?_eq (h : r.Alike r') (key : String) : r'.entryAt? key = r.entryAt? key := by
  rw [entryAt?, entryAt?, h.cache]

theorem result?_eq (h : r.Alike r') (s : Slot) : r'.result? s = r.result? s := by
  have hjob (q : Project) (st : ProjectStatus) : r'.job q st = r.job q st := by
    simp only [Run.job, h.registry, h.switches, h.autoFix, h.pass]
  have houtcome (q : Project) : r'.outcome q r.statuses[s.project]? =
      r.outcome q r.statuses[s.project]? := by
    funext f
    exact outcome_congr (hjob q) (h.entryAt?_eq _)
  simp only [Run.result?_eq, h.shell?_eq, h.file?_eq, h.statuses, houtcome]

theorem workload_eq (h : r.Alike r') : r'.workload = r.workload := by
  have hat : r'.handledAt = r.handledAt := by
    funext s
    rw [handledAt, handledAt, h.result?_eq]
  rw [workload, workload, h.slots, hat]

theorem wellPlaced (h : r.Alike r') (hr : r.WellPlaced) : r'.WellPlaced :=
  ⟨h.slots ▸ hr.nodup, fun s => by rw [h.slots, h.file?_eq, hr.mem_iff]⟩

theorem distinctKeys (h : r.Alike r') (hr : r.DistinctKeys) : r'.DistinctKeys := by
  intro s s' f f' hf hf'
  rw [h.file?_eq] at hf hf'
  exact hr s s' f f' hf hf'

theorem dirtiedAt_eq (h : r.Alike r') (s : Slot) : r'.dirtiedAt s = r.dirtiedAt s := by
  simp only [dirtiedAt, h.result?_eq, h.entryAt?_eq]

theorem settle (h : r.Alike r') : r.settle.Alike r'.settle :=
  { h with statuses := by simp only [Run.settle, h.statuses, h.projects] }

theorem emit (h : r.Alike r') (e : Event) : (r.emit e).Alike (r'.emit e) :=
  { h with told := h.told.append_right [e] }

/-- Runs that are alike are so before their next passes. -/
theorem next (h : r.Alike r') : r.settle.next.Alike r'.settle.next :=
  { h.settle with pass := congrArg (· + 1) h.pass }

end Alike

end Run

/-! ## Two passes -/

namespace Pool.IsPass

variable {r : Run} {p : Pool}

theorem mem_workload (h : p.IsPass r) (hr : r.WellPlaced) (hd : r.DistinctKeys) {x : Handled}
    (hx : x ∈ p.handled) : x ∈ r.workload := by
  obtain ⟨j, hj⟩ := (h.works hr).result?_eq (h.handled_nodup hr) hd hx
  obtain ⟨q, f, cache, -, hf, -⟩ := h.result_eq hr hx
  refine List.mem_flatMap.mpr ⟨x.slot, (hr.mem_iff _).mpr (by rw [hf]; rfl), ?_⟩
  rw [Run.handledAt_of_result? hj]
  exact List.mem_singleton.mpr rfl

/-- A pass that is not aborted does all the work. -/
theorem handled_perm_workload (h : p.IsPass r) (hr : r.WellPlaced) (hd : r.DistinctKeys)
    (hf : p.run.fatal = none) : p.handled.Perm r.workload := by
  rw [← (h.works hr).handled_eq (h.handled_nodup hr) hd]
  exact (h.handled_perm hr hf).flatMap_right _

/-- **Whether a pass is aborted is decided by its work**, not by the order in which it is
done. -/
theorem isSome_fatal_iff (h : p.IsPass r) (hr : r.WellPlaced) (hd : r.DistinctKeys)
    (hf : r.fatal = none) : p.run.fatal.isSome ↔ ∃ x ∈ r.workload, x.result.fatal.isSome := by
  have haborted := (h.works hr).isAborted_iff hf
  constructor
  · intro hs
    obtain ⟨x, hx, hxf⟩ := haborted.mp hs
    exact ⟨x, h.mem_workload hr hd hx, hxf⟩
  · rintro ⟨x, hx, hxf⟩
    cases hp : p.run.fatal with
    | some e => rfl
    | none =>
      have hmem := (h.handled_perm_workload hr hd hp).mem_iff.mpr hx
      have hsome := haborted.mpr ⟨x, hmem, hxf⟩
      rw [Run.isAborted, hp] at hsome
      cases hsome

/-- What a pass leaves of a file is told by the work of the pass. -/
theorem file?_eq_of_perm {r₁ r₂ : Run} {p₁ p₂ : Pool} (h₁ : p₁.IsPass r₁) (h₂ : p₂.IsPass r₂)
    (hr₁ : r₁.WellPlaced) (hr₂ : r₂.WellPlaced) (hfile : ∀ s, r₂.file? s = r₁.file? s)
    (hperm : p₂.handled.Perm p₁.handled) (s : Slot) : p₂.run.file? s = p₁.run.file? s := by
  by_cases hs : s ∈ p₁.handled.map Handled.slot
  · obtain ⟨x, hx, rfl⟩ := List.mem_map.mp hs
    rw [h₁.file?_handled hr₁ hx, h₂.file?_handled hr₂ (hperm.mem_iff.mpr hx)]
  · have hs₂ : s ∉ p₂.handled.map Handled.slot := by
      rwa [(hperm.map Handled.slot).mem_iff]
    rw [(h₁.works hr₁).file?_of_notMem hs, (h₂.works hr₂).file?_of_notMem hs₂, hfile]

end Pool.IsPass

/-- Counting results can be done in any order. -/
theorem Run.foldl_count_perm {hs hs' : List Handled} (h : hs'.Perm hs) (t : Tally) :
    hs'.foldl (fun t x => Run.count t x.result) t =
      hs.foldl (fun t x => Run.count t x.result) t := by
  refine h.foldl_eq' ?_ t
  intro x _ y _ t
  simp only [Run.count, Tally.mk.injEq]
  omega

theorem any_eq_of_perm {α : Type} {l l' : List α} (h : l'.Perm l) (P : α → Bool) :
    l'.any P = l.any P := by
  rw [Bool.eq_iff_iff, List.any_eq_true, List.any_eq_true]
  simp only [h.mem_iff]

namespace Pool.IsQuietPass

variable {r₁ r₂ : Run} {p₁ p₂ : Pool}

/-- Passes with the same work store the same under every key: a key belongs to one file at most,
and what is stored for it does not depend on the order. -/
theorem entryAt?_eq (hr : r₁.Alike r₂) (h₁ : p₁.IsQuietPass r₁) (h₂ : p₂.IsQuietPass r₂)
    (hw : r₁.WellPlaced) (hd : r₁.DistinctKeys) (hc : r₁.cache.isSome = true)
    (hperm : p₂.handled.Perm p₁.handled) (key : String) :
    p₂.run.entryAt? key = p₁.run.entryAt? key := by
  have hworks₁ := h₁.isPass.works hw
  have hworks₂ := h₂.isPass.works (hr.wellPlaced hw)
  by_cases hk : ∃ x ∈ p₁.handled, x.result.file.path.cacheKey = key
  · obtain ⟨x, hx, rfl⟩ := hk
    have hnd₁ := h₁.isPass.handled_nodup hw
    have hnd₂ := h₂.isPass.handled_nodup (hr.wellPlaced hw)
    obtain ⟨j, hj⟩ := hworks₁.result?_eq hnd₁ hd hx
    rw [hworks₁.entryAt?_of_mem hnd₁ hd hc hx hj,
      hworks₂.entryAt?_of_mem hnd₂ (hr.distinctKeys hd) (hr.cache ▸ hc) (hperm.mem_iff.mpr hx)
        (hr.result?_eq _ ▸ hj), hr.entryAt?_eq]
  · rw [hworks₁.entryAt?_of_ne fun x hx hkey => hk ⟨x, hx, hkey⟩,
      hworks₂.entryAt?_of_ne fun x hx hkey => hk ⟨x, hperm.mem_iff.mp hx, hkey⟩, hr.entryAt?_eq]

/-- Passes with the same work leave the same cache. -/
theorem cache_eq (hr : r₁.Alike r₂) (h₁ : p₁.IsQuietPass r₁) (h₂ : p₂.IsQuietPass r₂)
    (hw : r₁.WellPlaced) (hd : r₁.DistinctKeys)
    (ho : ∀ c, r₁.cache = some c → Record.IsOrdered c.document.files)
    (hperm : p₂.handled.Perm p₁.handled) : p₂.run.cache = p₁.run.cache := by
  have hworks₁ := h₁.isPass.works hw
  have hworks₂ := h₂.isPass.works (hr.wellPlaced hw)
  have hnd₁ := h₁.isPass.handled_nodup hw
  have hnd₂ := h₂.isPass.handled_nodup (hr.wellPlaced hw)
  cases hc : r₁.cache with
  | none =>
    have hnone₁ := hworks₁.isSome_cache
    have hnone₂ := hworks₂.isSome_cache
    rw [hr.cache] at hnone₂
    rw [hc, Option.isSome_none, Option.isSome_eq_false_iff,
      Option.isNone_iff_eq_none] at hnone₁ hnone₂
    rw [hnone₁, hnone₂]
  | some c =>
    obtain ⟨c₁, hc₁, hs₁, hv₁, hp₁, ho₁, hd₁⟩ := hworks₁.cache_eq hnd₁ hd hc
    obtain ⟨c₂, hc₂, hs₂, hv₂, hp₂, ho₂, hd₂⟩ :=
      hworks₂.cache_eq hnd₂ (hr.distinctKeys hd) (hr.cache.trans hc)
    -- ordered records with the same entries are equal
    have hfiles : c₂.document.files = c₁.document.files := by
      refine Record.ext_of_lookup (ho₂ (ho c hc)) (ho₁ (ho c hc)) ?_
      intro key
      have hsame := entryAt?_eq hr h₁ h₂ hw hd (by rw [hc]; rfl) hperm key
      rw [Run.entryAt?, Run.entryAt?, hc₁, hc₂] at hsame
      exact hsame
    have hdirty : c₂.dirty = c₁.dirty := by
      rw [hd₁, hd₂, any_eq_of_perm hperm]
      simp only [hr.dirtiedAt_eq]
    rw [hc₁, hc₂]
    obtain ⟨store₁, ⟨version₁, projects₁, files₁⟩, dirty₁⟩ := c₁
    obtain ⟨store₂, ⟨version₂, projects₂, files₂⟩, dirty₂⟩ := c₂
    simp only at hs₁ hs₂ hv₁ hv₂ hp₁ hp₂ hfiles hdirty
    rw [hs₁, hs₂, hv₁, hv₂, hp₁, hp₂, hfiles, hdirty]

/-- **Two passes that are not aborted leave the same run**, up to the order of what was told. -/
theorem alike (hr : r₁.Alike r₂) (h₁ : p₁.IsQuietPass r₁) (h₂ : p₂.IsQuietPass r₂)
    (hw : r₁.WellPlaced) (hd : r₁.DistinctKeys)
    (ho : ∀ c, r₁.cache = some c → Record.IsOrdered c.document.files)
    (hf₁ : p₁.run.fatal = none) (hf₂ : p₂.run.fatal = none) : p₁.run.Alike p₂.run := by
  have hw₂ := hr.wellPlaced hw
  have hframe₁ := h₁.isPass.frame hw
  have hframe₂ := h₂.isPass.frame hw₂
  have hperm : p₂.handled.Perm p₁.handled := by
    have hperm₂ := h₂.isPass.handled_perm_workload hw₂ (hr.distinctKeys hd) hf₂
    rw [hr.workload_eq] at hperm₂
    exact hperm₂.trans (h₁.isPass.handled_perm_workload hw hd hf₁).symm
  refine
    { registry := by rw [hframe₁.registry, hframe₂.registry, hr.registry]
      switches := by rw [hframe₁.switches, hframe₂.switches, hr.switches]
      autoFix := by rw [hframe₁.autoFix, hframe₂.autoFix, hr.autoFix]
      projects := Run.projects_ext (fun i => ?_) fun s =>
        h₁.isPass.file?_eq_of_perm h₂.isPass hw hw₂ hr.file?_eq hperm s
      statuses := by rw [hframe₁.statuses, hframe₂.statuses, hr.statuses]
      slots := by rw [hframe₁.slots, hframe₂.slots, hr.slots]
      cache := cache_eq hr h₁ h₂ hw hd ho hperm
      cancelled := by rw [h₁.cancelled, h₂.cancelled, hr.cancelled, any_eq_of_perm hperm]
      pass := by rw [hframe₁.pass, hframe₂.pass, hr.pass]
      incomplete := ?_
      fatal := by rw [hf₁, hf₂]
      tally := ?_
      told := ?_ }
  · rw [hframe₁.shell, hframe₂.shell, hr.shell?_eq]
  · rw [Bool.eq_iff_iff, (h₁.isPass.sound hw.hasFiles).incomplete_iff h₁.isPass.isOver,
      (h₂.isPass.sound hw₂.hasFiles).incomplete_iff h₂.isPass.isOver]
    simp only [HasDeferred, hperm.mem_iff]
  · rw [(h₁.isPass.works hw).tally_eq, (h₂.isPass.works hw₂).tally_eq, hr.tally]
    exact Run.foldl_count_perm hperm _
  · rw [h₁.told_eq, h₂.told_eq]
    exact hr.told.append (hperm.flatMap_right _)

end Pool.IsQuietPass

/-! ## Two runs -/

namespace Run

/-- What a run needs for its passes to depend on nothing but their work. -/
structure Separate (r : Run) : Prop where
  wellPlaced : r.WellPlaced
  distinctKeys : r.DistinctKeys
  ordered : ∀ c, r.cache = some c → Record.IsOrdered c.document.files
  fatal : r.fatal = none

/-- A pass that is not aborted keeps it so. -/
theorem Separate.next {r : Run} {p : Pool} (h : r.Separate) (hp : p.IsPass r)
    (hf : p.run.fatal = none) : p.run.settle.next.Separate where
  wellPlaced := wellPlaced_next (hp.wellPlaced h.wellPlaced)
  distinctKeys := (hp.frame h.wellPlaced).distinctKeys h.distinctKeys
  fatal := hf
  ordered c' hc' := by
    have hworks := hp.works h.wellPlaced
    obtain ⟨c, hc⟩ : ∃ c, r.cache = some c := by
      rw [← Option.isSome_iff_exists, ← hworks.isSome_cache]
      exact Option.isSome_iff_exists.mpr ⟨c', hc'⟩
    obtain ⟨c'', hc'', -, -, -, ho, -⟩ :=
      hworks.cache_eq (hp.handled_nodup h.wellPlaced) h.distinctKeys hc
    obtain rfl := Option.some.inj (hc'.symm.trans hc'')
    exact ho (h.ordered c hc)

/-- **Two passes are both aborted, or leave the same run**, up to the order of what was told. -/
theorem Separate.pass_cases {r₁ r₂ : Run} {p₁ p₂ : Pool} (h : r₁.Separate) (hr : r₁.Alike r₂)
    (h₁ : p₁.IsQuietPass r₁) (h₂ : p₂.IsQuietPass r₂) :
    (p₂.run.fatal = none ∧ p₁.run.Alike p₂.run) ∨
      (p₁.run.fatal.isSome ∧ p₂.run.fatal.isSome) := by
  have hiff₁ := h₁.isPass.isSome_fatal_iff h.wellPlaced h.distinctKeys h.fatal
  have hiff₂ := h₂.isPass.isSome_fatal_iff (hr.wellPlaced h.wellPlaced)
    (hr.distinctKeys h.distinctKeys) (hr.fatal.trans h.fatal)
  rw [hr.workload_eq, ← hiff₁] at hiff₂
  cases hf₁ : p₁.run.fatal with
  | some e =>
    rw [hf₁] at hiff₂
    exact .inr ⟨rfl, hiff₂.mpr rfl⟩
  | none =>
    have hf₂ : p₂.run.fatal = none := by
      rw [← Option.not_isSome_iff_eq_none, hiff₂, hf₁]
      exact Bool.noConfusion
    exact .inl ⟨hf₂, Pool.IsQuietPass.alike hr h₁ h₂ h.wellPlaced h.distinctKeys h.ordered hf₁ hf₂⟩

/-- **Passes over runs that are alike end alike**: either both are aborted, or both have the
same result and leave runs that are alike. -/
theorem Passes.alike {sweep₁ sweep₂ : Run → Pool} {r₁ r₂ r₁' r₂' : Run} {log₁ log₂ : List Pool}
    {res₁ res₂ : Except AddInError PassResult} (h₁ : Passes sweep₁ r₁ log₁ r₁' res₁)
    (h₂ : Passes sweep₂ r₂ log₂ r₂' res₂) (hs₁ : ∀ r, r.WellPlaced → (sweep₁ r).IsQuietPass r)
    (hs₂ : ∀ r, r.WellPlaced → (sweep₂ r).IsQuietPass r) (hr : r₁.Alike r₂) (h : r₁.Separate) :
    (∃ res, res₁ = .ok res ∧ res₂ = .ok res ∧ r₁'.Alike r₂') ∨
      (∃ e₁ e₂, res₁ = .error e₁ ∧ res₂ = .error e₂) := by
  have hcases := h.pass_cases hr (hs₁ r₁ h.wellPlaced) (hs₂ r₂ (hr.wellPlaced h.wellPlaced))
  -- the second run is led into the case of the first one by what they have in common
  induction h₁ generalizing r₂ log₂ with
  | @cancelled r₁ hc =>
    obtain ⟨-, rfl, rfl⟩ := h₂.unique (.cancelled (hr.cancelled.trans hc))
    exact .inl ⟨_, rfl, by rw [hr.pass], hr⟩
  | @aborted r₁ e hc hf =>
    rcases hcases with ⟨hf₂, halike⟩ | ⟨-, hsome⟩
    · rw [halike.fatal, hf] at hf₂
      cases hf₂
    · obtain ⟨e₂, hf₂⟩ := Option.isSome_iff_exists.mp hsome
      obtain ⟨-, -, rfl⟩ := h₂.unique (.aborted (hr.cancelled.trans hc) hf₂)
      exact .inr ⟨e, e₂, rfl, rfl⟩
  | @converged r₁ hc hf hi =>
    obtain ⟨hf₂, halike⟩ := hcases.resolve_right (by simp [hf])
    obtain ⟨-, rfl, rfl⟩ := h₂.unique
      (.converged (hr.cancelled.trans hc) hf₂ (halike.incomplete.trans hi))
    exact .inl ⟨_, rfl, by rw [halike.pass], halike.settle⟩
  | @limit r₁ hc hf hi hl =>
    obtain ⟨hf₂, halike⟩ := hcases.resolve_right (by simp [hf])
    obtain ⟨-, rfl, rfl⟩ := h₂.unique
      (.limit (hr.cancelled.trans hc) hf₂ (halike.incomplete.trans hi) (halike.pass ▸ hl))
    exact .inl ⟨_, rfl, rfl, halike.settle.emit _⟩
  | @next r₁ r' log res hc hf hi hl hrest ih =>
    obtain ⟨hf₂, halike⟩ := hcases.resolve_right (by simp [hf])
    obtain ⟨rest, -, hrest₂⟩ := h₂.exists_rest (hr.cancelled.trans hc) hf₂
      (halike.incomplete.trans hi) (halike.pass ▸ hl)
    have hnext := h.next (hs₁ r₁ h.wellPlaced).isPass hf
    exact ih hrest₂ halike.next hnext
      (hnext.pass_cases halike.next (hs₁ _ hnext.wellPlaced)
        (hs₂ _ (halike.next.wellPlaced hnext.wellPlaced)))

end Run

end StyleEngine
