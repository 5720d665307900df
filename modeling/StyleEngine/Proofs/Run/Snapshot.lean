import StyleEngine.Proofs.Cache.Entries
import StyleEngine.Proofs.Run.Passes

/-! # A pass seen from its start

The work on a file reads of the cache what stands under the key of the file, and
changes nothing else in it.  If no two files have the same key, what comes of a
file in a pass is therefore what would have come of it at the start of the pass
(`Run.Works.result?_eq`), and so is what the pass leaves under its key.
-/
namespace StyleEngine

/-! ## The cache after work on a file -/

namespace Processed

/-- What stands under the key of a file after work on it. -/
def entryAt? (p : Processed) (j : FileJob) (old : Option FileEntry) : Option FileEntry :=
  match p.change with
  | .keep => old
  | .save => some
    (Cache.entryFor j.context.project p.file j.status.settingsDigest p.file.violations)
  | .drop => none

/-- Whether work on a file changes what stands under its key. -/
def dirties (p : Processed) (j : FileJob) (old : Option FileEntry) : Bool :=
  match p.change with
  | .keep => false
  | .save => !(old.any fun e => e.agrees
    (Cache.entryFor j.context.project p.file j.status.settingsDigest p.file.violations))
  | .drop => old.isSome

end Processed

/-- The cached violations that may stand for the analysis of a file, given the entry under its
key. -/
def FileJob.cachedFrom (j : FileJob) (entry : Option FileEntry) (f : SourceFile) :
    Option (List Violation) :=
  if j.usesCache then entry.bind fun e =>
    if Cache.isCurrent e j.context.project f j.status.settingsDigest then some e.violations
    else none
  else none

theorem FileJob.cachedFrom_eq_some {j : FileJob} {entry : Option FileEntry} {f : SourceFile}
    {vs : List Violation} (h : j.cachedFrom entry f = some vs) :
    ∃ e, entry = some e ∧
      Cache.isCurrent e j.context.project f j.status.settingsDigest = true ∧ e.violations = vs := by
  rw [cachedFrom] at h
  split at h
  · obtain ⟨e, he, hcur⟩ := Option.bind_eq_some_iff.mp h
    split at hcur
    · next hcurrent => exact ⟨e, he, hcurrent, Option.some.inj hcur⟩
    · cases hcur
  · cases h

namespace Cache

variable (c : Cache) (j : FileJob) (p : Processed)

theorem entryAt?_change (key : String) : (c.change j p).entryAt? key =
    if key = p.file.path.cacheKey then p.entryAt? j (c.entryAt? key) else c.entryAt? key := by
  cases hc : p.change with
  | keep => simp only [change, Processed.entryAt?, hc, ite_self]
  | save => simpa only [change, Processed.entryAt?, hc, saveFile] using c.entryAt?_putEntry ..
  | drop => simpa only [change, Processed.entryAt?, hc] using c.entryAt?_removeFile ..

theorem dirty_change : (c.change j p).dirty =
    (c.dirty || p.dirties j (c.entryAt? p.file.path.cacheKey)) := by
  cases hc : p.change with
  | keep => simp only [change, Processed.dirties, hc, Bool.or_false]
  | save => simp only [change, Processed.dirties, hc]; rfl
  | drop => simp only [change, Processed.dirties, hc]; rfl

/-- What work on files does not touch in a cache. -/
theorem change_rest : (c.change j p).store = c.store ∧
    (c.change j p).document.version = c.document.version ∧
    (c.change j p).document.projects = c.document.projects := by
  simp only [change]
  split <;> exact ⟨rfl, rfl, rfl⟩

variable {c} in
theorem isOrdered_change (h : Record.IsOrdered c.document.files) :
    Record.IsOrdered (c.change j p).document.files := by
  simp only [change]
  split
  · exact h
  · exact Record.isOrdered_insertSorted _ _ h
  · exact Record.isOrdered_filter _ h

variable {j p} in
/-- **Work on a file keeps a property of all entries** if the entry that it saves has it. -/
theorem EachEntry.change {P : Path → FileEntry → Prop} {cache : Option Cache}
    (h : EachEntry P cache) (hsave : p.change = .save → P p.file.path
      (entryFor j.context.project p.file j.status.settingsDigest p.file.violations)) :
    EachEntry P (cache.map fun c => c.change j p) := by
  intro path e he
  obtain ⟨c', hc', he⟩ := Option.bind_eq_some_iff.mp he
  obtain ⟨c, rfl, rfl⟩ := Option.map_eq_some_iff.mp hc'
  have hold (path : Path) (e : FileEntry) (he : c.entryAt? path.cacheKey = some e) : P path e :=
    h path e he
  rw [entryAt?_change] at he
  split at he
  · next hkey =>
    obtain rfl := Path.cacheKey_inj hkey
    unfold Processed.entryAt? at he
    split at he
    · exact hold _ e he
    · next hs =>
      obtain rfl := Option.some.inj he
      exact hsave hs
    · cases he
  · exact hold path e he

end Cache

namespace Run

/-- The entry of a file under a key, in the cache of a run. -/
def entryAt? (r : Run) (key : String) : Option FileEntry := r.cache.bind fun c => c.entryAt? key

theorem cached?_eq (r : Run) (j : FileJob) (f : SourceFile) :
    r.cached? j f = j.cachedFrom (r.entryAt? f.path.cacheKey) f := by
  simp only [cached?, entryAt?, FileJob.cachedFrom]
  cases r.cache with
  | none => rfl
  | some c => simp only [Option.bind_some, Cache.loadFile?_eq]

/-- What comes of a file depends on the entry under its key. -/
theorem outcome_congr {r r' : Run} {q : Project} {status : Option ProjectStatus} {f : SourceFile}
    (hjob : ∀ st, r'.job q st = r.job q st)
    (hentry : r'.entryAt? f.path.cacheKey = r.entryAt? f.path.cacheKey) :
    r'.outcome q status f = r.outcome q status f := by
  cases status with
  | none => simp only [outcome, hjob]
  | some st => simp only [outcome, hjob, cached?_eq, hentry]

/-- Whether no two files have the same key. -/
def DistinctKeys (r : Run) : Prop :=
  ∀ s s' f f', r.file? s = some f → r.file? s' = some f' →
    f.path.cacheKey = f'.path.cacheKey → s = s'

/-- Runs with files at the same paths have distinct keys both or neither. -/
theorem DistinctKeys.of_path {r r' : Run} (hd : r.DistinctKeys)
    (h : ∀ s, (r'.file? s).map SourceFile.path = (r.file? s).map SourceFile.path) :
    r'.DistinctKeys := by
  have hold {s : Slot} {f : SourceFile} (hf : r'.file? s = some f) :
      ∃ g, r.file? s = some g ∧ g.path = f.path := by
    have hpath := h s
    rw [hf, Option.map_some] at hpath
    exact Option.map_eq_some_iff.mp hpath.symm
  intro s s' f f' hf hf' hkey
  obtain ⟨g, hg, hpath⟩ := hold hf
  obtain ⟨g', hg', hpath'⟩ := hold hf'
  exact hd s s' g g' hg hg' (by rw [hpath, hpath', hkey])

theorem path_of_name {r r' : Run} {s : Slot}
    (h : (r'.file? s).map (fun f => (f.path, f.digest)) =
      (r.file? s).map fun f => (f.path, f.digest)) :
    (r'.file? s).map SourceFile.path = (r.file? s).map SourceFile.path := by
  have hfst := congrArg (Option.map Prod.fst) h
  rw [Option.map_map, Option.map_map] at hfst
  exact hfst

theorem SameFrame.distinctKeys {r r' : Run} (h : r.SameFrame r') (hd : r.DistinctKeys) :
    r'.DistinctKeys := hd.of_path fun s => path_of_name (h.name s)

namespace Works

variable {r r' : Run} {hs : List Handled}

/-- The results of work on files have the paths of the files. -/
theorem path_eq (h : r.Works hs r') (hnd : (hs.map Handled.slot).Nodup) {x : Handled}
    (hx : x ∈ hs) : ∃ f, r.file? x.slot = some f ∧ x.result.file.path = f.path := by
  obtain ⟨q, f, cache, -, hf, hres⟩ := h.result_eq hnd hx
  exact ⟨f, hf, by rw [hres]; exact (outcome_identity ..).1⟩

/-- Under a key of no file that was worked on stands what stood there. -/
theorem entryAt?_of_ne (h : r.Works hs r') {key : String}
    (hk : ∀ x ∈ hs, x.result.file.path.cacheKey ≠ key) : r'.entryAt? key = r.entryAt? key := by
  induction h with
  | start => rfl
  | shift _ hw ih => rw [← ih hk, entryAt?, entryAt?, hw.cache]
  | @work hs r₁ r₂ s p _ hp ih =>
    obtain ⟨q, f, -, -, -, rfl⟩ := process_eq_some hp
    rw [← ih fun x hx => hk x (List.mem_append_left _ hx)]
    have hne := hk ⟨s, p⟩ (by simp)
    simp only [entryAt?, absorb]
    cases r₁.cache with
    | none => rfl
    | some c =>
      rw [Option.map_some, Option.bind_some, Option.bind_some, Cache.entryAt?_change,
        if_neg (Ne.symm hne)]

/-- **One more slot that is worked on**: what comes of its file is what would have come of it
at first, and no other work has touched what stands under its key. -/
theorem process_eq {r₁ r₂ : Run} {s : Slot} {p : Processed} (h : r.Works hs r₁)
    (hp : r₁.process s = (r₂, some p)) (hnd : ((hs ++ [Handled.mk s p]).map Handled.slot).Nodup)
    (hd : r.DistinctKeys) :
    ∃ j, r.result? s = some (j, p) ∧ r₂ = r₁.absorb s j p ∧
      (∀ y ∈ hs, y.result.file.path.cacheKey ≠ p.file.path.cacheKey) ∧
      r₁.entryAt? p.file.path.cacheKey = r.entryAt? p.file.path.cacheKey := by
  rw [List.map_append, List.nodup_append] at hnd
  obtain ⟨hnd₁, -, hdis⟩ := hnd
  obtain ⟨q, f, hq, hf, hres, hrun⟩ := process_eq_some hp
  have hf₀ : r.file? s = some f := by
    rw [← h.file?_of_notMem fun hmem => hdis _ hmem _ (by simp) rfl]
    exact hf
  have hpath : p.file.path = f.path := by rw [hres]; exact (outcome_identity ..).1
  have hne (y : Handled) (hy : y ∈ hs) :
      y.result.file.path.cacheKey ≠ p.file.path.cacheKey := by
    intro hkey
    obtain ⟨g, hg, hpath'⟩ := h.path_eq hnd₁ hy
    rw [hpath, hpath'] at hkey
    exact hdis _ (List.mem_map_of_mem hy) _ (by simp) (hd _ _ g f hg hf₀ hkey)
  have hentry := h.entryAt?_of_ne hne
  have hsame : r₁.outcome q r₁.statuses[s.project]? f = r.outcome q r.statuses[s.project]? f := by
    rw [h.frame.statuses]
    exact outcome_congr (fun st => h.frame.job q st) (hpath ▸ hentry)
  rw [h.frame.shell] at hq
  rw [hsame] at hres hrun
  refine ⟨(r.outcome q r.statuses[s.project]? f).1, ?_, hrun, hne, hentry⟩
  rw [Run.result?_eq, hq, hf₀, hres]
  rfl

/-- **What comes of a file in a pass is what would have come of it at first**, if no two files
have the same key. -/
theorem result?_eq (h : r.Works hs r') (hnd : (hs.map Handled.slot).Nodup) (hd : r.DistinctKeys)
    {x : Handled} (hx : x ∈ hs) : ∃ j, r.result? x.slot = some (j, x.result) := by
  induction h with
  | start => cases hx
  | shift _ _ ih => exact ih hnd hx
  | @work hs r₁ r₂ s p hw hp ih =>
    rcases List.mem_append.mp hx with hx | hx
    · exact ih (hnd.sublist ((List.sublist_append_left ..).map _)) hx
    · obtain ⟨j, hj, -⟩ := hw.process_eq hp hnd hd
      obtain rfl := List.mem_singleton.mp hx
      exact ⟨j, hj⟩

/-- Under the key of a file that was worked on stands what the work on it leaves there. -/
theorem entryAt?_of_mem (h : r.Works hs r') (hnd : (hs.map Handled.slot).Nodup)
    (hd : r.DistinctKeys) (hc : r.cache.isSome) {x : Handled} (hx : x ∈ hs) {j : FileJob}
    (hj : r.result? x.slot = some (j, x.result)) :
    r'.entryAt? x.result.file.path.cacheKey =
      x.result.entryAt? j (r.entryAt? x.result.file.path.cacheKey) := by
  induction h with
  | start => cases hx
  | shift _ hw ih => rw [← ih hnd hx, entryAt?, entryAt?, hw.cache]
  | @work hs r₁ r₂ s p hw hp ih =>
    obtain ⟨j', hj', rfl, hne, hentry⟩ := hw.process_eq hp hnd hd
    obtain ⟨c₁, hc₁⟩ := Option.isSome_iff_exists.mp (hw.isSome_cache.trans hc)
    have habsorb (key : String) : (r₁.absorb s j' p).entryAt? key =
        if key = p.file.path.cacheKey then p.entryAt? j' (r₁.entryAt? key)
        else r₁.entryAt? key := by
      simp only [entryAt?, absorb, hc₁, Option.map_some, Option.bind_some, Cache.entryAt?_change]
    rw [habsorb]
    rcases List.mem_append.mp hx with hx | hx
    · rw [if_neg (hne x hx)]
      exact ih (hnd.sublist ((List.sublist_append_left ..).map _)) hx
    · obtain rfl := List.mem_singleton.mp hx
      obtain rfl : j' = j := (Prod.mk.inj (Option.some.inj (hj'.symm.trans hj))).1
      rw [if_pos rfl, hentry]

end Works

/-- Whether work on a slot changes what stands under the key of its file. -/
def dirtiedAt (r : Run) (s : Slot) : Bool :=
  (r.result? s).any fun (j, p) => p.dirties j (r.entryAt? p.file.path.cacheKey)

/-- **The cache after work on slots**: beside the entries of files, only its dirty marker is
another, if one of the entries is. -/
theorem Works.cache_eq {r r' : Run} {hs : List Handled} (h : r.Works hs r')
    (hnd : (hs.map Handled.slot).Nodup) (hd : r.DistinctKeys) {c : Cache} (hc : r.cache = some c) :
    ∃ c', r'.cache = some c' ∧ c'.store = c.store ∧ c'.document.version = c.document.version ∧
      c'.document.projects = c.document.projects ∧
      (Record.IsOrdered c.document.files → Record.IsOrdered c'.document.files) ∧
      c'.dirty = (c.dirty || hs.any fun x => r.dirtiedAt x.slot) := by
  induction h with
  | start => exact ⟨c, hc, rfl, rfl, rfl, id, by simp⟩
  | shift _ hw ih =>
    obtain ⟨c', hc', hrest⟩ := ih hnd
    exact ⟨c', hw.cache.trans hc', hrest⟩
  | @work hs r₁ r₂ s p hw hp ih =>
    obtain ⟨c₁, hc₁, hstore, hversion, hprojects, hordered, hdirty⟩ :=
      ih (hnd.sublist ((List.sublist_append_left ..).map _))
    obtain ⟨j, hj, rfl, -, hentry⟩ := hw.process_eq hp hnd hd
    obtain ⟨hs', hv', hp'⟩ := c₁.change_rest j p
    refine ⟨c₁.change j p, by simp only [absorb, hc₁, Option.map_some], hs'.trans hstore,
      hv'.trans hversion, hp'.trans hprojects, fun ho => Cache.isOrdered_change j p (hordered ho),
      ?_⟩
    have hnow : c₁.entryAt? p.file.path.cacheKey = r₁.entryAt? p.file.path.cacheKey := by
      rw [entryAt?, hc₁, Option.bind_some]
    rw [Cache.dirty_change, hdirty, hnow, hentry, List.any_append, Bool.or_assoc]
    simp [dirtiedAt, hj]

end Run

end StyleEngine
