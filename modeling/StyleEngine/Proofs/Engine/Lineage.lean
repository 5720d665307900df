import StyleEngine.Proofs.Engine.Preparation

/-! # Where entries come from

Results are stored for files that a parser has read.  So if an engine has started
with an empty cache and kept its add-ins, every entry of a file was made under
settings that leave a parser of the file on (`Cache.IsEarned`), whatever the runs
were that the engine has made (`Engine.HasRun`).
-/
namespace StyleEngine

/-- Whether every entry of a cache was made under settings that leave a parser of the file on. -/
def Cache.IsEarned (r : Registry) (S : Settings → Prop) (cache : Option Cache) : Prop :=
  Cache.EachEntry (fun path e => ∃ s, S s ∧ e.settingsDigest = s.digest ∧
    (r.reader? s path).isSome = true) cache

/-- Whether the statuses of projects have the digests of their settings. -/
def Run.UnderSettings (S : Settings → Prop) (r : Run) : Prop :=
  ∀ i q st, r.shell? i = some q → r.statuses[i]? = some st →
    S q.effectiveSettings ∧ st.settingsDigest = q.effectiveSettings.digest

/-- Results are saved only if a parser has read the file. -/
theorem FileJob.isSome_reader?_of_save {j : FileJob} {cached : Option (List Violation)}
    {f : SourceFile} (h : (j.process cached f).change = .save) :
    (j.registry.reader? j.context.settings f.path).isSome = true := by
  rcases j.process_cases cached f with ⟨-, hp⟩ | ⟨-, -, hp, -⟩ | ⟨-, vs, -, hp⟩ |
    ⟨-, -, e, he, hon, -⟩
  · rw [hp] at h
    cases h
  · rw [hp] at h
    cases h
  · rw [hp] at h
    cases h
  · rw [reader?_of_parserOf? he hon]
    rfl

namespace Run

variable {S : Settings → Prop} {r r' : Run}

/-- The work on a file keeps entries earned. -/
theorem UnderSettings.outcome (h : r.UnderSettings S) {s : Slot} {q : Project} (f : SourceFile)
    {cache : Option Cache} (hq : r.shell? s.project = some q)
    (hc : Cache.IsEarned r.registry S cache) :
    Cache.IsEarned r.registry S (cache.map fun c =>
      c.change ({ r with cache }.outcome q r.statuses[s.project]? f).1
        ({ r with cache }.outcome q r.statuses[s.project]? f).2) := by
  refine hc.change ?_
  intro hsave
  rcases ({ r with cache }.outcome_cases q r.statuses[s.project]? f) with ⟨st, hst, hout⟩ |
    ⟨-, hout⟩
  · rw [hout] at hsave ⊢
    obtain ⟨hS, hdigest⟩ := h _ q st hq hst
    refine ⟨q.effectiveSettings, hS, hdigest, ?_⟩
    rw [(FileJob.process_identity ..).1]
    exact FileJob.isSome_reader?_of_save hsave
  · rw [hout] at hsave
    cases hsave

theorem UnderSettings.pass (h : r.UnderSettings S) (hr : r.WellPlaced) {p : Pool}
    (hp : p.IsPass r) (hc : Cache.IsEarned r.registry S r.cache) :
    p.run.UnderSettings S ∧ Cache.IsEarned p.run.registry S p.run.cache := by
  have hframe := hp.frame hr
  refine ⟨?_, ?_⟩
  · intro i q st hq hst
    rw [hframe.shell] at hq
    rw [hframe.statuses] at hst
    exact h i q st hq hst
  · rw [hframe.registry]
    exact ((hp.works hr).keeps_cache (hp.handled_nodup hr) hc
      fun s q f cache hq _ hc => h.outcome f hq hc).1

theorem UnderSettings.settle (h : r.UnderSettings S) : r.settle.UnderSettings S := by
  intro i q st hq hst
  obtain ⟨st₀, hst₀, heq⟩ := settle_statuses hst
  rw [heq]
  exact h i q st₀ hq hst₀

/-- **Passes keep entries earned**, however they end. -/
theorem Passes.isEarned {sweep : Run → Pool} {log : List Pool}
    {result : Except AddInError PassResult} (h : Passes sweep r log r' result)
    (hs : ∀ r, r.WellPlaced → (sweep r).IsPass r) (hr : r.WellPlaced) (hu : r.UnderSettings S)
    (hc : Cache.IsEarned r.registry S r.cache) :
    r'.UnderSettings S ∧ Cache.IsEarned r'.registry S r'.cache := by
  exact h.keeps (P := fun r => r.UnderSettings S ∧ Cache.IsEarned r.registry S r.cache) hs hr
    ⟨hu, hc⟩ (fun r₁ hr₁ hP => hP.1.pass hr₁ (hs r₁ hr₁) hP.2)
    (fun _ hP => ⟨hP.1.settle, hP.2⟩) (fun _ hP => hP) (fun _ hP => hP)

end Run

namespace Engine

variable {S : Settings → Prop} {e : Engine} {sweep : Sweep} {t : FileTree} {switches : Switches}
  {mode : RunMode} {settingsPath : Option String} {projects : List Project}
  {r : Run}

/-- A run is made under the settings of its projects. -/
theorem Starts.underSettings (h : e.Starts t switches mode settingsPath projects r)
    (hset : ∀ p ∈ projects, ∀ s, e.settingsOf t (settingsPath.map Path.mk) p = .ok s → S s) :
    r.UnderSettings S := by
  intro i q st hq hst
  obtain ⟨p, hp, s, c, hs, rfl, hst', -⟩ := h.exists_status (Q := fun _ => True) trivial
    (fun _ _ _ _ _ _ => trivial) hq
  obtain rfl := Option.some.inj (hst.symm.trans hst')
  exact ⟨hset p hp s hs, rfl⟩

/-- What a run leaves in the cache is earned if what it found there was. -/
theorem Starts.isEarned (h : e.Starts t switches mode settingsPath projects r)
    (hs : sweep.Interleaves) (processors : Nat)
    (hset : ∀ p ∈ projects, ∀ s, e.settingsOf t (settingsPath.map Path.mk) p = .ok s → S s)
    (hc : Cache.IsEarned e.registry S e.cache) :
    (r.passLoop (e.sweepOf sweep processors r) maxPasses).1.UnderSettings S ∧
      Cache.IsEarned e.registry S
        (r.passLoop (e.sweepOf sweep processors r) maxPasses).1.cache := by
  have hpass := isPass_sweepOf hs e processors r
  have hpasses := h.fresh.passes hpass
  have hstart : Cache.IsEarned r.registry S r.cache := by
    rw [h.registry]
    exact hc.congr h.entryAt?_eq
  have hend := hpasses.isEarned hpass h.fresh.wellPlaced (h.underSettings hset) hstart
  rw [(hpasses.sameFiles hpass h.fresh.wellPlaced).registry, h.registry] at hend
  exact hend

/-- Engines that have run with the same add-ins, from an empty cache on, under some settings. -/
inductive HasRun (S : Settings → Prop) : Engine → Prop
  | start {e : Engine} (hc : ∀ c, e.cache = some c → c.document.files = []) : HasRun S e
  | run {e : Engine} (h : HasRun S e) {sweep : Sweep} (hs : sweep.Interleaves) (t : FileTree)
    (switches : Switches) (processors : Nat) (mode : RunMode) (settingsPath : Option String)
    (projects : List Project)
    (hset : ∀ p ∈ projects, ∀ s, e.settingsOf t (settingsPath.map Path.mk) p = .ok s → S s) :
    HasRun S (e.runWith sweep t switches processors mode settingsPath projects).engine

/-- **Every entry in the cache of an engine that has run is earned.** -/
theorem HasRun.isEarned (h : HasRun S e) : Cache.IsEarned e.registry S e.cache := by
  induction h with
  | start hc => exact Cache.eachEntry_of_files_eq_nil hc
  | @run e _ sweep hs t switches processors mode settingsPath projects hset ih =>
    rcases e.runWith_cases sweep t switches processors mode settingsPath projects with
      ⟨-, -, hengine, -⟩ | ⟨-, -, -, hregistry, hcache, -⟩ | ⟨-, -, -, hstart⟩
    · rw [hengine]
      exact ih
    · rw [hregistry, hcache]
      exact ih.congr fun key => entryAt?_prepare ..
    · have hregistry : (e.runWith sweep t switches processors mode settingsPath
          projects).engine.registry = e.registry := by rw [runWith_of_starts hstart]
      rw [hregistry]
      have hearned := (hstart.isEarned hs processors hset ih).2
      exact hearned.congr (Cache.entryAt?_congr (document_runWith hstart))

end Engine

end StyleEngine
