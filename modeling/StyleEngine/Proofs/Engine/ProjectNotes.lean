import StyleEngine.Proofs.Cache.Configuration
import StyleEngine.Proofs.Engine.Preparation

/-! # What the cache notes of projects

While projects are made ready, the cache notes under which flags and settings they
are analyzed.  What was noted last decides whether the entries of their files may
be used; projects with different keys do not get into each other's way, and the
work on files does not touch it.
-/
namespace StyleEngine

/-- Whether a cache notes that a project was analyzed under settings. -/
def Cache.Notes (cache : Option Cache) (p : ProjectInfo) (s : Settings) : Prop :=
  ∃ c, cache = some c ∧ c.document.projects.lookup p.cacheKey =
    some { configuration := p.fingerprint, settingsDigest := s.digest }

namespace Cache.Notes

variable {cache : Option Cache} {p : ProjectInfo} {s : Settings}

theorem isSome (h : Notes cache p s) : cache.isSome = true := by
  obtain ⟨c, rfl, -⟩ := h
  rfl

theorem congr {cache' : Option Cache} (h : Notes cache p s)
    (hc : cache'.map document = cache.map document) : Notes cache' p s := by
  obtain ⟨c, rfl, hlookup⟩ := h
  obtain ⟨c', rfl, heq⟩ := Option.map_eq_some_iff.mp hc
  exact ⟨c', rfl, by rw [heq, hlookup]⟩

/-- What is noted makes the results of a project with plain flags valid. -/
theorem isProjectValid (h : Notes cache p s) (hflags : ∀ flag ∈ p.flags, IsPlainFlag flag)
    (hnd : p.flags.Nodup) : ∃ c, cache = some c ∧ c.isProjectValid p s.digest = true := by
  obtain ⟨c, rfl, hlookup⟩ := h
  refine ⟨c, rfl, ?_⟩
  rw [Cache.isProjectValid, hlookup]
  simp [ProjectInfo.sameConfiguration_fingerprint hflags hnd]

end Cache.Notes

namespace Engine

variable {cache : Option Cache} {p : Project} {q : ProjectInfo} {s s' : Settings}

/-- What the cache has for projects after one was noted. -/
theorem lookup_noted {c : Cache} (hw : (p.writeCache && s.engine.writeCache) = true)
    (key : String) : ∃ c', noted (some c) p s = some c' ∧ c'.document.projects.lookup key =
      if key = p.cacheKey then
        some { configuration := p.fingerprint, settingsDigest := s.digest }
      else c.document.projects.lookup key := by
  rw [noted, if_pos hw, Option.map_some]
  exact ⟨_, rfl, Record.lookup_insertSorted ..⟩

theorem notes_noted (hc : cache.isSome = true)
    (hw : (p.writeCache && s.engine.writeCache) = true) :
    Cache.Notes (noted cache p s) p.toProjectInfo s := by
  obtain ⟨c, rfl⟩ := Option.isSome_iff_exists.mp hc
  obtain ⟨c', hc', hlookup⟩ := lookup_noted (c := c) hw p.cacheKey
  exact ⟨c', hc', by rw [hlookup, if_pos rfl]⟩

/-- Noting a project keeps what is noted of another, and what is noted already. -/
theorem notes_noted_of_notes (h : Cache.Notes cache q s')
    (hp : p.cacheKey ≠ q.cacheKey ∨ Cache.Notes cache p.toProjectInfo s) :
    Cache.Notes (noted cache p s) q s' := by
  obtain ⟨c, rfl, hlookup⟩ := h
  by_cases hw : (p.writeCache && s.engine.writeCache) = true
  · obtain ⟨c', hc', hlookup'⟩ := lookup_noted (c := c) hw q.cacheKey
    refine ⟨c', hc', ?_⟩
    rw [hlookup', hlookup]
    split
    · next hkey =>
      rcases hp with hne | ⟨c₀, hc₀, hold⟩
      · exact absurd hkey.symm hne
      · obtain rfl := Option.some.inj hc₀
        rw [← hold, ← hkey, hlookup]
    · rfl
  · rw [noted, if_neg hw]
    exact ⟨c, rfl, hlookup⟩

variable {e : Engine} {t : FileTree} {mode : RunMode} {path : Option Path} {before ready : Prepared}
  {ps : List Project}

/-- **The cache notes every project that is made ready**, if no two have the same key. -/
theorem Prepares.notes (h : e.Prepares t mode path before ps ready)
    (hnd : (ps.map fun p => p.cacheKey).Nodup) (hc : before.cache.isSome = true)
    (hw : ∀ p ∈ ps, ∀ s, e.settingsOf t path p = .ok s →
      (p.writeCache && s.engine.writeCache) = true) :
    ready.cache.isSome = true ∧
    (∀ q s, q.cacheKey ∉ ps.map (fun p => p.cacheKey) → Cache.Notes before.cache q s →
      Cache.Notes ready.cache q s) ∧
    ∀ p ∈ ps, ∀ s, e.settingsOf t path p = .ok s →
      Cache.Notes ready.cache p.toProjectInfo s := by
  induction h with
  | done => exact ⟨hc, fun _ _ _ h => h, fun p hp => absurd hp List.not_mem_nil⟩
  | @next before ready p ps s hs _ ih =>
    obtain ⟨hp, hps⟩ := List.nodup_cons.mp hnd
    have hnew : Cache.Notes (prepareUnder mode before p s).cache p.toProjectInfo s :=
      notes_noted hc (hw p List.mem_cons_self s hs)
    obtain ⟨hsome, hold, hall⟩ := ih hps hnew.isSome
      fun p' hp' => hw p' (List.mem_cons_of_mem _ hp')
    refine ⟨hsome, ?_, ?_⟩
    · intro q s' hq hnotes
      rw [List.map_cons, List.mem_cons, not_or] at hq
      exact hold q s' hq.2 (notes_noted_of_notes hnotes (.inl (Ne.symm hq.1)))
    · intro p' hp' s' hs'
      rcases List.mem_cons.mp hp' with rfl | hp'
      · obtain rfl := Except.ok.inj (hs.symm.trans hs')
        exact hold _ s hp hnew
      · exact hall p' hp' s' hs'

end Engine

/-- A property of the cache that the work on every file keeps is kept by passes. -/
theorem Run.Passes.keeps_cache {P : Option Cache → Prop} {sweep : Run → Pool} {r r' : Run}
    {log : List Pool} {result : Except AddInError PassResult} (h : Passes sweep r log r' result)
    (hs : ∀ r, r.WellPlaced → (sweep r).IsPass r) (hr : r.WellPlaced)
    (hstep : ∀ cache j p, P cache → P (cache.map fun c => c.change j p)) (hc : P r.cache) :
    P r'.cache := by
  refine h.keeps (P := fun r => P r.cache) hs hr hc ?_ (fun _ hc => hc) (fun _ hc => hc)
    (fun _ hc => hc)
  intro r₁ hr₁ hc
  exact (((hs r₁ hr₁).works hr₁).keeps_cache ((hs r₁ hr₁).handled_nodup hr₁) hc
    fun _ _ _ cache _ _ hc => hstep cache _ _ hc).1

/-- Passes keep what is noted of projects. -/
theorem Run.Passes.notes {sweep : Run → Pool} {r r' : Run} {log : List Pool}
    {result : Except AddInError PassResult} (h : Passes sweep r log r' result)
    (hs : ∀ r, r.WellPlaced → (sweep r).IsPass r) (hr : r.WellPlaced) {p : ProjectInfo}
    {s : Settings} (hn : Cache.Notes r.cache p s) : Cache.Notes r'.cache p s := by
  refine h.keeps_cache (P := fun cache => Cache.Notes cache p s) hs hr ?_ hn
  intro cache j x hc
  obtain ⟨c, rfl, hlookup⟩ := hc
  exact ⟨c.change j x, rfl, by rw [(c.change_rest j x).2.2, hlookup]⟩

end StyleEngine
