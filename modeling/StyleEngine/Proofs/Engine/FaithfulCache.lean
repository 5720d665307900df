import StyleEngine.Proofs.Analysis.Recording
import StyleEngine.Proofs.Engine.Preparation

/-! # A cache that holds what would be found

Where text parsers and pattern analyzers are the only add-ins, every entry of the
cache holds what is found in a file with the entry's text under the entry's
settings and one of the roots under which its path is analyzed (`Realm.Vouches`), if
digests tell the texts and settings at hand apart.  Work on a file keeps this,
and one pass is enough for all files (`Realm.Opens.pass`).
-/
namespace StyleEngine

/-- What decides about rules in a project with a root, under settings. -/
def Registry.contextAt (r : Registry) (root : Path) (s : Settings) : FileContext :=
  { project := { root }, settings := s, ruleDefault := r.ruleDefault? }

/-- What is found in a text at a path, under the root of a project and settings. -/
def Registry.findingsAt (r : Registry) (root : Path) (s : Settings) (path : Path)
    (text : String) : List Violation :=
  r.findings (r.contextAt root s) path (TextModel.ofText text)

/-- What runs are about: the roots under which a path is analyzed, the texts and the settings. -/
structure Realm where
  IsRoot : Path → Path → Prop
  IsText : String → Prop
  IsSettings : Settings → Prop

namespace Realm

/-- Whether digests tell the texts and the settings apart. -/
structure CollisionFree (ρ : Realm) : Prop where
  text : ∀ t t', ρ.IsText t → ρ.IsText t' → Digest.ofText t = Digest.ofText t' → t = t'
  settings : ∀ s s', ρ.IsSettings s → ρ.IsSettings s' → s.digest = s'.digest → s = s'

/-- Whether a cache holds for each path what is found in a text under a root and settings; the
entry has the digests of the text and the settings. -/
def Vouches (ρ : Realm) (r : Registry) (cache : Option Cache) : Prop :=
  Cache.EachEntry (fun path e => ∃ root text s, ρ.IsRoot root path ∧ ρ.IsText text ∧
    ρ.IsSettings s ∧ e.contentDigest = Digest.ofText text ∧ e.settingsDigest = s.digest ∧
    e.violations = r.findingsAt root s path text) cache

/-- Whether a digest is that of a text with the same model as a given one. -/
def Knows (ρ : Realm) (digest text : String) : Prop :=
  ∃ t₀, ρ.IsText t₀ ∧ digest = Digest.ofText t₀ ∧ TextModel.ofText t₀ = TextModel.ofText text

/-! ## One file -/

/-- A file of a project before a run: it is reset and has a digest that is known, its project is
at a root of the file, and the status of the project is that of its settings. -/
structure Awaits (ρ : Realm) (q : Project) (status : ProjectStatus) (f : SourceFile)
    (text : String) : Prop where
  reset : f.IsReset text
  digest : ρ.Knows f.digest text
  root : ρ.IsRoot q.root f.path
  settings : ρ.IsSettings q.effectiveSettings
  status : status.settingsDigest = q.effectiveSettings.digest

variable {ρ : Realm} {r : Run} {q : Project} {status : ProjectStatus} {f : SourceFile}
  {text : String}

namespace Awaits

/-- An entry that is current for a file holds what is found in the file under one of its
roots. -/
theorem cached (h : ρ.Awaits q status f text) (hcf : ρ.CollisionFree)
    (hc : ρ.Vouches r.registry r.cache) {vs : List Violation}
    (hvs : r.cached? (r.job q status) f = some vs) :
    ∃ root, ρ.IsRoot root f.path ∧
      vs = r.registry.findingsAt root q.effectiveSettings f.path text := by
  obtain ⟨t₀, ht₀, hdigest, hmodel⟩ := h.digest
  rw [Run.cached?_eq] at hvs
  obtain ⟨e, he, hcurrent, rfl⟩ := FileJob.cachedFrom_eq_some hvs
  obtain ⟨root, t₁, s₁, hroot, ht₁, hs₁, hcontent, hsettings, hviolations⟩ := hc f.path e he
  simp only [Cache.isCurrent, Bool.and_eq_true, beq_iff_eq] at hcurrent
  obtain ⟨⟨hcontent', hsettings'⟩, -⟩ := hcurrent
  have htext : t₁ = t₀ := hcf.text _ _ ht₁ ht₀ (by rw [← hcontent, hcontent', hdigest])
  have hset : s₁ = q.effectiveSettings :=
    hcf.settings _ _ hs₁ h.settings (by rw [← hsettings, hsettings', ← h.status]; rfl)
  refine ⟨root, hroot, ?_⟩
  rw [hviolations, htext, hset, Registry.findingsAt, hmodel]
  rfl

/-- **What comes of a file at a faithful cache** is what is found in it under one of its
roots. -/
theorem finds (h : ρ.Awaits q status f text) (hcf : ρ.CollisionFree)
    (hr : r.registry.IsBuiltin) (hc : ρ.Vouches r.registry r.cache) :
    ∃ root, ρ.IsRoot root f.path ∧
      ((r.job q status).process (r.cached? (r.job q status) f) f).Finds text
        (r.registry.findingsAt root q.effectiveSettings f.path text) := by
  cases hcached : r.cached? (r.job q status) f with
  | none =>
    -- the file is analyzed, under the root of its project
    have hlike : (r.job q status).context.DecidesLike
        (r.registry.contextAt q.root q.effectiveSettings) := ⟨rfl, rfl, rfl⟩
    refine ⟨q.root, h.root, ?_⟩
    rw [Registry.findingsAt, ← hlike.findings]
    exact FileJob.process_finds hr h.reset fun vs hvs => nomatch (hvs : none = some vs)
  | some vs =>
    obtain ⟨root, hroot, rfl⟩ := h.cached hcf hc hcached
    exact ⟨root, hroot, FileJob.process_serves h.reset (Registry.noRepeats_findings ..)⟩

/-- **The work on a file keeps the cache faithful.** -/
theorem vouches (h : ρ.Awaits q status f text) (hc : ρ.Vouches r.registry r.cache) {p : Processed}
    {root : Path} (hroot : ρ.IsRoot root f.path)
    (hp : p.Finds text (r.registry.findingsAt root q.effectiveSettings f.path text))
    (hpath : p.file.path = f.path) (hdigest : p.file.digest = f.digest) :
    ρ.Vouches r.registry (r.cache.map fun c => c.change (r.job q status) p) := by
  obtain ⟨t₀, ht₀, hdigest₀, hmodel⟩ := h.digest
  refine Cache.EachEntry.change hc ?_
  intro hsave
  refine ⟨root, t₀, q.effectiveSettings, hpath ▸ hroot, ht₀, h.settings,
    hdigest.trans hdigest₀, h.status, ?_⟩
  have hviolations := hp.violations (hp.saved hsave)
  rw [Registry.findingsAt, ← hmodel] at hviolations
  rw [hpath]
  exact hviolations

end Awaits

/-! ## One pass -/

/-- A run at its start: its files are ready for it and its cache is faithful. -/
structure Opens (ρ : Realm) (r : Run) : Prop where
  registry : r.registry.IsBuiltin
  cache : ρ.Vouches r.registry r.cache
  file : ∀ s q f, r.shell? s.project = some q → r.file? s = some f →
    ∃ status text, r.statuses[s.project]? = some status ∧ ρ.Awaits q status f text

/-- What became of a file of a project in a run. -/
structure Settles (ρ : Realm) (r : Registry) (q : Project) (f f' : SourceFile) : Prop where
  path : f'.path = f.path
  digest : f'.digest = f.digest
  violations : ∀ text, f.text = some text → f'.modified = false → ∃ root, ρ.IsRoot root f.path ∧
    f'.violations = r.findingsAt root q.effectiveSettings f.path text
  source : ∀ text, f.text = some text → ∃ text', f'.sourceText? = some text' ∧
    (f'.modified = false → TextModel.ofText text' = TextModel.ofText text)

namespace Opens

/-- What comes of a file in a pass, whatever faithful cache it meets. -/
theorem outcome (h : ρ.Opens r) (hcf : ρ.CollisionFree) {s : Slot} {q : Project} {f : SourceFile}
    {cache : Option Cache} (hq : r.shell? s.project = some q) (hf : r.file? s = some f)
    (hc : ρ.Vouches r.registry cache) :
    (∃ text root, f.text = some text ∧ ρ.IsRoot root f.path ∧
      ({ r with cache }.outcome q r.statuses[s.project]? f).2.Finds text
        (r.registry.findingsAt root q.effectiveSettings f.path text)) ∧
    ρ.Vouches r.registry (cache.map fun c =>
      c.change ({ r with cache }.outcome q r.statuses[s.project]? f).1
        ({ r with cache }.outcome q r.statuses[s.project]? f).2) := by
  obtain ⟨status, text, hstatus, hawaits⟩ := h.file s q f hq hf
  obtain ⟨hpath, hdigest⟩ := { r with cache }.outcome_identity q r.statuses[s.project]? f
  obtain ⟨root, hroot, hfinds⟩ := hawaits.finds (r := { r with cache }) hcf h.registry hc
  rw [hstatus] at hpath hdigest ⊢
  exact ⟨⟨text, root, hawaits.reset.text, hroot, hfinds⟩,
    hawaits.vouches (r := { r with cache }) hc hroot hfinds hpath hdigest⟩

/-- **One pass is enough**: it finishes every file, records what is found in it under one of its
roots unless it changes it, and leaves a faithful cache. -/
theorem pass (h : ρ.Opens r) (hcf : ρ.CollisionFree) (hr : r.WellPlaced) (hfatal : r.fatal = none)
    {p : Pool} (hp : p.IsPass r) :
    ρ.Vouches r.registry p.run.cache ∧ p.run.fatal = none ∧ p.run.incomplete = false ∧
      ∀ s f', p.run.file? s = some f' → ∃ q f, r.shell? s.project = some q ∧
        r.file? s = some f ∧ ρ.Settles r.registry q f f' ∧
        (r.autoFix = false → f'.modified = false) := by
  obtain ⟨hcache, hres⟩ := (hp.works hr).keeps_cache (hp.handled_nodup hr) h.cache
    fun s q f cache hq hf hc => (h.outcome hcf hq hf hc).2
  -- whatever the cache was when a file was worked on, it was faithful
  have hfinds (x : Handled) (hx : x ∈ p.handled) : ∃ text vs, x.result.Finds text vs := by
    obtain ⟨q, f, cache, hq, hf, hc, hxr⟩ := hres x hx
    obtain ⟨text, root, -, -, hout⟩ := (h.outcome hcf hq hf hc).1
    exact ⟨text, _, by rw [hxr]; exact hout⟩
  have hnone : p.run.fatal = none := by
    rw [(hp.works hr).fatal, hfatal, Option.none_or, List.findSome?_eq_none_iff]
    intro x hx
    obtain ⟨text, vs, hx⟩ := hfinds x hx
    exact hx.fatal
  refine ⟨hcache, hnone, ?_, ?_⟩
  · refine Bool.eq_false_iff.mpr ?_
    intro hinc
    obtain ⟨s, f', hf', hundone⟩ := (hp.incomplete_iff hr hnone).mp hinc
    obtain ⟨x, hx, rfl, rfl⟩ := hp.exists_handled hr hnone hf'
    obtain ⟨text, vs, hxf⟩ := hfinds x hx
    rw [(hp.done_iff hr hx).mpr hxf.outcome] at hundone
    cases hundone
  · intro s f' hf'
    obtain ⟨x, hx, rfl, rfl⟩ := hp.exists_handled hr hnone hf'
    obtain ⟨q, f, cache, hq, hf, hc, hxr⟩ := hres x hx
    obtain ⟨text, root, htext, hroot, hout⟩ := (h.outcome hcf hq hf hc).1
    obtain ⟨hpath, hdigest⟩ := { r with cache }.outcome_identity q r.statuses[x.slot.project]? f
    rw [hxr]
    refine ⟨q, f, hq, hf, ⟨hpath, hdigest, ?_, ?_⟩, ?_⟩
    · intro text' htext' hno
      obtain rfl := Option.some.inj (htext.symm.trans htext')
      exact ⟨root, hroot, hout.violations hno⟩
    · intro text' htext'
      obtain rfl := Option.some.inj (htext.symm.trans htext')
      exact hout.source
    · intro hfix
      obtain ⟨status, _, hstatus, hawaits⟩ := h.file _ q f hq hf
      rw [hstatus, ← hawaits.reset.modified]
      exact FileJob.process_modified (j := ({ r with cache } : Run).job q status) hfix ..

/-- The passes of a run are one pass. -/
theorem passes (h : ρ.Opens r) (hcf : ρ.CollisionFree) (hr : r.WellPlaced)
    (hfatal : r.fatal = none) (hcancel : r.cancelled = false) {sweep : Run → Pool}
    (hs : ∀ r, r.WellPlaced → (sweep r).IsPass r) {log : List Pool} {r' : Run}
    {result : Except AddInError PassResult} (hp : Run.Passes sweep r log r' result) :
    r' = (sweep r).run.settle ∧ ∃ res, result = .ok res := by
  obtain ⟨-, hnone, hcomplete, -⟩ := h.pass hcf hr hfatal (hs r hr)
  obtain ⟨-, rfl, rfl⟩ := hp.unique (.converged hcancel hnone hcomplete)
  exact ⟨rfl, _, rfl⟩

end Opens

end Realm

end StyleEngine
