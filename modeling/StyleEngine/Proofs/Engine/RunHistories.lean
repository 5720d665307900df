import StyleEngine.Proofs.Engine.BuiltinRuns
import StyleEngine.Proofs.Engine.FaithfulCache

/-! # Histories of runs

A history of runs (`Realm.History`) keeps the cache faithful, whatever the runs do:
they may fix files, be refused, fail to read settings, write to the cache or not.
-/
namespace StyleEngine

/-! ## What holds between runs -/

namespace Realm

variable {ρ : Realm} {e : Engine} {ps rest : List Project} {sweep : Sweep} {t : FileTree}
  {switches : Switches} {processors : Nat} {mode : RunMode} {settingsPath : Option String}

/-- Whether the files of a project are analyzed under roots of theirs, and will have digests that
are known. -/
def Keeps (ρ : Realm) (p : Project) : Prop :=
  ∀ f ∈ p.files, ρ.IsRoot p.root f.path ∧
    ∃ text, f.sourceText? = some text ∧ ρ.Knows f.reset.digest text

/-- What holds of an engine and the projects that it has run over. -/
structure Covers (ρ : Realm) (e : Engine) (ps : List Project) : Prop where
  registry : e.registry.IsBuiltin
  cache : ρ.Vouches e.registry e.cache
  projects : ∀ p ∈ ps, ρ.Keeps p

theorem Covers.left (h : ρ.Covers e (ps ++ rest)) : ρ.Covers e ps :=
  ⟨h.registry, h.cache, fun p hp => h.projects p (List.mem_append_left _ hp)⟩

/-- Whether the settings of projects and the texts of their modified files are known. -/
def Includes (ρ : Realm) (ps : List Project) : Prop :=
  ∀ p ∈ ps, (∀ s, p.settings = some s → ρ.IsSettings s) ∧
    ∀ f ∈ p.files, f.modified = true → ∀ text, f.sourceText? = some text → ρ.IsText text

theorem Keeps.readied {p : Project} (h : ρ.Keeps p) (s : Settings) :
    ρ.Keeps (Engine.readied p s) := by
  intro f hf
  obtain ⟨f₀, hf₀, rfl⟩ := List.mem_map.mp hf
  obtain ⟨hroot, text, htext, hknown⟩ := h f₀ hf₀
  have hreset := SourceFile.isReset_reset htext
  refine ⟨hroot, text, ?_, hknown⟩
  rw [SourceFile.sourceText?, hreset.text]

theorem Covers.prepare (h : ρ.Covers e ps) (t : FileTree) (mode : RunMode) (path : Option Path) :
    (∀ p ∈ (e.busy.prepare t mode path { cache := e.cache } ps).1.projects, ρ.Keeps p) ∧
      ρ.Vouches e.registry (e.busy.prepare t mode path { cache := e.cache } ps).1.cache := by
  refine ⟨fun p hp => ?_, Cache.EachEntry.congr h.cache fun key => Engine.entryAt?_prepare ..⟩
  rcases Engine.mem_projects_prepare hp with hp | hp | ⟨p₀, hp₀, s, -, rfl⟩
  · cases hp
  · exact h.projects p hp
  · exact (h.projects p₀ hp₀).readied s

/-- A project that is made ready has its settings, their digest in its status, and files that are
reset. -/
theorem Covers.exists_status (h : ρ.Covers e ps) {ready : Engine.Prepared}
    (hready : e.busy.prepare t mode (settingsPath.map Path.mk) { cache := e.cache } ps =
      (ready, .ok ())) {i : Nat} {p : Project} (hp : ready.projects[i]? = some p) :
    ∃ status settings, ready.statuses[i]? = some status ∧ p.settings = some settings ∧
      status.settingsDigest = settings.digest ∧ ∀ f ∈ p.files, ∃ text, f.IsReset text := by
  obtain ⟨hlen, hstatus⟩ := (Engine.prepares_of_prepare hready).forall_status
    (P := fun p st => (∃ s, p.settings = some s ∧ st.settingsDigest = s.digest) ∧
      ∀ f ∈ p.files, ∃ text, f.IsReset text) (Q := fun _ => True) rfl
    (fun i p st hp => by cases hp) trivial (fun _ _ _ _ _ _ => trivial)
    (fun p hp s _ cache _ => by
      refine ⟨⟨s, rfl, rfl⟩, ?_⟩
      intro f hf
      obtain ⟨f₀, hf₀, rfl⟩ := List.mem_map.mp hf
      obtain ⟨-, text, htext, -⟩ := h.projects p hp f₀ hf₀
      exact ⟨text, SourceFile.isReset_reset htext⟩)
  obtain ⟨hlt, -⟩ := List.getElem?_eq_some_iff.mp hp
  have hst : ready.statuses[i]? = some ready.statuses[i] :=
    List.getElem?_eq_getElem (hlen ▸ hlt)
  obtain ⟨⟨settings, hsettings, hdigest⟩, hreset⟩ := hstatus _ p _ hp hst
  exact ⟨_, settings, hst, hsettings, hdigest, hreset⟩

/-- A run over projects that are made ready opens as it should. -/
theorem Covers.opens (h : ρ.Covers e ps) (switches : Switches)
    (hok : (e.busy.prepare t mode (settingsPath.map Path.mk) { cache := e.cache } ps).2 = .ok ())
    (hset : ∀ p ∈ (e.busy.prepare t mode (settingsPath.map Path.mk)
      { cache := e.cache } ps).1.projects, ∀ s, p.settings = some s → ρ.IsSettings s) :
    ρ.Opens (e.busy.begin switches mode
      (e.busy.prepare t mode (settingsPath.map Path.mk) { cache := e.cache } ps).1 []) := by
  obtain ⟨hkeeps, hcache⟩ := h.prepare t mode (settingsPath.map Path.mk)
  rcases hready : e.busy.prepare t mode (settingsPath.map Path.mk) { cache := e.cache } ps with
    ⟨ready, result⟩
  rw [hready] at hok hset hkeeps hcache
  cases hok
  refine ⟨h.registry, hcache, ?_⟩
  intro s q f hq hf
  obtain ⟨p, hp, rfl⟩ := Option.map_eq_some_iff.mp hq
  obtain ⟨p', hp', hfile⟩ := Option.bind_eq_some_iff.mp hf
  obtain rfl := Option.some.inj (hp.symm.trans hp')
  have hpi : ready.projects[s.project]? = some p := hp
  obtain ⟨status, settings, hst, hsettings, hdigest, hreset⟩ := h.exists_status hready hpi
  have hmem := List.mem_of_getElem? hfile
  obtain ⟨text, hreset⟩ := hreset f hmem
  obtain ⟨hroot, text', htext', hknown⟩ := hkeeps p (List.mem_of_getElem? hpi) f hmem
  have htext : text' = text := by
    rw [SourceFile.sourceText?, hreset.text] at htext'
    exact (Option.some.inj htext').symm
  -- a file that was made ready is not modified, so its digest is the known one
  have hkept : f.reset.digest = f.digest := by
    simp only [SourceFile.reset, hreset.modified]
  have heff : p.effectiveSettings = settings := by rw [Project.effectiveSettings, hsettings]; rfl
  refine ⟨status, text, hst, hreset, ?_, hroot, ?_, ?_⟩
  · rw [← hkept, ← htext]
    exact hknown
  · show ρ.IsSettings p.effectiveSettings
    rw [heff]
    exact hset p (List.mem_of_getElem? hpi) settings hsettings
  · show status.settingsDigest = p.effectiveSettings.digest
    rw [heff, hdigest]

/-- **What a run leaves**: the cache is faithful, and every file has settled. -/
theorem Opens.runWith {r : Run} (h : ρ.Opens r) (hcf : ρ.CollisionFree)
    (hstart : e.Starts t switches mode settingsPath ps r) (hcancel : r.cancelled = false)
    (hs : sweep.Interleaves) (processors : Nat) :
    let o := e.runWith sweep t switches processors mode settingsPath ps
    ∃ r' : Run, o.projects = r'.projects ∧ r.SameFiles r' ∧ ρ.Vouches e.registry o.engine.cache ∧
      ∀ s f', r'.file? s = some f' → ∃ q f, r.shell? s.project = some q ∧ r.file? s = some f ∧
        ρ.Settles e.registry q f f' ∧ (r.autoFix = false → f'.modified = false) := by
  intro o
  have hpass := Engine.isPass_sweepOf hs e processors r
  have hwell := hstart.fresh.wellPlaced
  have hpasses := hstart.fresh.passes hpass
  have hsame := hpasses.sameFiles hpass hwell
  obtain ⟨hr', res, hres⟩ := h.passes hcf hwell hstart.fresh.fatal hcancel hpass hpasses
  obtain ⟨hcache, -, -, hfiles⟩ := h.pass hcf hwell hstart.fresh.fatal (hpass r hwell)
  rw [hstart.registry] at hcache hfiles
  have hbuiltin : e.registry.IsBuiltin := hstart.registry ▸ h.registry
  have hcloses := Engine.closes_of_isBuiltin hbuiltin switches
  have hloop : r.passLoop (e.sweepOf sweep processors r) maxPasses =
      ((r.passLoop (e.sweepOf sweep processors r) maxPasses).1, .ok res) := Prod.ext rfl hres
  have hswitches := hsame.switches.trans hstart.switches_eq
  obtain ⟨hprojects, -⟩ := Engine.runWith_of_passes hstart hcloses hswitches hloop
  refine ⟨_, hprojects, hsame, ?_, ?_⟩
  · refine Cache.EachEntry.congr hcache ?_
    intro key
    rw [Cache.entryAt?_congr (Engine.document_runWith hstart), hr']
    rfl
  · rw [hr']
    exact hfiles

/-- A file that has settled can go into its next run. -/
theorem Settles.knows {r : Registry} {q : Project} {f f' : SourceFile} {text : String}
    (h : ρ.Settles r q f f') (htext : f.text = some text) (hknown : ρ.Knows f.digest text)
    (hmod : f'.modified = true → ∀ text', f'.sourceText? = some text' → ρ.IsText text') :
    ∃ text', f'.sourceText? = some text' ∧ ρ.Knows f'.reset.digest text' := by
  obtain ⟨text', hsource, hmodel⟩ := h.source text htext
  refine ⟨text', hsource, ?_⟩
  cases hm : f'.modified with
  | true =>
    have hdigest : f'.reset.digest = Digest.ofText text' := by
      simp only [SourceFile.reset, hm, hsource]
    exact ⟨text', hmod hm text' hsource, hdigest, rfl⟩
  | false =>
    obtain ⟨t₀, ht₀, hdigest₀, hmodel₀⟩ := hknown
    have hdigest : f'.reset.digest = f'.digest := by simp only [SourceFile.reset, hm]
    refine ⟨t₀, ht₀, ?_, hmodel₀.trans (hmodel hm).symm⟩
    rw [hdigest, h.digest, hdigest₀]

/-- **A run leaves an engine and projects as they are to be before the next one.** -/
theorem Covers.runWith (h : ρ.Covers e (ps ++ rest)) (hcf : ρ.CollisionFree)
    (hs : sweep.Interleaves)
    (hinc : ρ.Includes (e.runWith sweep t switches processors mode settingsPath ps).projects) :
    ρ.Covers (e.runWith sweep t switches processors mode settingsPath ps).engine
      ((e.runWith sweep t switches processors mode settingsPath ps).projects ++ rest) := by
  have hps := h.left
  have hrest (p : Project) (hp : p ∈ rest) : ρ.Keeps p := h.projects p (List.mem_append_right _ hp)
  rcases Engine.builtin_cases h.registry sweep t switches processors mode settingsPath ps with
    ⟨-, hprojects, hengine⟩ | ⟨-, -, hprojects, hregistry, hcache⟩ | ⟨-, hok, hstart⟩
  · rw [hprojects, hengine]
    exact h
  · obtain ⟨hkeeps, hvouches⟩ := hps.prepare t mode (settingsPath.map Path.mk)
    refine ⟨hregistry ▸ h.registry, ?_, ?_⟩
    · rw [hregistry, hcache]
      exact hvouches
    · intro p hp
      rw [hprojects] at hp
      exact (List.mem_append.mp hp).elim (hkeeps p) (hrest p)
  · have hopens := hps.opens switches hok fun p hp s hps => by
      obtain ⟨p', hp', heq⟩ := hstart.exists_settings hs processors hp
      exact (hinc p' hp').1 s (heq.trans hps)
    obtain ⟨r', hprojects, hsame, hvouches, hfiles⟩ :=
      hopens.runWith hcf hstart rfl hs processors
    have hregistry : (e.runWith sweep t switches processors mode settingsPath ps).engine.registry =
        e.registry := by rw [Engine.runWith_of_starts hstart]
    refine ⟨hregistry ▸ h.registry, hregistry ▸ hvouches, ?_⟩
    intro p hp
    rcases List.mem_append.mp hp with hp | hp
    · -- a file of the run: its slot tells what it was at first
      intro f' hf'
      have hmod := (hinc p hp).2 f' hf'
      rw [hprojects] at hp
      obtain ⟨i, hi⟩ := List.getElem?_of_mem hp
      obtain ⟨k, hk⟩ := List.getElem?_of_mem hf'
      obtain ⟨q, f, hq, hf, hsettles, -⟩ := hfiles ⟨i, k⟩ f' (by simp [Run.file?, hi, hk])
      obtain ⟨status, text, -, hawaits⟩ := hopens.file ⟨i, k⟩ q f hq hf
      have hroot : q.root = p.root := by
        have hshell := hsame.shell i
        rw [hq, Run.shell?, hi] at hshell
        rw [← Option.some.inj hshell]
      refine ⟨?_, hsettles.knows hawaits.reset.text hawaits.digest hmod⟩
      rw [hsettles.path, ← hroot]
      exact hawaits.root
    · exact hrest p hp

/-- A run that does not fix files, over projects with known settings, brings in no others. -/
theorem Covers.includes (h : ρ.Covers e ps) (hcf : ρ.CollisionFree) (hs : sweep.Interleaves)
    (hfix : mode.autoFix = false) (hset : ∀ p ∈ ps, ∃ s, p.settings = some s ∧ ρ.IsSettings s)
    (hmod : ∀ p ∈ ps, ∀ f ∈ p.files, f.modified = false) :
    ρ.Includes (e.runWith sweep t switches processors mode settingsPath ps).projects := by
  -- settings that a project has are not read anew
  have hready (p : Project) (hp : p ∈ (e.busy.prepare t mode (settingsPath.map Path.mk)
      { cache := e.cache } ps).1.projects) :
      (∀ s, p.settings = some s → ρ.IsSettings s) ∧ ∀ f ∈ p.files, f.modified = false := by
    rcases Engine.mem_projects_prepare hp with hp | hp | ⟨p₀, hp₀, s, hs, rfl⟩
    · cases hp
    · obtain ⟨s₀, hs₀, hknown⟩ := hset p hp
      exact ⟨fun s hs => Option.some.inj (hs₀.symm.trans hs) ▸ hknown, hmod p hp⟩
    · obtain ⟨s₀, hs₀, hknown⟩ := hset p₀ hp₀
      rw [Engine.settingsOf, hs₀] at hs
      obtain rfl := Except.ok.inj hs
      refine ⟨fun s hs => Option.some.inj hs ▸ hknown, ?_⟩
      intro f hf
      obtain ⟨f₀, -, rfl⟩ := List.mem_map.mp hf
      rfl
  have hincludes {qs : List Project} (hqs : ∀ p ∈ qs,
      (∀ s, p.settings = some s → ρ.IsSettings s) ∧ ∀ f ∈ p.files, f.modified = false) :
      ρ.Includes qs := by
    intro p hp
    refine ⟨(hqs p hp).1, ?_⟩
    intro f hf hm
    exact absurd (((hqs p hp).2 f hf).symm.trans hm) Bool.false_ne_true
  rcases Engine.builtin_cases h.registry sweep t switches processors mode settingsPath ps with
    ⟨-, hprojects, -⟩ | ⟨-, -, hprojects, -⟩ | ⟨-, hok, hstart⟩
  · rw [hprojects]
    refine hincludes fun p hp => ⟨?_, hmod p hp⟩
    intro s hs
    obtain ⟨s₀, hs₀, hknown⟩ := hset p hp
    exact Option.some.inj (hs₀.symm.trans hs) ▸ hknown
  · rw [hprojects]
    exact hincludes hready
  · have hopens := h.opens switches hok fun p hp => (hready p hp).1
    obtain ⟨r', hprojects, hsame, -, hfiles⟩ := hopens.runWith hcf hstart rfl hs processors
    rw [hprojects]
    refine hincludes fun p hp => ⟨?_, ?_⟩
    · intro s hs
      obtain ⟨p', hp', heq⟩ := hsame.symm.exists_settings hp
      exact (hready p' hp').1 s (heq.trans hs)
    · intro f hf
      obtain ⟨i, hi⟩ := List.getElem?_of_mem hp
      obtain ⟨k, hk⟩ := List.getElem?_of_mem hf
      obtain ⟨_, _, -, -, -, hunmodified⟩ := hfiles ⟨i, k⟩ f (by simp [Run.file?, hi, hk])
      exact hunmodified hfix

/-! ## Histories -/

/-- A history of an engine and the projects that it runs over, from an empty cache on: projects
are built from texts, put in another order, and run, some of them at a time. -/
inductive History (ρ : Realm) : Engine → List Project → Prop
  | start {e : Engine} (hb : e.registry.IsBuiltin)
    (hc : ∀ c, e.cache = some c → c.document.files = []) : History ρ e []
  | build {e : Engine} {ps : List Project} {p : Project} (h : History ρ e ps)
    (hp : ∀ f ∈ p.files, ρ.IsRoot p.root f.path ∧
      ∃ text, ρ.IsText text ∧ f = .ofText f.path text) : History ρ e (p :: ps)
  | arrange {e : Engine} {ps ps' : List Project} (h : History ρ e ps) (hp : ps'.Perm ps) :
    History ρ e ps'
  | run {e : Engine} {ps rest : List Project} (h : History ρ e (ps ++ rest)) {sweep : Sweep}
    (hs : sweep.Interleaves) (t : FileTree) (switches : Switches) (processors : Nat)
    (mode : RunMode) (settingsPath : Option String)
    (hinc : ρ.Includes (e.runWith sweep t switches processors mode settingsPath ps).projects) :
    History ρ (e.runWith sweep t switches processors mode settingsPath ps).engine
      ((e.runWith sweep t switches processors mode settingsPath ps).projects ++ rest)

/-- What a history keeps. -/
theorem History.covers (h : ρ.History e ps) (hcf : ρ.CollisionFree) : ρ.Covers e ps := by
  induction h with
  | start hb hc =>
    exact ⟨hb, Cache.eachEntry_of_files_eq_nil hc, fun p hp => absurd hp List.not_mem_nil⟩
  | @build e ps p _ hp ih =>
    refine ⟨ih.registry, ih.cache, ?_⟩
    intro p' hp'
    rcases List.mem_cons.mp hp' with rfl | hp'
    · intro f hf
      obtain ⟨hroot, text, htext, hfile⟩ := hp f hf
      refine ⟨hroot, text, ?_, text, htext, ?_, rfl⟩
      · rw [hfile]; rfl
      · rw [hfile]; rfl
    · exact ih.projects p' hp'
  | arrange _ hp ih =>
    exact ⟨ih.registry, ih.cache, fun p hmem => ih.projects p (hp.mem_iff.mp hmem)⟩
  | run _ hs _ _ _ _ _ hinc ih => exact ih.runWith hcf hs hinc

end Realm

end StyleEngine
