import StyleEngine.Proofs.Engine.ProjectNotes
import StyleEngine.Proofs.Engine.Replay

/-! # Runs that are repeated

A run that stores its results and converges without failures need not be made
again: a run that may use the cache, over the projects that it gave back, calls no
parser and no analyzer and tells the same violations.  The same goes for projects
that are built anew from the texts of the first run, as long as the digests of
these texts are known (`Engine.KnowsTexts`); a file that was parsed keeps its
digest even if its model gives back another text, and then it is parsed again.
-/
namespace StyleEngine

/-- Whether the results of projects are stored and can be found again. -/
structure Project.Storable (ps : List Project) : Prop where
  keys : (ps.map fun p => p.cacheKey).Nodup
  fileKeys : (Project.fileKeys ps).Nodup
  write : ∀ p ∈ ps, p.writeCache = true
  flags : ∀ p ∈ ps, p.flags.Nodup ∧ ∀ flag ∈ p.flags, IsPlainFlag flag

namespace Engine

variable {S : Settings → Prop} {e : Engine} {sweep : Sweep} {t : FileTree} {switches : Switches}
  {processors : Nat} {mode : RunMode} {settingsPath : Option String} {projects : List Project}
  {r r' : Run}

/-! ## A run that stores -/

/-- The cache notes every project of a run that stores its results. -/
theorem Starts.notes (h : e.Starts t switches mode settingsPath projects r)
    (hp : Project.Storable projects) (hc : e.cache.isSome = true)
    (hw : ∀ p ∈ projects, ∀ s, e.settingsOf t (settingsPath.map Path.mk) p = .ok s →
      s.engine.writeCache = true) :
    r.cache.isSome = true ∧ ∀ p ∈ projects, ∀ s,
      e.settingsOf t (settingsPath.map Path.mk) p = .ok s →
        Cache.Notes r.cache p.toProjectInfo s := by
  obtain ⟨ready, told, rfl, hprep⟩ := h.prepares
  obtain ⟨hsome, -, hnotes⟩ := hprep.notes hp.keys hc fun p hmem s hs => by
    rw [hp.write p hmem, hw p hmem s hs]
    rfl
  exact ⟨hsome, hnotes⟩

/-- A run over projects whose results can be stored, without fixes, stores them. -/
theorem Starts.stores (h : e.Starts t switches mode settingsPath projects r)
    (hp : Project.Storable projects) (hfix : mode.autoFix = false) (hc : e.cache.isSome = true)
    (hw : ∀ p ∈ projects, ∀ s, e.settingsOf t (settingsPath.map Path.mk) p = .ok s →
      s.engine.writeCache = true) : r.Stores := by
  have hreset {s : Slot} {f : SourceFile} (hf : r.file? s = some f) :
      f.done = false ∧ f.violations = [] ∧ f.modified = false := by
    rw [h.file?_eq] at hf
    obtain ⟨p, -, hf⟩ := Option.bind_eq_some_iff.mp hf
    obtain ⟨f₀, -, rfl⟩ := Option.map_eq_some_iff.mp hf
    exact ⟨rfl, rfl, rfl⟩
  have hstatus {i : Nat} {q : Project} (hq : r.shell? i = some q) :=
    h.exists_status (Q := fun _ => True) trivial (fun _ _ _ _ _ _ => trivial) hq
  refine
    { cache := (h.notes hp hc hw).1
      statuses := ?_
      job := ?_
      stands := fun s q f st hq hf hst => .fresh (hreset hf).1 (hreset hf).2.1
      modified := fun s f hf => (hreset hf).2.2
      noRepeats := ?_ }
  · intro i q hq
    obtain ⟨p, -, s, c, -, -, hst, -⟩ := hstatus hq
    exact ⟨_, hst⟩
  · intro i q st hq hst
    obtain ⟨p, hmem, s, c, hs, rfl, hst', -⟩ := hstatus hq
    obtain rfl := Option.some.inj (hst.symm.trans hst')
    obtain ⟨hnd, hplain⟩ := hp.flags p hmem
    refine ⟨?_, ?_, ProjectInfo.sameConfiguration_fingerprint hplain hnd⟩
    · obtain ⟨ready, told, rfl, -⟩ := h.prepares
      exact hfix
    · show (p.writeCache && s.engine.writeCache) = true
      rw [hp.write p hmem, hw p hmem s hs]
      rfl
  · intro s f hf
    rw [(hreset hf).2.1]
    exact .nil

/-- What a summary tells of a run that has converged. -/
theorem Starts.converged (h : e.Starts t switches mode settingsPath projects r)
    (hs : sweep.Interleaves) {summary : RunSummary}
    (hresult : (e.runWith sweep t switches processors mode settingsPath projects).result =
      .ok summary) (hconverged : summary.converged = true) :
    ∃ r' res, e.Closes switches ∧
      r.passLoop (e.sweepOf sweep processors r) maxPasses = (r', .ok res) ∧
      res.converged = true ∧ res.passes = summary.passes ∧
      r'.tally.analyzed = summary.filesAnalyzed ∧
      r'.projects.flatMap Project.violations = summary.violations ∧
      (e.runWith sweep t switches processors mode settingsPath projects).projects =
        r'.projects := by
  have hpass := isPass_sweepOf hs e processors r
  have hsame := (h.fresh.passes hpass).sameFiles hpass h.fresh.wellPlaced
  rw [runWith_of_starts h] at hresult ⊢
  rcases hloop : r.passLoop (e.sweepOf sweep processors r) maxPasses with ⟨r', result⟩
  rw [hloop] at hresult hsame
  have hswitches : r'.switches = switches := hsame.switches.trans h.switches_eq
  simp only [close, hswitches] at hresult ⊢
  -- neither a failed run nor one that an add-in fails to end tells that it has converged
  cases hclose : (callAll (fun a p => a.after p switches)
      (participants e.busy.registry)).result with
  | error crash =>
    rw [hclose] at hresult
    obtain rfl := Except.ok.inj hresult
    cases hconverged
  | ok _ =>
    rw [hclose] at hresult
    cases result with
    | error cause =>
      cases hfailure : RunFailure.ofAddIn cause with
      | exhausted message =>
        simp only [conclude, hfailure] at hresult
        cases hresult
      | failed message =>
        simp only [conclude, hfailure] at hresult
        obtain rfl := Except.ok.inj hresult
        cases hconverged
    | ok res =>
      obtain rfl := Except.ok.inj hresult
      exact ⟨r', res, hclose, rfl, hconverged, rfl, rfl, (List.append_nil _).symm, rfl⟩

/-! ## A run that is made again -/

/-- What an engine has of a run that has stored its results without failures: the files are at
rest, the cache notes the projects, and a request finds the add-ins ready. -/
structure Remembers (e : Engine) (S : Settings → Prop) (switches : Switches)
    (settingsPath : Option String) (r : Run) : Prop where
  rests : r.Rests S
  registry : e.registry = r.registry
  entry : ∀ key, (e.cache.bind fun c => c.entryAt? key) = r.entryAt? key
  notes : ∀ i q, r.shell? i = some q → Cache.Notes e.cache q.toProjectInfo q.effectiveSettings
  flags : ∀ i q, r.shell? i = some q → q.flags.Nodup ∧ ∀ flag ∈ q.flags, IsPlainFlag flag
  accepts : e.Accepts settingsPath
  begins : ∃ told, callAll (fun a p => a.before p switches) (participants e.registry) =
    { events := told, result := .ok () } ∧ told.any Event.isCancel = false
  closes : e.Closes switches

/-- Whether projects are those of a run, with files at the same paths, and are to be run under
the same settings. -/
structure Resumes (e : Engine) (t : FileTree) (path : Option Path) (r : Run)
    (again : List Project) : Prop where
  settings : ∀ p ∈ again, ∃ s, e.settingsOf t path p = .ok s
  shell : ∀ i, ((again[i]?).bind fun p => (e.settingsOf t path p).toOption.map fun s =>
    ({ p with files := [], settings := some s } : Project)) = r.shell? i
  file : ∀ s : Slot, ((again[s.project]?).bind fun p => p.files[s.file]?).map SourceFile.path =
    (r.file? s).map SourceFile.path

/-- Whether a run that may use the cache calls no parser and no analyzer, analyzes no file,
converges in one pass, and tells some violations. -/
structure Recalls (e : Engine) (sweep : Sweep) (t : FileTree) (switches : Switches)
    (processors : Nat) (settingsPath : Option String) (projects : List Project)
    (vs : List Violation) : Prop where
  quiet : ∃ r, e.Starts t switches {} settingsPath projects r ∧
    ∀ p ∈ r.passLog (e.sweepOf sweep processors r) maxPasses, ∀ x ∈ p.handled,
      x.result.events.any Event.isCall = false
  summary : ∃ s, (e.runWith sweep t switches processors {} settingsPath projects).result = .ok s ∧
    s.converged = true ∧ s.passes = 1 ∧ s.filesAnalyzed = 0 ∧ s.violations = vs

/-- A well-formed request over projects whose settings can be read starts a run if the add-ins
are ready. -/
theorem exists_starts (mode : RunMode) (hacc : e.Accepts settingsPath)
    (hset : ∀ p ∈ projects, ∃ s, e.settingsOf t (settingsPath.map Path.mk) p = .ok s)
    {told : List Event} (hbegun : callAll (fun a p => a.before p switches)
      (participants e.registry) = { events := told, result := .ok () }) :
    ∃ ready, e.Starts t switches mode settingsPath projects
      (e.busy.begin switches mode ready told) := by
  have hprepare : (e.busy.prepare t mode (settingsPath.map Path.mk) { cache := e.cache }
      projects).2 = .ok () := prepare_eq_ok hset
  rcases hready : e.busy.prepare t mode (settingsPath.map Path.mk) { cache := e.cache }
    projects with ⟨ready, result⟩
  rw [hready] at hprepare
  cases hprepare
  refine ⟨ready, hacc.1, hacc.2, ?_⟩
  have hcache : e.busy.prepare t mode (settingsPath.map Path.mk) { cache := e.busy.cache }
      projects = (ready, .ok ()) := hready
  have hbusy : callAll (fun a p => a.before p switches) (participants e.busy.registry) =
      { events := told, result := .ok () } := hbegun
  simp only [opening, openPrepared, hcache, hbusy]

namespace Remembers

variable {again : List Project}

/-- A request over projects that are to be run again starts a run that follows. -/
theorem exists_follows (h : e.Remembers S switches settingsPath r)
    (ha : e.Resumes t (settingsPath.map Path.mk) r again) :
    ∃ r₂, e.Starts t switches {} settingsPath again r₂ ∧ r.Follows r₂ ∧ r₂.cancelled = false := by
  obtain ⟨told, hbegun, hcancel⟩ := h.begins
  obtain ⟨ready, hstart⟩ := exists_starts {} h.accepts ha.settings hbegun
  have hplace {p : Project} {s : Settings} (hp : p ∈ again)
      (hs : e.settingsOf t (settingsPath.map Path.mk) p = .ok s) :
      ∃ i, r.shell? i = some { p with files := [], settings := some s } := by
    obtain ⟨i, hi⟩ := List.getElem?_of_mem hp
    refine ⟨i, ?_⟩
    rw [← ha.shell i, hi, Option.bind_some, hs]
    rfl
  have hnotes : ∀ p ∈ again, ∀ s, e.settingsOf t (settingsPath.map Path.mk) p = .ok s →
      Cache.Notes e.cache p.toProjectInfo s := by
    intro p hp s hs
    obtain ⟨i, hi⟩ := hplace hp hs
    have hnoted := h.notes i _ hi
    exact hnoted
  refine ⟨_, hstart, ?_, hcancel⟩
  refine
    { registry := hstart.registry.trans h.registry
      shell := fun i => (hstart.shell?_eq i).trans (ha.shell i)
      autoFix := rfl
      status := fun i q hq => ?_
      path := fun s => ?_
      fresh := fun s f hf => ?_
      entry := fun key => (hstart.entryAt?_eq key).trans (h.entry key) }
  · -- noting a project again does not change what is noted of the others
    obtain ⟨p, hp, s, c, hs, rfl, hst, hc⟩ := hstart.exists_status
      (Q := fun cache => ∀ p ∈ again, ∀ s, e.settingsOf t (settingsPath.map Path.mk) p = .ok s →
        Cache.Notes cache p.toProjectInfo s) hnotes
      (fun p hp s hs c hc p' hp' s' hs' =>
        notes_noted_of_notes (hc p' hp' s' hs') (.inr (hc p hp s hs))) hq
    obtain ⟨i', hi'⟩ := hplace hp hs
    obtain ⟨hnd, hplain⟩ := h.flags i' _ hi'
    obtain ⟨c, rfl, hvalid⟩ := (hc p hp s hs).isProjectValid hplain hnd
    refine ⟨_, hst, ?_, rfl⟩
    simp only [statusOf, hvalid]
    rfl
  · rw [hstart.file?_eq, ← ha.file, Option.map_bind, Option.map_bind]
    refine congrArg _ (funext ?_)
    intro p
    simp only [Function.comp_apply, Option.map_map]
    rfl
  · rw [hstart.file?_eq] at hf
    obtain ⟨p, -, hf⟩ := Option.bind_eq_some_iff.mp hf
    obtain ⟨f₀, -, rfl⟩ := Option.map_eq_some_iff.mp hf
    exact ⟨rfl, rfl⟩

/-- **A run that is made again recalls the first one** exactly if the files that a parser reads
have the digests that they had. -/
theorem recalls_iff (h : e.Remembers S switches settingsPath r)
    (hS : ∀ s s', S s → S s' → s.digest = s'.digest → s = s')
    (ha : e.Resumes t (settingsPath.map Path.mk) r again) (hs : sweep.Interleaves)
    (processors : Nat) :
    e.Recalls sweep t switches processors settingsPath again
      (r.projects.flatMap Project.violations) ↔
    ∀ s q f f₂, r.shell? s.project = some q → r.file? s = some f →
      ((again[s.project]?).bind fun p => p.files[s.file]?) = some f₂ →
      (r.registry.reader? q.effectiveSettings f.path).isSome = true →
      f₂.reset.digest = f.digest := by
  obtain ⟨r₂, hstart, hfollows, hcancel⟩ := h.exists_follows ha
  have hfile (s : Slot) : r₂.file? s =
      ((again[s.project]?).bind fun p => p.files[s.file]?).map SourceFile.reset := by
    rw [hstart.file?_eq, Option.map_bind]
    rfl
  have hsame : r.SameDigests r₂ ↔ ∀ s q f f₂, r.shell? s.project = some q → r.file? s = some f →
      ((again[s.project]?).bind fun p => p.files[s.file]?) = some f₂ →
      (r.registry.reader? q.effectiveSettings f.path).isSome = true →
      f₂.reset.digest = f.digest := by
    constructor
    · intro hd s q f f₂ hq hf hf₂ hread
      exact hd s q f f₂.reset hq hf (by rw [hfile, hf₂]; rfl) hread
    · intro hd s q f f₂ hq hf hf₂ hread
      rw [hfile] at hf₂
      obtain ⟨f₀, hf₀, rfl⟩ := Option.map_eq_some_iff.mp hf₂
      exact hd s q f f₀ hq hf hf₀ hread
  rw [← hsame]
  have hpass := isPass_sweepOf hs e processors r₂
  have hpasses := hstart.fresh.passes hpass
  have hswitches :=
    (hpasses.sameFiles hpass hstart.fresh.wellPlaced).switches.trans hstart.switches_eq
  constructor
  · -- a run over other digests analyzes a file or does not converge in its first pass
    rintro ⟨-, summary, hresult, hconverged, hone, hzero, -⟩
    obtain ⟨r₂', res, -, hloop, hconv, hnum, hanalyzed, -⟩ := hstart.converged hs hresult hconverged
    rw [hloop] at hpasses
    exact hfollows.sameDigests h.rests hS hstart.fresh hpass hpasses hconv (hnum.trans hone)
      (hanalyzed.trans hzero)
  · intro hd
    obtain ⟨hquiet, hres, hzero, hviolations⟩ :=
      hfollows.replays h.rests hS hstart.fresh hcancel hpass hpasses hd
    obtain ⟨-, hresult⟩ := runWith_of_passes hstart h.closes hswitches (Prod.ext rfl hres)
    refine ⟨⟨r₂, hstart, hquiet⟩, _, hresult, rfl, rfl, hzero, ?_⟩
    rw [← hviolations]
    exact List.append_nil _

end Remembers

/-- After a run that stores its results and converges without failures, every file is at rest. -/
theorem Starts.rests (h : e.Starts t switches mode settingsPath projects r) (he : e.HasRun S)
    (hs : sweep.Interleaves) (hp : Project.Storable projects) (hfix : mode.autoFix = false)
    (hc : e.cache.isSome = true)
    (hset : ∀ p ∈ projects, ∀ s, e.settingsOf t (settingsPath.map Path.mk) p = .ok s →
      S s ∧ s.engine.writeCache = true) {res : PassResult}
    (hloop : r.passLoop (e.sweepOf sweep processors r) maxPasses = (r', .ok res))
    (hconverged : res.converged = true)
    (hclean : ∀ v ∈ r'.projects.flatMap Project.violations,
      v.ruleId ≠ Violation.fileFailedRule) :
    r'.Rests S ∧ ∀ s f, r'.file? s = some f → f.modified = false := by
  have hpass := isPass_sweepOf hs e processors r
  have hwell := h.fresh.wellPlaced
  have hpasses := h.fresh.passes hpass
  have hearned := h.isEarned hs processors (fun p hmem s hs => (hset p hmem s hs).1) he.isEarned
  rw [hloop] at hpasses hearned
  have hkeys := h.distinctKeys hp.fileKeys
  have hstores := hpasses.stores hpass hwell hkeys
    (h.stores hp hfix hc fun p hmem s hs => (hset p hmem s hs).2)
  have hdone := hpasses.done_of_converged hpass hwell hconverged
  refine ⟨⟨?_, hearned.1, hstores.statuses, ?_, ?_⟩, hstores.modified⟩
  · rw [(hpasses.sameFiles hpass hwell).registry, h.registry]
    exact hearned.2
  · exact hkeys.of_path fun s => Run.path_of_name (hpasses.name hpass hwell s)
  · intro s q f st hq hf hst
    refine (hstores.stands s q f st hq hf hst).rests (hdone s f hf) ?_
    intro v hv
    obtain ⟨p, hp, hf⟩ := Option.bind_eq_some_iff.mp hf
    exact hclean v (List.mem_flatMap.mpr ⟨p, List.mem_of_getElem? hp,
      List.mem_flatMap.mpr ⟨f, List.mem_of_getElem? hf, hv⟩⟩)

/-- **What a run leaves that stores its results and converges without failures.** -/
theorem Starts.remembers (h : e.Starts t switches mode settingsPath projects r)
    (he : e.HasRun S) (hs : sweep.Interleaves) (hp : Project.Storable projects)
    (hfix : mode.autoFix = false) (hc : e.cache.isSome = true)
    (hset : ∀ p ∈ projects, ∀ s, e.settingsOf t (settingsPath.map Path.mk) p = .ok s →
      S s ∧ s.engine.writeCache = true) {summary : RunSummary}
    (hresult : (e.runWith sweep t switches processors mode settingsPath projects).result =
      .ok summary) (hconverged : summary.converged = true)
    (hclean : ∀ v ∈ summary.violations, v.ruleId ≠ Violation.fileFailedRule) :
    ∃ r' : Run,
      (e.runWith sweep t switches processors mode settingsPath projects).engine.Remembers S
        switches settingsPath r' ∧
      (e.runWith sweep t switches processors mode settingsPath projects).projects = r'.projects ∧
      r'.projects.flatMap Project.violations = summary.violations ∧
      (∀ s f, r'.file? s = some f → f.modified = false) ∧ (∀ i, r'.shell? i = r.shell? i) ∧
      ∀ s, (r'.file? s).map (fun f => (f.path, f.digest)) =
        (r.file? s).map fun f => (f.path, f.digest) := by
  obtain ⟨r', res, hcloses, hloop, hconv, -, -, hviolations, hprojects⟩ :=
    h.converged hs hresult hconverged
  rw [← hviolations] at hclean
  obtain ⟨hrests, hmodified⟩ := h.rests he hs hp hfix hc hset hloop hconv hclean
  have hpass := isPass_sweepOf hs e processors r
  have hwell := h.fresh.wellPlaced
  have hpasses := h.fresh.passes hpass
  rw [hloop] at hpasses
  have hsame := hpasses.sameFiles hpass hwell
  have hdocument : (e.runWith sweep t switches processors mode settingsPath
      projects).engine.cache.map Cache.document = r'.cache.map Cache.document := by
    rw [document_runWith h, hloop]
  have hregistry : (e.runWith sweep t switches processors mode settingsPath
      projects).engine.registry = e.registry := by rw [runWith_of_starts h]
  have hproject (i : Nat) (q : Project) (hq : r'.shell? i = some q) :=
    h.exists_project ((hsame.shell i).symm.trans hq)
  refine ⟨r', ?_, hprojects, hviolations, hmodified, hsame.shell, hpasses.name hpass hwell⟩
  refine
    { rests := hrests
      registry := hregistry.trans (hsame.registry.trans h.registry).symm
      entry := Cache.entryAt?_congr hdocument
      notes := ?_
      flags := ?_
      accepts := ⟨h.path, ?_⟩
      begins := ?_
      closes := ?_ }
  · intro i q hq
    obtain ⟨p, s, hi, hs, rfl⟩ := hproject i q hq
    have hnoted := (h.notes hp hc fun p hmem s hs => (hset p hmem s hs).2).2 p
      (List.mem_of_getElem? hi) s hs
    exact (hpasses.notes hpass hwell hnoted).congr hdocument
  · intro i q hq
    obtain ⟨p, s, hi, -, rfl⟩ := hproject i q hq
    exact hp.flags p (List.mem_of_getElem? hi)
  · rw [runWith_of_starts h]
  · -- a run that has converged was not cancelled by the add-ins at its start
    obtain ⟨ready, told, -, hbegun, rfl⟩ := opening_eq_ok h.opened
    rw [hregistry]
    exact ⟨told, hbegun, (hpasses.cancelled_of_converged hconv).1⟩
  · rw [Closes, hregistry]
    exact hcloses

/-! ## Projects that are given back or built anew -/

/-- Whether projects are others built anew from their texts, to be run under the same settings. -/
structure Rebuilds (e : Engine) (path : Option Path) (t : FileTree) (ps : List Project)
    (t' : FileTree) (ps' : List Project) : Prop where
  info : ps'.map Project.toProjectInfo = ps.map Project.toProjectInfo
  settings : ps'.map (e.settingsOf t' path) = ps.map (e.settingsOf t path)
  files : (ps'.map fun p => p.files.map some) =
    ps.map fun p => p.files.map fun f => f.sourceText?.map (SourceFile.ofText f.path)

/-- Whether the files that a parser reads are reset to the digests of their texts. -/
def KnowsTexts (e : Engine) (path : Option Path) (t : FileTree) (ps : List Project) : Prop :=
  ∀ p ∈ ps, ∀ s, e.settingsOf t path p = .ok s → ∀ f ∈ p.files,
    (e.registry.reader? s f.path).isSome = true → ∀ text, f.sourceText? = some text →
      f.reset.digest = Digest.ofText text

namespace Rebuilds

variable {path : Option Path} {ps ps' : List Project} {t' : FileTree}

/-- A project that is built anew, in its place. -/
theorem exists_project (h : e.Rebuilds path t ps t' ps') {i : Nat} {p : Project}
    (hp : ps[i]? = some p) : ∃ p', ps'[i]? = some p' ∧ p'.toProjectInfo = p.toProjectInfo ∧
      e.settingsOf t' path p' = e.settingsOf t path p ∧
      p'.files.map some = p.files.map fun f => f.sourceText?.map (SourceFile.ofText f.path) := by
  have hinfo := congrArg (fun l => l[i]?) h.info
  have hsettings := congrArg (fun l => l[i]?) h.settings
  have hfiles := congrArg (fun l => l[i]?) h.files
  simp only [List.getElem?_map, hp, Option.map_some] at hinfo hsettings hfiles
  obtain ⟨p', hp', hinfo⟩ := Option.map_eq_some_iff.mp hinfo
  rw [hp', Option.map_some] at hsettings hfiles
  exact ⟨p', hp', hinfo, Option.some.inj hsettings, Option.some.inj hfiles⟩

theorem getElem?_eq_none (h : e.Rebuilds path t ps t' ps') {i : Nat} (hp : ps[i]? = none) :
    ps'[i]? = none := by
  have hinfo := congrArg (fun l => l[i]?) h.info
  simp only [List.getElem?_map, hp, Option.map_none] at hinfo
  exact Option.map_eq_none_iff.mp hinfo

/-- The files that are built anew, slot by slot. -/
theorem file (h : e.Rebuilds path t ps t' ps') (s : Slot) :
    (((ps'[s.project]?).bind fun p => p.files[s.file]?).map some) =
      ((ps[s.project]?).bind fun p => p.files[s.file]?).map fun f =>
        f.sourceText?.map (SourceFile.ofText f.path) := by
  cases hp : ps[s.project]? with
  | none =>
    rw [h.getElem?_eq_none hp]
    rfl
  | some p =>
    obtain ⟨p', hp', -, -, hfiles⟩ := h.exists_project hp
    rw [hp', Option.bind_some, Option.bind_some, ← List.getElem?_map, ← List.getElem?_map, hfiles]

/-- A file that is built anew. -/
theorem exists_file (h : e.Rebuilds path t ps t' ps') {s : Slot} {f : SourceFile}
    (hf : ((ps[s.project]?).bind fun p => p.files[s.file]?) = some f) :
    ∃ text, f.sourceText? = some text ∧
      ((ps'[s.project]?).bind fun p => p.files[s.file]?) = some (.ofText f.path text) := by
  have hfile := h.file s
  rw [hf, Option.map_some] at hfile
  obtain ⟨f', hf', heq⟩ := Option.map_eq_some_iff.mp hfile
  obtain ⟨text, htext, rfl⟩ := Option.map_eq_some_iff.mp heq.symm
  exact ⟨text, htext, hf'⟩

/-- Projects that are built anew are to be run again. -/
theorem resumes (h : e.Rebuilds (settingsPath.map Path.mk) t projects t' ps')
    (hstart : e.Starts t switches mode settingsPath projects r)
    (hshell : ∀ i, r'.shell? i = r.shell? i)
    (hpath : ∀ s, (r'.file? s).map SourceFile.path = (r.file? s).map SourceFile.path) :
    e.Resumes t' (settingsPath.map Path.mk) r' ps' where
  settings p' hp' := by
    obtain ⟨i, hi⟩ := List.getElem?_of_mem hp'
    cases hp : projects[i]? with
    | none => rw [h.getElem?_eq_none hp] at hi; cases hi
    | some p =>
      obtain ⟨p'', hp'', -, hset, -⟩ := h.exists_project hp
      obtain rfl := Option.some.inj (hi.symm.trans hp'')
      rw [hset]
      exact hstart.settings p (List.mem_of_getElem? hp)
  shell i := by
    rw [hshell, hstart.shell?_eq]
    cases hp : projects[i]? with
    | none => rw [h.getElem?_eq_none hp]; rfl
    | some p =>
      obtain ⟨p', hp', hinfo, hset, -⟩ := h.exists_project hp
      rw [hp', Option.bind_some, Option.bind_some, hset, hinfo]
  file s := by
    rw [hpath, hstart.file?_eq]
    have hreset : ((projects[s.project]?).bind fun p => (p.files[s.file]?).map SourceFile.reset) =
        ((projects[s.project]?).bind fun p => p.files[s.file]?).map SourceFile.reset := by
      rw [Option.map_bind]
      rfl
    rw [hreset]
    cases hf : (projects[s.project]?).bind fun p => p.files[s.file]? with
    | none =>
      have hfile := h.file s
      rw [hf, Option.map_none] at hfile
      rw [Option.map_eq_none_iff.mp hfile]
      rfl
    | some f =>
      obtain ⟨text, -, hf'⟩ := h.exists_file hf
      rw [hf']
      rfl

/-- The digests of projects that are built anew are those that files had in a run exactly if
these are the digests of their texts. -/
theorem knowsTexts_iff (h : e.Rebuilds (settingsPath.map Path.mk) t projects t' ps')
    (hstart : e.Starts t switches mode settingsPath projects r)
    (hregistry : r'.registry = e.registry) (hshell : ∀ i, r'.shell? i = r.shell? i)
    (hname : ∀ s, (r'.file? s).map (fun f => (f.path, f.digest)) =
      (r.file? s).map fun f => (f.path, f.digest)) :
    (∀ s q f f₂, r'.shell? s.project = some q → r'.file? s = some f →
      ((ps'[s.project]?).bind fun p => p.files[s.file]?) = some f₂ →
      (r'.registry.reader? q.effectiveSettings f.path).isSome = true →
      f₂.reset.digest = f.digest) ↔ e.KnowsTexts (settingsPath.map Path.mk) t projects := by
  have hfile (s : Slot) : (r'.file? s).map (fun f => (f.path, f.digest)) =
      ((projects[s.project]?).bind fun p => p.files[s.file]?).map fun f =>
        (f.path, f.reset.digest) := by
    rw [hname, hstart.file?_eq, Option.map_bind, Option.map_bind]
    refine congrArg _ (funext ?_)
    intro p
    simp only [Function.comp_apply, Option.map_map]
    rfl
  constructor
  · intro hall p hp s hs f hf hread text htext
    obtain ⟨i, hi⟩ := List.getElem?_of_mem hp
    obtain ⟨k, hk⟩ := List.getElem?_of_mem hf
    have hplace : ((projects[i]?).bind fun p => p.files[k]?) = some f := by rw [hi]; exact hk
    have hq : r'.shell? i = some { p with files := [], settings := some s } := by
      rw [hshell, hstart.shell?_eq, hi, Option.bind_some, hs]
      rfl
    obtain ⟨f', hf', heq⟩ := Option.map_eq_some_iff.mp ((hfile ⟨i, k⟩).trans (by rw [hplace]; rfl))
    obtain ⟨hpath, hdigest⟩ := Prod.mk.inj heq
    obtain ⟨text', htext', hf₂⟩ := h.exists_file (s := ⟨i, k⟩) hplace
    obtain rfl := Option.some.inj (htext.symm.trans htext')
    have hsame := hall ⟨i, k⟩ _ f' _ hq hf' hf₂ (by rw [hregistry, hpath]; exact hread)
    exact hdigest.symm.trans hsame.symm
  · intro hknows s q f f₂ hq hf hf₂ hread
    obtain ⟨p, st, hp, hset, rfl⟩ := hstart.exists_project ((hshell _).symm.trans hq)
    have hold := hfile s
    rw [hf, Option.map_some] at hold
    obtain ⟨f₀, hf₀, heq⟩ := Option.map_eq_some_iff.mp hold.symm
    obtain ⟨hpath, hdigest⟩ := Prod.mk.inj heq
    obtain ⟨text, htext, hnew⟩ := h.exists_file hf₀
    obtain rfl := Option.some.inj (hnew.symm.trans hf₂)
    rw [hp, Option.bind_some] at hf₀
    have hknown := hknows p (List.mem_of_getElem? hp) st hset f₀ (List.mem_of_getElem? hf₀)
      (by rw [← hregistry, hpath]; exact hread) text htext
    exact hknown.symm.trans hdigest

end Rebuilds

/-- The projects that a run gives back are to be run again. -/
theorem resumes_projects (t : FileTree) (path : Option Path)
    (h : ∀ i q, r.shell? i = some q → ∃ s, q.settings = some s) :
    e.Resumes t path r r.projects := by
  have hset {i : Nat} {p : Project} (hp : r.projects[i]? = some p) :
      ∃ s, p.settings = some s ∧ e.settingsOf t path p = .ok s := by
    obtain ⟨s, hs⟩ := h i { p with files := [] } (by rw [Run.shell?, hp]; rfl)
    have hs' : p.settings = some s := hs
    exact ⟨s, hs', by rw [settingsOf, hs']⟩
  refine ⟨?_, ?_, fun s => rfl⟩
  · intro p hp
    obtain ⟨i, hi⟩ := List.getElem?_of_mem hp
    obtain ⟨s, -, hs⟩ := hset hi
    exact ⟨s, hs⟩
  · intro i
    rw [Run.shell?]
    cases hp : r.projects[i]? with
    | none => rfl
    | some p =>
      obtain ⟨s, hs, hok⟩ := hset hp
      rw [Option.bind_some, hok, Option.map_some, hs]
      rfl

theorem Resumes.congr {e' : Engine} {path : Option Path} {again : List Project}
    (h : e.Resumes t path r again) (hs : e'.settingsOf = e.settingsOf) :
    e'.Resumes t path r again := by
  obtain ⟨hsettings, hshell, hfile⟩ := h
  rw [← hs] at hsettings hshell
  exact ⟨hsettings, hshell, hfile⟩

/-- **Runs need not be made again.**  After a run that has stored its results and converged
without failures, a run over the projects that it gave back recalls it; a run over projects that
are built anew from the texts of the first one does so exactly if the files that a parser reads
had the digests of their texts. -/
theorem recalls_runWith (hS : ∀ s s', S s → S s' → s.digest = s'.digest → s = s')
    (he : e.HasRun S) (hc : e.cache.isSome = true) (hs : sweep.Interleaves)
    (hp : Project.Storable projects) (hfix : mode.autoFix = false)
    (hset : ∀ p ∈ projects, ∀ s, e.settingsOf t (settingsPath.map Path.mk) p = .ok s →
      S s ∧ s.engine.writeCache = true) {summary : RunSummary}
    (hresult : (e.runWith sweep t switches processors mode settingsPath projects).result =
      .ok summary) (hconverged : summary.converged = true)
    (hclean : ∀ v ∈ summary.violations, v.ruleId ≠ Violation.fileFailedRule) {sweep' : Sweep}
    (hs' : sweep'.Interleaves) (t' : FileTree) (processors' : Nat) :
    let o := e.runWith sweep t switches processors mode settingsPath projects
    o.engine.Recalls sweep' t' switches processors' settingsPath o.projects summary.violations ∧
    ∀ again, e.Rebuilds (settingsPath.map Path.mk) t projects t' again →
      (o.engine.Recalls sweep' t' switches processors' settingsPath again summary.violations ↔
        e.KnowsTexts (settingsPath.map Path.mk) t projects) := by
  intro o
  obtain ⟨r, hstart⟩ : ∃ r, e.Starts t switches mode settingsPath projects r := by
    rcases e.runWith_cases sweep t switches processors mode settingsPath projects with
      ⟨-, -, -, cause, herror⟩ | ⟨-, -, -, -, -, hfails⟩ | ⟨-, -, -, hstart⟩
    · rw [hresult] at herror
      cases herror
    · exact absurd ((hfails summary hresult).symm.trans hconverged) Bool.false_ne_true
    · exact ⟨_, hstart⟩
  obtain ⟨r', hremembers, hprojects, hviolations, hmodified, hshell, hname⟩ :=
    hstart.remembers he hs hp hfix hc hset hresult hconverged hclean
  have hsettings : o.engine.settingsOf = e.settingsOf := by
    simp only [o, runWith_of_starts hstart]
    rfl
  have hregistry : r'.registry = e.registry := by
    rw [← hremembers.registry, runWith_of_starts hstart]
  rw [← hviolations]
  refine ⟨?_, ?_⟩
  · have hresumes : o.engine.Resumes t' (settingsPath.map Path.mk) r' o.projects := by
      simp only [o, hprojects]
      refine resumes_projects t' _ ?_
      intro i q hq
      obtain ⟨p, s, -, -, rfl⟩ := hstart.exists_project ((hshell i).symm.trans hq)
      exact ⟨s, rfl⟩
    refine (hremembers.recalls_iff hS hresumes hs' processors').mpr ?_
    intro s q f f₂ _ hf hf₂ _
    -- the files are those of the run, which were not modified and keep their digests
    simp only [o, hprojects] at hf₂
    obtain rfl := Option.some.inj (hf.symm.trans hf₂)
    simp only [SourceFile.reset, hmodified s f hf]
  · intro again hagain
    have hpath := fun s => Run.path_of_name (hname s)
    have hresumes := (hagain.resumes hstart hshell hpath).congr hsettings
    rw [hremembers.recalls_iff hS hresumes hs' processors']
    exact hagain.knowsTexts_iff hstart hregistry hshell hname

/-- An engine whose parser defers every file once and then complains about it. -/
def grumbler : Engine where
  registry :=
    { parsers := [{
        parser := {
          id := "grumbler"
          configure := fun _ _ _ p _ => .ok p
          extensions := ["txt"]
          parse := fun _ ctx =>
            if ctx.pass < 1 then .done .deferred
            else .report { ruleId := "Grumble", message := "not again", line := 1 } fun _ =>
              .done .complete }
        profile := {}
        trusted := false }]
      extensions := [("txt", "grumbler")] }
  cache := some { store := .memory none 0 }

/-- A project with a file for the parser and one that it does not read. -/
def grumbled : Project where
  name := "app"
  root := ⟨"app"⟩
  flags := ["DEBUG", "TRACE"]
  files := [.ofText ⟨"app/a.txt"⟩ "a", .ofText ⟨"app/b.md"⟩ "b"]
  settings := some {}

theorem storable_grumbled : Project.Storable [grumbled] where
  keys := by decide
  fileKeys := by decide
  write p hp := by
    obtain rfl := List.mem_singleton.mp hp
    rfl
  flags p hp := by
    obtain rfl := List.mem_singleton.mp hp
    have hdebug : IsPlainFlag "DEBUG" := ⟨by decide, by decide +kernel, by decide⟩
    have htrace : IsPlainFlag "TRACE" := ⟨by decide, by decide +kernel, by decide⟩
    refine ⟨by decide, ?_⟩
    intro flag hflag
    rcases List.mem_cons.mp hflag with rfl | hflag
    · exact hdebug
    · obtain rfl := List.mem_singleton.mp hflag
      exact htrace

theorem recalls_runWith_grumbled :
    let o := grumbler.runWith Sweep.oneByOne {} [] 2 { full := true } none [grumbled]
    ∃ summary, o.result = .ok summary ∧ summary.passes = 2 ∧
      summary.violations.map Violation.ruleId = ["Grumble"] ∧
      o.engine.Recalls Sweep.oneByOne {} [] 8 none o.projects summary.violations ∧
      o.engine.Recalls Sweep.oneByOne {} [] 8 none [grumbled] summary.violations := by
  intro o
  have hs := Sweep.oneByOne_interleaves.interleaves
  have hrun : o.result.toOption.map (fun s =>
      (s.converged, s.passes, s.violations.map Violation.ruleId)) =
        some (true, 2, ["Grumble"]) := by
    decide +kernel
  obtain ⟨summary, hresult, hsummary⟩ : ∃ summary, o.result = .ok summary ∧
      (summary.converged, summary.passes, summary.violations.map Violation.ruleId) =
        (true, 2, ["Grumble"]) := by
    cases hresult : o.result with
    | error cause => rw [hresult] at hrun; cases hrun
    | ok summary => rw [hresult] at hrun; exact ⟨summary, rfl, Option.some.inj hrun⟩
  simp only [Prod.mk.injEq] at hsummary
  obtain ⟨hconverged, hpasses, hrules⟩ := hsummary
  have hclean (v : Violation) (hv : v ∈ summary.violations) :
      v.ruleId ≠ Violation.fileFailedRule := by
    have hrule := List.mem_map_of_mem (f := Violation.ruleId) hv
    rw [hrules, List.mem_singleton] at hrule
    rw [hrule]
    decide
  have hnew : grumbler.HasRun fun s => s = {} := .start fun c hc => by
    obtain rfl := Option.some.inj hc
    rfl
  obtain ⟨hreused, hrebuilt⟩ := recalls_runWith (fun s s' hs hs' _ => hs.trans hs'.symm) hnew rfl hs
    storable_grumbled rfl
    (fun p hp s hs => by
      obtain rfl := List.mem_singleton.mp hp
      obtain rfl := Except.ok.inj hs
      exact ⟨rfl, rfl⟩)
    hresult hconverged hclean hs {} 8
  refine ⟨summary, hresult, hpasses, hrules, hreused, ?_⟩
  refine (hrebuilt [grumbled] ⟨rfl, rfl, rfl⟩).mpr ?_
  intro p hp s _ f hf _ text htext
  obtain rfl := List.mem_singleton.mp hp
  rcases List.mem_cons.mp hf with rfl | hf
  · obtain rfl := Option.some.inj htext
    rfl
  · obtain rfl := List.mem_singleton.mp hf
    obtain rfl := Option.some.inj htext
    rfl

/-- An engine with a parser of texts. -/
def texter : Engine where
  registry :=
    { parsers := [{ parser := textParser "text" ["txt"], profile := {}, trusted := false }]
      extensions := [("txt", "text")] }
  cache := some { store := .memory none 0 }

/-- A project with one text. -/
def texted (text : String) : Project where
  name := "app"
  root := ⟨"app"⟩
  files := [.ofText ⟨"app/a.txt"⟩ text]
  settings := some {}

/-- A run over a text whose lines end differently, so that it is given back with other ends. -/
def mixedOnce : RunOutcome :=
  texter.runWith Sweep.oneByOne {} [] 2 { full := true } none [texted "a\r\nb\n"]

/-- A run over the project that the first one gave back. -/
def mixedTwice : RunOutcome :=
  mixedOnce.engine.runWith Sweep.oneByOne {} [] 2 { full := true } none mixedOnce.projects

/-- A text that is given back with other ends keeps its digest: a project that is built anew
from it is parsed again. -/
theorem recalls_lost_mixed :
    mixedOnce.engine.HasRun (fun s => s = {}) ∧ mixedOnce.engine.cache.isSome = true ∧
    Project.Storable mixedOnce.projects ∧
    (mixedTwice.result.toOption.map fun s => (s.converged, s.violations)) = some (true, []) ∧
    mixedOnce.engine.Rebuilds none {} mixedOnce.projects {} [texted "a\r\nb\r\n"] ∧
    ¬ mixedTwice.engine.Recalls Sweep.oneByOne {} [] 2 none [texted "a\r\nb\r\n"] [] := by
  have hs := Sweep.oneByOne_interleaves.interleaves
  have hset : ∀ p ∈ mixedOnce.projects, p.settings = some {} := by decide +kernel
  have hone : mixedOnce.projects.length = 1 := by decide +kernel
  have hplain : ∀ p ∈ mixedOnce.projects, p.flags = [] := by decide +kernel
  obtain ⟨hconverged, hparsed⟩ :
      (mixedTwice.result.toOption.map fun s => (s.converged, s.violations)) = some (true, []) ∧
      ((mixedTwice.engine.runWith Sweep.oneByOne {} [] 2 {} none
        [texted "a\r\nb\r\n"]).result.toOption.map RunSummary.filesAnalyzed) = some 1 := by
    decide +kernel
  refine ⟨?_, by decide +kernel, ?_, hconverged, ?_, ?_⟩
  · refine .run (.start ?_) hs {} [] 2 { full := true } none _ ?_
    · intro c hc
      obtain rfl := Option.some.inj hc
      rfl
    · intro p hp s hs
      obtain rfl := List.mem_singleton.mp hp
      exact (Except.ok.inj hs).symm
  · refine ⟨by decide +kernel, by decide +kernel, by decide +kernel, ?_⟩
    intro p hp
    rw [hplain p hp]
    exact ⟨.nil, fun flag hflag => absurd hflag List.not_mem_nil⟩
  · refine ⟨by decide +kernel, ?_, by decide +kernel⟩
    have hall : mixedOnce.projects.map (mixedOnce.engine.settingsOf {} none) =
        mixedOnce.projects.map fun _ => .ok {} := by
      refine List.map_congr_left ?_
      intro p hp
      rw [settingsOf, hset p hp]
    rw [hall, List.map_const', hone]
    rfl
  · rintro ⟨-, summary, hresult, -, -, hzero, -⟩
    rw [hresult] at hparsed
    have hcount : summary.filesAnalyzed = 1 := Option.some.inj hparsed
    rw [hzero] at hcount
    cases hcount

end Engine

end StyleEngine
