import StyleEngine.Proofs.Engine.CacheTransparency
import StyleEngine.Proofs.Engine.RepeatedRuns
import StyleEngine.Proofs.Settings.Layers

/-! # Paths in several projects

The entry of a file in the cache is found by its path alone, while the rules that
apply to it depend on the root of its project.  So an analysis records on a file what
is found in it under one of the roots under which its path is analyzed; that is what
its own root gives if all these roots decide alike (`Realm.violations_analyze`), and
may be another project's result if they do not.
-/
namespace StyleEngine

/-- Whether two roots decide alike about the rules that apply to a file. -/
def Registry.DecideAlike (r : Registry) (s : Settings) (path root root' : Path) : Prop :=
  ∀ rule, (r.contextAt root s).isRuleEnabled rule path =
    (r.contextAt root' s).isRuleEnabled rule path

theorem Registry.DecideAlike.findingsAt {r : Registry} {s : Settings} {path root root' : Path}
    (h : r.DecideAlike s path root root') (text : String) :
    r.findingsAt root s path text = r.findingsAt root' s path text := by
  have hset : (r.contextAt root s).settings = (r.contextAt root' s).settings := rfl
  exact r.findings_congr hset h _

namespace Realm

variable {ρ : Realm} {e : Engine} {ps rest : List Project}

/-- **What an analysis records**, after any history: on every file what is found in it under one
of the roots under which its path is analyzed, and what is found under the root of its own project
if these roots decide alike. -/
theorem violations_analyze (hcf : ρ.CollisionFree) (h : ρ.History e (ps ++ rest)) {sweep : Sweep}
    (hs : sweep.Interleaves) (t : FileTree) (switches : Switches) (processors : Nat)
    (settingsPath : Option String) {summary : RunSummary}
    (hresult : (e.runWith sweep t switches processors {} settingsPath ps).result = .ok summary)
    (hconverged : summary.converged = true)
    (hinc : ρ.Includes (e.runWith sweep t switches processors {} settingsPath ps).projects) :
    ∀ p ∈ (e.runWith sweep t switches processors {} settingsPath ps).projects, ∀ f ∈ p.files,
      ∃ text root, f.sourceText? = some text ∧ ρ.IsRoot root f.path ∧
        f.violations = e.registry.findingsAt root p.effectiveSettings f.path text ∧
        ((∀ root', ρ.IsRoot root' f.path →
            e.registry.DecideAlike p.effectiveSettings f.path root' p.root) →
          f.violations = e.registry.findingsAt p.root p.effectiveSettings f.path text) := by
  have hps := (h.covers hcf).left
  obtain ⟨hok, hstart⟩ := Engine.starts_of_converged hps.registry hresult hconverged
  have hopens := hps.opens switches hok fun p hp s hs' => by
    obtain ⟨p', hp', heq⟩ := hstart.exists_settings hs processors hp
    exact (hinc p' hp').1 s (heq.trans hs')
  obtain ⟨r', hprojects, hsame, -, hfiles⟩ := hopens.runWith hcf hstart rfl hs processors
  intro p hp f hf
  rw [hprojects] at hp
  obtain ⟨i, hi⟩ := List.getElem?_of_mem hp
  obtain ⟨k, hk⟩ := List.getElem?_of_mem hf
  obtain ⟨q, f₀, hq, hf₀, hsettles, hmod⟩ := hfiles ⟨i, k⟩ f (by simp [Run.file?, hi, hk])
  obtain ⟨status, text₀, -, hawaits⟩ := hopens.file ⟨i, k⟩ q f₀ hq hf₀
  -- the project is the one of the run but for its files
  have hshell : q = { p with files := [] } := by
    have hshell := hsame.shell i
    rw [hq, Run.shell?, hi] at hshell
    exact (Option.some.inj hshell).symm
  have hkept := hmod rfl
  obtain ⟨root, hroot, hviolations⟩ := hsettles.violations text₀ hawaits.reset.text hkept
  obtain ⟨text, htext, hmodel⟩ := hsettles.source text₀ hawaits.reset.text
  have hfound : f.violations = e.registry.findingsAt root p.effectiveSettings f.path text := by
    rw [hviolations, hshell, Registry.findingsAt, Registry.findingsAt, hmodel hkept, hsettles.path]
    rfl
  rw [← hsettles.path] at hroot
  refine ⟨text, root, htext, hroot, hfound, ?_⟩
  intro halike
  rw [hfound, (halike root hroot).findingsAt]

end Realm

/-! ## Projects at other roots -/

namespace Run

/-- A run with the same files in projects that have other names, roots and flags. -/
def relocated (r : Run) (infos : List ProjectInfo) : Run :=
  { r with projects := r.projects.mapIdx fun i q =>
      { q with toProjectInfo := infos.getD i q.toProjectInfo } }

variable (r : Run) (infos : List ProjectInfo)

theorem shell?_relocated (i : Nat) : (r.relocated infos).shell? i =
    (r.shell? i).map fun q => { q with toProjectInfo := infos.getD i q.toProjectInfo } := by
  simp only [shell?, relocated, List.getElem?_mapIdx, Option.map_map]
  rfl

theorem file?_relocated (s : Slot) : (r.relocated infos).file? s = r.file? s := by
  simp only [file?, relocated, List.getElem?_mapIdx]
  cases r.projects[s.project]? <;> rfl

theorem violations_relocated : (r.relocated infos).projects.flatMap Project.violations =
    r.projects.flatMap Project.violations := by
  have hmap : (r.relocated infos).projects.map Project.violations =
      r.projects.map Project.violations := by
    refine List.ext_getElem? ?_
    intro i
    simp only [relocated, List.getElem?_map, List.getElem?_mapIdx, Option.map_map]
    rfl
  rw [List.flatMap_def, List.flatMap_def, hmap]

end Run

namespace Engine

variable {S : Settings → Prop} {e : Engine} {sweep : Sweep} {t t' : FileTree}
  {switches : Switches} {processors : Nat} {mode : RunMode} {settingsPath : Option String}
  {ps qs : List Project} {r : Run}

/-- What is remembered of a run goes for projects with the same files and flags at other roots, if
the cache notes them. -/
theorem Remembers.relocated (h : e.Remembers S switches settingsPath r) (infos : List ProjectInfo)
    (hinfo : ∀ i q, r.shell? i = some q →
      (infos.getD i q.toProjectInfo).flags = q.flags ∧
        Cache.Notes e.cache (infos.getD i q.toProjectInfo) q.effectiveSettings) :
    e.Remembers S switches settingsPath (r.relocated infos) := by
  have hshell {i : Nat} {q' : Project} (hq' : (r.relocated infos).shell? i = some q') :
      ∃ q, r.shell? i = some q ∧
        q' = { q with toProjectInfo := infos.getD i q.toProjectInfo } := by
    rw [Run.shell?_relocated] at hq'
    obtain ⟨q, hq, rfl⟩ := Option.map_eq_some_iff.mp hq'
    exact ⟨q, hq, rfl⟩
  refine { h with rests := ⟨h.rests.earned, ?_, ?_, ?_, ?_⟩, notes := ?_, flags := ?_ }
  · intro i q' st hq' hst
    obtain ⟨q, hq, rfl⟩ := hshell hq'
    exact h.rests.settings i q st hq hst
  · intro i q' hq'
    obtain ⟨q, hq, -⟩ := hshell hq'
    exact h.rests.statuses i q hq
  · exact h.rests.keys.of_path fun s => by rw [Run.file?_relocated]
  · intro s q' f st hq' hf hst
    obtain ⟨q, hq, rfl⟩ := hshell hq'
    rw [Run.file?_relocated] at hf
    exact (h.rests.file s q f st hq hf hst).congr rfl (hinfo _ q hq).1 rfl rfl
  · intro i q' hq'
    obtain ⟨q, hq, rfl⟩ := hshell hq'
    exact (hinfo i q hq).2
  · intro i q' hq'
    obtain ⟨q, hq, rfl⟩ := hshell hq'
    show (infos.getD i q.toProjectInfo).flags.Nodup ∧ _
    rw [(hinfo i q hq).1]
    exact h.flags i q hq

/-- Whether projects have the files, the flags and the settings of others, but are kept under
other keys. -/
structure Twins (e : Engine) (path : Option Path) (t : FileTree) (qs : List Project)
    (t' : FileTree) (ps : List Project) : Prop where
  files : ps.map Project.files = qs.map Project.files
  flags : (ps.map fun p => p.flags) = qs.map fun q => q.flags
  settings : ps.map (e.settingsOf t' path) = qs.map (e.settingsOf t path)
  keys : ∀ p ∈ ps, p.cacheKey ∉ qs.map fun q => q.cacheKey

namespace Twins

variable {path : Option Path}

theorem exists_twin (h : e.Twins path t qs t' ps) {i : Nat} {q : Project}
    (hq : qs[i]? = some q) : ∃ p, ps[i]? = some p ∧ p.files = q.files ∧ p.flags = q.flags ∧
      e.settingsOf t' path p = e.settingsOf t path q := by
  have hfiles := congrArg (fun l => l[i]?) h.files
  have hflags := congrArg (fun l => l[i]?) h.flags
  have hsettings := congrArg (fun l => l[i]?) h.settings
  simp only [List.getElem?_map, hq, Option.map_some] at hfiles hflags hsettings
  obtain ⟨p, hp, hfiles⟩ := Option.map_eq_some_iff.mp hfiles
  rw [hp, Option.map_some] at hflags hsettings
  exact ⟨p, hp, hfiles, Option.some.inj hflags, Option.some.inj hsettings⟩

theorem getElem?_eq_none (h : e.Twins path t qs t' ps) {i : Nat} (hq : qs[i]? = none) :
    ps[i]? = none := by
  have hfiles := congrArg (fun l => l[i]?) h.files
  simp only [List.getElem?_map, hq, Option.map_none] at hfiles
  exact Option.map_eq_none_iff.mp hfiles

/-- The files of twins, slot by slot. -/
theorem file (h : e.Twins path t qs t' ps) (s : Slot) :
    ((ps[s.project]?).bind fun p => p.files[s.file]?) =
      (qs[s.project]?).bind fun q => q.files[s.file]? := by
  cases hq : qs[s.project]? with
  | none => rw [h.getElem?_eq_none hq]
  | some q =>
    obtain ⟨p, hp, hfiles, -⟩ := h.exists_twin hq
    rw [hp, Option.bind_some, Option.bind_some, hfiles]

theorem getD_info {i : Nat} {p : Project} (hp : ps[i]? = some p) (info : ProjectInfo) :
    (ps.map Project.toProjectInfo).getD i info = p.toProjectInfo := by
  rw [List.getD_eq_getElem?_getD, List.getElem?_map, hp]
  rfl

/-- Twins are to be run again as if the run had been over them. -/
theorem resumes {r' : Run} (h : e.Twins (settingsPath.map Path.mk) t qs t' ps)
    (hstart : e.Starts t switches mode settingsPath qs r) (hshell : ∀ i, r'.shell? i = r.shell? i)
    (hpath : ∀ s, (r'.file? s).map SourceFile.path = (r.file? s).map SourceFile.path) :
    e.Resumes t' (settingsPath.map Path.mk) (r'.relocated (ps.map Project.toProjectInfo)) ps where
  settings p hp := by
    obtain ⟨i, hi⟩ := List.getElem?_of_mem hp
    cases hq : qs[i]? with
    | none => rw [h.getElem?_eq_none hq] at hi; cases hi
    | some q =>
      obtain ⟨p', hp', -, -, hset⟩ := h.exists_twin hq
      obtain rfl := Option.some.inj (hi.symm.trans hp')
      rw [hset]
      exact hstart.settings q (List.mem_of_getElem? hq)
  shell i := by
    rw [Run.shell?_relocated, hshell, hstart.shell?_eq]
    cases hq : qs[i]? with
    | none => rw [h.getElem?_eq_none hq]; rfl
    | some q =>
      obtain ⟨p, hp, -, -, hset⟩ := h.exists_twin hq
      rw [hp, Option.bind_some, Option.bind_some, hset, Option.map_map]
      refine congrArg (fun g => Option.map g _) (funext ?_)
      intro s
      rw [Function.comp_apply, getD_info hp]
  file s := by
    rw [Run.file?_relocated, hpath, hstart.file?_eq, h.file, Option.map_bind, Option.map_bind]
    refine congrArg _ (funext ?_)
    intro q
    rw [Function.comp_apply, Function.comp_apply, Option.map_map]
    rfl

end Twins

/-- What is noted when a run starts is noted when it is over. -/
theorem Starts.keeps_notes (h : e.Starts t switches mode settingsPath qs r)
    (hs : sweep.Interleaves) (processors : Nat) {p : ProjectInfo} {s : Settings}
    (hn : Cache.Notes r.cache p s) :
    Cache.Notes (e.runWith sweep t switches processors mode settingsPath qs).engine.cache p s := by
  have hpass := isPass_sweepOf hs e processors r
  exact ((h.fresh.passes hpass).notes hpass h.fresh.wellPlaced hn).congr (document_runWith h)

/-- A run keeps what is noted of projects that it is not over. -/
theorem Starts.notes_of_notes (h : e.Starts t switches mode settingsPath qs r)
    (hs : sweep.Interleaves) (hq : Project.Storable qs) (hc : e.cache.isSome = true)
    (hw : ∀ q ∈ qs, ∀ s, e.settingsOf t (settingsPath.map Path.mk) q = .ok s →
      s.engine.writeCache = true) (processors : Nat) {p : ProjectInfo} {s : Settings}
    (hp : p.cacheKey ∉ qs.map fun q => q.cacheKey) (hn : Cache.Notes e.cache p s) :
    Cache.Notes (e.runWith sweep t switches processors mode settingsPath qs).engine.cache p s := by
  refine h.keeps_notes hs processors ?_
  obtain ⟨ready, told, rfl, hprep⟩ := h.prepares
  refine (hprep.notes hq.keys hc ?_).2.1 p s hp hn
  intro q hmem s hs
  rw [hq.write q hmem, hw q hmem s hs]
  rfl

/-- **What was told last of some files is told next**, whatever the roots of their projects: after
a run that has stored its results and converged without failures, a run that may use the cache
recalls it for twins of its projects, if these are noted. -/
theorem recalls_twins (hS : ∀ s s', S s → S s' → s.digest = s'.digest → s = s')
    (he : e.HasRun S) (hc : e.cache.isSome = true) (hs : sweep.Interleaves)
    (hq : Project.Storable qs) (hfix : mode.autoFix = false)
    (hset : ∀ q ∈ qs, ∀ s, e.settingsOf t (settingsPath.map Path.mk) q = .ok s →
      S s ∧ s.engine.writeCache = true)
    (htwins : e.Twins (settingsPath.map Path.mk) t qs t' ps)
    (hnotes : ∀ p ∈ ps, ∀ s, e.settingsOf t' (settingsPath.map Path.mk) p = .ok s →
      Cache.Notes e.cache p.toProjectInfo s) {summary : RunSummary}
    (hresult : (e.runWith sweep t switches processors mode settingsPath qs).result = .ok summary)
    (hconverged : summary.converged = true)
    (hclean : ∀ v ∈ summary.violations, v.ruleId ≠ Violation.fileFailedRule) {sweep' : Sweep}
    (hs' : sweep'.Interleaves) (processors' : Nat) :
    (e.runWith sweep t switches processors mode settingsPath qs).engine.Recalls sweep' t' switches
      processors' settingsPath ps summary.violations := by
  obtain ⟨r, hstart⟩ := exists_starts_of_converged hresult hconverged
  obtain ⟨r', hremembers, -, hviolations, -, hshell, hname⟩ :=
    hstart.remembers he hs hq hfix hc hset hresult hconverged hclean
  have hsettings : (e.runWith sweep t switches processors mode settingsPath qs).engine.settingsOf =
      e.settingsOf := by
    rw [runWith_of_starts hstart]
    rfl
  -- each project of the run and its twin
  have htwin (i : Nat) (q : Project) (hqi : r'.shell? i = some q) : ∃ p s, ps[i]? = some p ∧
      q.flags = p.flags ∧ q.settings = some s ∧
      e.settingsOf t' (settingsPath.map Path.mk) p = .ok s := by
    obtain ⟨q₀, s, hq₀, hok, rfl⟩ := hstart.exists_project ((hshell i).symm.trans hqi)
    obtain ⟨p, hp, -, hflags, hsame⟩ := htwins.exists_twin hq₀
    exact ⟨p, s, hp, hflags.symm, rfl, hsame.trans hok⟩
  have hmoved := hremembers.relocated (ps.map Project.toProjectInfo) (by
    intro i q hqi
    obtain ⟨p, s, hp, hflags, hqs, hok⟩ := htwin i q hqi
    have heff : q.effectiveSettings = s := by rw [Project.effectiveSettings, hqs]; rfl
    rw [Twins.getD_info hp, heff]
    have hmem := List.mem_of_getElem? hp
    exact ⟨hflags.symm, hstart.notes_of_notes hs hq hc (fun q hq s hs => (hset q hq s hs).2)
      processors (htwins.keys p hmem) (hnotes p hmem s hok)⟩)
  -- the files of the run are those of the twins, which it has given their digests
  have hfile (s : Slot) : (r'.file? s).map (fun f => (f.path, f.digest)) =
      ((ps[s.project]?).bind fun p => p.files[s.file]?).map fun f => (f.path, f.reset.digest) := by
    rw [hname, hstart.file?_eq, htwins.file, Option.map_bind, Option.map_bind]
    refine congrArg _ (funext ?_)
    intro q
    simp only [Function.comp_apply, Option.map_map]
    rfl
  have hresumes := htwins.resumes hstart hshell fun s => Run.path_of_name (hname s)
  rw [← hviolations, ← r'.violations_relocated (ps.map Project.toProjectInfo)]
  refine (hmoved.recalls_iff hS (hresumes.congr hsettings) hs' processors').mpr ?_
  intro s q f f₂ _ hf hf₂ _
  rw [Run.file?_relocated] at hf
  have hsame := hfile s
  rw [hf, hf₂, Option.map_some, Option.map_some] at hsame
  exact (Prod.mk.inj (Option.some.inj hsame)).2.symm

/-- The violations of a run that has converged are those on its files. -/
theorem violations_of_converged (hs : sweep.Interleaves) {summary : RunSummary}
    (hresult : (e.runWith sweep t switches processors mode settingsPath qs).result = .ok summary)
    (hconverged : summary.converged = true) :
    (e.runWith sweep t switches processors mode settingsPath qs).projects.flatMap
      Project.violations = summary.violations := by
  obtain ⟨r, hstart⟩ := exists_starts_of_converged hresult hconverged
  obtain ⟨r', res, -, -, -, -, -, hviolations, hprojects⟩ :=
    hstart.converged hs hresult hconverged
  rw [hprojects, hviolations]

end Engine

/-! ## A file in two projects -/

namespace Realm

/-- Settings that spare the texts in a directory the check for tabs. -/
def sparing : Settings := { rules := { perFile := [("sub/*.txt", ["NoTabs"])] } }

/-- A project with a file that the settings spare, if its root is the one above the directory. -/
def sharing (root : String) : Project where
  root := ⟨root⟩
  files := [.ofText ⟨"app/sub/a.txt"⟩ "a\tb\n"]
  settings := some sparing

/-- The root above the directory and the directory as a root. -/
def nested : Realm where
  IsRoot root _ := root = ⟨"app"⟩ ∨ root = ⟨"app/sub"⟩
  IsText text := text = "a\tb\n"
  IsSettings s := s = sparing

theorem collisionFree_nested : nested.CollisionFree where
  text _ _ ht ht' _ := ht.trans ht'.symm
  settings _ _ hs hs' _ := hs.trans hs'.symm

/-- A run over one of the projects, by one worker after the other. -/
def runOver (e : Engine) (mode : RunMode) (root : String) : Engine.RunOutcome :=
  e.runWith Sweep.oneByOne {} [] 2 mode none [sharing root]

/-- The engine after a full analysis at the root above. -/
def outer : Engine := (runOver Scope.tabChecker { full := true } "app").engine

/-- The engine after a full analysis at the root below. -/
def inner : Engine := (runOver outer { full := true } "app/sub").engine

section

variable {e : Engine} {rest : List Project} {root : String}

theorem history_sharing (h : nested.History e rest) (hroot : root = "app" ∨ root = "app/sub") :
    nested.History e ([sharing root] ++ rest) := by
  refine .build h ?_
  intro f hf
  obtain rfl := List.mem_singleton.mp hf
  exact ⟨hroot.imp (congrArg Path.mk) (congrArg Path.mk), _, rfl, rfl⟩

theorem includes_runOver (h : nested.History e ([sharing root] ++ rest)) {mode : RunMode}
    (hfix : mode.autoFix = false) : nested.Includes (runOver e mode root).projects := by
  have hs := Sweep.oneByOne_interleaves.interleaves
  refine (h.covers collisionFree_nested).left.includes collisionFree_nested hs hfix ?_ ?_
  · intro p hp
    obtain rfl := List.mem_singleton.mp hp
    exact ⟨sparing, rfl, rfl⟩
  · intro p hp f hf
    obtain rfl := List.mem_singleton.mp hp
    obtain rfl := List.mem_singleton.mp hf
    rfl

theorem history_runOver (h : nested.History e ([sharing root] ++ rest)) (mode : RunMode)
    (hfix : mode.autoFix = false) :
    nested.History (runOver e mode root).engine ((runOver e mode root).projects ++ rest) :=
  h.run Sweep.oneByOne_interleaves.interleaves {} [] 2 mode none (includes_runOver h hfix)

theorem storable_sharing (root : String) : Project.Storable [sharing root] where
  keys := List.pairwise_singleton ..
  fileKeys := List.pairwise_singleton ..
  write p hp := by
    obtain rfl := List.mem_singleton.mp hp
    rfl
  flags p hp := by
    obtain rfl := List.mem_singleton.mp hp
    exact ⟨List.nodup_nil, fun flag hflag => absurd hflag List.not_mem_nil⟩

end

/-- Both analyses converge, and only the one at the root below finds something. -/
theorem runs_sharing :
    ((runOver Scope.tabChecker { full := true } "app").result.toOption.map fun s =>
      (s.converged, s.violations.map Violation.ruleId)) = some (true, []) ∧
    ((runOver outer { full := true } "app/sub").result.toOption.map fun s =>
      (s.converged, s.violations.map Violation.ruleId)) = some (true, ["NoTabs"]) := by
  decide +kernel

theorem history_inner : ∃ rest, nested.History inner ([sharing "app"] ++ rest) := by
  have hstart : nested.History Scope.tabChecker [] := by
    refine .start Scope.tabChecker_isBuiltin ?_
    intro c hc
    obtain rfl := Option.some.inj hc
    rfl
  have houter := history_runOver (history_sharing hstart (.inl rfl)) { full := true } rfl
  have hinner := history_runOver (history_sharing houter (.inr rfl)) { full := true } rfl
  exact ⟨_, history_sharing hinner (.inl rfl)⟩

/-- The analysis at the root above recalls the one at the root below. -/
theorem recalls_inner : ∃ summary, (runOver inner {} "app").result = .ok summary ∧
    summary.converged = true ∧ summary.violations.map Violation.ruleId = ["NoTabs"] := by
  have hs := Sweep.oneByOne_interleaves.interleaves
  obtain ⟨s₁, hresult₁, hsummary₁⟩ := exists_ok_of_toOption runs_sharing.1
  obtain ⟨s₂, hresult₂, hsummary₂⟩ := exists_ok_of_toOption runs_sharing.2
  simp only [Prod.mk.injEq] at hsummary₁ hsummary₂
  have hset {e : Engine} {root : String} (p : Project) (hp : p ∈ [sharing root]) (s : Settings)
      (hok : e.settingsOf {} none p = .ok s) : s = sparing ∧ s.engine.writeCache = true := by
    obtain rfl := List.mem_singleton.mp hp
    obtain rfl : sparing = s := Except.ok.inj hok
    exact ⟨rfl, rfl⟩
  have hnew : Scope.tabChecker.HasRun fun s => s = sparing := .start fun c hc => by
    obtain rfl := Option.some.inj hc
    rfl
  have houter : outer.HasRun fun s => s = sparing :=
    hnew.run hs {} [] 2 { full := true } none _ fun p hp s hok => (hset p hp s hok).1
  -- the first run has noted the project, and the second one leaves it noted
  obtain ⟨r, hstart⟩ := Engine.exists_starts_of_converged hresult₁ hsummary₁.1
  have hnotes : Cache.Notes outer.cache (sharing "app").toProjectInfo sparing := by
    have hnoted := hstart.notes (storable_sharing "app") rfl fun p hp s hok => (hset p hp s hok).2
    exact hstart.keeps_notes hs 2 (hnoted.2 _ List.mem_cons_self sparing rfl)
  have htwins : outer.Twins (Option.map Path.mk none) {} [sharing "app/sub"] {} [sharing "app"] :=
    ⟨rfl, rfl, rfl, by decide⟩
  have hclean (v : Violation) (hv : v ∈ s₂.violations) :
      v.ruleId ≠ Violation.fileFailedRule := by
    have hrule := List.mem_map_of_mem (f := Violation.ruleId) hv
    rw [hsummary₂.2, List.mem_singleton] at hrule
    rw [hrule]
    decide
  have hrecalls := Engine.recalls_twins (fun s s' hs hs' _ => hs.trans hs'.symm) houter
    hnotes.isSome hs (storable_sharing "app/sub") rfl hset htwins
    (fun p hp s hok => by
      obtain ⟨rfl, -⟩ := hset p hp s hok
      obtain rfl := List.mem_singleton.mp hp
      exact hnotes)
    hresult₂ hsummary₂.1 hclean hs 2
  obtain ⟨-, s₃, hresult₃, hconverged, -, -, hviolations⟩ := hrecalls
  exact ⟨s₃, hresult₃, hconverged, by rw [hviolations, hsummary₂.2]⟩

/-- Results leak from one project to another: the analysis at the root above tells of a tab that
the settings spare there. -/
theorem violations_analyze_leaked : ¬ ∀ (ρ : Realm) (e : Engine) (p : Project)
    (rest : List Project) (summary : RunSummary), ρ.CollisionFree → ρ.History e ([p] ++ rest) →
    p.settings.isSome = true →
    (e.runWith Sweep.oneByOne {} [] 2 {} none [p]).result = .ok summary →
    summary.converged = true →
    summary.violations = p.files.flatMap fun f =>
      e.registry.findingsAt p.root p.effectiveSettings f.path (f.sourceText?.getD "") := by
  intro h
  obtain ⟨rest, hhistory⟩ := history_inner
  obtain ⟨summary, hresult, hconverged, hrules⟩ := recalls_inner
  have hown := h nested inner (sharing "app") rest summary collisionFree_nested hhistory rfl
    hresult hconverged
  have hnone : ((sharing "app").files.flatMap fun f => inner.registry.findingsAt (sharing "app").root
      (sharing "app").effectiveSettings f.path (f.sourceText?.getD "")) = [] := by
    decide +kernel
  rw [hown, hnone] at hrules
  cases hrules

theorem violations_analyze_sharing : ∃ p f text root,
    p ∈ (runOver inner {} "app").projects ∧ f ∈ p.files ∧ f.violations ≠ [] ∧
      f.sourceText? = some text ∧ nested.IsRoot root f.path ∧
      f.violations = inner.registry.findingsAt root p.effectiveSettings f.path text := by
  have hs := Sweep.oneByOne_interleaves.interleaves
  obtain ⟨rest, hhistory⟩ := history_inner
  obtain ⟨summary, hresult, hconverged, hrules⟩ := recalls_inner
  have hviolations := Engine.violations_of_converged hs hresult hconverged
  have hne : summary.violations ≠ [] := by
    intro hnil
    rw [hnil] at hrules
    cases hrules
  obtain ⟨v, hv⟩ := List.exists_mem_of_ne_nil _ hne
  rw [← hviolations] at hv
  obtain ⟨p, hp, hv⟩ := List.mem_flatMap.mp hv
  obtain ⟨f, hf, hv⟩ := List.mem_flatMap.mp hv
  obtain ⟨text, root, htext, hroot, hfound, -⟩ := violations_analyze collisionFree_nested hhistory
    hs {} [] 2 none hresult hconverged (includes_runOver hhistory rfl) p hp f hf
  exact ⟨p, f, text, root, hp, hf, List.ne_nil_of_mem hv, htext, hroot, hfound⟩

end Realm

end StyleEngine
