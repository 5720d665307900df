import StyleEngine.Proofs.Cache.Entries
import StyleEngine.Proofs.Engine.Runs
import StyleEngine.Proofs.Run.Snapshot

/-! # Projects made ready

What stands between the projects of a request and the run over them: each project
gets its settings, its files are reset, and the cache notes what it is analyzed
under.  `Engine.Prepares` relates the two project by project.
-/
namespace StyleEngine

/-! ## Keys of files -/

/-- The keys of the files of projects. -/
def Project.fileKeys (ps : List Project) : List String :=
  (ps.flatMap Project.files).map fun f => f.path.cacheKey

/-- Places with the same key are the same if no key stands twice. -/
theorem Project.slot_eq_of_key {ps : List Project} (h : (Project.fileKeys ps).Nodup)
    {i i' k k' : Nat} {p p' : Project} {f f' : SourceFile} (hp : ps[i]? = some p)
    (hp' : ps[i']? = some p')
    (hf : p.files[k]? = some f) (hf' : p'.files[k']? = some f')
    (hkey : f.path.cacheKey = f'.path.cacheKey) : i = i' ∧ k = k' := by
  induction ps generalizing i i' with
  | nil => cases hp
  | cons q qs ih =>
    rw [fileKeys, List.flatMap_cons, List.map_append, List.nodup_append] at h
    obtain ⟨hhead, htail, hdis⟩ := h
    have hmem {j l : Nat} {p : Project} {f : SourceFile} (hp : qs[j]? = some p)
        (hf : p.files[l]? = some f) : f.path.cacheKey ∈ Project.fileKeys qs :=
      List.mem_map_of_mem (List.mem_flatMap.mpr
        ⟨p, List.mem_of_getElem? hp, List.mem_of_getElem? hf⟩)
    cases i with
    | zero =>
      obtain rfl := Option.some.inj hp
      have hkey₁ := List.mem_map_of_mem (f := fun f : SourceFile => f.path.cacheKey)
        (List.mem_of_getElem? hf)
      cases i' with
      | zero =>
        obtain rfl := Option.some.inj hp'
        have hk := congrArg (Option.map fun f : SourceFile => f.path.cacheKey) hf
        have hk' := congrArg (Option.map fun f : SourceFile => f.path.cacheKey) hf'
        rw [← List.getElem?_map, Option.map_some] at hk hk'
        obtain ⟨hlt, -⟩ := List.getElem?_eq_some_iff.mp hk
        exact ⟨rfl, (List.getElem?_inj hlt hhead).mp (by rw [hk, hk', hkey])⟩
      | succ i' => exact absurd hkey (hdis _ hkey₁ _ (hmem hp' hf'))
    | succ i =>
      cases i' with
      | zero =>
        obtain rfl := Option.some.inj hp'
        have hkey₁ := List.mem_map_of_mem (f := fun f : SourceFile => f.path.cacheKey)
          (List.mem_of_getElem? hf')
        exact absurd hkey.symm (hdis _ hkey₁ _ (hmem hp hf))
      | succ i' =>
        obtain ⟨rfl, rfl⟩ := ih htail hp hp'
        exact ⟨rfl, rfl⟩

theorem Run.distinctKeys_of_nodup {r : Run} (h : (Project.fileKeys r.projects).Nodup) :
    r.DistinctKeys := by
  intro s s' f f' hf hf' hkey
  obtain ⟨p, hp, hk⟩ := Option.bind_eq_some_iff.mp hf
  obtain ⟨p', hp', hk'⟩ := Option.bind_eq_some_iff.mp hf'
  obtain ⟨hi, hk⟩ := Project.slot_eq_of_key h hp hp' hk hk' hkey
  obtain ⟨i, k⟩ := s
  obtain ⟨i', k'⟩ := s'
  simp only at hi hk
  rw [hi, hk]

/-! ## Preparing projects -/

/-- Resetting a file keeps its text. -/
theorem SourceFile.sourceText?_reset (f : SourceFile) : f.reset.sourceText? = f.sourceText? := by
  simp only [SourceFile.reset, SourceFile.sourceText?]
  cases f.text <;> cases f.model <;> rfl

namespace Engine


/-- A project under its settings, before any file is touched. -/
def readied (p : Project) (s : Settings) : Project := { p with settings := some s }.reset

/-- The cache after it was noted what a project is analyzed under, if it is to be. -/
def noted (cache : Option Cache) (p : Project) (s : Settings) : Option Cache :=
  if p.writeCache && s.engine.writeCache then
    cache.map fun c => c.saveProject p.toProjectInfo s.digest
  else cache

/-- Projects are made ready one after the other. -/
inductive Prepares (e : Engine) (t : FileTree) (mode : RunMode) (path : Option Path) :
    Prepared → List Project → Prepared → Prop
  | done {ready : Prepared} : Prepares e t mode path ready [] ready
  | next {before ready : Prepared} {p : Project} {ps : List Project} {s : Settings}
    (hs : e.settingsOf t path p = .ok s)
    (h : Prepares e t mode path (prepareUnder mode before p s) ps ready) :
    Prepares e t mode path before (p :: ps) ready

variable {e : Engine} {t : FileTree} {mode : RunMode} {path : Option Path}
  {before ready : Prepared} {cache : Option Cache} {ps : List Project}

theorem prepares_of_prepare (h : e.prepare t mode path before ps = (ready, .ok ())) :
    e.Prepares t mode path before ps ready := by
  induction ps generalizing before with
  | nil =>
    obtain rfl := (Prod.mk.inj h).1
    exact .done
  | cons p ps ih =>
    unfold prepare at h
    cases hs : e.settingsOf t path p with
    | error cause => rw [hs] at h; cases h
    | ok s =>
      rw [hs] at h
      exact .next hs (ih h)

namespace Prepares

theorem fileKeys (h : e.Prepares t mode path before ps ready) :
    Project.fileKeys ready.projects = Project.fileKeys before.projects ++ Project.fileKeys ps := by
  induction h with
  | done => simp [Project.fileKeys]
  | next _ _ ih =>
    rw [ih]
    simp [Project.fileKeys, prepareUnder, Project.reset, SourceFile.reset]

theorem isOrdered (h : e.Prepares t mode path before ps ready)
    (ho : ∀ c, before.cache = some c → Record.IsOrdered c.document.files) :
    ∀ c, ready.cache = some c → Record.IsOrdered c.document.files := by
  induction h with
  | done => exact ho
  | next _ _ ih =>
    refine ih ?_
    intro c hc
    simp only [prepareUnder] at hc
    split at hc
    · obtain ⟨c₀, hc₀, rfl⟩ := Option.map_eq_some_iff.mp hc
      exact ho c₀ hc₀
    · exact ho c hc

theorem getElem?_of_lt (h : e.Prepares t mode path before ps ready) {i : Nat}
    (hi : i < before.projects.length) : ready.projects[i]? = before.projects[i]? := by
  induction h with
  | done => rfl
  | next _ _ ih =>
    rw [ih (by simp only [prepareUnder, List.length_append]; omega), prepareUnder,
      List.getElem?_append_left hi]

/-- What holds of each project under its settings, with its status, holds of all that are made
ready, if the cache has a property that noting projects keeps. -/
theorem forall_status {P : Project → ProjectStatus → Prop} {Q : Option Cache → Prop}
    (h : e.Prepares t mode path before ps ready)
    (hlen : before.projects.length = before.statuses.length)
    (hbefore : ∀ (i : Nat) p st, before.projects[i]? = some p → before.statuses[i]? = some st →
      P p st)
    (hcache : Q before.cache)
    (hkeeps : ∀ p ∈ ps, ∀ s, e.settingsOf t path p = .ok s → ∀ c, Q c → Q (noted c p s))
    (hnew : ∀ p ∈ ps, ∀ s, e.settingsOf t path p = .ok s →
      ∀ c, Q c → P (readied p s) (statusOf c mode p s)) :
    ready.projects.length = ready.statuses.length ∧
      ∀ (i : Nat) p st, ready.projects[i]? = some p → ready.statuses[i]? = some st → P p st := by
  induction h with
  | done => exact ⟨hlen, hbefore⟩
  | @next before ready p ps s hs _ ih =>
    refine ih (by simp [prepareUnder, hlen]) ?_ (hkeeps p List.mem_cons_self s hs _ hcache)
      (fun p hp => hkeeps p (List.mem_cons_of_mem _ hp))
      (fun p hp => hnew p (List.mem_cons_of_mem _ hp))
    intro i q st hq hst
    simp only [prepareUnder] at hq hst
    by_cases hi : i < before.projects.length
    · rw [List.getElem?_append_left hi] at hq
      rw [List.getElem?_append_left (hlen ▸ hi)] at hst
      exact hbefore i q st hq hst
    · -- the project that was just made ready stands behind the others
      rw [List.getElem?_append_right (Nat.le_of_not_lt hi)] at hq
      rw [List.getElem?_append_right (hlen ▸ Nat.le_of_not_lt hi), ← hlen] at hst
      rw [List.getElem?_singleton] at hq hst
      split at hq
      · next hzero =>
        rw [if_pos hzero] at hst
        obtain rfl := Option.some.inj hq
        obtain rfl := Option.some.inj hst
        exact hnew p List.mem_cons_self s hs before.cache hcache
      · cases hq

/-- The settings of all projects can be read. -/
theorem settings (h : e.Prepares t mode path before ps ready) :
    ∀ p ∈ ps, ∃ s, e.settingsOf t path p = .ok s := by
  induction h with
  | done => exact fun p hp => absurd hp List.not_mem_nil
  | @next _ _ _ _ s hs _ ih =>
    intro p hp
    rcases List.mem_cons.mp hp with rfl | hp
    · exact ⟨s, hs⟩
    · exact ih p hp

/-- Each project is made ready in its place. -/
theorem getElem?_projects (h : e.Prepares t mode path before ps ready) (i : Nat) :
    ready.projects[before.projects.length + i]? = (ps[i]?).bind fun p =>
      (e.settingsOf t path p).toOption.map (readied p) := by
  induction h generalizing i with
  | done => simp
  | @next before ready p ps s hs hrest ih =>
    have hlen : (prepareUnder mode before p s).projects.length = before.projects.length + 1 := by
      simp [prepareUnder]
    cases i with
    | zero =>
      have hkept := hrest.getElem?_of_lt (i := before.projects.length) (by omega)
      rw [Nat.add_zero, hkept]
      simp [prepareUnder, hs, readied, Except.toOption]
    | succ i =>
      have hnext := ih i
      rw [hlen] at hnext
      rw [List.getElem?_cons_succ, ← hnext]
      congr 1
      omega

/-- Each project is made ready under its settings and gets its status, at a cache with a
property that noting projects keeps. -/
theorem exists_status {Q : Option Cache → Prop} (h : e.Prepares t mode path { cache } ps ready)
    (hcache : Q cache)
    (hkeeps : ∀ p ∈ ps, ∀ s, e.settingsOf t path p = .ok s → ∀ c, Q c → Q (noted c p s)) {i : Nat}
    {q : Project} (hq : ready.projects[i]? = some q) :
    ∃ p ∈ ps, ∃ s c, e.settingsOf t path p = .ok s ∧ q = readied p s ∧
      ready.statuses[i]? = some (statusOf c mode p s) ∧ Q c := by
  obtain ⟨hlen, hall⟩ := h.forall_status (P := fun q st => ∃ p ∈ ps, ∃ s c,
      e.settingsOf t path p = .ok s ∧ q = readied p s ∧ st = statusOf c mode p s ∧ Q c)
    rfl (fun i q st hq => by cases hq) hcache hkeeps
    (fun p hp s hs c hc => ⟨p, hp, s, c, hs, rfl, rfl, hc⟩)
  obtain ⟨hlt, -⟩ := List.getElem?_eq_some_iff.mp hq
  have hst := List.getElem?_eq_getElem (hlen ▸ hlt)
  obtain ⟨p, hp, s, c, hs, hready, hstatus, hc⟩ := hall i q _ hq hst
  exact ⟨p, hp, s, c, hs, hready, hstatus ▸ hst, hc⟩

end Prepares

/-! ## What preparing does, whether it succeeds or not -/

/-- The entries of files stay. -/
theorem entryAt?_prepare (e : Engine) (t : FileTree) (mode : RunMode) (path : Option Path)
    (before : Prepared) (ps : List Project) (key : String) :
    ((e.prepare t mode path before ps).1.cache.bind fun c => c.entryAt? key) =
      before.cache.bind fun c => c.entryAt? key := by
  induction ps generalizing before with
  | nil => rfl
  | cons p ps ih =>
    unfold prepare
    cases e.settingsOf t path p with
    | error cause => rfl
    | ok s =>
      simp only [ih]
      cases hc : before.cache with
      | none => simp [prepareUnder, hc]
      | some c =>
        simp only [prepareUnder, hc, Option.map_some]
        split <;> rfl

/-- Every project is one that was there, or is made ready. -/
theorem mem_projects_prepare {p : Project}
    (h : p ∈ (e.prepare t mode path before ps).1.projects) :
    p ∈ before.projects ∨ p ∈ ps ∨
      ∃ p₀ ∈ ps, ∃ s, e.settingsOf t path p₀ = .ok s ∧ p = readied p₀ s := by
  induction ps generalizing before with
  | nil => exact .inl h
  | cons q qs ih =>
    unfold prepare at h
    cases hs : e.settingsOf t path q with
    | error cause =>
      rw [hs] at h
      exact (List.mem_append.mp h).imp id .inl
    | ok s =>
      rw [hs] at h
      rcases ih h with h | h | ⟨p₀, hp₀, s', hs'⟩
      · rcases List.mem_append.mp h with h | h
        · exact .inl h
        · exact .inr (.inr ⟨q, List.mem_cons_self, s, hs, List.mem_singleton.mp h⟩)
      · exact .inr (.inl (List.mem_cons_of_mem _ h))
      · exact .inr (.inr ⟨p₀, List.mem_cons_of_mem _ hp₀, s', hs'⟩)

/-- The projects do not depend on the mode of the run nor on the cache. -/
theorem projects_prepare (e : Engine) (t : FileTree) (path : Option Path) (mode mode' : RunMode)
    (before before' : Prepared) (h : before.projects = before'.projects) (ps : List Project) :
    (e.prepare t mode path before ps).1.projects = (e.prepare t mode' path before' ps).1.projects ∧
      (e.prepare t mode path before ps).2 = (e.prepare t mode' path before' ps).2 := by
  induction ps generalizing before before' with
  | nil => exact ⟨h, rfl⟩
  | cons p ps ih =>
    unfold prepare
    cases e.settingsOf t path p with
    | error cause => exact ⟨by rw [h], rfl⟩
    | ok s => exact ih _ _ (by simp only [prepareUnder, h])

variable {switches : Switches} {settingsPath : Option String} {projects : List Project} {r : Run}

namespace Starts

theorem prepares (h : e.Starts t switches mode settingsPath projects r) :
    ∃ ready told, r = e.busy.begin switches mode ready told ∧
      e.busy.Prepares t mode (settingsPath.map Path.mk) { cache := e.cache } projects ready := by
  obtain ⟨ready, told, hp, -, hr⟩ := opening_eq_ok h.opened
  exact ⟨ready, told, hr, prepares_of_prepare hp⟩

/-- The settings of all projects can be read. -/
theorem settings (h : e.Starts t switches mode settingsPath projects r) :
    ∀ p ∈ projects, ∃ s, e.settingsOf t (settingsPath.map Path.mk) p = .ok s := by
  obtain ⟨ready, told, -, hp⟩ := h.prepares
  exact hp.settings

theorem distinctKeys (h : e.Starts t switches mode settingsPath projects r)
    (hd : (Project.fileKeys projects).Nodup) : r.DistinctKeys := by
  obtain ⟨ready, told, rfl, hp⟩ := h.prepares
  refine Run.distinctKeys_of_nodup ?_
  show (Project.fileKeys ready.projects).Nodup
  rw [hp.fileKeys]
  exact hd

/-- A project of a run is one of the request, under its settings and with its status. -/
theorem exists_status {Q : Option Cache → Prop}
    (h : e.Starts t switches mode settingsPath projects r) (hcache : Q e.cache)
    (hkeeps : ∀ p ∈ projects, ∀ s, e.settingsOf t (settingsPath.map Path.mk) p = .ok s →
      ∀ c, Q c → Q (noted c p s)) {i : Nat} {q : Project} (hq : r.shell? i = some q) :
    ∃ p ∈ projects, ∃ s c, e.settingsOf t (settingsPath.map Path.mk) p = .ok s ∧
      q = { p with files := [], settings := some s } ∧
      r.statuses[i]? = some (statusOf c mode p s) ∧ Q c := by
  obtain ⟨ready, told, rfl, hp⟩ := h.prepares
  obtain ⟨q₀, hq₀, rfl⟩ := Option.map_eq_some_iff.mp hq
  obtain ⟨p, hmem, s, c, hs, rfl, hst, hc⟩ := hp.exists_status hcache hkeeps hq₀
  exact ⟨p, hmem, s, c, hs, rfl, hst, hc⟩

/-- The projects of a run are those of the request, under their settings. -/
theorem shell?_eq (h : e.Starts t switches mode settingsPath projects r) (i : Nat) :
    r.shell? i = (projects[i]?).bind fun p =>
      (e.settingsOf t (settingsPath.map Path.mk) p).toOption.map fun s =>
        { p with files := [], settings := some s } := by
  obtain ⟨ready, told, rfl, hp⟩ := h.prepares
  have hplace := hp.getElem?_projects i
  rw [List.length_nil, Nat.zero_add] at hplace
  show (ready.projects[i]?).map _ = _
  rw [hplace, Option.map_bind]
  refine congrArg _ (funext ?_)
  intro p
  cases hs : e.settingsOf t (settingsPath.map Path.mk) p with
  | error cause =>
    have hbusy : e.busy.settingsOf t (settingsPath.map Path.mk) p = .error cause := hs
    rw [Function.comp_apply, hbusy]
    rfl
  | ok s =>
    have hbusy : e.busy.settingsOf t (settingsPath.map Path.mk) p = .ok s := hs
    rw [Function.comp_apply, hbusy]
    rfl

theorem exists_project (h : e.Starts t switches mode settingsPath projects r) {i : Nat}
    {q : Project} (hq : r.shell? i = some q) :
    ∃ p s, projects[i]? = some p ∧ e.settingsOf t (settingsPath.map Path.mk) p = .ok s ∧
      q = { p with files := [], settings := some s } := by
  rw [h.shell?_eq] at hq
  obtain ⟨p, hp, hq⟩ := Option.bind_eq_some_iff.mp hq
  obtain ⟨s, hs, rfl⟩ := Option.map_eq_some_iff.mp hq
  refine ⟨p, s, hp, ?_, rfl⟩
  cases hset : e.settingsOf t (settingsPath.map Path.mk) p with
  | error cause => rw [hset] at hs; cases hs
  | ok s' => rw [hset] at hs; rw [Option.some.inj hs]

/-- The files of a run are those of the request, reset. -/
theorem file?_eq (h : e.Starts t switches mode settingsPath projects r) (s : Slot) :
    r.file? s = (projects[s.project]?).bind fun p => (p.files[s.file]?).map SourceFile.reset := by
  obtain ⟨ready, told, rfl, hp⟩ := h.prepares
  have hplace := hp.getElem?_projects s.project
  rw [List.length_nil, Nat.zero_add] at hplace
  show (ready.projects[s.project]?).bind _ = _
  rw [hplace]
  cases hproject : projects[s.project]? with
  | none => rfl
  | some p =>
    obtain ⟨settings, hs⟩ := hp.settings p (List.mem_of_getElem? hproject)
    rw [Option.bind_some, Option.bind_some, hs]
    exact List.getElem?_map

/-- The places of the files of a run are those of the request. -/
theorem isSome_file?_iff (h : e.Starts t switches mode settingsPath projects r) (s : Slot) :
    (r.file? s).isSome = true ↔ ∃ q, projects[s.project]? = some q ∧ s.file < q.files.length := by
  rw [h.file?_eq]
  cases projects[s.project]? with
  | none => simp
  | some q => simp

/-- The entries of files are those of the engine. -/
theorem entryAt?_eq (h : e.Starts t switches mode settingsPath projects r) (key : String) :
    r.entryAt? key = e.cache.bind fun c => c.entryAt? key := by
  obtain ⟨ready, told, hp, -, rfl⟩ := opening_eq_ok h.opened
  have hentry := entryAt?_prepare e.busy t mode (settingsPath.map Path.mk)
    { cache := e.busy.cache } projects key
  rw [hp] at hentry
  exact hentry

theorem isOrdered (h : e.Starts t switches mode settingsPath projects r)
    (ho : ∀ c, e.cache = some c → Record.IsOrdered c.document.files) :
    ∀ c, r.cache = some c → Record.IsOrdered c.document.files := by
  obtain ⟨ready, told, rfl, hp⟩ := h.prepares
  exact hp.isOrdered ho

end Starts

/-! ## Requests -/

/-- Whether a request is well-formed and no other run is going on. -/
def Accepts (e : Engine) (settingsPath : Option String) : Prop :=
  (settingsPath.any fun p => (trimBlanks p).isEmpty) = false ∧ e.analyzing = false

/-- What a request was given back for a run that is over. -/
def outcomeOf (e : Engine) (o : Ended) : RunOutcome where
  engine := { e with
    cache := o.cache, analyzing := false, cancelled := o.events.any Event.isCancel }
  files := o.files
  projects := o.projects
  events := o.events ++ (conclude o).1
  result := (conclude o).2

theorem runWith_of_accepts (h : e.Accepts settingsPath) :
    e.runWith sweep t switches processors mode settingsPath projects = e.outcomeOf
      (e.busy.runAll sweep t switches processors mode (settingsPath.map Path.mk) projects) := by
  simp only [runWith, h.1, h.2, Bool.false_eq_true, ↓reduceIte]
  rfl

/-- Why a request is refused, if it is. -/
def refusal (settingsPath : Option String) : EngineError :=
  if settingsPath.any fun p => (trimBlanks p).isEmpty then .invalidSettingsPath
  else .alreadyAnalyzing

/-- A request that is not accepted is refused, whatever it would have come to. -/
theorem if_refused {α : Type} (h : ¬ e.Accepts settingsPath) (refuse : EngineError → α) (met : α) :
    (if settingsPath.any fun p => (trimBlanks p).isEmpty then refuse .invalidSettingsPath
      else if e.analyzing then refuse .alreadyAnalyzing else met) =
      refuse (refusal settingsPath) := by
  unfold refusal
  by_cases hpath : (settingsPath.any fun p => (trimBlanks p).isEmpty) = true
  · rw [if_pos hpath, if_pos hpath]
  · have hbusy : e.analyzing = true := by
      refine Decidable.byContradiction ?_
      intro hidle
      exact h ⟨Bool.eq_false_iff.mpr hpath, Bool.eq_false_iff.mpr hidle⟩
    rw [if_neg hpath, if_neg hpath, if_pos hbusy]

theorem runWith_of_refused (h : ¬ e.Accepts settingsPath) :
    e.runWith sweep t switches processors mode settingsPath projects =
      { engine := e, files := t, projects, result := .error (refusal settingsPath) } :=
  if_refused h
    (fun cause => ({ engine := e, files := t, projects, result := .error cause } : RunOutcome)) _

/-- **How a request is met**: it is refused, it fails before any file is touched, or a run over
the projects starts. -/
theorem runWith_cases (e : Engine) (sweep : Sweep) (t : FileTree) (switches : Switches)
    (processors : Nat) (mode : RunMode) (settingsPath : Option String) (projects : List Project) :
    let o := e.runWith sweep t switches processors mode settingsPath projects
    let ready := e.busy.prepare t mode (settingsPath.map Path.mk) { cache := e.cache } projects
    let begun := callAll (fun a p => a.before p switches) (participants e.registry)
    (¬ e.Accepts settingsPath ∧ o.projects = projects ∧ o.engine = e ∧
      ∃ cause, o.result = .error cause) ∨
    (e.Accepts settingsPath ∧ (ready.2 ≠ .ok () ∨ begun.result ≠ .ok ()) ∧
      o.projects = ready.1.projects ∧ o.engine.registry = e.registry ∧
      o.engine.cache = ready.1.cache ∧ ∀ summary, o.result = .ok summary →
        summary.converged = false) ∨
    (e.Accepts settingsPath ∧ ready.2 = .ok () ∧ begun.result = .ok () ∧
      e.Starts t switches mode settingsPath projects
        (e.busy.begin switches mode ready.1 begun.events)) := by
  intro o ready begun
  by_cases hpath : (settingsPath.any fun p => (trimBlanks p).isEmpty) = true
  · refine .inl ⟨?_, by simp [o, runWith, hpath]⟩
    intro hacc
    exact absurd (hacc.1.symm.trans hpath) Bool.false_ne_true
  · by_cases hidle : e.analyzing = true
    · refine .inl ⟨?_, by simp [o, runWith, hpath, hidle]⟩
      intro hacc
      exact absurd (hacc.2.symm.trans hidle) Bool.false_ne_true
    · have hacc : e.Accepts settingsPath :=
        ⟨Bool.eq_false_iff.mpr hpath, Bool.eq_false_iff.mpr hidle⟩
      refine .inr ?_
      have hprepare : e.busy.prepare t mode (settingsPath.map Path.mk) { cache := e.busy.cache }
          projects = ready := rfl
      have hbefore : callAll (fun a p => a.before p switches) (participants e.busy.registry) =
          begun := rfl
      -- the two steps before the run may each fail, so both are taken apart
      generalize ready = made at hprepare ⊢
      generalize begun = hooks at hbefore ⊢
      obtain ⟨prepared, result⟩ := made
      obtain ⟨told, started⟩ := hooks
      cases result with
      | error message =>
        refine .inl ⟨hacc, .inl (by simp), ?_⟩
        simp [o, runWith, hpath, hidle, runAll, opening, openPrepared, hprepare, conclude,
          RunSummary.collect]
      | ok _ =>
        cases started with
        | error crash =>
          refine .inl ⟨hacc, .inr (by simp), ?_⟩
          simp [o, runWith, hpath, hidle, runAll, opening, openPrepared, hprepare, hbefore,
            conclude, RunSummary.collect]
        | ok _ =>
          refine .inr ⟨hacc, rfl, rfl, hacc.1, hacc.2, ?_⟩
          simp only [opening, openPrepared, hprepare, hbefore]

/-- A request whose run has converged was met by a run. -/
theorem exists_starts_of_converged {sweep : Sweep} {processors : Nat} {summary : RunSummary}
    (hresult : (e.runWith sweep t switches processors mode settingsPath projects).result =
      .ok summary) (hconverged : summary.converged = true) :
    ∃ r, e.Starts t switches mode settingsPath projects r := by
  rcases e.runWith_cases sweep t switches processors mode settingsPath projects with
    ⟨-, -, -, cause, herror⟩ | ⟨-, -, -, -, -, hfails⟩ | ⟨-, -, -, hstart⟩
  · rw [hresult] at herror
    cases herror
  · exact absurd ((hfails summary hresult).symm.trans hconverged) Bool.false_ne_true
  · exact ⟨_, hstart⟩

/-- Projects whose settings can be read can be made ready. -/
theorem prepare_eq_ok {before : Prepared} {ps : List Project}
    (h : ∀ p ∈ ps, ∃ s, e.settingsOf t path p = .ok s) :
    (e.prepare t mode path before ps).2 = .ok () := by
  induction ps generalizing before with
  | nil => rfl
  | cons p ps ih =>
    obtain ⟨s, hs⟩ := h p List.mem_cons_self
    unfold prepare
    rw [hs]
    exact ih fun q hq => h q (List.mem_cons_of_mem _ hq)

end Engine

end StyleEngine
