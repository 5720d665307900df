import StyleEngine.Proofs.Engine.RunEffects

/-! # Settings that a project keeps

A run reads the settings of a project only if the project has none, and leaves them
with the project.  So a project is analyzed under the settings of the first run that
came to read them, at the settings path and in the file tree of that run, whatever
later runs are asked for (`Project.Past.settings`).  A run comes to read the settings
of a project unless it is refused, those of a project before it cannot be read, or
they cannot be read themselves (`Request.reads`).
-/
namespace StyleEngine

/-! ## What one request reads -/

/-- The settings that preparing some projects reads for the one at a place, if it comes to it and
they can be read. -/
def Engine.reads (e : Engine) (t : FileTree) (path : Option Path) :
    List Project → Nat → Option Settings
  | [], _ => none
  | p :: _, 0 => (e.environment.settingsFor t p.toProjectInfo path).toOption
  | p :: ps, i + 1 =>
    match e.settingsOf t path p with
    | .error _ => none
    | .ok _ => reads e t path ps i

namespace Engine

variable {e : Engine} {t : FileTree} {mode : RunMode} {path : Option Path}

/-- A project has its own settings, or those that are read for it. -/
theorem toOption_settingsOf (e : Engine) (t : FileTree) (path : Option Path) (p : Project) :
    (e.settingsOf t path p).toOption =
      p.settings.or (e.environment.settingsFor t p.toProjectInfo path).toOption := by
  unfold settingsOf
  cases p.settings <;> rfl

theorem reads_busy (e : Engine) (t : FileTree) (path : Option Path) (ps : List Project) (i : Nat) :
    e.busy.reads t path ps i = e.reads t path ps i := by
  induction ps generalizing i with
  | nil => rfl
  | cons p ps ih =>
    cases i with
    | zero => rfl
    | succ i =>
      rw [reads, reads, ih]
      rfl

/-- **Preparing gives a project settings if it has none**, whether the preparation succeeds or
not. -/
theorem settings_prepare (e : Engine) (t : FileTree) (mode : RunMode) (path : Option Path)
    (before : Prepared) (ps : List Project) (i : Nat) :
    ((e.prepare t mode path before ps).1.projects[before.projects.length + i]?).map
        Project.settings =
      (ps[i]?).map fun p => p.settings.or (e.reads t path ps i) := by
  induction ps generalizing before i with
  | nil => simp [prepare]
  | cons p ps ih =>
    unfold prepare
    have hown := toOption_settingsOf e t path p
    cases hs : e.settingsOf t path p with
    | error cause =>
      -- nothing is read, from this project on
      rw [hs] at hown
      obtain ⟨hnone, hread⟩ := Option.or_eq_none_iff.mp hown.symm
      simp only [List.getElem?_append_right (Nat.le_add_right ..), Nat.add_sub_cancel_left]
      cases i with
      | zero => simp [reads, hnone, hread]
      | succ i => simp [reads, hs]
    | ok s =>
      rw [hs] at hown
      cases i with
      | zero =>
        -- what follows does not touch the project that was just made ready
        obtain ⟨qs, hqs, -⟩ := e.exists_prepare t mode path (prepareUnder mode before p s) ps
        have hplace : (e.prepare t mode path (prepareUnder mode before p s) ps).1.projects[
            before.projects.length]? = some (readied p s) := by
          rw [hqs]
          simp [prepareUnder, readied]
        show Option.map Project.settings _ = some (p.settings.or _)
        rw [reads, ← hown, Nat.add_zero, hplace]
        rfl
      | succ i =>
        have hrest := ih (prepareUnder mode before p s) i
        have hlen :
            (prepareUnder mode before p s).projects.length = before.projects.length + 1 := by
          simp [prepareUnder]
        rw [hlen, Nat.add_right_comm, Nat.add_assoc] at hrest
        simpa only [List.getElem?_cons_succ, reads, hs] using hrest

end Engine

namespace Request

/-- The settings that a request reads for the project at a place, if it comes to it and they can
be read. -/
def reads (q : Request) (i : Nat) : Option Settings :=
  if (q.settingsPath.any fun p => (trimBlanks p).isEmpty) || q.engine.analyzing then none
  else q.engine.reads q.files (q.settingsPath.map Path.mk) q.projects i

theorem reads_of_accepts {q : Request} (h : q.engine.Accepts q.settingsPath) (i : Nat) :
    q.reads i = q.engine.reads q.files (q.settingsPath.map Path.mk) q.projects i := by
  rw [reads, h.1, h.2]
  rfl

theorem reads_of_not_accepts {q : Request} (h : ¬ q.engine.Accepts q.settingsPath) (i : Nat) :
    q.reads i = none := by
  unfold reads
  split
  · rfl
  · next hok =>
    obtain ⟨hpath, hidle⟩ := Bool.or_eq_false_iff.mp (Bool.eq_false_iff.mpr hok)
    exact absurd ⟨hpath, hidle⟩ h

/-- The projects of a request are as they were prepared, but for their files. -/
theorem settings_projects {q : Request} (hs : q.sweep.Interleaves)
    (haccepts : q.engine.Accepts q.settingsPath) (i : Nat) :
    (q.outcome.projects[i]?).map Project.settings =
      ((q.engine.busy.prepare q.files q.mode (q.settingsPath.map Path.mk)
        { cache := q.engine.cache } q.projects).1.projects[i]?).map Project.settings := by
  rcases q.engine.runWith_cases q.sweep q.files q.switches q.processors q.mode q.settingsPath
    q.projects with ⟨hrefused, -⟩ | ⟨-, -, hprojects, -⟩ | ⟨-, -, -, hstart⟩
  · exact absurd haccepts hrefused
  · rw [outcome, hprojects]
  · have hpass := Engine.isPass_sweepOf hs q.engine q.processors
      (q.engine.busy.begin q.switches q.mode (q.engine.busy.prepare q.files q.mode
        (q.settingsPath.map Path.mk) { cache := q.engine.cache } q.projects).1
        (Engine.callAll (fun a p => a.before p q.switches)
          (Engine.participants q.engine.registry)).events)
    have hsame := (hstart.fresh.passes hpass).sameFiles hpass hstart.fresh.wellPlaced
    have hshell := congrArg (Option.map Project.settings) (hsame.shell i)
    simp only [Run.shell?, Option.map_map] at hshell
    rw [outcome, Engine.runWith_of_starts hstart]
    simp only [Engine.projects_close]
    exact hshell

/-- **A request gives a project settings if it has none.** -/
theorem settings_outcome {q : Request} (hs : q.sweep.Interleaves) {i : Nat} {p p' : Project}
    (hp : q.projects[i]? = some p) (hp' : q.outcome.projects[i]? = some p') :
    p'.settings = p.settings.or (q.reads i) := by
  by_cases haccepts : q.engine.Accepts q.settingsPath
  · have hsettings := settings_projects hs haccepts i
    have hready := q.engine.busy.settings_prepare q.files q.mode (q.settingsPath.map Path.mk)
      { cache := q.engine.cache } q.projects i
    rw [List.length_nil, Nat.zero_add] at hready
    rw [hready, hp, hp', Option.map_some, Option.map_some, Engine.reads_busy] at hsettings
    rw [reads_of_accepts haccepts]
    exact Option.some.inj hsettings
  · rcases q.engine.runWith_cases q.sweep q.files q.switches q.processors q.mode q.settingsPath
      q.projects with ⟨-, hprojects, -⟩ | ⟨hacc, -⟩ | ⟨hacc, -⟩
    · rw [outcome, hprojects, hp] at hp'
      rw [reads_of_not_accepts haccepts, Option.or_none, Option.some.inj hp']
    · exact absurd hacc haccepts
    · exact absurd hacc haccepts

end Request

/-! ## What a project has been through -/

/-- The requests that a project has been in, in order, each with its place there.  A new project
has no settings. -/
inductive Project.Past : List (Request × Nat) → Project → Prop
  | new {p : Project} (h : p.settings = none) : Past [] p
  | run {past : List (Request × Nat)} {p p' : Project} {q : Request} {i : Nat} (h : Past past p)
    (hs : q.sweep.Interleaves) (hp : q.projects[i]? = some p)
    (hp' : q.outcome.projects[i]? = some p') : Past (past ++ [(q, i)]) p'

/-- The first settings that requests read. -/
def Request.firstRead (past : List (Request × Nat)) : Option Settings :=
  past.findSome? fun x => x.1.reads x.2

/-- **A project has the settings that were read for it first.** -/
theorem Project.Past.settings {past : List (Request × Nat)} {p : Project}
    (h : Project.Past past p) : p.settings = Request.firstRead past := by
  induction h with
  | new h => exact h
  | run _ hs hp hp' ih =>
    rw [Request.settings_outcome hs hp hp', ih, Request.firstRead, Request.firstRead,
      List.findSome?_append, List.findSome?_singleton]

/-! ## What a project is analyzed under -/

namespace Run

/-- The settings of a project and their digest in its status. -/
def Under (r : Run) (i : Nat) (s : Settings) : Prop :=
  (r.shell? i).map Project.effectiveSettings = some s ∧
    (r.statuses[i]?).map ProjectStatus.settingsDigest = some s.digest

/-- What is noted of complete projects has no part in what they are analyzed under. -/
theorem Under.settle {r : Run} {i : Nat} {s : Settings} (h : r.Under i s) : r.settle.Under i s := by
  refine ⟨h.1, ?_⟩
  rw [← h.2]
  simp only [Run.settle, List.getElem?_map, List.getElem?_zipIdx, Option.map_map]
  rfl

/-- A pass does not change what projects are analyzed under. -/
theorem Under.pass {r : Run} {i : Nat} {s : Settings} (h : r.Under i s) (hr : r.WellPlaced)
    {p : Pool} (hp : p.IsPass r) : p.run.Under i s := by
  refine ⟨?_, ?_⟩
  · rw [(hp.frame hr).shell]
    exact h.1
  · rw [(hp.frame hr).statuses]
    exact h.2

/-- **All work on the files of a project is done under its settings**: what comes of a file in a
pass is what its job, with the settings and the status that the project has there, makes of the
file and of what the cache holds for it when its turn comes. -/
theorem Under.handled {r : Run} {i : Nat} {s : Settings} (h : r.Under i s) (hr : r.WellPlaced)
    {p : Pool} (hp : p.IsPass r) {before after : List Handled} {x : Handled}
    (hx : p.handled = before ++ x :: after) (hslot : x.slot.project = i) :
    ∃ q st f r₁, r.shell? i = some q ∧ r.statuses[i]? = some st ∧ r.file? x.slot = some f ∧
      q.effectiveSettings = s ∧ st.settingsDigest = s.digest ∧ r.Works before r₁ ∧
      x.result = (r₁.job q st).process (r₁.cached? (r₁.job q st) f) f := by
  have hworks := hp.works hr
  have hnd := hp.handled_nodup hr
  rw [hx] at hworks hnd
  obtain ⟨q, f, r₁, hq, hf, hw, hresult⟩ := hworks.result_eq_of_turn hnd
  rw [hslot] at hq hresult
  obtain ⟨hsettings, hdigest⟩ := h
  obtain ⟨st, hst, hdigest⟩ := Option.map_eq_some_iff.mp hdigest
  rw [hq] at hsettings
  rw [hst] at hresult
  exact ⟨q, st, f, r₁, hq, hst, hf, Option.some.inj hsettings, hdigest, hw, hresult⟩

end Run

namespace Request

/-- Whether the projects of a request could be made ready. -/
def Prepares (q : Request) (ready : Engine.Prepared) : Prop :=
  q.engine.Accepts q.settingsPath ∧
    q.engine.busy.prepare q.files q.mode (q.settingsPath.map Path.mk) { cache := q.engine.cache }
      q.projects = (ready, .ok ())

/-- Whether a request leads to passes over a run. -/
def Starts (q : Request) (r : Run) : Prop :=
  q.engine.Starts q.files q.switches q.mode q.settingsPath q.projects r

/-- The passes of the run that a request leads to. -/
def passes (q : Request) (r : Run) : List Pool :=
  r.passLog (q.engine.sweepOf q.sweep q.processors r) maxPasses

/-- A request whose projects are ready leads to passes if the add-ins are ready too. -/
theorem Prepares.starts {q : Request} {ready : Engine.Prepared} (h : q.Prepares ready)
    {told : List Event}
    (hbegun : Engine.callAll (fun a p => a.before p q.switches)
      (Engine.participants q.engine.registry) = { events := told, result := .ok () }) :
    q.Starts (q.engine.busy.begin q.switches q.mode ready told) := by
  refine ⟨h.1.1, h.1.2, ?_⟩
  have hready : q.engine.busy.prepare q.files q.mode (q.settingsPath.map Path.mk)
    { cache := q.engine.busy.cache } q.projects = (ready, .ok ()) := h.2
  have hready' : Engine.callAll (fun a p => a.before p q.switches)
    (Engine.participants q.engine.busy.registry) = { events := told, result := .ok () } := hbegun
  simp only [Engine.opening, hready, Engine.openPrepared, hready']

/-- The run that a request leads to is made over the projects that were made ready. -/
theorem Prepares.begin {q : Request} {ready : Engine.Prepared} (h : q.Prepares ready) {r : Run}
    (hr : q.Starts r) : r.projects = ready.projects ∧ r.statuses = ready.statuses := by
  obtain ⟨ready', told, hprepare, -, rfl⟩ := Engine.opening_eq_ok hr.opened
  obtain rfl := (Prod.mk.inj (h.2.symm.trans hprepare)).1
  exact ⟨rfl, rfl⟩

/-- The status of a project has the digest of the settings that it is made ready under. -/
theorem Prepares.exists_settings {q : Request} {ready : Engine.Prepared} (h : q.Prepares ready)
    {i : Nat} {p : Project} (hp : q.projects[i]? = some p) :
    ∃ s, p.settings.or (q.reads i) = some s ∧
      q.engine.settingsOf q.files (q.settingsPath.map Path.mk) p = .ok s ∧
      (ready.projects[i]?).map Project.effectiveSettings = some s ∧
      (ready.statuses[i]?).map ProjectStatus.settingsDigest = some s.digest := by
  have hprepares := Engine.prepares_of_prepare h.2
  obtain ⟨s, hs⟩ := hprepares.settings p (List.mem_of_getElem? hp)
  have hplace := hprepares.getElem?_projects i
  have hread := q.engine.busy.settings_prepare q.files q.mode (q.settingsPath.map Path.mk)
    { cache := q.engine.cache } q.projects i
  rw [List.length_nil, Nat.zero_add] at hplace hread
  rw [hp, Option.bind_some, hs] at hplace
  rw [h.2, hp, hplace, Engine.reads_busy, ← reads_of_accepts h.1] at hread
  obtain ⟨p', -, s', c, -, hready, hstatus, -⟩ :=
    hprepares.exists_status (Q := fun _ => True) trivial (fun _ _ _ _ _ _ => trivial) hplace
  obtain rfl : s = s' := by
    have hsettings := congrArg Project.settings hready
    exact Option.some.inj hsettings
  refine ⟨s, (Option.some.inj hread).symm, hs, ?_, ?_⟩
  · rw [hplace]
    rfl
  · rw [hstatus]
    rfl

end Request

/-- **A project is analyzed under the settings that were read for it first.**  Whatever runs a
project has been in, each with its own settings path, file tree and engine: if its projects are
made ready for another run, that run analyzes it, in every pass, under the settings that the first
of all these runs that came to read them did read, and the digest in its status is theirs: what
comes of each of its files in a pass is what the job for it under these settings makes of the file
as it is when the pass begins, and of what the cache holds for it when its turn comes.  They are
the settings that the environment gives at the settings path of this very run if the project had
none. -/
theorem Project.Past.analyzed_under_first {past : List (Request × Nat)} {p : Project}
    (h : Project.Past past p) {q : Request} (hs : q.sweep.Interleaves) {i : Nat}
    (hp : q.projects[i]? = some p) {ready : Engine.Prepared} (hq : q.Prepares ready) :
    ∃ s, Request.firstRead (past ++ [(q, i)]) = some s ∧
      (p.settings = none → q.engine.environment.settingsFor q.files p.toProjectInfo
        (q.settingsPath.map Path.mk) = .ok s) ∧
      (ready.projects[i]?).map Project.effectiveSettings = some s ∧
      (ready.statuses[i]?).map ProjectStatus.settingsDigest = some s.digest ∧
      ∀ r, q.Starts r → ∀ pool ∈ q.passes r, ∃ r₀,
        Run.Reaches (q.engine.sweepOf q.sweep q.processors r) r r₀ ∧ pool.IsPass r₀ ∧
        ∀ before x after, pool.handled = before ++ x :: after → x.slot.project = i →
          ∃ p₀ st f r₁, r₀.shell? i = some p₀ ∧ r₀.statuses[i]? = some st ∧
            r₀.file? x.slot = some f ∧ p₀.effectiveSettings = s ∧ st.settingsDigest = s.digest ∧
            r₀.Works before r₁ ∧
            x.result = (r₁.job p₀ st).process (r₁.cached? (r₁.job p₀ st) f) f := by
  obtain ⟨s, hread, hown, hsettings, hdigest⟩ := hq.exists_settings hp
  refine ⟨s, ?_, ?_, hsettings, hdigest, ?_⟩
  · rw [Request.firstRead, List.findSome?_append, List.findSome?_singleton, ← hread, h.settings]
    rfl
  · intro hnone
    rwa [Engine.settingsOf, hnone] at hown
  · intro r hr pool hpool
    obtain ⟨hprojects, hstatuses⟩ := hq.begin hr
    have hunder : r.Under i s := by
      refine ⟨?_, by rw [hstatuses, hdigest]⟩
      rw [Run.shell?, hprojects, Option.map_map, ← hsettings]
      rfl
    have hpass := Engine.isPass_sweepOf hs q.engine q.processors r
    have hfresh := Engine.Starts.fresh hr
    obtain ⟨r₀, hreaches, rfl⟩ := (hfresh.passes hpass).exists_reaches pool hpool
    obtain ⟨hr₀, hunder₀⟩ := hreaches.keeps (P := fun r => r.Under i s) hpass hfresh.wellPlaced
      hunder (fun _ _ hr h hp _ => (h.pass hr hp).settle)
    refine ⟨r₀, hreaches, hpass r₀ hr₀, ?_⟩
    intro before x after hx hslot
    exact hunder₀.handled hr₀ (hpass r₀ hr₀) hx hslot

/-! ## Two settings paths -/

/-- A file tree with settings at two paths, which disagree about a rule. -/
def twoSettings : FileTree where
  nodes :=
    [(["work", "one.json"], .file (.text "\x7b\x7d")),
     (["work", "two.json"], .file (.text "\x7b\"rules\": \x7b\"disabled\": [\"Tab\"]\x7d\x7d"))]

/-- A request under the settings at a path, to an engine with a parser. -/
def requestUnder (path : String) (projects : List Project) : Request where
  engine := { registry := Registry.withBuiltins.addParser (textParser "text" ["txt"]) {} true }
  sweep := Sweep.oneByOne
  files := twoSettings
  switches := []
  processors := 1
  mode := {}
  settingsPath := some path
  projects := projects

theorem settingsFor_requestUnder (path : String) (ps : List Project) :
    (requestUnder path ps).engine.environment.settingsFor = Settings.ofProject := rfl

/-- A new project with a file. -/
def newApp : Project where
  name := "app"
  files := [.ofText ⟨"a.txt"⟩ "a\n"]

/-- The new project after a run under the first settings. -/
def runUnderOne : List Project := (requestUnder "one.json" [newApp]).outcome.projects

/-- The rules that are switched off for the projects of a run. -/
def Engine.Prepared.disabled (ready : Engine.Prepared) : List (List String) :=
  ready.projects.map fun p => p.effectiveSettings.rules.disabled

/-- What a run of it under the second settings is made over. -/
def readyForTwo : Engine.Prepared :=
  ((requestUnder "two.json" runUnderOne).engine.busy.prepare twoSettings {} (some ⟨"two.json"⟩) {}
    runUnderOne).1

theorem disabled_readyForTwo : readyForTwo.disabled = [[]] := by decide +kernel

theorem prepares_readyForTwo : (requestUnder "two.json" runUnderOne).Prepares readyForTwo := by
  have hread : runUnderOne.all (fun p => p.settings.isSome) = true := by decide +kernel
  refine ⟨⟨by decide, rfl⟩, Prod.ext rfl (Engine.prepare_eq_ok ?_)⟩
  intro p hp
  obtain ⟨s, hs⟩ := Option.isSome_iff_exists.mp (List.all_eq_true.mp hread p hp)
  exact ⟨s, by rw [Engine.settingsOf, hs]⟩

theorem ofProject_two (p : ProjectInfo) : Settings.ofProject twoSettings p (some ⟨"two.json"⟩) =
    .ok { rules := { disabled := ["Tab"] } } := by
  have hread : (Settings.load twoSettings ⟨"two.json"⟩).toOption =
    some { rules := { disabled := ["Tab"] } } := by decide +kernel
  rw [Settings.ofProject]
  cases hs : Settings.load twoSettings ⟨"two.json"⟩ with
  | error cause => rw [hs] at hread; cases hread
  | ok s => rw [hs] at hread; rw [Option.some.inj hread]

/-- The run under the second settings, before its first pass. -/
def begunForTwo : Run :=
  (requestUnder "two.json" runUnderOne).engine.busy.begin [] {} readyForTwo []

theorem starts_begunForTwo : (requestUnder "two.json" runUnderOne).Starts begunForTwo :=
  prepares_readyForTwo.starts rfl

theorem outcomes_begunForTwo :
    ((requestUnder "two.json" runUnderOne).passes begunForTwo).map
      (fun pool => pool.handled.map fun x => (x.slot, x.result.outcome)) =
        [[(⟨0, 0⟩, .analyzed)]] := by
  decide +kernel

/-- A project that was run before is made ready, and its file analyzed, under the settings of that
run. -/
theorem analyzed_under_first_runUnderOne : ∃ p s,
    runUnderOne[0]? = some p ∧ Project.Past [(requestUnder "one.json" [newApp], 0)] p ∧
    Sweep.Interleaves Sweep.oneByOne ∧ (requestUnder "two.json" runUnderOne).Prepares readyForTwo ∧
    s.rules.disabled = [] ∧ (readyForTwo.projects[0]?).map Project.effectiveSettings = some s ∧
    (requestUnder "two.json" runUnderOne).Starts begunForTwo ∧
    ∃ pool ∈ (requestUnder "two.json" runUnderOne).passes begunForTwo, ∃ x ∈ pool.handled,
      x.result.outcome = .analyzed ∧ ∃ p₀ st f r₁, p₀.effectiveSettings = s ∧
        x.result = (Run.job r₁ p₀ st).process (r₁.cached? (r₁.job p₀ st) f) f := by
  have hs := Sweep.oneByOne_interleaves.interleaves
  have hsome : (runUnderOne[0]?).isSome = true := by decide +kernel
  obtain ⟨p, hp⟩ := Option.isSome_iff_exists.mp hsome
  have hpast : Project.Past [(requestUnder "one.json" [newApp], 0)] p :=
    .run (.new (p := newApp) rfl) hs rfl hp
  obtain ⟨s, -, -, hsettings, -, hpasses⟩ := hpast.analyzed_under_first hs
    (q := requestUnder "two.json" runUnderOne) (i := 0) hp prepares_readyForTwo
  refine ⟨p, s, hp, hpast, hs, prepares_readyForTwo, ?_, hsettings, starts_begunForTwo, ?_⟩
  · have hdisabled := congrArg (fun l => l[0]?) disabled_readyForTwo
    obtain ⟨p', hp', rfl⟩ := Option.map_eq_some_iff.mp hsettings
    simp only [Engine.Prepared.disabled, List.getElem?_map] at hdisabled
    rw [hp'] at hdisabled
    exact Option.some.inj hdisabled
  · obtain ⟨pool, hlog, hhandled⟩ := List.map_eq_singleton_iff.mp outcomes_begunForTwo
    obtain ⟨x, hx, hout⟩ := List.map_eq_singleton_iff.mp hhandled
    obtain ⟨hslot, houtcome⟩ := Prod.mk.inj hout
    have hpool : pool ∈ (requestUnder "two.json" runUnderOne).passes begunForTwo := by
      rw [hlog]
      exact List.mem_singleton_self pool
    obtain ⟨r₀, -, -, hfiles⟩ := hpasses begunForTwo starts_begunForTwo pool hpool
    obtain ⟨p₀, st, f, r₁, -, -, -, hunder, -, -, hresult⟩ :=
      hfiles [] x [] hx (congrArg Slot.project hslot)
    exact ⟨pool, hpool, x, hx ▸ List.mem_singleton_self x, houtcome, p₀, st, f, r₁, hunder, hresult⟩

/-- **A later settings path has no effect** on a project that has its settings: a run under the
second path passes its preparation, but not under the settings that the environment gives there. -/
theorem second_path_has_no_effect : ∃ s,
    (requestUnder "two.json" runUnderOne).Prepares readyForTwo ∧
    (∀ p ∈ runUnderOne, (requestUnder "two.json" runUnderOne).engine.environment.settingsFor
      twoSettings p.toProjectInfo (some ⟨"two.json"⟩) = .ok s) ∧
    readyForTwo.projects ≠ [] ∧ ∀ p ∈ readyForTwo.projects, p.effectiveSettings ≠ s := by
  refine ⟨{ rules := { disabled := ["Tab"] } }, prepares_readyForTwo, ?_, ?_, ?_⟩
  · intro p _
    rw [settingsFor_requestUnder]
    exact ofProject_two p.toProjectInfo
  · intro hnone
    have hdisabled := disabled_readyForTwo
    rw [Engine.Prepared.disabled, hnone] at hdisabled
    cases hdisabled
  · intro p hp heq
    have hmem : p.effectiveSettings.rules.disabled ∈ readyForTwo.disabled :=
      List.mem_map_of_mem (f := fun p : Project => p.effectiveSettings.rules.disabled) hp
    rw [disabled_readyForTwo, heq, List.mem_singleton] at hmem
    cases hmem

end StyleEngine
