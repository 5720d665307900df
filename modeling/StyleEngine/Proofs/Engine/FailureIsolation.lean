import StyleEngine.Proofs.Engine.ScheduleIndependence
import StyleEngine.Proofs.Engine.SettingsMemory
import StyleEngine.Proofs.Run.FailureIsolation

/-! # Runs beside a failing analyzer

An analyzer that does nothing but fail on some files does no harm to a full analysis
(`Request.failure_stays_apart`): where it fails, its failure stands beside what is
found without it, and no result is cached; all else is as it is without the analyzer.
For this the other analyzers must not look at what is recorded on a file, and nobody
may report the failure in its place (`failure_shows`).
-/
namespace StyleEngine

/-! ## What add-ins are told of a run -/

/-- Whether two reactions have the same result, and both ask a run to stop or neither. -/
def Reaction.Echoes {ε α : Type} (x x' : Reaction ε α) : Prop :=
  x'.result = x.result ∧ x'.events.any Event.isCancel = x.events.any Event.isCancel

namespace Reaction

variable {ε α β γ : Type}

theorem andThen_assoc (x : Reaction ε α) (y : α → Reaction ε β) (z : β → Reaction ε γ) :
    (x.andThen y).andThen z = x.andThen fun b => (y b).andThen z := by
  unfold andThen
  cases x.result with
  | error cause => rfl
  | ok b => cases hy : (y b).result <;> simp [hy]

theorem Echoes.refl (x : Reaction ε α) : x.Echoes x := ⟨rfl, rfl⟩

theorem Echoes.andThen {x x' : Reaction ε α} {y y' : α → Reaction ε β} (hx : x.Echoes x')
    (hy : ∀ b, (y b).Echoes (y' b)) : (x.andThen y).Echoes (x'.andThen y') := by
  obtain ⟨hresult, hcancels⟩ := hx
  unfold Reaction.andThen
  rw [hresult]
  cases x.result with
  | error cause => exact ⟨rfl, hcancels⟩
  | ok b => exact ⟨(hy b).1, by simp only [List.any_append, hcancels, (hy b).2]⟩

/-- A quiet reaction before another one does not show. -/
theorem IsQuiet.echoes {x : Reaction Crash Unit} (hx : x.IsQuiet) (y : Reaction Crash β) :
    y.Echoes (x.andThen fun _ => y) := by
  obtain ⟨hresult, hcancels⟩ := hx
  unfold Reaction.andThen
  rw [hresult]
  exact ⟨rfl, by rw [List.any_append, hcancels, Bool.false_or]⟩

end Reaction

/-- What a summary tells of the work of a run. -/
def RunSummary.effort (s : RunSummary) : Nat × Nat := (s.filesAnalyzed, s.passes)

namespace Engine

variable {call : AddIn → Profile → Reaction Crash Unit} {r r' : Registry} {a : AnalyzerEntry}
  {F : Path → Prop}

theorem callAll_append (l l' : List (AddIn × Profile)) :
    callAll call (l ++ l') = (callAll call l).andThen fun _ => callAll call l' := by
  induction l with
  | nil => rfl
  | cons x l ih =>
    obtain ⟨b, p⟩ := x
    rw [List.cons_append, callAll, ih, callAll, Reaction.andThen_assoc]

/-- A parser and its analyzers. -/
def team (r : Registry) (e : ParserEntry) : List (AddIn × Profile) :=
  (e.parser.toAddIn, e.profile) ::
    (r.analyzersOf e.parser.id).map fun a => (a.analyzer.toAddIn, a.profile)

theorem participants_eq (r : Registry) :
    participants r = (r.parsers.map ParserEntry.bare).flatMap (team r) := by
  rw [List.flatMap_map]
  rfl

/-- A quiet analyzer among those of a parser does not show. -/
theorem echoes_team (hg : r.Gains a r') (hq : (call a.analyzer.toAddIn a.profile).IsQuiet)
    (e : ParserEntry) : (callAll call (team r e)).Echoes (callAll call (team r' e)) := by
  by_cases he : e.parser.id = a.analyzer.parserId
  · obtain ⟨l₁, l₂, hl, hl'⟩ := hg.exists_analyzersOf
    rw [team, team, he, hl, hl', List.map_append, List.map_append, List.map_cons,
      ← List.cons_append, ← List.cons_append, callAll_append, callAll_append]
    exact (Reaction.Echoes.refl _).andThen fun _ => hq.echoes _
  · rw [team, team, hg.analyzersOf_of_ne he]
    exact .refl _

/-- **A quiet analyzer does not show where add-ins are told of a run.** -/
theorem echoes_participants (hg : r.Gains a r')
    (hq : (call a.analyzer.toAddIn a.profile).IsQuiet) :
    (callAll call (participants r)).Echoes (callAll call (participants r')) := by
  rw [participants_eq, participants_eq, hg.parsers]
  induction r.parsers.map ParserEntry.bare with
  | nil => exact .refl _
  | cons e es ih =>
    rw [List.flatMap_cons, List.flatMap_cons, callAll_append, callAll_append]
    exact (echoes_team hg hq e).andThen fun _ => ih

variable {e : Engine} {t : FileTree} {switches : Switches} {mode : RunMode} {path : Option Path}
  {settingsPath : Option String} {projects : List Project}

/-! ## Before the passes -/

/-- The engine with other add-ins. -/
def wiredTo (e : Engine) (registry : Registry) : Engine := { e with registry }

/-- Add-ins have no part in how projects are made ready. -/
theorem prepare_wiredTo (e : Engine) (registry : Registry) (t : FileTree) (mode : RunMode)
    (path : Option Path) (done : Prepared) (ps : List Project) :
    (e.wiredTo registry).prepare t mode path done ps = e.prepare t mode path done ps := by
  induction ps generalizing done with
  | nil => rfl
  | cons p ps ih =>
    unfold prepare
    cases hs : e.settingsOf t path p with
    | error cause => rw [show (e.wiredTo registry).settingsOf t path p = _ from hs]
    | ok s =>
      rw [show (e.wiredTo registry).settingsOf t path p = _ from hs]
      exact ih _

/-- Whether two requests went wrong alike before their passes. -/
structure Ended.SameFailure (o o' : Ended) : Prop where
  projects : o'.projects = o.projects
  cache : o'.cache = o.cache
  result : o'.result = o.result
  failed : ∃ message, o.result = .error (.failed message)

/-- **With the failing analyzer a run begins as it does without it**, or both go wrong. -/
theorem opening_cases (hg : e.registry.Gains a r') (ha : a.FailsOn F) (t : FileTree)
    (switches : Switches) (mode : RunMode) (path : Option Path) (projects : List Project) :
    (∃ o o', e.opening t switches mode path projects = .error o ∧
      (e.wiredTo r').opening t switches mode path projects = .error o' ∧ o.SameFailure o') ∨
    ∃ ready told told', e.opening t switches mode path projects =
        .ok (e.begin switches mode ready told) ∧
      (e.wiredTo r').opening t switches mode path projects =
        .ok ((e.wiredTo r').begin switches mode ready told') ∧
      told'.any Event.isCancel = told.any Event.isCancel := by
  have hbegun : (callAll (fun a p => a.before p switches) (participants e.registry)).Echoes
      (callAll (fun a p => a.before p switches) (participants r')) :=
    echoes_participants hg (ha.before switches)
  obtain ⟨hresult, hcancels⟩ := hbegun
  unfold opening openPrepared
  rw [prepare_wiredTo]
  rw [show (e.wiredTo r').cache = e.cache from rfl,
    show (e.wiredTo r').registry = r' from rfl]
  obtain ⟨ready, prepared⟩ := e.prepare t mode path { cache := e.cache } projects
  cases prepared with
  | error message => exact .inl ⟨_, _, rfl, rfl, rfl, rfl, rfl, message, rfl⟩
  | ok _ =>
    simp only [hresult]
    cases (callAll (fun a p => a.before p switches) (participants e.registry)).result with
    | error crash => exact .inl ⟨_, _, rfl, rfl, rfl, rfl, rfl, _, rfl⟩
    | ok _ => exact .inr ⟨ready, _, _, rfl, rfl, hcancels⟩

theorem suffers_begin (hg : e.registry.Gains a r') (ready : Prepared) {told told' : List Event}
    (htold : told'.any Event.isCancel = told.any Event.isCancel) :
    (e.begin switches mode ready told).Suffers a (fun _ => False)
      ((e.wiredTo r').begin switches mode ready told') where
  registry := hg
  switches := rfl
  autoFix := rfl
  statuses := rfl
  slots := rfl
  pass := rfl
  cancelled := htold
  cached := rfl
  analyzed := rfl
  shell _ := rfl
  spared _ _ := rfl
  kept _ _ _ _ := rfl
  struck _ hno := hno.elim

theorem Prepares.isSome_cache {before ready : Prepared} {ps : List Project}
    (h : e.Prepares t mode path before ps ready) : ready.cache.isSome = before.cache.isSome := by
  induction h with
  | done => rfl
  | next _ _ ih =>
    rw [ih, prepareUnder]
    dsimp only
    split
    · exact Option.isSome_map
    · rfl

/-- A run of a full analysis with a cache analyzes everything anew. -/
theorem Starts.anew {r : Run}
    (h : e.Starts t switches { full := true } settingsPath projects r)
    (hd : (Project.fileKeys projects).Nodup) (hcache : e.cache.isSome = true) : r.Anew := by
  have hkeys := h.distinctKeys hd
  obtain ⟨ready, told, rfl, hp⟩ := h.prepares
  refine ⟨h.fresh.wellPlaced, hkeys, rfl, hp.isSome_cache.trans hcache, rfl, ?_⟩
  obtain ⟨hlen, hall⟩ := hp.forall_status (P := fun _ st => st.ignoreCache = true)
    (Q := fun _ => True) rfl (fun i q st hq => by cases hq) trivial (fun _ _ _ _ _ _ => trivial)
    fun p _ s _ cache _ => by cases cache <;> rfl
  intro st hst
  obtain ⟨i, hi⟩ := List.getElem?_of_mem hst
  have hi' : ready.statuses[i]? = some st := hi
  obtain ⟨hlt, -⟩ := List.getElem?_eq_some_iff.mp hi'
  exact hall i _ st (List.getElem?_eq_getElem (hlen ▸ hlt)) hi'

/-! ## After the passes -/

/-- The file at a slot of the projects that a run gave back. -/
def RunOutcome.file? (o : RunOutcome) (s : Slot) : Option SourceFile :=
  (o.projects[s.project]?).bind fun p => p.files[s.file]?

/-- The entry of a file in the cache that a run has left. -/
def RunOutcome.entryAt? (o : RunOutcome) (path : Path) : Option FileEntry :=
  o.engine.cache.bind fun c => c.entryAt? path.cacheKey

/-- Whether a run was given back as another one with one more analyzer, which has failed on the
files of some slots.  These have its failure at line 1, once and beside all else, are done, and
have no entry in the cache; every other file, and its entry, is the same in both. -/
structure RunOutcome.Suffers (a : AnalyzerEntry) (S : Slot → Prop) (o o' : RunOutcome) : Prop where
  effort : o'.result.map RunSummary.effort = o.result.map RunSummary.effort
  spared : ∀ s, ¬ S s → o'.file? s = o.file? s
  kept : ∀ s f, ¬ S s → o.file? s = some f → o'.entryAt? f.path = o.entryAt? f.path
  struck : ∀ s, S s → ∃ f f' message l₁ l₂, o.file? s = some f ∧ o'.file? s = some f' ∧
    f.violations = l₁ ++ l₂ ∧ f'.violations = l₁ ++ a.failure f.path message :: l₂ ∧
    (∀ v ∈ f.violations, ∀ other, v.sameOccurrence (a.failure f.path other) = false) ∧
    f'.done = true ∧ o'.entryAt? f.path = none

theorem RunOutcome.Suffers.violations_length {S : Slot → Prop} {o o' : RunOutcome}
    (h : o.Suffers a S o') {s : Slot} (hs : S s) {f f' : SourceFile} (hf : o.file? s = some f)
    (hf' : o'.file? s = some f') : f'.violations.length = f.violations.length + 1 := by
  obtain ⟨g, g', message, l₁, l₂, hg, hg', hl, hl', -⟩ := h.struck s hs
  obtain rfl := Option.some.inj (hf.symm.trans hg)
  obtain rfl := Option.some.inj (hf'.symm.trans hg')
  rw [hl, hl', List.length_append, List.length_append, List.length_cons]
  omega

/-- Runs side by side end with the same effort. -/
theorem effort_close (hg : e.registry.Gains a r') (ha : a.FailsOn F) {S : Slot → Prop}
    {run run' : Run} (h : run.Suffers a S run') (t : FileTree) (mode : RunMode)
    (res : Except AddInError PassResult) :
    (conclude ((e.wiredTo r').close t mode run' res)).2.map RunSummary.effort =
      (conclude (e.close t mode run res)).2.map RunSummary.effort := by
  have hclosing : (callAll (fun a p => a.after p run.switches) (participants e.registry)).Echoes
      (callAll (fun a p => a.after p run.switches) (participants (e.wiredTo r').registry)) :=
    echoes_participants hg (ha.after run.switches)
  simp only [close, h.switches, hclosing.1]
  cases (callAll (fun a p => a.after p run.switches) (participants e.registry)).result with
  | error crash => rfl
  | ok _ =>
    cases res with
    | error cause =>
      simp only [conclude, RunFailure.ofAddIn]
      cases cause.isExhaustion <;> rfl
    | ok res => simp only [conclude, Except.map, RunSummary.effort, h.analyzed]

/-- Where the analyzer has failed on no file, only the projects and the cache matter. -/
theorem RunOutcome.Suffers.of_same {S : Slot → Prop} {o o' : RunOutcome}
    (hprojects : o'.projects = o.projects)
    (hcache : o'.engine.cache.map Cache.document = o.engine.cache.map Cache.document)
    (heffort : o'.result.map RunSummary.effort = o.result.map RunSummary.effort)
    (hS : ∀ s, ¬ S s) : o.Suffers a S o' where
  effort := heffort
  spared s _ := by rw [file?, file?, hprojects]
  kept _ _ _ _ := Cache.entryAt?_congr hcache _
  struck s hs := absurd hs (hS s)

end Engine

namespace Request

variable {q : Request} {a : AnalyzerEntry} {F : Path → Prop} {r r' : Run}
  {registry : Registry} {sweep : Sweep} {processors : Nat}

/-- The run that a request leads to, after its passes, and how they ended. -/
def ending (q : Request) (r : Run) : Run × Except AddInError PassResult :=
  r.passLoop (q.engine.sweepOf q.sweep q.processors r) maxPasses

/-- The request to the engine with other add-ins, on a schedule of its own. -/
def rewired (q : Request) (registry : Registry) (sweep : Sweep) (processors : Nat) : Request :=
  { q with engine := q.engine.wiredTo registry, sweep, processors }

/-- Whether the parser with an id reads the file at a slot to the end in a pass. -/
def Completes (q : Request) (id : String) (s : Slot) : Prop :=
  ∃ r r₀, q.Starts r ∧ Run.Reaches (q.engine.sweepOf q.sweep q.processors r) r r₀ ∧
    r₀.Completes id s

theorem Starts.file?_outcome (h : q.Starts r) (s : Slot) :
    q.outcome.file? s = (q.ending r).1.file? s := by
  have hprojects : q.outcome.projects = (q.ending r).1.projects := by
    rw [outcome, Engine.runWith_of_starts h]
    exact Engine.projects_close ..
  rw [Engine.RunOutcome.file?, hprojects]
  rfl

theorem Starts.entryAt?_outcome (h : q.Starts r) (path : Path) :
    q.outcome.entryAt? path = (q.ending r).1.entryAt? path.cacheKey :=
  Cache.entryAt?_congr (Engine.document_runWith h) _

/-- The analyzer comes to fail on the files of its set that are read to the end. -/
theorem Starts.strikes_iff (h : q.Starts r) (hs : q.sweep.InterleavesQuietly)
    (hon : ∀ p ∈ q.projects, ∀ settings,
      q.engine.settingsOf q.files (q.settingsPath.map Path.mk) p = .ok settings →
        settings.isAddinEnabled a.analyzer.id = true) (s : Slot) :
    (∃ r₀, Run.Reaches (q.engine.sweepOf q.sweep q.processors r) r r₀ ∧ r₀.Strikes a F s) ↔
      q.Completes a.analyzer.parserId s ∧ ∃ f, q.outcome.file? s = some f ∧ F f.path := by
  have hpass := Engine.isPass_sweepOf hs.interleaves q.engine q.processors r
  have henabled (i : Nat) (p : Project) (hp : r.shell? i = some p) :
      p.effectiveSettings.isAddinEnabled a.analyzer.id = true := by
    obtain ⟨p₀, settings, hp₀, hset, rfl⟩ := h.exists_project hp
    exact hon p₀ (List.mem_of_getElem? hp₀) settings hset
  have hstrikes {r₀ : Run}
      (hreaches : Run.Reaches (q.engine.sweepOf q.sweep q.processors r) r r₀) :=
    hreaches.strikes_iff (F := F) (s := s) hpass h.fresh.wellPlaced (h.fresh.passes hpass) henabled
  rw [h.file?_outcome]
  constructor
  · rintro ⟨r₀, hreaches, hr₀⟩
    obtain ⟨hcompletes, hF⟩ := (hstrikes hreaches).mp hr₀
    exact ⟨⟨r, r₀, h, hreaches, hcompletes⟩, hF⟩
  · rintro ⟨⟨r₂, r₀, h₂, hreaches, hcompletes⟩, hF⟩
    obtain rfl : r = r₂ := Engine.Starts.unique h h₂
    exact ⟨r₀, hreaches, (hstrikes hreaches).mpr ⟨hcompletes, hF⟩⟩

/-- What is given back for runs that end side by side. -/
theorem Starts.outcome_suffers {S : Slot → Prop} (h : q.Starts r)
    (h' : (q.rewired registry sweep processors).Starts r')
    (hg : q.engine.registry.Gains a registry) (ha : a.FailsOn F)
    (hclean : ∀ s, S s → ∀ f, q.outcome.file? s = some f → ∀ message,
      f.hasOccurrence (a.failure f.path message) = false)
    (hresult : ((q.rewired registry sweep processors).ending r').2 = (q.ending r).2)
    (hend : (q.ending r).1.Suffers a S ((q.rewired registry sweep processors).ending r').1) :
    q.outcome.Suffers a S (q.rewired registry sweep processors).outcome where
  effort := by
    have heffort := Engine.effort_close (e := q.engine.busy) hg ha hend q.files q.mode
      (q.ending r).2
    rw [outcome, outcome, Engine.runWith_of_starts h, Engine.runWith_of_starts h']
    rw [ending, ending] at hresult
    simp only [hresult]
    exact heffort
  spared s hno := by
    rw [h.file?_outcome, h'.file?_outcome]
    exact hend.spared s hno
  kept s f hno hf := by
    rw [h.file?_outcome] at hf
    rw [h.entryAt?_outcome, h'.entryAt?_outcome]
    exact hend.kept s f hno hf
  struck s hyes := by
    obtain ⟨f, f', message, hf, hf', ⟨l₁, l₂, hl, rfl⟩, hdone, hentry⟩ := hend.struck s hyes
    rw [← h.file?_outcome] at hf
    rw [← h'.file?_outcome] at hf'
    rw [← h'.entryAt?_outcome] at hentry
    refine ⟨f, _, message, l₁, l₂, hf, hf', hl, by simp, fun v hv other => ?_, hdone, hentry⟩
    exact Bool.eq_false_iff.mpr (List.any_eq_false.mp (hclean s hyes f hf other) v hv)

theorem outcome_of_refused (h : ¬ q.engine.Accepts q.settingsPath) : q.outcome =
    { engine := q.engine, files := q.files, projects := q.projects
      result := .error (Engine.refusal q.settingsPath) } := Engine.runWith_of_refused h

theorem outcome_of_error (h : q.engine.Accepts q.settingsPath) {o : Engine.Ended}
    (ho : q.engine.busy.opening q.files q.switches q.mode (q.settingsPath.map Path.mk)
      q.projects = .error o) : q.outcome = q.engine.outcomeOf o := by
  rw [outcome, Engine.runWith_of_accepts h, Engine.runAll, ho]

/-- How two requests side by side are met: either neither comes to its passes, and they are given
back alike, or both do, with runs side by side. -/
theorem rewired_cases (hg : q.engine.registry.Gains a registry) (ha : a.FailsOn F)
    (sweep : Sweep) (processors : Nat) (S : Slot → Prop) :
    let q' := q.rewired registry sweep processors
    ((∀ r, ¬ q.Starts r) ∧ ((∀ s, ¬ S s) → q.outcome.Suffers a S q'.outcome)) ∨
      ∃ r r', q.Starts r ∧ q'.Starts r' ∧ r.Suffers a (fun _ => False) r' := by
  intro q'
  by_cases hacc : q.engine.Accepts q.settingsPath
  · have hacc' : q'.engine.Accepts q'.settingsPath := hacc
    rcases Engine.opening_cases (e := q.engine.busy) hg ha q.files q.switches q.mode
      (q.settingsPath.map Path.mk) q.projects with
      ⟨o, o', ho, ho', hsame⟩ | ⟨ready, told, told', hbegun, hbegun', htold⟩
    · refine .inl ⟨fun r hr => ?_, .of_same ?_ ?_ ?_⟩
      · rw [hr.opened] at ho
        cases ho
      · rw [outcome_of_error hacc ho, outcome_of_error hacc' ho']
        exact hsame.projects
      · rw [outcome_of_error hacc ho, outcome_of_error hacc' ho']
        exact congrArg _ hsame.cache
      · rw [outcome_of_error hacc ho, outcome_of_error hacc' ho']
        obtain ⟨message, hfailed⟩ := hsame.failed
        simp only [Engine.outcomeOf, Engine.conclude, hsame.result, hfailed]
        rfl
    · exact .inr ⟨_, _, ⟨hacc.1, hacc.2, hbegun⟩, ⟨hacc'.1, hacc'.2, hbegun'⟩,
        Engine.suffers_begin hg ready htold⟩
  · have hacc' : ¬ q'.engine.Accepts q'.settingsPath := hacc
    refine .inl ⟨fun r hr => hacc ⟨hr.path, hr.idle⟩, ?_⟩
    rw [outcome_of_refused hacc, outcome_of_refused hacc']
    exact .of_same rfl rfl rfl

/-- Whether a request for a full analysis with a cache, over files with different paths and by
add-ins that never run out of resources, can be made with one more analyzer that is switched on. -/
structure Faces (q : Request) (a : AnalyzerEntry) (registry : Registry) : Prop where
  mode : q.mode = { full := true }
  cached : q.engine.cache.isSome = true
  distinct : (Project.fileKeys q.projects).Nodup
  neverExhausts : q.engine.registry.NeverExhausts
  gains : q.engine.registry.Gains a registry
  enabled : ∀ p ∈ q.projects, ∀ settings,
    q.engine.settingsOf q.files (q.settingsPath.map Path.mk) p = .ok settings →
      settings.isAddinEnabled a.analyzer.id = true

/-- Whether an analyzer that fails on a set of files leaves no other trace in what a request is
given back: its failures are on the files of the set that their parser reads to the end. -/
def StaysApart (q : Request) (a : AnalyzerEntry) (F : Path → Prop) (o : Engine.RunOutcome) :
    Prop :=
  q.outcome.Suffers a (fun s => q.Completes a.analyzer.parserId s ∧
    ∃ f, q.outcome.file? s = some f ∧ F f.path) o

/-- **Failures stay apart.**  A full analysis with one more analyzer, which does nothing but fail
on a set of files, gives back what it gives back without it; only the files of the set that their
parser reads to the end have its failure beside all else, and their results are not cached.  For
this, the other analyzers must not look at what is recorded on a file, and nobody may report the
failure of the analyzer in its place. -/
theorem failure_stays_apart (hs : q.sweep.InterleavesQuietly) (hs' : sweep.InterleavesQuietly)
    (h : q.Faces a registry) (ha : a.FailsOn F) (hblind : q.engine.registry.IgnoresViolations)
    (hclean : ∀ s f, q.outcome.file? s = some f → a.IsUnreported F f) (processors : Nat) :
    q.StaysApart a F (q.rewired registry sweep processors).outcome := by
  rcases rewired_cases h.gains ha sweep processors _ with
    ⟨hno, hsame⟩ | ⟨r, r', hstart, hstart', hbegin⟩
  · -- without a run no file is read
    exact hsame fun s ⟨⟨r, _, hr, _⟩, _⟩ => hno r hr
  · have hanew : r.Anew := by
      rw [Starts, h.mode] at hstart
      exact hstart.anew h.distinct h.cached
    obtain ⟨hresult, hend⟩ := Run.Passes.suffers
      (hstart.fresh.passes (Engine.isPass_sweepOf hs.interleaves q.engine q.processors r))
      (hstart'.fresh.passes (Engine.isPass_sweepOf hs'.interleaves _ processors r'))
      (fun r₀ => hs _ r₀ (Engine.workerCount_pos ..))
      (fun r₀ => hs' _ r₀ (Engine.workerCount_pos ..)) ha hbegin (hstart.registry ▸ h.neverExhausts)
      (hstart.registry ▸ hblind) hanew (hbegin.anew hanew hstart'.fresh.fatal)
      fun s f hf => hclean s f ((hstart.file?_outcome s).trans hf)
    refine hstart.outcome_suffers hstart' h.gains ha ?_ hresult
      (hend.congr fun s => (iff_of_eq (false_or _)).trans (hstart.strikes_iff hs h.enabled s))
    rintro s ⟨-, f, hf, hF⟩ f₂ hf₂
    obtain rfl := Option.some.inj (hf.symm.trans hf₂)
    exact hclean s f hf hF

end Request

/-! ## Silent failures -/

/-- Whether acts never report anything. -/
def Act.ReportsNothing {α : Type} : Act α → Prop
  | .done _ => True
  | .stop _ => True
  | .takeText next => ∀ text, (next text).ReportsNothing
  | .look next => ∀ f, (next f).ReportsNothing
  | .setModel _ next => next.ReportsNothing
  | .report _ _ | .reportOn .. => False
  | .output _ next => next.ReportsNothing
  | .note _ next => next.ReportsNothing
  | .cancel next => next.ReportsNothing

theorem Act.ReportsNothing.held {α : Type} {acts : Act α} (h : acts.ReportsNothing)
    (ctx : FileContext) (s : Visit) : (acts.run ctx s).1.held = s.held := by
  induction acts generalizing s with
  | done _ | stop _ => rfl
  | takeText _ ih | look _ ih => exact ih _ (h _) _
  | setModel _ _ ih | output _ _ ih | note _ _ ih | cancel _ ih => exact ih h _
  | report _ _ _ | reportOn _ _ _ _ => exact h.elim

/-- Whether an analyzer without rules fails on some files, for no want of resources, and reports
nothing. -/
structure AnalyzerEntry.FailsSilently (a : AnalyzerEntry) (F : Path → Prop) : Prop where
  rules : a.profile.rules = []
  before : ∀ switches, (a.analyzer.before a.profile switches).IsQuiet
  after : ∀ switches, (a.analyzer.after a.profile switches).IsQuiet
  silent : ∀ ctx, (a.analyzer.analyze a.profile ctx).ReportsNothing
  passes : ∀ ctx s, ¬ F s.file.path → ((a.analyzer.analyze a.profile ctx).run ctx s).2 = .ok ()
  fails : ∀ ctx s, F s.file.path → ∃ cause,
    ((a.analyzer.analyze a.profile ctx).run ctx s).2 = .error cause ∧
      cause.toError.isExhaustion = false

/-- An analyzer that fails silently does nothing else that shows if it leaves files as they are
and never asks a run to stop. -/
theorem AnalyzerEntry.FailsSilently.failsOn {a : AnalyzerEntry} {F : Path → Prop}
    (h : a.FailsSilently F)
    (hfile : ∀ ctx s, ((a.analyzer.analyze a.profile ctx).run ctx s).1.file = s.file)
    (hcancels : ∀ ctx s, ((a.analyzer.analyze a.profile ctx).run ctx s).1.events.any
      Event.isCancel = s.events.any Event.isCancel) : a.FailsOn F where
  before := h.before
  after := h.after
  file := hfile
  held ctx s := (h.silent ctx).held ctx s
  cancels := hcancels
  passes := h.passes
  fails := h.fails

/-! ## Crews of analyzers -/

namespace Engine

/-- An analyzer that does some acts with each file. -/
def acting (id : String) (acts : Act Unit) : Analyzer where
  id
  configure := fun _ _ _ p _ => .ok p
  parserId := "text"
  analyze _ _ := acts

/-- An analyzer in the registry of a crew. -/
def crewed (analyzer : Analyzer) : AnalyzerEntry :=
  { analyzer, profile := {}, trusted := false, owner := some "text" }

/-- Add-ins that are analyzers of texts, and a parser that leaves a file to the second pass. -/
def crew (analyzers : List Analyzer) : Registry where
  parsers := [{
    parser := {
      id := "text"
      configure := fun _ _ _ p _ => .ok p
      extensions := ["txt"]
      parse := fun _ ctx => .look fun f =>
        if ctx.pass < 1 && f.path.text == "b.txt" then .done .deferred else .done .complete }
    profile := {}
    trusted := false
    analyzers := analyzers.map fun a => a.id }]
  analyzers := analyzers.map crewed
  extensions := [("txt", "text")]

theorem isWired_crew {analyzers : List Analyzer} (hids : (analyzers.map fun a => a.id).Nodup)
    (hparser : ∀ a ∈ analyzers, a.parserId = "text") : (crew analyzers).IsWired where
  parsers := List.pairwise_singleton _ _
  ids := by
    show ((analyzers.map crewed).map _).Nodup
    rw [List.map_map]
    exact hids
  analyzers e he := by
    obtain rfl := List.mem_singleton.mp he
    show analyzers.map _ = ((analyzers.map crewed).filter _).map _
    rw [List.filter_eq_self.mpr, List.map_map]
    · rfl
    · intro b hb
      obtain ⟨a, -, rfl⟩ := List.mem_map.mp hb
      rfl
  owner b hb id hid := by
    obtain ⟨a, ha, rfl⟩ := List.mem_map.mp hb
    obtain rfl := Option.some.inj hid
    exact ⟨(hparser a ha).symm, _, List.mem_singleton.mpr rfl, rfl⟩
  ordered := by
    refine List.pairwise_of_forall_mem_list ?_
    intro a ha b _ _ hnone
    obtain ⟨a, -, rfl⟩ := List.mem_map.mp ha
    cases hnone

/-- A request for a full analysis of two files by a crew. -/
def crewRequest (analyzers : List Analyzer) : Request where
  engine := { registry := crew analyzers, cache := some { store := .memory none 0 } }
  sweep := Sweep.oneByOne
  files := {}
  switches := []
  processors := 2
  mode := { full := true }
  settingsPath := none
  projects := [{
    files := [.ofText ⟨"a.txt"⟩ "a", .ofText ⟨"b.txt"⟩ "b"]
    settings := some {} }]

/-- An analyzer that complains about some files. -/
def complainer (v : Violation) (about : SourceFile → Bool) : Analyzer :=
  acting "complainer" (.look fun f => if about f then .report v fun _ => .done () else .done ())

/-- The acts of an add-in that fails. -/
def boom : Act Unit := .fail (.failed "boom")

/-- An analyzer with some acts for one of the files. -/
def broken (acts : Act Unit) : Analyzer :=
  acting "broken" (.look fun f => if f.path.text = "a.txt" then acts else .done ())

theorem neverExhausts_complainer (v : Violation) (about : SourceFile → Bool) :
    (crew [complainer v about]).NeverExhausts where
  parse e he ctx s cause hrun := by
    obtain rfl := List.mem_singleton.mp he
    simp only [Act.run] at hrun
    split at hrun <;> cases hrun
  analyze e he ctx s cause hrun := by
    obtain rfl := List.mem_singleton.mp he
    simp only [crewed, complainer, acting, Act.run] at hrun
    split at hrun <;> cases hrun

theorem faces_broken (v : Violation) (about : SourceFile → Bool) (acts : Act Unit) :
    (crewRequest [complainer v about]).Faces (crewed (broken acts))
      (crew [broken acts, complainer v about]) where
  mode := rfl
  cached := rfl
  distinct := by
    show ["a.txt", "b.txt"].Nodup
    decide
  neverExhausts := neverExhausts_complainer v about
  gains :=
    { wired := isWired_crew (by simp) (by simp [complainer, acting])
      rewired := isWired_crew (by simp [complainer, broken, acting])
        (by simp [complainer, broken, acting])
      parsers := rfl
      analyzers := ⟨[], _, rfl, rfl⟩
      owner := rfl
      extensions := rfl
      ruleDefaults := rfl }
  enabled p hp settings hset := by
    obtain rfl := List.mem_singleton.mp hp
    obtain rfl := Except.ok.inj hset
    rfl

theorem run_broken (acts : Act Unit) (ctx : FileContext) (s : Visit) :
    ((broken acts).analyze {} ctx).run ctx s =
      if s.file.path.text = "a.txt" then acts.run ctx s else (s, .ok ()) := by
  show (Act.run ctx (if s.file.path.text = "a.txt" then _ else _) s) = _
  split <;> rfl

theorem failsSilently_broken {acts : Act Unit} (hsilent : acts.ReportsNothing)
    (hfails : ∀ ctx s, (acts.run ctx s).2 = .error (.error (.failed "boom"))) :
    (crewed (broken acts)).FailsSilently fun path => path.text = "a.txt" where
  rules := rfl
  before _ := ⟨rfl, rfl⟩
  after _ := ⟨rfl, rfl⟩
  silent ctx f := by
    show Act.ReportsNothing (if f.path.text = "a.txt" then _ else _)
    split
    · exact hsilent
    · trivial
  passes ctx s hother := by
    show (((broken acts).analyze {} ctx).run ctx s).2 = _
    rw [run_broken, if_neg hother]
  fails ctx s hF := by
    refine ⟨.error (.failed "boom"), ?_, rfl⟩
    show (((broken acts).analyze {} ctx).run ctx s).2 = _
    rw [run_broken, if_pos hF, hfails]

theorem failsOn_broken :
    (crewed (broken boom)).FailsOn fun path => path.text = "a.txt" := by
  have hsilent : boom.ReportsNothing := trivial
  refine (failsSilently_broken hsilent fun _ _ => rfl).failsOn (fun ctx s => ?_) fun ctx s => ?_
  · show (((broken boom).analyze {} ctx).run ctx s).1.file = _
    rw [run_broken]
    split <;> rfl
  · show (((broken boom).analyze {} ctx).run ctx s).1.events.any _ = _
    rw [run_broken]
    split <;> rfl

theorem ignoresViolations_complainer (v : Violation) {about : SourceFile → Bool}
    (h : ∀ f vs, about { f with violations := vs } = about f) :
    (crew [complainer v about]).IgnoresViolations := by
  intro e he ctx
  obtain rfl := List.mem_singleton.mp he
  refine ⟨fun f vs => ?_, fun f => ?_⟩
  · simp only [h]
  · show Act.IgnoresViolations (if about f = true then _ else _)
    split
    · exact fun _ => trivial
    · trivial

/-- The first file is read to the end. -/
theorem completes_crewRequest (v : Violation) (about : SourceFile → Bool) :
    (crewRequest [complainer v about]).Completes "text" ⟨0, 0⟩ :=
  ⟨_, _, ⟨rfl, rfl, rfl⟩, .now rfl, _, _, _, rfl, rfl, rfl, rfl, _, rfl, rfl, rfl, rfl⟩

/-- A harmless violation. -/
def remark : Violation := { ruleId := "Remark", message := "as always", line := 1 }

theorem failure_stays_apart_broken :
    let q := crewRequest [complainer remark fun _ => true]
    let o := (q.rewired (crew [broken boom, complainer remark fun _ => true])
      Sweep.oneByOne 5).outcome
    q.StaysApart (crewed (broken boom)) (fun path => path.text = "a.txt") o ∧
      q.Completes "text" ⟨0, 0⟩ ∧
      (o.projects.map fun p => p.files.map fun f => f.violations.map Violation.ruleId) =
        [[["FileAnalysisFailed", "Remark"], ["Remark"]]] := by
  intro q o
  refine ⟨?_, completes_crewRequest _ _, by decide +kernel⟩
  have hrules : ∀ p ∈ q.outcome.projects, ∀ f ∈ p.files, ∀ v ∈ f.violations,
      v.ruleId ≠ Violation.fileFailedRule := by decide +kernel
  refine q.failure_stays_apart Sweep.oneByOne_interleaves Sweep.oneByOne_interleaves
    (faces_broken _ _ _) failsOn_broken (ignoresViolations_complainer _ fun _ _ => rfl) ?_ 5
  intro s f hf
  obtain ⟨p, hp, hf⟩ := Option.bind_eq_some_iff.mp hf
  exact .of_rules (hrules p (List.mem_of_getElem? hp) f (List.mem_of_getElem? hf))

/-- Whether a silent failure on the first file is not all that it brings about, next to an
analyzer that complains about some files. -/
def Interferes (v : Violation) (about : SourceFile → Bool) (acts : Act Unit) : Prop :=
  let q := crewRequest [complainer v about]
  let registry := crew [broken acts, complainer v about]
  q.Faces (crewed (broken acts)) registry ∧
    (crewed (broken acts)).FailsSilently (fun path => path.text = "a.txt") ∧
    ¬ q.StaysApart (crewed (broken acts)) (fun path => path.text = "a.txt")
      (q.rewired registry q.sweep q.processors).outcome

/-- What a run has left of the first file of its first project. -/
def firstLeft (o : RunOutcome) : Option (String × Nat) :=
  (o.file? ⟨0, 0⟩).map fun f => (f.path.text, f.violations.length)

theorem Interferes.of_firstLeft {v : Violation} {about : SourceFile → Bool} {acts : Act Unit}
    {n : Nat} (hsilent : acts.ReportsNothing)
    (hfails : ∀ ctx s, (acts.run ctx s).2 = .error (.error (.failed "boom")))
    (h : firstLeft (crewRequest [complainer v about]).outcome = some ("a.txt", n))
    (h' : firstLeft ((crewRequest [complainer v about]).rewired
      (crew [broken acts, complainer v about]) Sweep.oneByOne 2).outcome = some ("a.txt", n)) :
    Interferes v about acts := by
  refine ⟨faces_broken _ _ _, failsSilently_broken hsilent hfails, fun hapart => ?_⟩
  obtain ⟨f, hf, hleft⟩ := Option.map_eq_some_iff.mp h
  obtain ⟨f', hf', hleft'⟩ := Option.map_eq_some_iff.mp h'
  obtain ⟨hpath, hlength⟩ := Prod.mk.inj hleft
  obtain ⟨-, hlength'⟩ := Prod.mk.inj hleft'
  have hcount := hapart.violations_length (s := ⟨0, 0⟩)
    ⟨completes_crewRequest v about, f, hf, hpath⟩ hf hf'
  omega

theorem Interferes.of_effort {v : Violation} {about : SourceFile → Bool} {acts : Act Unit}
    {m n : Nat × Nat} (hsilent : acts.ReportsNothing)
    (hfails : ∀ ctx s, (acts.run ctx s).2 = .error (.error (.failed "boom")))
    (h : ((crewRequest [complainer v about]).outcome.result.map RunSummary.effort).toOption =
      some m)
    (h' : (((crewRequest [complainer v about]).rewired (crew [broken acts, complainer v about])
      Sweep.oneByOne 2).outcome.result.map RunSummary.effort).toOption = some n)
    (hne : n ≠ m) : Interferes v about acts := by
  refine ⟨faces_broken _ _ _, failsSilently_broken hsilent hfails, fun hapart => hne ?_⟩
  have hsame := congrArg Except.toOption hapart.effort
  rw [h] at hsame
  exact Option.some.inj (h'.symm.trans hsame)

/-- What looks like the failure of an analyzer, but is a hint of another one. -/
def forged : Violation :=
  { ruleId := Violation.fileFailedRule, severity := .info, message := "Analyzer broken failed: boom"
    file := some ⟨"a.txt"⟩, line := 1 }

/-- **A failure can show elsewhere**: if another analyzer has reported it before it happens; if
another analyzer does without its own complaint in its face; if the analyzer that fails asks the
run to stop, so that the second file is left to no pass; or if it changes the file for the
others. -/
theorem failure_shows :
    Interferes forged (fun f => f.path.text == "a.txt") boom ∧
    Interferes remark (fun f => f.violations.isEmpty) boom ∧
    Interferes remark (fun _ => false) (.cancel boom) ∧
    Interferes remark (fun f => f.model.isNone) (.setModel (TextModel.ofText "") boom) :=
  ⟨.of_firstLeft (n := 1) trivial (fun _ _ => rfl) (by decide +kernel) (by decide +kernel),
    .of_firstLeft (n := 1) trivial (fun _ _ => rfl) (by decide +kernel) (by decide +kernel),
    .of_effort (m := (2, 2)) (n := (1, 1)) trivial (fun _ _ => rfl) (by decide +kernel)
      (by decide +kernel) (by decide),
    .of_firstLeft (n := 1) trivial (fun _ _ => rfl) (by decide +kernel) (by decide +kernel)⟩

end Engine

end StyleEngine
