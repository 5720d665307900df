import StyleEngine.Proofs.Engine.Publication
import StyleEngine.Proofs.Engine.RunEffects

/-! # Runs step by step

While an engine carries out a run, another thread of the host sees two flags of it:
whether it is analyzing, and whether it was asked to stop.  So that what the host
does can come between any two steps, a run is cut here into the steps that read or
write these flags: it takes the lock, says that it is analyzing, forgets earlier
requests to stop, is prepared, looks whether it was asked to stop before each pass,
makes the pass with its workers, and says that it is over (`Request.advance`,
`Underway.work`).

If the host keeps still, these steps lead to the outcome of the run
(`Request.leads_outcome`).
-/
namespace StyleEngine

instance (p : Pool) : Decidable p.IsOver :=
  inferInstanceAs (Decidable (∀ w ∈ p.workers, ∃ last, w.phase = .gone last))

instance (e : Engine) (settingsPath : Option String) : Decidable (e.Accepts settingsPath) :=
  inferInstanceAs (Decidable (_ ∧ _))

/-- How far a run is. -/
inductive Stage where
  | asked
  /-- It has the lock. -/
  | locked
  /-- It has said that it is analyzing. -/
  | marked
  /-- It has forgotten earlier requests to stop. -/
  | cleared
  /-- It is to look whether it was asked to stop, before at most so many passes. -/
  | checking (workers left : Nat) (r : Run)
  /-- A pass is going on. -/
  | passing (workers left : Nat) (p : Pool)
  /-- The passes are over. -/
  | closing (r : Run) (result : Except AddInError PassResult)
  | concluding (o : Engine.Ended)
  | ended (o : Engine.RunOutcome)

/-- A request that is being carried out.  The engine has the flags that the host sees: a copy that
the run has of them is brought up to date whenever it is used. -/
structure Underway where
  engine : Engine
  stage : Stage := .asked
  /-- How many passes were begun. -/
  begun : Nat := 0

/-- What happens next. -/
inductive Turn where
  /-- The run goes on. -/
  | advance
  /-- A worker takes a step. -/
  | work (worker : Nat)
  /-- The host asks whether the engine is analyzing. -/
  | isAnalyzing
  /-- The host asks the run to stop, or takes this back. -/
  | setCancel (b : Bool)
deriving DecidableEq

/-- What a flag was found to be. -/
inductive Finding where
  /-- The host found the engine analyzing, or not. -/
  | analyzing (b : Bool)
  /-- The run found that it was asked to stop before its next pass, or not. -/
  | check (b : Bool)
deriving DecidableEq

namespace Turn

/-- The host asks the run to stop. -/
def cancel : Turn := .setCancel true

/-- Whether the host does something. -/
def isCall : Turn → Bool
  | .isAnalyzing | .setCancel _ => true
  | _ => false

end Turn

/-- How a run goes on after a pass. -/
def Run.afterPass (r : Run) (workers left : Nat) : Stage :=
  match r.fatal with
  | some cause => .closing r (.error cause)
  | none =>
    let r := r.settle
    if !r.incomplete then .closing r (.ok { passes := r.pass + 1, converged := true })
    else if r.pass + 1 ≥ maxPasses then
      .closing (r.emit (.output noConvergence)) (.ok { passes := maxPasses })
    else .checking workers left r.next

/-- **After a pass a run is over or makes the next one**, just as the loop of its passes does. -/
theorem Run.passLoop_afterPass (sweep : Run → Pool) (workers left : Nat) {r : Run}
    (h : r.cancelled = false) :
    (∃ r' result, (sweep r).run.afterPass workers left = .closing r' result ∧
      r'.cancelled = (sweep r).run.cancelled ∧ r.passLoop sweep (left + 1) = (r', result)) ∨
    ((sweep r).run.afterPass workers left = .checking workers left (sweep r).run.settle.next ∧
      r.passLoop sweep (left + 1) = (sweep r).run.settle.next.passLoop sweep left) := by
  simp only [passLoop, h, Bool.false_eq_true, ↓reduceIte, afterPass]
  cases (sweep r).run.fatal with
  | some cause => exact .inl ⟨_, _, rfl, rfl, rfl⟩
  | none =>
    simp only
    split
    · exact .inl ⟨_, _, rfl, rfl, rfl⟩
    · split
      · exact .inl ⟨_, _, rfl, rfl, rfl⟩
      · exact .inr ⟨rfl, rfl⟩

namespace Underway

/-- A worker takes a step, and asks the run to stop if an add-in does so. -/
def work (u : Underway) (i : Nat) : Underway :=
  match u.stage with
  | .passing workers left p =>
    let p := { p with run.cancelled := u.engine.cancelled }.step i
    { u with engine.cancelled := p.run.cancelled, stage := .passing workers left p }
  | _ => u

/-- The flag that is read in a turn, if any. -/
def finding? (u : Underway) : Turn → Option Finding
  | .isAnalyzing => some (.analyzing u.engine.analyzing)
  | .advance =>
    match u.stage with
    | .checking _ (_ + 1) _ => some (.check u.engine.cancelled)
    | _ => none
  | _ => none

end Underway

/-- Whether passes are carried out by all the workers there are, in some order, with the host
keeping still. -/
def Sweep.UsesWorkers (sweep : Sweep) : Prop :=
  ∀ n r, 0 < n → r.WellPlaced → ∃ schedule, sweep n r = (Pool.start r n).runSchedule schedule ∧
    (sweep n r).IsOver ∧ Move.cancel ∉ schedule

theorem Sweep.UsesWorkers.interleavesQuietly {sweep : Sweep} (h : sweep.UsesWorkers) :
    sweep.InterleavesQuietly := by
  intro n r hn hr
  obtain ⟨schedule, hp, ho, hquiet⟩ := h n r hn hr
  exact ⟨n, schedule, hn, hp, ho, hquiet⟩

namespace Request

/-- The request when nothing was done about it yet. -/
def start (q : Request) : Underway := { engine := q.engine }

/-- The next step of the run itself.  A pass has to wait for its workers. -/
def advance (q : Request) (u : Underway) : Underway :=
  match u.stage with
  | .asked =>
    if u.engine.Accepts q.settingsPath then { u with stage := .locked }
    else
      { u with
        stage := .ended
          { engine := u.engine, files := q.files, projects := q.projects
            result := .error (Engine.refusal q.settingsPath) } }
  | .locked => { u with engine.analyzing := true, stage := .marked }
  | .marked => { u with engine.cancelled := false, stage := .cleared }
  | .cleared =>
    match u.engine.opening q.files q.switches q.mode (q.settingsPath.map Path.mk) q.projects with
    | .error o => { u with engine := u.engine.heed o.events, stage := .concluding o }
    | .ok r =>
      { u with
        engine := u.engine.heed r.events
        stage := .checking (u.engine.workerCount q.processors r.projects) maxPasses r }
  | .checking _ 0 r => { u with stage := .closing r (.ok { passes := r.pass }) }
  | .checking workers (left + 1) r =>
    if u.engine.cancelled then
      { u with stage := .closing r (.ok { passes := r.pass, cancelled := true }) }
    else
      { u with
        stage := .passing workers left (Pool.start r workers)
        begun := u.begun + 1 }
  | .passing workers left p =>
    if p.IsOver then { u with stage := p.run.afterPass workers left } else u
  | .closing r result =>
    let o := u.engine.close q.files q.mode r result
    -- what was told before the passes were over has been heeded already
    { u with
      engine := u.engine.heed (o.events.drop r.events.length)
      stage := .concluding o }
  | .concluding o =>
    let e := { u.engine with cache := o.cache, analyzing := false }
    { u with engine := e, stage := .ended { e.outcomeOf o with engine := e } }
  | .ended _ => u

def turn (q : Request) (u : Underway) : Turn → Underway
  | .advance => q.advance u
  | .work i => u.work i
  | .isAnalyzing => u
  | .setCancel b => { u with engine.cancelled := b }

/-- What comes of a run when some turns were taken. -/
def after (q : Request) (u : Underway) (turns : List Turn) : Underway := turns.foldl q.turn u

/-- The flags that are read in some turns, in their order. -/
def findings (q : Request) (u : Underway) : List Turn → List Finding
  | [] => []
  | t :: turns => (u.finding? t).toList ++ q.findings (q.turn u t) turns

theorem after_append (q : Request) (u : Underway) (before turns : List Turn) :
    q.after u (before ++ turns) = q.after (q.after u before) turns := List.foldl_append ..

/-! ## Without the host -/

/-- Whether a run gets from one point to another without the host. -/
def Leads (q : Request) (u u' : Underway) : Prop :=
  ∃ turns : List Turn, (∀ t ∈ turns, t.isCall = false) ∧ q.after u turns = u'

variable {q : Request} {u u' u'' : Underway}

namespace Leads

theorem refl (q : Request) (u : Underway) : q.Leads u u := ⟨[], nofun, rfl⟩

theorem trans (h : q.Leads u u') (h' : q.Leads u' u'') : q.Leads u u'' := by
  obtain ⟨turns, hown, rfl⟩ := h
  obtain ⟨turns', hown', rfl⟩ := h'
  refine ⟨turns ++ turns', ?_, q.after_append u turns turns'⟩
  intro t ht
  rcases List.mem_append.mp ht with ht | ht
  · exact hown t ht
  · exact hown' t ht

theorem advance (q : Request) (u : Underway) : q.Leads u (q.advance u) :=
  ⟨[.advance], by simp [Turn.isCall], rfl⟩

theorem work (q : Request) (u : Underway) (i : Nat) : q.Leads u (u.work i) :=
  ⟨[.work i], by simp [Turn.isCall], rfl⟩

end Leads

/-- The engine's flag follows a quiet pass. -/
theorem leads_runSchedule (q : Request) (e : Engine) (workers left begun : Nat)
    {schedule : List Move} (hquiet : Move.cancel ∉ schedule) (p : Pool) :
    q.Leads
      { engine := { e with cancelled := p.run.cancelled }, stage := .passing workers left p, begun }
      { engine := { e with cancelled := (p.runSchedule schedule).run.cancelled }
        stage := .passing workers left (p.runSchedule schedule), begun } := by
  induction schedule generalizing p with
  | nil => exact .refl q _
  | cons m schedule ih =>
    rw [List.mem_cons, not_or] at hquiet
    cases m with
    | cancel => exact absurd rfl hquiet.1
    | step i => exact (Leads.work q _ i).trans (ih hquiet.2 (p.step i))

/-- A pass that nobody disturbs. -/
theorem leads_afterPass (q : Request) (e : Engine) (left begun : Nat) {workers : Nat} {r : Run}
    (hc : r.cancelled = false) {schedule : List Move} (hquiet : Move.cancel ∉ schedule) {p : Pool}
    (hp : (Pool.start r workers).runSchedule schedule = p) (ho : p.IsOver) :
    q.Leads
      { engine := { e with cancelled := r.cancelled }
        stage := .checking workers (left + 1) r, begun }
      { engine := { e with cancelled := p.run.cancelled }
        stage := p.run.afterPass workers left, begun := begun + 1 } := by
  have hbegin := Leads.advance q
    { engine := { e with cancelled := r.cancelled }
      stage := .checking workers (left + 1) r, begun }
  have hmade := q.leads_runSchedule e workers left (begun + 1) hquiet (Pool.start r workers)
  have hend := Leads.advance q
    { engine := { e with cancelled := p.run.cancelled }
      stage := .passing workers left p, begun := begun + 1 }
  simp only [Request.advance, hc, Bool.false_eq_true, ↓reduceIte] at hbegin
  simp only [Request.advance, if_pos ho] at hend
  rw [hp] at hmade
  rw [← hc] at hbegin
  exact (hbegin.trans hmade).trans hend

/-- **The passes of a run.** -/
theorem leads_passLoop (q : Request) (e : Engine) {sweep : Sweep} (hs : sweep.UsesWorkers)
    {workers : Nat} (hw : 0 < workers) (left begun : Nat) {r : Run} (hr : r.WellPlaced) :
    ∃ begun', q.Leads
      { engine := { e with cancelled := r.cancelled }, stage := .checking workers left r, begun }
      { engine := { e with cancelled := (r.passLoop (sweep workers) left).1.cancelled }
        stage := .closing (r.passLoop (sweep workers) left).1 (r.passLoop (sweep workers) left).2
        begun := begun' } := by
  induction left generalizing r begun with
  | zero => exact ⟨begun, Leads.advance q _⟩
  | succ left ih =>
    cases hc : r.cancelled with
    | true =>
      have hstop := Leads.advance q
        { engine := { e with cancelled := r.cancelled }
          stage := .checking workers (left + 1) r, begun }
      simp only [Request.advance, hc, ↓reduceIte] at hstop
      refine ⟨begun, ?_⟩
      simpa only [Run.passLoop, hc, ↓reduceIte] using hstop
    | false =>
      obtain ⟨schedule, hp, ho, hquiet⟩ := hs workers r hw hr
      have hplaced := ((hs.interleavesQuietly workers r hw hr).isPass).wellPlaced hr
      have hpass := q.leads_afterPass e left begun hc hquiet hp.symm ho
      rw [hc] at hpass
      rcases Run.passLoop_afterPass (sweep workers) workers left hc with
        ⟨r', result, hend, hflag, hloop⟩ | ⟨hend, hloop⟩
      · rw [hend, ← hflag] at hpass
        rw [hloop]
        exact ⟨_, hpass⟩
      · rw [hend] at hpass
        obtain ⟨begun', hrest⟩ := ih (begun + 1) (Run.wellPlaced_next hplaced)
        rw [hloop]
        exact ⟨begun', hpass.trans hrest⟩

end Request

/-! ## From the request to its outcome -/

/-- Whether a run was asked to stop exactly if it has told so. -/
def Run.AsksAsTold (r : Run) : Prop := r.cancelled = r.events.any Event.isCancel

theorem Pool.IsQuietPass.asksAsTold {r : Run} {p : Pool} (h : p.IsQuietPass r)
    (hr : r.AsksAsTold) : p.run.AsksAsTold := by
  rw [Run.AsksAsTold, h.told_eq, h.cancelled, hr, List.any_append, List.any_flatMap]

theorem Run.Passes.asksAsTold {sweep : Run → Pool} {log : List Pool} {r r' : Run}
    {result : Except AddInError PassResult} (h : Passes sweep r log r' result)
    (hs : ∀ r, r.WellPlaced → (sweep r).IsQuietPass r) (hw : r.WellPlaced) (hr : r.AsksAsTold) :
    r'.AsksAsTold := by
  refine h.keeps (fun r hr => (hs r hr).isPass) hw hr (fun r hw hr => (hs r hw).asksAsTold hr)
    (fun _ hr => hr) (fun _ hr => hr) ?_
  intro r hr
  simpa [AsksAsTold, emit, Event.isCancel] using hr

namespace Engine

/-- What is told at the end of a run comes after all that was told before. -/
theorem exists_events_close (e : Engine) (t : FileTree) (mode : RunMode) (r : Run)
    (result : Except AddInError PassResult) :
    ∃ more, (e.close t mode r result).events = r.events ++ more := by
  simp only [close]
  split
  · exact ⟨_, rfl⟩
  · split
    · exact ⟨_, by rw [List.append_assoc]⟩
    · exact ⟨_, by rw [List.append_assoc, List.append_assoc]⟩

end Engine

namespace Request

/-- A request that is refused. -/
theorem leads_refused {q : Request} (h : ¬ q.engine.Accepts q.settingsPath) :
    q.Leads q.start { engine := q.outcome.engine, stage := .ended q.outcome } := by
  have hasked : q.advance q.start =
      { engine := q.engine
        stage := .ended
          { engine := q.engine, files := q.files, projects := q.projects
            result := .error (Engine.refusal q.settingsPath) } } := if_neg h
  rw [outcome, Engine.runWith_of_refused h, ← hasked]
  exact .advance q q.start

/-- A run whose passes are over. -/
theorem leads_closing (q : Request) (e : Engine) {r : Run} (h : r.AsksAsTold)
    (result : Except AddInError PassResult) (begun : Nat) :
    q.Leads
      { engine := { e with cancelled := r.cancelled }, stage := .closing r result, begun }
      { engine := { e with
          cancelled := (e.close q.files q.mode r result).events.any Event.isCancel }
        stage := .concluding (e.close q.files q.mode r result), begun } := by
  have hclose := Leads.advance q
    { engine := { e with cancelled := r.cancelled }, stage := .closing r result, begun }
  obtain ⟨more, hmore⟩ := e.exists_events_close q.files q.mode r result
  have hevents : (e.close q.files q.mode r result).events.any Event.isCancel =
      (r.cancelled || more.any Event.isCancel) := by
    rw [hmore, List.any_append, h]
  have hdrop : (e.close q.files q.mode r result).events.drop r.events.length = more := by
    rw [hmore, List.drop_left]
  have hsame : ({ e with cancelled := r.cancelled } : Engine).close q.files q.mode r result =
    e.close q.files q.mode r result := rfl
  simp only [advance, hsame, hdrop, Engine.heed, ← hevents] at hclose
  exact hclose

/-- A run that is over but for its outcome. -/
theorem leads_concluding (q : Request) (e : Engine) (o : Engine.Ended) (begun : Nat) :
    q.Leads
      { engine := { e.busy with cancelled := o.events.any Event.isCancel }
        stage := .concluding o, begun }
      { engine := (e.outcomeOf o).engine, stage := .ended (e.outcomeOf o), begun } :=
  .advance q _

/-- A run from its preparation on. -/
theorem leads_outcome_of_cleared {q : Request} (hs : q.sweep.UsesWorkers)
    (hacc : q.engine.Accepts q.settingsPath) :
    ∃ begun, q.Leads { engine := q.engine.busy, stage := .cleared }
      { engine := q.outcome.engine, stage := .ended q.outcome, begun } := by
  rw [outcome, Engine.runWith_of_accepts hacc, Engine.runAll]
  have hopening := Leads.advance q { engine := q.engine.busy, stage := .cleared }
  simp only [advance] at hopening
  cases hopened : q.engine.busy.opening q.files q.switches q.mode (q.settingsPath.map Path.mk)
      q.projects with
  | error o =>
    rw [hopened] at hopening
    exact ⟨0, hopening.trans (q.leads_concluding q.engine o 0)⟩
  | ok r =>
    rw [hopened] at hopening
    have hstart : q.engine.Starts q.files q.switches q.mode q.settingsPath q.projects r :=
      ⟨hacc.1, hacc.2, hopened⟩
    have hasks : r.AsksAsTold := by
      obtain ⟨ready, told, rfl⟩ := hstart.begins
      rfl
    have hheed : q.engine.busy.heed r.events =
        { q.engine.busy with cancelled := r.cancelled } := by
      rw [hasks]
      rfl
    simp only [hheed] at hopening
    have hworkers := q.engine.busy.workerCount_pos q.processors r.projects
    obtain ⟨begun, hpasses⟩ :=
      q.leads_passLoop q.engine.busy hs hworkers maxPasses 0 hstart.fresh.wellPlaced
    have hquiet := fun r hr => hs.interleavesQuietly _ r hworkers hr
    have hlog := hstart.fresh.passes fun r hr => (hquiet r hr).isPass
    have hasks' := hlog.asksAsTold hquiet hstart.fresh.wellPlaced hasks
    exact ⟨begun, ((hopening.trans hpasses).trans
      (q.leads_closing q.engine.busy hasks' _ begun)).trans (q.leads_concluding q.engine _ begun)⟩

/-- **A request whose run nobody disturbs is met with its outcome.** -/
theorem leads_outcome {q : Request} (hs : q.sweep.UsesWorkers) :
    ∃ begun, q.Leads q.start { engine := q.outcome.engine, stage := .ended q.outcome, begun } := by
  by_cases hacc : q.engine.Accepts q.settingsPath
  · have hlock : q.advance q.start = { engine := q.engine, stage := .locked } := if_pos hacc
    have hready : q.Leads q.start { engine := q.engine.busy, stage := .cleared } :=
      ((hlock ▸ Leads.advance q q.start).trans (.advance q _)).trans (.advance q _)
    obtain ⟨begun, hrest⟩ := leads_outcome_of_cleared hs hacc
    exact ⟨begun, hready.trans hrest⟩
  · exact ⟨0, leads_refused hacc⟩

end Request

end StyleEngine
