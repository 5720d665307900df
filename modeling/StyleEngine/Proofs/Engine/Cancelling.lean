import StyleEngine.Proofs.Engine.RunSteps

/-! # Asking a run to stop

A host that sees the engine analyzing may ask the run to stop, at any point of the
run and in between any steps of its workers.  From then on the run begins no pass:
each time it looks, it finds that it was asked to stop (`Request.cancel_heeded`).

There is one exception.  A run first says that it is analyzing and only then forgets
earlier requests to stop, and what the host asks for between these two steps leaves
no trace.
-/
namespace StyleEngine

/-- Whether a run can still forget a request to stop. -/
def Stage.isEarly : Stage → Bool
  | .asked | .locked | .marked => true
  | _ => false

/-- A pass is followed by a check or by the end. -/
theorem Run.isEarly_afterPass (r : Run) (workers left : Nat) :
    (r.afterPass workers left).isEarly = false := by
  unfold afterPass
  cases r.fatal with
  | some cause => rfl
  | none =>
    simp only
    split
    · rfl
    · split <;> rfl

/-- A step of a worker does not take a request to stop back. -/
theorem Pool.cancelled_step {p : Pool} (h : p.run.cancelled = true) (i : Nat) :
    (p.step i).run.cancelled = true := by
  obtain ⟨hs, -, -, hc⟩ := (p.steps_step i).told
  rw [hc, h, Bool.true_or]

theorem Engine.cancelled_heed {e : Engine} (h : e.cancelled = true) (events : List Event) :
    (e.heed events).cancelled = true := by
  rw [heed, h, Bool.true_or]

namespace Underway

variable {q : Request} {u : Underway}

/-- Whether a run was asked to stop and will not forget it.  A request that comes during another
run will be refused. -/
structure WillStop (u : Underway) : Prop where
  cancelled : u.engine.cancelled = true
  late : u.stage.isEarly = false ∨ u.stage = .asked ∧ u.engine.analyzing = true

theorem WillStop.work (h : u.WillStop) (i : Nat) :
    (u.work i).WillStop ∧ (u.work i).begun = u.begun := by
  unfold Underway.work
  split
  · exact ⟨⟨Pool.cancelled_step h.cancelled i, .inl rfl⟩, rfl⟩
  · exact ⟨h, rfl⟩

/-- The run goes on, but begins no pass. -/
theorem WillStop.advance (h : u.WillStop) :
    (q.advance u).WillStop ∧ (q.advance u).begun = u.begun := by
  obtain ⟨e, stage, begun⟩ := u
  obtain ⟨hc, hlate⟩ := h
  cases stage with
  | asked =>
    have hanalyzing : e.analyzing = true := (hlate.resolve_left Bool.noConfusion).2
    have hbusy : ¬ e.Accepts q.settingsPath := by
      rintro ⟨-, hidle⟩
      exact absurd (hanalyzing.symm.trans hidle) Bool.noConfusion
    have hrefused : q.advance ⟨e, .asked, begun⟩ = ⟨e, .ended _, begun⟩ := if_neg hbusy
    rw [hrefused]
    exact ⟨⟨hc, .inl rfl⟩, rfl⟩
  | locked => exact absurd (hlate.resolve_left Bool.noConfusion).1 nofun
  | marked => exact absurd (hlate.resolve_left Bool.noConfusion).1 nofun
  | cleared =>
    simp only [Request.advance]
    split <;> exact ⟨⟨Engine.cancelled_heed hc _, .inl rfl⟩, rfl⟩
  | checking workers left r =>
    cases left with
    | zero => exact ⟨⟨hc, .inl rfl⟩, rfl⟩
    | succ left =>
      have hstop : q.advance ⟨e, .checking workers (left + 1) r, begun⟩ =
          ⟨e, .closing r (.ok { passes := r.pass, cancelled := true }), begun⟩ := if_pos hc
      rw [hstop]
      exact ⟨⟨hc, .inl rfl⟩, rfl⟩
  | passing workers left p =>
    simp only [Request.advance]
    split
    · exact ⟨⟨hc, .inl (Run.isEarly_afterPass ..)⟩, rfl⟩
    · exact ⟨⟨hc, .inl rfl⟩, rfl⟩
  | closing r result => exact ⟨⟨Engine.cancelled_heed hc _, .inl rfl⟩, rfl⟩
  | concluding o => exact ⟨⟨hc, .inl rfl⟩, rfl⟩
  | ended o => exact ⟨⟨hc, .inl rfl⟩, rfl⟩

/-- **Nothing but the host takes a request to stop back.** -/
theorem WillStop.turn (h : u.WillStop) {t : Turn} (ht : t ≠ .setCancel false) :
    (q.turn u t).WillStop ∧ (q.turn u t).begun = u.begun := by
  cases t with
  | advance => exact h.advance
  | work i => exact h.work i
  | isAnalyzing => exact ⟨h, rfl⟩
  | setCancel b =>
    cases b with
    | true => exact ⟨⟨rfl, h.late⟩, rfl⟩
    | false => exact absurd rfl ht

theorem WillStop.finding? (h : u.WillStop) {t : Turn} {b : Bool}
    (hfound : u.finding? t = some (.check b)) : b = true := by
  cases t with
  | advance =>
    simp only [Underway.finding?] at hfound
    split at hfound
    · cases hfound
      exact h.cancelled
    · cases hfound
  | isAnalyzing => cases hfound
  | work _ | setCancel _ => cases hfound

/-- **So a run that will stop begins no pass any more**, and finds that it was asked to stop each
time it looks. -/
theorem WillStop.after (h : u.WillStop) {turns : List Turn}
    (hturns : Turn.setCancel false ∉ turns) :
    (∀ b, .check b ∈ q.findings u turns → b = true) ∧ (q.after u turns).begun = u.begun := by
  induction turns generalizing u with
  | nil => exact ⟨nofun, rfl⟩
  | cons t turns ih =>
    rw [List.mem_cons, not_or] at hturns
    obtain ⟨hnext, hbegun⟩ := h.turn (q := q) (Ne.symm hturns.1)
    obtain ⟨hchecks, hrest⟩ := ih hnext hturns.2
    refine ⟨?_, hrest.trans hbegun⟩
    intro b hb
    rcases List.mem_append.mp hb with hb | hb
    · exact h.finding? (Option.mem_toList.mp hb)
    · exact hchecks b hb

/-! ## Before the run forgets earlier requests -/

/-- Whether the engine is idle if the run has got no further than the lock. -/
def LocksIdle (u : Underway) : Prop := u.stage = .locked → u.engine.analyzing = false

theorem locksIdle_advance (q : Request) (u : Underway) : (q.advance u).LocksIdle := by
  obtain ⟨e, stage, begun⟩ := u
  intro hlocked
  cases stage with
  | asked =>
    by_cases hacc : e.Accepts q.settingsPath
    · have hlock : q.advance ⟨e, .asked, begun⟩ = ⟨e, .locked, begun⟩ := if_pos hacc
      rw [hlock]
      exact hacc.2
    · have hrefused : q.advance ⟨e, .asked, begun⟩ = ⟨e, .ended _, begun⟩ := if_neg hacc
      rw [hrefused] at hlocked
      cases hlocked
  | cleared =>
    simp only [Request.advance] at hlocked
    split at hlocked <;> cases hlocked
  | checking workers left r =>
    cases left with
    | zero => cases hlocked
    | succ left =>
      simp only [Request.advance] at hlocked
      split at hlocked <;> cases hlocked
  | passing workers left p =>
    simp only [Request.advance] at hlocked
    split at hlocked
    · have hlate := p.run.isEarly_afterPass workers left
      have hlocked : p.run.afterPass workers left = .locked := hlocked
      rw [hlocked] at hlate
      cases hlate
    · cases hlocked
  | locked | marked | closing _ _ | concluding _ | ended _ => cases hlocked

theorem LocksIdle.turn (h : u.LocksIdle) (t : Turn) : (q.turn u t).LocksIdle := by
  cases t with
  | advance => exact locksIdle_advance q u
  | work i =>
    show (u.work i).LocksIdle
    unfold work
    split
    · exact nofun
    · exact h
  | isAnalyzing | setCancel b => exact h

theorem LocksIdle.after (h : u.LocksIdle) (turns : List Turn) : (q.after u turns).LocksIdle := by
  induction turns generalizing u with
  | nil => exact h
  | cons t turns ih => exact ih (h.turn t)

/-- Until the run goes on, nothing but the flag changes that it is about to clear. -/
theorem after_marked {turns : List Turn} (hturns : .advance ∉ turns) (h : u.stage = .marked) :
    ∃ b, q.after u turns = { u with engine.cancelled := b } := by
  induction turns generalizing u with
  | nil => exact ⟨u.engine.cancelled, rfl⟩
  | cons t turns ih =>
    rw [List.mem_cons, not_or] at hturns
    cases t with
    | advance => exact absurd rfl hturns.1
    | work i =>
      have hnone : u.work i = u := by simp only [work, h]
      obtain ⟨b, hb⟩ := ih hturns.2 h
      exact ⟨b, (congrArg (q.after · turns) hnone).trans hb⟩
    | isAnalyzing => exact ih hturns.2 h
    | setCancel b =>
      obtain ⟨b', hb'⟩ := ih (u := { u with engine.cancelled := b }) hturns.2 h
      exact ⟨b', hb'⟩

/-- What the host asks for before the run clears the flag leaves no trace. -/
theorem cancel_marked {turns : List Turn} (hturns : .advance ∉ turns) (h : u.stage = .marked) :
    q.after (q.turn u .cancel) (turns ++ [.advance]) = q.after u (turns ++ [.advance]) := by
  obtain ⟨b, hb⟩ := after_marked (q := q) hturns h
  obtain ⟨b', hb'⟩ := after_marked (q := q) (u := q.turn u .cancel) hturns h
  rw [Request.after_append, Request.after_append, hb, hb']
  show q.advance _ = q.advance _
  simp only [Request.advance, Request.turn, Turn.cancel, h]

end Underway

namespace Request

/-- **A run that is asked to stop while the engine is analyzing** begins no pass from then on, and
each time it looks it finds that it was asked to stop; unless it has yet to forget earlier requests,
when this one leaves no trace. -/
theorem cancel_heeded (q : Request) (before : List Turn)
    (hanalyzing : (q.after q.start before).engine.analyzing = true) :
    let u := q.after q.start before
    (u.stage ≠ .marked → ∀ turns, Turn.setCancel false ∉ turns →
      (∀ b, .check b ∈ q.findings (q.turn u .cancel) turns → b = true) ∧
        (q.after (q.turn u .cancel) turns).begun = u.begun) ∧
    (u.stage = .marked → ∀ turns, Turn.advance ∉ turns →
      q.after (q.turn u .cancel) (turns ++ [.advance]) = q.after u (turns ++ [.advance])) := by
  intro u
  refine ⟨?_, fun hmarked turns hturns => Underway.cancel_marked hturns hmarked⟩
  intro hmarked turns hturns
  have hidle : u.LocksIdle := Underway.LocksIdle.after (q := q) (u := q.start) nofun before
  have hstop : (q.turn u .cancel).WillStop := by
    refine ⟨rfl, ?_⟩
    cases hstage : u.stage with
    | asked => exact .inr ⟨hstage, hanalyzing⟩
    | locked => exact absurd (hanalyzing.symm.trans (hidle hstage)) Bool.noConfusion
    | marked => exact absurd hstage hmarked
    | _ => exact .inl (by rw [show (q.turn u .cancel).stage = u.stage from rfl, hstage]; rfl)
  exact hstop.after hturns

/-- A request to an engine, one worker after the other. -/
def oneByOne (e : Engine) (projects : List Project) : Request where
  engine := e
  sweep := Sweep.oneByOne
  files := {}
  switches := []
  processors := 2
  mode := {}
  settingsPath := none
  projects

/-- A request of an engine whose parser defers files until the fourth pass. -/
def patient : Request := oneByOne (Engine.patient 3) [Engine.patientProject]

/-- The turns of a run up to the first step of a worker. -/
def firstWork : List Turn := [.advance, .advance, .advance, .advance, .advance, .work 0]

/-- The rest of the pass, and the check before the next one. -/
def restOfPass : List Turn :=
  List.replicate 9 (.work 0) ++ List.replicate 4 (.work 1) ++ [.isAnalyzing, .advance, .advance]

theorem cancel_heeded_patient :
    let u := patient.after patient.start firstWork
    u.engine.analyzing = true ∧ u.stage ≠ .marked ∧ Turn.setCancel false ∉ restOfPass ∧
      patient.findings (patient.turn u .cancel) restOfPass = [.analyzing true, .check true] ∧
      (patient.after (patient.turn u .cancel) restOfPass).begun = u.begun := by
  intro u
  have hanalyzing : u.engine.analyzing = true := by decide +kernel
  have hearly : u.stage.isEarly = false := by decide +kernel
  have hmarked : u.stage ≠ .marked := by
    intro hmarked
    rw [hmarked] at hearly
    cases hearly
  have hturns : Turn.setCancel false ∉ restOfPass := by decide +kernel
  exact ⟨hanalyzing, hmarked, hturns, by decide +kernel,
    ((cancel_heeded patient firstWork hanalyzing).1 hmarked restOfPass hturns).2⟩

/-- **A run that is asked to stop too early ends as one that is not asked**: just after it has said
that the engine is analyzing, or before it was begun. -/
theorem leads_outcome_of_early {q : Request} (hs : q.sweep.UsesWorkers)
    (hacc : q.engine.Accepts q.settingsPath) :
    (∃ begun, q.Leads (q.after q.start [.advance, .advance, .cancel])
      { engine := q.outcome.engine, stage := .ended q.outcome, begun }) ∧
    { q with engine := { q.engine with cancelled := true } }.outcome = q.outcome := by
  have hlock : q.advance q.start = { engine := q.engine, stage := .locked } := if_pos hacc
  have hcleared : q.advance (q.after q.start [.advance, .advance, .cancel]) =
      { engine := q.engine.busy, stage := .cleared } := by
    show q.advance (q.turn (q.advance (q.advance q.start)) .cancel) = _
    rw [hlock]
    rfl
  obtain ⟨begun, hrest⟩ := leads_outcome_of_cleared hs hacc
  refine ⟨⟨begun, (hcleared ▸ Leads.advance q _).trans hrest⟩, ?_⟩
  have hacc' : ({ q.engine with cancelled := true } : Engine).Accepts q.settingsPath := hacc
  rw [outcome, outcome, Engine.runWith_of_accepts hacc, Engine.runWith_of_accepts hacc']
  rfl

/-- A request of an engine without add-ins. -/
def idle : Request := oneByOne {} []

/-- The host sees the engine analyzing and asks the run to stop, but the run finds that it was not
asked and begins a pass. -/
theorem cancel_lost_idle :
    let u := idle.after idle.start [.advance, .advance]
    idle.findings u [.isAnalyzing, .cancel, .advance, .advance, .advance] =
        [.analyzing true, .check false] ∧
      u.begun = 0 ∧
      (idle.after u [.isAnalyzing, .cancel, .advance, .advance, .advance]).begun = 1 := by
  decide +kernel

end Request

end StyleEngine
