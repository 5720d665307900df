import StyleEngine.Proofs.Run.Works

/-! # Workers in any order

What the workers of a pass do to the run is, in every order of their steps, the
work on one slot after another (`Pool.Sound.works`).  A slot is claimed by one
worker, in the order of the slots, and a claimed slot is worked on or being
worked on.  So a pass that is over and was not aborted has worked on every slot
exactly once (`Pool.Sound.handled_perm`), and it is incomplete exactly if some
file was deferred (`Pool.Sound.incomplete_iff`).
-/
namespace StyleEngine

/-- The slot of a worker at work. -/
def Phase.slot? : Phase → Option Slot
  | .working s => some s
  | _ => none

@[simp] theorem Phase.slot?_working (s : Slot) : (Phase.working s).slot? = some s := rfl

/-- Whether a worker takes no more slots. -/
def Phase.IsPast : Phase → Prop
  | .reporting | .leaving | .gone _ => True
  | _ => False

/-- Whether a worker has told what it left. -/
def Phase.HasReported : Phase → Prop
  | .leaving | .gone _ => True
  | _ => False

/-- Whether all slots of a run are places of files. -/
def Run.HasFiles (r : Run) : Prop := ∀ s ∈ r.slots, (r.file? s).isSome

namespace Pool

/-- The slots that are being worked on. -/
def working (p : Pool) : List Slot := p.workers.filterMap fun w => w.phase.slot?

/-- Whether all workers have left. -/
def IsOver (p : Pool) : Prop := ∀ w ∈ p.workers, ∃ last, w.phase = .gone last

/-- Whether a file was left for the next pass. -/
def HasDeferred (p : Pool) : Prop := ∃ x ∈ p.handled, x.result.outcome = .deferred

/-! ## What a step can be -/

/-- What one step of a worker does, by the phase of the worker. -/
inductive Steps (p : Pool) : Nat → Pool → Prop
  | idle {i : Nat} (hi : ∀ w, p.workers[i]? = some w → ∃ last, w.phase = .gone last) : Steps p i p
  | check {w : Worker} {ws ws' : List Worker} (hw : p.workers = ws ++ w :: ws')
    (hp : w.phase = .checking) :
    Steps p ws.length { p with workers :=
      ws ++ { w with phase := if p.run.isAborted then .reporting else .claiming } :: ws' }
  | claim {w : Worker} {ws ws' : List Worker} {s : Slot} (hw : p.workers = ws ++ w :: ws')
    (hp : w.phase = .claiming) (hs : p.run.slots[p.run.cursor]? = some s) :
    Steps p ws.length { p with
      run.cursor := p.run.cursor + 1
      claims := p.claims ++ [⟨ws.length, s⟩]
      workers := ws ++ { w with phase := .working s } :: ws' }
  | miss {w : Worker} {ws ws' : List Worker} (hw : p.workers = ws ++ w :: ws')
    (hp : w.phase = .claiming) (hs : p.run.slots[p.run.cursor]? = none) :
    Steps p ws.length { p with
      run.cursor := p.run.cursor + 1
      workers := ws ++ { w with phase := .reporting } :: ws' }
  | work {w : Worker} {ws ws' : List Worker} {s : Slot} (hw : p.workers = ws ++ w :: ws')
    (hp : w.phase = .working s) :
    Steps p ws.length { p with
      run := (p.run.process s).1
      handled := p.handled ++ ((p.run.process s).2.map (Handled.mk s)).toList
      workers := ws ++ { phase := .checking
                         leftover := w.leftover || (p.run.process s).2.any fun r =>
                           r.outcome == FileOutcome.deferred } :: ws' }
  | report {w : Worker} {ws ws' : List Worker} (hw : p.workers = ws ++ w :: ws')
    (hp : w.phase = .reporting) :
    Steps p ws.length { p with
      run.incomplete := p.run.incomplete || w.leftover
      workers := ws ++ { w with phase := .leaving } :: ws' }
  | leave {w : Worker} {ws ws' : List Worker} (hw : p.workers = ws ++ w :: ws')
    (hp : w.phase = .leaving) :
    Steps p ws.length { p with
      run.outstanding := p.run.outstanding - 1
      workers := ws ++ { w with phase := .gone (p.run.outstanding == 1) } :: ws' }

/-- A list with something at a place is what stands before it, that and what follows. -/
theorem exists_split {α : Type} {l : List α} {i : Nat} {a : α} (h : l[i]? = some a) :
    ∃ l₁ l₂, l = l₁ ++ a :: l₂ ∧ l₁.length = i ∧ ∀ b, l.set i b = l₁ ++ b :: l₂ := by
  obtain ⟨hi, rfl⟩ := List.getElem?_eq_some_iff.mp h
  refine ⟨l.take i, l.drop (i + 1), ?_, List.length_take_of_le (Nat.le_of_lt hi), ?_⟩
  · rw [← List.drop_eq_getElem_cons hi, List.take_append_drop]
  · intro b
    rw [List.set_eq_take_append_cons_drop, if_pos hi]

theorem steps_step (p : Pool) (i : Nat) : p.Steps i (p.step i) := by
  unfold step
  cases hi : p.workers[i]? with
  | none => exact .idle (by simp [hi])
  | some w =>
    obtain ⟨ws, ws', hw, hlen, hset⟩ := exists_split hi
    subst hlen
    simp only [setWorker, claim, Pool.work, hset]
    cases hp : w.phase with
    | checking => exact .check hw hp
    | claiming =>
      cases hs : p.run.slots[p.run.cursor]? with
      | none => simpa only [hs, hset] using Steps.miss hw hp hs
      | some s => simpa only [hs, hset] using Steps.claim hw hp hs
    | working s => exact .work hw hp
    | reporting => exact .report hw hp
    | leaving => exact .leave hw hp
    | gone last =>
      refine .idle fun v hv => ⟨last, ?_⟩
      rw [hi] at hv
      exact Option.some.inj hv ▸ hp

/-! ## The invariant of a pass -/

/-- What holds throughout a pass over a run. -/
structure Sound (r : Run) (p : Pool) : Prop where
  works : r.Works p.handled p.run
  claimed : p.claims.map Claim.slot = r.slots.take p.run.cursor
  shared : (p.claims.map Claim.slot).Perm (p.handled.map Handled.slot ++ p.working)
  past : ∀ w ∈ p.workers, w.phase.IsPast → r.slots.length ≤ p.run.cursor ∨ p.run.isAborted
  incomplete : p.run.incomplete = true → p.HasDeferred
  leftover : ∀ w ∈ p.workers, w.leftover = true → p.HasDeferred
  reported : p.HasDeferred →
    p.run.incomplete = true ∨ ∃ w ∈ p.workers, w.leftover = true ∧ ¬ w.phase.HasReported

namespace Sound

variable {r : Run} {p q : Pool}

theorem start (r : Run) (n : Nat) : Sound r (Pool.start r n) where
  works := .shift .start rfl
  claimed := by simp [Pool.start]
  shared := by
    have : (Pool.start r n).working = [] := by
      simp [working, Pool.start, Phase.slot?]
    rw [this]; exact .refl _
  past w hw h := by
    obtain ⟨-, rfl⟩ := List.mem_replicate.mp hw
    cases h
  incomplete h := by cases h
  leftover w hw h := by
    obtain ⟨-, rfl⟩ := List.mem_replicate.mp hw
    cases h
  reported h := by obtain ⟨x, hx, -⟩ := h; cases hx

theorem slots_eq (h : Sound r p) : p.run.slots = r.slots := h.works.frame.slots

theorem mem_slots_of_claim (h : Sound r p) {s : Slot} (hs : s ∈ p.claims.map Claim.slot) :
    s ∈ r.slots := by
  rw [h.claimed] at hs
  exact List.mem_of_mem_take hs

/-- A slot that is being worked on has a file. -/
theorem process_working (hv : r.HasFiles) (h : Sound r p) {w : Worker} {ws ws' : List Worker}
    {s : Slot} (hw : p.workers = ws ++ w :: ws') (hp : w.phase = .working s) :
    ∃ x, p.run.process s = ((p.run.process s).1, some x) := by
  have hmem : s ∈ p.working := by
    simp only [working, hw, List.mem_filterMap]
    exact ⟨w, by simp, by rw [hp]; rfl⟩
  have hslot : s ∈ r.slots :=
    h.mem_slots_of_claim (h.shared.mem_iff.mpr (List.mem_append_right _ hmem))
  refine Run.process_snd_isSome ?_
  rw [h.works.frame.isSome_file?]
  exact hv s hslot

theorem works_steps (hv : r.HasFiles) (h : Sound r p) {i : Nat} (hs : p.Steps i q) :
    r.Works q.handled q.run := by
  cases hs with
  | idle _ => exact h.works
  | check _ _ => exact h.works
  | claim _ _ _ => exact .shift h.works rfl
  | miss _ _ _ => exact .shift h.works rfl
  | work hw hp =>
    obtain ⟨x, hx⟩ := h.process_working hv hw hp
    rw [hx]
    exact .work h.works hx
  | report _ _ => exact .shift h.works rfl
  | leave _ _ => exact .shift h.works rfl

theorem claimed_steps (hv : r.HasFiles) (h : Sound r p) {i : Nat} (hs : p.Steps i q) :
    q.claims.map Claim.slot = r.slots.take q.run.cursor := by
  cases hs with
  | idle _ => exact h.claimed
  | check _ _ => exact h.claimed
  | claim _ _ hs =>
    rw [h.slots_eq] at hs
    rw [List.map_append, h.claimed, List.take_add_one, hs]; rfl
  | miss _ _ hs =>
    rw [h.slots_eq] at hs
    rw [h.claimed, List.take_add_one, hs, Option.toList_none, List.append_nil]
  | work hw hp =>
    obtain ⟨x, hx⟩ := h.process_working hv hw hp
    obtain ⟨_, _, -, -, -, hrun⟩ := Run.process_eq_some hx
    rw [hrun]
    exact h.claimed
  | report _ _ => exact h.claimed
  | leave _ _ => exact h.claimed

/-- Setting a worker that is not at work, to a phase that is not work either, leaves the slots
being worked on. -/
theorem working_eq {w w' : Worker} {ws ws' : List Worker} (hw : p.workers = ws ++ w :: ws')
    (hp : w.phase.slot? = none) (hp' : w'.phase.slot? = none)
    (hq : q.workers = ws ++ w' :: ws') : q.working = p.working := by
  simp [working, hw, hq, hp, hp']

theorem shared_steps (hv : r.HasFiles) (h : Sound r p) {i : Nat} (hs : p.Steps i q) :
    (q.claims.map Claim.slot).Perm (q.handled.map Handled.slot ++ q.working) := by
  cases hs with
  | idle _ => exact h.shared
  | check hw hp =>
    rw [working_eq hw (by rw [hp]; rfl) (by split <;> rfl) rfl]
    exact h.shared
  | @claim w ws ws' s hw hp _ =>
    -- the slot that is claimed comes to those that are worked on
    have hwork : p.working = ws.filterMap (fun w => w.phase.slot?) ++
        ws'.filterMap (fun w => w.phase.slot?) := by
      simp [working, hw, hp, Phase.slot?]
    simp only [working, List.map_append, List.map_cons, List.map_nil, List.filterMap_append,
      List.filterMap_cons, Phase.slot?_working]
    refine (List.perm_append_singleton s _).trans ?_
    rw [← List.append_assoc]
    refine List.Perm.trans (List.Perm.cons s ?_) List.perm_middle.symm
    rw [List.append_assoc, ← hwork]
    exact h.shared
  | miss hw hp _ =>
    rw [working_eq hw (by rw [hp]; rfl) rfl rfl]
    exact h.shared
  | @work w ws ws' s hw hp =>
    -- the slot moves from those that are worked on to those that are handled
    obtain ⟨x, hx⟩ := h.process_working hv hw hp
    have hwork : p.working = ws.filterMap (fun w => w.phase.slot?) ++
        s :: ws'.filterMap (fun w => w.phase.slot?) := by
      simp [working, hw, hp, Phase.slot?]
    have hshared := h.shared
    rw [hwork] at hshared
    refine hshared.trans ?_
    rw [hx]
    simp only [working, List.map_append, List.filterMap_append, List.filterMap_cons, Phase.slot?,
      Option.map_some, Option.toList_some, List.map_cons, List.map_nil, List.append_assoc,
      List.cons_append, List.nil_append]
    exact List.Perm.append_left _ List.perm_middle
  | report hw hp =>
    rw [working_eq hw (by rw [hp]; rfl) rfl rfl]
    exact h.shared
  | leave hw hp =>
    rw [working_eq hw (by rw [hp]; rfl) rfl rfl]
    exact h.shared

/-- What holds of the workers beside one, and of what this one becomes, holds of all. -/
theorem forall_workers {P : Worker → Prop} {w w' : Worker} {ws ws' : List Worker}
    (hw : p.workers = ws ++ w :: ws') (hall : ∀ v ∈ p.workers, P v) (hnew : P w') :
    ∀ v ∈ ws ++ w' :: ws', P v := by
  intro v hv
  rcases List.mem_append.mp hv with hv | hv
  · exact hall v (by rw [hw]; exact List.mem_append_left _ hv)
  · rcases List.mem_cons.mp hv with rfl | hv
    · exact hnew
    · exact hall v (by rw [hw]; exact List.mem_append_right _ (List.mem_cons_of_mem _ hv))

theorem past_steps (hv : r.HasFiles) (h : Sound r p) {i : Nat} (hs : p.Steps i q) :
    ∀ w ∈ q.workers, w.phase.IsPast → r.slots.length ≤ q.run.cursor ∨ q.run.isAborted := by
  cases hs with
  | idle _ => exact h.past
  | check hw hp =>
    refine forall_workers hw h.past ?_
    intro hpast
    by_cases ha : p.run.isAborted
    · exact .inr ha
    · simp [ha, Phase.IsPast] at hpast
  | claim hw hp _ =>
    refine forall_workers hw ?_ (fun hpast => hpast.elim)
    intro v hv hpast
    rcases h.past v hv hpast with hc | ha
    · exact .inl (Nat.le_succ_of_le hc)
    · exact .inr ha
  | miss hw hp hs =>
    rw [h.slots_eq, List.getElem?_eq_none_iff] at hs
    exact fun _ _ _ => .inl (Nat.le_succ_of_le hs)
  | work hw hp =>
    obtain ⟨x, hx⟩ := h.process_working hv hw hp
    obtain ⟨_, _, -, -, -, hrun⟩ := Run.process_eq_some hx
    refine forall_workers hw ?_ (fun hpast => hpast.elim)
    intro v hv hpast
    rw [hrun]
    rcases h.past v hv hpast with hc | ha
    · exact .inl hc
    · refine .inr ?_
      simp only [Run.isAborted, Run.absorb, Option.isSome_or] at ha ⊢
      rw [ha]; rfl
  | @report w ws ws' hw hp =>
    exact forall_workers hw h.past fun _ => h.past w (by rw [hw]; simp) (by rw [hp]; trivial)
  | @leave w ws ws' hw hp =>
    exact forall_workers hw h.past fun _ => h.past w (by rw [hw]; simp) (by rw [hp]; trivial)

/-- If some worker has a property that one worker does not lose, some worker has it still. -/
theorem exists_workers {P : Worker → Prop} {w w' : Worker} {ws ws' : List Worker}
    (hw : p.workers = ws ++ w :: ws') (hnew : P w → P w') (hex : ∃ v ∈ p.workers, P v) :
    ∃ v ∈ ws ++ w' :: ws', P v := by
  obtain ⟨v, hv, hp⟩ := hex
  rw [hw] at hv
  rcases List.mem_append.mp hv with hv | hv
  · exact ⟨v, List.mem_append_left _ hv, hp⟩
  · rcases List.mem_cons.mp hv with rfl | hv
    · exact ⟨w', by simp, hnew hp⟩
    · exact ⟨v, List.mem_append_right _ (List.mem_cons_of_mem _ hv), hp⟩

theorem hasDeferred_append {hs : List Handled} (h : p.HasDeferred)
    (hq : q.handled = p.handled ++ hs) : q.HasDeferred := by
  obtain ⟨x, hx, hd⟩ := h
  exact ⟨x, by rw [hq]; exact List.mem_append_left _ hx, hd⟩

theorem incomplete_steps (hv : r.HasFiles) (h : Sound r p) {i : Nat} (hs : p.Steps i q) :
    q.run.incomplete = true → q.HasDeferred := by
  cases hs with
  | idle _ => exact h.incomplete
  | check _ _ => exact h.incomplete
  | claim _ _ _ => exact h.incomplete
  | miss _ _ _ => exact h.incomplete
  | work hw hp =>
    obtain ⟨x, hx⟩ := h.process_working hv hw hp
    obtain ⟨_, _, -, -, -, hrun⟩ := Run.process_eq_some hx
    intro hi
    rw [hrun] at hi
    exact hasDeferred_append (h.incomplete hi) rfl
  | @report w ws ws' hw _ =>
    intro hi
    rcases Bool.or_eq_true_iff.mp hi with hi | hl
    · exact h.incomplete hi
    · exact h.leftover w (by rw [hw]; simp) hl
  | leave _ _ => exact h.incomplete

theorem leftover_steps (hv : r.HasFiles) (h : Sound r p) {i : Nat} (hs : p.Steps i q) :
    ∀ w ∈ q.workers, w.leftover = true → q.HasDeferred := by
  cases hs with
  | idle _ => exact h.leftover
  | @check w _ _ hw _ => exact forall_workers hw h.leftover (h.leftover w (by rw [hw]; simp))
  | @claim w _ _ _ hw _ _ => exact forall_workers hw h.leftover (h.leftover w (by rw [hw]; simp))
  | @miss w _ _ hw _ _ => exact forall_workers hw h.leftover (h.leftover w (by rw [hw]; simp))
  | @work w _ _ s hw hp =>
    obtain ⟨x, hx⟩ := h.process_working hv hw hp
    refine forall_workers hw (fun v hv hl => hasDeferred_append (h.leftover v hv hl) rfl)
      ?_
    intro hl
    rcases Bool.or_eq_true_iff.mp hl with hl | hl
    · exact hasDeferred_append (h.leftover w (by rw [hw]; simp) hl) rfl
    · rw [hx] at hl
      exact ⟨⟨s, x⟩, by rw [hx]; simp, by simpa using hl⟩
  | @report w _ _ hw _ => exact forall_workers hw h.leftover (h.leftover w (by rw [hw]; simp))
  | @leave w _ _ hw _ => exact forall_workers hw h.leftover (h.leftover w (by rw [hw]; simp))

theorem reported_steps (hv : r.HasFiles) (h : Sound r p) {i : Nat} (hs : p.Steps i q) :
    q.HasDeferred →
      q.run.incomplete = true ∨ ∃ w ∈ q.workers, w.leftover = true ∧ ¬ w.phase.HasReported := by
  cases hs with
  | idle _ => exact h.reported
  | check hw _ =>
    refine fun hd => (h.reported hd).imp id (exists_workers hw fun hl => ⟨hl.1, ?_⟩)
    split <;> exact id
  | claim hw _ _ => exact fun hd => (h.reported hd).imp id (exists_workers hw fun hl => ⟨hl.1, id⟩)
  | miss hw _ _ => exact fun hd => (h.reported hd).imp id (exists_workers hw fun hl => ⟨hl.1, id⟩)
  | @work w ws ws' s hw hp =>
    obtain ⟨x, hx⟩ := h.process_working hv hw hp
    obtain ⟨_, _, -, -, -, hrun⟩ := Run.process_eq_some hx
    rintro ⟨y, hy, hd⟩
    rcases List.mem_append.mp hy with hy | hy
    · rcases h.reported ⟨y, hy, hd⟩ with hi | hex
      · exact .inl (by rw [hrun]; exact hi)
      · exact .inr (exists_workers hw (fun hl => ⟨by simp [hl.1], id⟩) hex)
    · -- the file just worked on is the deferred one, and its worker has yet to tell
      rw [hx] at hy
      obtain rfl : y = ⟨s, x⟩ := by simpa using hy
      have hd' : x.outcome = .deferred := hd
      exact .inr ⟨_, List.mem_append_right _ List.mem_cons_self, by rw [hx]; simp [hd'], id⟩
  | @report w ws ws' hw hp =>
    intro hd
    rcases h.reported hd with hi | ⟨v, hv, hl, hnr⟩
    · exact .inl (by simp [hi])
    · by_cases hwl : w.leftover = true
      · exact .inl (by simp [hwl])
      · exact .inr (exists_workers hw (P := fun v => v.leftover = true ∧ ¬ v.phase.HasReported)
          (fun hw' => absurd hw'.1 hwl) ⟨v, hv, hl, hnr⟩)
  | leave hw hp =>
    refine fun hd => (h.reported hd).imp id (exists_workers hw ?_)
    intro hl
    exact absurd (by rw [hp]; trivial) hl.2

/-- **Every step of a worker keeps the invariant.** -/
theorem steps (hv : r.HasFiles) (h : Sound r p) {i : Nat} (hs : p.Steps i q) : Sound r q :=
  ⟨h.works_steps hv hs, h.claimed_steps hv hs, h.shared_steps hv hs, h.past_steps hv hs,
    h.incomplete_steps hv hs, h.leftover_steps hv hs, h.reported_steps hv hs⟩

theorem move (hv : r.HasFiles) (h : Sound r p) (m : Move) : Sound r (p.move m) := by
  cases m with
  | step i => exact h.steps hv (p.steps_step i)
  | cancel =>
    exact ⟨.shift h.works rfl, h.claimed, h.shared, h.past, h.incomplete, h.leftover, h.reported⟩

/-- **So every order of steps keeps it.** -/
theorem runSchedule (hv : r.HasFiles) (h : Sound r p) (schedule : List Move) :
    Sound r (p.runSchedule schedule) := by
  unfold Pool.runSchedule
  induction schedule generalizing p with
  | nil => exact h
  | cons m ms ih => exact ih (h.move hv m)

/-! ## A pass that is over -/

theorem working_eq_nil (ho : p.IsOver) : p.working = [] := by
  refine List.filterMap_eq_nil_iff.mpr ?_
  intro w hw
  obtain ⟨last, hl⟩ := ho w hw
  rw [hl]; rfl

/-- No slot is worked on twice. -/
theorem handled_nodup (h : Sound r p) (hnd : r.slots.Nodup) :
    (p.handled.map Handled.slot).Nodup := by
  have hclaims : (p.claims.map Claim.slot).Nodup := by
    rw [h.claimed]
    exact hnd.sublist (List.take_sublist ..)
  exact ((h.shared.nodup_iff.mp hclaims).sublist (List.sublist_append_left ..))

/-- **Every slot was worked on exactly once**, if the pass is over and was not aborted. -/
theorem handled_perm (h : Sound r p) (ho : p.IsOver) (hw : p.workers ≠ [])
    (ha : p.run.isAborted = false) : (p.handled.map Handled.slot).Perm r.slots := by
  obtain ⟨w, ws, hws⟩ := List.exists_cons_of_ne_nil hw
  have hmem : w ∈ p.workers := by rw [hws]; exact List.mem_cons_self
  obtain ⟨last, hl⟩ := ho w hmem
  have hcursor : r.slots.length ≤ p.run.cursor :=
    (h.past w hmem (by rw [hl]; trivial)).resolve_right (by simp [ha])
  have hshared := h.shared
  rw [h.claimed, List.take_of_length_le hcursor, working_eq_nil ho, List.append_nil] at hshared
  exact hshared.symm

/-- **A pass that is over is incomplete exactly if it deferred a file.** -/
theorem incomplete_iff (h : Sound r p) (ho : p.IsOver) :
    p.run.incomplete = true ↔ p.HasDeferred := by
  refine ⟨h.incomplete, fun hd => (h.reported hd).resolve_right ?_⟩
  rintro ⟨w, hw, -, hnr⟩
  obtain ⟨last, hl⟩ := ho w hw
  exact hnr (by rw [hl]; trivial)

end Sound

end Pool

end StyleEngine
