import StyleEngine.Proofs.Run.Interleaving

/-! # Passes as interleavings

A pass over a run is any order of its workers' steps after which all of them have
left (`Pool.IsPass`); in a quiet one nobody but the add-ins asks the run to stop.
`Sweep.oneByOne`, the way that passes are carried out in, is one of them: a worker
that is given as many steps as its rank has left.
-/
namespace StyleEngine

/-! ## The slots of projects -/

/-- Whether the slots of a run are the places of its files, each once. -/
structure Run.WellPlaced (r : Run) : Prop where
  nodup : r.slots.Nodup
  mem_iff : ∀ s, s ∈ r.slots ↔ (r.file? s).isSome

theorem mem_slotsFrom {n : Nat} {ps : List Project} {s : Slot} :
    s ∈ slotsFrom n ps ↔
      n ≤ s.project ∧ ∃ p, ps[s.project - n]? = some p ∧ s.file < p.files.length := by
  induction ps generalizing n with
  | nil => simp [slotsFrom]
  | cons p ps ih =>
    obtain ⟨a, b⟩ := s
    rw [slotsFrom, List.mem_append, ih]
    simp only [List.mem_map, List.mem_range, Slot.mk.injEq]
    constructor
    · rintro (⟨k, hk, rfl, rfl⟩ | ⟨ha, q, hq, hb⟩)
      · exact ⟨Nat.le_refl _, p, by simp, hk⟩
      · refine ⟨by omega, q, ?_, hb⟩
        rw [show a - n = (a - (n + 1)) + 1 from by omega, List.getElem?_cons_succ]
        exact hq
    · rintro ⟨ha, q, hq, hb⟩
      rcases Nat.eq_or_lt_of_le ha with rfl | hlt
      · rw [Nat.sub_self, List.getElem?_cons_zero] at hq
        obtain rfl := Option.some.inj hq
        exact .inl ⟨b, hb, rfl, rfl⟩
      · refine .inr ⟨hlt, q, ?_, hb⟩
        rw [show a - n = (a - (n + 1)) + 1 from by omega, List.getElem?_cons_succ] at hq
        exact hq

theorem nodup_slotsFrom (n : Nat) (ps : List Project) : (slotsFrom n ps).Nodup := by
  induction ps generalizing n with
  | nil => exact List.nodup_nil
  | cons p ps ih =>
    rw [slotsFrom, List.nodup_append]
    refine ⟨?_, ih (n + 1), ?_⟩
    · refine List.Pairwise.map _ ?_ List.nodup_range
      intro a b hab he
      exact hab (Slot.mk.inj he).2
    · intro a ha b hb he
      obtain ⟨k, -, rfl⟩ := List.mem_map.mp ha
      rw [← he, mem_slotsFrom] at hb
      exact absurd hb.1 (Nat.not_succ_le_self n)

theorem length_slotsFrom (n : Nat) (ps : List Project) :
    (slotsFrom n ps).length = (ps.flatMap Project.files).length := by
  induction ps generalizing n with
  | nil => rfl
  | cons p ps ih => simp [slotsFrom, ih]

namespace Run

/-- A run whose slots were made from its projects. -/
theorem WellPlaced.of_slots {r : Run} (h : r.slots = slotsFrom 0 r.projects) : r.WellPlaced := by
  refine ⟨h ▸ nodup_slotsFrom 0 _, ?_⟩
  intro s
  rw [h, mem_slotsFrom, file?]
  simp only [Nat.zero_le, Nat.sub_zero, true_and]
  cases r.projects[s.project]? with
  | none => simp
  | some p => simp

theorem WellPlaced.hasFiles {r : Run} (h : r.WellPlaced) : r.HasFiles :=
  fun s hs => (h.mem_iff s).mp hs

theorem SameFrame.wellPlaced {r r' : Run} (h : r.SameFrame r') (hw : r.WellPlaced) :
    r'.WellPlaced :=
  ⟨h.slots ▸ hw.nodup, fun s => by rw [h.slots, h.isSome_file?, hw.mem_iff]⟩

end Run

/-! ## Passes -/

/-- Whether workers and host can have made a pass over a run that is over. -/
def Pool.IsPass (r : Run) (p : Pool) : Prop :=
  ∃ n schedule, 0 < n ∧ p = (Pool.start r n).runSchedule schedule ∧ p.IsOver

/-- Whether workers can have made a pass over a run that is over, with the host keeping still. -/
def Pool.IsQuietPass (r : Run) (p : Pool) : Prop :=
  ∃ n schedule, 0 < n ∧ p = (Pool.start r n).runSchedule schedule ∧ p.IsOver ∧
    Move.cancel ∉ schedule

/-- Whether passes are carried out by workers in some order, whatever the run. -/
def Sweep.Interleaves (sweep : Sweep) : Prop :=
  ∀ n r, 0 < n → r.WellPlaced → (sweep n r).IsPass r

/-- Whether passes are carried out by workers in some order, with the host keeping still. -/
def Sweep.InterleavesQuietly (sweep : Sweep) : Prop :=
  ∀ n r, 0 < n → r.WellPlaced → (sweep n r).IsQuietPass r

theorem Sweep.InterleavesQuietly.interleaves {sweep : Sweep} (h : sweep.InterleavesQuietly) :
    sweep.Interleaves := by
  intro n r hn hr
  obtain ⟨m, schedule, hm, hp, ho, -⟩ := h n r hn hr
  exact ⟨m, schedule, hm, hp, ho⟩

namespace Pool

theorem IsQuietPass.isPass {r : Run} {p : Pool} (h : p.IsQuietPass r) : p.IsPass r := by
  obtain ⟨n, schedule, hn, hp, ho, -⟩ := h
  exact ⟨n, schedule, hn, hp, ho⟩

@[simp] theorem length_workers_step (p : Pool) (i : Nat) :
    (p.step i).workers.length = p.workers.length := by
  unfold step
  split
  · rfl
  · split <;> simp [setWorker, claim, work]
    split <;> simp

theorem length_workers_runSchedule (p : Pool) (schedule : List Move) :
    (p.runSchedule schedule).workers.length = p.workers.length := by
  unfold runSchedule
  induction schedule generalizing p with
  | nil => rfl
  | cons m ms ih =>
    rw [List.foldl_cons, ih]
    cases m with
    | step i => exact p.length_workers_step i
    | cancel => rfl

namespace IsPass

variable {r : Run} {p : Pool}

theorem sound (h : p.IsPass r) (hv : r.HasFiles) : Sound r p := by
  obtain ⟨n, schedule, -, rfl, -⟩ := h
  exact (Sound.start r n).runSchedule hv schedule

theorem isOver (h : p.IsPass r) : p.IsOver := by
  obtain ⟨n, schedule, -, -, ho⟩ := h
  exact ho

theorem workers_ne_nil (h : p.IsPass r) : p.workers ≠ [] := by
  obtain ⟨n, schedule, hn, rfl, -⟩ := h
  intro hw
  have hlen := (Pool.start r n).length_workers_runSchedule schedule
  rw [hw] at hlen
  simp only [Pool.start, List.length_replicate, List.length_nil] at hlen
  omega

end IsPass

/-! ## What a pass tells -/

/-- What a step tells, and whether it asks the run to stop, is what the work done in it tells. -/
theorem Steps.told {p q : Pool} {i : Nat} (h : p.Steps i q) : ∃ hs,
    q.handled = p.handled ++ hs ∧
    q.run.events = p.run.events ++ hs.flatMap (fun x => x.result.events) ∧
    q.run.cancelled = (p.run.cancelled || hs.any fun x => x.result.events.any Event.isCancel) := by
  cases h with
  | work hw hp =>
    rename_i w ws ws' s
    refine ⟨_, rfl, ?_⟩
    cases hres : p.run.process s with
    | mk r' result =>
      cases result with
      | none =>
        have hsame : r' = p.run := by
          unfold Run.process at hres
          split at hres
          · cases hres
          · exact (Prod.mk.inj hres).1.symm
        simp [hsame]
      | some x =>
        obtain ⟨q, f, -, -, -, rfl⟩ := Run.process_eq_some hres
        simp [Run.absorb]
  | _ => exact ⟨[], by simp⟩

/-- The events of a kind that the host does not cause are those of the work done. -/
theorem told_runSchedule {r : Run} {p : Pool} (P : Event → Bool) (schedule : List Move)
    (hc : Move.cancel ∈ schedule → P .cancel = false)
    (h : p.run.events.filter P =
      (r.events ++ p.handled.flatMap fun x => x.result.events).filter P) :
    (p.runSchedule schedule).run.events.filter P =
      (r.events ++ (p.runSchedule schedule).handled.flatMap fun x => x.result.events).filter P := by
  unfold runSchedule
  induction schedule generalizing p with
  | nil => exact h
  | cons m ms ih =>
    refine ih (fun hm => hc (List.mem_cons_of_mem _ hm)) ?_
    cases m with
    | step i =>
      obtain ⟨hs, hh, he, -⟩ := (p.steps_step i).told
      simp only [move, hh, he, List.filter_append, h, List.flatMap_append, List.append_assoc]
    | cancel =>
      have hP : P .cancel = false := hc List.mem_cons_self
      simp only [move, Run.emit, List.filter_append, h, List.filter_cons, hP, Bool.false_eq_true,
        ↓reduceIte, List.filter_nil, List.append_nil]

/-- If the host keeps still, the run is asked to stop by the work done only. -/
theorem cancelled_runSchedule {r : Run} {p : Pool} (schedule : List Move)
    (hc : Move.cancel ∉ schedule)
    (h : p.run.cancelled =
      (r.cancelled || p.handled.any fun x => x.result.events.any Event.isCancel)) :
    (p.runSchedule schedule).run.cancelled = (r.cancelled ||
      (p.runSchedule schedule).handled.any fun x => x.result.events.any Event.isCancel) := by
  unfold runSchedule
  induction schedule generalizing p with
  | nil => exact h
  | cons m ms ih =>
    rw [List.mem_cons, not_or] at hc
    refine ih hc.2 ?_
    cases m with
    | cancel => exact absurd rfl hc.1
    | step i =>
      obtain ⟨hs, hh, -, hcan⟩ := (p.steps_step i).told
      simp only [move, hh, hcan, h, List.any_append, Bool.or_assoc]

theorem IsPass.told {r : Run} {p : Pool} (h : p.IsPass r) {P : Event → Bool}
    (hP : P .cancel = false) : p.run.events.filter P =
      (r.events ++ p.handled.flatMap fun x => x.result.events).filter P := by
  obtain ⟨n, schedule, -, rfl, -⟩ := h
  exact told_runSchedule P schedule (fun _ => hP) (by simp [Pool.start])

/-- If the host keeps still, a pass tells what the work done tells. -/
theorem IsQuietPass.told_eq {r : Run} {p : Pool} (h : p.IsQuietPass r) :
    p.run.events = r.events ++ p.handled.flatMap fun x => x.result.events := by
  obtain ⟨n, schedule, -, rfl, -, hc⟩ := h
  have htold := told_runSchedule (r := r) (p := Pool.start r n) (fun _ => true) schedule
    (fun hmem => absurd hmem hc) (by simp [Pool.start])
  rwa [List.filter_eq_self.mpr fun _ _ => rfl, List.filter_eq_self.mpr fun _ _ => rfl] at htold

theorem IsQuietPass.cancelled {r : Run} {p : Pool} (h : p.IsQuietPass r) : p.run.cancelled =
    (r.cancelled || p.handled.any fun x => x.result.events.any Event.isCancel) := by
  obtain ⟨n, schedule, -, rfl, -, hc⟩ := h
  exact cancelled_runSchedule schedule hc (by simp [Pool.start])

/-! ## One worker after the other -/

/-- A bound on the steps that a worker has left, by its phase. -/
def rankOf (r : Run) : Phase → Nat
  | .checking => if r.isAborted then 3 else 3 * (r.slots.length - r.cursor) + 4
  | .claiming => 3 * (r.slots.length - r.cursor) + 3
  | .working _ => 3 * (r.slots.length - r.cursor) + 5
  | .reporting => 2
  | .leaving => 1
  | .gone _ => 0

/-- A bound on the steps that the worker with a number has left. -/
def rank (p : Pool) (i : Nat) : Nat := (p.workers[i]?).elim 0 fun w => rankOf p.run w.phase

/-- What a run has become while its workers went on: slots stay, the cursor moves on, and an
aborted run stays so. -/
structure Later (r r' : Run) : Prop where
  slots : r'.slots = r.slots
  cursor : r.cursor ≤ r'.cursor
  aborted : r.isAborted = true → r'.isAborted = true

theorem Later.refl (r : Run) : Later r r := ⟨rfl, Nat.le_refl _, id⟩

theorem Later.rankOf_le {r r' : Run} (h : Later r r') (ph : Phase) :
    rankOf r' ph ≤ rankOf r ph := by
  have hc := h.cursor
  cases ph <;> simp only [rankOf, h.slots]
  · by_cases ha : r.isAborted = true
    · exact Nat.le_of_eq (by rw [if_pos ha, if_pos (h.aborted ha)])
    · rw [if_neg ha]; split <;> omega
  all_goals omega

theorem later_process (r : Run) (s : Slot) : Later r (r.process s).1 := by
  unfold Run.process
  split
  · refine ⟨rfl, Nat.le_refl _, ?_⟩
    intro ha
    simp only [Run.isAborted, Run.absorb, Option.isSome_or] at ha ⊢
    rw [ha]; rfl
  · exact .refl r

/-- A step moves the run on. -/
theorem Steps.later {p q : Pool} {i : Nat} (h : p.Steps i q) : Later p.run q.run := by
  cases h with
  | idle _ => exact .refl _
  | check _ _ => exact .refl _
  | claim _ _ _ => exact ⟨rfl, Nat.le_succ _, id⟩
  | miss _ _ _ => exact ⟨rfl, Nat.le_succ _, id⟩
  | work _ _ => exact later_process ..
  | report _ _ => exact ⟨rfl, Nat.le_refl _, id⟩
  | leave _ _ => exact ⟨rfl, Nat.le_refl _, id⟩

theorem rankOf_checking_le (r : Run) :
    rankOf r .checking ≤ 3 * (r.slots.length - r.cursor) + 4 := by
  simp only [rankOf]
  split
  · omega
  · exact Nat.le_refl _

theorem rankOf_checking_le_four {r : Run}
    (h : r.slots.length ≤ r.cursor ∨ r.isAborted = true) : rankOf r .checking ≤ 4 := by
  rcases h with h | h
  · have hle := rankOf_checking_le r
    omega
  · simp [rankOf, h]

theorem rank_eq {p : Pool} {w : Worker} {ws ws' : List Worker}
    (hw : p.workers = ws ++ w :: ws') : p.rank ws.length = rankOf p.run w.phase := by
  simp [rank, hw]

/-- A worker that steps has a step fewer left. -/
theorem Steps.rank_le {p q : Pool} {i : Nat} (h : p.Steps i q) : q.rank i ≤ p.rank i - 1 := by
  cases h with
  | idle hi =>
    unfold rank
    cases hw : p.workers[i]? with
    | none => exact Nat.zero_le _
    | some w =>
      obtain ⟨last, hl⟩ := hi w hw
      simp [hl, rankOf]
  | check hw hp =>
    rw [rank_eq hw, rank_eq rfl, hp]
    by_cases ha : p.run.isAborted = true
    · simp [ha, rankOf]
    · simp [ha, rankOf]
  | claim hw hp hs =>
    have hc := (List.getElem?_eq_some_iff.mp hs).1
    rw [rank_eq hw, rank_eq rfl, hp]
    simp only [rankOf]
    omega
  | miss hw hp hs =>
    rw [rank_eq hw, rank_eq rfl, hp]
    simp only [rankOf]
    omega
  | @work w ws ws' s hw hp =>
    rw [rank_eq hw, rank_eq rfl, hp]
    have hlater := (later_process p.run s).rankOf_le .checking
    have hle := rankOf_checking_le p.run
    simp only [rankOf] at hlater hle ⊢
    omega
  | report hw hp => rw [rank_eq hw, rank_eq rfl, hp]; exact Nat.le_refl _
  | leave hw hp => rw [rank_eq hw, rank_eq rfl, hp]; exact Nat.le_refl _

/-- A step is one of the worker that makes it. -/
theorem Steps.workers_ne {p q : Pool} {i k : Nat} (h : p.Steps i q) (hk : k ≠ i) :
    q.workers[k]? = p.workers[k]? := by
  have hother (w w' : Worker) (ws ws' : List Worker) (hk : k ≠ ws.length) :
      (ws ++ w' :: ws')[k]? = (ws ++ w :: ws')[k]? := by
    rcases Nat.lt_or_gt_of_ne hk with hlt | hgt
    · rw [List.getElem?_append_left hlt, List.getElem?_append_left hlt]
    · rw [List.getElem?_append_right (Nat.le_of_lt hgt),
        List.getElem?_append_right (Nat.le_of_lt hgt),
        show k - ws.length = (k - ws.length - 1) + 1 from by omega]
      rfl
  cases h with
  | idle _ => rfl
  | check hw _ => rw [hw]; exact hother _ _ _ _ hk
  | claim hw _ _ => rw [hw]; exact hother _ _ _ _ hk
  | miss hw _ _ => rw [hw]; exact hother _ _ _ _ hk
  | work hw _ => rw [hw]; exact hother _ _ _ _ hk
  | report hw _ => rw [hw]; exact hother _ _ _ _ hk
  | leave hw _ => rw [hw]; exact hother _ _ _ _ hk

theorem workers_runSchedule_ne (p : Pool) {schedule : List Move} {k : Nat}
    (h : Move.step k ∉ schedule) : (p.runSchedule schedule).workers[k]? = p.workers[k]? := by
  unfold runSchedule
  induction schedule generalizing p with
  | nil => rfl
  | cons m ms ih =>
    rw [List.mem_cons, not_or] at h
    rw [List.foldl_cons, ih _ h.2]
    cases m with
    | cancel => rfl
    | step i => exact (p.steps_step i).workers_ne fun hk => h.1 (by rw [hk])

theorem rank_move_le (p : Pool) (m : Move) (k : Nat) :
    (p.move m).rank k ≤ p.rank k - if m = .step k then 1 else 0 := by
  cases m with
  | cancel => exact Nat.le_refl _
  | step i =>
    have hs := p.steps_step i
    by_cases hk : i = k
    · subst hk
      rw [if_pos rfl]
      exact hs.rank_le
    · rw [if_neg fun h => hk (Move.step.inj h)]
      simp only [move, rank, hs.workers_ne (Ne.symm hk)]
      cases p.workers[k]? with
      | none => exact Nat.le_refl _
      | some w => exact hs.later.rankOf_le w.phase

/-- The rank of a worker bounds the steps after which it has left. -/
theorem rank_runSchedule_le (p : Pool) (schedule : List Move) (k : Nat) :
    (p.runSchedule schedule).rank k ≤ p.rank k - schedule.count (.step k) := by
  unfold runSchedule
  induction schedule generalizing p with
  | nil => exact Nat.le_refl _
  | cons m ms ih =>
    have hone := p.rank_move_le m k
    have hrest := ih (p.move m)
    rw [List.foldl_cons, List.count_cons]
    by_cases hm : m = .step k
    · rw [if_pos hm] at hone
      simp only [hm, beq_self_eq_true, ↓reduceIte] at hrest ⊢
      rw [hm] at hone
      omega
    · rw [if_neg hm] at hone
      simp only [beq_iff_eq, hm, ↓reduceIte]
      omega

theorem exists_gone_of_rank {p : Pool} {k : Nat} {w : Worker} (hr : p.rank k = 0)
    (hw : p.workers[k]? = some w) : ∃ last, w.phase = .gone last := by
  rw [rank, hw, Option.elim_some] at hr
  cases hp : w.phase with
  | gone last => exact ⟨last, rfl⟩
  | checking =>
    rw [hp, rankOf] at hr
    split at hr
    · omega
    · omega
  | claiming => rw [hp, rankOf] at hr; omega
  | working s => rw [hp, rankOf] at hr; omega
  | reporting => rw [hp, rankOf] at hr; omega
  | leaving => rw [hp, rankOf] at hr; omega

theorem isOver_of_rank {p : Pool} (h : ∀ k, k < p.workers.length → p.rank k = 0) : p.IsOver := by
  intro w hw
  obtain ⟨k, hk, rfl⟩ := List.mem_iff_getElem.mp hw
  exact exists_gone_of_rank (h k hk) (List.getElem?_eq_getElem hk)

/-- The steps of the workers other than the first one. -/
theorem count_others {n k : Nat} (hk : k < n) (h0 : k ≠ 0) :
    4 ≤ ((List.range n).flatMap fun i =>
      if i = 0 then [] else List.replicate 4 (Move.step i)).count (.step k) := by
  have hmem : List.replicate 4 (Move.step k) ∈ (List.range n).map fun i =>
      if i = 0 then [] else List.replicate 4 (Move.step i) :=
    List.mem_map.mpr ⟨k, List.mem_range.mpr hk, by rw [if_neg h0]⟩
  have hsub := (List.sublist_flatten_of_mem hmem).count_le (.step k)
  rwa [List.count_replicate_self, ← List.flatMap_def] at hsub

/-- **When the first worker has left, the others find no work.** -/
theorem isOver_oneByOne {r : Run} (hr : r.HasFiles) {n : Nat} (hn : 0 < n) :
    ((Pool.start r n).runSchedule (oneByOne r.slots.length n)).IsOver := by
  refine isOver_of_rank ?_
  intro k hk
  rw [length_workers_runSchedule, Pool.start, List.length_replicate] at hk
  have hworker (i : Nat) (hi : i < n) : (Pool.start r n).workers[i]? = some {} := by
    simp [Pool.start, hi]
  rw [oneByOne, runSchedule, List.foldl_append]
  show Pool.rank (runSchedule (runSchedule _ _) _) k = 0
  generalize hq : (Pool.start r n).runSchedule
    (List.replicate (3 * r.slots.length + 4) (.step 0)) = q
  have hfirst : q.rank 0 = 0 := by
    have hstart : (Pool.start r n).rank 0 ≤ 3 * r.slots.length + 4 := by
      rw [rank, hworker 0 hn, Option.elim_some]
      exact rankOf_checking_le (Pool.start r n).run
    have hsteps := (Pool.start r n).rank_runSchedule_le
      (List.replicate (3 * r.slots.length + 4) (.step 0)) 0
    rw [hq, List.count_replicate_self] at hsteps
    omega
  have hrest := q.rank_runSchedule_le
    ((List.range n).flatMap fun i => if i = 0 then [] else List.replicate 4 (.step i)) k
  by_cases h0 : k = 0
  · subst h0
    omega
  · have hcount := count_others hk h0
    have hsound : Sound r q := hq ▸ (Sound.start r n).runSchedule hr _
    have hlen : 0 < q.workers.length := by
      rw [← hq, length_workers_runSchedule, Pool.start, List.length_replicate]
      exact hn
    -- the first worker left since no slot remained or the pass was aborted, and neither changes
    obtain ⟨last, hgone⟩ := exists_gone_of_rank hfirst (List.getElem?_eq_getElem hlen)
    have hpast := hsound.past _ (List.getElem_mem hlen) (by rw [hgone]; trivial)
    have hsame : q.workers[k]? = some {} := by
      rw [← hq, workers_runSchedule_ne, hworker k hk]
      intro hmem
      exact h0 (Move.step.inj (List.mem_replicate.mp hmem).2)
    have hle : q.rank k ≤ 4 := by
      rw [rank, hsame, Option.elim_some]
      exact rankOf_checking_le_four (hsound.slots_eq ▸ hpast)
    omega

/-- The host keeps still. -/
theorem cancel_notMem_oneByOne (slots workers : Nat) : Move.cancel ∉ oneByOne slots workers := by
  intro hmem
  rcases List.mem_append.mp hmem with h | h
  · cases (List.mem_replicate.mp h).2
  · obtain ⟨i, -, hi⟩ := List.mem_flatMap.mp h
    split at hi
    · cases hi
    · cases (List.mem_replicate.mp hi).2

end Pool

/-- **Letting one worker after the other finish is an interleaving.** -/
theorem Sweep.oneByOne_interleaves : Sweep.oneByOne.InterleavesQuietly := by
  intro n r hn hr
  exact ⟨n, _, hn, rfl, Pool.isOver_oneByOne hr.hasFiles hn, Pool.cancel_notMem_oneByOne _ n⟩

end StyleEngine
