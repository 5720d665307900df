import StyleEngine.Proofs.Engine.Preparation
import StyleEngine.Proofs.Run.PassContract
import StyleEngine.Proofs.Run.Storing

/-! # The protocol of claims

The workers of a pass share a cursor over the slots and a count of those who have
not left.  They run past the end of the slots, leave in any order, and tell only
then what they left undone.  Still, at every moment no slot is claimed twice and
the count is that of the workers present (`Pool.KeepsProtocol`), and when all have
left, every file was claimed once, one worker knew that it was the last, and the
pass is incomplete exactly if a claimed file was deferred (`Pool.Joins`).
-/
namespace StyleEngine

/-- Whether a worker has not left the pass. -/
def Worker.isPresent (w : Worker) : Bool :=
  match w.phase with
  | .gone _ => false
  | _ => true

/-- Whether a worker has left as the last one. -/
def Worker.leftLast (w : Worker) : Bool := w.phase = .gone true

@[simp] theorem Worker.isPresent_gone (b l : Bool) :
    ({ phase := .gone b, leftover := l } : Worker).isPresent = false := rfl

@[simp] theorem Worker.leftLast_gone (b l : Bool) :
    ({ phase := .gone b, leftover := l } : Worker).leftLast = b := by
  cases b <;> rfl

namespace Pool

/-! ## Counting out -/

/-- What the count of the workers says throughout a pass of `n` workers. -/
structure Counts (n : Nat) (p : Pool) : Prop where
  length : p.workers.length = n
  outstanding : p.run.outstanding = p.workers.countP Worker.isPresent
  last : p.workers.countP Worker.leftLast = if p.run.outstanding = 0 then 1 else 0
  claims : ∀ c ∈ p.claims, c.worker < n

namespace Counts

variable {n : Nat} {p q : Pool}

theorem start (r : Run) (hn : 0 < n) : (Pool.start r n).Counts n where
  length := List.length_replicate
  outstanding := by simp [Pool.start, Worker.isPresent, List.countP_replicate]
  last := by
    have hne : n ≠ 0 := Nat.ne_of_gt hn
    simp [Pool.start, Worker.leftLast, List.countP_replicate, hne]
  claims c hc := by cases hc

/-- A worker that becomes another one counts as that one. -/
theorem countP_workers (P : Worker → Bool) (w' : Worker) {w : Worker} {ws ws' : List Worker}
    (hw : p.workers = ws ++ w :: ws') :
    (ws ++ w' :: ws').countP P + (P w).toNat = p.workers.countP P + (P w').toNat := by
  rw [hw]
  simp only [List.countP_append, List.countP_cons]
  cases P w <;> cases P w' <;> simp <;> omega

/-- A step after which its worker is still there. -/
theorem of_present (h : p.Counts n) {w w' : Worker} {ws ws' : List Worker}
    (hw : p.workers = ws ++ w :: ws') (hq : q.workers = ws ++ w' :: ws')
    (hout : q.run.outstanding = p.run.outstanding) (hp : w.isPresent = true)
    (hp' : w'.isPresent = true) (hclaims : ∀ c ∈ q.claims, c.worker < n) : q.Counts n := by
  have hnotLast {v : Worker} (hv : v.isPresent = true) : v.leftLast = false := by
    refine decide_eq_false ?_
    intro hgone
    simp [Worker.isPresent, hgone] at hv
  have hpresent := countP_workers Worker.isPresent w' hw
  have hlast := countP_workers Worker.leftLast w' hw
  rw [hp, hp'] at hpresent
  rw [hnotLast hp, hnotLast hp'] at hlast
  refine ⟨?_, ?_, ?_, hclaims⟩
  · rw [← h.length, hq, hw]
    simp
  · rw [hout, h.outstanding, hq]
    omega
  · rw [hout, ← h.last, hq]
    omega

theorem outstanding_process (r : Run) (s : Slot) :
    (r.process s).1.outstanding = r.outstanding := by
  unfold Run.process
  split <;> rfl

/-- **Every step of a worker keeps the count.** -/
theorem steps (h : p.Counts n) {i : Nat} (hs : p.Steps i q) : q.Counts n := by
  cases hs with
  | idle _ => exact h
  | check hw hp =>
    refine h.of_present hw rfl rfl (by simp [Worker.isPresent, hp]) ?_ h.claims
    by_cases ha : p.run.isAborted <;> simp [Worker.isPresent, ha]
  | @claim w ws ws' s hw hp _ =>
    refine h.of_present hw rfl rfl (by simp [Worker.isPresent, hp]) rfl ?_
    intro c hc
    rcases List.mem_append.mp hc with hc | hc
    · exact h.claims c hc
    · obtain rfl := List.mem_singleton.mp hc
      rw [← h.length, hw, List.length_append, List.length_cons]
      show ws.length < _
      omega
  | miss hw hp _ => exact h.of_present hw rfl rfl (by simp [Worker.isPresent, hp]) rfl h.claims
  | work hw hp =>
    exact h.of_present hw rfl (outstanding_process ..) (by simp [Worker.isPresent, hp]) rfl h.claims
  | report hw hp => exact h.of_present hw rfl rfl (by simp [Worker.isPresent, hp]) rfl h.claims
  | @leave w ws ws' hw hp =>
    -- the worker that leaves is one of those counted, so the count is positive
    have hpresent := countP_workers Worker.isPresent
      { w with phase := .gone (p.run.outstanding == 1) } hw
    have hlast := countP_workers Worker.leftLast
      { w with phase := .gone (p.run.outstanding == 1) } hw
    rw [← h.outstanding, show w.isPresent = true from by simp [Worker.isPresent, hp]] at hpresent
    rw [h.last, show w.leftLast = false from by simp [Worker.leftLast, hp],
      Worker.leftLast_gone] at hlast
    refine ⟨?_, ?_, ?_, h.claims⟩
    · rw [← h.length, hw]
      simp
    · show p.run.outstanding - 1 =
        (ws ++ { w with phase := .gone (p.run.outstanding == 1) } :: ws').countP Worker.isPresent
      simp only [Bool.toNat_true, Worker.isPresent_gone, Bool.toNat_false] at hpresent
      omega
    · simp only [Bool.toNat_true, Worker.isPresent_gone, Bool.toNat_false,
        Nat.add_zero] at hpresent hlast
      show _ = if p.run.outstanding - 1 = 0 then 1 else 0
      rw [hlast, if_neg (by omega), Nat.zero_add]
      by_cases hone : p.run.outstanding = 1
      · simp [hone]
      · rw [if_neg (by omega)]
        simp [hone]

/-- **So every order of steps keeps it**, with the host's requests anywhere among them. -/
theorem runSchedule (h : p.Counts n) (schedule : List Move) :
    (p.runSchedule schedule).Counts n := by
  unfold Pool.runSchedule
  induction schedule generalizing p with
  | nil => exact h
  | cons m ms ih =>
    cases m with
    | step i => exact ih (h.steps (p.steps_step i))
    | cancel => exact ih ⟨h.length, h.outstanding, h.last, h.claims⟩

/-- A worker that is about to leave is counted. -/
theorem pos_of_leaving (h : p.Counts n) {w : Worker} (hw : w ∈ p.workers)
    (hp : w.phase = .leaving) : 0 < p.run.outstanding := by
  rw [h.outstanding, List.countP_pos_iff]
  exact ⟨w, hw, by simp [Worker.isPresent, hp]⟩

theorem outstanding_of_isOver (h : p.Counts n) (ho : p.IsOver) : p.run.outstanding = 0 := by
  rw [h.outstanding, List.countP_eq_zero]
  intro w hw
  obtain ⟨last, hl⟩ := ho w hw
  simp [Worker.isPresent, hl]

end Counts

/-! ## Claims -/

/-- What the workers keep to at every moment of a pass of `n` workers. -/
structure KeepsProtocol (n : Nat) (p : Pool) : Prop where
  /-- No slot is claimed twice. -/
  once : (p.claims.map Claim.slot).Nodup
  /-- A claim is one of a worker, on the place of a file of a project with a status. -/
  valid : ∀ c ∈ p.claims, c.worker < n ∧ (p.run.lookup? c.slot).isSome = true ∧
    (p.run.statuses[c.slot.project]?).isSome = true
  outstanding : p.run.outstanding = p.workers.countP Worker.isPresent
  /-- The count of those present is not taken below zero. -/
  positive : ∀ w ∈ p.workers, w.phase = .leaving → 0 < p.run.outstanding

/-- What holds when the `n` workers of a pass over projects have left. -/
structure Joins (projects : List Project) (n : Nat) (p : Pool) : Prop where
  /-- Every file was claimed by one worker, once. -/
  covers : ∀ i q k, projects[i]? = some q → k < q.files.length →
    ∃ w, w < n ∧ (p.claims.filter fun c => c.slot = ⟨i, k⟩) = [⟨w, ⟨i, k⟩⟩]
  /-- Each claim was worked on, once. -/
  handled : (p.handled.map Handled.slot).Perm (p.claims.map Claim.slot)
  outstanding : p.run.outstanding = 0
  /-- One worker knew that it was the last one. -/
  last : p.workers.countP Worker.leftLast = 1
  incomplete_iff : p.run.incomplete = true ↔
    ∃ c ∈ p.claims, ∃ x ∈ p.handled, x.slot = c.slot ∧ x.result.outcome = .deferred

/-- A slot that is claimed, and not twice, has one claim. -/
theorem filter_claims {cs : List Claim} (hnd : (cs.map Claim.slot).Nodup) {c : Claim}
    (hc : c ∈ cs) : (cs.filter fun d => d.slot = c.slot) = [c] := by
  induction cs with
  | nil => cases hc
  | cons d ds ih =>
    obtain ⟨hd, hds⟩ := List.nodup_cons.mp hnd
    rcases List.mem_cons.mp hc with rfl | hc
    · rw [List.filter_cons, if_pos (decide_eq_true rfl), List.filter_eq_nil_iff.mpr]
      intro d hmem hslot
      exact hd (of_decide_eq_true hslot ▸ List.mem_map_of_mem hmem)
    · have hne : d.slot ≠ c.slot := fun he => hd (he ▸ List.mem_map_of_mem hc)
      rw [List.filter_cons, if_neg (by simpa using hne), ih hds hc]

section Pass

variable {r : Run} {n : Nat} {p : Pool}

theorem Sound.nodup_claims (h : Sound r p) (hr : r.WellPlaced) :
    (p.claims.map Claim.slot).Nodup := by
  rw [h.claimed]
  exact hr.nodup.sublist (List.take_sublist ..)

/-- **At every moment the workers keep to the protocol.** -/
theorem keepsProtocol (h : Sound r p) (hc : p.Counts n) (hr : r.WellPlaced)
    (hst : r.HasStatuses) : p.KeepsProtocol n where
  once := h.nodup_claims hr
  valid c hmem := by
    have hslot : c.slot ∈ r.slots := h.mem_slots_of_claim (List.mem_map_of_mem hmem)
    have hfile : (p.run.file? c.slot).isSome = true := by
      rw [h.works.frame.isSome_file?]
      exact (hr.mem_iff _).mp hslot
    obtain ⟨f, hf⟩ := Option.isSome_iff_exists.mp hfile
    obtain ⟨q, hq, hk⟩ := Option.bind_eq_some_iff.mp hf
    refine ⟨hc.claims c hmem, ?_, ?_⟩
    · rw [Run.lookup?, hq, Option.bind_some, hk]
      rfl
    · have hshell : r.shell? c.slot.project = some { q with files := [] } := by
        rw [← h.works.frame.shell, Run.shell?, hq]
        rfl
      obtain ⟨st, hst⟩ := hst _ _ hshell
      rw [h.works.frame.statuses, hst]
      rfl
  outstanding := hc.outstanding
  positive _ := hc.pos_of_leaving

/-- **When all workers have left a pass that was not aborted, the protocol has done its work.** -/
theorem joins (h : Sound r p) (hc : p.Counts n) (hr : r.WellPlaced) (hn : 0 < n)
    (ho : p.IsOver) (ha : p.run.isAborted = false) {projects : List Project}
    (hfile : ∀ s : Slot, (r.file? s).isSome = true ↔
      ∃ q, projects[s.project]? = some q ∧ s.file < q.files.length) : p.Joins projects n where
  covers i q k hq hk := by
    have hslot : (⟨i, k⟩ : Slot) ∈ r.slots := (hr.mem_iff _).mpr ((hfile ⟨i, k⟩).mpr ⟨q, hq, hk⟩)
    have hworkers : p.workers ≠ [] := by
      intro hnil
      have hlen := hc.length
      rw [hnil, List.length_nil] at hlen
      omega
    have hclaimed : (⟨i, k⟩ : Slot) ∈ p.claims.map Claim.slot := by
      rw [h.shared.mem_iff, List.mem_append]
      exact .inl ((h.handled_perm ho hworkers ha).mem_iff.mpr hslot)
    obtain ⟨⟨w, s⟩, hmem, rfl⟩ := List.mem_map.mp hclaimed
    exact ⟨w, hc.claims _ hmem, filter_claims (h.nodup_claims hr) hmem⟩
  handled := by
    have hshared := h.shared
    rw [Sound.working_eq_nil ho, List.append_nil] at hshared
    exact hshared.symm
  outstanding := hc.outstanding_of_isOver ho
  last := by rw [hc.last, if_pos (hc.outstanding_of_isOver ho)]
  incomplete_iff := by
    rw [h.incomplete_iff ho]
    constructor
    · rintro ⟨x, hx, hd⟩
      have hslot : x.slot ∈ p.claims.map Claim.slot := by
        rw [h.shared.mem_iff]
        exact List.mem_append_left _ (List.mem_map_of_mem hx)
      obtain ⟨c, hmem, hcs⟩ := List.mem_map.mp hslot
      exact ⟨c, hmem, x, hx, hcs.symm, hd⟩
    · rintro ⟨c, -, x, hx, -, hd⟩
      exact ⟨x, hx, hd⟩

/-- Workers that are each given steps enough all leave. -/
theorem isOver_of_count (r : Run) {schedule : List Move}
    (h : ∀ k, k < n → 3 * r.slots.length + 4 ≤ schedule.count (.step k)) :
    ((Pool.start r n).runSchedule schedule).IsOver := by
  refine isOver_of_rank ?_
  intro k hk
  rw [length_workers_runSchedule, Pool.start, List.length_replicate] at hk
  have hstart : (Pool.start r n).rank k ≤ 3 * r.slots.length + 4 := by
    rw [rank, show (Pool.start r n).workers[k]? = some {} from by simp [Pool.start, hk],
      Option.elim_some]
    exact rankOf_checking_le (Pool.start r n).run
  have hsteps := (Pool.start r n).rank_runSchedule_le schedule k
  have hcount := h k hk
  omega

end Pass

end Pool

/-! ## The passes of a run -/

namespace Run

/-- The runs that a pass can be made over, from the first one of a run on. -/
inductive ComesTo (r : Run) : Run → Prop
  | start : ComesTo r r
  | next {r₀ : Run} {p : Pool} (h : ComesTo r r₀) (hp : p.IsPass r₀) (hf : p.run.fatal = none) :
    ComesTo r p.run.settle.next

theorem HasStatuses.next {r₀ : Run} {p : Pool} (h : r₀.HasStatuses) (hr : r₀.WellPlaced)
    (hp : p.IsPass r₀) : p.run.settle.next.HasStatuses := by
  intro i q hq
  have hshell : r₀.shell? i = some q := ((hp.frame hr).shell i).symm.trans hq
  obtain ⟨st, hst⟩ := h i q hshell
  rw [← (hp.frame hr).statuses] at hst
  exact ⟨{ st with complete := (p.run.projects[i]?).any Project.isComplete },
    by simp [Run.next, Run.settle, hst]⟩

/-- What the later passes of a run find is what the first one did, but for what the files are. -/
theorem ComesTo.keeps {r r₀ : Run} (h : r.ComesTo r₀) (hr : r.WellPlaced) (hst : r.HasStatuses) :
    r₀.WellPlaced ∧ r₀.HasStatuses ∧ r.SameFiles r₀ := by
  induction h with
  | start => exact ⟨hr, hst, .refl r⟩
  | next _ hp _ ih =>
    obtain ⟨hr₀, hst₀, hsame⟩ := ih
    refine ⟨wellPlaced_next (hp.wellPlaced hr₀), hst₀.next hr₀ hp, ?_⟩
    exact (hsame.trans (hp.frame hr₀).sameFiles).trans ⟨rfl, rfl, rfl, fun _ => rfl, fun _ => rfl⟩

end Run

namespace Engine

variable {e : Engine} {t : FileTree} {switches : Switches} {mode : RunMode}
  {settingsPath : Option String} {projects : List Project} {r : Run}

theorem Starts.hasStatuses (h : e.Starts t switches mode settingsPath projects r) :
    r.HasStatuses := by
  intro i q hq
  obtain ⟨_, -, _, _, -, -, hst, -⟩ := h.exists_status (Q := fun _ => True) trivial
    (fun _ _ _ _ _ _ => trivial) hq
  exact ⟨_, hst⟩

/-- **The claim protocol**: in every pass of a run, for every number of workers and every order
of their steps, as long as no worker aborts the pass, the workers keep to the protocol; when all
have left, it has done its work; and they all leave if each is given steps enough. -/
theorem claims_runSchedule (h : e.Starts t switches mode settingsPath projects r) {r₀ : Run}
    (hr : r.ComesTo r₀) {n : Nat} (hn : 0 < n) (schedule : List Move)
    (ha : ((Pool.start r₀ n).runSchedule schedule).run.isAborted = false) :
    let p := (Pool.start r₀ n).runSchedule schedule
    p.KeepsProtocol n ∧ (p.IsOver → p.Joins projects n) ∧
      ((∀ k, k < n → 3 * r₀.slots.length + 4 ≤ schedule.count (.step k)) → p.IsOver) := by
  intro p
  obtain ⟨hplaced, hst, hsame⟩ := hr.keeps h.fresh.wellPlaced h.hasStatuses
  have hsound : Pool.Sound r₀ p := (Pool.Sound.start r₀ n).runSchedule hplaced.hasFiles schedule
  have hcounts : p.Counts n := (Pool.Counts.start r₀ hn).runSchedule schedule
  refine ⟨Pool.keepsProtocol hsound hcounts hplaced hst, ?_, Pool.isOver_of_count r₀⟩
  intro ho
  refine Pool.joins hsound hcounts hplaced hn ho ha ?_
  intro s
  rw [hsame.isSome, h.isSome_file?_iff]

/-- Two workers that take turns over an empty project and one with a file that is deferred. -/
theorem claims_patient : ∃ r : Run,
    let p := (Pool.start r 2).runSchedule (List.replicate 10 [Move.step 1, .step 0]).flatten
    { patient 3 with cache := none }.Starts {} [] {} none [{}, patientProject] r ∧
    p.run.isAborted = false ∧ p.run.incomplete = true ∧ p.KeepsProtocol 2 ∧
    p.Joins [{}, patientProject] 2 := by
  obtain ⟨r, hstart, hslots, ha, hi⟩ : ∃ r : Run,
      let p := (Pool.start r 2).runSchedule (List.replicate 10 [Move.step 1, .step 0]).flatten
      { patient 3 with cache := none }.Starts {} [] {} none [{}, patientProject] r ∧
      r.slots.length = 2 ∧ p.run.isAborted = false ∧ p.run.incomplete = true :=
    ⟨_, ⟨rfl, rfl, rfl⟩, rfl, by decide +kernel, by decide +kernel⟩
  obtain ⟨hkeeps, hjoins, hover⟩ := claims_runSchedule hstart .start (n := 2) (by decide) _ ha
  refine ⟨r, hstart, ha, hi, hkeeps, hjoins (hover ?_)⟩
  rw [hslots]
  decide

end Engine

end StyleEngine
