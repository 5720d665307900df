import StyleEngine.Proofs.Run.PassContract

/-! # Publishing violations

A violation comes to a file from an analyzer, from a parser that sees the file in
several passes, from a failure, from a fix that could not be applied or from the
cache.  Whichever way it comes, it is recorded and told of, or neither
(`FileJob.process_published`), if add-ins publish on the files that they work on
only.

Add-ins can reach the other files of a run as well, and they may have a state of
their own, so that they act in another way each time.  `Pool.IsFreePass` allows for
both: a pass is a sequence of steps of the workers, under whatever the add-ins then
do, and of reports on any file of the run between them.  Such a pass tells of what it
records, too (`Pool.IsFreePass.tells`).
-/
namespace StyleEngine

/-- The violations among events. -/
def Event.published (events : List Event) : List Violation := events.filterMap Event.violation?

namespace Event

@[simp] theorem published_nil : published [] = [] := rfl

@[simp] theorem published_append (es es' : List Event) :
    published (es ++ es') = published es ++ published es' :=
  List.filterMap_append

theorem published_eq_nil_iff {es : List Event} :
    published es = [] ↔ ∀ e ∈ es, e.violation? = none :=
  List.filterMap_eq_nil_iff

end Event

/-! ## One file -/

/-- Whether a visit has told of just the violations that it has recorded on a file. -/
def Visit.Tells (f : SourceFile) (s : Visit) : Prop :=
  s.file.violations = f.violations ++ Event.published s.events

theorem Visit.tells_start (f : SourceFile) : ({ file := f } : Visit).Tells f :=
  (List.append_nil _).symm

theorem Visit.Tells.publish {f : SourceFile} {s : Visit} (h : s.Tells f) (v : Violation) :
    (s.publish v).1.Tells f := by
  unfold Visit.publish
  split
  · exact h
  · next hnew =>
    have hany : ¬ (s.file.violations.any fun w => w.sameOccurrence v) = true := hnew
    show Violation.insertNew s.file.violations v = _
    rw [Violation.insertNew, if_neg hany, Event.published_append, ← List.append_assoc,
      ← show s.file.violations = _ from h]
    rfl

/-- A violation that is told of for another file breaks the balance, so this is no invariant of
add-ins that publish elsewhere. -/
theorem Visit.tells_invariant (ctx : FileContext) (f : SourceFile) :
    Visit.Invariant ctx (Visit.Tells f) False where
  takeText h := h
  setModel _ h := h
  hold _ h := h
  publish v h := h.publish v
  emit {s} e he h := by
    have hquiet : Event.published [e] = [] := by
      refine Event.published_eq_nil_iff.mpr ?_
      intro e' he'
      rw [List.mem_singleton.mp he']
      exact he.resolve_right id
    show s.file.violations = _
    rw [Visit.emit, Event.published_append, hquiet, List.append_nil]
    exact h
  fix {s} _ h := by
    obtain ⟨m, b, hm⟩ := s.file.applyFixes_file s.held
    simp only [Visit.Tells, hm]
    exact h

namespace FileJob

/-- **What work on a file records is what it tells of.** -/
theorem process_published {j : FileJob} (hj : j.registry.PublishesOnFiles)
    (cached : Option (List Violation)) (f : SourceFile) :
    (j.process cached f).file.violations =
      f.violations ++ Event.published (j.process cached f).events := by
  obtain ⟨s, hs, hevents, hfile⟩ := j.process_visit (.inr hj) cached f
    (Visit.tells_invariant j.context f) (Visit.tells_start f)
  rw [hevents, ← show s.file.violations = _ from hs]
  rcases hfile with hfile | hfile
  · rw [hfile]
  · rw [hfile]
    rfl

end FileJob

namespace Run

theorem outcome_published {r : Run} (hr : r.registry.PublishesOnFiles) (q : Project)
    (status : Option ProjectStatus) (f : SourceFile) :
    (r.outcome q status f).2.file.violations =
      f.violations ++ Event.published (r.outcome q status f).2.events := by
  rcases r.outcome_cases q status f with ⟨st, -, h⟩ | ⟨-, h⟩
  · rw [h]
    exact FileJob.process_published hr ..
  · rw [h]
    exact (List.append_nil _).symm

theorem outcome_noRepeats (r : Run) (q : Project) (status : Option ProjectStatus)
    {f : SourceFile} (hf : Violation.NoRepeats f.violations) :
    Violation.NoRepeats (r.outcome q status f).2.file.violations := by
  rcases r.outcome_cases q status f with ⟨st, -, h⟩ | ⟨-, h⟩
  · rw [h]
    exact FileJob.process_noRepeats _ _ hf
  · rw [h]
    exact hf

/-- Work on a slot gives a result, or leaves the run as it is. -/
theorem process_cases (r : Run) (s : Slot) :
    (r.process s).1 = r ∨ ∃ r' p, r.process s = (r', some p) := by
  unfold process
  split
  · exact .inr ⟨_, _, rfl⟩
  · exact .inl rfl

theorem process_sameFrame (r : Run) (s : Slot) : r.SameFrame (r.process s).1 := by
  rcases r.process_cases s with hsame | ⟨r', p, hp⟩
  · rw [hsame]
    exact .refl r
  · rw [hp]
    exact .of_process hp

/-! ## What a run has recorded -/

/-- The violations recorded on the files of a run. -/
def recorded (r : Run) : List Violation := r.projects.flatMap Project.violations

/-- Changing one element of a list so that more is read off it, more is read off the list. -/
theorem flatMap_modify_perm {α β : Type} {l : List α} {i : Nat} {a : α} (h : l[i]? = some a)
    {g : α → α} {read : α → List β} {more : List β} (hg : (read (g a)).Perm (read a ++ more)) :
    ((l.modify i g).flatMap read).Perm (l.flatMap read ++ more) := by
  obtain ⟨l₁, l₂, rfl, rfl, -⟩ := Pool.exists_split h
  have hmodify : (l₁ ++ a :: l₂).modify l₁.length g = l₁ ++ g a :: l₂ := by
    rw [List.modify_eq_take_drop, List.take_left, List.drop_left]
    rfl
  rw [hmodify]
  simp only [List.flatMap_append, List.flatMap_cons, List.append_assoc]
  refine List.Perm.append_left _ ?_
  refine (hg.append_right _).trans ?_
  rw [List.append_assoc]
  exact List.Perm.append_left _ List.perm_append_comm

theorem recorded_absorb {r : Run} {s : Slot} {f : SourceFile} {p : Processed} (j : FileJob)
    {more : List Violation} (hf : r.file? s = some f)
    (hp : p.file.violations = f.violations ++ more) :
    (r.absorb s j p).recorded.Perm (r.recorded ++ more) := by
  obtain ⟨q, hq, hk⟩ := Option.bind_eq_some_iff.mp hf
  refine flatMap_modify_perm hq ?_
  refine flatMap_modify_perm hk ?_
  rw [hp]

/-- Whether a run has told of just what its files hold, and none of them holds an occurrence
twice. -/
structure Tells (r : Run) : Prop where
  published : (Event.published r.events).Perm r.recorded
  noRepeats : ∀ s f, r.file? s = some f → Violation.NoRepeats f.violations

namespace Tells

variable {r r' : Run}

/-- What a run has told of and what its files hold is all that counts. -/
theorem of_same (h : r.Tells) (hprojects : r'.projects = r.projects)
    (hevents : Event.published r'.events = Event.published r.events) : r'.Tells where
  published := by
    rw [hevents, recorded, hprojects]
    exact h.published
  noRepeats s f hf := h.noRepeats s f (by rwa [file?, ← hprojects])

/-- A result that tells of what it records keeps the balance. -/
theorem absorb (h : r.Tells) {s : Slot} {f : SourceFile} (hf : r.file? s = some f) (j : FileJob)
    {p : Processed} (hp : p.file.violations = f.violations ++ Event.published p.events)
    (hnr : Violation.NoRepeats p.file.violations) : (r.absorb s j p).Tells where
  published := by
    show (Event.published (r.events ++ p.events)).Perm _
    rw [Event.published_append]
    exact (h.published.append_right _).trans (recorded_absorb j hf hp).symm
  noRepeats s' f' hf' := by
    rw [file?_absorb, hf] at hf'
    split at hf'
    · exact Option.some.inj hf' ▸ hnr
    · exact h.noRepeats s' f' hf'

theorem process (h : r.Tells) (hr : r.registry.PublishesOnFiles) (s : Slot) :
    (r.process s).1.Tells := by
  rcases r.process_cases s with hsame | ⟨r', p, hp⟩
  · rwa [hsame]
  · rw [hp]
    obtain ⟨q, f, -, hf, rfl, rfl⟩ := process_eq_some hp
    exact h.absorb hf _ (outcome_published hr ..) (outcome_noRepeats _ q _ (h.noRepeats s f hf))

end Tells

/-! ## Reports on other files of the run -/

/-- A report on a file of a run, whoever makes it: the violation is recorded there and told of,
if it is new. -/
def remark (r : Run) (s : Slot) (v : Violation) : Run :=
  match r.file? s with
  | none => r
  | some f =>
    let visit := (({ file := f } : Visit).publish v).1
    { r with
      projects := r.projects.modify s.project fun q => q.modifyFile s.file fun _ => visit.file
      events := r.events ++ visit.events }

end Run

/-- What happens next in a pass over files that all add-ins can reach. -/
inductive FreeMove where
  /-- A step of a worker or the host's request to stop, and what add-ins do at that moment. -/
  | move (addIns : Registry) (m : Move)
  /-- A report on a file of the run, by an add-in that works on another. -/
  | remark (slot : Slot) (v : Violation)

namespace FreeMove

/-- Whether add-ins publish on the files that they work on, or by remarks. -/
def Publishes : FreeMove → Prop
  | .move addIns _ => addIns.PublishesOnFiles
  | .remark .. => True

end FreeMove

namespace Pool

/-- What a free move does to a pass. -/
def freeMove (p : Pool) : FreeMove → Pool
  | .move addIns m =>
    let q := ({ p with run.registry := addIns } : Pool).move m
    { q with run.registry := p.run.registry }
  | .remark slot v => { p with run := p.run.remark slot v }

def runFreely (p : Pool) (moves : List FreeMove) : Pool := moves.foldl freeMove p

/-- Whether a pass over a run is a sequence of free moves. -/
def IsFreePass (r : Run) (p : Pool) : Prop :=
  ∃ workers moves, (∀ m ∈ moves, m.Publishes) ∧ p = (Pool.start r workers).runFreely moves

end Pool

namespace Run

variable {r r' : Run} {s : Slot} {v : Violation}

/-- A remark does to a run what work on the file would do that publishes the violation. -/
theorem remark_eq_absorb {f : SourceFile} (hf : r.file? s = some f) (j : FileJob) :
    r.remark s v = r.absorb s j
      { file := (({ file := f } : Visit).publish v).1.file
        outcome := .skipped
        events := (({ file := f } : Visit).publish v).1.events } := by
  have hquiet : (({ file := f } : Visit).publish v).1.events.any Event.isCancel = false := by
    unfold Visit.publish
    split <;> rfl
  have hcache : r.cache.map (fun c => c) = r.cache := Option.map_id' ..
  simp [remark, hf, absorb, count, Cache.change, hquiet, hcache]

theorem remark_eq_self (hf : r.file? s = none) : r.remark s v = r := by
  simp only [remark, hf]

theorem remark_sameFrame (r : Run) (s : Slot) (v : Violation) : r.SameFrame (r.remark s v) := by
  cases hf : r.file? s with
  | none =>
    rw [remark_eq_self hf]
    exact .refl r
  | some f =>
    rw [remark_eq_absorb hf (r.job {} {})]
    refine .of_absorb hf ?_ ?_ _
    · rw [Visit.publish_file]
      rfl
    · rw [Visit.publish_file]
      rfl

theorem Tells.remark (h : r.Tells) (s : Slot) (v : Violation) : (r.remark s v).Tells := by
  cases hf : r.file? s with
  | none => rwa [remark_eq_self hf]
  | some f =>
    rw [remark_eq_absorb hf (r.job {} {})]
    refine h.absorb hf _ ((Visit.tells_start f).publish v) ?_
    rw [Visit.publish_file_violations]
    exact Violation.noRepeats_insertNew (h.noRepeats s f hf) v

/-- Other add-ins for a while, and then those of before. -/
theorem SameFrame.restore {addIns : Registry} (h : SameFrame { r with registry := addIns } r') :
    r.SameFrame { r' with registry := r.registry } :=
  ⟨rfl, h.switches, h.autoFix, h.statuses, h.slots, h.pass, h.shell, h.name⟩

end Run

/-! ## Passes -/

namespace Pool

variable {r : Run} {p : Pool}

/-- What a step does to the run: the work on a slot, or nothing but to note where the pass
stands. -/
theorem run_step (p : Pool) (i : Nat) : (∃ s, (p.step i).run = (p.run.process s).1) ∨
    (p.run.SameWork (p.step i).run ∧ (p.step i).run.events = p.run.events) := by
  have hsteps := p.steps_step i
  generalize p.step i = q at hsteps ⊢
  cases hsteps with
  | work _ _ => exact .inl ⟨_, rfl⟩
  | idle _ | check _ _ | claim _ _ _ | miss _ _ _ | report _ _ | leave _ _ =>
    exact .inr ⟨rfl, rfl⟩

theorem frame_move (p : Pool) (m : Move) : p.run.SameFrame (p.move m).run := by
  cases m with
  | cancel => exact Run.SameWork.frame rfl
  | step i =>
    show p.run.SameFrame (p.step i).run
    rcases p.run_step i with ⟨s, hrun⟩ | ⟨hwork, -⟩
    · rw [hrun]
      exact p.run.process_sameFrame s
    · exact hwork.frame

/-- A move tells of what it records, if add-ins do. -/
theorem tells_move (hp : p.run.Tells) (hq : p.run.registry.PublishesOnFiles) (m : Move) :
    (p.move m).run.Tells := by
  cases m with
  | cancel =>
    refine hp.of_same rfl ?_
    show Event.published (p.run.events ++ [.cancel]) = _
    rw [Event.published_append]
    exact List.append_nil _
  | step i =>
    show (p.step i).run.Tells
    rcases p.run_step i with ⟨s, hrun⟩ | ⟨hwork, htold⟩
    · rw [hrun]
      exact hp.process hq s
    · exact hp.of_same (Run.SameWork.projects hwork) (congrArg _ htold)

/-- **A free move keeps the frame of the run and tells of what it records.** -/
theorem tells_freeMove (hp : p.run.Tells) {m : FreeMove} (hm : m.Publishes) :
    p.run.SameFrame (p.freeMove m).run ∧ (p.freeMove m).run.Tells := by
  cases m with
  | remark s v => exact ⟨p.run.remark_sameFrame s v, hp.remark s v⟩
  | move addIns m =>
    let q : Pool := { p with run.registry := addIns }
    have hunder : q.run.Tells := hp.of_same rfl rfl
    exact ⟨(q.frame_move m).restore, (tells_move hunder hm m).of_same rfl rfl⟩

theorem tells_runFreely (hp : p.run.Tells) {moves : List FreeMove}
    (hmoves : ∀ m ∈ moves, m.Publishes) :
    p.run.SameFrame (p.runFreely moves).run ∧ (p.runFreely moves).run.Tells := by
  induction moves generalizing p with
  | nil => exact ⟨.refl _, hp⟩
  | cons m ms ih =>
    obtain ⟨hframe, htells⟩ := tells_freeMove hp (hmoves m List.mem_cons_self)
    obtain ⟨hrest, htells'⟩ := ih htells fun m' hm' => hmoves m' (List.mem_cons_of_mem _ hm')
    exact ⟨hframe.trans hrest, htells'⟩

/-- **A pass that is made freely tells of what it records.** -/
theorem IsFreePass.tells (h : p.IsFreePass r) (hr : r.Tells) :
    r.SameFrame p.run ∧ p.run.Tells := by
  obtain ⟨workers, moves, hmoves, rfl⟩ := h
  have hstart : r.SameWork (Pool.start r workers).run := rfl
  obtain ⟨hframe, htells⟩ := tells_runFreely (p := Pool.start r workers) (hr.of_same rfl rfl) hmoves
  exact ⟨hstart.frame.trans hframe, htells⟩

/-- A free move under the add-ins of the run is the move alone. -/
theorem freeMove_move (p : Pool) (m : Move) : p.freeMove (.move p.run.registry m) = p.move m := by
  have hregistry : p.run.registry = (p.move m).run.registry := (p.frame_move m).registry.symm
  show { p.move m with run.registry := p.run.registry } = p.move m
  rw [hregistry]

theorem runFreely_moves (p : Pool) (schedule : List Move) :
    p.runFreely (schedule.map (FreeMove.move p.run.registry)) = p.runSchedule schedule := by
  induction schedule generalizing p with
  | nil => rfl
  | cons m ms ih =>
    have hrest := ih (p.move m)
    rw [(p.frame_move m).registry] at hrest
    rw [List.map_cons, runFreely, List.foldl_cons, freeMove_move]
    exact hrest

/-- **Passes in which add-ins publish on the files that they work on are free passes.** -/
theorem IsPass.isFreePass (h : p.IsPass r) (hr : r.registry.PublishesOnFiles) :
    p.IsFreePass r := by
  obtain ⟨workers, schedule, -, rfl, -⟩ := h
  refine ⟨workers, schedule.map (FreeMove.move r.registry), ?_,
    (runFreely_moves (Pool.start r workers) schedule).symm⟩
  intro m hm
  obtain ⟨m, -, rfl⟩ := List.mem_map.mp hm
  exact hr

end Pool

namespace Run

/-- What each pass keeps, all passes keep, however they are made. -/
theorem passLoop_keeps {sweep : Run → Pool} {P : Run → Prop} (hpass : ∀ r, P r → P (sweep r).run)
    (hsettle : ∀ r, P r → P r.settle) (hnext : ∀ r, P r → P r.next)
    (hemit : ∀ r o, P r → P (r.emit (.output o))) (left : Nat) {r : Run} (h : P r) :
    P (r.passLoop sweep left).1 := by
  induction left generalizing r with
  | zero => exact h
  | succ left ih =>
    unfold passLoop
    split
    · exact h
    · simp only
      split
      · exact hpass r h
      · split
        · exact hsettle _ (hpass r h)
        · split
          · exact hemit _ _ (hsettle _ (hpass r h))
          · exact ih (hnext _ (hsettle _ (hpass r h)))

end Run

end StyleEngine
