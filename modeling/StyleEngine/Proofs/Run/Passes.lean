import StyleEngine.Proofs.Run.Sweep
import StyleEngine.Run.Passes

/-! # One pass after another

`Run.Passes` relates a run to the passes that are made over it, to the run that
they leave and to how they ended, one constructor for each way to go on after a
pass; `Run.passes_passLoop` says that `Run.passLoop` goes that way, and
`Run.Passes.unique` that there is no other.  What is said of one pass in the first
section carries over to all of them by induction on this relation: what a pass
keeps they all keep (`Run.Passes.keeps`), what it adds to a quantity they add up
(`Run.Passes.accumulates`), and what holds of the run before the first pass holds
before each (`Run.Passes.forall_pass`).
-/
namespace StyleEngine

/-- Whether a parser or an analyzer was called on a file. -/
def Event.isCall : Event → Bool
  | .parsing .. | .analyzing .. => true
  | _ => false

/-! ## One pass -/

namespace Run

/-- A file is done after work on it exactly if it was not deferred. -/
theorem outcome_done_iff (r : Run) (q : Project) (status : Option ProjectStatus) (f : SourceFile) :
    (r.outcome q status f).2.file.done = true ↔ (r.outcome q status f).2.outcome ≠ .deferred := by
  rcases r.outcome_cases q status f with ⟨st, -, h⟩ | ⟨-, h⟩
  · rw [h]; exact FileJob.process_done_iff _ _ _
  · rw [h]; simp [FileJob.skip, SourceFile.markDone]

/-- No add-in is called on a file that is done. -/
theorem outcome_done (r : Run) (q : Project) (status : Option ProjectStatus) {f : SourceFile}
    (hf : f.done = true) : (r.outcome q status f).2 = { file := f, outcome := .skipped } := by
  rcases r.outcome_cases q status f with ⟨st, -, h⟩ | ⟨-, h⟩
  · rw [h]; exact FileJob.process_done hf _
  · have hmark : f.markDone = f := by rw [SourceFile.markDone, ← hf]
    rw [h, FileJob.skip, hmark]

theorem outcome_fatal {r : Run} (hr : r.registry.NeverExhausts) (q : Project)
    (status : Option ProjectStatus) (f : SourceFile) : (r.outcome q status f).2.fatal = none := by
  rcases r.outcome_cases q status f with ⟨st, -, h⟩ | ⟨-, h⟩
  · rw [h]; exact FileJob.process_fatal hr _ _
  · rw [h]; rfl

theorem isExhaustion_of_outcome_fatal {r : Run} {q : Project} {status : Option ProjectStatus}
    {f : SourceFile} {e : AddInError} (h : (r.outcome q status f).2.fatal = some e) :
    e.isExhaustion = true := by
  rcases r.outcome_cases q status f with ⟨st, -, hp⟩ | ⟨-, hp⟩
  · rw [hp] at h; exact FileJob.isExhaustion_of_process_fatal h
  · rw [hp] at h; cases h

end Run

namespace Pool.IsPass

variable {r : Run} {p : Pool}

theorem works (h : p.IsPass r) (hr : r.WellPlaced) : r.Works p.handled p.run :=
  (h.sound hr.hasFiles).works

theorem frame (h : p.IsPass r) (hr : r.WellPlaced) : r.SameFrame p.run := (h.works hr).frame

theorem handled_nodup (h : p.IsPass r) (hr : r.WellPlaced) : (p.handled.map Handled.slot).Nodup :=
  (h.sound hr.hasFiles).handled_nodup hr.nodup

theorem handled_perm (h : p.IsPass r) (hr : r.WellPlaced) (ha : p.run.fatal = none) :
    (p.handled.map Handled.slot).Perm r.slots :=
  (h.sound hr.hasFiles).handled_perm h.isOver h.workers_ne_nil (by rw [Run.isAborted, ha]; rfl)

theorem wellPlaced (h : p.IsPass r) (hr : r.WellPlaced) : p.run.WellPlaced :=
  (h.frame hr).wellPlaced hr

/-- What comes of a file in a pass, whatever the workers did to the cache before. -/
theorem result_eq (h : p.IsPass r) (hr : r.WellPlaced) {x : Handled} (hx : x ∈ p.handled) :
    ∃ q f cache, r.shell? x.slot.project = some q ∧ r.file? x.slot = some f ∧
      x.result = ({ r with cache }.outcome q r.statuses[x.slot.project]? f).2 :=
  (h.works hr).result_eq (h.handled_nodup hr) hx

theorem file?_handled (h : p.IsPass r) (hr : r.WellPlaced) {x : Handled} (hx : x ∈ p.handled) :
    p.run.file? x.slot = some x.result.file :=
  (h.works hr).file?_of_mem (h.handled_nodup hr) hx

/-- Every file is worked on in a pass that is not aborted. -/
theorem exists_handled (h : p.IsPass r) (hr : r.WellPlaced) (ha : p.run.fatal = none) {s : Slot}
    {f : SourceFile} (hf : p.run.file? s = some f) :
    ∃ x ∈ p.handled, x.slot = s ∧ x.result.file = f := by
  have hslot : s ∈ r.slots := by
    rw [hr.mem_iff, ← (h.frame hr).isSome_file?, hf]; rfl
  obtain ⟨x, hx, rfl⟩ := List.mem_map.mp ((h.handled_perm hr ha).mem_iff.mpr hslot)
  refine ⟨x, hx, rfl, Option.some.inj ?_⟩
  rw [← h.file?_handled hr hx, hf]

/-- A file that is done is left as it is. -/
theorem result_of_done (h : p.IsPass r) (hr : r.WellPlaced) {x : Handled} (hx : x ∈ p.handled)
    {f : SourceFile} (hf : r.file? x.slot = some f) (hd : f.done = true) :
    x.result = { file := f, outcome := .skipped } := by
  obtain ⟨q, g, cache, -, hg, hres⟩ := h.result_eq hr hx
  obtain rfl := Option.some.inj (hf.symm.trans hg)
  rw [hres]
  exact Run.outcome_done _ q _ hd

theorem done_iff (h : p.IsPass r) (hr : r.WellPlaced) {x : Handled} (hx : x ∈ p.handled) :
    x.result.file.done = true ↔ x.result.outcome ≠ .deferred := by
  obtain ⟨q, f, cache, -, -, hres⟩ := h.result_eq hr hx
  rw [hres]
  exact Run.outcome_done_iff ..

/-- **A pass that was not aborted is incomplete exactly if a file is not done after it.** -/
theorem incomplete_iff (h : p.IsPass r) (hr : r.WellPlaced) (ha : p.run.fatal = none) :
    p.run.incomplete = true ↔ ∃ s f, p.run.file? s = some f ∧ f.done = false := by
  rw [(h.sound hr.hasFiles).incomplete_iff h.isOver]
  constructor
  · rintro ⟨x, hx, hd⟩
    refine ⟨x.slot, x.result.file, h.file?_handled hr hx, Bool.eq_false_iff.mpr fun hdone => ?_⟩
    exact (h.done_iff hr hx).mp hdone hd
  · rintro ⟨s, f, hf, hd⟩
    obtain ⟨x, hx, rfl, rfl⟩ := h.exists_handled hr ha hf
    refine ⟨x, hx, Decidable.byContradiction ?_⟩
    intro hne
    rw [(h.done_iff hr hx).mpr hne] at hd
    cases hd

/-- Add-ins that never run out of resources do not abort a pass. -/
theorem fatal_eq_none (h : p.IsPass r) (hr : r.WellPlaced) (hf : r.fatal = none)
    (hreg : r.registry.NeverExhausts) : p.run.fatal = none := by
  rw [(h.works hr).fatal, hf, Option.none_or, List.findSome?_eq_none_iff]
  intro x hx
  obtain ⟨q, f, cache, -, -, hres⟩ := h.result_eq hr hx
  rw [hres]
  exact Run.outcome_fatal (r := { r with cache }) hreg ..

/-- A pass is aborted by the work on a file, for want of resources. -/
theorem exists_of_fatal (h : p.IsPass r) (hr : r.WellPlaced) (hf : r.fatal = none)
    {e : AddInError} (he : p.run.fatal = some e) :
    e.isExhaustion = true ∧ ∃ x ∈ p.handled, x.result.fatal.isSome := by
  rw [(h.works hr).fatal, hf, Option.none_or] at he
  obtain ⟨x, hx, hxe⟩ := List.exists_of_findSome?_eq_some he
  obtain ⟨q, f, cache, -, -, hres⟩ := h.result_eq hr hx
  refine ⟨?_, x, hx, by rw [hxe]; rfl⟩
  rw [hres] at hxe
  exact Run.isExhaustion_of_outcome_fatal hxe

end Pool.IsPass

/-! ## All passes -/

namespace Run

@[simp] theorem settle_tally (r : Run) : r.settle.tally = r.tally := rfl

/-- A status is another one only in whether its project is complete. -/
theorem settle_statuses {r : Run} {i : Nat} {st : ProjectStatus}
    (h : r.settle.statuses[i]? = some st) :
    ∃ st₀, r.statuses[i]? = some st₀ ∧ st = { st₀ with complete := st.complete } := by
  simp only [settle, List.getElem?_map, List.getElem?_zipIdx] at h
  obtain ⟨⟨st₀, k⟩, hst₀, rfl⟩ := Option.map_eq_some_iff.mp h
  obtain ⟨st₁, hst₁, heq⟩ := Option.map_eq_some_iff.mp hst₀
  obtain ⟨rfl, -⟩ := Prod.mk.inj heq
  exact ⟨st₁, hst₁, rfl⟩

@[simp] theorem emit_events (r : Run) (e : Event) : (r.emit e).events = r.events ++ [e] := rfl

theorem wellPlaced_next {r : Run} (h : r.WellPlaced) : r.settle.next.WellPlaced :=
  ⟨h.nodup, h.mem_iff⟩

/-- What each pass of a run leaves, pass after pass. -/
def passLog (sweep : Run → Pool) : Nat → Run → List Pool
  | 0, _ => []
  | left + 1, r =>
    if r.cancelled then []
    else
      let p := sweep r
      if p.run.isAborted || !p.run.incomplete || p.run.pass + 1 ≥ maxPasses then [p]
      else p :: passLog sweep left p.run.settle.next

/-- How passes from a run on can go: what each leaves, the run at the end and the result. -/
inductive Passes (sweep : Run → Pool) :
    Run → List Pool → Run → Except AddInError PassResult → Prop
  | cancelled {r : Run} (hc : r.cancelled = true) :
    Passes sweep r [] r (.ok { passes := r.pass, cancelled := true })
  | aborted {r : Run} {e : AddInError} (hc : r.cancelled = false)
    (hf : (sweep r).run.fatal = some e) : Passes sweep r [sweep r] (sweep r).run (.error e)
  | converged {r : Run} (hc : r.cancelled = false) (hf : (sweep r).run.fatal = none)
    (hi : (sweep r).run.incomplete = false) :
    Passes sweep r [sweep r] (sweep r).run.settle
      (.ok { passes := (sweep r).run.pass + 1, converged := true })
  | limit {r : Run} (hc : r.cancelled = false) (hf : (sweep r).run.fatal = none)
    (hi : (sweep r).run.incomplete = true) (hl : maxPasses ≤ (sweep r).run.pass + 1) :
    Passes sweep r [sweep r] ((sweep r).run.settle.emit (.output noConvergence))
      (.ok { passes := maxPasses })
  | next {r r' : Run} {log : List Pool} {result : Except AddInError PassResult}
    (hc : r.cancelled = false) (hf : (sweep r).run.fatal = none)
    (hi : (sweep r).run.incomplete = true) (hl : (sweep r).run.pass + 1 < maxPasses)
    (h : Passes sweep (sweep r).run.settle.next log r' result) :
    Passes sweep r (sweep r :: log) r' result

/-- Whether one of the passes from a run on is made over another run. -/
inductive Reaches (sweep : Run → Pool) : Run → Run → Prop
  | now {r : Run} (hc : r.cancelled = false) : Reaches sweep r r
  | later {r r₀ : Run} (hc : r.cancelled = false) (hf : (sweep r).run.fatal = none)
    (hi : (sweep r).run.incomplete = true) (hl : (sweep r).run.pass + 1 < maxPasses)
    (h : Reaches sweep (sweep r).run.settle.next r₀) : Reaches sweep r r₀

/-- Passes are made as `passLoop` says, and `passLog` has them. -/
theorem passes_passLoop {sweep : Run → Pool} (hs : ∀ r, r.WellPlaced → (sweep r).IsPass r)
    {left : Nat} {r : Run} (hr : r.WellPlaced) (hl : 0 < left) (hp : r.pass + left = maxPasses) :
    Passes sweep r (r.passLog sweep left) (r.passLoop sweep left).1 (r.passLoop sweep left).2 := by
  induction left generalizing r with
  | zero => omega
  | succ left ih =>
    have hpass : (sweep r).run.pass = r.pass := ((hs r hr).frame hr).pass
    unfold passLoop passLog
    cases hc : r.cancelled with
    | true => exact .cancelled hc
    | false =>
      cases hf : (sweep r).run.fatal with
      | some e => simpa [isAborted, hf] using Passes.aborted hc hf
      | none =>
        have hif : ((sweep r).run.settle.incomplete) = (sweep r).run.incomplete := rfl
        have hps : (sweep r).run.settle.pass = (sweep r).run.pass := rfl
        simp only [Bool.false_eq_true, ↓reduceIte, isAborted, hf, Option.isSome_none,
          Bool.false_or, hif, hps]
        cases hi : (sweep r).run.incomplete with
        | false => simpa using Passes.converged hc hf hi
        | true =>
          by_cases hmax : (sweep r).run.pass + 1 ≥ maxPasses
          · simpa [hmax] using Passes.limit hc hf hi hmax
          · have hrest := ih (r := (sweep r).run.settle.next)
              (wellPlaced_next ((hs r hr).wellPlaced hr)) (by omega)
              (by simp only [Run.next, hps]; omega)
            simpa [hmax] using Passes.next hc hf hi (by omega) hrest

/-- What passes leave of a run: its slots, its registry and the files it has. -/
structure SameFiles (r r' : Run) : Prop where
  registry : r'.registry = r.registry
  switches : r'.switches = r.switches
  slots : r'.slots = r.slots
  shell : ∀ i, r'.shell? i = r.shell? i
  isSome : ∀ s, (r'.file? s).isSome = (r.file? s).isSome

namespace SameFiles

variable {r r' r'' : Run}

theorem refl (r : Run) : r.SameFiles r := ⟨rfl, rfl, rfl, fun _ => rfl, fun _ => rfl⟩

theorem trans (h : r.SameFiles r') (h' : r'.SameFiles r'') : r.SameFiles r'' :=
  ⟨h'.registry.trans h.registry, h'.switches.trans h.switches, h'.slots.trans h.slots,
    fun i => (h'.shell i).trans (h.shell i), fun s => (h'.isSome s).trans (h.isSome s)⟩

theorem symm (h : r.SameFiles r') : r'.SameFiles r :=
  ⟨h.registry.symm, h.switches.symm, h.slots.symm, fun i => (h.shell i).symm,
    fun s => (h.isSome s).symm⟩

theorem wellPlaced (h : r.SameFiles r') (hr : r.WellPlaced) : r'.WellPlaced :=
  ⟨h.slots ▸ hr.nodup, fun s => by rw [h.slots, h.isSome, hr.mem_iff]⟩

/-- Projects keep their settings. -/
theorem exists_settings (h : r.SameFiles r') {p : Project} (hp : p ∈ r.projects) :
    ∃ p' ∈ r'.projects, p'.settings = p.settings := by
  obtain ⟨i, hi⟩ := List.getElem?_of_mem hp
  have hshell := h.shell i
  rw [shell?, shell?, hi, Option.map_some] at hshell
  obtain ⟨p', hp', heq⟩ := Option.map_eq_some_iff.mp hshell
  exact ⟨p', List.mem_of_getElem? hp', by simpa using congrArg Project.settings heq⟩

end SameFiles

theorem SameFrame.sameFiles {r r' : Run} (h : r.SameFrame r') : r.SameFiles r' :=
  ⟨h.registry, h.switches, h.slots, h.shell, h.isSome_file?⟩

theorem settle_sameFiles (r : Run) : r.SameFiles r.settle :=
  ⟨rfl, rfl, rfl, fun _ => rfl, fun _ => rfl⟩

theorem next_sameFiles (r : Run) : r.SameFiles r.next :=
  ⟨rfl, rfl, rfl, fun _ => rfl, fun _ => rfl⟩

theorem emit_sameFiles (r : Run) (e : Event) : r.SameFiles (r.emit e) :=
  ⟨rfl, rfl, rfl, fun _ => rfl, fun _ => rfl⟩

namespace Passes

variable {sweep : Run → Pool} {r r' : Run} {log : List Pool}
  {result : Except AddInError PassResult}

/-- Passes go one way only. -/
theorem unique {log₁ : List Pool} {r₁ : Run} {result₁ : Except AddInError PassResult}
    (h : Passes sweep r log r' result) (h₁ : Passes sweep r log₁ r₁ result₁) :
    log = log₁ ∧ r' = r₁ ∧ result = result₁ := by
  induction h generalizing log₁ with
  | cancelled hc =>
    cases h₁ with
    | cancelled _ => exact ⟨rfl, rfl, rfl⟩
    | aborted hc' _ | converged hc' _ _ | limit hc' _ _ _ | next hc' _ _ _ _ =>
      rw [hc] at hc'
      cases hc'
  | aborted hc hf =>
    cases h₁ with
    | cancelled hc' => rw [hc] at hc'; cases hc'
    | aborted _ hf' => exact ⟨rfl, rfl, congrArg _ (Option.some.inj (hf.symm.trans hf'))⟩
    | converged _ hf' _ | limit _ hf' _ _ | next _ hf' _ _ _ => rw [hf] at hf'; cases hf'
  | converged hc hf hi =>
    cases h₁ with
    | cancelled hc' => rw [hc] at hc'; cases hc'
    | aborted _ hf' => rw [hf] at hf'; cases hf'
    | converged _ _ _ => exact ⟨rfl, rfl, rfl⟩
    | limit _ _ hi' _ | next _ _ hi' _ _ => rw [hi] at hi'; cases hi'
  | limit hc hf hi hl =>
    cases h₁ with
    | cancelled hc' => rw [hc] at hc'; cases hc'
    | aborted _ hf' => rw [hf] at hf'; cases hf'
    | converged _ _ hi' => rw [hi] at hi'; cases hi'
    | limit _ _ _ _ => exact ⟨rfl, rfl, rfl⟩
    | next _ _ _ hl' _ => exact absurd hl' (Nat.not_lt_of_le hl)
  | next hc hf hi hl _ ih =>
    cases h₁ with
    | cancelled hc' => rw [hc] at hc'; cases hc'
    | aborted _ hf' => rw [hf] at hf'; cases hf'
    | converged _ _ hi' => rw [hi] at hi'; cases hi'
    | limit _ _ _ hl' => exact absurd hl (Nat.not_lt_of_le hl')
    | next _ _ _ _ hrest =>
      obtain ⟨hlog, hend, hresult⟩ := ih hrest
      exact ⟨congrArg _ hlog, hend, hresult⟩

/-- After a pass that is not the last one, passes go on from the run that it leaves. -/
theorem exists_rest (h : Passes sweep r log r' result) (hc : r.cancelled = false)
    (hf : (sweep r).run.fatal = none) (hi : (sweep r).run.incomplete = true)
    (hl : (sweep r).run.pass + 1 < maxPasses) :
    ∃ rest, log = sweep r :: rest ∧ Passes sweep (sweep r).run.settle.next rest r' result := by
  cases h with
  | cancelled hc' => rw [hc] at hc'; cases hc'
  | aborted _ hf' => rw [hf] at hf'; cases hf'
  | converged _ _ hi' => rw [hi] at hi'; cases hi'
  | limit _ _ _ hl' => exact absurd hl (Nat.not_lt_of_le hl')
  | next _ _ _ _ hrest => exact ⟨_, rfl, hrest⟩

/-- What a pass keeps of a run, as does what is done between passes and after the last one,
all of them keep. -/
theorem keeps {P : Run → Prop} (h : Passes sweep r log r' result)
    (hs : ∀ r, r.WellPlaced → (sweep r).IsPass r) (hr : r.WellPlaced) (hP : P r)
    (hpass : ∀ r, r.WellPlaced → P r → P (sweep r).run) (hsettle : ∀ r, P r → P r.settle)
    (hnext : ∀ r, P r → P r.next) (hemit : ∀ r, P r → P (r.emit (.output noConvergence))) :
    P r' := by
  induction h with
  | cancelled _ => exact hP
  | aborted _ _ => exact hpass _ hr hP
  | converged _ _ _ => exact hsettle _ (hpass _ hr hP)
  | limit _ _ _ _ => exact hemit _ (hsettle _ (hpass _ hr hP))
  | next _ _ _ _ _ ih =>
    exact ih (wellPlaced_next ((hs _ hr).wellPlaced hr)) (hnext _ (hsettle _ (hpass _ hr hP)))

/-- What the work on the files of each pass adds to a quantity, the work on the files of all
passes adds to it. -/
theorem accumulates {α : Type} {m : Run → α} (h : Passes sweep r log r' result)
    (hs : ∀ r, r.WellPlaced → (sweep r).IsPass r) (hr : r.WellPlaced)
    (add : α → List Handled → α) (hnil : ∀ a, add a [] = a)
    (happend : ∀ a l l', add a (l ++ l') = add (add a l) l')
    (hpass : ∀ (r : Run) (p : Pool), r.WellPlaced → p.IsPass r →
      m p.run = add (m r) p.handled)
    (hsettle : ∀ r, m r.settle = m r) (hnext : ∀ r, m r.next = m r)
    (hemit : ∀ r, m (r.emit (.output noConvergence)) = m r) :
    m r' = add (m r) (log.flatMap Pool.handled) := by
  induction h with
  | cancelled _ => exact (hnil _).symm
  | aborted _ _ => rw [hpass _ _ hr (hs _ hr), List.flatMap_singleton]
  | converged _ _ _ => rw [hsettle, hpass _ _ hr (hs _ hr), List.flatMap_singleton]
  | limit _ _ _ _ => rw [hemit, hsettle, hpass _ _ hr (hs _ hr), List.flatMap_singleton]
  | next _ _ _ _ _ ih =>
    rw [ih (wellPlaced_next ((hs _ hr).wellPlaced hr)), hnext, hsettle, hpass _ _ hr (hs _ hr),
      List.flatMap_cons, happend]

theorem sameFiles (h : Passes sweep r log r' result)
    (hs : ∀ r, r.WellPlaced → (sweep r).IsPass r) (hr : r.WellPlaced) : r.SameFiles r' :=
  h.keeps hs hr (.refl r) (fun r₁ h₁ hsame => hsame.trans ((hs r₁ h₁).frame h₁).sameFiles)
    (fun _ hsame => hsame.trans (settle_sameFiles _))
    (fun _ hsame => hsame.trans (next_sameFiles _))
    (fun _ hsame => hsame.trans (emit_sameFiles ..))

/-- Files keep their paths and digests. -/
theorem name (h : Passes sweep r log r' result) (hs : ∀ r, r.WellPlaced → (sweep r).IsPass r)
    (hr : r.WellPlaced) (s : Slot) :
    (r'.file? s).map (fun f => (f.path, f.digest)) =
      (r.file? s).map fun f => (f.path, f.digest) :=
  h.keeps (P := fun r₁ => (r₁.file? s).map (fun f => (f.path, f.digest)) = _) hs hr rfl
    (fun r₁ h₁ hname => (((hs r₁ h₁).frame h₁).name s).trans hname)
    (fun _ hname => hname) (fun _ hname => hname) (fun _ hname => hname)

/-- **Each pass is made over a run that the passes before reach.** -/
theorem exists_reaches (h : Passes sweep r log r' result) :
    ∀ p ∈ log, ∃ r₀, Reaches sweep r r₀ ∧ p = sweep r₀ := by
  induction h with
  | cancelled _ => exact fun p hp => absurd hp List.not_mem_nil
  | aborted hc _ | converged hc _ _ | limit hc _ _ _ =>
    exact fun p hp => ⟨_, .now hc, List.mem_singleton.mp hp⟩
  | next hc hf hi hl _ ih =>
    intro p hp
    rcases List.mem_cons.mp hp with rfl | hp
    · exact ⟨_, .now hc, rfl⟩
    · obtain ⟨r₀, hreaches, rfl⟩ := ih p hp
      exact ⟨r₀, .later hc hf hi hl hreaches, rfl⟩

end Passes

/-- What holds of the run before the first pass holds of all runs that passes reach, if passes keep
it. -/
theorem Reaches.keeps {sweep : Run → Pool} {r r₀ : Run} {P : Run → Prop} (h : Reaches sweep r r₀)
    (hs : ∀ r, r.WellPlaced → (sweep r).IsPass r) (hr : r.WellPlaced) (hP : P r)
    (hkeeps : ∀ (r : Run) (p : Pool), r.WellPlaced → P r → p.IsPass r → p.run.fatal = none →
      P p.run.settle.next) : r₀.WellPlaced ∧ P r₀ := by
  induction h with
  | now _ => exact ⟨hr, hP⟩
  | later _ hf _ _ _ ih =>
    exact ih (wellPlaced_next ((hs _ hr).wellPlaced hr)) (hkeeps _ _ hr hP (hs _ hr) hf)

namespace Passes

variable {sweep : Run → Pool} {r r' : Run} {log : List Pool}
  {result : Except AddInError PassResult}

/-- What holds of the run that each pass is made over, if passes keep it. -/
theorem forall_pass {P : Run → Prop} (h : Passes sweep r log r' result)
    (hs : ∀ r, r.WellPlaced → (sweep r).IsPass r) (hr : r.WellPlaced) (hP : P r)
    (hkeeps : ∀ (r : Run) (p : Pool), r.WellPlaced → P r → p.IsPass r → p.run.fatal = none →
      P p.run.settle.next) :
    ∀ p ∈ log, ∃ r₀, r₀.WellPlaced ∧ P r₀ ∧ p.IsPass r₀ := by
  intro p hp
  obtain ⟨r₀, hreaches, rfl⟩ := h.exists_reaches p hp
  obtain ⟨h₀, hP₀⟩ := hreaches.keeps hs hr hP hkeeps
  exact ⟨r₀, h₀, hP₀, hs r₀ h₀⟩

/-- Every pass is made over a run with the slots and the registry of the first one, which is
not aborted. -/
theorem isPass (h : Passes sweep r log r' result)
    (hs : ∀ r, r.WellPlaced → (sweep r).IsPass r) (hr : r.WellPlaced) (hf : r.fatal = none) :
    ∀ p ∈ log, ∃ r₀, r₀.WellPlaced ∧ r.SameFiles r₀ ∧ r₀.fatal = none ∧ p.IsPass r₀ := by
  intro p hp
  obtain ⟨r₀, h₀, ⟨hsame, hf₀⟩, hpass⟩ :=
    h.forall_pass (P := fun r₀ => r.SameFiles r₀ ∧ r₀.fatal = none) hs hr ⟨.refl r, hf⟩
      (fun _ _ h₁ hsame hpass hf₁ =>
        ⟨((hsame.1.trans (hpass.frame h₁).sameFiles).trans (settle_sameFiles _)).trans
          (next_sameFiles _), hf₁⟩) p hp
  exact ⟨r₀, h₀, hsame, hf₀, hpass⟩

/-- Add-ins that never run out of resources let the passes come to an end. -/
theorem exists_ok (h : Passes sweep r log r' result)
    (hs : ∀ r, r.WellPlaced → (sweep r).IsPass r) (hr : r.WellPlaced) (hf : r.fatal = none)
    (hreg : r.registry.NeverExhausts) : ∃ res, result = .ok res := by
  induction h with
  | cancelled _ => exact ⟨_, rfl⟩
  | @aborted r₁ e _ hf₁ =>
    have hnone := (hs r₁ hr).fatal_eq_none hr hf hreg
    rw [hf₁] at hnone
    cases hnone
  | converged _ _ _ => exact ⟨_, rfl⟩
  | limit _ _ _ _ => exact ⟨_, rfl⟩
  | @next r₁ _ _ _ _ hf₁ _ _ _ ih =>
    refine ih (wellPlaced_next ((hs r₁ hr).wellPlaced hr)) hf₁ ?_
    have hsame : (sweep r₁).run.registry = r₁.registry := ((hs r₁ hr).frame hr).registry
    show (sweep r₁).run.registry.NeverExhausts
    rw [hsame]
    exact hreg

/-- Passes fail for want of resources only. -/
theorem isExhaustion_of_error {e : AddInError} (h : Passes sweep r log r' (.error e))
    (hs : ∀ r, r.WellPlaced → (sweep r).IsPass r) (hr : r.WellPlaced) (hf : r.fatal = none) :
    e.isExhaustion = true := by
  generalize hres : Except.error e = result at h
  induction h with
  | cancelled _ => cases hres
  | @aborted r₁ e₁ _ hf₁ =>
    obtain rfl := Except.error.inj hres
    exact ((hs r₁ hr).exists_of_fatal hr hf hf₁).1
  | converged _ _ _ => cases hres
  | limit _ _ _ _ => cases hres
  | @next r₁ _ _ _ _ hf₁ _ _ _ ih => exact ih (wellPlaced_next ((hs r₁ hr).wellPlaced hr)) hf₁ hres

/-- **Passes fail exactly if an add-in runs out of resources on a file.** -/
theorem error_iff (h : Passes sweep r log r' result)
    (hs : ∀ r, r.WellPlaced → (sweep r).IsPass r) (hr : r.WellPlaced) (hf : r.fatal = none) :
    (∃ e, result = .error e) ↔ ∃ p ∈ log, ∃ x ∈ p.handled, x.result.fatal.isSome := by
  -- a pass without a failure has no file on which resources ran out
  have hnone {r₁ : Run} (h₁ : r₁.WellPlaced) (hf₁ : r₁.fatal = none)
      (hf₂ : (sweep r₁).run.fatal = none) :
      ¬ ∃ x ∈ (sweep r₁).handled, x.result.fatal.isSome := by
    rw [← ((hs r₁ h₁).works h₁).isAborted_iff hf₁, isAborted, hf₂]
    exact Bool.noConfusion
  induction h with
  | cancelled _ => simp
  | @aborted r₁ e _ hf₁ =>
    obtain ⟨-, hx⟩ := (hs r₁ hr).exists_of_fatal hr hf hf₁
    exact ⟨fun _ => ⟨_, List.mem_singleton.mpr rfl, hx⟩, fun _ => ⟨e, rfl⟩⟩
  | converged _ hf₁ _ => simpa using hnone hr hf hf₁
  | limit _ hf₁ _ _ => simpa using hnone hr hf hf₁
  | @next r₁ _ _ _ _ hf₁ _ _ _ ih =>
    refine (ih (wellPlaced_next ((hs r₁ hr).wellPlaced hr)) hf₁).trans ?_
    constructor
    · rintro ⟨p, hp, hx⟩
      exact ⟨p, List.mem_cons_of_mem _ hp, hx⟩
    · rintro ⟨p, hp, hx⟩
      rcases List.mem_cons.mp hp with rfl | hp
      · exact absurd hx (hnone hr hf hf₁)
      · exact ⟨p, hp, hx⟩

/-- The passes are counted, and there are not too many. -/
theorem length_log {res : PassResult} (h : Passes sweep r log r' (.ok res))
    (hs : ∀ r, r.WellPlaced → (sweep r).IsPass r) (hr : r.WellPlaced) (hp : r.pass < maxPasses) :
    res.passes = r.pass + log.length ∧ res.passes ≤ maxPasses := by
  generalize hres : Except.ok res = result at h
  induction h with
  | cancelled _ => cases hres; exact ⟨rfl, Nat.le_of_lt hp⟩
  | aborted _ _ => cases hres
  | @converged r₁ _ _ _ =>
    have hpass : (sweep r₁).run.pass = r₁.pass := ((hs r₁ hr).frame hr).pass
    cases hres
    simp only [List.length_singleton]
    omega
  | @limit r₁ _ _ _ hl =>
    have hpass : (sweep r₁).run.pass = r₁.pass := ((hs r₁ hr).frame hr).pass
    cases hres
    simp only [List.length_singleton]
    omega
  | @next r₁ _ _ _ _ _ _ hl _ ih =>
    have hpass : (sweep r₁).run.pass = r₁.pass := ((hs r₁ hr).frame hr).pass
    have hnext : (sweep r₁).run.settle.next.pass = r₁.pass + 1 := congrArg (· + 1) hpass
    obtain ⟨hlen, hle⟩ := ih (wellPlaced_next ((hs r₁ hr).wellPlaced hr)) (by omega) hres
    rw [List.length_cons]
    omega

/-- A run that was asked to stop in a pass makes no other. -/
theorem length_of_cancelled (h : Passes sweep r log r' result) {k : Nat} {p : Pool}
    (hk : log[k]? = some p) (hc : p.run.cancelled = true) : log.length = k + 1 := by
  have hone {q : Pool} {i : Nat} (hi : [q][i]? = some p) : i = 0 := by
    have := (List.getElem?_eq_some_iff.mp hi).1
    rw [List.length_singleton] at this
    omega
  induction h generalizing k with
  | cancelled _ => cases hk
  | aborted _ _ | converged _ _ _ | limit _ _ _ _ => rw [hone hk]; rfl
  | next _ _ _ _ hrest ih =>
    cases k with
    | succ k => rw [List.length_cons, ih hk]
    | zero =>
      obtain rfl := Option.some.inj hk
      obtain ⟨rfl, -⟩ := hrest.unique (.cancelled hc)
      rfl

/-- **A run that was not stopped has converged exactly if all its files are done**, and
otherwise it has used up its passes. -/
theorem converged_iff {res : PassResult} (h : Passes sweep r log r' (.ok res))
    (hs : ∀ r, r.WellPlaced → (sweep r).IsPass r) (hr : r.WellPlaced)
    (hc : res.cancelled = false) :
    (res.converged = true ↔ ∀ s f, r'.file? s = some f → f.done = true) ∧
      (res.converged = false → res.passes = maxPasses) := by
  generalize hres : Except.ok res = result at h
  induction h with
  | cancelled _ => cases hres; cases hc
  | aborted _ _ => cases hres
  | @converged r₁ _ hf hi =>
    cases hres
    refine ⟨⟨?_, fun _ => rfl⟩, fun hfalse => by cases hfalse⟩
    intro _ s f hsf
    by_cases hd : f.done = true
    · exact hd
    · rw [((hs r₁ hr).incomplete_iff hr hf).mpr ⟨s, f, hsf, Bool.eq_false_iff.mpr hd⟩] at hi
      cases hi
  | @limit r₁ _ hf hi _ =>
    cases hres
    refine ⟨⟨fun htrue => (by cases htrue), ?_⟩, fun _ => rfl⟩
    intro hall
    obtain ⟨s, f, hsf, hd⟩ := ((hs r₁ hr).incomplete_iff hr hf).mp hi
    rw [hall s f hsf] at hd
    cases hd
  | @next r₁ _ _ _ _ _ _ _ _ ih => exact ih (wellPlaced_next ((hs r₁ hr).wellPlaced hr)) hres

/-- **A file that is done is left alone by every pass.** -/
theorem result_of_done (h : Passes sweep r log r' result)
    (hs : ∀ r, r.WellPlaced → (sweep r).IsPass r) (hr : r.WellPlaced) {s : Slot} {f : SourceFile}
    (hsf : r.file? s = some f) (hd : f.done = true) {p : Pool} (hp : p ∈ log) {x : Handled}
    (hx : x ∈ p.handled) (hxs : x.slot = s) :
    x.result = { file := f, outcome := .skipped } := by
  have hfirst {r₁ : Run} (h₁ : r₁.WellPlaced) (hf₁ : r₁.file? s = some f)
      (hx : x ∈ (sweep r₁).handled) : x.result = { file := f, outcome := .skipped } :=
    (hs r₁ h₁).result_of_done h₁ hx (hxs ▸ hf₁) hd
  induction h with
  | cancelled _ => cases hp
  | aborted _ _ | converged _ _ _ | limit _ _ _ _ =>
    exact hfirst hr hsf (List.mem_singleton.mp hp ▸ hx)
  | @next r₁ _ _ _ _ hf₁ _ _ _ ih =>
    rcases List.mem_cons.mp hp with rfl | hp
    · exact hfirst hr hsf hx
    · refine ih (wellPlaced_next ((hs r₁ hr).wellPlaced hr)) ?_ hp
      -- the first pass has worked on the slot too, and left the file as it was
      have hsome : ((sweep r₁).run.file? s).isSome := by
        rw [((hs r₁ hr).frame hr).isSome_file?, hsf]; rfl
      obtain ⟨g, hg⟩ := Option.isSome_iff_exists.mp hsome
      obtain ⟨y, hy, hys, hyg⟩ := (hs r₁ hr).exists_handled hr hf₁ hg
      have hres := (hs r₁ hr).result_of_done hr hy (hys ▸ hsf) hd
      have hfile : y.result.file = f := by rw [hres]
      show (sweep r₁).run.file? s = some f
      rw [hg, ← hyg, hfile]

/-- Of two passes the later one leaves alone what is done after the earlier one. -/
theorem pairwise (h : Passes sweep r log r' result)
    (hs : ∀ r, r.WellPlaced → (sweep r).IsPass r) (hr : r.WellPlaced) :
    log.Pairwise fun p q => ∀ s f, p.run.file? s = some f → f.done = true →
      ∀ y ∈ q.handled, y.slot = s → y.result = { file := f, outcome := .skipped } := by
  induction h with
  | cancelled _ => exact .nil
  | aborted _ _ | converged _ _ _ | limit _ _ _ _ => exact List.pairwise_singleton ..
  | @next r₁ _ _ _ _ _ _ _ hrest ih =>
    have hr' := wellPlaced_next ((hs r₁ hr).wellPlaced hr)
    refine List.pairwise_cons.mpr ⟨?_, ih hr'⟩
    intro q hq s f hsf hd y hy hys
    exact hrest.result_of_done hs hr' hsf hd hq hy hys

/-- The results that were counted are those of all passes. -/
theorem tally (h : Passes sweep r log r' result) (hs : ∀ r, r.WellPlaced → (sweep r).IsPass r)
    (hr : r.WellPlaced) :
    r'.tally.analyzed + r'.tally.cached = r.tally.analyzed + r.tally.cached +
      ((log.flatMap Pool.handled).filter Handled.isCounted).length := by
  refine h.accumulates (m := fun r => r.tally.analyzed + r.tally.cached) hs hr
    (fun n l => n + (l.filter Handled.isCounted).length) (fun _ => rfl) ?_
    (fun _ _ h₁ hp => (hp.works h₁).tally) (fun _ => rfl) (fun _ => rfl) (fun _ => rfl)
  intro n l l'
  rw [List.filter_append, List.length_append, Nat.add_assoc]

/-- The calls of parsers and analyzers are those made while files were worked on. -/
theorem calls (h : Passes sweep r log r' result) (hs : ∀ r, r.WellPlaced → (sweep r).IsPass r)
    (hr : r.WellPlaced) :
    r'.events.filter Event.isCall = r.events.filter Event.isCall ++
      (log.flatMap Pool.handled).flatMap fun x => x.result.events.filter Event.isCall := by
  refine h.accumulates (m := fun r => r.events.filter Event.isCall) hs hr
    (fun told l => told ++ l.flatMap fun x => x.result.events.filter Event.isCall)
    (fun _ => List.append_nil _) ?_ ?_ (fun _ => rfl) (fun _ => rfl) ?_
  · intro told l l'
    rw [List.flatMap_append, List.append_assoc]
  · intro r₁ p h₁ hp
    rw [hp.told (P := Event.isCall) rfl, List.filter_append, List.filter_flatMap]
  · intro r₁
    simp [Event.isCall]

end Passes

end Run

end StyleEngine
