import StyleEngine.Proofs.Engine.Preparation
import StyleEngine.Proofs.Run.PassContract
import StyleEngine.Proofs.Run.Schedules

/-! # Runs do not depend on the schedule

A run over files with different keys gives the same result, in the same state of
the projects, the cache and the file tree, whatever the number of workers and the
order of their steps (`Engine.runWith_schedules`).  If an add-in runs out of
resources, the order decides which failure comes first, but not that there is
one.
-/
namespace StyleEngine

namespace Engine

variable {e : Engine} {t : FileTree} {switches : Switches} {mode : RunMode}
  {settingsPath : Option String} {projects : List Project} {r : Run}

/-- Runs that are alike end alike. -/
theorem close_alike {r₁ r₂ : Run} (h : r₁.Alike r₂) (e : Engine) (t : FileTree) (mode : RunMode)
    (result : Except AddInError PassResult) :
    let o₁ := e.close t mode r₁ result
    let o₂ := e.close t mode r₂ result
    o₂.projects = o₁.projects ∧ o₂.cache = o₁.cache ∧ o₂.files = o₁.files ∧
      o₂.tally = o₁.tally ∧ o₂.result = o₁.result ∧ o₂.events.Perm o₁.events := by
  simp only [close, h.projects, h.cache, h.tally, h.switches]
  have htold (l : List Event) : (r₂.events ++ l).Perm (r₁.events ++ l) := h.told.append_right l
  cases (callAll (fun a p => a.after p r₁.switches) (participants e.registry)).result with
  | error crash => exact ⟨rfl, rfl, rfl, rfl, rfl, htold _⟩
  | ok _ =>
    cases result with
    | error cause =>
      refine ⟨rfl, rfl, rfl, rfl, rfl, ?_⟩
      simpa only [List.append_assoc] using htold _
    | ok res =>
      refine ⟨rfl, rfl, rfl, rfl, rfl, ?_⟩
      simpa only [List.append_assoc] using htold _

/-- Without a run to make passes over, how they are made does not matter. -/
theorem runWith_of_not_starts (h : ∀ r, ¬ e.Starts t switches mode settingsPath projects r)
    (sweep₁ sweep₂ : Sweep) (processors₁ processors₂ : Nat) :
    e.runWith sweep₂ t switches processors₂ mode settingsPath projects =
      e.runWith sweep₁ t switches processors₁ mode settingsPath projects := by
  simp only [runWith]
  split
  · rfl
  · next hpath =>
    split
    · rfl
    · next hidle =>
      simp only [runAll]
      cases hopen : e.busy.opening t switches mode (settingsPath.map Path.mk) projects with
      | error ended => rfl
      | ok r =>
        exact absurd ⟨Bool.eq_false_iff.mpr hpath, Bool.eq_false_iff.mpr hidle, hopen⟩ (h r)

/-- Whether an add-in runs out of resources on a file in a pass. -/
def Exhausts (e : Engine) (sweep : Sweep) (t : FileTree) (switches : Switches)
    (processors : Nat) (mode : RunMode) (settingsPath : Option String)
    (projects : List Project) : Prop :=
  ∃ r, e.Starts t switches mode settingsPath projects r ∧
    ∃ p ∈ r.passLog (e.sweepOf sweep processors r) maxPasses,
      ∃ x ∈ p.handled, x.result.fatal.isSome

theorem Starts.separate (h : e.Starts t switches mode settingsPath projects r)
    (hd : (Project.fileKeys projects).Nodup)
    (ho : ∀ c, e.cache = some c → Record.IsOrdered c.document.files) : r.Separate :=
  ⟨h.fresh.wellPlaced, h.distinctKeys hd, h.isOrdered ho, h.fresh.fatal⟩

theorem Starts.unique {r₁ r₂ : Run} (h₁ : e.Starts t switches mode settingsPath projects r₁)
    (h₂ : e.Starts t switches mode settingsPath projects r₂) : r₁ = r₂ :=
  Except.ok.inj (h₁.opened.symm.trans h₂.opened)

/-- Passes that failed for want of resources make the run fail so, unless an add-in breaks down
at the end of the run. -/
theorem runWith_of_error (h : e.Starts t switches mode settingsPath projects r) {sweep : Sweep}
    (hs : sweep.Interleaves) {processors : Nat} {cause : AddInError}
    (hp : (r.passLoop (e.sweepOf sweep processors r) maxPasses).2 = .error cause) :
    (∃ message, (e.runWith sweep t switches processors mode settingsPath projects).result =
      .error (.exhausted message)) ↔ e.Closes switches := by
  have hpass := isPass_sweepOf hs e processors r
  have hpasses := h.fresh.passes hpass
  have hsw := (hpasses.sameFiles hpass h.fresh.wellPlaced).switches
  rw [h.switches_eq] at hsw
  rw [hp] at hpasses
  have hc := hpasses.isExhaustion_of_error hpass h.fresh.wellPlaced h.fresh.fatal
  rw [runWith_of_starts h]
  simp only [close, hp, hsw, Closes]
  show _ ↔ (callAll (fun a p => a.after p switches) (participants e.busy.registry)).result = _
  cases (callAll (fun a p => a.after p switches) (participants e.busy.registry)).result with
  | error crash => simp [conclude]
  | ok _ => simp [conclude, RunFailure.ofAddIn, hc]

/-- **What a run does is independent of the schedule**, for files with different keys and
add-ins that know the file, its project and the pass only.  If no add-in runs out of resources,
projects, engine (with its cache), file tree and summary are the same after any two
interleavings with any numbers of workers, and the same is told in some order.  If one does, then
both runs fail for want of resources, exactly if no add-in breaks down at the end of the run. -/
theorem runWith_schedules {sweep₁ sweep₂ : Sweep} (hs₁ : sweep₁.InterleavesQuietly)
    (hs₂ : sweep₂.InterleavesQuietly) (hd : (Project.fileKeys projects).Nodup)
    (ho : ∀ c, e.cache = some c → Record.IsOrdered c.document.files)
    (t : FileTree) (switches : Switches) (mode : RunMode) (settingsPath : Option String)
    (processors₁ processors₂ : Nat) :
    let o₁ := e.runWith sweep₁ t switches processors₁ mode settingsPath projects
    let o₂ := e.runWith sweep₂ t switches processors₂ mode settingsPath projects
    (¬ e.Exhausts sweep₁ t switches processors₁ mode settingsPath projects →
      o₂.projects = o₁.projects ∧ o₂.engine = o₁.engine ∧ o₂.files = o₁.files ∧
        o₂.result = o₁.result ∧ o₂.events.Perm o₁.events) ∧
    (e.Exhausts sweep₁ t switches processors₁ mode settingsPath projects →
      ((∃ message, o₁.result = .error (.exhausted message)) ∧
        (∃ message, o₂.result = .error (.exhausted message)) ↔ e.Closes switches)) := by
  intro o₁ o₂
  by_cases hstarts : ∃ r, e.Starts t switches mode settingsPath projects r
  · obtain ⟨r, hstart⟩ := hstarts
    have hsep := hstart.separate hd ho
    have hquiet₁ (r₀ : Run) (h₀ : r₀.WellPlaced) :=
      hs₁ (e.workerCount processors₁ r.projects) r₀ (workerCount_pos ..) h₀
    have hquiet₂ (r₀ : Run) (h₀ : r₀.WellPlaced) :=
      hs₂ (e.workerCount processors₂ r.projects) r₀ (workerCount_pos ..) h₀
    have hpass₁ := isPass_sweepOf hs₁.interleaves e processors₁ r
    have hpass₂ := isPass_sweepOf hs₂.interleaves e processors₂ r
    have hpasses₁ := hstart.fresh.passes hpass₁
    have hpasses₂ := hstart.fresh.passes hpass₂
    have herror₁ := hpasses₁.error_iff hpass₁ hsep.wellPlaced hsep.fatal
    have hexhausts : e.Exhausts sweep₁ t switches processors₁ mode settingsPath projects ↔
        ∃ p ∈ r.passLog (e.sweepOf sweep₁ processors₁ r) maxPasses,
          ∃ x ∈ p.handled, x.result.fatal.isSome := by
      constructor
      · rintro ⟨r', hr', hlog⟩
        obtain rfl := hstart.unique hr'
        exact hlog
      · exact fun hlog => ⟨r, hstart, hlog⟩
    rw [hexhausts, ← herror₁]
    rcases hpasses₁.alike hpasses₂ hquiet₁ hquiet₂ (.refl r) hsep with
      ⟨res, hres₁, hres₂, halike⟩ | ⟨e₁, e₂, hres₁, hres₂⟩
    · -- no pass of either run was aborted
      refine ⟨?_, ?_⟩
      · intro _
        obtain ⟨hprojects, hcache, hfiles, htally, hresult, htold⟩ :=
          close_alike halike e.busy t mode (.ok res)
        simp only [o₁, o₂, runWith_of_starts hstart, hres₁, hres₂, conclude, hprojects, hcache,
          hfiles, htally, hresult, any_eq_of_perm htold]
        exact ⟨trivial, trivial, trivial, trivial, htold.append_right _⟩
      · intro hex
        obtain ⟨cause, hcause⟩ := hex
        rw [hres₁] at hcause
        cases hcause
    · -- both were aborted, maybe at different files and with different messages
      have hfails₁ := runWith_of_error hstart hs₁.interleaves hres₁
      have hfails₂ := runWith_of_error hstart hs₂.interleaves hres₂
      refine ⟨fun hno => absurd ⟨e₁, hres₁⟩ hno, ?_⟩
      intro _
      exact ⟨fun hboth => hfails₁.mp hboth.1, fun hc => ⟨hfails₁.mpr hc, hfails₂.mpr hc⟩⟩
  · have hsame : o₂ = o₁ := runWith_of_not_starts (fun r hr => hstarts ⟨r, hr⟩) ..
    refine ⟨?_, fun hex => absurd (hex.imp fun _ hr => hr.1) hstarts⟩
    intro _
    rw [hsame]
    exact ⟨rfl, rfl, rfl, rfl, .refl _⟩

theorem not_exhausts {sweep : Sweep} (hs : sweep.Interleaves) (hreg : e.registry.NeverExhausts)
    (processors : Nat) : ¬ e.Exhausts sweep t switches processors mode settingsPath projects := by
  rintro ⟨r, hstart, hlog⟩
  have hpass := isPass_sweepOf hs e processors r
  have hpasses := hstart.fresh.passes hpass
  obtain ⟨res, hres⟩ := hpasses.exists_ok hpass hstart.fresh.wellPlaced hstart.fresh.fatal
    (hstart.registry ▸ hreg)
  obtain ⟨cause, hcause⟩ :=
    (hpasses.error_iff hpass hstart.fresh.wellPlaced hstart.fresh.fatal).mpr hlog
  rw [hres] at hcause
  cases hcause

theorem runWith_schedules_patient :
    let o₁ := (patient 3).runWith Sweep.oneByOne {} [] 2 {} none [patientProject]
    let o₂ := (patient 3).runWith (fun n => Sweep.oneByOne (n + 1)) {} [] 5 {} none [patientProject]
    (Project.fileKeys [patientProject]).Nodup ∧
      o₂.projects = o₁.projects ∧ o₂.engine = o₁.engine ∧ o₂.files = o₁.files ∧
      o₂.result = o₁.result ∧ o₂.events.Perm o₁.events := by
  have hmore : Sweep.InterleavesQuietly fun n => Sweep.oneByOne (n + 1) :=
    fun n r _ hr => Sweep.oneByOne_interleaves (n + 1) r (Nat.succ_pos n) hr
  have hkeys : (Project.fileKeys [patientProject]).Nodup := by decide
  have hordered (c : Cache) (hc : some { store := .memory none 0 } = some c) :
      Record.IsOrdered c.document.files := by
    obtain rfl := Option.some.inj hc
    exact List.Pairwise.nil
  refine ⟨hkeys, (runWith_schedules Sweep.oneByOne_interleaves hmore hkeys hordered
    {} [] {} none 2 5).1 ?_⟩
  exact not_exhausts Sweep.oneByOne_interleaves.interleaves (patient_neverExhausts 3) 2

/-- An engine with a parser that runs out of resources and breaks down at the end of a run. -/
def greedy : Engine where
  registry :=
    { parsers := [{
        parser := {
          id := "greedy"
          configure := fun _ _ _ p _ => .ok p
          extensions := ["txt"]
          parse := fun _ _ => .stop (.error (.exhausted "memory"))
          after := fun _ _ => .error ⟨some "broken"⟩ }
        profile := {}
        trusted := false }]
      extensions := [("txt", "greedy")] }

/-- A run in which an add-in runs out of resources can give back a summary. -/
theorem exhaustion_lost_greedy :
    (Project.fileKeys [patientProject]).Nodup ∧
    greedy.Exhausts Sweep.oneByOne {} [] 2 {} none [patientProject] ∧
    ∃ summary,
      (greedy.runWith Sweep.oneByOne {} [] 2 {} none [patientProject]).result =
        .ok summary := by
  refine ⟨by decide, ⟨_, ⟨rfl, rfl, rfl⟩, ?_⟩, ?_⟩
  · simp only [← List.any_eq_true]
    decide +kernel
  · exact ⟨_, rfl⟩

end Engine

end StyleEngine
