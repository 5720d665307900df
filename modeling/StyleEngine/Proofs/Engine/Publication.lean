import StyleEngine.Proofs.Engine.Preparation
import StyleEngine.Proofs.Run.Publishing

/-! # Violations are told of when they are recorded

A run tells of what its files hold in the end, each violation as often as it is held
(`Engine.published_runWith`), if its add-ins report on files of the run only
(`Engine.SweepsFreely`).  Of a report on any other file the summary knows nothing, and
a run out of resources has no summary of what it told (`Engine.told_beside_summary`).
-/
namespace StyleEngine

namespace Engine

variable {e : Engine} {sweep : Sweep} {t : FileTree} {switches : Switches} {processors : Nat}
  {mode : RunMode} {settingsPath : Option String} {projects : List Project} {r : Run}

/-- Whether the hooks of the add-ins of an engine, which are called outside of files, tell of no
violation. -/
structure HasQuietHooks (e : Engine) (switches : Switches) : Prop where
  before : ∀ x ∈ participants e.registry, Event.published (x.1.before x.2 switches).events = []
  after : ∀ x ∈ participants e.registry, Event.published (x.1.after x.2 switches).events = []

theorem published_callAll {call : AddIn → Profile → Reaction Crash Unit}
    {l : List (AddIn × Profile)} (h : ∀ x ∈ l, Event.published (call x.1 x.2).events = []) :
    Event.published (callAll call l).events = [] := by
  induction l with
  | nil => rfl
  | cons x l ih =>
    have hhead := h x List.mem_cons_self
    have htail := ih fun y hy => h y (List.mem_cons_of_mem _ hy)
    obtain ⟨a, p⟩ := x
    rw [callAll, Reaction.andThen]
    split
    · exact hhead
    · rw [Event.published_append, hhead, htail]
      rfl

theorem published_flushCache (cache : Option Cache) (t : FileTree) :
    Event.published (flushCache cache t).2.2 = [] := by
  cases cache with
  | none => rfl
  | some c =>
    rcases hf : c.flush t with ⟨c', t', result⟩
    cases result <;> simp [flushCache, hf, Event.published, Event.violation?]

theorem published_writeFile (env : Environment) (t : FileTree) (path : Path) (text : String) :
    Event.published (writeFile env t path text).2 = [] := by
  unfold writeFile
  split <;> rfl

theorem published_saveFixed (env : Environment) (t : FileTree) (files : List SourceFile) :
    Event.published (saveFixed env t files).2 = [] := by
  unfold saveFixed
  refine List.foldlRecOn (motive := fun acc : FileTree × List Event =>
    Event.published acc.2 = []) files _ rfl ?_
  rintro ⟨t', told⟩ htold f -
  simp only
  split
  · exact htold
  · split
    · exact htold
    · rw [Event.published_append, published_writeFile, List.append_nil]
      exact htold

/-- What is told of a run after its passes is no violation. -/
theorem published_close {r : Run} (hq : e.HasQuietHooks r.switches)
    (result : Except AddInError PassResult) :
    Event.published (e.close t mode r result).events = Event.published r.events := by
  have hclosing : Event.published (callAll (fun a p => a.after p r.switches)
    (participants e.registry)).events = [] := published_callAll hq.after
  have hflush := published_flushCache r.cache t
  simp only [close]
  split
  · rw [Event.published_append, hclosing, List.append_nil]
  · split
    · simp only [Event.published_append, hclosing, hflush, List.append_nil]
    · split
      · simp only [Event.published_append, hclosing, hflush, List.append_nil, published_saveFixed]
      · simp only [Event.published_append, hclosing, hflush, List.append_nil]

/-- A request that fails before its passes is told of by a violation. -/
theorem openPrepared_eq_error {prepared : Prepared × Except String Unit} {ended : Ended}
    (h : e.openPrepared t switches mode prepared = .error ended) :
    ∃ message, ended.result = .error (.failed message) := by
  unfold openPrepared at h
  split at h
  · obtain rfl := Except.error.inj h
    exact ⟨_, rfl⟩
  · simp only at h
    split at h
    · obtain rfl := Except.error.inj h
      exact ⟨_, rfl⟩
    · cases h

/-- A run that is over without a failure outside of files has come to its end. -/
theorem result_of_conclude {o : Ended} {summary : RunSummary}
    (h : (conclude o).2 = .ok summary) (hclean : summary.engineViolations = []) :
    ∃ res, o.result = .ok res := by
  cases hres : o.result with
  | ok res => exact ⟨res, rfl⟩
  | error failure =>
    cases failure with
    | exhausted message =>
      simp only [conclude, hres] at h
      cases h
    | failed message =>
      simp only [conclude, hres] at h
      obtain rfl := Except.ok.inj h
      cases hclean

theorem result_close {r : Run} {result : Except AddInError PassResult} {res : PassResult}
    (h : (e.close t mode r result).result = .ok res) :
    result = .ok res ∧ e.Closes r.switches := by
  simp only [close] at h
  split at h
  · cases h
  · next hclose =>
    split at h
    · cases h
    · obtain rfl := Except.ok.inj h
      exact ⟨rfl, hclose⟩

/-- **A run without a failure outside of files** starts, makes its passes and is seen to its
end. -/
theorem exists_passes {summary : RunSummary}
    (h : (e.runWith sweep t switches processors mode settingsPath projects).result = .ok summary)
    (hclean : summary.engineViolations = []) :
    ∃ r r' res, e.Starts t switches mode settingsPath projects r ∧ e.Closes r'.switches ∧
      r.passLoop (e.sweepOf sweep processors r) maxPasses = (r', .ok res) := by
  by_cases hstarts : ∃ r, e.Starts t switches mode settingsPath projects r
  · obtain ⟨r, hstart⟩ := hstarts
    rw [runWith_of_starts hstart] at h
    obtain ⟨res, hres⟩ := result_of_conclude h hclean
    obtain ⟨hloop, hclose⟩ := result_close hres
    exact ⟨r, _, res, hstart, hclose, Prod.ext rfl hloop⟩
  · -- a request that starts no run is refused, or fails with a violation outside of files
    simp only [runWith] at h
    split at h
    · cases h
    · next hpath =>
      split at h
      · cases h
      · next hidle =>
        simp only [runAll] at h
        cases hopen : e.busy.opening t switches mode (settingsPath.map Path.mk) projects with
        | error ended =>
          rw [hopen] at h
          obtain ⟨message, hfailed⟩ := openPrepared_eq_error hopen
          obtain ⟨res, hres⟩ := result_of_conclude h hclean
          rw [hfailed] at hres
          cases hres
        | ok r =>
          exact absurd ⟨r, Bool.eq_false_iff.mpr hpath, Bool.eq_false_iff.mpr hidle, hopen⟩ hstarts

/-- Files hold nothing when a run starts. -/
theorem Starts.violations_file? (h : e.Starts t switches mode settingsPath projects r) {s : Slot}
    {f : SourceFile} (hf : r.file? s = some f) : f.violations = [] := by
  rw [h.file?_eq] at hf
  obtain ⟨p, -, hf⟩ := Option.bind_eq_some_iff.mp hf
  obtain ⟨f₀, -, rfl⟩ := Option.map_eq_some_iff.mp hf
  rfl

theorem Starts.recorded (h : e.Starts t switches mode settingsPath projects r) :
    r.recorded = [] := by
  have hall := (r.forall_file?_iff fun f => f.violations = []).mp fun _ _ => h.violations_file?
  refine List.flatMap_eq_nil_iff.mpr ?_
  intro q hq
  exact List.flatMap_eq_nil_iff.mpr (hall q hq)

theorem Starts.tells (h : e.Starts t switches mode settingsPath projects r)
    (hq : e.HasQuietHooks switches) : r.Tells where
  published := by
    rw [h.recorded]
    obtain ⟨ready, told, -, hbegun, rfl⟩ := opening_eq_ok h.opened
    have hnone : Event.published (callAll (fun a p => a.before p switches)
        (participants e.busy.registry)).events = [] := published_callAll hq.before
    rw [hbegun] at hnone
    exact .of_eq hnone
  noRepeats s f hf := by
    rw [h.violations_file? hf]
    exact .nil

/-- Whether the passes of an engine's runs are free passes: add-ins publish on the files of the
run only, on those that they work on or by remarks on others. -/
def SweepsFreely (e : Engine) (sweep : Sweep) : Prop :=
  ∀ n r, 0 < n → r.WellPlaced → r.registry = e.registry → (sweep n r).IsFreePass r

/-- Workers in any order make free passes, if the add-ins of the engine publish on the files that
they work on. -/
theorem SweepsFreely.of_interleaves (hs : sweep.Interleaves) (he : e.registry.PublishesOnFiles) :
    e.SweepsFreely sweep :=
  fun n r hn hr hreg => (hs n r hn hr).isFreePass (hreg ▸ he)

/-- **All passes that are made freely tell of what they record.** -/
theorem SweepsFreely.passLoop (hs : e.SweepsFreely sweep) (hr : r.WellPlaced)
    (hreg : r.registry = e.registry) (h : r.Tells) (processors left : Nat) :
    r.SameFiles (r.passLoop (e.sweepOf sweep processors r) left).1 ∧
      (r.passLoop (e.sweepOf sweep processors r) left).1.Tells := by
  refine Run.passLoop_keeps (P := fun r₁ => r.SameFiles r₁ ∧ r₁.Tells) ?_ ?_ ?_ ?_ left
    ⟨.refl r, h⟩
  · rintro r₁ ⟨hsame, htells⟩
    have hfree := hs _ r₁ (workerCount_pos e processors r.projects) (hsame.wellPlaced hr)
      (hsame.registry.trans hreg)
    obtain ⟨hframe, htells'⟩ := hfree.tells htells
    exact ⟨hsame.trans hframe.sameFiles, htells'⟩
  · exact fun r₁ h₁ => ⟨h₁.1.trans r₁.settle_sameFiles, h₁.2.of_same rfl rfl⟩
  · exact fun r₁ h₁ => ⟨h₁.1.trans r₁.next_sameFiles, h₁.2.of_same rfl rfl⟩
  · refine fun r₁ o h₁ => ⟨h₁.1.trans (r₁.emit_sameFiles _), h₁.2.of_same rfl ?_⟩
    rw [Run.emit_events, Event.published_append]
    exact List.append_nil _

/-- The numbers of violations by their severity. -/
theorem countOf_sum (vs : List Violation) :
    RunSummary.countOf vs .error + RunSummary.countOf vs .warning + RunSummary.countOf vs .info =
      vs.length := by
  simp only [RunSummary.countOf]
  induction vs with
  | nil => rfl
  | cons v vs ih =>
    simp only [List.countP_cons, List.length_cons]
    cases v.severity <;> simp <;> omega

/-- **Violations are told of exactly once**: in every run that has a summary without a failure
outside of files, of add-ins that report on files of the run only, what is told of are the
violations of the summary, no file holds an occurrence twice, and the summary counts each
violation under its severity. -/
theorem published_runWith (hs : e.SweepsFreely sweep) (hq : e.HasQuietHooks switches)
    {summary : RunSummary}
    (h : (e.runWith sweep t switches processors mode settingsPath projects).result = .ok summary)
    (hclean : summary.engineViolations = []) :
    let o := e.runWith sweep t switches processors mode settingsPath projects
    (o.events.filterMap Event.violation?).Perm summary.violations ∧
    (∀ p ∈ o.projects, ∀ f ∈ p.files, Violation.NoRepeats f.violations) ∧
    summary.errorCount = (summary.violations.filter fun v => v.severity = .error).length ∧
    summary.warningCount = (summary.violations.filter fun v => v.severity = .warning).length ∧
    summary.infoCount = (summary.violations.filter fun v => v.severity = .info).length ∧
    summary.errorCount + summary.warningCount + summary.infoCount = summary.violations.length := by
  intro o
  obtain ⟨r, r', res, hstart, hclose, hloop⟩ := exists_passes h hclean
  obtain ⟨hsame, htells⟩ := hs.passLoop hstart.fresh.wellPlaced hstart.registry (hstart.tells hq)
    processors maxPasses
  rw [hloop] at hsame htells
  have hswitches : r'.switches = switches := hsame.switches.trans hstart.switches_eq
  obtain ⟨hprojects, hsummary⟩ := runWith_of_passes hstart (hswitches ▸ hclose) hswitches hloop
  have hevents : Event.published o.events = Event.published r'.events := by
    have hquiet : e.busy.HasQuietHooks r'.switches := hswitches ▸ ⟨hq.before, hq.after⟩
    have hclosing : (callAll (fun a p => a.after p r'.switches)
        (participants e.busy.registry)).result = .ok () := hclose
    have hconclude : (conclude (e.busy.close t mode r' (.ok res))).1 = [] := by
      simp only [close, hclosing, conclude]
    simp only [o, runWith_of_starts hstart, hloop]
    rw [hconclude, List.append_nil, published_close hquiet]
  obtain rfl := Except.ok.inj (h.symm.trans hsummary)
  refine ⟨?_, ?_, List.countP_eq_length_filter, List.countP_eq_length_filter,
    List.countP_eq_length_filter, countOf_sum _⟩
  · show (Event.published o.events).Perm (r'.recorded ++ [])
    rw [hevents, List.append_nil]
    exact htells.published
  · show ∀ p ∈ o.projects, _
    rw [show o.projects = r'.projects from hprojects]
    exact (r'.forall_file?_iff fun f => Violation.NoRepeats f.violations).mp htells.noRepeats

/-- An engine with a parser that complains, defers a file and complains again, and an analyzer
that offers a fix and then fails. -/
def talkative : Engine where
  registry :=
    { parsers := [{
        parser := {
          id := "wordy"
          configure := fun _ _ _ p _ => .ok p
          before := fun _ _ => { events := [.note "begins"], result := .ok () }
          after := fun _ _ => { events := [.output (.info "ends")], result := .ok () }
          extensions := ["txt"]
          parse := fun _ ctx =>
            .report { ruleId := "Early", message := "seen", line := 1 } fun _ =>
              if ctx.pass = 0 then .done .deferred
              else .report { ruleId := "Late", message := "seen", line := 2 } fun _ =>
                .done .complete }
        profile := {}
        trusted := false
        analyzers := ["nagger"] }]
      analyzers := [{
        analyzer := {
          id := "nagger"
          configure := fun _ _ _ p _ => .ok p
          parserId := "wordy"
          analyze := fun _ _ =>
            .report { ruleId := "Fixable", severity := .info, message := "mend", line := 1
                      fix := some { description := "mend", replacement := "" } } fun _ =>
              .fail (.failed "tired") }
        profile := {}
        trusted := false
        owner := some "wordy" }]
      extensions := [("txt", "wordy")] }

/-- A project with a file for the parser and one that it does not read. -/
def talked : Project where
  files := [.ofText ⟨"a.txt"⟩ "a", .ofText ⟨"b.md"⟩ "b"]
  settings := some {}

theorem talkative_hasQuietHooks : talkative.HasQuietHooks [] := ⟨by decide, by decide⟩

theorem talkative_publishesOnFiles : talkative.registry.PublishesOnFiles := by
  constructor
  · intro e he ctx
    obtain rfl := List.mem_singleton.mp he
    intro isNew
    show Act.PublishesOnFile ctx (if ctx.pass = 0 then _ else _)
    split
    · trivial
    · exact fun _ => trivial
  · intro e he ctx
    obtain rfl := List.mem_singleton.mp he
    exact fun _ => trivial

/-- One worker after the other, each pass after somebody has remarked on the second file. -/
def remarking : Sweep := fun n r =>
  (Pool.start r n).runFreely
    (.remark ⟨0, 1⟩ { ruleId := "Aside", message := "heard", line := 1 } ::
      (Pool.oneByOne r.slots.length n).map (FreeMove.move r.registry))

theorem talkative_sweepsFreely : talkative.SweepsFreely remarking := by
  intro n r _ _ hreg
  refine ⟨n, _, ?_, rfl⟩
  intro m hm
  rcases List.mem_cons.mp hm with rfl | hm
  · trivial
  · obtain ⟨m, -, rfl⟩ := List.mem_map.mp hm
    exact hreg ▸ talkative_publishesOnFiles

theorem published_talkative : ∃ summary,
    let o := talkative.runWith remarking {} [] 2 { autoFix := true } none [talked]
    talkative.SweepsFreely remarking ∧ talkative.HasQuietHooks [] ∧
    o.result = .ok summary ∧ summary.engineViolations = [] ∧
    summary.passes = 2 ∧ summary.violations.length = 5 ∧
    (o.events.filterMap Event.violation?).Perm summary.violations ∧
    (∀ p ∈ o.projects, ∀ f ∈ p.files, Violation.NoRepeats f.violations) ∧
    summary.errorCount + summary.warningCount + summary.infoCount = 5 := by
  obtain ⟨summary, hresult, hclean, hpasses, hlength⟩ : ∃ summary,
      (talkative.runWith remarking {} [] 2 { autoFix := true } none [talked]).result =
        .ok summary ∧ summary.engineViolations = [] ∧ summary.passes = 2 ∧
      summary.violations.length = 5 :=
    ⟨_, rfl, by decide +kernel, by decide +kernel, by decide +kernel⟩
  obtain ⟨hperm, honce, -, -, -, hsum⟩ :=
    published_runWith talkative_sweepsFreely talkative_hasQuietHooks hresult hclean
  exact ⟨summary, talkative_sweepsFreely, talkative_hasQuietHooks, hresult, hclean, hpasses,
    hlength, hperm, honce, hsum.trans hlength⟩

/-! ## What no summary knows of -/

/-- An engine with a parser that reports on `a.txt`, on notes of its own when it sees `b.txt`, and
runs out of memory on all other files. -/
def gossip : Engine where
  registry :=
    { parsers := [{
        parser := {
          id := "gossip"
          configure := fun _ _ _ p _ => .ok p
          extensions := ["txt"]
          parse := fun _ _ => .look fun f =>
            if f.path.text = "a.txt" then
              .report { ruleId := "Seen", message := "seen", line := 1 } fun _ => .done .complete
            else if f.path.text = "b.txt" then
              .reportOn (.ofText ⟨"notes.txt"⟩ "b")
                { ruleId := "Heard", message := "heard", line := 1 } fun _ _ => .done .complete
            else .fail (.exhausted "memory") }
        profile := {}
        trusted := false }]
      extensions := [("txt", "gossip")] }

/-- A project with text files of some names. -/
def textFiles (names : List String) : Project where
  files := names.map fun name => .ofText ⟨name⟩ "text"
  settings := some {}

/-- **Not all that is told of stands in a summary.**  A run that runs out of resources has none,
whatever it told of before; and a report on a file outside of the run is told of, but recorded on
no file of the run. -/
theorem told_beside_summary :
    let short := gossip.runWith Sweep.oneByOne {} [] 1 {} none [textFiles ["a.txt", "c.txt"]]
    let beside := gossip.runWith Sweep.oneByOne {} [] 1 {} none [textFiles ["b.txt"]]
    (short.events.filterMap Event.violation? =
        [{ ruleId := "Seen", message := "seen", line := 1 }] ∧
      short.result = .error (.exhausted "Resources exhausted: memory")) ∧
    ∃ summary, beside.result = .ok summary ∧ summary.engineViolations = [] ∧
      beside.events.filterMap Event.violation? =
        [{ ruleId := "Heard", message := "heard", line := 1 }] ∧
      summary.violations = [] := by
  refine ⟨⟨by decide +kernel, rfl⟩, ⟨_, rfl, ?_, ?_, ?_⟩⟩
  · decide +kernel
  · decide +kernel
  · decide +kernel

end Engine

end StyleEngine
