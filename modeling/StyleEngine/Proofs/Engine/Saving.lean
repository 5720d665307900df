import StyleEngine.Proofs.Engine.CodeModels
import StyleEngine.Proofs.Engine.RunEffects

/-! # When files are written

An engine writes the sources of projects only at the end of a run that was seen to
its end and was to save them.  Until then nothing depends on how the host writes
files, and neither does the outcome of any other run: how files are written can be
exchanged without a trace (`Engine.runAllBy_writingBy`).

At that end each modified file is written once, in order, with the text that it has
then, and a file that cannot be written is passed over (`Engine.saveBy_saves`).  Fixes
leave a model behind, so a modified file always has a text unless its model breaks
down, which stops the saving and is a failure of the run: by then the files before it
are written (`Engine.saving_beside_success`).
-/
namespace StyleEngine

/-! ## Modified files have a text -/

/-- Whether a file has a model if fixes have changed it. -/
def SourceFile.CanBeSaved (f : SourceFile) : Prop := f.modified = true → f.model.isSome = true

/-- Whether the file that fixes are tried on has a model as soon as it is to be marked. -/
def FixOutcome.HasModel (o : FixOutcome) : Prop :=
  o.applied ≠ [] ∨ o.file.modified = true → o.file.model.isSome = true

theorem FixOutcome.HasModel.attempt {o : FixOutcome} (h : o.HasModel) (v : Violation) :
    (o.attempt v).HasModel := by
  unfold FixOutcome.attempt
  cases hf : o.fixed? v with
  | none => exact h
  | some file =>
    intro _
    unfold fixed? at hf
    split at hf
    · obtain ⟨m, -, rfl⟩ := Option.map_eq_some_iff.mp hf
      rfl
    · cases hf

theorem SourceFile.CanBeSaved.applyFixes {f : SourceFile} (h : f.CanBeSaved)
    (vs : List Violation) : (f.applyFixes vs).file.CanBeSaved := by
  have htried : ((bottomUp vs).foldl FixOutcome.attempt { file := f }).HasModel := by
    refine List.foldlRecOn (motive := FixOutcome.HasModel) _ _ ?_ fun o ho v _ => ho.attempt v
    rintro (hnone | hmodified)
    · exact absurd rfl hnone
    · exact h hmodified
  unfold SourceFile.applyFixes FixOutcome.mark
  split
  · exact fun hmodified => htried (.inr hmodified)
  · next hsome => exact fun _ => htried (.inl fun hnil => hsome (List.isEmpty_iff.mpr hnil))

theorem Visit.canBeSaved_invariant (ctx : FileContext) :
    Visit.Invariant ctx (fun s => s.file.CanBeSaved) True where
  takeText h := h
  setModel _ _ := fun _ => rfl
  hold _ h := h
  publish {s} v h := by
    rw [s.publish_file]
    exact h
  emit _ _ h := h
  fix _ h := h.applyFixes _

/-- **Work on a file leaves it with a model if it is modified.** -/
theorem SourceFile.Worked.canBeSaved {r : Registry} {f g : SourceFile} (h : f.Worked r g)
    (hf : f.CanBeSaved) : g.CanBeSaved := by
  induction h with
  | start => exact hf
  | @work g _ j _ cached ih =>
    obtain ⟨s, hs, -, hfile | hfile⟩ :=
      j.process_visit (.inl trivial) cached g (Visit.canBeSaved_invariant j.context) ih
    · rw [hfile]
      exact hs
    · rw [hfile]
      exact hs
  | skip _ ih => exact ih

/-- A file that can be saved has a text or a model that breaks down. -/
theorem SourceFile.CanBeSaved.textBy_cases {f : SourceFile} (h : f.CanBeSaved)
    (hmodified : f.modified = true) (render : Renderer) :
    (∃ text, f.textBy render = .ok (some text)) ∨ ∃ crash, f.textBy render = .error crash := by
  unfold textBy
  cases f.text with
  | some text => exact .inl ⟨text, rfl⟩
  | none =>
    obtain ⟨m, hm⟩ := Option.isSome_iff_exists.mp (h hmodified)
    rw [hm]
    cases hr : render f m with
    | error crash => exact .inr ⟨crash, by simp only [hr]; rfl⟩
    | ok text => exact .inl ⟨text, by simp only [hr]; rfl⟩

theorem SourceFile.canBeSaved_reset (f : SourceFile) : f.reset.CanBeSaved :=
  fun hmodified => absurd hmodified Bool.false_ne_true

/-! ## Passes that leave models behind -/

/-- Whether the files of a run have a model if fixes have changed them. -/
def Run.CanBeSaved (r : Run) : Prop := ∀ q ∈ r.projects, ∀ f ∈ q.files, f.CanBeSaved

/-- Whether passes mark only files as modified that have a model, and leave them their model.
Fixes are all that marks files, and no add-in can take a model away: so it is with all models, even
if one breaks down amid its fixes and ends the pass. -/
def Sweep.KeepsModels (sweep : Sweep) : Prop :=
  ∀ n r, 0 < n → r.WellPlaced → r.CanBeSaved →
    (sweep n r).run.WellPlaced ∧ (sweep n r).run.CanBeSaved

/-- Workers in any order leave the models of text files behind, whatever the add-ins do. -/
theorem Sweep.Interleaves.keepsModels {sweep : Sweep} (hs : sweep.Interleaves) :
    sweep.KeepsModels := by
  intro n r hn hr hsaved
  have hpass := hs n r hn hr
  refine ⟨hpass.wellPlaced hr, ?_⟩
  refine ((sweep n r).run.forall_file?_iff SourceFile.CanBeSaved).mp ?_
  intro s f hf
  obtain ⟨g, hg, hworked⟩ := (hpass.works hr).worked hf
  exact hworked.canBeSaved ((r.forall_file?_iff SourceFile.CanBeSaved).mpr hsaved s g hg)

theorem Sweep.KeepsModels.passLoop {sweep : Sweep} (hs : sweep.KeepsModels) {n : Nat} (hn : 0 < n)
    {r : Run} (hr : r.WellPlaced) (hsaved : r.CanBeSaved) (left : Nat) :
    (r.passLoop (sweep n) left).1.CanBeSaved := by
  refine (Run.passLoop_keeps (P := fun r => r.WellPlaced ∧ r.CanBeSaved) ?_ ?_ ?_ ?_ left
    ⟨hr, hsaved⟩).2
  · exact fun r h => hs n r hn h.1 h.2
  · exact fun r h => ⟨⟨h.1.nodup, h.1.mem_iff⟩, h.2⟩
  · exact fun r h => ⟨⟨h.1.nodup, h.1.mem_iff⟩, h.2⟩
  · exact fun r o h => ⟨⟨h.1.nodup, h.1.mem_iff⟩, h.2⟩

/-! ## Writing files -/

/-- How a host writes files. -/
abbrev Writer := FileTree → Path → String → Except FileFault FileTree

/-- A file tree after a text was to be written: a failure leaves it as it is. -/
def Writer.attempt (w : Writer) (t : FileTree) (x : Path × String) : FileTree :=
  match w t x.1 x.2 with
  | .ok t' => t'
  | .error _ => t

def Event.saving? : Event → Option (Path × String)
  | .saving path text => some (path, text)
  | _ => none

namespace Engine

/-- What saving files comes to: the files that are written, each with its text, what that makes
of a file tree, and the end.  A model that breaks down keeps its file and those after it from being
written. -/
structure Saves (render : Renderer) (w : Writer) (files : List SourceFile) (t t' : FileTree)
    (told : List Event) (outcome : Except Crash Unit) (written : List (SourceFile × String)) :
    Prop where
  texts : ∀ x ∈ written, x.1.textBy render = .ok (some x.2)
  tree : t' = (written.map fun x => (x.1.path, x.2)).foldl w.attempt t
  told : told.filterMap Event.saving? = written.map fun x => (x.1.path, x.2)
  all : outcome = .ok () → files.filter (·.modified) = written.map Prod.fst
  stops : ∀ crash, outcome = .error crash → ∃ f rest,
    files.filter (·.modified) = written.map Prod.fst ++ f :: rest ∧
      f.textBy render = .error crash

variable {render : Renderer} {w : Writer} {env : Environment} {t t' : FileTree}
  {files : List SourceFile} {told : List Event} {outcome : Except Crash Unit}
  {written : List (SourceFile × String)}

theorem Saves.nil : Saves render w [] t t [] (.ok ()) [] where
  texts _ hx := absurd hx List.not_mem_nil
  tree := rfl
  told := rfl
  all _ := rfl
  stops _ h := by cases h

/-- A file that no fix has changed is passed over. -/
theorem Saves.skip {f : SourceFile} (hmodified : f.modified = false)
    (h : Saves render w files t t' told outcome written) :
    Saves render w (f :: files) t t' told outcome written := by
  have hrest : (f :: files).filter (·.modified) = files.filter (·.modified) :=
    List.filter_cons_of_neg (by simp [hmodified])
  exact ⟨h.texts, h.tree, h.told, hrest ▸ h.all, hrest ▸ h.stops⟩

/-- A modified file is written before the others, whether that succeeds or not. -/
theorem Saves.write {f : SourceFile} {text : String} {more : List Event}
    (hmodified : f.modified = true) (htext : f.textBy render = .ok (some text))
    (hmore : more.filterMap Event.saving? = [])
    (h : Saves render w files (w.attempt t (f.path, text)) t' told outcome written) :
    Saves render w (f :: files) t t' (.saving f.path text :: more ++ told) outcome
      ((f, text) :: written) := by
  have hfirst : (f :: files).filter (·.modified) = f :: files.filter (·.modified) :=
    List.filter_cons_of_pos (by simp [hmodified])
  constructor
  · exact fun x hx => (List.mem_cons.mp hx).elim (fun heq => heq ▸ htext) (h.texts x)
  · exact h.tree
  · show (f.path, text) :: (more ++ told).filterMap Event.saving? = _
    rw [List.filterMap_append, hmore, List.nil_append, h.told]
    rfl
  · intro hend
    rw [hfirst, h.all hend]
    rfl
  · intro crash hend
    obtain ⟨g, rest, hsplit, hbroken⟩ := h.stops crash hend
    exact ⟨g, rest, by rw [hfirst, hsplit]; rfl, hbroken⟩

/-- A model that breaks down ends the saving at its file. -/
theorem Saves.stop {f : SourceFile} {crash : Crash} (hmodified : f.modified = true)
    (hbroken : f.textBy render = .error crash) (files : List SourceFile) :
    Saves render w (f :: files) t t [] (.error crash) [] where
  texts _ hx := absurd hx List.not_mem_nil
  tree := rfl
  told := rfl
  all h := by cases h
  stops _ h := by
    obtain rfl := Except.error.inj h
    exact ⟨f, files.filter (·.modified), List.filter_cons_of_pos (by simp [hmodified]), hbroken⟩

/-- What is told of writing a file is the writing, and a warning if it fails. -/
theorem exists_writeFile (env : Environment) (t : FileTree) (path : Path) (text : String) :
    ∃ more, writeFile env t path text =
        (Writer.attempt env.writeSource t (path, text), .saving path text :: more) ∧
      more.filterMap Event.saving? = [] ∧ more.any Event.isCancel = false := by
  simp only [writeFile, Writer.attempt]
  cases env.writeSource t path text with
  | ok t' => exact ⟨[], rfl, rfl, rfl⟩
  | error cause => exact ⟨[_], rfl, rfl, rfl⟩

/-- **Every modified file is written once, in order, whatever becomes of the others**, up to the
first one whose model breaks down. -/
theorem saveBy_saves (render : Renderer) (env : Environment) (t : FileTree)
    (h : ∀ f ∈ files, f.CanBeSaved) :
    let o := saveBy render env t files
    o.2.1.any Event.isCancel = false ∧
      ∃ written, Saves render env.writeSource files t o.1 o.2.1 o.2.2 written := by
  induction files generalizing t with
  | nil => exact ⟨rfl, [], .nil⟩
  | cons f files ih =>
    have hrest := fun t => ih t fun g hg => h g (List.mem_cons_of_mem _ hg)
    cases hmodified : f.modified with
    | false =>
      have hpassed : saveBy render env t (f :: files) = saveBy render env t files := by
        rw [saveBy, hmodified]
        rfl
      obtain ⟨hquiet, written, hsaves⟩ := hrest t
      rw [hpassed]
      exact ⟨hquiet, written, hsaves.skip hmodified⟩
    | true =>
      rcases (h f List.mem_cons_self).textBy_cases hmodified render with
        ⟨text, htext⟩ | ⟨crash, hbroken⟩
      · obtain ⟨more, hwrite, hsaving, hcalm⟩ := exists_writeFile env t f.path text
        have hwritten : saveBy render env t (f :: files) =
            let o := saveBy render env (Writer.attempt env.writeSource t (f.path, text)) files
            (o.1, .saving f.path text :: more ++ o.2.1, o.2.2) := by
          simp only [saveBy, hmodified, htext, hwrite, Bool.not_true, Bool.false_eq_true,
            ↓reduceIte]
        obtain ⟨hquiet, written, hsaves⟩ := hrest (Writer.attempt env.writeSource t (f.path, text))
        rw [hwritten]
        refine ⟨?_, _, hsaves.write hmodified htext hsaving⟩
        show (more ++ _).any Event.isCancel = false
        rw [List.any_append, hcalm, hquiet]
        rfl
      · have hstopped : saveBy render env t (f :: files) = (t, [], .error crash) := by
          simp only [saveBy, hmodified, hbroken, Bool.not_true, Bool.false_eq_true, ↓reduceIte]
        rw [hstopped]
        exact ⟨rfl, [], .stop hmodified hbroken files⟩

/-! ## Exchanging how files are written -/

/-- The engine of a host that writes files in another way. -/
def writingBy (e : Engine) (w : Writer) : Engine :=
  { e with environment := { e.environment with writeSource := w } }

variable {e : Engine} {sweep : Sweep} {switches : Switches} {processors : Nat} {mode : RunMode}
  {path : Option Path} {settingsPath : Option String} {projects : List Project}

theorem prepareBy_writingBy (e : Engine) (render : Renderer) (w : Writer) (t : FileTree)
    (mode : RunMode) (path : Option Path) (done : Prepared) (ps : List Project) :
    (e.writingBy w).prepareBy render t mode path done ps =
      e.prepareBy render t mode.unsaved path done ps := by
  induction ps generalizing done with
  | nil => rfl
  | cons p ps ih =>
    have hsettings : (e.writingBy w).settingsOf t path p = e.settingsOf t path p := rfl
    simp only [prepareBy, hsettings]
    cases e.settingsOf t path p with
    | error cause => rfl
    | ok s =>
      simp only
      cases p.resetBy render with
      | mk q reset =>
        cases reset with
        | error crash => rfl
        | ok _ => exact ih _

theorem close_unsaved_writingBy (e : Engine) (w : Writer) (t : FileTree) (mode : RunMode)
    (r : Run) (result : Except AddInError PassResult) :
    (e.writingBy w).close t mode.unsaved r result = e.close t mode.unsaved r result := by
  have hclosing : callAll (fun a p => a.after p r.switches)
      (participants (e.writingBy w).registry) =
    callAll (fun a p => a.after p r.switches) (participants e.registry) := rfl
  simp only [close, hclosing, RunMode.unsaved, Bool.false_eq_true, ↓reduceIte]

/-- **Files are saved by runs that are to save them, after all else.** -/
theorem runAllBy_writingBy (e : Engine) (render : Renderer) (w : Writer) (sweep : Sweep)
    (t : FileTree) (switches : Switches) (processors : Nat) (mode : RunMode)
    (path : Option Path) (projects : List Project) :
    let unsaved := e.runAllBy render sweep t switches processors mode.unsaved path projects
    (e.writingBy w).runAllBy render sweep t switches processors mode path projects =
      if mode.autoSave then unsaved.savedBy render (e.writingBy w).environment else unsaved := by
  have hopen : (e.writingBy w).openPrepared t switches mode
      ((e.writingBy w).prepareBy render t mode path { cache := e.cache } projects) =
    e.openPrepared t switches mode.unsaved
      (e.prepareBy render t mode.unsaved path { cache := e.cache } projects) := by
    rw [prepareBy_writingBy]
    rfl
  simp only [runAllBy]
  rw [show (e.writingBy w).cache = e.cache from rfl, hopen]
  cases hopened : e.openPrepared t switches mode.unsaved
      (e.prepareBy render t mode.unsaved path { cache := e.cache } projects) with
  | error ended =>
    obtain ⟨message, hresult⟩ := openPrepared_eq_error hopened
    simp only [Ended.savedBy, hresult, ite_self]
  | ok r => simp only [close_unsaved_writingBy]; rfl

/-! ## A whole run -/

/-- Whether a run was seen to its end, with no failure outside of files. -/
def RunOutcome.IsSuccess (o : RunOutcome) : Prop :=
  ∃ summary, o.result = .ok summary ∧ summary.engineViolations = []

/-- A run that is over was seen to its end exactly if its summary says so. -/
theorem exists_result_iff (o : Ended) :
    (∃ res, o.result = .ok res) ↔ (e.outcomeOf o).IsSuccess := by
  constructor
  · rintro ⟨res, hres⟩
    exact ⟨_, by rw [outcomeOf, conclude, hres], rfl⟩
  · rintro ⟨summary, hsummary, hclean⟩
    exact result_of_conclude hsummary hclean

/-- What a run gives back after its files were saved.  A model that breaks down is a failure outside
of files. -/
def RunOutcome.resultAfter (o : RunOutcome) : Except Crash Unit → Except EngineError RunSummary
  | .ok () => o.result
  | .error crash => .ok (.collect o.projects [.exception crash.message])

theorem RunOutcome.not_isSuccess {o : RunOutcome} {cause : EngineError}
    (h : o.result = .error cause) : ¬ o.IsSuccess := by
  rintro ⟨summary, hsummary, -⟩
  rw [h] at hsummary
  cases hsummary

theorem runRendering_of_accepts (h : e.Accepts settingsPath) :
    e.runRendering render sweep t switches processors mode settingsPath projects = e.outcomeOf
      (e.busy.runAllBy render sweep t switches processors mode (settingsPath.map Path.mk)
        projects) := by
  simp only [runRendering, h.1, h.2, Bool.false_eq_true, ↓reduceIte]

theorem runRendering_of_refused (h : ¬ e.Accepts settingsPath) :
    e.runRendering render sweep t switches processors mode settingsPath projects =
      { engine := e, files := t, projects, result := .error (refusal settingsPath) } :=
  if_refused h
    (fun cause => ({ engine := e, files := t, projects, result := .error cause } : RunOutcome)) _

/-- Files are reset before a run. -/
theorem canBeSaved_prepareBy {done ready : Prepared} {ps : List Project}
    (h : e.prepareBy render t mode path done ps = (ready, .ok ()))
    (hdone : ∀ q ∈ done.projects, ∀ f ∈ q.files, f.CanBeSaved) :
    ∀ q ∈ ready.projects, ∀ f ∈ q.files, f.CanBeSaved := by
  induction ps generalizing done with
  | nil =>
    obtain rfl := (Prod.mk.inj h).1
    exact hdone
  | cons p ps ih =>
    unfold prepareBy at h
    split at h
    · cases h
    · next s _ =>
      split at h
      · cases h
      · next q _ =>
        refine ih h ?_
        intro q' hq'
        rcases List.mem_append.mp hq' with hq' | hq'
        · exact hdone q' hq'
        · obtain rfl := List.mem_singleton.mp hq'
          intro f hf
          obtain ⟨g, -, rfl⟩ := List.mem_map.mp hf
          exact g.canBeSaved_reset

/-- The files of a run that was seen to its end can be saved. -/
theorem canBeSaved_runAllBy (hs : sweep.KeepsModels) {res : PassResult}
    (hres : (e.runAllBy render sweep t switches processors mode.unsaved path projects).result =
      .ok res) :
    ∀ f ∈ (e.runAllBy render sweep t switches processors mode.unsaved path
      projects).projects.flatMap Project.files, f.CanBeSaved := by
  unfold runAllBy at hres ⊢
  cases hopened : e.openPrepared t switches mode.unsaved
      (e.prepareBy render t mode.unsaved path { cache := e.cache } projects) with
  | error ended =>
    obtain ⟨message, hfailed⟩ := openPrepared_eq_error hopened
    simp only [hopened, hfailed] at hres
    cases hres
  | ok r =>
    obtain ⟨ready, told, hready, -, rfl⟩ := openPrepared_eq_ok hopened
    have hstart := canBeSaved_prepareBy hready fun _ hq => absurd hq List.not_mem_nil
    have hend := hs.passLoop (workerCount_pos e processors ready.projects)
      (fresh_begin e switches mode.unsaved ready told).wellPlaced hstart maxPasses
    intro f hf
    obtain ⟨q, hq, hf⟩ := List.mem_flatMap.mp hf
    simp only [RunMode.unsaved, Bool.false_eq_true, ↓reduceIte, projects_close] at hq
    exact hend q hq f hf

/-- What is told of saving files stands behind all else that is told, and if a model breaks down,
that is the failure of the run; nothing else shows. -/
theorem outcomeOf_savedBy {o : Ended} {res : PassResult} (hres : o.result = .ok res)
    (hsave : saveBy render env o.files (o.projects.flatMap Project.files) = (t', told, outcome))
    (hquiet : told.any Event.isCancel = false) : ∃ more : List Event,
      more.filterMap Event.saving? = [] ∧ e.outcomeOf (o.savedBy render env) =
        { e.outcomeOf o with
          files := t'
          events := (e.outcomeOf o).events ++ (told ++ more)
          result := (e.outcomeOf o).resultAfter outcome } := by
  have hcancelled : (o.events ++ told).any Event.isCancel = o.events.any Event.isCancel := by
    rw [List.any_append, hquiet, Bool.or_false]
  cases outcome with
  | ok _ =>
    refine ⟨[], rfl, ?_⟩
    simp only [outcomeOf, Ended.savedBy, hres, hsave, hcancelled, conclude, List.append_nil,
      RunOutcome.resultAfter]
  | error crash =>
    refine ⟨[.violation (.exception crash.message)], rfl, ?_⟩
    simp only [outcomeOf, Ended.savedBy, hres, hsave, hcancelled, conclude, List.append_nil,
      List.append_assoc, RunOutcome.resultAfter]

/-- **When sources are written.**  Whatever the add-ins and their models do, and however the host
writes files: unless a run is to save files, and would be seen to its end without a failure
outside of files if it were not, it gives back what it would give back then, and nothing of it
hangs on how files are written: no write is made.  Otherwise it writes the modified files that it
gives back, after all else, in the order of projects and files, each once with its text at that
time, whether the other writes fail or not, and gives back the same summary all the same; a file
whose model breaks down is not written, and neither are those after it, and the run ends with this
failure. -/
theorem runRendering_writes (hs : sweep.KeepsModels) (e : Engine) (render : Renderer) (w : Writer)
    (t : FileTree) (switches : Switches) (processors : Nat) (mode : RunMode)
    (settingsPath : Option String) (projects : List Project) :
    let unsaved := e.runRendering render sweep t switches processors
      { mode with autoSave := false } settingsPath projects
    let o := (e.writingBy w).runRendering render sweep t switches processors mode settingsPath
      projects
    (¬ (mode.autoSave = true ∧ unsaved.IsSuccess) →
      o = { unsaved with engine := unsaved.engine.writingBy w }) ∧
    (mode.autoSave = true → unsaved.IsSuccess →
      o.projects = unsaved.projects ∧ o.engine = unsaved.engine.writingBy w ∧
      ∃ written told outcome,
        Saves render w (o.projects.flatMap Project.files) unsaved.files o.files told outcome
          written ∧
        o.events = unsaved.events ++ told ∧
        o.result = unsaved.resultAfter outcome) := by
  intro unsaved o
  by_cases haccepts : e.Accepts settingsPath
  · let u := e.busy.runAllBy render sweep t switches processors mode.unsaved
      (settingsPath.map Path.mk) projects
    have hunsaved : unsaved = e.outcomeOf u := runRendering_of_accepts haccepts
    have ho : o = (e.writingBy w).outcomeOf
        (if mode.autoSave then u.savedBy render (e.writingBy w).environment else u) := by
      refine (runRendering_of_accepts (e := e.writingBy w) haccepts).trans ?_
      exact congrArg _ (runAllBy_writingBy e.busy render w sweep t switches processors mode
        (settingsPath.map Path.mk) projects)
    rw [hunsaved, ho, ← exists_result_iff]
    refine ⟨fun hnot => ?_, fun hsaves hsuccess => ?_⟩
    · cases hsaves : mode.autoSave with
      | false => rfl
      | true =>
        cases hres : u.result with
        | error failure =>
          rw [if_pos rfl, Ended.savedBy, hres]
          rfl
        | ok res => exact absurd ⟨hsaves, res, hres⟩ hnot
    · obtain ⟨res, hres⟩ := hsuccess
      obtain ⟨hquiet, written, hwritten⟩ := saveBy_saves render (e.writingBy w).environment u.files
        (canBeSaved_runAllBy hs hres)
      obtain ⟨more, hmore, hshows⟩ := outcomeOf_savedBy (e := e.writingBy w) hres rfl hquiet
      rw [if_pos hsaves, hshows]
      refine ⟨rfl, rfl, written, _, _, { hwritten with told := ?_ }, rfl, rfl⟩
      rw [List.filterMap_append, hmore, List.append_nil]
      exact hwritten.told
  · have hunsaved : unsaved = _ := runRendering_of_refused haccepts
    have ho : o = _ := runRendering_of_refused (e := e.writingBy w) haccepts
    rw [hunsaved, ho]
    exact ⟨fun _ => rfl, fun _ hsuccess => absurd hsuccess (RunOutcome.not_isSuccess rfl)⟩

/-- An engine with a parser that offers a fix for the first line of every file. -/
def scribe : Engine where
  registry :=
    { parsers := [{
        parser := {
          id := "plain"
          configure := fun _ _ _ p _ => .ok p
          extensions := ["txt"]
          parse := fun _ _ =>
            .takeText fun text => .setModel (.ofText (text.getD "")) <|
              .report { ruleId := "Old", message := "worn out", line := 1
                        fix := some { description := "mend", replacement := "new" } } fun _ =>
                .done .complete }
        profile := {}
        trusted := false }]
      extensions := [("txt", "plain")] }

/-- A project with two files for the parser and one that it does not read. -/
def threeOld : Project where
  files := [.ofText ⟨"a.txt"⟩ "old", .ofText ⟨"b.md"⟩ "old", .ofText ⟨"c.txt"⟩ "old\n"]
  settings := some {}

/-- A host that cannot write one of the files. -/
def writesSome : Writer := fun t path text =>
  if path = ⟨"a.txt"⟩ then .error .isDirectory else t.write path (.text text)

/-- Models of text files, but for one that breaks down. -/
def fragile : Renderer := fun f m =>
  if f.path = ⟨"c.txt"⟩ then .error { words := some "torn" } else .ok m.source

/-- The file after one that cannot be written is written all the same. -/
theorem runRendering_writes_threeOld :
    let o := (scribe.writingBy writesSome).runRendering .plain Sweep.oneByOne {} [] 1
      { autoFix := true, autoSave := true } none [threeOld]
    let unsaved := scribe.runRendering .plain Sweep.oneByOne {} [] 1 { autoFix := true } none
      [threeOld]
    Sweep.KeepsModels Sweep.oneByOne ∧ unsaved.IsSuccess ∧ o.result = unsaved.result ∧
    o.files =
      [(⟨"a.txt"⟩, "new"), (⟨"c.txt"⟩, "new\n")].foldl writesSome.attempt unsaved.files := by
  intro o unsaved
  have hs := Sweep.oneByOne_interleaves.interleaves.keepsModels
  have hsuccess : unsaved.IsSuccess := ⟨_, rfl, by decide +kernel⟩
  obtain ⟨-, -, written, told, outcome, hsaves, hevents, hresult⟩ :=
    (runRendering_writes hs scribe .plain writesSome {} [] 1 { autoFix := true, autoSave := true }
      none [threeOld]).2 rfl hsuccess
  cases outcome with
  | ok _ =>
    have hbefore : unsaved.events.filterMap Event.saving? = [] := by decide +kernel
    have hwritten : o.events.filterMap Event.saving? =
      written.map fun x => (x.1.path, x.2) := by
        rw [show o.events = _ from hevents, List.filterMap_append, hbefore, hsaves.told]
        rfl
    have hsaved : o.events.filterMap Event.saving? =
      [(⟨"a.txt"⟩, "new"), (⟨"c.txt"⟩, "new\n")] := by decide +kernel
    refine ⟨hs, hsuccess, hresult, ?_⟩
    rw [← hsaved, hwritten]
    exact hsaves.tree
  | error crash =>
    obtain ⟨f, rest, -, hbroken⟩ := hsaves.stops crash rfl
    rw [SourceFile.textBy_plain] at hbroken
    cases hbroken

/-- **Not every failure leaves the sources alone, nor does every other end of a run write them.**
A model that breaks down while it is saved ends the run with a failure when the file before it is
written; and a request that is refused writes nothing, even though it is to save files and a run
before it has modified them. -/
theorem saving_beside_success :
    let saves : RunMode := { autoFix := true, autoSave := true }
    let failing := scribe.runRendering fragile Sweep.oneByOne {} [] 1 saves none [threeOld]
    let first := scribe.runWith Sweep.oneByOne {} [] 1 { autoFix := true } none [threeOld]
    let refused := first.engine.runWith Sweep.oneByOne first.files [] 1 saves (some " ")
      first.projects
    (failing.result.toOption.map RunSummary.engineViolations = some [.exception "torn"] ∧
      failing.events.filterMap Event.saving? = [(⟨"a.txt"⟩, "new")]) ∧
    refused.result = .error .invalidSettingsPath ∧
    ((refused.projects.flatMap Project.files).filter (·.modified)).map (·.path) =
      [⟨"a.txt"⟩, ⟨"c.txt"⟩] ∧
    refused.events.filterMap Event.saving? = [] ∧ refused.files = first.files := by
  intro saves failing first refused
  have hrefused : refused = _ :=
    runWith_of_refused fun haccepts => absurd haccepts.1 (by decide +kernel)
  rw [hrefused]
  refine ⟨⟨?_, ?_⟩, ?_, ?_, rfl, rfl⟩
  · decide +kernel
  · decide +kernel
  · exact congrArg Except.error (if_pos (by decide +kernel))
  · show ((first.projects.flatMap Project.files).filter (·.modified)).map (·.path) = _
    decide +kernel

end Engine

end StyleEngine
