import StyleEngine.Proofs.Engine.Publication

/-! # Code models of add-ins

The model of a file belongs to the add-in that made it, and the engine knows no more
of it than that it can be asked for its text.  It may then break down.  The engine
asks twice: when a file is reset before a run, and when it is saved after it.

What models answer is a `Renderer`.  A run under any renderer (`Engine.runRendering`)
goes like a run of `Engine.runWith`, but ends with a failure outside of files where a
model breaks down; under the models of text files, which always have a text, it is
`Engine.runWith` (`Engine.runRendering_plain`).
-/
namespace StyleEngine

/-- What the model of a file gives as its text, unless it breaks down. -/
abbrev Renderer := SourceFile → TextModel → Except Crash String

/-- The models of text files. -/
def Renderer.plain : Renderer := fun _ m => .ok m.source

/-- The mode of a run that is not to save files. -/
def RunMode.unsaved (m : RunMode) : RunMode := { m with autoSave := false }

/-! ## Files -/

namespace SourceFile

variable (render : Renderer)

/-- The current text of a file, whether still raw or in its model. -/
def textBy (f : SourceFile) : Except Crash (Option String) :=
  match f.text, f.model with
  | some text, _ => .ok (some text)
  | none, some m => (render f m).map some
  | none, none => .ok none

/-- A file as it is before a run.  If its model breaks down, it stays as it was. -/
def resetBy (f : SourceFile) : Except Crash SourceFile :=
  (f.textBy render).map fun text => { f with text }.reset

/-- Files reset one after the other, until a model breaks down. -/
def resetAll : List SourceFile → List SourceFile × Except Crash Unit
  | [] => ([], .ok ())
  | f :: fs =>
    match f.resetBy render with
    | .error crash => (f :: fs, .error crash)
    | .ok g => (g :: (resetAll fs).1, (resetAll fs).2)

theorem textBy_plain (f : SourceFile) : f.textBy .plain = .ok f.sourceText? := by
  unfold textBy sourceText?
  cases f.text with
  | some text => rfl
  | none => cases f.model <;> rfl

theorem reset_reset (f : SourceFile) : f.reset.reset = f.reset := by
  show ({ path := f.path, digest := f.reset.digest, text := f.reset.sourceText? } : SourceFile) = _
  rw [sourceText?_reset]
  rfl

/-- Putting the text of a model back before a reset makes no difference. -/
theorem resetBy_plain (f : SourceFile) : f.resetBy .plain = .ok f.reset := by
  have htext : ({ f with text := f.sourceText? } : SourceFile).sourceText? = f.sourceText? := by
    unfold sourceText?
    cases f.text with
    | some text => rfl
    | none => cases f.model <;> rfl
  rw [resetBy, textBy_plain]
  show Except.ok ({ f with text := f.sourceText? } : SourceFile).reset = _
  simp only [reset, htext]

theorem resetAll_plain (fs : List SourceFile) :
    resetAll .plain fs = (fs.map reset, .ok ()) := by
  induction fs with
  | nil => rfl
  | cons f fs ih => simp only [resetAll, resetBy_plain, ih, List.map_cons]

end SourceFile

/-! ## Preparing projects -/

/-- A project before a run, as far as its files could be reset. -/
def Project.resetBy (render : Renderer) (p : Project) : Project × Except Crash Unit :=
  ({ p with files := (SourceFile.resetAll render p.files).1 },
    (SourceFile.resetAll render p.files).2)

theorem Project.resetBy_plain (p : Project) : p.resetBy .plain = (p.reset, .ok ()) := by
  simp only [resetBy, SourceFile.resetAll_plain, reset]

namespace Engine

variable {e : Engine} {sweep : Sweep} {t : FileTree} {switches : Switches} {processors : Nat}
  {mode : RunMode} {settingsPath : Option String} {projects : List Project}

/-- Prepares projects one after the other, until settings cannot be read or a model breaks
down. -/
def prepareBy (e : Engine) (render : Renderer) (t : FileTree) (mode : RunMode)
    (path : Option Path) : Prepared → List Project → Prepared × Except String Unit
  | done, [] => (done, .ok ())
  | done, p :: ps =>
    match e.settingsOf t path p with
    | .error cause =>
      ({ done with projects := done.projects ++ p :: ps },
        .error ("Failed to load settings for " ++ p.name ++ ": " ++ cause.message))
    | .ok s =>
      match p.resetBy render with
      | (q, .error crash) =>
        ({ done with projects := done.projects ++ { q with settings := some s } :: ps },
          .error crash.message)
      | (q, .ok ()) => prepareBy e render t mode path (prepareUnder mode done q s) ps

/-- Resetting files once more changes nothing. -/
theorem prepareUnder_reset (mode : RunMode) (done : Prepared) (p : Project) (s : Settings) :
    prepareUnder mode done p.reset s = prepareUnder mode done p s := by
  have hfiles : (p.files.map SourceFile.reset).map SourceFile.reset =
      p.files.map SourceFile.reset := by
    rw [List.map_map]
    exact List.map_congr_left fun f _ => f.reset_reset
  simp only [prepareUnder, Project.reset, hfiles]
  rfl

theorem prepareBy_plain (e : Engine) (t : FileTree) (mode : RunMode) (path : Option Path)
    (done : Prepared) (ps : List Project) :
    e.prepareBy .plain t mode path done ps = e.prepare t mode path done ps := by
  induction ps generalizing done with
  | nil => rfl
  | cons p ps ih =>
    unfold prepareBy prepare
    cases e.settingsOf t path p with
    | error cause => rfl
    | ok s =>
      simp only [Project.resetBy_plain, prepareUnder_reset]
      exact ih _

/-! ## Saving files -/

/-- Writes the files that fixes have changed, until the model of one breaks down. -/
def saveBy (render : Renderer) (env : Environment) (t : FileTree) :
    List SourceFile → FileTree × List Event × Except Crash Unit
  | [] => (t, [], .ok ())
  | f :: fs =>
    if !f.modified then saveBy render env t fs
    else match f.textBy render with
      | .error crash => (t, [], .error crash)
      | .ok none => saveBy render env t fs
      | .ok (some text) =>
        let (t, told) := writeFile env t f.path text
        let (t, more, result) := saveBy render env t fs
        (t, told ++ more, result)

/-- The end of a run after its changed files were saved, if it was seen to its end. -/
def Ended.savedBy (render : Renderer) (env : Environment) (o : Ended) : Ended :=
  match o.result with
  | .error _ => o
  | .ok res =>
    let (t, told, result) := saveBy render env o.files (o.projects.flatMap Project.files)
    { o with
      files := t, events := o.events ++ told
      result := match result with
        | .error crash => .error (.failed crash.message)
        | .ok () => .ok res }

/-- A file tree, and what was told so far, when a file is to be saved. -/
def saveStep (env : Environment) : FileTree × List Event → SourceFile → FileTree × List Event
  | (t, told), f =>
    if !f.modified then (t, told)
    else match f.sourceText? with
      | none => (t, told)
      | some text => ((writeFile env t f.path text).1, told ++ (writeFile env t f.path text).2)

theorem saveFixed_eq (env : Environment) (t : FileTree) (files : List SourceFile) :
    saveFixed env t files = files.foldl (saveStep env) (t, []) := rfl

theorem saveBy_plain (env : Environment) (t : FileTree) (files : List SourceFile) :
    saveBy .plain env t files = ((saveFixed env t files).1, (saveFixed env t files).2, .ok ()) := by
  -- the walk over the files also carries what was told so far
  suffices hwalk : ∀ told : List Event,
      let s := files.foldl (saveStep env) (t, told)
      let o := saveBy .plain env t files
      s = (o.1, told ++ o.2.1) ∧ o.2.2 = .ok () by
    obtain ⟨hfold, hok⟩ := hwalk []
    rw [saveFixed_eq, hfold]
    exact Prod.ext rfl (Prod.ext rfl hok)
  induction files generalizing t with
  | nil => exact fun told => ⟨by rw [List.foldl_nil, saveBy, List.append_nil], rfl⟩
  | cons f files ih =>
    intro told
    simp only [List.foldl_cons, saveBy, SourceFile.textBy_plain, saveStep]
    cases f.modified with
    | false => exact ih t told
    | true =>
      simp only [Bool.not_true, Bool.false_eq_true, ↓reduceIte]
      cases f.sourceText? with
      | none => exact ih t told
      | some text =>
        obtain ⟨hfold, hok⟩ := ih (writeFile env t f.path text).1
          (told ++ (writeFile env t f.path text).2)
        exact ⟨by simpa using hfold, hok⟩

/-! ## Whole runs -/

/-- A run under a renderer, from its preparation on: files are saved after all else. -/
def runAllBy (e : Engine) (render : Renderer) (sweep : Sweep) (t : FileTree)
    (switches : Switches) (processors : Nat) (mode : RunMode) (path : Option Path)
    (projects : List Project) : Ended :=
  match e.openPrepared t switches mode
      (e.prepareBy render t mode path { cache := e.cache } projects) with
  | .error ended => ended
  | .ok r =>
    let (r, result) := r.passLoop (sweep (e.workerCount processors r.projects)) maxPasses
    let o := e.close t mode.unsaved r result
    if mode.autoSave then o.savedBy render e.environment else o

/-- Runs the add-ins over projects whose files have models of any kind. -/
def runRendering (e : Engine) (render : Renderer) (sweep : Sweep) (t : FileTree)
    (switches : Switches) (processors : Nat) (mode : RunMode) (settingsPath : Option String)
    (projects : List Project) : RunOutcome :=
  if settingsPath.any fun p => (trimBlanks p).isEmpty then
    { engine := e, files := t, projects, result := .error .invalidSettingsPath }
  else if e.analyzing then
    { engine := e, files := t, projects, result := .error .alreadyAnalyzing }
  else e.outcomeOf
    (e.busy.runAllBy render sweep t switches processors mode (settingsPath.map Path.mk) projects)

/-- **Files are saved after all else**, and only by runs that are to save them. -/
theorem close_eq_savedBy (e : Engine) (t : FileTree) (mode : RunMode) (r : Run)
    (result : Except AddInError PassResult) :
    e.close t mode r result =
      if mode.autoSave then (e.close t mode.unsaved r result).savedBy .plain e.environment
      else e.close t mode.unsaved r result := by
  cases hsave : mode.autoSave with
  | false =>
    simp only [close, hsave, RunMode.unsaved]
    rfl
  | true =>
    simp only [close, hsave, RunMode.unsaved]
    cases (callAll (fun a p => a.after p r.switches) (participants e.registry)).result with
    | error crash => rfl
    | ok _ =>
      cases result with
      | error cause => rfl
      | ok res =>
        simp only [Ended.savedBy, saveBy_plain, Bool.false_eq_true, ↓reduceIte, List.append_nil]

theorem runAllBy_plain (e : Engine) (sweep : Sweep) (t : FileTree) (switches : Switches)
    (processors : Nat) (mode : RunMode) (path : Option Path) (projects : List Project) :
    e.runAllBy .plain sweep t switches processors mode path projects =
      e.runAll sweep t switches processors mode path projects := by
  simp only [runAllBy, runAll, opening, prepareBy_plain]
  cases e.openPrepared t switches mode (e.prepare t mode path { cache := e.cache } projects) with
  | error ended => rfl
  | ok r => exact (close_eq_savedBy ..).symm

/-- **Under the models of text files a run is one of `Engine.runWith`.** -/
theorem runRendering_plain (e : Engine) (sweep : Sweep) (t : FileTree) (switches : Switches)
    (processors : Nat) (mode : RunMode) (settingsPath : Option String) (projects : List Project) :
    e.runRendering .plain sweep t switches processors mode settingsPath projects =
      e.runWith sweep t switches processors mode settingsPath projects := by
  simp only [runRendering, runWith, runAllBy_plain]
  rfl

end Engine

end StyleEngine
