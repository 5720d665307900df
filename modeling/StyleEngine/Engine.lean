import StyleEngine.Environment
import StyleEngine.Registry.Modules
import StyleEngine.Run.Passes

/-! # The engine

An engine loads add-ins and runs them over projects.  Of runs there is one at a
time; it prepares the projects, tells the add-ins that it begins, makes its
passes, tells the add-ins that it is over, saves the cache and, if it is to,
the fixed files.
-/
namespace StyleEngine

structure EngineOptions where
  /-- The number of workers; zero leaves it to settings and machine. -/
  jobs : Nat := 0
  singleWorker : Bool := false
  /-- The key of modules that the host trusts. -/
  hostKey : List UInt8 := []

def EngineOptions.describe (o : EngineOptions) : String :=
  "EngineOptions \x7b jobs: " ++ toString o.jobs ++ ", single_worker: " ++
    toString o.singleWorker ++ ", host_key: [" ++
    ", ".intercalate (o.hostKey.map fun b => toString b.toNat) ++ "] \x7d"

/-- Why an engine refused or gave up. -/
inductive EngineError where
  | alreadyAnalyzing
  | invalidSettingsPath
  | exhausted (message : String)
  | addIn (e : AddInError)

namespace EngineError

def message : EngineError → String
  | .alreadyAnalyzing => "An analysis run is already in progress"
  | .invalidSettingsPath => "Settings path must not be empty"
  | .exhausted m => "Resources exhausted: " ++ m
  | .addIn e => "Add-in error: " ++ e.message

/-- A failure to load or register add-ins. -/
def ofAddIn : AddInError → EngineError
  | .exhausted m => .exhausted m
  | e => .addIn e

end EngineError

/-- What a run is to do. -/
structure RunMode where
  /-- Whether cached results are not to be used. -/
  full : Bool := false
  autoFix : Bool := false
  /-- Whether fixed files are to be written. -/
  autoSave : Bool := false

/-- An engine between runs, or in one. -/
structure Engine where
  options : EngineOptions := {}
  registry : Registry := .withBuiltins
  environment : Environment := {}
  cache : Option Cache := none
  cancelled : Bool := false
  analyzing : Bool := false

namespace Engine

def describe (e : Engine) : String :=
  "Engine \x7b options: " ++ e.options.describe ++ ", addins: " ++ toString e.registry.size ++
    ", analyzing: " ++ toString e.analyzing ++ ", .. \x7d"

/-! ### Add-ins -/

/-- An engine after add-ins were loaded or registered. -/
structure Change (α : Type) where
  engine : Engine
  events : List Event := []
  result : Except EngineError α

/-- The engine with what add-ins asked of it. -/
def heed (e : Engine) (events : List Event) : Engine :=
  { e with cancelled := e.cancelled || events.any Event.isCancel }

/-- Loads the add-ins of one directory, which may be one that the user asked for. -/
def loadDirectory (t : FileTree) (switches : Switches) (hostKey : List UInt8) (path : Path)
    (explicit : Bool) (r : Registry) : Loading :=
  if !t.isDirectory path then
    { registry := r
      events := if explicit then
        [.output (.warning ("Add-in path " ++ path.text ++ " is not a directory"))] else [] }
  else
    let s := r.loadAll t switches path hostKey
    let told := match s.result with
      | .ok report => report.skipped.map fun (module, reason) =>
        Event.output (.info ("Skipped add-in module " ++ module.text ++ ": " ++ reason))
      | .error _ => []
    { s with events := s.events ++ told }

/-- Loads the add-ins of some directories, then possibly those of the default ones, and wires
analyzers to their parsers. -/
def loadAddIns (e : Engine) (t : FileTree) (switches : Switches) (paths : List Path)
    (defaults : Bool) : Change LoadReport :=
  let all := paths.map (·, true) ++
    if defaults then e.environment.searchPaths.map (·, false) else []
  let s := all.foldl (fun s (path, explicit) =>
    s.andThen (loadDirectory t switches e.options.hostKey path explicit))
    ({ registry := e.registry } : Loading)
  let e := { e with registry := s.registry }.heed s.events
  match s.result with
  | .error cause => { engine := e, events := s.events, result := .error (.ofAddIn cause) }
  | .ok report =>
    { engine := { e with registry := e.registry.wire }, events := s.events, result := .ok report }

/-- An engine after a registration. -/
def registered (e : Engine) (r : Reaction AddInError (Bool × Registry)) : Change Bool :=
  let e := e.heed r.events
  match r.result with
  | .error cause => { engine := e, events := r.events, result := .error (.ofAddIn cause) }
  | .ok (isNew, registry) =>
    { engine := { e with registry := registry.wire }, events := r.events, result := .ok isNew }

def registerParser (e : Engine) (switches : Switches) (parser : Parser)
    (ds : List InitDescriptor) (trusted : Bool) : Change Bool :=
  e.registered (e.registry.registerParser switches parser ds trusted)

def registerAnalyzer (e : Engine) (switches : Switches) (analyzer : Analyzer)
    (ds : List InitDescriptor) (trusted : Bool) : Change Bool :=
  e.registered (e.registry.registerAnalyzer switches analyzer ds trusted)

/-! ### Preparing projects -/

/-- Projects that are ready for a run, as far as they could be prepared. -/
structure Prepared where
  projects : List Project := []
  statuses : List ProjectStatus := []
  cache : Option Cache := none

/-- The status of a project under its settings. -/
def statusOf (cache : Option Cache) (mode : RunMode) (p : Project) (s : Settings) :
    ProjectStatus :=
  { ignoreCache := match cache with
      | some c => mode.full || !c.isProjectValid p.toProjectInfo s.digest
      | none => true
    writeCache := p.writeCache && s.engine.writeCache
    settingsDigest := s.digest }

/-- Prepares a project whose settings are known. -/
def prepareUnder (mode : RunMode) (done : Prepared) (p : Project) (s : Settings) : Prepared :=
  let status := statusOf done.cache mode p s
  { projects := done.projects ++ [{ p with settings := some s }.reset]
    statuses := done.statuses ++ [status]
    cache := if status.writeCache then
        done.cache.map fun c => c.saveProject p.toProjectInfo s.digest
      else done.cache }

/-- The settings of a project, read at its first run. -/
def settingsOf (e : Engine) (t : FileTree) (path : Option Path) (p : Project) :
    Except SettingsError Settings :=
  match p.settings with
  | some s => .ok s
  | none => e.environment.settingsFor t p.toProjectInfo path

/-- Prepares projects one after the other.  If the settings of one cannot be read, it and those
after it stay as they are. -/
def prepare (e : Engine) (t : FileTree) (mode : RunMode) (path : Option Path) :
    Prepared → List Project → Prepared × Except String Unit
  | done, [] => (done, .ok ())
  | done, p :: ps =>
    match e.settingsOf t path p with
    | .error cause =>
      ({ done with projects := done.projects ++ p :: ps },
        .error ("Failed to load settings for " ++ p.name ++ ": " ++ cause.message))
    | .ok s => prepare e t mode path (prepareUnder mode done p s) ps

/-- The number of workers: one in single-worker mode, else what options or settings say, else
that of the machine, which is at least two. -/
def workerCount (e : Engine) (processors : Nat) (projects : List Project) : Nat :=
  let settings := projects.filterMap Project.settings
  if e.options.singleWorker || settings.any (·.engine.singleWorker) then 1
  else if e.options.jobs > 0 then e.options.jobs
  else ((settings.map (·.engine.jobs)).find? (· > 0)).getD (max processors 2)

/-! ### Running -/

/-- The add-ins that take part in runs: each parser and then its analyzers. -/
def participants (r : Registry) : List (AddIn × Profile) :=
  r.parsers.flatMap fun e =>
    (e.parser.toAddIn, e.profile) ::
      (r.analyzersOf e.parser.id).map fun a => (a.analyzer.toAddIn, a.profile)

/-- Calls add-ins one after the other, until one crashes. -/
def callAll (call : AddIn → Profile → Reaction Crash Unit) :
    List (AddIn × Profile) → Reaction Crash Unit
  | [] => .ok ()
  | (a, p) :: rest => (call a p).andThen fun _ => callAll call rest

/-- Writes a text to a file.  If that cannot be done, it is told of. -/
def writeFile (env : Environment) (t : FileTree) (path : Path) (text : String) :
    FileTree × List Event :=
  match env.writeSource t path text with
  | .ok t => (t, [.saving path text])
  | .error e =>
    (t, [.saving path text,
      .output (.warning ("Failed to write " ++ path.text ++ ": " ++ e.message))])

/-- Writes the files that fixes have changed. -/
def saveFixed (env : Environment) (t : FileTree) (files : List SourceFile) :
    FileTree × List Event :=
  files.foldl (fun (t, told) f =>
    if !f.modified then (t, told)
    else match f.sourceText? with
      | none => (t, told)
      | some text => ((writeFile env t f.path text).1, told ++ (writeFile env t f.path text).2))
    (t, [])

/-- Why a run did not end normally. -/
inductive RunFailure where
  | exhausted (message : String)
  | failed (message : String)

def RunFailure.ofAddIn (e : AddInError) : RunFailure :=
  if e.isExhaustion then .exhausted e.message else .failed e.message

/-- A run that is over, and what it left. -/
structure Ended where
  projects : List Project
  cache : Option Cache
  files : FileTree
  events : List Event := []
  tally : Tally := {}
  result : Except RunFailure PassResult

/-- Saves the cache.  A failure to do so is told of. -/
def flushCache (cache : Option Cache) (t : FileTree) : Option Cache × FileTree × List Event :=
  match cache with
  | none => (none, t, [])
  | some c =>
    match c.flush t with
    | (c, t, .ok ()) => (some c, t, [])
    | (c, t, .error e) =>
      (some c, t,
        [.output (.warning ("Failed to write cache: " ++ Cache.faultMessage e))])

/-- Ends a run after its passes. -/
def close (e : Engine) (t : FileTree) (mode : RunMode) (r : Run)
    (result : Except AddInError PassResult) : Ended :=
  let closing := callAll (fun a p => a.after p r.switches) (participants e.registry)
  match closing.result with
  | .error crash =>
    { projects := r.projects, cache := r.cache, files := t, tally := r.tally
      events := r.events ++ closing.events, result := .error (.failed crash.message) }
  | .ok () =>
    let (cache, t, told) := flushCache r.cache t
    let events := r.events ++ closing.events ++ told
    match result with
    | .error cause =>
      { projects := r.projects, cache, files := t, tally := r.tally, events
        result := .error (.ofAddIn cause) }
    | .ok result =>
      let (t, saved) := if mode.autoSave then
          saveFixed e.environment t (r.projects.flatMap Project.files) else (t, [])
      { projects := r.projects, cache, files := t, tally := r.tally
        events := events ++ saved, result := .ok result }

/-- The run over prepared projects, after the add-ins were told of it. -/
def begin (e : Engine) (switches : Switches) (mode : RunMode) (ready : Prepared)
    (told : List Event) : Run :=
  { Run.start ready.projects ready.statuses mode.autoFix (told.any Event.isCancel) with
    registry := e.registry, switches, cache := ready.cache, events := told }

/-- Tells the add-ins that a run over prepared projects begins.  If projects could not be prepared
or an add-in breaks down, the run is over. -/
def openPrepared (e : Engine) (t : FileTree) (switches : Switches) (mode : RunMode) :
    Prepared × Except String Unit → Except Ended Run
  | (ready, .error message) =>
    .error { projects := ready.projects, cache := ready.cache, files := t
             result := .error (.failed message) }
  | (ready, .ok ()) =>
    let begun := callAll (fun a p => a.before p switches) (participants e.registry)
    match begun.result with
    | .error crash =>
      .error { projects := ready.projects, cache := ready.cache, files := t
               events := begun.events, result := .error (.failed crash.message) }
    | .ok () => .ok (e.begin switches mode ready begun.events)

/-- Prepares projects and tells the add-ins that a run begins. -/
def opening (e : Engine) (t : FileTree) (switches : Switches) (mode : RunMode)
    (path : Option Path) (projects : List Project) : Except Ended Run :=
  e.openPrepared t switches mode (e.prepare t mode path { cache := e.cache } projects)

/-- A run from its preparation on. -/
def runAll (e : Engine) (sweep : Sweep) (t : FileTree) (switches : Switches) (processors : Nat)
    (mode : RunMode) (path : Option Path) (projects : List Project) : Ended :=
  match e.opening t switches mode path projects with
  | .error ended => ended
  | .ok r =>
    let (r, result) := r.passLoop (sweep (e.workerCount processors r.projects)) maxPasses
    e.close t mode r result

/-- An engine while it carries out a run. -/
def busy (e : Engine) : Engine := { e with analyzing := true, cancelled := false }

/-- What a run was given back. -/
structure RunOutcome where
  engine : Engine
  files : FileTree
  projects : List Project
  events : List Event := []
  result : Except EngineError RunSummary

/-- The summary of a run that is over.  A failure other than exhausted resources is a violation
outside of any file. -/
def conclude (o : Ended) : List Event × Except EngineError RunSummary :=
  match o.result with
  | .error (.exhausted message) => ([], .error (.exhausted message))
  | .error (.failed message) =>
    let v := Violation.exception message
    ([.violation v], .ok (.collect o.projects [v]))
  | .ok pass =>
    ([], .ok { RunSummary.collect o.projects [] with
      passes := pass.passes
      cancelled := pass.cancelled
      converged := pass.converged
      filesAnalyzed := o.tally.analyzed
      filesCached := o.tally.cached
      fixesApplied := o.tally.fixes })

/-- Runs the add-ins over projects, under the settings at a path if one is given.  Passes are
carried out as `sweep` says. -/
def runWith (e : Engine) (sweep : Sweep) (t : FileTree) (switches : Switches) (processors : Nat)
    (mode : RunMode) (settingsPath : Option String) (projects : List Project) : RunOutcome :=
  if settingsPath.any fun p => (trimBlanks p).isEmpty then
    { engine := e, files := t, projects, result := .error .invalidSettingsPath }
  else if e.analyzing then
    { engine := e, files := t, projects, result := .error .alreadyAnalyzing }
  else
    let o := e.busy.runAll sweep t switches processors mode (settingsPath.map Path.mk) projects
    let (told, result) := conclude o
    { engine := { e with
        cache := o.cache, analyzing := false, cancelled := o.events.any Event.isCancel }
      files := o.files
      projects := o.projects
      events := o.events ++ told
      result }

/-- Runs the add-ins over projects, one worker after the other. -/
def run (e : Engine) (t : FileTree) (switches : Switches) (processors : Nat) (mode : RunMode)
    (settingsPath : Option String) (projects : List Project) : RunOutcome :=
  e.runWith Sweep.oneByOne t switches processors mode settingsPath projects

end Engine

end StyleEngine
