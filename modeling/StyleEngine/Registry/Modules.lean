import StyleEngine.Registry.Basic

/-! # Loading modules

Modules are found in a directory tree and loaded one after the other, and so are
the add-ins that each of them declares.  What cannot be loaded is skipped with
the reason; only exhausted resources end the loading.
-/
namespace StyleEngine

/-- What came of loading modules. -/
structure LoadReport where
  /-- The ids of the add-ins that were registered. -/
  loaded : List String := []
  /-- What was skipped, and why. -/
  skipped : List (Path × String) := []

namespace LoadReport

def append (a b : LoadReport) : LoadReport :=
  { loaded := a.loaded ++ b.loaded, skipped := a.skipped ++ b.skipped }

def skip (path : Path) (reason : String) : LoadReport := { skipped := [(path, reason)] }

end LoadReport

/-- The state of loading: the registry so far, and how it ended. -/
structure Loading where
  registry : Registry
  events : List Event := []
  result : Except AddInError LoadReport := .ok {}

namespace Loading

/-- Goes on with a step unless loading has ended. -/
def andThen (s : Loading) (step : Registry → Loading) : Loading :=
  match s.result with
  | .error _ => s
  | .ok report =>
    let t := step s.registry
    { registry := t.registry
      events := s.events ++ t.events
      result := t.result.map report.append }

/-- A step that failed: something skipped, or the end of loading. -/
def failed (r : Registry) (events : List Event) (path : Path) (e : AddInError) : Loading :=
  { registry := r, events,
    result := if e.isExhaustion then .error e else .ok (.skip path e.message) }

end Loading

namespace Registry

/-- Builds a declared add-in by its factory and registers it, unless its id is taken. -/
def declare (r : Registry) (switches : Switches) (spec : AddInSpec) (trusted : Bool) :
    Reaction AddInError (Bool × Registry) :=
  if r.contains spec.id then .ok (false, r)
  else match spec.kind with
    | .parser =>
      match r.parserFactories.lookup spec.factory with
      | none => .error (.unknownFactory spec.factory)
      | some build => (build spec switches).andThen fun p =>
        r.registerParser switches p spec.descriptors trusted
    | .analyzer =>
      match r.analyzerFactories.lookup spec.factory with
      | none => .error (.unknownFactory spec.factory)
      | some build => (build spec switches).andThen fun a =>
        r.registerAnalyzer switches a spec.descriptors trusted

/-- Loads one declared add-in of a module. -/
def loadSpec (switches : Switches) (path : Path) (trusted : Bool) (spec : AddInSpec)
    (r : Registry) : Loading :=
  let reaction := r.declare switches spec trusted
  match reaction.result with
  | .ok (registered, r') =>
    { registry := r', events := reaction.events,
      result := .ok { loaded := if registered then [spec.id] else [] } }
  | .error e => .failed r reaction.events path e

/-- Reads the manifest of a module.  Whatever is wrong with a text that is no manifest, the
complaint about it has the same wording. -/
def readManifest (t : FileTree) (path : Path) : Except AddInError Manifest :=
  match t.readText path with
  | .error e => .error (.file e.message)
  | .ok text =>
    let ext := path.extension?.getD ""
    let format := if ext = "yaml" ∨ ext = "yml" then some DataFormat.yaml
      else if ext = "json" then some DataFormat.json
      else none
    match format with
    | none => .error (.invalid ("Unsupported module format: " ++ ext))
    | some f =>
      match Manifest.parse? f text with
      | some m => .ok m
      | none => .error (.malformed path.text "not a module manifest")

/-- Loads the add-ins of one module.  The host trusts them if the module carries its key. -/
def loadModule (r : Registry) (t : FileTree) (switches : Switches) (path : Path)
    (hostKey : List UInt8) : Loading :=
  match readManifest t path with
  | .error e => { registry := r, result := .error e }
  | .ok m =>
    let trusted := isTrustedKey m.key hostKey
    m.addins.foldl (fun s spec => s.andThen (loadSpec switches path trusted spec))
      { registry := r }

/-- Names of modules that belong to the host. -/
def reservedModules : List String := ["stylecheck", "stylecheck-settings", "stylecheck-cache"]

/-- Whether a file may be a module: settings and rule files lie next to modules. -/
def isModuleCandidate (path : Path) : Bool :=
  ["yaml", "yml", "json"].contains (path.extension?.getD "") &&
    let stem := (path.stem?.getD "").toList
    !(stem.head? == some '.' || "-rules".toList.isSuffixOf stem ||
      reservedModules.contains (String.ofList stem))

/-- Loads a module that was found in a directory. -/
def loadFound (t : FileTree) (switches : Switches) (hostKey : List UInt8) (path : Path)
    (r : Registry) : Loading :=
  let s := r.loadModule t switches path hostKey
  match s.result with
  | .ok _ => s
  | .error e => .failed s.registry s.events path e

/-- Loads every module at and below a path. -/
def loadAll (r : Registry) (t : FileTree) (switches : Switches) (path : Path)
    (hostKey : List UInt8) : Loading :=
  match t.filesBelow path with
  | .error e =>
    { registry := r
      result := .ok (.skip path
        ("IO error for operation on " ++ path.text ++ ": " ++ e.message)) }
  | .ok files =>
    (files.filter isModuleCandidate).foldl
      (fun s file => s.andThen (loadFound t switches hostKey file)) { registry := r }

end Registry

end StyleEngine
