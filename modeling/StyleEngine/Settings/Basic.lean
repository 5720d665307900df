import StyleEngine.Digest
import StyleEngine.Severity

/-! # Settings

What a project decides about its analysis: how the engine runs, which rules are
on, how grave they are, where they do not apply, and which add-ins take part.
The maps are lists of pairs in ascending order of their keys.
-/
namespace StyleEngine

/-- How the engine runs. -/
structure EngineSettings where
  /-- The number of workers; zero leaves it to the machine. -/
  jobs : Nat := 0
  singleWorker : Bool := false
  writeCache : Bool := true
deriving DecidableEq

/-- Which rules are on, how grave they are and where they do not apply. -/
structure RuleSettings where
  disabled : List String := []
  enabled : List String := []
  /-- Starts of rule names that are switched off, in any case. -/
  ignore : List String := []
  severity : List (String × Severity) := []
  /-- Rules that do not apply to the files of a glob. -/
  perFile : List (String × List String) := []
deriving DecidableEq

/-- The settings of a project. -/
structure Settings where
  /-- The files that these settings build on. -/
  bases : List String := []
  engine : EngineSettings := {}
  rules : RuleSettings := {}
  /-- Whether an add-in is on. -/
  addins : List (String × Bool) := []
deriving DecidableEq, Inhabited

namespace EngineSettings

def read? {ν : Type} [DataNode ν] (n : ν) : Option EngineSettings :=
  (Record.row? ["jobs", "single_worker", "write_cache"] n).bind fun row => do
    let jobs ← Record.orElse row "jobs" 0 (Record.countUpTo Record.maxCount)
    let singleWorker ← Record.orElse row "single_worker" false DataNode.flag?
    let writeCache ← Record.orElse row "write_cache" true DataNode.flag?
    return { jobs, singleWorker, writeCache }

def toJson (e : EngineSettings) : Json :=
  .obj [("jobs", .nat e.jobs), ("single_worker", .bool e.singleWorker),
    ("write_cache", .bool e.writeCache)]

end EngineSettings

/-- A list of texts as JSON. -/
def Json.ofTexts (ss : List String) : Json := .arr (ss.map .str)

namespace RuleSettings

def read? {ν : Type} [DataNode ν] (n : ν) : Option RuleSettings :=
  (Record.row? ["disabled", "enabled", "ignore", "severity", "per_file"] n).bind fun row => do
    let disabled ← Record.orElse row "disabled" [] (Record.list DataNode.text?)
    let enabled ← Record.orElse row "enabled" [] (Record.list DataNode.text?)
    let ignore ← Record.orElse row "ignore" [] (Record.list DataNode.text?)
    let severity ← Record.orElse row "severity" [] (Record.map Severity.read?)
    let perFile ← Record.orElse row "per_file" [] (Record.map (Record.list DataNode.text?))
    return { disabled, enabled, ignore, severity, perFile }

def toJson (r : RuleSettings) : Json :=
  .obj [("disabled", Json.ofTexts r.disabled), ("enabled", Json.ofTexts r.enabled),
    ("ignore", Json.ofTexts r.ignore),
    ("severity", .obj (r.severity.map fun e => (e.1, .str e.2.name))),
    ("per_file", .obj (r.perFile.map fun e => (e.1, Json.ofTexts e.2)))]

end RuleSettings

namespace Settings

/-- The switch of one add-in. -/
def readSwitch? {ν : Type} [DataNode ν] (n : ν) : Option Bool :=
  (Record.row? ["enabled"] n).bind fun row => Record.orElse row "enabled" true DataNode.flag?

def read? {ν : Type} [DataNode ν] (n : ν) : Option Settings :=
  (Record.row? ["extends", "engine", "rules", "addins"] n).bind fun row => do
    let bases ← Record.orElse row "extends" [] (Record.list DataNode.text?)
    let engine ← Record.orElse row "engine" {} EngineSettings.read?
    let rules ← Record.orElse row "rules" {} RuleSettings.read?
    let addins ← Record.orElse row "addins" [] (Record.map readSwitch?)
    return { bases, engine, rules, addins }

def toJson (s : Settings) : Json :=
  .obj [("extends", Json.ofTexts s.bases), ("engine", s.engine.toJson),
    ("rules", s.rules.toJson),
    ("addins", .obj (s.addins.map fun e => (e.1, .obj [("enabled", .bool e.2)])))]

/-- The digest of the settings' compact JSON, by which results are known to be theirs. -/
def digest (s : Settings) : String := Digest.ofText s.toJson.compact

/-- Reads settings in a format. -/
def parse? (f : DataFormat) (text : String) : Option Settings :=
  f.read? (fun _ => read?) text

/-! ### Layers -/

/-- Adds rules for a glob to those it has. -/
def appendSorted (k : String) (v : List String) :
    List (String × List String) → List (String × List String)
  | [] => [(k, v)]
  | (k', v') :: rest =>
    if k < k' then (k, v) :: (k', v') :: rest
    else if k = k' then (k', v' ++ v) :: rest
    else (k', v') :: appendSorted k v rest

/-- Puts a layer on top of another: lists grow, entries of maps are replaced, and the layer
always decides about the cache. -/
def merge (base layer : Settings) : Settings where
  bases := base.bases
  engine :=
    { jobs := if layer.engine.jobs ≠ 0 then layer.engine.jobs else base.engine.jobs
      singleWorker := base.engine.singleWorker || layer.engine.singleWorker
      writeCache := layer.engine.writeCache }
  rules :=
    { disabled := base.rules.disabled ++ layer.rules.disabled
      enabled := base.rules.enabled ++ layer.rules.enabled
      ignore := base.rules.ignore ++ layer.rules.ignore
      severity :=
        layer.rules.severity.foldl (fun m e => Record.insertSorted e.1 e.2 m) base.rules.severity
      perFile := layer.rules.perFile.foldl (fun m e => appendSorted e.1 e.2 m) base.rules.perFile }
  addins := layer.addins.foldl (fun m e => Record.insertSorted e.1 e.2 m) base.addins

end Settings

end StyleEngine
