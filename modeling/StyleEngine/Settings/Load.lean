import StyleEngine.FileTree
import StyleEngine.Settings.Basic

/-! # Settings files

A settings file may name others that it builds on; they are read first, in
order, each with what it builds on itself, and the file's own settings come on
top.  A chain of more than ten files is refused.
-/
namespace StyleEngine

/-- Why settings could not be loaded. -/
inductive SettingsError where
  | file (fault : FileFault)
  | yaml
  | json
  | unknownFormat (extension : String)
  | tooDeep

namespace SettingsError

/-- The wording of a failure.  Whatever is wrong with a text that is no settings document, the
complaint about it has the same wording. -/
def message : SettingsError → String
  | .file fault => "IO error: " ++ fault.message
  | .yaml => "YAML parse error: not a settings document"
  | .json => "JSON parse error: not a settings document"
  | .unknownFormat ext => "Invalid settings: Unknown settings file format: " ++ ext
  | .tooDeep => "Invalid settings: Maximum settings inheritance depth exceeded"

end SettingsError

namespace Settings

/-- How many files a chain of settings may have. -/
def maxDepth : Nat := 10

/-- The names of settings files in a project's root, in order of preference. -/
def fileNames : List String := [".stylecheck.yaml", ".stylecheck.yml", ".stylecheck.json"]

/-- Reads one settings file. -/
def readFile (t : FileTree) (p : Path) : Except SettingsError Settings :=
  match t.readText p with
  | .error e => .error (.file e)
  | .ok text =>
    let ext := p.extension?.getD ""
    if ext = "yaml" ∨ ext = "yml" then
      match parse? .yaml text with
      | some s => .ok s
      | none => .error .yaml
    else if ext = "json" then
      match parse? .json text with
      | some s => .ok s
      | none => .error .json
    else .error (.unknownFormat ext)

/-- Where a file that settings at `p` build on lies. -/
def basePath (p : Path) (base : String) : Path :=
  if (Path.mk base).isAbsolute then ⟨base⟩ else (p.parent?.getD ⟨"."⟩).join ⟨base⟩

/-- Loads settings from a file in a chain of at most `depth` files. -/
def loadWithin (t : FileTree) : Nat → Path → Except SettingsError Settings
  | 0, _ => .error .tooDeep
  | depth + 1, p =>
    match readFile t p with
    | .error e => .error e
    | .ok s =>
      if s.bases.isEmpty then .ok s
      else
        let below := s.bases.foldlM (fun acc base =>
          match loadWithin t depth (basePath p base) with
          | .error e => Except.error e
          | .ok layer => .ok (acc.merge layer)) ({} : Settings)
        match below with
        | .error e => .error e
        | .ok acc => .ok (acc.merge s)

/-- Loads settings from a file and those it builds on. -/
def load (t : FileTree) (p : Path) : Except SettingsError Settings := loadWithin t maxDepth p

/-- The settings file in a project's root. -/
def discover? (t : FileTree) (root : Path) : Option Path :=
  (fileNames.map fun n => root.join ⟨n⟩).find? t.isFile

end Settings

end StyleEngine
