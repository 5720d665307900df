import StyleEngine.Project
import StyleEngine.Settings.Load

/-! # The environment of an engine

Where settings and add-ins come from, and where fixed files go to.
-/
namespace StyleEngine

/-- The settings of a project: those at an explicit path, or those in its root. -/
def Settings.ofProject (t : FileTree) (p : ProjectInfo) (path : Option Path) :
    Except SettingsError Settings :=
  match path with
  | some path => Settings.load t path
  | none =>
    match Settings.discover? t p.root with
    | some path => Settings.load t path
    | none => .ok {}

/-- What an engine is given by its host. -/
structure Environment where
  /-- Where add-ins are looked for by default. -/
  searchPaths : List Path := []
  settingsFor : FileTree → ProjectInfo → Option Path → Except SettingsError Settings :=
    Settings.ofProject
  writeSource : FileTree → Path → String → Except FileFault FileTree :=
    fun t path text => t.write path (.text text)

namespace Environment

/-- The places of add-ins by default: in the working directory, then in the user's
configuration directory and home. -/
def defaultSearchPaths (configDirectory home : Option Path) : List Path :=
  [⟨".stylecheck/addins"⟩, ⟨"addins"⟩] ++
    (configDirectory.map fun d => d.join ⟨"stylecheck/addins"⟩).toList ++
    (home.map fun d => d.join ⟨".stylecheck/addins"⟩).toList

end Environment

end StyleEngine
