import StyleEngine.Settings.Basic
import StyleEngine.SourceFile

/-! # Projects

A project is a list of files that share a root directory, a set of configuration
flags and settings.  The settings are read when the project is first run.
-/
namespace StyleEngine

/-- What a project is apart from its files. -/
structure ProjectInfo where
  name : String := ""
  root : Path := ⟨""⟩
  /-- Configuration flags, in ascending order and without repetition. -/
  flags : List String := []
  /-- Whether results may go to the cache. -/
  writeCache : Bool := true
deriving DecidableEq

namespace ProjectInfo

/-- Puts a flag into its place in a sorted list of flags. -/
def insertFlag (flag : String) : List String → List String
  | [] => [flag]
  | f :: rest =>
    if flag < f then flag :: f :: rest
    else if flag = f then f :: rest
    else f :: insertFlag flag rest

def withFlags (info : ProjectInfo) (flags : List String) : ProjectInfo :=
  { info with flags := flags.foldl (fun fs f => insertFlag f fs) info.flags }

/-- The flags as one text. -/
def fingerprint (info : ProjectInfo) : String := ";".intercalate info.flags

end ProjectInfo

/-- Files that are analyzed together. -/
structure Project extends ProjectInfo where
  files : List SourceFile := []
  settings : Option Settings := none

namespace Project

/-- The file at a path. -/
def file? (p : Project) (path : Path) : Option SourceFile := p.files.find? (·.path.sameAs path)

/-- The settings a project is run under, which are empty until they are read. -/
def effectiveSettings (p : Project) : Settings := p.settings.getD {}

/-- The violations recorded on the files, file after file. -/
def violations (p : Project) : List Violation := p.files.flatMap SourceFile.violations

def isComplete (p : Project) : Bool := p.files.all SourceFile.done

def modifyFile (p : Project) (i : Nat) (g : SourceFile → SourceFile) : Project :=
  { p with files := p.files.modify i g }

def reset (p : Project) : Project := { p with files := p.files.map SourceFile.reset }

end Project

end StyleEngine
