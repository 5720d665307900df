import StyleEngine.CommandLine.Basic

/-! # The program

Reads the files that a call may need, does what it asks for, and writes the files
that have changed.
-/
namespace StyleEngine

namespace Main

/-- The names that lead to the place of an absolute path. -/
def locationOf (text : String) : Location :=
  (Path.mk text).components.filterMap fun
    | .name n => some n
    | _ => none

def pathText (l : Location) : String := "/" ++ "/".intercalate l

/-- The names in a directory. -/
def entriesOf (place : String) : IO (List String) := do
  let directory ← IO.FS.realPath place
  return (← directory.readDir).toList.map fun entry => entry.fileName

/-- Adds the files and directories at a place to a tree, at most `depth` levels down. -/
def readInto : Nat → FileTree → Location → IO FileTree
  | 0, t, _ => return t
  | depth + 1, t, l => do
    match ← (IO.FS.readBinFile (pathText l)).toBaseIO with
    | .ok bytes => return t.put l (.file (Content.ofBytes bytes))
    | .error _ =>
      match ← (entriesOf (pathText l)).toBaseIO with
      | .error _ => return t
      | .ok names =>
        let mut tree := t.put l .directory
        for name in names do
          tree ← readInto depth tree (l ++ [name])
        return tree

/-- The tree with directories above a place. -/
def putAbove (t : FileTree) (l : Location) : FileTree :=
  (List.range l.length).foldl (fun t n => t.put (l.take n) .directory) t

/-- The places outside of the working directory where a call may look for files. -/
def userPlaces (env : CommandLine.Surroundings) : List Location :=
  let directories := [CommandLine.userDirectory? env "XDG_CONFIG_HOME" ".config",
    CommandLine.userDirectory? env "XDG_CACHE_HOME" ".cache"]
  let places := directories.map (·.map fun d => d.join ⟨"stylecheck"⟩) ++
    [(CommandLine.home? env).map fun h => h.join ⟨".stylecheck"⟩]
  ((places.filterMap id).filter Path.isAbsolute).map fun p => locationOf p.text

/-- How deep directories are read. -/
def maxDepth : Nat := 32

/-- The variables that a call heeds. -/
def variableNames : List String :=
  ["HOME", "XDG_CONFIG_HOME", "XDG_CACHE_HOME", "NO_COLOR", "CLICOLOR", "CLICOLOR_FORCE",
    "STYLECHECK_HOST_KEY"]

def readVariables : List String → IO (List (String × String))
  | [] => return []
  | name :: rest => do
    let more ← readVariables rest
    match ← IO.getEnv name with
    | some value => return (name, value) :: more
    | none => return more

/-- Whether a file has another content than before. -/
def hasChanged (before : FileTree) (l : Location) (c : Content) : Bool :=
  match before.node? l, c with
  | some (.file (.text old)), .text new => old != new
  | some (.file (.bytes old)), .bytes new => old != new
  | _, _ => true

/-- Writes the files that have changed. -/
def writeChanges (before : FileTree) : List (Location × Node) → IO Unit
  | [] => return ()
  | (_, .directory) :: rest => writeChanges before rest
  | (l, .file c) :: rest => do
    if hasChanged before l c then
      IO.FS.createDirAll (pathText l.dropLast)
      match c with
      | .text s => IO.FS.writeFile (pathText l) s
      | .bytes b => IO.FS.writeBinFile (pathText l) b
    writeChanges before rest

end Main

end StyleEngine

open StyleEngine in
def main (args : List String) : IO UInt32 := do
  let bindings ← Main.readVariables Main.variableNames
  let here := Main.locationOf (← IO.currentDir).toString
  let output ← IO.getStdout
  let env : CommandLine.Surroundings := { bindings, terminal := ← output.isTty }
  let mut tree ← Main.readInto Main.maxDepth { workingDirectory := here } here
  for place in Main.userPlaces env do
    tree ← Main.readInto Main.maxDepth (Main.putAbove tree place) place
  let ended := CommandLine.execute args env tree
  Main.writeChanges tree ended.files.nodes
  output.putStr ended.stdout
  (← IO.getStderr).putStr ended.stderr
  return UInt32.ofNat ended.code
