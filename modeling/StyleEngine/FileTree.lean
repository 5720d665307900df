import StyleEngine.Path

/-! # File trees

A file tree holds files and directories by their location, the list of names
that leads to them from the root, and a working directory that relative paths
start from.  A path is resolved segment by segment, so `sub/../a` needs `sub` to
be a directory.  Failures are causes (`FileFault`) with one wording each.
-/
namespace StyleEngine

/-- Why a file operation failed. -/
inductive FileFault where
  | notFound
  | notDirectory
  | isDirectory
  | alreadyExists
  | notText
deriving DecidableEq

/-- The wording of a failure. -/
def FileFault.message : FileFault → String
  | .notFound => "No such file or directory (os error 2)"
  | .notDirectory => "Not a directory (os error 20)"
  | .isDirectory => "Is a directory (os error 21)"
  | .alreadyExists => "File exists (os error 17)"
  | .notText => "stream did not contain valid UTF-8"

/-- What a file holds: a text, or bytes that are none. -/
inductive Content where
  | text (s : String)
  | bytes (b : ByteArray)

/-- Bytes as a text where they are the encoding of one. -/
def Content.ofBytes (b : ByteArray) : Content :=
  match String.fromUTF8? b with
  | some s => .text s
  | none => .bytes b

/-- An inhabitant of a file tree. -/
inductive Node where
  | file (content : Content)
  | directory

/-- The names that lead from the root to a file or directory. -/
abbrev Location := List String

/-- Files and directories by location. -/
structure FileTree where
  nodes : List (Location × Node) := []
  workingDirectory : Location := ["work"]

namespace FileTree

/-- The node at a location; the root and the working directory with all above it are always
directories. -/
def node? (t : FileTree) (l : Location) : Option Node :=
  if l.isPrefixOf t.workingDirectory then some .directory
  else t.nodes.lookup l

/-- The tree with a node put at a location. -/
def put (t : FileTree) (l : Location) (n : Node) : FileTree :=
  { t with nodes := t.nodes.filter (fun e => e.1 != l) ++ [(l, n)] }

/-- The tree without the node at a location. -/
def erase (t : FileTree) (l : Location) : FileTree :=
  { t with nodes := t.nodes.filter fun e => e.1 != l }

/-- Follows the segments of a path from a location.  The last name may lead nowhere; then the
result is where it would lead. -/
def follow (t : FileTree) (l : Location) : List String → Except FileFault Location
  | [] => .ok l
  | s :: rest =>
    match t.node? l with
    | none => .error .notFound
    | some (.file _) => .error .notDirectory
    | some .directory =>
      if s = "" ∨ s = "." then follow t l rest
      else if s = ".." then follow t l.dropLast rest
      else follow t (l ++ [s]) rest

/-- The location a path leads to. -/
def resolve (t : FileTree) (p : Path) : Except FileFault Location :=
  if p.text.isEmpty then .error .notFound
  else
    t.follow (if p.isAbsolute then [] else t.workingDirectory)
      (p.segments.map fun s => String.ofList s.1)

/-- The node a path leads to. -/
def find (t : FileTree) (p : Path) : Except FileFault Node :=
  match t.resolve p with
  | .error e => .error e
  | .ok l =>
    match t.node? l with
    | some n => .ok n
    | none => .error .notFound

def exists? (t : FileTree) (p : Path) : Bool := (t.find p).isOk

def isFile (t : FileTree) (p : Path) : Bool :=
  match t.find p with
  | .ok (.file _) => true
  | _ => false

def isDirectory (t : FileTree) (p : Path) : Bool :=
  match t.find p with
  | .ok .directory => true
  | _ => false

/-- What the file at a path holds. -/
def read (t : FileTree) (p : Path) : Except FileFault Content :=
  match t.find p with
  | .error e => .error e
  | .ok .directory => .error .isDirectory
  | .ok (.file c) => .ok c

/-- The text of the file at a path. -/
def readText (t : FileTree) (p : Path) : Except FileFault String :=
  match t.read p with
  | .error e => .error e
  | .ok (.text s) => .ok s
  | .ok (.bytes _) => .error .notText

/-- Whether a path ends with a separator, and so can only lead to a directory. -/
def endsOpen (p : Path) : Bool :=
  match p.text.toList.getLast? with
  | some '/' => true
  | _ => false

/-- Writes a file, which may exist already; its directory must. -/
def write (t : FileTree) (p : Path) (c : Content) : Except FileFault FileTree :=
  match t.resolve p with
  | .error e => if endsOpen p && e == .notFound then .error .isDirectory else .error e
  | .ok l =>
    match t.node? l with
    | some .directory => .error .isDirectory
    | some (.file _) => .ok (t.put l (.file c))
    | none =>
      match t.node? l.dropLast with
      | some .directory => .ok (t.put l (.file c))
      | some (.file _) => .error .notDirectory
      | none => .error .notFound

/-- Makes one directory, whose parent must exist. -/
def makeDirectory (t : FileTree) (p : Path) : Except FileFault FileTree :=
  match t.resolve ⟨String.ofList (p.text.toList.reverse.dropWhile (· == '/')).reverse⟩ with
  | .error e => if p.isAbsolute && p.components == [.root] then .error .alreadyExists else .error e
  | .ok l =>
    match t.node? l with
    | some _ => .error .alreadyExists
    | none =>
      match t.node? l.dropLast with
      | some .directory => .ok (t.put l .directory)
      | some (.file _) => .error .notDirectory
      | none => .error .notFound

/-- Makes a directory and those above it that are missing; `depth` bounds how many. -/
def makeDirectoriesUpTo (t : FileTree) (p : Path) : Nat → Except FileFault FileTree
  | 0 => .error .notFound
  | depth + 1 =>
    if p.text.isEmpty then .ok t
    else match t.makeDirectory p with
      | .ok t => .ok t
      | .error .notFound =>
        match p.parent? with
        | none => .error .notFound
        | some above =>
          match makeDirectoriesUpTo t above depth with
          | .error e => .error e
          | .ok t =>
            match t.makeDirectory p with
            | .ok t => .ok t
            | .error e => if t.isDirectory p then .ok t else .error e
      | .error e => if t.isDirectory p then .ok t else .error e

/-- Makes a directory and all above it. -/
def makeDirectories (t : FileTree) (p : Path) : Except FileFault FileTree :=
  t.makeDirectoriesUpTo p (p.components.length + 1)

/-- Moves the file at `source` to `target`, over a file that is there. -/
def rename (t : FileTree) (source target : Path) : Except FileFault FileTree :=
  match t.resolve source, t.read source, t.resolve target with
  | .error e, _, _ => .error e
  | _, .error e, _ => .error e
  | _, _, .error e => .error e
  | .ok l, .ok c, .ok m =>
    match t.node? m with
    | some .directory => .error .isDirectory
    | some (.file _) => .ok ((t.erase l).put m (.file c))
    | none =>
      match t.node? m.dropLast with
      | some .directory => .ok ((t.erase l).put m (.file c))
      | some (.file _) => .error .notDirectory
      | none => .error .notFound

/-- Removes the file at a path. -/
def remove (t : FileTree) (p : Path) : Except FileFault FileTree :=
  match t.resolve p, t.find p with
  | .error e, _ => .error e
  | _, .error e => .error e
  | _, .ok .directory => .error .isDirectory
  | .ok l, .ok (.file _) => .ok (t.erase l)

/-- The names in a directory, in ascending order. -/
def names (t : FileTree) (l : Location) : List String :=
  ((t.nodes.filterMap fun e =>
      if e.1.dropLast == l && !e.1.isEmpty then e.1.getLast? else none) ++
    (if l.isPrefixOf t.workingDirectory then
      (t.workingDirectory.drop l.length).take 1 else [])).mergeSort fun a b => a ≤ b

/-- The greatest length of a location in a tree. -/
def depth (t : FileTree) : Nat :=
  t.nodes.foldl (fun n e => max n e.1.length) t.workingDirectory.length

/-- The files at and below a location that a path leads to, at most `depth` levels down.  The
entries of a directory come in the order of their names, each with all below it. -/
def filesWithin (t : FileTree) : Nat → Location → Path → List Path
  | 0, _, _ => []
  | depth + 1, l, p =>
    match t.node? l with
    | none => []
    | some (.file _) => [p]
    | some .directory =>
      (t.names l).flatMap fun n => filesWithin t depth (l ++ [n]) (p.join ⟨n⟩)

/-- The files at and below a path. -/
def filesBelow (t : FileTree) (p : Path) : Except FileFault (List Path) :=
  match t.resolve p, t.find p with
  | .error e, _ => .error e
  | _, .error e => .error e
  | .ok l, .ok _ => .ok (t.filesWithin (t.depth + 1) l p)

end FileTree

end StyleEngine
