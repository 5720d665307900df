/-! # Paths

A path is kept as it was written and is read as a list of components: the root,
a leading `.`, `..` and names.  Repeated separators, a separator at the end and
a `.` inside the path leave no component, so `a//b`, `a/./b` and `a/b/` are the
same path as `a/b` (`Path.sameAs`) though they are shown differently.
-/
namespace StyleEngine

/-- A path, as written. -/
structure Path where
  text : String
deriving DecidableEq, Inhabited

/-- One step of a path. -/
inductive Component where
  | root
  | here
  | up
  | name (text : String)
deriving DecidableEq

namespace Path

/-- A component together with the place where its text starts and stops. -/
structure Placed where
  component : Component
  start : Nat
  stop : Nat

/-- The segments of a text between separators, each with its place; `offset` is where the
text starts and `current` the segment read so far, in reverse. -/
def segmentsFrom (offset : Nat) (current : List Char) : List Char → List (List Char × Nat)
  | [] => [(current.reverse, offset - current.length)]
  | c :: cs =>
    if c = '/' then
      (current.reverse, offset - current.length) :: segmentsFrom (offset + 1) [] cs
    else segmentsFrom (offset + 1) (c :: current) cs

/-- The segments of a path between separators, empty ones included. -/
def segments (p : Path) : List (List Char × Nat) := segmentsFrom 0 [] p.text.toList

/-- What a segment stands for inside a path. -/
def placed? : List Char × Nat → Option Placed
  | ([], _) => none
  | (['.'], _) => none
  | (['.', '.'], start) => some ⟨.up, start, start + 2⟩
  | (cs, start) => some ⟨.name (String.ofList cs), start, start + cs.length⟩

def isAbsolute (p : Path) : Bool :=
  match p.text.toList with
  | '/' :: _ => true
  | _ => false

/-- The components of a path with their places. -/
def placed (p : Path) : List Placed :=
  match p.segments with
  | (['.'], _) :: rest => ⟨.here, 0, 1⟩ :: rest.filterMap placed?
  | segs =>
    if p.isAbsolute then ⟨.root, 0, 1⟩ :: segs.filterMap placed? else segs.filterMap placed?

def components (p : Path) : List Component := p.placed.map Placed.component

/-- Whether two paths have the same components. -/
def sameAs (p q : Path) : Bool := p.components == q.components

/-- The characters of a path from one place to another. -/
def slice (p : Path) (start stop : Nat) : Path :=
  ⟨String.ofList ((p.text.toList.take stop).drop start)⟩

/-- The last component, if it is a name. -/
def lastName? (p : Path) : Option (List Char × Nat) :=
  match p.placed.getLast? with
  | some ⟨.name text, start, _⟩ => some (text.toList, start)
  | _ => none

/-- The name of the file a path leads to. -/
def fileName? (p : Path) : Option String := p.lastName?.map fun n => String.ofList n.1

/-- A file name cut at its last dot, unless it has none or starts with its only one. -/
def splitName (name : List Char) : List Char × Option (List Char) :=
  match name.reverse.span (· != '.') with
  | (_, []) => (name, none)
  | (_, [_]) => (name, none)
  | (ext, _ :: stem) => (stem.reverse, some ext.reverse)

/-- The part of the file name after its last dot. -/
def extension? (p : Path) : Option String :=
  p.lastName?.bind fun n => (splitName n.1).2.map String.ofList

/-- The part of the file name before its extension. -/
def stem? (p : Path) : Option String := p.lastName?.map fun n => String.ofList (splitName n.1).1

/-- The path with another extension. -/
def withExtension (p : Path) (ext : String) : Path :=
  match p.lastName? with
  | none => p
  | some (name, start) =>
    let kept := (p.slice 0 (start + (splitName name).1.length)).text
    if ext.isEmpty then ⟨kept⟩ else ⟨kept ++ "." ++ ext⟩

/-- The path without its last component. -/
def parent? (p : Path) : Option Path :=
  match p.placed.reverse with
  | [] => none
  | ⟨.root, _, _⟩ :: _ => none
  | _ :: [] => some ⟨""⟩
  | _ :: last :: _ => some (p.slice 0 last.stop)

/-- A path read relative to another one. -/
def join (p q : Path) : Path :=
  if q.isAbsolute then q
  else if p.text.isEmpty then q
  else match p.text.toList.getLast? with
    | some '/' => ⟨p.text ++ q.text⟩
    | _ => ⟨p.text ++ "/" ++ q.text⟩

/-- What is left of a list of components after the leading ones `base`. -/
def dropComponents : List Component → List Placed → Option (List Placed)
  | [], rest => some rest
  | _ :: _, [] => none
  | b :: bs, c :: cs => if b = c.component then dropComponents bs cs else none

/-- The path relative to a base that it starts with, component by component. -/
def stripBase? (p base : Path) : Option Path :=
  (dropComponents base.components p.placed).map fun rest =>
    match rest, rest.getLast? with
    | first :: _, some last =>
      p.slice (if base.components.isEmpty then 0 else first.start) last.stop
    | _, _ => ⟨""⟩

end Path

end StyleEngine
