import StyleEngine.Digest
import StyleEngine.FileTree
import StyleEngine.Text.Case
import StyleEngine.Text.Quoted
import StyleEngine.TextModel
import StyleEngine.Violation

/-! # Source files

A source file holds its text until a parser takes it, then the model that the
parser made of it.  Between runs `SourceFile.reset` turns the model back into
text, so that a file can be analyzed any number of times.
-/
namespace StyleEngine

/-- A file under analysis.  Its model is the one that text files have; a `Renderer` stands for what
models of other kinds give as their text. -/
structure SourceFile where
  path : Path
  /-- Digest of the text, as it was made or last reset. -/
  digest : String
  text : Option String
  model : Option TextModel := none
  violations : List Violation := []
  /-- Whether the current run is through with the file. -/
  done : Bool := false
  /-- Whether fixes changed the file in the current run. -/
  modified : Bool := false
deriving DecidableEq

namespace SourceFile

def ofText (path : Path) (text : String) : SourceFile :=
  { path, digest := Digest.ofText text, text := some text }

/-- Reads a source file from a file tree. -/
def load (t : FileTree) (path : Path) : Except FileFault SourceFile :=
  (t.readText path).map (ofText path)

/-- The extension of a file in lower case, by which its parser is found. -/
def extension? (f : SourceFile) : Option String := f.path.extension?.map lowerCase

/-- Takes the text out of a file; it can be taken only once. -/
def takeText (f : SourceFile) : Option String × SourceFile := (f.text, { f with text := none })

def setModel (f : SourceFile) (m : TextModel) : SourceFile := { f with model := some m }

/-- The current text, whether still raw or in the model. -/
def sourceText? (f : SourceFile) : Option String :=
  match f.text with
  | some text => some text
  | none => f.model.map TextModel.source

/-- Whether a violation is recorded on a file already. -/
def hasOccurrence (f : SourceFile) (v : Violation) : Bool :=
  f.violations.any (·.sameOccurrence v)

/-- Records a violation unless the same occurrence is recorded already. -/
def record (f : SourceFile) (v : Violation) : SourceFile :=
  { f with violations := Violation.insertNew f.violations v }

/-- Whether comments in a file switch a rule off on a line. -/
def isSuppressed (f : SourceFile) (rule : String) (line : Nat) : Bool :=
  match f.model with
  | some m => m.isSuppressed rule line
  | none => false

def markDone (f : SourceFile) : SourceFile := { f with done := true }

/-- A file as it is before a run: the model is text again, nothing is recorded.  The digest is
taken anew only if fixes changed the file. -/
def reset (f : SourceFile) : SourceFile :=
  let text := f.sourceText?
  let digest := match f.modified, text with
    | true, some text => Digest.ofText text
    | _, _ => f.digest
  { path := f.path, digest, text }

/-- A short description of a file. -/
def describe (f : SourceFile) : String :=
  "SourceFile \x7b path: " ++ quoted f.path.text ++ ", done: " ++ toString f.done ++ ", .. \x7d"

end SourceFile

end StyleEngine
