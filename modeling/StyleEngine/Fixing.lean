import StyleEngine.SourceFile

/-! # Applying fixes

Fixes replace whole lines of a file's model, from the last line up.  Only safe
fixes are applied and only one on a line: of several, the first reported.
-/
namespace StyleEngine

/-- What became of a list of violations when their fixes were applied. -/
structure FixOutcome where
  file : SourceFile
  applied : List Violation := []
  rejected : List Violation := []

namespace FixOutcome

/-- The replacement a violation offers for its line, unless the line is fixed already. -/
def replacement? (o : FixOutcome) (v : Violation) : Option String :=
  match v.fix with
  | some fix =>
    if fix.isSafe && !o.applied.any (·.line == v.line) then some fix.replacement else none
  | none => none

/-- The file with the fix of a violation in place, where it can be applied. -/
def fixed? (o : FixOutcome) (v : Violation) : Option SourceFile :=
  match o.replacement? v, o.file.model with
  | some text, some m => (m.replaceLine? v.line text).map o.file.setModel
  | _, _ => none

/-- Tries the fix of one violation. -/
def attempt (o : FixOutcome) (v : Violation) : FixOutcome :=
  match o.fixed? v with
  | some file => { o with file, applied := o.applied ++ [v] }
  | none => { o with rejected := o.rejected ++ [v] }

/-- Marks the file as changed if a fix was applied. -/
def mark (o : FixOutcome) : FixOutcome :=
  if o.applied.isEmpty then o else { o with file := { o.file with modified := true } }

end FixOutcome

/-- Violations from the last line up; those on one line keep their order. -/
def bottomUp (vs : List Violation) : List Violation := vs.mergeSort fun a b => b.line ≤ a.line

namespace SourceFile

/-- Applies the safe fixes among some violations. -/
def applyFixes (f : SourceFile) (vs : List Violation) : FixOutcome :=
  ((bottomUp vs).foldl FixOutcome.attempt { file := f }).mark

end SourceFile

end StyleEngine
