import StyleEngine.Project

/-! # Summaries of runs

What a run found and did.  The exit code is that of its gravest violation.
-/
namespace StyleEngine

/-- The result of a run. -/
structure RunSummary where
  /-- All violations: those of files in order, then those outside of any file. -/
  violations : List Violation := []
  engineViolations : List Violation := []
  filesTotal : Nat := 0
  filesAnalyzed : Nat := 0
  filesCached : Nat := 0
  filesFixed : Nat := 0
  fixesApplied : Nat := 0
  passes : Nat := 0
  cancelled : Bool := false
  converged : Bool := false
  errorCount : Nat := 0
  warningCount : Nat := 0
  infoCount : Nat := 0
  /-- How long the run took, in milliseconds. -/
  durationMs : Nat := 0

namespace RunSummary

/-- How many violations have a severity. -/
def countOf (vs : List Violation) (s : Severity) : Nat := vs.countP fun v => v.severity == s

/-- What can be read off the projects after a run. -/
def collect (projects : List Project) (engineViolations : List Violation) : RunSummary :=
  let violations := projects.flatMap Project.violations ++ engineViolations
  { violations
    engineViolations
    filesTotal := (projects.flatMap Project.files).length
    filesFixed := (projects.flatMap Project.files).countP SourceFile.modified
    errorCount := countOf violations .error
    warningCount := countOf violations .warning
    infoCount := countOf violations .info }

def hasErrors (s : RunSummary) : Bool := s.errorCount > 0

def hasWarnings (s : RunSummary) : Bool := s.warningCount > 0

def isClean (s : RunSummary) : Bool := s.errorCount == 0 && s.warningCount == 0

/-- Zero without errors and warnings, one with warnings only, two with errors. -/
def exitCode (s : RunSummary) : Nat :=
  if s.errorCount > 0 then 2 else if s.warningCount > 0 then 1 else 0

end RunSummary

end StyleEngine
