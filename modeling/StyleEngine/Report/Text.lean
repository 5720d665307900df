import StyleEngine.Summary
import StyleEngine.Text.Fixed
import StyleEngine.Text.Paint

/-! # Reports as text

Violations are grouped by the file they are shown under, in ascending order, and
keep their order within a file; those outside of any file come last.
-/
namespace StyleEngine

/-- Violations in groups: those of each file under the name that the file is shown by, with the
names in ascending order, and those outside of any file. -/
structure ViolationGroups where
  files : List (String × List Violation) := []
  others : List Violation := []

namespace ViolationGroups

/-- Puts a violation behind the others of its group. -/
def add (g : ViolationGroups) (v : Violation) : ViolationGroups :=
  match v.file with
  | some file =>
    let found := (g.files.lookup file.text).getD []
    { g with files := Record.insertSorted file.text (found ++ [v]) g.files }
  | none => { g with others := g.others ++ [v] }

def ofViolations (vs : List Violation) : ViolationGroups := vs.foldl add {}

end ViolationGroups

/-- How a summary is shown as text. -/
structure TextReport where
  colored : Bool := true
  showFixes : Bool := true
  showStats : Bool := true

namespace TextReport

def paint (r : TextReport) (p : Paint) (text : String) : String := p.apply r.colored text

def severityPaint : Severity → Paint
  | .error => .redBold
  | .warning => .yellowBold
  | .info => .blue

/-- A number and what it counts. -/
def count (n : Nat) (singular plural : String) : String :=
  toString n ++ " " ++ if n = 1 then singular else plural

/-- The place of a violation. -/
def location (v : Violation) : String :=
  match v.file with
  | some file => file.text ++ ":" ++ toString v.line
  | none => "<engine>"

/-- The line that tells of the element a violation is in. -/
def elementLine (r : TextReport) (v : Violation) : String :=
  match v.element with
  | some element => "   " ++ r.paint .blue "=" ++ " in: " ++ element ++ "\n"
  | none => ""

/-- The line that tells of the fix of a violation. -/
def fixLine (r : TextReport) (v : Violation) : String :=
  match v.fix with
  | some fix =>
    if r.showFixes then
      "   " ++ r.paint .green "=" ++ " fix (" ++ fix.safety.name ++ "): " ++ fix.description ++
        " -> " ++ r.paint .green fix.replacement ++ "\n"
    else ""
  | none => ""

/-- The lines of one violation. -/
def formatViolation (r : TextReport) (v : Violation) : String :=
  location v ++ ": " ++ r.paint (severityPaint v.severity) v.severity.name ++ "[" ++
    r.paint .cyan v.ruleId ++ "]: " ++ v.message ++ "\n" ++ r.elementLine v ++ r.fixLine v

/-- What is shown of one file: its name, its violations and an empty line. -/
def fileBlock (r : TextReport) (file : String × List Violation) : String :=
  r.paint .underline file.1 ++ "\n" ++ String.join (file.2.map r.formatViolation) ++ "\n"

/-- All violations. -/
def violationPart (r : TextReport) (vs : List Violation) : String :=
  let groups := ViolationGroups.ofViolations vs
  String.join (groups.files.map r.fileBlock) ++
    String.join (groups.others.map r.formatViolation)

/-- The counts of violations that there are. -/
def countTexts (r : TextReport) (s : RunSummary) : List String :=
  (if s.errorCount > 0 then [r.paint .red (count s.errorCount "error" "errors")] else []) ++
  (if s.warningCount > 0 then [r.paint .yellow (count s.warningCount "warning" "warnings")]
    else []) ++
  (if s.infoCount > 0 then [r.paint .blue (count s.infoCount "info" "infos")] else [])

/-- What the run did. -/
def statsPart (r : TextReport) (s : RunSummary) : String :=
  let counts := r.countTexts s
  "\n" ++ count s.filesAnalyzed "file" "files" ++ " analyzed, " ++ toString s.filesCached ++
    " from cache" ++ (if counts.isEmpty then "" else ": " ++ ", ".intercalate counts) ++ "\n" ++
    (if s.fixesApplied > 0 then
      "Applied " ++ count s.fixesApplied "fix" "fixes" ++ " in " ++
        count s.filesFixed "file" "files" ++ "\n"
    else "") ++
    "Finished in " ++ showSeconds s.durationMs ++ "s (" ++ count s.passes "pass" "passes" ++ ")\n"

def format (r : TextReport) (s : RunSummary) : String :=
  r.violationPart s.violations ++
    (if s.cancelled then r.paint .yellow "Analysis cancelled" ++ "\n" else "") ++
    (if r.showStats then r.statsPart s else "")

end TextReport

end StyleEngine
