import StyleEngine.Summary

/-! # Reports as JSON

What a violation lacks is left out.
-/
namespace StyleEngine

/-- How a summary is shown as JSON. -/
structure JsonReport where
  /-- Whether the JSON is indented. -/
  pretty : Bool := false

namespace JsonReport

def render (r : JsonReport) (v : Json) : String := if r.pretty then v.pretty else v.compact

/-- A member that may be left out. -/
def member {α : Type} (name : String) (f : α → Json) : Option α → List (String × Json)
  | some a => [(name, f a)]
  | none => []

/-- The members that are shown of a violation. -/
def members (v : Violation) : List (String × Json) :=
  [("rule_id", .str v.ruleId), ("severity", .str v.severity.name), ("message", .str v.message)] ++
    member "file" (fun p => .str p.text) v.file ++ [("line", .nat v.line)] ++
    member "element" .str v.element ++ member "fix" Fix.toJson v.fix

def ofViolation (v : Violation) : Json := .obj (members v)

def ofSummary (s : RunSummary) : Json :=
  .obj [("violations", .arr (s.violations.map ofViolation)),
    ("summary", .obj [("files_total", .nat s.filesTotal), ("files_analyzed", .nat s.filesAnalyzed),
      ("files_cached", .nat s.filesCached), ("files_fixed", .nat s.filesFixed),
      ("fixes_applied", .nat s.fixesApplied), ("passes", .nat s.passes),
      ("cancelled", .bool s.cancelled), ("converged", .bool s.converged),
      ("error_count", .nat s.errorCount), ("warning_count", .nat s.warningCount),
      ("info_count", .nat s.infoCount), ("duration_ms", .nat s.durationMs)])]

def formatViolation (r : JsonReport) (v : Violation) : String := r.render (ofViolation v)

def format (r : JsonReport) (s : RunSummary) : String := r.render (ofSummary s)

end JsonReport

end StyleEngine
