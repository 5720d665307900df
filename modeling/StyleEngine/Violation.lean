import StyleEngine.Path
import StyleEngine.Severity

/-! # Violations

A violation is one place at which a rule is broken, possibly with a fix for the
line it stands on.  Two violations are the same occurrence when rule, line,
element, file and message agree, whatever their severity and fix
(`Violation.sameOccurrence`).
-/
namespace StyleEngine

/-- Whether a fix may be applied without asking. -/
inductive FixSafety where
  | safe
  | risky
deriving DecidableEq

namespace FixSafety

def name : FixSafety → String
  | .safe => "safe"
  | .risky => "unsafe"

def ofName? (name : String) : Option FixSafety :=
  if name = "safe" then some .safe else if name = "unsafe" then some .risky else none

def read? {ν : Type} [DataNode ν] (n : ν) : Option FixSafety :=
  (DataNode.variant? n).bind ofName?

end FixSafety

/-- A replacement for the whole line that a violation stands on. -/
structure Fix where
  description : String
  replacement : String
  safety : FixSafety := .safe
deriving DecidableEq

namespace Fix

def isSafe (f : Fix) : Bool := f.safety == .safe

def read? {ν : Type} [DataNode ν] (n : ν) : Option Fix :=
  (Record.row? ["description", "replacement", "safety"] n).bind fun row => do
    let description ← Record.required row "description" DataNode.text?
    let replacement ← Record.required row "replacement" DataNode.text?
    let safety ← Record.orElse row "safety" .safe FixSafety.read?
    return { description, replacement, safety }

def toJson (f : Fix) : Json :=
  .obj [("description", .str f.description), ("replacement", .str f.replacement),
    ("safety", .str f.safety.name)]

end Fix

/-- One place at which a rule is broken. -/
structure Violation where
  ruleId : String
  severity : Severity := .warning
  message : String
  file : Option Path := none
  element : Option String := none
  line : Nat
  fix : Option Fix := none
deriving DecidableEq

namespace Violation

/-- The rule that failures outside any file are reported under. -/
def exceptionRule : String := "ExceptionOccurred"

/-- The rule that a failing parser or analyzer is reported under. -/
def fileFailedRule : String := "FileAnalysisFailed"

/-- A failure outside any file. -/
def exception (message : String) : Violation :=
  { ruleId := exceptionRule, severity := .error, message, line := 1 }

/-- A failure to analyze a file. -/
def fileFailed (file : Path) (message : String) : Violation :=
  { ruleId := fileFailedRule, severity := .error, message, file := some file, line := 1 }

/-- Whether a violation carries a fix that may be applied without asking. -/
def hasSafeFix (v : Violation) : Bool :=
  match v.fix with
  | some f => f.isSafe
  | none => false

/-- Whether two files that may be absent are the same. -/
def sameFile : Option Path → Option Path → Bool
  | none, none => true
  | some p, some q => p.sameAs q
  | _, _ => false

/-- Whether two violations are the same occurrence. -/
def sameOccurrence (v w : Violation) : Bool :=
  v.ruleId == w.ruleId && v.line == w.line && v.element == w.element &&
    sameFile v.file w.file && v.message == w.message

/-- Whether two violations agree in everything, with files compared as paths. -/
def agrees (v w : Violation) : Bool :=
  v.sameOccurrence w && v.severity == w.severity && v.fix == w.fix

/-- A violation on one line of text. -/
def display (v : Violation) : String :=
  let place := match v.file with
    | some file => file.text ++ ":"
    | none => ""
  place ++ toString v.line ++ ": " ++ v.severity.name ++ " [" ++ v.ruleId ++ "] " ++ v.message

def fieldNames : List String :=
  ["rule_id", "severity", "message", "file", "element", "line", "fix"]

def read? {ν : Type} [DataNode ν] (n : ν) : Option Violation :=
  (Record.row? fieldNames n).bind fun row => do
    let ruleId ← Record.required row "rule_id" DataNode.text?
    let severity ← Record.orElse row "severity" .warning Severity.read?
    let message ← Record.required row "message" DataNode.text?
    let file ← Record.orElse row "file" none (Record.optional DataNode.text?)
    let element ← Record.orElse row "element" none (Record.optional DataNode.text?)
    let line ← Record.required row "line" (Record.countUpTo Record.maxCount)
    let fix ← Record.orElse row "fix" none (Record.optional Fix.read?)
    return { ruleId, severity, message, file := file.map Path.mk, element, line, fix }

def toJson (v : Violation) : Json :=
  .obj [("rule_id", .str v.ruleId), ("severity", .str v.severity.name),
    ("message", .str v.message), ("file", Json.ofOption (fun p => .str p.text) v.file),
    ("element", Json.ofOption .str v.element), ("line", .nat v.line),
    ("fix", Json.ofOption Fix.toJson v.fix)]

/-- Adds a violation to a list unless the same occurrence is in it already. -/
def insertNew (vs : List Violation) (v : Violation) : List Violation :=
  if vs.any (·.sameOccurrence v) then vs else vs ++ [v]

end Violation

end StyleEngine
