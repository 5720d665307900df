import StyleEngine.Severity
import StyleEngine.Text.Substitute

/-! # Rules

A rule is what an add-in checks for.  Its context is the template of the
messages, in which `{0}`, `{1}` and so on stand for arguments (`Rule.render`).
-/
namespace StyleEngine

/-- What a rule is about. -/
inductive Category where
  | naming
  | layout
  | ordering
  | readability
  | spacing
  | documentation
  | maintainability
deriving DecidableEq, Inhabited

namespace Category

def name : Category → String
  | .naming => "naming"
  | .layout => "layout"
  | .ordering => "ordering"
  | .readability => "readability"
  | .spacing => "spacing"
  | .documentation => "documentation"
  | .maintainability => "maintainability"

def all : List Category :=
  [.naming, .layout, .ordering, .readability, .spacing, .documentation, .maintainability]

/-- The category with a name. -/
def ofName? (name : String) : Option Category := all.find? fun c => c.name == name

theorem ofName?_name (c : Category) : ofName? c.name = some c := by
  cases c <;> rfl

/-- The category that a word names, in any case; `docs` is short for documentation. -/
def ofWord? (word : String) : Option Category :=
  let w := lowerCase word
  if w = "docs" then some .documentation else ofName? w

/-- The complaint about a word that names no category. -/
def unknownMessage (word : String) : String := "Unknown category: " ++ word

def read? {ν : Type} [DataNode ν] (n : ν) : Option Category :=
  (DataNode.variant? n).bind ofName?

end Category

/-- Something that an add-in can find fault with. -/
structure Rule where
  id : String
  name : Option String := none
  context : String
  description : Option String := none
  severity : Severity := .warning
  category : Category := .readability
  enabled : Bool := true
  addinId : String := ""
  pattern : Option String := none
  fix : Option String := none
  trustedOnly : Bool := false
deriving DecidableEq

namespace Rule

/-- The option that switches a rule. -/
def enabledOption (r : Rule) : String := r.id ++ "#Enabled"

def displayName (r : Rule) : String := r.name.getD r.id

/-- The place of an argument in a template. -/
def placeholder (i : Nat) : String := "\x7b" ++ toString i ++ "\x7d"

/-- Fills the arguments from number `i` on into a template, one after the other: a later
argument also replaces a placeholder that an earlier one brought in. -/
def fillFrom (template : String) (i : Nat) : List String → String
  | [] => template
  | arg :: args => fillFrom (substitute (placeholder i) arg template) (i + 1) args

/-- The message of a rule for some arguments. -/
def render (r : Rule) (args : List String) : String := fillFrom r.context 0 args

def ownedBy (r : Rule) (addin : String) : Rule := { r with addinId := addin }

def fieldNames : List String :=
  ["id", "name", "context", "description", "severity", "category", "enabled", "addin_id",
    "pattern", "fix", "trusted_only"]

def read? {ν : Type} [DataNode ν] (n : ν) : Option Rule :=
  (Record.row? fieldNames n).bind fun row => do
    let id ← Record.required row "id" DataNode.text?
    let name ← Record.orElse row "name" none (Record.optional DataNode.text?)
    let context ← Record.required row "context" DataNode.text?
    let description ← Record.orElse row "description" none (Record.optional DataNode.text?)
    let severity ← Record.orElse row "severity" .warning Severity.read?
    let category ← Record.orElse row "category" .readability Category.read?
    let enabled ← Record.orElse row "enabled" true DataNode.flag?
    let addinId ← Record.orElse row "addin_id" "" DataNode.text?
    let pattern ← Record.orElse row "pattern" none (Record.optional DataNode.text?)
    let fix ← Record.orElse row "fix" none (Record.optional DataNode.text?)
    let trustedOnly ← Record.orElse row "trusted_only" false DataNode.flag?
    return { id, name, context, description, severity, category, enabled, addinId, pattern, fix,
             trustedOnly }

def toJson (r : Rule) : Json :=
  .obj [("id", .str r.id), ("name", Json.ofOption .str r.name), ("context", .str r.context),
    ("description", Json.ofOption .str r.description), ("severity", .str r.severity.name),
    ("category", .str r.category.name), ("enabled", .bool r.enabled),
    ("addin_id", .str r.addinId), ("pattern", Json.ofOption .str r.pattern),
    ("fix", Json.ofOption .str r.fix), ("trusted_only", .bool r.trustedOnly)]

end Rule

end StyleEngine
