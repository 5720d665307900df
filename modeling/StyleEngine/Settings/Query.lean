import StyleEngine.Glob
import StyleEngine.Path
import StyleEngine.Settings.Basic

/-! # What settings decide

Whether a rule is on, how grave it is, and where it does not apply.
-/
namespace StyleEngine

namespace Settings

/-- Whether a rule's name starts with one of the ignored starts, in any case. -/
def ignoresName (s : Settings) (rule : String) : Bool :=
  s.rules.ignore.any fun start =>
    (upperCase start).toList.isPrefixOf (upperCase rule).toList

/-- Whether a rule is on, given what it is by default.  Being switched off goes before being
switched on. -/
def isRuleEnabled (s : Settings) (rule : String) (default : Bool) : Bool :=
  if s.rules.disabled.contains rule then false
  else if s.ignoresName rule then false
  else if s.rules.enabled.contains rule then true
  else default

def isAddinEnabled (s : Settings) (addin : String) : Bool :=
  (s.addins.lookup addin).getD true

def severityOf? (s : Settings) (rule : String) : Option Severity := s.rules.severity.lookup rule

/-- Whether a glob's list of rules names a rule. -/
def listsRule (rules : List String) (rule : String) : Bool :=
  rules.any fun r => r == "all" || r == rule

/-- Whether a rule does not apply to a file.  A glob that cannot be read matches nothing. -/
def ignoresRuleFor (s : Settings) (rule : String) (file : Path) : Bool :=
  s.rules.perFile.any fun e =>
    match Glob.parse? e.1 with
    | some glob => Glob.matches? glob file.text && listsRule e.2 rule
    | none => false

end Settings

end StyleEngine
