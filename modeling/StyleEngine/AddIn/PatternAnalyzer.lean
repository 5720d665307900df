import StyleEngine.AddIn.TextParser
import StyleEngine.Pattern.Template

/-! # The pattern analyzer

Checks each line of a model against the patterns of rules.  The first group of a
match, or the whole match, is the argument of the rule's message; a rule with a
fix offers the line with every match replaced.
-/
namespace StyleEngine

/-- How the texts of patterns are read: a text that is no pattern is refused with a complaint. -/
abbrev PatternReader := String → Except String Pattern

/-- The reader of this library.  It knows the syntax of patterns, but of Unicode's properties the
general categories and some scripts only, and it sets no limit to nesting; its complaint is the
text itself. -/
def Pattern.reader : PatternReader := fun text =>
  match Pattern.compile? text with
  | some p => .ok p
  | none => .error text

namespace PatternAnalyzer

/-- Takes over a rule whose pattern can be read.  A rule for trusted add-ins only is switched
off in others.  What the complaint says about a pattern is the reader's own wording. -/
def adopt (read : PatternReader) (id : String) (trusted : Bool) (p : Profile) (r : Rule) :
    Except AddInError Profile :=
  if p.hasRule r.id then .ok p
  else match r.pattern.map read with
    | some (.error complaint) =>
      .error (.initialization id ("Rule " ++ r.id ++ " has an invalid pattern: " ++ complaint))
    | _ =>
      .ok (p.addRule id (if r.trustedOnly && !trusted then { r with enabled := false } else r))

def configure (read : PatternReader) (id : String) (d : InitDescriptor) (primary trusted : Bool)
    (p : Profile) : Except AddInError Profile :=
  d.rules.foldlM (adopt read id trusted) ({ p with trusted }.named d primary)

/-- The rules that are checked, with their patterns. -/
def activeRules (p : Profile) (read : PatternReader := Pattern.reader) : List (Rule × Pattern) :=
  (p.rules.filter fun r => p.trusted || !r.trustedOnly).filterMap fun r =>
    (r.pattern.bind fun text => (read text).toOption).map (r, ·)

/-- The violation of a rule on a line, if its pattern matches there. -/
def hit? (path : Path) (r : Rule) (p : Pattern) (number : Nat) (line : String) :
    Option Violation :=
  (p.matched? line).map fun text =>
    { ruleId := r.id
      severity := r.severity
      message := r.render [text]
      file := some path
      line := number
      fix := r.fix.map fun template =>
        { description := "Apply " ++ r.id, replacement := p.replaceAll line template } }

/-- The violations of a rule on lines, the first of which has the number `n`. -/
def hitsFrom (path : Path) (r : Rule) (p : Pattern) (n : Nat) : List String → List Violation
  | [] => []
  | line :: rest => (hit? path r p n line).toList ++ hitsFrom path r p (n + 1) rest

/-- The violations of a rule in a file. -/
def hits (f : SourceFile) (r : Rule) (p : Pattern) : List Violation :=
  match f.model with
  | some m => hitsFrom f.path r p 1 m.lines
  | none => []

/-- Checks a file against rules. -/
def check (ctx : FileContext) : List (Rule × Pattern) → Act Unit
  | [] => .done ()
  | (r, p) :: rest => .look fun f =>
    if ctx.isRuleEnabled r.id f.path then
      (Act.reportAll (hits f r p)).bind fun _ => check ctx rest
    else check ctx rest

end PatternAnalyzer

/-- The analyzer of patterns in the models of a parser. -/
def patternAnalyzer (id parserId : String) (read : PatternReader := Pattern.reader) :
    Analyzer where
  id
  configure d primary trusted p _ :=
    { result := PatternAnalyzer.configure read id d primary trusted p }
  parserId
  analyze p ctx := PatternAnalyzer.check ctx (PatternAnalyzer.activeRules p read)

/-- The pattern analyzer that a module declares. -/
def patternAnalyzerOf (spec : AddInSpec) : Except AddInError Analyzer :=
  match spec.parser with
  | some parser => .ok (patternAnalyzer spec.id parser)
  | none => .error (.invalid ("Analyzer " ++ spec.id ++ " does not name a parser"))

end StyleEngine
