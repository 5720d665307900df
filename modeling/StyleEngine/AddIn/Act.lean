import StyleEngine.AddIn.Error
import StyleEngine.Event
import StyleEngine.Project
import StyleEngine.Settings.Query

/-! # What add-ins do with a file

A parser or analyzer works on a file by a sequence of acts (`Act`): it takes the
text, looks at the file, sets the model, reports violations, and ends with a
result, an error or a crash.  `Act.run` says what the acts do to the file.
Reporting is the only way for an add-in to record a violation; in a run that
fixes files, reports with a safe fix are held back until the file is analyzed.

A report names the file that it is about.  Mostly this is the file under
analysis (`Act.report`); an add-in may also report on a file that it has made
itself and that is no part of the run (`Act.reportOn`).  What an add-in does to
the other files of the run is no act: work on a file touches that file only.
-/
namespace StyleEngine

/-- What an add-in can know of a run while it works on a file. -/
structure FileContext where
  project : ProjectInfo := {}
  settings : Settings := {}
  /-- Whether a rule is on if the settings do not mention it. -/
  ruleDefault : String → Option Bool := fun _ => none
  /-- The number of the pass, from zero. -/
  pass : Nat := 0
  autoFix : Bool := false
  /-- The switches that the host has turned on. -/
  switches : List String := []

/-- Whether a rule is to be checked in a file. -/
def FileContext.isRuleEnabled (ctx : FileContext) (rule : String) (path : Path) : Bool :=
  ctx.settings.isRuleEnabled rule ((ctx.ruleDefault rule).getD true) &&
    !(ctx.settings.ignoresRuleFor rule path ||
      ctx.settings.ignoresRuleFor rule ((path.stripBase? ctx.project.root).getD path))

/-- The state of a file while add-ins work on it. -/
structure Visit where
  file : SourceFile
  /-- Reports held back because their fix is to be tried. -/
  held : List Violation := []
  events : List Event := []

namespace Visit

def emit (s : Visit) (e : Event) : Visit := { s with events := s.events ++ [e] }

/-- Records a violation and tells of it, if it is new. -/
def publish (s : Visit) (v : Violation) : Visit × Bool :=
  if s.file.hasOccurrence v then (s, false)
  else ({ s with file := s.file.record v, events := s.events ++ [.violation v] }, true)

/-- A violation with the severity that the settings give it. -/
def graded (ctx : FileContext) (v : Violation) : Violation :=
  match ctx.settings.severityOf? v.ruleId with
  | some severity => { v with severity }
  | none => v

/-- Reports a violation.  The answer tells whether it is new. -/
def report (ctx : FileContext) (s : Visit) (v : Violation) : Visit × Bool :=
  let v := graded ctx v
  if s.file.isSuppressed v.ruleId v.line then (s, false)
  else if ctx.autoFix && v.hasSafeFix then
    if s.held.any (·.sameOccurrence v) then (s, false)
    else ({ s with held := s.held ++ [v] }, true)
  else s.publish v

/-- Reports a violation on a file that is no part of the run, and gives the file as it is then.
The report is told of like any other, and held back with the others if its fix is to be tried. -/
def reportOn (ctx : FileContext) (s : Visit) (f : SourceFile) (v : Violation) :
    Visit × SourceFile × Bool :=
  let v := graded ctx v
  if f.isSuppressed v.ruleId v.line then (s, f, false)
  else if ctx.autoFix && v.hasSafeFix then
    if s.held.any (·.sameOccurrence v) then (s, f, false)
    else ({ s with held := s.held ++ [v] }, f, true)
  else if f.hasOccurrence v then (s, f, false)
  else (s.emit (.violation v), f.record v, true)

end Visit

/-- A sequence of acts that ends with an `α`, or stops. -/
inductive Act (α : Type) where
  | done (result : α)
  | stop (cause : Stop)
  | takeText (next : Option String → Act α)
  | look (next : SourceFile → Act α)
  | setModel (model : TextModel) (next : Act α)
  | report (v : Violation) (next : Bool → Act α)
  | reportOn (f : SourceFile) (v : Violation) (next : SourceFile → Bool → Act α)
  | output (o : Output) (next : Act α)
  | note (text : String) (next : Act α)
  | cancel (next : Act α)

namespace Act

variable {α β : Type}

def fail (e : AddInError) : Act α := .stop (.error e)

/-- The acts of one sequence and then of the next. -/
def bind : Act α → (α → Act β) → Act β
  | .done a, k => k a
  | .stop cause, _ => .stop cause
  | .takeText next, k => .takeText fun t => (next t).bind k
  | .look next, k => .look fun f => (next f).bind k
  | .setModel m next, k => .setModel m (next.bind k)
  | .report v next, k => .report v fun b => (next b).bind k
  | .reportOn f v next, k => .reportOn f v fun g b => (next g b).bind k
  | .output o next, k => .output o (next.bind k)
  | .note text next, k => .note text (next.bind k)
  | .cancel next, k => .cancel (next.bind k)

instance : Monad Act where
  pure := .done
  bind := bind

/-- What acts do to a file, and how they end. -/
def run (ctx : FileContext) : Act α → Visit → Visit × Except Stop α
  | .done a, s => (s, .ok a)
  | .stop cause, s => (s, .error cause)
  | .takeText next, s => (next s.file.text).run ctx { s with file := s.file.takeText.2 }
  | .look next, s => (next s.file).run ctx s
  | .setModel m next, s => next.run ctx { s with file := s.file.setModel m }
  | .report v next, s =>
    let answer := s.report ctx v
    (next answer.2).run ctx answer.1
  | .reportOn f v next, s =>
    let answer := s.reportOn ctx f v
    (next answer.2.1 answer.2.2).run ctx answer.1
  | .output o next, s => next.run ctx (s.emit (.output o))
  | .note text next, s => next.run ctx (s.emit (.note text))
  | .cancel next, s => next.run ctx (s.emit .cancel)

/-- Reports violations one after the other. -/
def reportAll : List Violation → Act Unit
  | [] => .done ()
  | v :: vs => .report v fun _ => reportAll vs

end Act

end StyleEngine
