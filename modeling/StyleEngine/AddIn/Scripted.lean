import StyleEngine.Registry.Basic

/-! # Scripted add-ins

A parser or analyzer can be wrapped so that it follows a script before it does
its own work: for each file, and for each of the calls outside of files, a list
of actions.  A host can be tried out with them, down to add-ins that fail,
crash, defer or cancel.  Each call is noted.
-/
namespace StyleEngine

namespace Scripted

/-- What a scripted add-in does. -/
inductive Deed where
  /-- Fails with an error, which may name the add-in. -/
  | fail (error : String → AddInError)
  | crash (c : Crash)
  | cancel
  /-- Ends the actions; a parse ends with the outcome. -/
  | finish (outcome : ParseOutcome)
  /-- Takes the text of the file and drops it. -/
  | dropText
  /-- Takes the text of the file and makes a model of it. -/
  | makeModel
  | output (o : Output)
  /-- Reports a violation and notes the answer after a word. -/
  | report (word : String) (v : Path → Violation)
  /-- Notes whether a rule is on for a path, by default that of the file. -/
  | query (rule : String) (path : Option Path)
  /-- Notes what is known of the run. -/
  | context

/-- A deed and when it is done. -/
structure Action where
  deed : Deed
  /-- Only when this switch is on. -/
  switch : Option String := none
  /-- Only in passes before this one. -/
  beforePass : Option Nat := none

/-- The actions of a scripted add-in. -/
structure Script where
  /-- Actions by file name; `*` stands for all others. -/
  files : List (String × List Action) := []
  onConfigure : List Action := []
  onReady : List Action := []
  onBefore : List Action := []
  onAfter : List Action := []

namespace Action

def isSwitchedOn (a : Action) (switches : Switches) : Bool :=
  match a.switch with
  | some s => switches.contains s
  | none => true

def isDueIn (a : Action) (pass : Nat) : Bool :=
  match a.beforePass with
  | some n => pass < n
  | none => true

end Action

/-- What a scripted add-in notes of a run. -/
def contextNote (id : String) (ctx : FileContext) (f : SourceFile) : String :=
  id ++ " context " ++ ctx.project.name ++ " " ++ f.path.text ++ " pass=" ++ toString ctx.pass ++
    " fix=" ++ toString ctx.autoFix ++ " model=" ++ toString f.model.isSome ++ " jobs=" ++
    toString ctx.settings.engine.jobs

/-- Does a deed on a file.  The result is the outcome with which the actions end, if they
do. -/
def Deed.perform (id : String) (ctx : FileContext) : Deed → Act (Option ParseOutcome)
  | .fail error => .fail (error id)
  | .crash c => .stop (.crash c)
  | .cancel => .cancel (.done none)
  | .finish outcome => .done (some outcome)
  | .dropText => .takeText fun _ => .done none
  | .makeModel => .takeText fun
    | some text => .setModel (TextModel.ofText text) (.done none)
    | none => .done none
  | .output o => .output o (.done none)
  | .report word v => .look fun f => .report (v f.path) fun isNew =>
    .note (id ++ " " ++ word ++ " " ++ toString isNew) (.done none)
  | .query rule path => .look fun f =>
    let path := path.getD f.path
    .note (id ++ " query " ++ rule ++ " " ++ path.text ++ " " ++
      toString (ctx.isRuleEnabled rule path)) (.done none)
  | .context => .look fun f => .note (contextNote id ctx f) (.done none)

/-- Does actions on a file, until one ends them. -/
def perform (id : String) (ctx : FileContext) : List Action → Act (Option ParseOutcome)
  | [] => .done none
  | a :: rest =>
    if a.isSwitchedOn ctx.switches && a.isDueIn ctx.pass then
      (a.deed.perform id ctx).bind fun
        | some outcome => .done (some outcome)
        | none => perform id ctx rest
    else perform id ctx rest

/-- Does actions outside of files; those that need a file do nothing. -/
def react (id : String) (switches : Switches) : List Action → Reaction Stop Unit
  | [] => .ok ()
  | a :: rest =>
    if !a.isSwitchedOn switches then react id switches rest
    else match a.deed with
      | .fail error => .error (.error (error id))
      | .crash c => .error (.crash c)
      | .cancel =>
        let later := react id switches rest
        { later with events := .cancel :: later.events }
      | .finish _ => .ok ()
      | _ => react id switches rest

/-- The actions for a file. -/
def Script.actionsFor (s : Script) (path : Path) : List Action :=
  match path.fileName?.bind fun name => s.files.lookup name with
  | some actions => actions
  | none => (s.files.lookup "*").getD []

/-- A note, and then a reaction. -/
def noting {ε α : Type} (text : String) (r : Reaction ε α) : Reaction ε α :=
  { r with events := .note text :: r.events }

/-- A reaction whose stops are errors. -/
def raising {α : Type} (r : Reaction Stop α) : Reaction AddInError α :=
  { events := r.events, result := r.result.mapError Stop.toError }

/-- A reaction whose errors are passed over. -/
def forgiving (r : Reaction Stop Unit) : Reaction Crash Unit :=
  { events := r.events
    result := match r.result with
      | .error (.crash c) => .error c
      | _ => .ok () }

/-- An add-in that follows a script; `tail` is noted after the calls around runs. -/
def wrap (a : AddIn) (s : Script) (tailBefore tailAfter : Profile → List Event) : AddIn where
  id := a.id
  shownName _ := a.id
  configure d primary trusted p switches :=
    noting (a.id ++ " initialize " ++ d.id ++ " " ++ toString primary ++ " " ++ toString trusted)
      ((raising (react a.id switches s.onConfigure)).andThen fun _ =>
        a.configure d primary trusted p switches)
  ready p switches :=
    noting (a.id ++ " ready")
      ((raising (react a.id switches s.onReady)).andThen fun _ => a.ready p switches)
  before p switches :=
    noting (a.id ++ " pre")
      ((forgiving (react a.id switches s.onBefore)).andThen fun _ =>
        (a.before p switches).andThen fun _ => { events := tailBefore p, result := .ok () })
  after p switches :=
    noting (a.id ++ " post")
      ((forgiving (react a.id switches s.onAfter)).andThen fun _ =>
        (a.after p switches).andThen fun _ => { events := tailAfter p, result := .ok () })

/-- A parser that follows a script. -/
def parser (p : Parser) (s : Script) : Parser where
  toAddIn := wrap p.toAddIn s (fun _ => []) (fun _ => [])
  extensions := p.extensions
  parse profile ctx := .look fun f =>
    .note (p.id ++ " parse " ++ f.path.text ++ " pass=" ++ toString ctx.pass)
      ((perform p.id ctx (s.actionsFor f.path)).bind fun
        | some outcome => .done outcome
        | none => p.parse profile ctx)

/-- How many rules an analyzer has active. -/
def activeNote (id : String) (n : Nat) : List Event := [.note (id ++ " active " ++ toString n)]

/-- An analyzer that follows a script. -/
def analyzer (a : Analyzer) (s : Script) : Analyzer where
  toAddIn := wrap a.toAddIn s
    (fun p => activeNote a.id (PatternAnalyzer.activeRules p).length) (fun _ => activeNote a.id 0)
  parserId := a.parserId
  analyze profile ctx := .look fun f =>
    .note (a.id ++ " analyze " ++ f.path.text)
      ((perform a.id ctx (s.actionsFor f.path)).bind fun _ => a.analyze profile ctx)

/-- What happens when a factory is asked for an add-in. -/
def building (factory : String) (spec : AddInSpec) (switches : Switches)
    (actions : List Action) : Reaction AddInError Unit :=
  noting ("factory " ++ factory ++ " " ++ spec.id) (raising (react spec.id switches actions))

/-- A factory of text parsers that follow a script. -/
def parserFactory (name : String) (actions : List Action) (s : Script) : Factory Parser :=
  fun spec switches => (building name spec switches actions).andThen fun _ =>
    .ok (parser (textParserOf spec) s)

/-- A factory of pattern analyzers that follow a script. -/
def analyzerFactory (name : String) (actions : List Action) (s : Script) : Factory Analyzer :=
  fun spec switches => (building name spec switches actions).andThen fun _ =>
    { result := (patternAnalyzerOf spec).map fun a => analyzer a s }

end Scripted

end StyleEngine
