import StyleEngine.AddIn.Act
import StyleEngine.AddIn.Manifest

/-! # Add-ins

An add-in is a parser, which makes models of the files with its extensions, or
an analyzer, which checks the models of one parser.  What it has been configured
with is its `Profile`; the add-in itself does not change.
-/
namespace StyleEngine

/-- What an add-in does outside of any file: events, and a result or a failure. -/
structure Reaction (ε α : Type) where
  events : List Event := []
  result : Except ε α

namespace Reaction

variable {ε α β : Type}

def ok (a : α) : Reaction ε α := { result := .ok a }

def error (e : ε) : Reaction ε α := { result := .error e }

/-- One reaction and then, if it did not fail, the next. -/
def andThen (r : Reaction ε α) (next : α → Reaction ε β) : Reaction ε β :=
  match r.result with
  | .error e => { events := r.events, result := .error e }
  | .ok a => { events := r.events ++ (next a).events, result := (next a).result }

end Reaction

/-- What an add-in has been configured with. -/
structure Profile where
  name : Option String := none
  rules : List Rule := []
  trusted : Bool := false

/-- The switches that a host has turned on. -/
abbrev Switches := List String

/-- What parsers and analyzers have in common. -/
structure AddIn where
  id : String
  shownName : Profile → String := fun p => p.name.getD id
  /-- Applies one descriptor; it is told whether it is the first one and whether the host
  trusts the add-in. -/
  configure : InitDescriptor → (primary trusted : Bool) → Profile → Switches →
    Reaction AddInError Profile
  /-- Called when all descriptors have been applied. -/
  ready : Profile → Switches → Reaction AddInError Unit := fun _ _ => .ok ()
  /-- Called before any file of a run is touched. -/
  before : Profile → Switches → Reaction Crash Unit := fun _ _ => .ok ()
  /-- Called when a run is through with its files. -/
  after : Profile → Switches → Reaction Crash Unit := fun _ _ => .ok ()

namespace AddIn

/-- Applies descriptors from the first one on. -/
def configureFrom (a : AddIn) (trusted : Bool) (switches : Switches) (primary : Bool) :
    List InitDescriptor → Profile → Reaction AddInError Profile
  | [], p => .ok p
  | d :: ds, p =>
    (a.configure d primary trusted p switches).andThen (a.configureFrom trusted switches false ds)

/-- The profile of an add-in that is configured with some descriptors and ready. -/
def profileFor (a : AddIn) (ds : List InitDescriptor) (trusted : Bool) (switches : Switches) :
    Reaction AddInError Profile :=
  (a.configureFrom trusted switches true ds {}).andThen fun p =>
    (a.ready p switches).andThen fun _ => .ok p

end AddIn

/-- How an attempt to parse a file ended. -/
inductive ParseOutcome where
  | complete
  /-- The parser wants to see the file again in the next pass. -/
  | deferred
deriving DecidableEq

/-- An add-in that makes models of files. -/
structure Parser extends AddIn where
  extensions : List String
  parse : Profile → FileContext → Act ParseOutcome

/-- An add-in that checks the models of a parser. -/
structure Analyzer extends AddIn where
  parserId : String
  analyze : Profile → FileContext → Act Unit

end StyleEngine
