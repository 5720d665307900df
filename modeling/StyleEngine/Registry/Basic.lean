import StyleEngine.AddIn.PatternAnalyzer

/-! # The registry of add-ins

Add-ins are registered once, under an id that parsers and analyzers share; what
is registered first stays.  An analyzer works only when it is wired to its parser
(`Registry.wire`), which may be registered before or after it.
-/
namespace StyleEngine

/-- A registered parser with the ids of the analyzers wired to it. -/
structure ParserEntry where
  parser : Parser
  profile : Profile
  trusted : Bool
  analyzers : List String := []

/-- A registered analyzer with the id of the parser it is wired to. -/
structure AnalyzerEntry where
  analyzer : Analyzer
  profile : Profile
  trusted : Bool
  owner : Option String := none

/-- What builds add-ins of a kind from their declarations. -/
abbrev Factory (α : Type) := AddInSpec → Switches → Reaction AddInError α

/-- The registered add-ins, in order, and what is known by their registration. -/
structure Registry where
  parsers : List ParserEntry := []
  analyzers : List AnalyzerEntry := []
  /-- Which parser reads files with an extension; the first entry counts. -/
  extensions : List (String × String) := []
  /-- Whether a rule is on by default; the first entry counts. -/
  ruleDefaults : List (String × Bool) := []
  parserFactories : List (String × Factory Parser) := []
  analyzerFactories : List (String × Factory Analyzer) := []

/-- The option of each rule of an add-in. -/
def Profile.options (p : Profile) : List (String × Bool) :=
  p.rules.foldl (fun opts r =>
    if opts.any (·.1 == r.enabledOption) then
      opts.map fun o => if o.1 == r.enabledOption then (o.1, r.enabled) else o
    else opts ++ [(r.enabledOption, r.enabled)]) []

namespace Registry

/-- A registry that can build text parsers and pattern analyzers. -/
def withBuiltins : Registry where
  parserFactories := [("text", fun spec _ => .ok (textParserOf spec))]
  analyzerFactories := [("pattern", fun spec _ => { result := patternAnalyzerOf spec })]

/-- The registry with a factory of parsers, which replaces one of the same name. -/
def addParserFactory (r : Registry) (name : String) (f : Factory Parser) : Registry :=
  { r with parserFactories := (name, f) :: r.parserFactories }

/-- The registry with a factory of analyzers, which replaces one of the same name. -/
def addAnalyzerFactory (r : Registry) (name : String) (f : Factory Analyzer) : Registry :=
  { r with analyzerFactories := (name, f) :: r.analyzerFactories }

/-! ### Looking things up -/

def parserEntry? (r : Registry) (id : String) : Option ParserEntry :=
  r.parsers.find? (·.parser.id == id)

def analyzerEntry? (r : Registry) (id : String) : Option AnalyzerEntry :=
  r.analyzers.find? (·.analyzer.id == id)

def contains (r : Registry) (id : String) : Bool :=
  (r.parserEntry? id).isSome || (r.analyzerEntry? id).isSome

/-- The parser of files with an extension, in any case. -/
def parserFor? (r : Registry) (extension : String) : Option ParserEntry :=
  (r.extensions.lookup (lowerCase extension)).bind r.parserEntry?

/-- The parser of the file at a path. -/
def parserForPath? (r : Registry) (path : Path) : Option ParserEntry :=
  path.extension?.bind r.parserFor?

/-- The analyzers wired to a parser, in the order of their registration. -/
def analyzersOf (r : Registry) (parserId : String) : List AnalyzerEntry :=
  match r.parserEntry? parserId with
  | some e => e.analyzers.filterMap r.analyzerEntry?
  | none => []

/-- The parser that an analyzer is wired to. -/
def owner? (r : Registry) (analyzerId : String) : Option String :=
  (r.analyzerEntry? analyzerId).bind AnalyzerEntry.owner

/-- The rules of all add-ins, those of parsers first. -/
def rules (r : Registry) : List Rule :=
  r.parsers.flatMap (·.profile.rules) ++ r.analyzers.flatMap (·.profile.rules)

/-- Whether a rule is on by default. -/
def ruleDefault? (r : Registry) (rule : String) : Option Bool := r.ruleDefaults.lookup rule

def profile? (r : Registry) (id : String) : Option Profile :=
  match r.parserEntry? id with
  | some e => some e.profile
  | none => (r.analyzerEntry? id).map AnalyzerEntry.profile

/-- The value of an option of an add-in. -/
def option? (r : Registry) (id name : String) : Option Bool :=
  (r.profile? id).bind fun p => p.options.lookup name

def isTrusted (r : Registry) (id : String) : Bool :=
  match r.parserEntry? id with
  | some e => e.trusted
  | none =>
    match r.analyzerEntry? id with
    | some e => e.trusted
    | none => false

def size (r : Registry) : Nat := r.parsers.length + r.analyzers.length

/-! ### Registering -/

/-- Adds the defaults of an add-in's rules. -/
def addDefaults (r : Registry) (p : Profile) : Registry :=
  { r with ruleDefaults := r.ruleDefaults ++ p.rules.map fun rule => (rule.id, rule.enabled) }

def addParser (r : Registry) (parser : Parser) (profile : Profile) (trusted : Bool) : Registry :=
  let r := r.addDefaults profile
  { r with
    parsers := r.parsers ++ [{ parser, profile, trusted }]
    extensions := r.extensions ++ parser.extensions.map fun e => (lowerCase e, parser.id) }

def addAnalyzer (r : Registry) (analyzer : Analyzer) (profile : Profile) (trusted : Bool) :
    Registry :=
  let r := r.addDefaults profile
  { r with analyzers := r.analyzers ++ [{ analyzer, profile, trusted }] }

/-- Configures and registers a parser, unless its id is taken. -/
def registerParser (r : Registry) (switches : Switches) (parser : Parser)
    (ds : List InitDescriptor) (trusted : Bool) : Reaction AddInError (Bool × Registry) :=
  if r.contains parser.id then .ok (false, r)
  else (parser.profileFor ds trusted switches).andThen fun p =>
    .ok (true, r.addParser parser p trusted)

/-- Configures and registers an analyzer, unless its id is taken. -/
def registerAnalyzer (r : Registry) (switches : Switches) (analyzer : Analyzer)
    (ds : List InitDescriptor) (trusted : Bool) : Reaction AddInError (Bool × Registry) :=
  if r.contains analyzer.id then .ok (false, r)
  else (analyzer.profileFor ds trusted switches).andThen fun p =>
    .ok (true, r.addAnalyzer analyzer p trusted)

/-! ### Wiring -/

/-- Attaches an analyzer to the parser that it names, if that is registered. -/
def attach (parsers : List ParserEntry) (a : Analyzer) : List ParserEntry :=
  parsers.map fun e =>
    if e.parser.id == a.parserId && !e.analyzers.contains a.id then
      { e with analyzers := e.analyzers ++ [a.id] }
    else e

/-- Attaches every analyzer to the parser that it names. -/
def wire (r : Registry) : Registry :=
  { r with
    parsers := r.analyzers.foldl (fun ps e => attach ps e.analyzer) r.parsers
    analyzers := r.analyzers.map fun e =>
      if (r.parserEntry? e.analyzer.parserId).isSome then
        { e with owner := some e.analyzer.parserId }
      else e }

end Registry

end StyleEngine
