import StyleEngine.Path
import StyleEngine.Record
import StyleEngine.Text.Split

/-! # Arguments

The arguments of a call are read from left to right.  Options that take a value
have it after an equals sign or as the next argument; a name of a command counts
as such only where no file was named just before it.
-/
namespace StyleEngine

namespace CommandLine

/-- The layout of the report. -/
inductive ReportFormat where
  | text
  | json
deriving DecidableEq

/-- What a call asks for. -/
structure Options where
  files : List String := []
  project : Option String := none
  flags : List String := []
  settings : Option String := none
  addins : List Path := []
  noDefaultAddins : Bool := false
  format : ReportFormat := .text
  noColor : Bool := false
  jobs : Nat := 0
  singleWorker : Bool := false
  full : Bool := false
  cache : Bool := false
  cacheFile : Option Path := none
  fix : Bool := false
  write : Bool := false
  hostKey : Option String := none
  listRules : Bool := false
  exitZero : Bool := false
  /-- The rule to be explained. -/
  explain : Option String := none

/-- What the arguments of a call come to. -/
inductive Request where
  | run (options : Options)
  | help
  | version
  /-- The arguments make no sense. -/
  | usage

/-- A number in decimal digits, possibly after a plus sign, of at most 64 bits. -/
def number? (text : String) : Option Nat :=
  let ds := match text.toList with
    | '+' :: rest => rest
    | cs => cs
  if ds.isEmpty || !ds.all Char.isDigit then none
  else
    let n := Json.decimalValue ds
    if n ≤ Record.maxCount then some n else none

/-- A path, which must not be empty. -/
def path? (text : String) : Option Path := if text.isEmpty then none else some ⟨text⟩

/-- The options that take a value, and those that may be repeated. -/
def valued : List String :=
  ["project", "flags", "settings", "addins", "format", "jobs", "cache-file", "host-key"]

def repeatable : List String := ["flags", "addins"]

def switches : List String :=
  ["no-default-addins", "no-color", "single-worker", "full", "cache", "fix", "write",
    "list-rules", "exit-zero"]

/-- The name of the option with a value that a letter stands for. -/
def short? : Char → Option String
  | 's' => some "settings"
  | 'f' => some "format"
  | 'j' => some "jobs"
  | _ => none

/-- Gives an option a value. -/
def Options.set? (o : Options) (name value : String) : Option Options :=
  match name with
  | "project" => some { o with project := some value }
  | "flags" => some { o with flags := o.flags ++ splitParts ',' value }
  | "settings" => some { o with settings := some value }
  | "addins" => (path? value).map fun p => { o with addins := o.addins ++ [p] }
  | "format" =>
    if value = "text" then some { o with format := .text }
    else if value = "json" then some { o with format := .json }
    else none
  | "jobs" => (number? value).map fun n => { o with jobs := n }
  | "cache-file" => (path? value).map fun p => { o with cacheFile := some p }
  | "host-key" => some { o with hostKey := some value }
  | _ => none

/-- Turns a switch on. -/
def Options.turnOn? (o : Options) (name : String) : Option Options :=
  match name with
  | "no-default-addins" => some { o with noDefaultAddins := true }
  | "no-color" => some { o with noColor := true }
  | "single-worker" => some { o with singleWorker := true }
  | "full" => some { o with full := true }
  | "cache" => some { o with cache := true }
  | "fix" => some { o with fix := true }
  | "write" => some { o with write := true }
  | "list-rules" => some { o with listRules := true }
  | "exit-zero" => some { o with exitZero := true }
  | _ => none

/-- The options read so far, and those given already. -/
structure Reading where
  options : Options := {}
  given : List String := []
  /-- Whether the last argument was a file. -/
  afterFile : Bool := false

namespace Reading

/-- Notes an option, which may have been given before only if it is repeatable. -/
def give? (r : Reading) (name : String) (o : Option Options) : Option Reading :=
  if r.given.contains name && !repeatable.contains name then none
  else o.map fun options => { options, given := name :: r.given }

def set? (r : Reading) (name value : String) : Option Reading :=
  r.give? name (r.options.set? name value)

def turnOn? (r : Reading) (name : String) : Option Reading :=
  r.give? name (r.options.turnOn? name)

def addFile (r : Reading) (file : String) : Reading :=
  { r with options.files := r.options.files ++ [file], afterFile := true }

end Reading

/-- What an argument is by its spelling. -/
inductive Argument where
  /-- `--` -/
  | divider
  /-- `--name` or `--name=value` -/
  | long (name : String) (value : Option String)
  /-- `-x` with what follows the letter -/
  | short (letter : Char) (rest : List Char)
  | word (text : String)

def Argument.ofText (text : String) : Argument :=
  match text.toList with
  | ['-', '-'] => .divider
  | '-' :: '-' :: cs =>
    match cs.span (· != '=') with
    | (name, _ :: value) => .long (String.ofList name) (some (String.ofList value))
    | (name, []) => .long (String.ofList name) none
  | '-' :: c :: cs => .short c cs
  | _ => .word text

/-- How far the arguments have been read. -/
inductive State where
  | reading (r : Reading)
  /-- The next argument is the value of an option. -/
  | awaiting (r : Reading) (name : String)
  /-- All that follows are files. -/
  | onlyFiles (r : Reading)
  /-- In the command that explains a rule; all that follows may be words only. -/
  | explaining (o : Options) (onlyWords : Bool)
  /-- In the command that gives help. -/
  | helping (topics : List String)
  /-- What follows does not matter any more. -/
  | finished (request : Request)

namespace State

/-- Goes on with what was read, unless it made no sense. -/
def ofReading? : Option Reading → State
  | some r => .reading r
  | none => .finished .usage

/-- A long option, possibly with a value. -/
def long (r : Reading) (name : String) (value : Option String) : State :=
  if valued.contains name then
    match value with
    | some v => ofReading? (r.set? name v)
    | none => .awaiting { r with afterFile := false } name
  else if value.isSome then .finished .usage
  else if name = "help" then .finished .help
  else if name = "version" then .finished .version
  else ofReading? (r.turnOn? name)

/-- A letter with what follows it. -/
def short (r : Reading) (letter : Char) (rest : List Char) : State :=
  match short? letter, rest with
  | some name, [] => .awaiting { r with afterFile := false } name
  | some name, '=' :: value => ofReading? (r.set? name (String.ofList value))
  | some name, value => ofReading? (r.set? name (String.ofList value))
  | none, _ =>
    if letter = 'h' then .finished .help
    else if letter = 'V' then .finished .version
    else .finished .usage

/-- A word that is no option: a command or a file. -/
def word (r : Reading) (text : String) : State :=
  if r.afterFile then .reading (r.addFile text)
  else if text = "explain" then .explaining r.options false
  else if text = "help" then .helping []
  else .reading (r.addFile text)

/-- The rule to be explained, of which there is one. -/
def topic (o : Options) (onlyWords : Bool) (text : String) : State :=
  if o.explain.isSome then .finished .usage
  else .explaining { o with explain := some text } onlyWords

/-- Reads one argument. -/
def step (s : State) (text : String) : State :=
  match s with
  | .finished request => .finished request
  | .onlyFiles r => .onlyFiles (r.addFile text)
  | .helping topics => .helping (topics ++ [text])
  | .awaiting r name =>
    match Argument.ofText text with
    | .word value => ofReading? (r.set? name value)
    | _ => .finished .usage
  | .explaining o true => topic o true text
  | .explaining o false =>
    match Argument.ofText text with
    | .divider => .explaining o true
    | .long "help" none => .finished .help
    | .short 'h' _ => .finished .help
    | .word w => topic o false w
    | _ => .finished .usage
  | .reading r =>
    match Argument.ofText text with
    | .divider => .onlyFiles r
    | .long name value => long r name value
    | .short letter rest => short r letter rest
    | .word w => word r w

/-- The options of a call, of which writing goes with fixing only. -/
def settled (o : Options) : Request := if o.write && !o.fix then .usage else .run o

/-- What is asked for when the arguments are used up. -/
def finish : State → Request
  | .finished request => request
  | .reading r => settled r.options
  | .onlyFiles r => settled r.options
  | .awaiting _ _ => .usage
  | .explaining o _ => if o.explain.isSome then settled o else .usage
  | .helping topics => if topics.length ≤ 1 ∧ topics.all ["explain", "help"].contains then .help
    else .usage

end State

/-- What the arguments of a call ask for. -/
def request (args : List String) : Request := (args.foldl State.step (.reading {})).finish

end CommandLine

end StyleEngine
