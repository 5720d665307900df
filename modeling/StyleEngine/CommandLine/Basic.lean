import StyleEngine.CommandLine.Arguments
import StyleEngine.Diff
import StyleEngine.Engine
import StyleEngine.FilePattern
import StyleEngine.Report.Json
import StyleEngine.Report.Text

/-! # The command line

What a call prints, how it changes the file tree and the code it ends with.
-/
namespace StyleEngine

namespace CommandLine

/-- The end of a call. -/
structure Ended where
  code : Nat := 0
  stdout : String := ""
  stderr : String := ""
  /-- Whether the arguments made no sense. -/
  usage : Bool := false
  files : FileTree

/-- The surroundings of a call: variables by name, and whether it prints on a terminal. -/
structure Surroundings where
  bindings : List (String × String) := []
  terminal : Bool := false

def Surroundings.get? (env : Surroundings) (name : String) : Option String :=
  env.bindings.lookup name

/-- The home directory of the user. -/
def home? (env : Surroundings) : Option Path := (env.get? "HOME").bind path?

/-- A directory of the user: an absolute one that a variable names, or one in the home
directory. -/
def userDirectory? (env : Surroundings) (name inHome : String) : Option Path :=
  match ((env.get? name).map Path.mk).filter Path.isAbsolute with
  | some p => some p
  | none => (home? env).map fun h => h.join ⟨inHome⟩

/-- Where results are cached by default. -/
def defaultCacheFile (env : Surroundings) : Path :=
  ((userDirectory? env "XDG_CACHE_HOME" ".cache").getD ⟨"."⟩).join ⟨"stylecheck/cache.json"⟩

/-- Whether to print in colours: when they are forced on, or else on a terminal, unless they
are switched off. -/
def wantsColor (env : Surroundings) : Bool :=
  if (env.get? "CLICOLOR_FORCE").any (· != "0") then true
  else if (env.get? "NO_COLOR").isSome then false
  else env.terminal && (env.get? "CLICOLOR").all (· != "0")

/-! ### What is printed -/

def severityText (color : Bool) (s : Severity) : String :=
  let paint : Paint := match s with
    | .error => .red
    | .warning => .yellow
    | .info => .blue
  paint.apply color s.name

/-- A message of the engine. -/
def outputLine (color : Bool) (o : Output) : String :=
  match o.level with
  | .warning => Paint.yellow.apply color "warning" ++ ": " ++ o.message ++ "\n"
  | .info => Paint.blue.apply color "note" ++ ": " ++ o.message ++ "\n"

def outputLines (color : Bool) (events : List Event) : String :=
  String.join ((events.filterMap Event.output?).map (outputLine color))

def errorLine (color : Bool) (message : String) : String :=
  Paint.redBold.apply color "error" ++ ": " ++ message ++ "\n"

/-- The lines of a rule in the list of rules. -/
def ruleLines (color : Bool) (r : Rule) : String :=
  "    " ++ Paint.cyan.apply color r.id ++ " [" ++ severityText color r.severity ++ "] (" ++
    r.category.name ++ ")" ++
    (if r.enabled then "" else Paint.yellow.apply color " [disabled]") ++ "\n" ++
    (match r.description with
      | some d => "      " ++ d ++ "\n"
      | none => "")

/-- The list of rules, by parser and analyzer. -/
def ruleList (color : Bool) (r : Registry) : String :=
  String.join (r.parsers.map fun p =>
    Paint.bold.apply color (p.parser.shownName p.profile) ++ " (" ++
      ", ".intercalate p.parser.extensions ++ ")\n" ++
      String.join ((r.analyzersOf p.parser.id).map fun a =>
        "  " ++ a.analyzer.shownName a.profile ++ "\n" ++
          String.join (a.profile.rules.map (ruleLines color))))

/-- All that is known of a rule. -/
def explanation (color : Bool) (r : Rule) : String :=
  let bold := Paint.bold.apply color
  let line (label value : String) := "  " ++ bold label ++ ": " ++ value ++ "\n"
  bold "Rule Details" ++ "\n\n" ++ line "ID" (Paint.cyan.apply color r.id) ++
    line "Name" r.displayName ++ line "Add-in" r.addinId ++
    line "Severity" (severityText color r.severity) ++ line "Category" r.category.name ++
    line "Message" r.context ++
    (match r.description with
      | some d => "\n  " ++ bold "Description" ++ "\n  " ++ d ++ "\n"
      | none => "") ++
    (match r.pattern with
      | some p => "\n" ++ line "Pattern" p
      | none => "") ++
    (if r.fix.isSome then "\n  " ++ bold "Auto-fix Available" ++ "\n" else "")

def unknownRule (color : Bool) (id : String) : String :=
  errorLine color ("Rule '" ++ id ++ "' not found") ++ "\nUse " ++
    Paint.cyan.apply color "--list-rules" ++ " to see all available rules\n"

def versionText : String := "stylecheck 0.1.0\n"

def helpText : String :=
  "Static analysis driven by add-in modules\n\nUsage: stylecheck [OPTIONS] [FILES]... [COMMAND]\n"

/-! ### A call -/

/-- The engine of a call. -/
def engineFor (o : Options) (env : Surroundings) (t : FileTree) : Engine where
  options :=
    { jobs := o.jobs
      singleWorker := o.singleWorker
      hostKey := ((o.hostKey.or (env.get? "STYLECHECK_HOST_KEY")).getD "").toUTF8.toList }
  environment :=
    { searchPaths := Environment.defaultSearchPaths
        (userDirectory? env "XDG_CONFIG_HOME" ".config") (home? env) }
  cache := if o.cache || o.cacheFile.isSome then
      some (Cache.openOver (.file (o.cacheFile.getD (defaultCacheFile env))) t)
    else none

/-- The files that patterns stand for. -/
def expandAll (t : FileTree) : List String → Except String (List Path)
  | [] => .ok []
  | pattern :: rest =>
    match FilePattern.expand t pattern with
    | .error f => .error ("Invalid pattern '" ++ pattern ++ "': " ++ f.message)
    | .ok paths => (expandAll t rest).map fun more => paths.filter t.isFile ++ more

/-- The source files at some paths. -/
def loadAll (t : FileTree) : List Path → Except String (List SourceFile)
  | [] => .ok []
  | p :: ps =>
    match SourceFile.load t p with
    | .error e => .error ("Failed to read " ++ p.text ++ ": " ++ e.message)
    | .ok f => (loadAll t ps).map (f :: ·)

/-- The working directory as a path. -/
def workingPath (t : FileTree) : Path := ⟨"/" ++ "/".intercalate t.workingDirectory⟩

/-- The project of a call. -/
def projectFor (o : Options) (t : FileTree) : Except String Project :=
  match expandAll t o.files with
  | .error message => .error message
  | .ok [] => .error "No files found to analyze"
  | .ok paths =>
    let root := workingPath t
    let info : ProjectInfo := { name := o.project.getD (root.fileName?.getD "project"), root }
    (loadAll t paths).map fun files => { toProjectInfo := info.withFlags o.flags, files }

/-- The differences that fixes make to files. -/
def diffs (t : FileTree) : List SourceFile → Except String String
  | [] => .ok ""
  | f :: fs =>
    if !f.modified then diffs t fs
    else match t.readText f.path with
      | .error e => .error ("Failed to read " ++ f.path.text ++ ": " ++ e.message)
      | .ok old => (diffs t fs).map fun more =>
        (match f.sourceText? with
          | some new => unifiedDiff f.path old new
          | none => "") ++ more

/-- The report of a call. -/
def report (o : Options) (color : Bool) (s : RunSummary) : String :=
  match o.format with
  | .text => TextReport.format { colored := color } s
  | .json => JsonReport.format { pretty := true } s

/-- Runs the engine over a project and reports. -/
def analyze (o : Options) (color : Bool) (e : Engine) (t : FileTree) (told : String)
    (p : Project) : Ended :=
  let mode : RunMode :=
    if o.fix then { autoFix := true, autoSave := o.write } else { full := o.full }
  let r := e.run t [] 2 mode o.settings [p]
  let stderr := told ++ outputLines color r.events
  match r.result with
  | .error cause =>
    { code := 2, stderr := stderr ++ errorLine color cause.message, files := r.files }
  | .ok summary =>
    let shown := if o.fix && !o.write then diffs r.files (r.projects.flatMap Project.files)
      else .ok ""
    match shown with
    | .error message => { code := 2, stderr := stderr ++ errorLine color message, files := r.files }
    | .ok diff =>
      { code := if o.exitZero then 0 else summary.exitCode
        stdout := diff ++ report o color summary
        stderr := stderr ++
          if o.fix && !o.write && summary.fixesApplied > 0 then "Use --write to apply fixes\n"
          else ""
        files := r.files }

/-- Does what a call asks for. -/
def perform (o : Options) (env : Surroundings) (t : FileTree) : Ended :=
  let color := !o.noColor && wantsColor env
  let c := (engineFor o env t).loadAddIns t [] o.addins (!o.noDefaultAddins)
  let told := outputLines color c.events
  match c.result with
  | .error cause =>
    { code := 2, files := t
      stderr := told ++ errorLine color ("Failed to load add-ins: " ++ cause.message) }
  | .ok _ =>
    match o.explain with
    | some id =>
      match c.engine.registry.rules.find? (·.id == id) with
      | some r => { stdout := explanation color r, stderr := told, files := t }
      | none => { code := 1, stderr := told ++ unknownRule color id, files := t }
    | none =>
      if o.listRules then
        { stdout := ruleList color c.engine.registry, stderr := told, files := t }
      else match projectFor o t with
        | .error message => { code := 2, stderr := told ++ errorLine color message, files := t }
        | .ok p => analyze o color c.engine t told p

/-- A call with some arguments. -/
def execute (args : List String) (env : Surroundings) (t : FileTree) : Ended :=
  match request args with
  | .run o => perform o env t
  | .help => { stdout := helpText, files := t }
  | .version => { stdout := versionText, files := t }
  | .usage => { code := 2, stderr := "error: these arguments are not understood\n", usage := true,
                files := t }

end CommandLine

end StyleEngine
