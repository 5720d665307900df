import StyleEngine.Cache.Basic
import StyleEngine.Fixing
import StyleEngine.Registry.Basic

/-! # One file in one pass

A worker serves a file from the cache, or has it parsed and analyzed and applies
fixes.  All of it depends on the file, its project and the pass only
(`FileJob.process`); what it does to the rest of a run is the result's to tell.
-/
namespace StyleEngine

/-- How a run treats a project. -/
structure ProjectStatus where
  /-- Whether cached results are not to be used. -/
  ignoreCache : Bool := false
  /-- Whether results go to the cache. -/
  writeCache : Bool := false
  settingsDigest : String := ""
  /-- Whether all files are done. -/
  complete : Bool := false

/-- What became of a file in a pass. -/
inductive FileOutcome where
  | skipped
  | cached
  | analyzed
  | deferred
deriving DecidableEq

/-- What is to be done about the cache entry of a file. -/
inductive CacheChange where
  | keep
  | save
  | drop
deriving DecidableEq

/-- The result of working on a file. -/
structure Processed where
  file : SourceFile
  outcome : FileOutcome
  change : CacheChange := .keep
  fixes : Nat := 0
  fatal : Option AddInError := none
  events : List Event := []

/-- A file while it is parsed and analyzed. -/
structure Attempt where
  visit : Visit
  failed : Bool := false
  /-- The first exhaustion of resources. -/
  fatal : Option AddInError := none

/-- Notes that an add-in stopped on the file.  Exhausted resources are no violation: they end
the run. -/
def Attempt.fail (a : Attempt) (who : String) (cause : Stop) : Attempt :=
  let e := cause.toError
  if e.isExhaustion then { a with failed := true, fatal := a.fatal.or (some e) }
  else
    let v := Violation.fileFailed a.visit.file.path (who ++ " failed: " ++ e.message)
    { a with failed := true, visit := (a.visit.publish v).1 }

/-- The work on the files of a project in a pass. -/
structure FileJob where
  registry : Registry
  context : FileContext
  status : ProjectStatus

namespace FileJob

/-- Whether results in the cache may stand for the analysis. -/
def usesCache (j : FileJob) : Bool := !j.status.ignoreCache && !j.context.autoFix

def isAddinEnabled (j : FileJob) (id : String) : Bool := j.context.settings.isAddinEnabled id

/-- The parser of a file. -/
def parserOf? (j : FileJob) (f : SourceFile) : Option ParserEntry :=
  f.extension?.bind j.registry.parserFor?

/-- A file with nothing to be done. -/
def skip (f : SourceFile) : Processed := { file := f.markDone, outcome := .skipped }

/-- Puts cached violations on a file. -/
def serve (f : SourceFile) (vs : List Violation) : Processed :=
  let visit := vs.foldl (fun s v => (s.publish v).1) ({ file := f } : Visit)
  { file := visit.file.markDone, outcome := .cached, events := visit.events }

/-- Has an analyzer check the file. -/
def analyze (j : FileJob) (a : Attempt) (e : AnalyzerEntry) : Attempt :=
  if !j.isAddinEnabled e.analyzer.id then a
  else
    let visit := a.visit.emit (.analyzing e.analyzer.id a.visit.file.path j.context.pass)
    match (e.analyzer.analyze e.profile j.context).run j.context visit with
    | (visit, .ok ()) => { a with visit }
    | (visit, .error cause) =>
      { a with visit }.fail ("Analyzer " ++ e.analyzer.id) cause

/-- Has all analyzers of a parser check the file. -/
def analyzeAll (j : FileJob) (a : Attempt) (parser : String) : Attempt :=
  (j.registry.analyzersOf parser).foldl j.analyze a

/-- Tries the fixes that were held back; violations that still stand are published. -/
def fix (j : FileJob) (a : Attempt) : Attempt × Nat :=
  if j.context.autoFix then
    let o := a.visit.file.applyFixes a.visit.held
    let visit := { a.visit with file := o.file, held := [] }
    ({ a with visit := o.rejected.foldl (fun s v => (s.publish v).1) visit }, o.applied.length)
  else (a, 0)

/-- A file that is through: its results replace those in the cache, or these are dropped. -/
def finish (j : FileJob) (a : Attempt) (fixes : Nat) : Processed :=
  let cacheable := !a.failed && !a.visit.file.modified
  { file := a.visit.file.markDone
    outcome := .analyzed
    change := if j.status.writeCache && cacheable then .save else .drop
    fixes
    fatal := a.fatal
    events := a.visit.events }

/-- Has a parser read a file and, if it is complete, the analyzers of the parser check it. -/
def parse (j : FileJob) (e : ParserEntry) (f : SourceFile) : Processed :=
  let visit := ({ file := f } : Visit).emit (.parsing e.parser.id f.path j.context.pass)
  match (e.parser.parse e.profile j.context).run j.context visit with
  | (visit, .ok .deferred) => { file := visit.file, outcome := .deferred, events := visit.events }
  | (visit, .error cause) =>
    j.finish (({ visit } : Attempt).fail ("Parser " ++ e.parser.id) cause) 0
  | (visit, .ok .complete) =>
    let (a, fixes) := j.fix (j.analyzeAll { visit } e.parser.id)
    j.finish a fixes

/-- Works on a file, for which the cache may have violations. -/
def process (j : FileJob) (cached : Option (List Violation)) (f : SourceFile) : Processed :=
  if f.done then { file := f, outcome := .skipped }
  else match cached with
    | some vs => serve f vs
    | none =>
      match j.parserOf? f with
      | none => skip f
      | some e => if j.isAddinEnabled e.parser.id then j.parse e f else skip f

end FileJob

end StyleEngine
