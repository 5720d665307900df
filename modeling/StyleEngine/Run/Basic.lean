import StyleEngine.Run.FileJob
import StyleEngine.Summary

/-! # The state of a run

What the workers of a run share.  The files of all projects form one list of
slots, in order; a cursor walks over it once a pass.
-/
namespace StyleEngine

/-- The place of a file: the numbers of its project and of itself in the project. -/
structure Slot where
  project : Nat
  file : Nat
deriving DecidableEq

/-- What a run has done. -/
structure Tally where
  analyzed : Nat := 0
  cached : Nat := 0
  fixes : Nat := 0

/-- The state of a run. -/
structure Run where
  registry : Registry := {}
  switches : Switches := []
  autoFix : Bool := false
  projects : List Project := []
  statuses : List ProjectStatus := []
  slots : List Slot := []
  cache : Option Cache := none
  /-- Whether the run was asked to stop before its next pass. -/
  cancelled : Bool := false
  /-- The number of the pass, from zero. -/
  pass : Nat := 0
  /-- The slot that is claimed next. -/
  cursor : Nat := 0
  /-- How many workers have not left the pass. -/
  outstanding : Nat := 0
  /-- Whether a worker left a file for the next pass. -/
  incomplete : Bool := false
  /-- The failure that ends the run; the first one counts. -/
  fatal : Option AddInError := none
  tally : Tally := {}
  events : List Event := []

/-- The slots of projects, the first of which has the number `n`. -/
def slotsFrom (n : Nat) : List Project → List Slot
  | [] => []
  | p :: ps => (List.range p.files.length).map (Slot.mk n) ++ slotsFrom (n + 1) ps

/-- The cache after work on a file. -/
def Cache.change (c : Cache) (j : FileJob) (p : Processed) : Cache :=
  match p.change with
  | .keep => c
  | .save => c.saveFile j.context.project p.file j.status.settingsDigest p.file.violations
  | .drop => c.removeFile p.file.path

namespace Run

/-- A run at its start. -/
def start (projects : List Project) (statuses : List ProjectStatus) (autoFix cancelled : Bool) :
    Run :=
  { autoFix, projects, statuses, slots := slotsFrom 0 projects, cancelled }

def emit (r : Run) (e : Event) : Run := { r with events := r.events ++ [e] }

/-- Whether a failure has ended the run. -/
def isAborted (r : Run) : Bool := r.fatal.isSome

/-- The project and the file of a slot. -/
def lookup? (r : Run) (s : Slot) : Option (Project × SourceFile) :=
  (r.projects[s.project]?).bind fun p => (p.files[s.file]?).map (p, ·)

/-- The work on files of a project. -/
def job (r : Run) (p : Project) (status : ProjectStatus) : FileJob :=
  { registry := r.registry
    context :=
      { project := p.toProjectInfo
        settings := p.effectiveSettings
        ruleDefault := r.registry.ruleDefault?
        pass := r.pass
        autoFix := r.autoFix
        switches := r.switches }
    status }

/-- The cached violations that may stand for the analysis of a file. -/
def cached? (r : Run) (j : FileJob) (f : SourceFile) : Option (List Violation) :=
  if j.usesCache then
    r.cache.bind fun c => c.loadFile? j.context.project f j.status.settingsDigest
  else none

def count (t : Tally) (p : Processed) : Tally :=
  { analyzed := t.analyzed + (if p.outcome = .analyzed then 1 else 0)
    cached := t.cached + (if p.outcome = .cached then 1 else 0)
    fixes := t.fixes + p.fixes }

/-- Takes the result of work on a file into the run. -/
def absorb (r : Run) (s : Slot) (j : FileJob) (p : Processed) : Run :=
  { r with
    projects := r.projects.modify s.project fun q => q.modifyFile s.file fun _ => p.file
    cache := r.cache.map fun c => c.change j p
    cancelled := r.cancelled || p.events.any Event.isCancel
    fatal := r.fatal.or p.fatal
    tally := count r.tally p
    events := r.events ++ p.events }

/-- The work on the file of a slot and what comes of it.  A file whose project has no status
is skipped. -/
def result? (r : Run) (s : Slot) : Option (FileJob × Processed) :=
  (r.lookup? s).map fun (p, f) =>
    match r.statuses[s.project]? with
    | some status =>
      let j := r.job p status
      (j, j.process (r.cached? j f) f)
    | none => (r.job p {}, FileJob.skip f)

/-- Works on the file of a slot, if there is one. -/
def process (r : Run) (s : Slot) : Run × Option Processed :=
  match r.result? s with
  | some (j, p) => (r.absorb s j p, some p)
  | none => (r, none)

end Run

end StyleEngine
