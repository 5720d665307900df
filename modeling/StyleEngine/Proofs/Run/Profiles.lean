import Mathlib.Data.List.Basic
import StyleEngine.Proofs.Run.FileWork
import StyleEngine.Run.Passes

/-! # What runs see of profiles

A run does not look into the profile of an analyzer, it has the analyzer act by it.
So profiles may be exchanged for others by which the analyzers act alike
(`Registry.ActsAlike`): every step of every worker, every pass and the run as a whole
come out as before (`Run.passLoop_reprofiled`).
-/
namespace StyleEngine

/-- Whether an analyzer acts by another profile as it does by its own. -/
structure AnalyzerEntry.ActsAlike (a : AnalyzerEntry) (p : Profile) : Prop where
  analyze : ∀ ctx, a.analyzer.analyze p ctx = a.analyzer.analyze a.profile ctx
  before : ∀ switches, a.analyzer.before p switches = a.analyzer.before a.profile switches
  after : ∀ switches, a.analyzer.after p switches = a.analyzer.after a.profile switches

/-- An analyzer with the profile that it is given. -/
def AnalyzerEntry.given (g : AnalyzerEntry → Profile) (a : AnalyzerEntry) : AnalyzerEntry :=
  { a with profile := g a }

namespace Registry

variable {g : AnalyzerEntry → Profile}

/-- The registry with other profiles for its analyzers. -/
def reprofiled (r : Registry) (g : AnalyzerEntry → Profile) : Registry :=
  { r with analyzers := r.analyzers.map (·.given g) }

/-- Whether the analyzers of a registry act alike by other profiles. -/
def ActsAlike (r : Registry) (g : AnalyzerEntry → Profile) : Prop :=
  ∀ a ∈ r.analyzers, a.ActsAlike (g a)

theorem analyzerEntry?_reprofiled (r : Registry) (id : String) :
    analyzerEntry? (r.reprofiled g) id = (r.analyzerEntry? id).map (·.given g) := by
  unfold analyzerEntry? reprofiled
  rw [List.find?_map]
  rfl

theorem analyzersOf_reprofiled (r : Registry) (parser : String) :
    (r.reprofiled g).analyzersOf parser = (r.analyzersOf parser).map (·.given g) := by
  have hfind : analyzerEntry? (r.reprofiled g) =
      fun id => (r.analyzerEntry? id).map (·.given g) := funext r.analyzerEntry?_reprofiled
  unfold analyzersOf
  rw [show parserEntry? (r.reprofiled g) parser = r.parserEntry? parser from rfl, hfind]
  cases r.parserEntry? parser with
  | none => rfl
  | some e => exact (List.map_filterMap ..).symm

end Registry

variable {g : AnalyzerEntry → Profile}

/-! ## Files -/

namespace FileJob

def reprofiled (j : FileJob) (g : AnalyzerEntry → Profile) : FileJob :=
  { j with registry := j.registry.reprofiled g }

variable {j : FileJob}

theorem analyze_given (h : j.registry.ActsAlike g) (a : Attempt) {e : AnalyzerEntry}
    (he : e ∈ j.registry.analyzers) :
    (j.reprofiled g).analyze a (e.given g) = j.analyze a e := by
  have hacts : e.analyzer.analyze (g e) j.context = e.analyzer.analyze e.profile j.context :=
    (h e he).analyze j.context
  unfold analyze
  simp only [AnalyzerEntry.given, reprofiled, hacts]
  rfl

theorem analyzeAll_reprofiled (h : j.registry.ActsAlike g) (a : Attempt) (parser : String) :
    (j.reprofiled g).analyzeAll a parser = j.analyzeAll a parser := by
  unfold analyzeAll
  rw [show (j.reprofiled g).registry = j.registry.reprofiled g from rfl,
    Registry.analyzersOf_reprofiled, List.foldl_map]
  refine List.foldl_ext _ _ a fun a e he => ?_
  exact analyze_given h a (Registry.mem_analyzers_of_analyzersOf he)

theorem process_reprofiled (h : j.registry.ActsAlike g) (cached : Option (List Violation))
    (f : SourceFile) : (j.reprofiled g).process cached f = j.process cached f := by
  have hparse (e : ParserEntry) : (j.reprofiled g).parse e f = j.parse e f := by
    unfold parse
    simp only [analyzeAll_reprofiled h]
    rfl
  unfold process
  simp only [hparse]
  rfl

end FileJob

/-! ## Runs -/

namespace Run

/-- The run with other profiles for its analyzers. -/
def reprofiled (r : Run) (g : AnalyzerEntry → Profile) : Run :=
  { r with registry := r.registry.reprofiled g }

variable {r : Run}

theorem result?_reprofiled (h : r.registry.ActsAlike g) (s : Slot) :
    (r.reprofiled g).result? s = (r.result? s).map fun x => (x.1.reprofiled g, x.2) := by
  unfold result?
  rw [Option.map_map, show (r.reprofiled g).lookup? s = r.lookup? s from rfl]
  congr 1
  funext x
  obtain ⟨p, f⟩ := x
  rw [Function.comp_apply, show (r.reprofiled g).statuses = r.statuses from rfl]
  cases r.statuses[s.project]? with
  | none => rfl
  | some status =>
    have hprocess := FileJob.process_reprofiled (j := r.job p status) h
      (r.cached? (r.job p status) f) f
    exact congrArg (Prod.mk ((r.job p status).reprofiled g)) hprocess

theorem process_reprofiled (h : r.registry.ActsAlike g) (s : Slot) :
    (r.reprofiled g).process s = ((r.process s).1.reprofiled g, (r.process s).2) := by
  unfold process
  rw [result?_reprofiled h]
  cases r.result? s <;> rfl

theorem registry_process (r : Run) (s : Slot) : (r.process s).1.registry = r.registry := by
  unfold process
  cases r.result? s <;> rfl

end Run

/-! ## Passes -/

namespace Pool

/-- The pass with other profiles for the analyzers. -/
def reprofiled (p : Pool) (g : AnalyzerEntry → Profile) : Pool :=
  { p with run := p.run.reprofiled g }

theorem registry_step (p : Pool) (i : Nat) : (p.step i).run.registry = p.run.registry := by
  unfold step
  split
  · rfl
  · split
    · rfl
    · unfold claim
      dsimp only
      split <;> rfl
    · exact p.run.registry_process _
    · rfl
    · rfl
    · rfl

theorem registry_move (p : Pool) (m : Move) : (p.move m).run.registry = p.run.registry := by
  cases m with
  | step i => exact p.registry_step i
  | cancel => rfl

variable {p : Pool}

theorem step_reprofiled (h : p.run.registry.ActsAlike g) (i : Nat) :
    (p.reprofiled g).step i = (p.step i).reprofiled g := by
  unfold step
  rw [show (p.reprofiled g).workers = p.workers from rfl]
  cases p.workers[i]? with
  | none => rfl
  | some w =>
    obtain ⟨phase, leftover⟩ := w
    cases phase with
    | checking => rfl
    | claiming =>
      dsimp only
      unfold claim
      rw [show (p.reprofiled g).run.slots[(p.reprofiled g).run.cursor]? =
        p.run.slots[p.run.cursor]? from rfl]
      cases p.run.slots[p.run.cursor]? <;> rfl
    | working slot =>
      dsimp only
      unfold work
      rw [show (p.reprofiled g).run = p.run.reprofiled g from rfl, Run.process_reprofiled h]
      rfl
    | reporting => rfl
    | leaving => rfl
    | gone _ => rfl

theorem runSchedule_reprofiled (h : p.run.registry.ActsAlike g) (schedule : List Move) :
    (p.reprofiled g).runSchedule schedule = (p.runSchedule schedule).reprofiled g ∧
      (p.runSchedule schedule).run.registry = p.run.registry := by
  unfold runSchedule
  induction schedule generalizing p with
  | nil => exact ⟨rfl, rfl⟩
  | cons m ms ih =>
    have hmove : (p.reprofiled g).move m = (p.move m).reprofiled g := by
      cases m with
      | step i => exact step_reprofiled h i
      | cancel => rfl
    have hregistry := p.registry_move m
    obtain ⟨hrest, hkept⟩ := ih (p := p.move m) (hregistry.symm ▸ h)
    rw [List.foldl_cons, List.foldl_cons, hmove]
    exact ⟨hrest, hkept.trans hregistry⟩

end Pool

/-- Passes whose schedules are planned ahead, from the number of workers, that of the pass and that
of the files. -/
def Sweep.following (plan : Nat → Nat → Nat → List Move) : Sweep := fun workers r =>
  (Pool.start r workers).runSchedule (plan workers r.pass r.slots.length)

namespace Run

variable {r : Run}

theorem following_reprofiled (h : r.registry.ActsAlike g) (plan : Nat → Nat → Nat → List Move)
    (workers : Nat) :
    Sweep.following plan workers (r.reprofiled g) =
        (Sweep.following plan workers r).reprofiled g ∧
      (Sweep.following plan workers r).run.registry = r.registry :=
  Pool.runSchedule_reprofiled (p := Pool.start r workers) h _

/-- **The passes of a run come out as before** with other profiles by which analyzers act alike. -/
theorem passLoop_reprofiled (h : r.registry.ActsAlike g) (plan : Nat → Nat → Nat → List Move)
    (workers left : Nat) :
    (r.reprofiled g).passLoop (Sweep.following plan workers) left =
      ((r.passLoop (Sweep.following plan workers) left).1.reprofiled g,
        (r.passLoop (Sweep.following plan workers) left).2) := by
  induction left generalizing r with
  | zero => rfl
  | succ left ih =>
    obtain ⟨hsweep, hregistry⟩ := following_reprofiled h plan workers
    unfold passLoop
    rw [show (r.reprofiled g).cancelled = r.cancelled from rfl, hsweep]
    cases r.cancelled with
    | true => rfl
    | false =>
      rw [if_neg Bool.false_ne_true, if_neg Bool.false_ne_true]
      generalize Sweep.following plan workers r = p at hregistry ⊢
      have hnext : p.run.settle.next.registry.ActsAlike g := hregistry.symm ▸ h
      dsimp only
      rw [show (p.reprofiled g).run.fatal = p.run.fatal from rfl]
      cases p.run.fatal with
      | some cause => rfl
      | none =>
        dsimp only
        rw [show (p.reprofiled g).run.settle = p.run.settle.reprofiled g from rfl,
          show (p.run.settle.reprofiled g).incomplete = p.run.settle.incomplete from rfl,
          show (p.run.settle.reprofiled g).pass = p.run.settle.pass from rfl]
        split
        · rfl
        · split
          · rfl
          · exact ih hnext

end Run

end StyleEngine
