import StyleEngine.Proofs.Analysis.ExtraViolations
import StyleEngine.Proofs.Registry.Wiring

/-! # One more analyzer, which fails

A registry gets one more analyzer (`Registry.Gains`) that does nothing but fail on
some files (`AnalyzerEntry.FailsOn`).  The work on a file then goes as it went
without it, unless its parser reads the file to the end and the analyzer fails on it
(`FileJob.process_spared`); there the failure is put on the file beside what is found
without the analyzer, and the results are not cached (`FileJob.process_struck`).
-/
namespace StyleEngine

/-! ## The registry -/

/-- A parser without the analyzers that it knows. -/
def ParserEntry.bare (e : ParserEntry) : ParserEntry := { e with analyzers := [] }

theorem ParserEntry.eq_of_bare {e e' : ParserEntry} (h : e'.bare = e.bare) :
    e'.parser = e.parser ∧ e'.profile = e.profile := by
  have hparser := congrArg ParserEntry.parser h
  have hprofile := congrArg ParserEntry.profile h
  exact ⟨hparser, hprofile⟩

/-- Whether a wired registry is another one with one more analyzer, which is wired to its
parser and declares no rules. -/
structure Registry.Gains (r : Registry) (a : AnalyzerEntry) (r' : Registry) : Prop where
  wired : r.IsWired
  rewired : r'.IsWired
  parsers : r'.parsers.map ParserEntry.bare = r.parsers.map ParserEntry.bare
  analyzers : ∃ l₁ l₂, r.analyzers = l₁ ++ l₂ ∧ r'.analyzers = l₁ ++ a :: l₂
  owner : a.owner = some a.analyzer.parserId
  extensions : r'.extensions = r.extensions
  ruleDefaults : r'.ruleDefaults = r.ruleDefaults

/-- Whether add-ins do nothing outside of files but note things. -/
def Reaction.IsQuiet (x : Reaction Crash Unit) : Prop :=
  x.result = .ok () ∧ x.events.any Event.isCancel = false

/-- Whether an analyzer fails on some files, for no want of resources, and does nothing else
that shows: it leaves all files as they are, holds back no report and never asks a run to stop. -/
structure AnalyzerEntry.FailsOn (a : AnalyzerEntry) (F : Path → Prop) : Prop where
  before : ∀ switches, (a.analyzer.before a.profile switches).IsQuiet
  after : ∀ switches, (a.analyzer.after a.profile switches).IsQuiet
  file : ∀ ctx s, ((a.analyzer.analyze a.profile ctx).run ctx s).1.file = s.file
  held : ∀ ctx s, ((a.analyzer.analyze a.profile ctx).run ctx s).1.held = s.held
  cancels : ∀ ctx s, ((a.analyzer.analyze a.profile ctx).run ctx s).1.events.any Event.isCancel =
    s.events.any Event.isCancel
  passes : ∀ ctx s, ¬ F s.file.path → ((a.analyzer.analyze a.profile ctx).run ctx s).2 = .ok ()
  fails : ∀ ctx s, F s.file.path → ∃ cause,
    ((a.analyzer.analyze a.profile ctx).run ctx s).2 = .error cause ∧
      cause.toError.isExhaustion = false

/-- The violation for a failure of an analyzer on a file. -/
def AnalyzerEntry.failure (a : AnalyzerEntry) (path : Path) (message : String) : Violation :=
  .fileFailed path ("Analyzer " ++ a.analyzer.id ++ " failed: " ++ message)

namespace AnalyzerEntry.FailsOn

variable {a : AnalyzerEntry} {F : Path → Prop} {s : Visit}

theorem run_of_notMem (ha : a.FailsOn F) (ctx : FileContext) (hF : ¬ F s.file.path) :
    ∃ s', (a.analyzer.analyze a.profile ctx).run ctx s = (s', .ok ()) ∧ s'.file = s.file ∧
      s'.held = s.held ∧ s'.events.any Event.isCancel = s.events.any Event.isCancel :=
  ⟨_, Prod.ext rfl (ha.passes ctx s hF), ha.file ctx s, ha.held ctx s, ha.cancels ctx s⟩

theorem run_of_mem (ha : a.FailsOn F) (ctx : FileContext) (hF : F s.file.path) :
    ∃ s' cause, (a.analyzer.analyze a.profile ctx).run ctx s = (s', .error cause) ∧
      s'.file = s.file ∧ s'.held = s.held ∧
      s'.events.any Event.isCancel = s.events.any Event.isCancel ∧
      cause.toError.isExhaustion = false := by
  obtain ⟨cause, hresult, hother⟩ := ha.fails ctx s hF
  exact ⟨_, cause, Prod.ext rfl hresult, ha.file ctx s, ha.held ctx s, ha.cancels ctx s, hother⟩

end AnalyzerEntry.FailsOn

namespace Registry.Gains

variable {r r' : Registry} {a : AnalyzerEntry} {F : Path → Prop}

theorem ruleDefault?_eq (h : r.Gains a r') : r'.ruleDefault? = r.ruleDefault? := by
  funext rule
  rw [ruleDefault?, ruleDefault?, h.ruleDefaults]

theorem parserEntry?_eq (h : r.Gains a r') (id : String) :
    (r'.parserEntry? id).map ParserEntry.bare = (r.parserEntry? id).map ParserEntry.bare := by
  have hbare (ps : List ParserEntry) :
      (ps.find? fun e => e.parser.id == id).map ParserEntry.bare =
        (ps.map ParserEntry.bare).find? fun e => e.parser.id == id := by
    rw [List.find?_map]
    rfl
  rw [ parserEntry?, parserEntry?, hbare, hbare, h.parsers]

theorem parserFor?_eq (h : r.Gains a r') (extension : String) :
    (r'.parserFor? extension).map ParserEntry.bare =
      (r.parserFor? extension).map ParserEntry.bare := by
  rw [parserFor?, parserFor?, h.extensions]
  cases r.extensions.lookup (lowerCase extension) with
  | none => rfl
  | some id => exact h.parserEntry?_eq id

/-- The analyzer has its place among those of its parser. -/
theorem exists_analyzersOf (h : r.Gains a r') : ∃ l₁ l₂,
    r.analyzersOf a.analyzer.parserId = l₁ ++ l₂ ∧
      r'.analyzersOf a.analyzer.parserId = l₁ ++ a :: l₂ := by
  obtain ⟨l₁, l₂, hl, hl'⟩ := h.analyzers
  rw [h.wired.analyzersOf_eq, h.rewired.analyzersOf_eq, hl, hl', List.filter_append,
    List.filter_append, List.filter_cons_of_pos (by simp [h.owner])]
  exact ⟨_, _, rfl, rfl⟩

theorem analyzersOf_of_ne (h : r.Gains a r') {id : String} (hid : id ≠ a.analyzer.parserId) :
    r'.analyzersOf id = r.analyzersOf id := by
  obtain ⟨l₁, l₂, hl, hl'⟩ := h.analyzers
  rw [h.wired.analyzersOf_eq, h.rewired.analyzersOf_eq, hl, hl', List.filter_append,
    List.filter_append, List.filter_cons_of_neg (by simpa [h.owner] using hid.symm)]

/-- If no other add-in ever runs out of resources, none does. -/
theorem neverExhausts (h : r.Gains a r') (ha : a.FailsOn F) (hr : r.NeverExhausts) :
    r'.NeverExhausts where
  parse e' he' ctx := by
    have hbare : e'.bare ∈ r.parsers.map ParserEntry.bare :=
      h.parsers ▸ List.mem_map_of_mem he'
    obtain ⟨e, he, heq⟩ := List.mem_map.mp hbare
    obtain ⟨hparser, hprofile⟩ := ParserEntry.eq_of_bare heq
    have hparse := hr.parse e he ctx
    rwa [hparser, hprofile] at hparse
  analyze e he ctx := by
    obtain ⟨l₁, l₂, hl, hl'⟩ := h.analyzers
    rw [hl', List.mem_append, List.mem_cons] at he
    rcases he with he | rfl | he
    · exact hr.analyze e (hl ▸ List.mem_append_left _ he) ctx
    · intro s cause hcause
      by_cases hF : F s.file.path
      · obtain ⟨cause', hfails, hother⟩ := ha.fails ctx s hF
        rw [hfails] at hcause
        exact Except.error.inj hcause ▸ hother
      · rw [ha.passes ctx s hF] at hcause
        cases hcause
    · exact hr.analyze e (hl ▸ List.mem_append_right _ he) ctx

end Registry.Gains

/-! ## The work on a file -/

/-- Whether the result of work on a file is another one with extra violations on the file.  If
there are any, the results are not cached. -/
structure Processed.WithExtra (vs : List Violation) (p p' : Processed) : Prop where
  file : p.file.WithExtra vs p'.file
  outcome : p'.outcome = p.outcome
  change : p'.change = if vs.isEmpty then p.change else .drop
  cancels : p'.events.any Event.isCancel = p.events.any Event.isCancel

theorem Visit.WithExtra.refl (s : Visit) : s.WithExtra [] s :=
  ⟨SourceFile.withExtra_nil.mpr rfl, rfl, rfl⟩

theorem Attempt.WithExtra.refl (a : Attempt) : a.WithExtra [] a :=
  ⟨.refl _, (Bool.or_false _).symm⟩

theorem Processed.WithExtra.refl (p : Processed) : p.WithExtra [] p :=
  ⟨SourceFile.withExtra_nil.mpr rfl, rfl, rfl, rfl⟩

namespace FileJob

/-- What a parser makes of a file. -/
def read (j : FileJob) (e : ParserEntry) (f : SourceFile) : Visit × Except Stop ParseOutcome :=
  (e.parser.parse e.profile j.context).run j.context
    (({ file := f } : Visit).emit (.parsing e.parser.id f.path j.context.pass))

/-- Whether the parser with an id reads a file to the end. -/
def Completes (j : FileJob) (id : String) (f : SourceFile) : Prop :=
  f.done = false ∧ ∃ e, j.parserOf? f = some e ∧ e.parser.id = id ∧ j.isAddinEnabled id = true ∧
    (j.read e f).2 = .ok .complete

variable {j j' : FileJob} {a : AnalyzerEntry} {F : Path → Prop} {e e' : ParserEntry}
  {f : SourceFile} {vs : List Violation} {A A' : Attempt}

/-- Outside of fixing runs, a file that is read to the end is finished by its analyzers. -/
theorem parse_complete (hoff : j.context.autoFix = false)
    (h : (j.read e f).2 = .ok .complete) :
    j.parse e f = j.finish (j.analyzeAll { visit := (j.read e f).1 } e.parser.id) 0 := by
  unfold read at h
  simp only [parse, read]
  generalize (e.parser.parse e.profile j.context).run j.context
    (({ file := f } : Visit).emit (.parsing e.parser.id f.path j.context.pass)) = o at h ⊢
  obtain ⟨s, result⟩ := o
  obtain rfl : result = .ok .complete := h
  simp [fix, hoff]

theorem finish_withExtra (hstatus : j'.status = j.status) (h : A.WithExtra vs A') (n : Nat) :
    (j.finish A n).WithExtra vs (j'.finish A' n) where
  file := by
    obtain ⟨l₁, l₂, hl, hfile⟩ := h.visit.file
    exact ⟨l₁, l₂, hl, by rw [finish, hfile]; rfl⟩
  outcome := rfl
  change := by
    obtain ⟨ws, hfile⟩ := h.visit.file_eq
    have hmodified : A'.visit.file.modified = A.visit.file.modified := by rw [hfile]
    simp only [finish, hstatus, h.failed, hmodified]
    cases vs with
    | nil => simp
    | cons v vs => simp
  cancels := h.visit.cancels

/-- A file that its parser does not read to the end is never seen by analyzers. -/
theorem parse_incomplete (hctx : j'.context = j.context) (hstatus : j'.status = j.status)
    (hparser : e'.bare = e.bare) (h : (j.read e f).2 ≠ .ok .complete) :
    j'.parse e' f = j.parse e f := by
  obtain ⟨hp, hprofile⟩ := ParserEntry.eq_of_bare hparser
  unfold read at h
  simp only [parse, hp, hprofile, hctx]
  generalize (e.parser.parse e.profile j.context).run j.context
    (({ file := f } : Visit).emit (.parsing e.parser.id f.path j.context.pass)) = o at h ⊢
  obtain ⟨s, result⟩ := o
  rcases result with cause | (_ | _)
  · simp only [finish, hstatus]
  · exact absurd rfl h
  · rfl

/-- That an analyzer starts on a file asks nobody to stop. -/
theorem cancels_emit_analyzing (s : Visit) (id : String) (path : Path) (pass : Nat) :
    (s.emit (.analyzing id path pass)).events.any Event.isCancel =
      s.events.any Event.isCancel := by
  simp [Visit.emit, Event.isCancel]

/-- Where the analyzer does not fail, nothing comes of it. -/
theorem analyze_passes (ha : a.FailsOn F)
    (h : j.isAddinEnabled a.analyzer.id = true → ¬ F A.visit.file.path) :
    A.WithExtra [] (j.analyze A a) := by
  cases hon : j.isAddinEnabled a.analyzer.id with
  | false =>
    rw [analyze_of_off hon]
    exact .refl A
  | true =>
    obtain ⟨s', hrun, hfile, hheld, hcancels⟩ := ha.run_of_notMem
      (s := A.visit.emit (.analyzing a.analyzer.id A.visit.file.path j.context.pass))
      j.context (h hon)
    rw [analyze_of_on hon, hrun]
    exact ⟨⟨SourceFile.withExtra_nil.mpr hfile, hheld,
      hcancels.trans (cancels_emit_analyzing ..)⟩, (Bool.or_false _).symm⟩

/-- Where the analyzer fails, its failure is recorded. -/
theorem analyze_fails (ha : a.FailsOn F) (hon : j.isAddinEnabled a.analyzer.id = true)
    (hF : F A.visit.file.path) : ∃ message,
      A.visit.file.Lacks [a.failure A.visit.file.path message] →
        A.WithExtra [a.failure A.visit.file.path message] (j.analyze A a) := by
  obtain ⟨s', cause, hrun, hfile, hheld, hcancels, hother⟩ := ha.run_of_mem
    (s := A.visit.emit (.analyzing a.analyzer.id A.visit.file.path j.context.pass)) j.context hF
  refine ⟨cause.toError.message, fun hlacks => ?_⟩
  have hsame : s'.file = A.visit.file := hfile
  have hnew : s'.file.hasOccurrence (a.failure A.visit.file.path cause.toError.message) = false :=
    hsame ▸ hlacks _ (List.mem_singleton.mpr rfl)
  have hfailed : ({ A with visit := s' } : Attempt).fail ("Analyzer " ++ a.analyzer.id) cause =
      { A with
        failed := true
        visit := (s'.publish (a.failure A.visit.file.path cause.toError.message)).1 } := by
    simp only [Attempt.fail, hother, Bool.false_eq_true, ↓reduceIte, hsame]
    rfl
  rw [analyze_of_on hon, hrun]
  simp only [hfailed, Visit.publish, hnew, Bool.false_eq_true, ↓reduceIte,
    SourceFile.record_of_new hnew]
  refine ⟨⟨⟨A.visit.file.violations, [], (List.append_nil _).symm, ?_⟩, hheld, ?_⟩, ?_⟩
  · rw [hsame, List.append_nil]
  · rw [List.any_append, hcancels, cancels_emit_analyzing]
    simp [Event.isCancel]
  · simp

/-! ### The analyzer among the others -/

theorem analyze_congr (hctx : j'.context = j.context) : j'.analyze = j.analyze := by
  funext A e
  unfold analyze isAddinEnabled
  rw [hctx]

theorem path_analyzeEach (j : FileJob) (es : List AnalyzerEntry) (A : Attempt) :
    (es.foldl j.analyze A).visit.file.path = A.visit.file.path :=
  ((Visit.sameIdentity_invariant j.context A.visit.file).analyzeEach (.inl trivial)
    ⟨rfl, rfl, rfl⟩).path

/-- The analyzers of a parser go on alike where the one more does not fail. -/
theorem analyzeAll_spared (hg : j.registry.Gains a j'.registry) (ha : a.FailsOn F)
    (hblind : j.registry.IgnoresViolations) (hctx : j'.context = j.context) {id : String}
    (h : id = a.analyzer.parserId → j.isAddinEnabled a.analyzer.id = true →
      ¬ F A.visit.file.path) :
    (j.analyzeAll A id).WithExtra [] (j'.analyzeAll A id) := by
  unfold analyzeAll
  rw [analyze_congr hctx]
  by_cases hid : id = a.analyzer.parserId
  · obtain ⟨l₁, l₂, hl, hl'⟩ := hg.exists_analyzersOf
    have hmem (e : AnalyzerEntry) (he : e ∈ l₂) : e ∈ j.registry.analyzers :=
      Registry.mem_analyzers_of_analyzersOf (hl ▸ List.mem_append_right _ he)
    rw [hid, hl, hl', List.foldl_append, List.foldl_append, List.foldl_cons]
    have hstep : (l₁.foldl j.analyze A).WithExtra [] (j.analyze (l₁.foldl j.analyze A) a) := by
      refine analyze_passes ha ?_
      rw [path_analyzeEach]
      exact h hid
    exact analyzeEach_withExtra rfl hstep (fun e he => hblind e (hmem e he) j.context)
      fun v hv => absurd hv List.not_mem_nil
  · rw [hg.analyzersOf_of_ne hid]
    exact .refl _

/-- **Where the one more analyzer fails, the others go on all the same**: its failure is recorded
beside what they record. -/
theorem analyzeAll_struck (hg : j.registry.Gains a j'.registry) (ha : a.FailsOn F)
    (hblind : j.registry.IgnoresViolations) (hctx : j'.context = j.context)
    (hon : j.isAddinEnabled a.analyzer.id = true) (hF : F A.visit.file.path)
    (hlacks : ∀ message, (j.analyzeAll A a.analyzer.parserId).visit.file.hasOccurrence
      (a.failure A.visit.file.path message) = false) : ∃ message,
    (j.analyzeAll A a.analyzer.parserId).WithExtra [a.failure A.visit.file.path message]
      (j'.analyzeAll A a.analyzer.parserId) := by
  unfold analyzeAll at hlacks ⊢
  rw [analyze_congr hctx]
  obtain ⟨l₁, l₂, hl, hl'⟩ := hg.exists_analyzersOf
  have hmem (e : AnalyzerEntry) (he : e ∈ l₂) : e ∈ j.registry.analyzers :=
    Registry.mem_analyzers_of_analyzersOf (hl ▸ List.mem_append_right _ he)
  rw [hl, List.foldl_append] at hlacks ⊢
  rw [hl', List.foldl_append, List.foldl_cons]
  have hpath := j.path_analyzeEach l₁ A
  obtain ⟨message, hstep⟩ := analyze_fails (A := l₁.foldl j.analyze A) ha hon (hpath ▸ hF)
  rw [hpath] at hstep
  have hend : (l₂.foldl j.analyze (l₁.foldl j.analyze A)).visit.file.Lacks
      [a.failure A.visit.file.path message] := by
    intro v hv
    rw [List.mem_singleton.mp hv]
    exact hlacks message
  exact ⟨message, analyzeEach_withExtra rfl
    (hstep (hend.of_keeps (j.keeps_analyzeEach l₂ _)))
    (fun e he => hblind e (hmem e he) j.context) hend⟩

/-! ### The whole work on a file -/

theorem parserOf?_eq (hg : j.registry.Gains a j'.registry) (f : SourceFile) :
    (j'.parserOf? f).map ParserEntry.bare = (j.parserOf? f).map ParserEntry.bare := by
  unfold parserOf?
  cases f.extension? with
  | none => rfl
  | some extension => exact hg.parserFor?_eq extension

theorem path_read (j : FileJob) (e : ParserEntry) (f : SourceFile) :
    (j.read e f).1.file.path = f.path :=
  ((Visit.sameIdentity_invariant j.context f).act _ (.inl trivial) ⟨rfl, rfl, rfl⟩).path

theorem read_eq (hctx : j'.context = j.context) (hbare : e'.bare = e.bare) :
    j'.read e' f = j.read e f := by
  obtain ⟨hparser, hprofile⟩ := ParserEntry.eq_of_bare hbare
  rw [read, read, hparser, hprofile, hctx]

/-- **A file goes through as it did without the one more analyzer** unless that fails on it. -/
theorem process_spared (hg : j.registry.Gains a j'.registry) (ha : a.FailsOn F)
    (hblind : j.registry.IgnoresViolations) (hctx : j'.context = j.context)
    (hstatus : j'.status = j.status) (hoff : j.context.autoFix = false)
    (h : j.Completes a.analyzer.parserId f → j.isAddinEnabled a.analyzer.id = true →
      ¬ F f.path) :
    (j.process none f).WithExtra [] (j'.process none f) := by
  cases hd : f.done with
  | true =>
    rw [process_done hd, process_done hd]
    exact .refl _
  | false =>
    have hparser := parserOf?_eq hg f
    cases hp : j.parserOf? f with
    | none =>
      rw [hp, Option.map_none, Option.map_eq_none_iff] at hparser
      simp only [process, hd, hp, hparser]
      exact .refl _
    | some e =>
      rw [hp, Option.map_some] at hparser
      obtain ⟨e', hp', hbare⟩ := Option.map_eq_some_iff.mp hparser
      obtain ⟨hsame, -⟩ := ParserEntry.eq_of_bare hbare
      cases hon : j.isAddinEnabled e.parser.id with
      | false =>
        have hon' : j'.isAddinEnabled e'.parser.id = false := by
          rw [isAddinEnabled, hctx, hsame]
          exact hon
        simp only [process, hd, hp, hp', hon, hon', Bool.false_eq_true, ↓reduceIte]
        exact .refl _
      | true =>
        have hon' : j'.isAddinEnabled e'.parser.id = true := by
          rw [isAddinEnabled, hctx, hsame]
          exact hon
        simp only [process, hd, hp, hp', hon, hon', Bool.false_eq_true, ↓reduceIte]
        by_cases hread : (j.read e f).2 = .ok .complete
        · rw [parse_complete hoff hread,
            parse_complete (hctx ▸ hoff) (read_eq hctx hbare ▸ hread), read_eq hctx hbare, hsame]
          refine finish_withExtra hstatus (analyzeAll_spared hg ha hblind hctx ?_) 0
          intro hid
          rw [path_read]
          exact h ⟨hd, e, hp, hid, hid ▸ hon, hread⟩
        · rw [parse_incomplete hctx hstatus hbare hread]
          exact .refl _

/-- **A file on which the one more analyzer fails** has its failure beside all else that is found
there, and its results are not cached. -/
theorem process_struck (hg : j.registry.Gains a j'.registry) (ha : a.FailsOn F)
    (hblind : j.registry.IgnoresViolations) (hctx : j'.context = j.context)
    (hstatus : j'.status = j.status) (hoff : j.context.autoFix = false)
    (hcompletes : j.Completes a.analyzer.parserId f)
    (hon : j.isAddinEnabled a.analyzer.id = true) (hF : F f.path)
    (hlacks : ∀ message,
      (j.process none f).file.hasOccurrence (a.failure f.path message) = false) :
    (j.process none f).outcome = .analyzed ∧ ∃ message,
      (j.process none f).WithExtra [a.failure f.path message] (j'.process none f) := by
  obtain ⟨hd, e, hp, hid, hparserOn, hread⟩ := hcompletes
  have hparser := parserOf?_eq hg f
  rw [hp, Option.map_some] at hparser
  obtain ⟨e', hp', hbare⟩ := Option.map_eq_some_iff.mp hparser
  obtain ⟨hsame, -⟩ := ParserEntry.eq_of_bare hbare
  have hparserOn' : j'.isAddinEnabled a.analyzer.parserId = true := by
    rw [isAddinEnabled, hctx]
    exact hparserOn
  have hprocess : j.process none f =
      j.finish (j.analyzeAll { visit := (j.read e f).1 } a.analyzer.parserId) 0 := by
    simp only [process, hd, hp, hid, hparserOn, Bool.false_eq_true, ↓reduceIte]
    rw [parse_complete hoff hread, hid]
  have hprocess' : j'.process none f =
      j'.finish (j'.analyzeAll { visit := (j.read e f).1 } a.analyzer.parserId) 0 := by
    simp only [process, hd, hp', hsame, hid, hparserOn', Bool.false_eq_true, ↓reduceIte]
    rw [parse_complete (hctx ▸ hoff) (read_eq hctx hbare ▸ hread), read_eq hctx hbare, hsame, hid]
  rw [hprocess] at hlacks ⊢
  rw [hprocess']
  refine ⟨rfl, ?_⟩
  have hpath := j.path_read e f
  obtain ⟨message, hend⟩ := analyzeAll_struck (A := { visit := (j.read e f).1 }) hg ha hblind hctx
    hon (hpath.symm ▸ hF) (by rw [hpath]; exact hlacks)
  rw [hpath] at hend
  exact ⟨message, finish_withExtra hstatus hend 0⟩

end FileJob

end StyleEngine
