import StyleEngine.Run.FileJob

/-! # What work on a file can do to it

Add-ins touch a file through the acts of `Act` only, and the work around them
records violations and applies fixes.  So a property of a visit that these few
operations keep (`Visit.Invariant`) is kept by the whole work on a file,
whatever the add-ins are.  The path, the digest and the done marker are never
touched, and no occurrence is ever recorded twice.
-/
namespace StyleEngine

/-! ## The add-ins that may be called -/

theorem Registry.mem_parsers_of_parserEntry? {r : Registry} {id : String} {e : ParserEntry}
    (h : r.parserEntry? id = some e) : e ∈ r.parsers := List.mem_of_find?_eq_some h

theorem Registry.mem_parsers_of_parserFor? {r : Registry} {extension : String} {e : ParserEntry}
    (h : r.parserFor? extension = some e) : e ∈ r.parsers := by
  obtain ⟨id, -, hid⟩ := Option.bind_eq_some_iff.mp h
  exact mem_parsers_of_parserEntry? hid

theorem Registry.mem_analyzers_of_analyzersOf {r : Registry} {id : String} {e : AnalyzerEntry}
    (h : e ∈ r.analyzersOf id) : e ∈ r.analyzers := by
  unfold analyzersOf at h
  split at h
  · obtain ⟨a, -, ha⟩ := List.mem_filterMap.mp h
    exact List.mem_of_find?_eq_some ha
  · cases h

theorem FileJob.mem_parsers_of_parserOf? {j : FileJob} {f : SourceFile} {e : ParserEntry}
    (h : j.parserOf? f = some e) : e ∈ j.registry.parsers := by
  obtain ⟨extension, -, he⟩ := Option.bind_eq_some_iff.mp h
  exact Registry.mem_parsers_of_parserFor? he

/-! ## Properties that every operation on a visit keeps -/

/-- Whether acts publish violations on the file under analysis only.  A report on another file is
held back then, and so it is this file that it may be published on. -/
def Act.PublishesOnFile {α : Type} (ctx : FileContext) : Act α → Prop
  | .done _ | .stop _ => True
  | .takeText next => ∀ text, (next text).PublishesOnFile ctx
  | .look next => ∀ f, (next f).PublishesOnFile ctx
  | .setModel _ next => next.PublishesOnFile ctx
  | .report _ next => ∀ isNew, (next isNew).PublishesOnFile ctx
  | .reportOn _ v next => (ctx.autoFix && v.hasSafeFix) = true ∧
    ∀ f isNew, (next f isNew).PublishesOnFile ctx
  | .output _ next => next.PublishesOnFile ctx
  | .note _ next => next.PublishesOnFile ctx
  | .cancel next => next.PublishesOnFile ctx

/-- Whether all registered add-ins publish violations on the files that they work on only. -/
structure Registry.PublishesOnFiles (r : Registry) : Prop where
  parse : ∀ e ∈ r.parsers, ∀ ctx, (e.parser.parse e.profile ctx).PublishesOnFile ctx
  analyze : ∀ e ∈ r.analyzers, ∀ ctx, (e.analyzer.analyze e.profile ctx).PublishesOnFile ctx

theorem Visit.graded_hasSafeFix (ctx : FileContext) (v : Violation) :
    (graded ctx v).hasSafeFix = v.hasSafeFix := by
  unfold graded
  split <;> rfl

/-- A property of visits that the operations on a visit keep.  Violations on the file are told of
by publishing them only, and fixes are applied in fixing runs only.  Whether the property is also
kept when a violation on another file is told of, is `elsewhere`. -/
structure Visit.Invariant (ctx : FileContext) (P : Visit → Prop) (elsewhere : Prop) : Prop where
  takeText : ∀ {s}, P s → P { s with file := s.file.takeText.2 }
  setModel : ∀ {s} m, P s → P { s with file := s.file.setModel m }
  hold : ∀ {s} v, P s → P { s with held := s.held ++ [v] }
  publish : ∀ {s} v, P s → P (s.publish v).1
  emit : ∀ {s} e, (e.violation? = none ∨ elsewhere) → P s → P (s.emit e)
  fix : ∀ {s}, ctx.autoFix = true → P s →
    P { s with file := (s.file.applyFixes s.held).file, held := [] }

namespace Visit.Invariant

variable {ctx : FileContext} {P : Visit → Prop} {elsewhere : Prop}

theorem report (h : Invariant ctx P elsewhere) {s : Visit} (v : Violation) (hs : P s) :
    P (s.report ctx v).1 := by
  simp only [Visit.report]
  split
  · exact hs
  · split
    · split
      · exact hs
      · exact h.hold _ hs
    · exact h.publish _ hs

theorem reportOn (h : Invariant ctx P elsewhere) {v : Violation}
    (hv : elsewhere ∨ (ctx.autoFix && v.hasSafeFix) = true) {s : Visit} (f : SourceFile)
    (hs : P s) : P (s.reportOn ctx f v).1 := by
  simp only [Visit.reportOn, Visit.graded_hasSafeFix]
  split
  · exact hs
  · split
    · split
      · exact hs
      · exact h.hold _ hs
    · next hback =>
      split
      · exact hs
      · exact h.emit _ (.inr (hv.resolve_right hback)) hs

/-- What each act keeps, a sequence of acts keeps. -/
theorem act {α : Type} (h : Invariant ctx P elsewhere) (a : Act α)
    (ha : elsewhere ∨ a.PublishesOnFile ctx) {s : Visit} (hs : P s) : P (a.run ctx s).1 := by
  induction a generalizing s with
  | done _ => exact hs
  | stop _ => exact hs
  | takeText _ ih => exact ih _ (ha.imp_right fun ha => ha _) (h.takeText hs)
  | look _ ih => exact ih _ (ha.imp_right fun ha => ha _) hs
  | setModel m _ ih => exact ih ha (h.setModel m hs)
  | report v _ ih => exact ih _ (ha.imp_right fun ha => ha _) (h.report v hs)
  | reportOn f v _ ih =>
    exact ih _ _ (ha.imp_right fun ha => ha.2 _ _) (h.reportOn (ha.imp_right And.left) f hs)
  | output _ _ ih => exact ih ha (h.emit _ (.inl rfl) hs)
  | note _ _ ih => exact ih ha (h.emit _ (.inl rfl) hs)
  | cancel _ ih => exact ih ha (h.emit _ (.inl rfl) hs)

theorem publishAll (h : Invariant ctx P elsewhere) (vs : List Violation) {s : Visit} (hs : P s) :
    P (vs.foldl (fun s v => (s.publish v).1) s) := by
  induction vs generalizing s with
  | nil => exact hs
  | cons v vs ih => exact ih (h.publish v hs)

theorem fail (h : Invariant ctx P elsewhere) {a : Attempt} (who : String) (cause : Stop)
    (ha : P a.visit) : P (a.fail who cause).visit := by
  simp only [Attempt.fail]
  split
  · exact ha
  · exact h.publish _ ha

section

variable {j : FileJob}

theorem analyze (h : Invariant j.context P elsewhere) {e : AnalyzerEntry}
    (he : elsewhere ∨ (e.analyzer.analyze e.profile j.context).PublishesOnFile j.context)
    {a : Attempt} (ha : P a.visit) : P (j.analyze a e).visit := by
  simp only [FileJob.analyze]
  split
  · exact ha
  · have hrun := h.act (e.analyzer.analyze e.profile j.context) he
      (h.emit (.analyzing e.analyzer.id a.visit.file.path j.context.pass) (.inl rfl) ha)
    split <;> rename_i heq <;> rw [heq] at hrun
    · exact hrun
    · exact h.fail _ _ hrun

theorem analyzeEach (h : Invariant j.context P elsewhere) {es : List AnalyzerEntry}
    (hes : elsewhere ∨ ∀ e ∈ es, (e.analyzer.analyze e.profile j.context).PublishesOnFile j.context)
    {a : Attempt} (ha : P a.visit) : P (es.foldl j.analyze a).visit := by
  refine List.foldlRecOn (motive := fun a : Attempt => P a.visit) es j.analyze ha ?_
  intro a ha e he
  exact h.analyze (hes.imp_right fun hes => hes e he) ha

theorem analyzeAll (h : Invariant j.context P elsewhere)
    (hj : elsewhere ∨ j.registry.PublishesOnFiles) {a : Attempt} (parser : String)
    (ha : P a.visit) : P (j.analyzeAll a parser).visit := by
  refine h.analyzeEach (hj.imp_right fun hj e he => ?_) ha
  exact hj.analyze e (Registry.mem_analyzers_of_analyzersOf he) j.context

theorem fixing (h : Invariant j.context P elsewhere) {a : Attempt} (ha : P a.visit) :
    P (j.fix a).1.visit := by
  simp only [FileJob.fix]
  split
  · next hfix => exact h.publishAll _ (h.fix hfix ha)
  · exact ha

end

end Visit.Invariant

namespace FileJob

/-- **What comes of parsing a file.**  Either the parser defers it, or the file is finished
after an attempt; both come from a visit with every property that holds of the file at first
and that visits keep. -/
theorem parse_cases {j : FileJob} {elsewhere : Prop}
    (hj : elsewhere ∨ j.registry.PublishesOnFiles) {e : ParserEntry} (he : e ∈ j.registry.parsers)
    (f : SourceFile) {P : Visit → Prop} (h : Visit.Invariant j.context P elsewhere)
    (hf : P { file := f }) :
    (∃ s, P s ∧ j.parse e f = { file := s.file, outcome := .deferred, events := s.events }) ∨
    (∃ a n, P a.visit ∧ j.parse e f = j.finish a n) := by
  have hrun := h.act (e.parser.parse e.profile j.context)
    (hj.imp_right fun hj => hj.parse e he j.context)
    (h.emit (.parsing e.parser.id f.path j.context.pass) (.inl rfl) hf)
  simp only [FileJob.parse]
  split <;> rename_i heq <;> rw [heq] at hrun
  · exact .inl ⟨_, hrun, rfl⟩
  · exact .inr ⟨_, _, h.fail _ _ hrun, rfl⟩
  · exact .inr ⟨_, _, h.fixing (h.analyzeAll hj _ hrun), rfl⟩

/-- **What comes of a file.**  It was done already, has nothing to be done, is served from the
cache, or is parsed. -/
theorem process_cases (j : FileJob) (cached : Option (List Violation)) (f : SourceFile) :
    (f.done = true ∧ j.process cached f = { file := f, outcome := .skipped }) ∨
    (f.done = false ∧ cached = none ∧ j.process cached f = skip f ∧
      ∀ e, j.parserOf? f = some e → j.isAddinEnabled e.parser.id = false) ∨
    (f.done = false ∧ ∃ vs, cached = some vs ∧ j.process cached f = serve f vs) ∨
    (f.done = false ∧ cached = none ∧ ∃ e, j.parserOf? f = some e ∧
      j.isAddinEnabled e.parser.id = true ∧ j.process cached f = j.parse e f) := by
  unfold process
  by_cases hd : f.done = true
  · exact .inl ⟨hd, by rw [if_pos hd]⟩
  · rw [if_neg hd]
    have hd' : f.done = false := Bool.eq_false_iff.mpr hd
    cases cached with
    | some vs => exact .inr (.inr (.inl ⟨hd', vs, rfl, rfl⟩))
    | none =>
      cases hp : j.parserOf? f with
      | none => exact .inr (.inl ⟨hd', rfl, rfl, by simp⟩)
      | some e =>
        by_cases he : j.isAddinEnabled e.parser.id = true
        · exact .inr (.inr (.inr ⟨hd', rfl, e, rfl, he, by simp [he]⟩))
        · refine .inr (.inl ⟨hd', rfl, by simp [he], ?_⟩)
          rintro _ ⟨⟩
          exact Bool.eq_false_iff.mpr he

end FileJob

/-! ## What never changes -/

/-- Whether a file has the path, the digest and the done marker of another. -/
structure SourceFile.SameIdentity (f g : SourceFile) : Prop where
  path : g.path = f.path
  digest : g.digest = f.digest
  done : g.done = f.done

namespace Visit

/-- Publishing records a violation on a file unless it has the occurrence. -/
theorem publish_file (s : Visit) (v : Violation) : (s.publish v).1.file = s.file.record v := by
  unfold publish
  split
  · next h =>
    have hany : (s.file.violations.any fun x => x.sameOccurrence v) = true := h
    rw [SourceFile.record, Violation.insertNew, if_pos hany]
  · rfl

theorem publish_file_violations (s : Visit) (v : Violation) :
    (s.publish v).1.file.violations = Violation.insertNew s.file.violations v := by
  rw [publish_file]
  rfl

/-- Publishing violations touches nothing else of a file. -/
theorem publishAll_file (s : Visit) (vs : List Violation) :
    (vs.foldl (fun s v => (s.publish v).1) s).file =
      { s.file with violations := vs.foldl Violation.insertNew s.file.violations } := by
  induction vs generalizing s with
  | nil => rfl
  | cons v vs ih =>
    rw [List.foldl_cons, ih, publish_file]
    rfl

@[simp] theorem publish_held (s : Visit) (v : Violation) : (s.publish v).1.held = s.held := by
  unfold publish
  split <;> rfl

end Visit

/-- Fixes touch the model of a file and its modified marker only. -/
theorem FixOutcome.attempt_file (o : FixOutcome) (v : Violation) :
    ∃ m, (o.attempt v).file = { o.file with model := m } := by
  unfold attempt
  cases hf : o.fixed? v with
  | none => exact ⟨o.file.model, rfl⟩
  | some file =>
    simp only [fixed?] at hf
    split at hf
    · obtain ⟨m, -, rfl⟩ := Option.map_eq_some_iff.mp hf
      exact ⟨some m, rfl⟩
    · cases hf

theorem FixOutcome.attempts_file (vs : List Violation) (o : FixOutcome) :
    ∃ m, (vs.foldl attempt o).file = { o.file with model := m } := by
  induction vs generalizing o with
  | nil => exact ⟨o.file.model, rfl⟩
  | cons v vs ih =>
    obtain ⟨m, hm⟩ := o.attempt_file v
    obtain ⟨m', hm'⟩ := ih (o.attempt v)
    exact ⟨m', by rw [List.foldl_cons, hm', hm]⟩

theorem SourceFile.applyFixes_file (f : SourceFile) (vs : List Violation) :
    ∃ m b, (f.applyFixes vs).file = { f with model := m, modified := b } := by
  obtain ⟨m, hm⟩ := FixOutcome.attempts_file (bottomUp vs) { file := f }
  unfold applyFixes FixOutcome.mark
  split
  · exact ⟨m, f.modified, hm⟩
  · exact ⟨m, true, by rw [hm]⟩

theorem Visit.sameIdentity_invariant (ctx : FileContext) (f : SourceFile) :
    Visit.Invariant ctx (fun s => f.SameIdentity s.file) True where
  takeText h := ⟨h.path, h.digest, h.done⟩
  setModel _ h := ⟨h.path, h.digest, h.done⟩
  hold _ h := h
  publish {s} v h := by
    rw [s.publish_file]
    exact ⟨h.path, h.digest, h.done⟩
  emit _ _ h := h
  fix {s} _ h := by
    obtain ⟨m, b, hm⟩ := s.file.applyFixes_file s.held
    simp only [hm]
    exact ⟨h.path, h.digest, h.done⟩

/-- Outside of fixing runs, work on a file leaves the modified marker alone. -/
theorem Visit.modified_invariant {ctx : FileContext} (hctx : ctx.autoFix = false) (b : Bool) :
    Visit.Invariant ctx (fun s => s.file.modified = b) True where
  takeText h := h
  setModel _ h := h
  hold _ h := h
  publish {s} v h := by
    rw [s.publish_file]
    exact h
  emit _ _ h := h
  fix h := by rw [hctx] at h; cases h

theorem Violation.sameOccurrence_comm (v w : Violation) :
    v.sameOccurrence w = w.sameOccurrence v := by
  have hfile : sameFile v.file w.file = sameFile w.file v.file := by
    cases v.file <;> cases w.file <;> first | rfl | exact BEq.comm
  simp only [sameOccurrence, hfile]
  rw [@BEq.comm _ _ _ v.ruleId, @BEq.comm _ _ _ v.line, @BEq.comm _ _ _ v.element,
    @BEq.comm _ _ _ v.message]

/-- No occurrence stands twice in a list of violations. -/
def Violation.NoRepeats (vs : List Violation) : Prop :=
  vs.Pairwise fun v w => v.sameOccurrence w = false

theorem Violation.noRepeats_insertNew {vs : List Violation} (h : NoRepeats vs) (v : Violation) :
    NoRepeats (insertNew vs v) := by
  unfold insertNew
  split
  · exact h
  · next hv =>
    refine List.pairwise_append.mpr ⟨h, List.pairwise_singleton _ _, ?_⟩
    intro a ha b hb
    rw [List.mem_singleton] at hb
    subst b
    refine Bool.eq_false_iff.mpr fun hab => hv (List.any_eq_true.mpr ⟨a, ha, hab⟩)

theorem Visit.noRepeats_invariant (ctx : FileContext) :
    Visit.Invariant ctx (fun s => Violation.NoRepeats s.file.violations) True where
  takeText h := h
  setModel _ h := h
  hold _ h := h
  publish {s} v h := by
    rw [s.publish_file_violations v]
    exact Violation.noRepeats_insertNew h v
  emit _ _ h := h
  fix {s} _ h := by
    obtain ⟨m, b, hm⟩ := s.file.applyFixes_file s.held
    simp only [hm]
    exact h

namespace FileJob

/-- **What visits keep, the work on a file keeps**: what it tells and the file that it gives are
those of a visit with the property, the file possibly marked as done. -/
theorem process_visit (j : FileJob) {elsewhere : Prop}
    (hj : elsewhere ∨ j.registry.PublishesOnFiles) (cached : Option (List Violation))
    (f : SourceFile) {P : Visit → Prop} (h : Visit.Invariant j.context P elsewhere)
    (hf : P { file := f }) :
    ∃ s, P s ∧ (j.process cached f).events = s.events ∧ ((j.process cached f).file = s.file ∨
      (j.process cached f).file = s.file.markDone) := by
  rcases j.process_cases cached f with ⟨-, hp⟩ | ⟨-, -, hp, -⟩ | ⟨-, vs, -, hp⟩ |
    ⟨-, -, e, he, -, hp⟩
  · exact ⟨_, hf, by rw [hp], .inl (by rw [hp])⟩
  · exact ⟨_, hf, by rw [hp]; rfl, .inr (by rw [hp]; rfl)⟩
  · exact ⟨_, h.publishAll vs hf, by rw [hp]; rfl, .inr (by rw [hp]; rfl)⟩
  · rcases parse_cases hj (mem_parsers_of_parserOf? he) f h hf with ⟨s, hs, he⟩ | ⟨a, n, ha, he⟩
    · exact ⟨s, hs, by rw [hp, he], .inl (by rw [hp, he])⟩
    · exact ⟨a.visit, ha, by rw [hp, he]; rfl, .inr (by rw [hp, he]; rfl)⟩

/-- The path and the digest of a file stay. -/
theorem process_identity (j : FileJob) (cached : Option (List Violation)) (f : SourceFile) :
    (j.process cached f).file.path = f.path ∧ (j.process cached f).file.digest = f.digest := by
  obtain ⟨s, hs, -, h | h⟩ :=
    j.process_visit (.inl trivial) cached f
      (Visit.sameIdentity_invariant j.context f) ⟨rfl, rfl, rfl⟩
  · rw [h]; exact ⟨hs.path, hs.digest⟩
  · rw [h]; exact ⟨hs.path, hs.digest⟩

/-- No occurrence is recorded twice. -/
theorem process_noRepeats (j : FileJob) (cached : Option (List Violation)) {f : SourceFile}
    (hf : Violation.NoRepeats f.violations) :
    Violation.NoRepeats (j.process cached f).file.violations := by
  obtain ⟨s, hs, -, h | h⟩ :=
    j.process_visit (.inl trivial) cached f (Visit.noRepeats_invariant j.context) hf
  · rw [h]; exact hs
  · rw [h]; exact hs

/-- Outside of fixing runs no file is marked as modified. -/
theorem process_modified {j : FileJob} (hj : j.context.autoFix = false)
    (cached : Option (List Violation)) (f : SourceFile) :
    (j.process cached f).file.modified = f.modified := by
  obtain ⟨s, hs, -, h | h⟩ :=
    j.process_visit (.inl trivial) cached f (Visit.modified_invariant hj f.modified) rfl
  · rw [h]; exact hs
  · rw [h]; exact hs

/-- **A file is done after work on it exactly if it was not deferred.** -/
theorem process_done_iff (j : FileJob) (cached : Option (List Violation)) (f : SourceFile) :
    (j.process cached f).file.done = true ↔ (j.process cached f).outcome ≠ .deferred := by
  rcases j.process_cases cached f with ⟨hd, h⟩ | ⟨-, -, h, -⟩ | ⟨-, vs, -, h⟩ | ⟨hd, -, e, he, -, h⟩
  · simp [h, hd]
  · simp [h, skip, SourceFile.markDone]
  · simp [h, serve, SourceFile.markDone]
  · rcases parse_cases (.inl trivial) (mem_parsers_of_parserOf? he) f
      (Visit.sameIdentity_invariant j.context f) ⟨rfl, rfl, rfl⟩ with ⟨s, hs, hp⟩ | ⟨a, n, -, hp⟩
    · simp [h, hp, hs.done, hd]
    · simp [h, hp, finish, SourceFile.markDone]

/-- A file that is done is left as it is, and no add-in is called on it. -/
theorem process_done {j : FileJob} {f : SourceFile} (h : f.done = true)
    (cached : Option (List Violation)) :
    j.process cached f = { file := f, outcome := .skipped } := by
  unfold process; rw [if_pos h]

end FileJob

/-! ## Violations, each occurrence once -/

/-- To keep what is new, one item after the other, is to drop what came before. -/
theorem foldl_eq_map_eraseDupsBy {α β : Type} {same : α → α → Bool}
    (hcomm : ∀ a b, same a b = same b a) {f : α → β} {keep : List β → α → List β}
    (hkeep : ∀ (kept : List α) (a : α), keep (kept.map f) a =
      if kept.any (same · a) then kept.map f else (kept ++ [a]).map f) (as : List α) :
    as.foldl keep [] = (as.eraseDupsBy same).map f := by
  -- the items kept so far stand in reverse order
  have hloop (as kept : List α) : as.foldl keep (kept.reverse.map f) =
      (List.eraseDupsBy.loop same as kept).map f := by
    induction as generalizing kept with
    | nil => rfl
    | cons a as ih =>
      have hany : kept.reverse.any (same · a) = kept.any (same a) := by
        rw [List.any_reverse]
        exact congrArg kept.any (funext fun b => hcomm b a)
      rw [List.foldl_cons, hkeep, hany, List.eraseDupsBy.loop]
      cases kept.any (same a) with
      | true => exact ih kept
      | false =>
        rw [if_neg Bool.false_ne_true, ← List.reverse_cons]
        exact ih (a :: kept)
  exact hloop as []

namespace Violation

/-- The violations of a list, each occurrence once. -/
def distinct (vs : List Violation) : List Violation := vs.foldl insertNew []

theorem distinct_concat (vs : List Violation) (v : Violation) :
    distinct (vs ++ [v]) = insertNew (distinct vs) v := by
  rw [distinct, List.foldl_append]; rfl

theorem noRepeats_distinct (vs : List Violation) : NoRepeats (distinct vs) := by
  have hfold (vs acc : List Violation) (hacc : NoRepeats acc) :
      NoRepeats (vs.foldl insertNew acc) := by
    induction vs generalizing acc with
    | nil => exact hacc
    | cons v vs ih => exact ih _ (noRepeats_insertNew hacc v)
  exact hfold vs [] .nil

/-- Adding violations without repetition one by one adds them all. -/
theorem foldl_insertNew {vs acc : List Violation} (h : NoRepeats (acc ++ vs)) :
    vs.foldl insertNew acc = acc ++ vs := by
  induction vs generalizing acc with
  | nil => simp
  | cons v vs ih =>
    have hnew : (acc.any fun w => w.sameOccurrence v) = false := by
      refine List.any_eq_false.mpr ?_
      intro w hw
      rw [(List.pairwise_append.mp h).2.2 w hw v List.mem_cons_self]
      exact Bool.false_ne_true
    have hinsert : insertNew acc v = acc ++ [v] := by
      rw [insertNew, hnew]; rfl
    rw [List.foldl_cons, hinsert, ih (by rwa [List.append_assoc]), List.append_assoc]
    rfl

theorem distinct_of_noRepeats {vs : List Violation} (h : NoRepeats vs) : distinct vs = vs :=
  foldl_insertNew h

theorem mem_of_mem_distinct {vs : List Violation} {v : Violation}
    (h : v ∈ distinct vs) : v ∈ vs := by
  have hfold (vs acc : List Violation) (h : v ∈ vs.foldl insertNew acc) : v ∈ acc ∨ v ∈ vs := by
    induction vs generalizing acc with
    | nil => exact .inl h
    | cons w vs ih =>
      rcases ih _ h with h | h
      · unfold insertNew at h
        split at h
        · exact .inl h
        · rcases List.mem_append.mp h with h | h
          · exact .inl h
          · exact .inr (List.mem_singleton.mp h ▸ List.mem_cons_self)
      · exact .inr (List.mem_cons_of_mem _ h)
  exact (hfold vs [] h).resolve_left List.not_mem_nil

theorem mem_insertNew_of_mem {vs : List Violation} {v : Violation} (h : v ∈ vs) (w : Violation) :
    v ∈ insertNew vs w := by
  unfold insertNew
  split
  · exact h
  · exact List.mem_append_left _ h

theorem eq_nil_of_distinct {vs : List Violation} (h : distinct vs = []) : vs = [] := by
  have hfold (vs acc : List Violation) {v : Violation} (hv : v ∈ acc) :
      v ∈ vs.foldl insertNew acc := by
    induction vs generalizing acc with
    | nil => exact hv
    | cons w vs ih => exact ih _ (mem_insertNew_of_mem hv w)
  cases vs with
  | nil => rfl
  | cons v vs =>
    have hv : v ∈ distinct (v :: vs) := hfold vs (insertNew [] v) List.mem_cons_self
    rw [h] at hv
    cases hv

end Violation

/-! ## The parser of a file -/

/-- The parser that reads the file at a path, if the settings leave it on. -/
def Registry.reader? (r : Registry) (s : Settings) (path : Path) : Option ParserEntry :=
  ((path.extension?.map lowerCase).bind r.parserFor?).filter fun e => s.isAddinEnabled e.parser.id

namespace FileJob

variable {j : FileJob} {f : SourceFile}

theorem reader?_of_parserOf? {e : ParserEntry} (h : j.parserOf? f = some e)
    (hon : j.isAddinEnabled e.parser.id = true) :
    j.registry.reader? j.context.settings f.path = some e := by
  unfold parserOf? SourceFile.extension? at h
  have hon' : j.context.settings.isAddinEnabled e.parser.id = true := hon
  simp [Registry.reader?, h, hon']

theorem reader?_eq_none (h : ∀ e, j.parserOf? f = some e → j.isAddinEnabled e.parser.id = false) :
    j.registry.reader? j.context.settings f.path = none := by
  refine Option.eq_none_iff_forall_ne_some.mpr ?_
  intro e he
  obtain ⟨hparser, hon⟩ := Option.filter_eq_some_iff.mp he
  have hoff : j.context.settings.isAddinEnabled e.parser.id = false := h e hparser
  rw [hoff] at hon
  cases hon

end FileJob

/-! ## Files served from the cache -/

theorem FileJob.serve_file (f : SourceFile) (vs : List Violation) : (serve f vs).file =
    { f with violations := vs.foldl Violation.insertNew f.violations, done := true } := by
  simp only [serve, Visit.publishAll_file, SourceFile.markDone]

/-! ## Exhausted resources -/

/-- Whether acts in a context never stop for want of resources. -/
def Act.NeverExhausts {α : Type} (ctx : FileContext) (a : Act α) : Prop :=
  ∀ s cause, (a.run ctx s).2 = .error cause → cause.toError.isExhaustion = false

/-- Whether no registered add-in ever runs out of resources on a file. -/
structure Registry.NeverExhausts (r : Registry) : Prop where
  parse : ∀ e ∈ r.parsers, ∀ ctx, (e.parser.parse e.profile ctx).NeverExhausts ctx
  analyze : ∀ e ∈ r.analyzers, ∀ ctx, (e.analyzer.analyze e.profile ctx).NeverExhausts ctx

namespace FileJob

theorem fail_fatal {a : Attempt} {who : String} {cause : Stop}
    (h : cause.toError.isExhaustion = false) : (a.fail who cause).fatal = a.fatal := by
  simp [Attempt.fail, h]

theorem analyze_fatal {j : FileJob} (h : j.registry.NeverExhausts) {e : AnalyzerEntry}
    (he : e ∈ j.registry.analyzers) (a : Attempt) : (j.analyze a e).fatal = a.fatal := by
  simp only [analyze]
  split
  · rfl
  · split
    · rfl
    · next heq =>
      exact fail_fatal (h.analyze e he j.context _ _ (congrArg Prod.snd heq))

theorem analyzeAll_fatal {j : FileJob} (h : j.registry.NeverExhausts) (parser : String)
    (a : Attempt) : (j.analyzeAll a parser).fatal = a.fatal := by
  have hmem (e : AnalyzerEntry) (he : e ∈ j.registry.analyzersOf parser) :
      e ∈ j.registry.analyzers := Registry.mem_analyzers_of_analyzersOf he
  unfold analyzeAll
  generalize j.registry.analyzersOf parser = es at hmem
  induction es generalizing a with
  | nil => rfl
  | cons e es ih =>
    rw [List.foldl_cons, ih _ fun x hx => hmem x (List.mem_cons_of_mem _ hx),
      analyze_fatal h (hmem e List.mem_cons_self)]

theorem fix_fatal (j : FileJob) (a : Attempt) : (j.fix a).1.fatal = a.fatal := by
  unfold fix; split <;> rfl

/-- Whether an attempt was ended, if at all, by an exhaustion of resources. -/
def EndsByExhaustion (a : Attempt) : Prop := ∀ e, a.fatal = some e → e.isExhaustion = true

theorem EndsByExhaustion.fail {a : Attempt} (h : EndsByExhaustion a) (who : String)
    (cause : Stop) : EndsByExhaustion (a.fail who cause) := by
  simp only [Attempt.fail]
  split
  · next hex =>
    intro e he
    rcases Option.or_eq_some_iff.mp he with he | ⟨-, he⟩
    · exact h e he
    · exact Option.some.inj he ▸ hex
  · exact h

theorem EndsByExhaustion.analyze {a : Attempt} (h : EndsByExhaustion a) (j : FileJob)
    (e : AnalyzerEntry) : EndsByExhaustion (j.analyze a e) := by
  simp only [FileJob.analyze]
  split
  · exact h
  · split
    · exact h
    · next visit _ _ =>
      have hvisit : EndsByExhaustion { a with visit } := h
      exact hvisit.fail _ _

theorem EndsByExhaustion.analyzeAll {a : Attempt} (h : EndsByExhaustion a) (j : FileJob)
    (parser : String) : EndsByExhaustion (j.analyzeAll a parser) := by
  unfold FileJob.analyzeAll
  induction j.registry.analyzersOf parser generalizing a with
  | nil => exact h
  | cons e es ih => exact ih (h.analyze j e)

/-- **Only exhausted resources end a run.** -/
theorem isExhaustion_of_process_fatal {j : FileJob} {cached : Option (List Violation)}
    {f : SourceFile} {e : AddInError} (h : (j.process cached f).fatal = some e) :
    e.isExhaustion = true := by
  have hstart (v : Visit) : EndsByExhaustion { visit := v } := fun _ he => by cases he
  rcases j.process_cases cached f with ⟨-, hp⟩ | ⟨-, -, hp, -⟩ | ⟨-, vs, -, hp⟩ |
    ⟨-, -, e, -, -, hp⟩
  · rw [hp] at h; cases h
  · rw [hp] at h; cases h
  · rw [hp] at h; cases h
  · rw [hp] at h
    simp only [parse] at h
    split at h
    · cases h
    · exact (hstart _).fail _ _ _ h
    · exact (hstart _).analyzeAll j _ _ ((j.fix_fatal _).symm.trans h)

/-- **A registry that never runs out of resources does not end a run.** -/
theorem process_fatal {j : FileJob} (h : j.registry.NeverExhausts)
    (cached : Option (List Violation)) (f : SourceFile) : (j.process cached f).fatal = none := by
  rcases j.process_cases cached f with ⟨-, hp⟩ | ⟨-, -, hp, -⟩ | ⟨-, vs, -, hp⟩ |
    ⟨-, -, e, he, -, hp⟩
  · rw [hp]
  · rw [hp]; rfl
  · rw [hp]; rfl
  · rw [hp]
    simp only [parse]
    split
    · rfl
    · next heq =>
      have hcause := h.parse e (mem_parsers_of_parserOf? he) j.context _ _ (congrArg Prod.snd heq)
      exact fail_fatal hcause
    · exact (j.fix_fatal _).trans (analyzeAll_fatal h _ _)

end FileJob

end StyleEngine
