import Mathlib.Algebra.GroupWithZero.Nat
import StyleEngine.Proofs.Engine.BuiltinRuns

/-! # Runs that look at every file

A run that is to analyze all files anew, or to fix them, pays no heed to cached
results.  Where text parsers and pattern analyzers are the only add-ins, it makes
one pass, and what it makes of each file follows from the file and the settings of
its project (`Engine.Direct`).
-/
namespace StyleEngine

/-! ## Text parsers and pattern analyzers at work -/

theorem Act.reportAll_ok (ctx : FileContext) (vs : List Violation) (s : Visit) :
    ((Act.reportAll vs).run ctx s).2 = .ok () := by
  induction vs generalizing s with
  | nil => rfl
  | cons v vs ih => exact ih _

/-- A pattern analyzer does not fail. -/
theorem PatternAnalyzer.check_ok (ctx : FileContext) (rules : List (Rule × Pattern)) (s : Visit) :
    ((PatternAnalyzer.check ctx rules).run ctx s).2 = .ok () := by
  induction rules generalizing s with
  | nil => rfl
  | cons rp rest ih =>
    obtain ⟨r, p⟩ := rp
    simp only [PatternAnalyzer.check, Act.run]
    split
    · have hreport := Act.reportAll_ok ctx (hits s.file r p) s
      rw [Act.run_bind]
      split
      · exact ih _
      · next hrun =>
        rw [hrun] at hreport
        cases hreport
    · exact ih s

/-- A text parser completes a file or fails on it for want of a text. -/
theorem TextParser.parse_cases (ctx : FileContext) (s : Visit) :
    (TextParser.parse.run ctx s).2 = .ok .complete ∨
      ∃ message, (TextParser.parse.run ctx s).2 = .error (.error (.failed message)) := by
  simp only [TextParser.parse, Act.run]
  split
  · exact .inl rfl
  · simp only [Act.run]
    split
    · exact .inl rfl
    · exact .inr ⟨_, rfl⟩

namespace Registry.IsBuiltin

variable {r : Registry}

theorem neverExhausts (h : r.IsBuiltin) : r.NeverExhausts where
  parse e he ctx s cause hrun := by
    obtain ⟨id, extensions, heq⟩ := h.parser e he
    have hparse : e.parser.parse e.profile ctx = TextParser.parse := by rw [heq]; rfl
    rw [hparse] at hrun
    rcases TextParser.parse_cases ctx s with hok | ⟨message, hfailed⟩
    · rw [hok] at hrun
      cases hrun
    · rw [hfailed] at hrun
      obtain rfl := Except.error.inj hrun
      rfl
  analyze a ha ctx s cause hrun := by
    obtain ⟨id, parserId, heq⟩ := h.analyzer a ha
    have hcheck : a.analyzer.analyze a.profile ctx =
        PatternAnalyzer.check ctx (PatternAnalyzer.activeRules a.profile) := by rw [heq]; rfl
    rw [hcheck, PatternAnalyzer.check_ok] at hrun
    cases hrun

end Registry.IsBuiltin

/-- A text parser defers no file. -/
theorem FileJob.process_not_deferred {j : FileJob} (hj : j.registry.IsBuiltin)
    (cached : Option (List Violation)) (f : SourceFile) :
    (j.process cached f).outcome ≠ .deferred := by
  rcases j.process_cases cached f with ⟨-, hp⟩ | ⟨-, -, hp, -⟩ | ⟨-, vs, -, hp⟩ |
    ⟨-, -, e, he, -, hp⟩
  · simp [hp]
  · simp [hp, skip]
  · simp [hp, serve]
  · obtain ⟨id, extensions, heq⟩ := hj.parser e (mem_parsers_of_parserOf? he)
    have hparse : e.parser.parse e.profile j.context = TextParser.parse := by rw [heq]; rfl
    have hcases := TextParser.parse_cases j.context
      (({ file := f } : Visit).emit (.parsing e.parser.id f.path j.context.pass))
    rw [hp, parse, hparse]
    split
    · next hrun =>
      rw [hrun] at hcases
      rcases hcases with hok | ⟨message, hfailed⟩
      · cases hok
      · cases hfailed
    · simp [finish]
    · simp [finish]

/-! ## What is counted -/

theorem Run.Works.fixes {r r' : Run} {hs : List Handled} (h : r.Works hs r') :
    r'.tally.fixes = r.tally.fixes + (hs.map fun x => x.result.fixes).sum := by
  rw [h.tally_eq]
  clear h
  generalize r.tally = t
  induction hs generalizing t with
  | nil => rfl
  | cons x hs ih =>
    rw [List.foldl_cons, ih, List.map_cons, List.sum_cons]
    simp only [Run.count]
    omega

namespace Engine

variable {e : Engine} {sweep : Sweep} {t : FileTree} {switches : Switches} {processors : Nat}
  {mode : RunMode} {settingsPath : Option String} {projects : List Project} {r : Run}

/-- The work on the files of a project under its settings, in the first pass of a run. -/
def jobOf (e : Engine) (switches : Switches) (mode : RunMode) (p : Project) (s : Settings)
    (status : ProjectStatus) : FileJob :=
  { registry := e.registry
    context :=
      { project := p.toProjectInfo
        settings := s
        ruleDefault := e.registry.ruleDefault?
        autoFix := mode.autoFix
        switches }
    status }

/-- What a run that pays no heed to cached results has made of the files of projects, given the
work that it has done. -/
structure Direct (e : Engine) (t : FileTree) (switches : Switches) (mode : RunMode)
    (settingsPath : Option String) (projects : List Project) (handled : List Handled)
    (o : RunOutcome) : Prop where
  /-- Every file was worked on once. -/
  slots : (handled.map Handled.slot).Perm (slotsFrom 0 projects)
  result : ∀ x ∈ handled, ∃ p f s status, projects[x.slot.project]? = some p ∧
    p.files[x.slot.file]? = some f ∧ e.settingsOf t (settingsPath.map Path.mk) p = .ok s ∧
    x.result = (e.jobOf switches mode p s status).process none f.reset
  file : ∀ x ∈ handled, ∃ p, o.projects[x.slot.project]? = some p ∧
    p.files[x.slot.file]? = some x.result.file
  summary : ∃ summary, o.result = .ok summary ∧ summary.converged = true ∧
    summary.fixesApplied = (handled.map fun x => x.result.fixes).sum

namespace Direct

variable {handled : List Handled} {o : RunOutcome}

/-- What was made of the file at a place, under the settings of its project. -/
theorem exists_handled (h : e.Direct t switches mode settingsPath projects handled o) {i k : Nat}
    {p : Project} {f : SourceFile} (hp : projects[i]? = some p) (hf : p.files[k]? = some f) :
    ∃ x ∈ handled, x.slot = ⟨i, k⟩ ∧ ∃ s status,
      e.settingsOf t (settingsPath.map Path.mk) p = .ok s ∧
      x.result = (e.jobOf switches mode p s status).process none f.reset := by
  have hslot : (⟨i, k⟩ : Slot) ∈ slotsFrom 0 projects := by
    rw [mem_slotsFrom]
    exact ⟨Nat.zero_le _, p, hp, (List.getElem?_eq_some_iff.mp hf).1⟩
  obtain ⟨x, hx, hxs⟩ := List.mem_map.mp (h.slots.mem_iff.mpr hslot)
  obtain ⟨p', f', s, status, hp', hf', hs, hres⟩ := h.result x hx
  rw [hxs] at hp' hf'
  obtain rfl := Option.some.inj (hp.symm.trans hp')
  obtain rfl := Option.some.inj (hf.symm.trans hf')
  exact ⟨x, hx, hxs, s, status, hs, hres⟩

end Direct

/-- Text parsers and pattern analyzers do not ask a run to stop. -/
theorem Starts.cancelled (h : e.Starts t switches mode settingsPath projects r)
    (hb : e.registry.IsBuiltin) : r.cancelled = false := by
  obtain ⟨ready, told, -, hbegun, rfl⟩ := opening_eq_ok h.opened
  have hquiet : callAll (fun a p => a.before p switches) (participants e.busy.registry) = .ok () :=
    callAll_eq_ok fun x hx => (mem_participants hb hx switches).1
  rw [hquiet] at hbegun
  have htold : told = [] := (congrArg Reaction.events hbegun).symm
  rw [htold]
  rfl

/-- A run that is to analyze all files anew, or to fix them, does not look into the cache. -/
theorem Starts.cached?_eq_none (h : e.Starts t switches mode settingsPath projects r)
    (hmode : mode.full = true ∨ mode.autoFix = true) {i : Nat} {q : Project} {st : ProjectStatus}
    (hq : r.shell? i = some q) (hst : r.statuses[i]? = some st) (cache : Option Cache)
    (f : SourceFile) : ({ r with cache } : Run).cached? (r.job q st) f = none := by
  obtain ⟨p, -, s, c, -, -, hst', -⟩ := h.exists_status (Q := fun _ => True) trivial
    (fun _ _ _ _ _ _ => trivial) hq
  obtain rfl := Option.some.inj (hst.symm.trans hst')
  obtain ⟨ready, told, rfl, -⟩ := h.prepares
  have huses : (Run.job (e.busy.begin switches mode ready told) q
      (statusOf c mode p s)).usesCache = false := by
    show (!(statusOf c mode p s).ignoreCache && !mode.autoFix) = false
    rcases hmode with hfull | hfix
    · have hignore : (statusOf c mode p s).ignoreCache = true := by
        cases c with
        | none => rfl
        | some c => simp [statusOf, hfull]
      simp [hignore]
    · simp [hfix]
  rw [Run.cached?, if_neg (by rw [huses]; exact Bool.false_ne_true)]

/-- What a pass of a direct run makes of a file. -/
theorem Starts.result_of_pass (h : e.Starts t switches mode settingsPath projects r)
    (hmode : mode.full = true ∨ mode.autoFix = true) {p : Pool} (hp : p.IsPass r) {x : Handled}
    (hx : x ∈ p.handled) : ∃ q f s status, projects[x.slot.project]? = some q ∧
      q.files[x.slot.file]? = some f ∧ e.settingsOf t (settingsPath.map Path.mk) q = .ok s ∧
      x.result = (e.jobOf switches mode q s status).process none f.reset := by
  obtain ⟨q, f, cache, hq, hf, hres⟩ := hp.result_eq h.fresh.wellPlaced hx
  obtain ⟨q₀, s, hq₀, hs, hshell⟩ := h.exists_project hq
  obtain ⟨p₁, -, s₁, c, -, -, hst, -⟩ := h.exists_status (Q := fun _ => True) trivial
    (fun _ _ _ _ _ _ => trivial) hq
  have hnone := h.cached?_eq_none hmode hq hst cache f
  rw [h.file?_eq, hq₀, Option.bind_some] at hf
  obtain ⟨f₀, hf₀, rfl⟩ := Option.map_eq_some_iff.mp hf
  have hprocess : x.result = (r.job q (statusOf c mode p₁ s₁)).process
      (({ r with cache } : Run).cached? (r.job q (statusOf c mode p₁ s₁)) f₀.reset) f₀.reset := by
    rw [hres, hst]
    rfl
  have hjob : r.job q (statusOf c mode p₁ s₁) =
      e.jobOf switches mode q₀ s (statusOf c mode p₁ s₁) := by
    obtain ⟨ready, told, rfl, -⟩ := h.prepares
    rw [hshell]
    rfl
  rw [hnone, hjob] at hprocess
  exact ⟨q₀, f₀, s, statusOf c mode p₁ s₁, hq₀, hf₀, hs, hprocess⟩

/-- A direct run makes one pass, as no file is deferred in it. -/
theorem Starts.one_pass (h : e.Starts t switches mode settingsPath projects r)
    (hb : e.registry.IsBuiltin) (hs : sweep.Interleaves)
    (hmode : mode.full = true ∨ mode.autoFix = true) (processors : Nat) :
    ∃ p : Pool, p.IsPass r ∧ p.run.fatal = none ∧
      r.passLoop (e.sweepOf sweep processors r) maxPasses =
        (p.run.settle, .ok { passes := 1, converged := true }) := by
  have hwell := h.fresh.wellPlaced
  have hp := isPass_sweepOf hs e processors r r hwell
  generalize hpool : e.sweepOf sweep processors r r = p at hp
  have hfatal : p.run.fatal = none :=
    hp.fatal_eq_none hwell h.fresh.fatal (h.registry ▸ hb.neverExhausts)
  have hincomplete : p.run.incomplete = false := by
    refine Bool.eq_false_iff.mpr ?_
    intro hi
    obtain ⟨x, hx, hdeferred⟩ := ((hp.sound hwell.hasFiles).incomplete_iff hp.isOver).mp hi
    obtain ⟨q, f, s, status, -, -, -, hres⟩ := h.result_of_pass hmode hp hx
    rw [hres] at hdeferred
    exact FileJob.process_not_deferred (j := e.jobOf switches mode q s status) hb _ _ hdeferred
  have hsettle : p.run.settle.incomplete = false := hincomplete
  have hpass : p.run.settle.pass = 0 := (hp.frame hwell).pass.trans h.fresh.pass
  refine ⟨p, hp, hfatal, ?_⟩
  show r.passLoop (e.sweepOf sweep processors r) (63 + 1) = _
  rw [Run.passLoop, h.cancelled hb, hpool]
  simp only [Bool.false_eq_true, ↓reduceIte, hfatal, hsettle, Bool.not_false, hpass]

/-- What the one pass of a direct run makes of the files. -/
theorem Starts.direct_of_pass (h : e.Starts t switches mode settingsPath projects r)
    (hb : e.registry.IsBuiltin) (hmode : mode.full = true ∨ mode.autoFix = true) {p : Pool}
    (hp : p.IsPass r) (hfatal : p.run.fatal = none)
    (hloop : r.passLoop (e.sweepOf sweep processors r) maxPasses =
      (p.run.settle, .ok { passes := 1, converged := true })) :
    e.Direct t switches mode settingsPath projects p.handled
      (e.runWith sweep t switches processors mode settingsPath projects) := by
  have hwell := h.fresh.wellPlaced
  have hswitches : p.run.settle.switches = switches :=
    (hp.frame hwell).switches.trans h.switches_eq
  obtain ⟨hprojects, hsummary⟩ :=
    runWith_of_passes h (closes_of_isBuiltin hb switches) hswitches hloop
  refine ⟨?_, fun x hx => h.result_of_pass hmode hp hx, ?_, _, hsummary, rfl, ?_⟩
  · refine (hp.handled_perm hwell hfatal).trans ?_
    refine (List.perm_ext_iff_of_nodup hwell.nodup (nodup_slotsFrom 0 projects)).mpr ?_
    intro s
    rw [hwell.mem_iff, h.isSome_file?_iff, mem_slotsFrom]
    simp
  · intro x hx
    rw [hprojects]
    exact Option.bind_eq_some_iff.mp (hp.file?_handled hwell hx)
  · show p.run.tally.fixes = _
    rw [(hp.works hwell).fixes, h.fresh.tally, Nat.zero_add]

/-- **What a direct run makes of the files**, whatever the order of the workers' steps. -/
theorem Starts.direct (h : e.Starts t switches mode settingsPath projects r)
    (hb : e.registry.IsBuiltin) (hs : sweep.Interleaves)
    (hmode : mode.full = true ∨ mode.autoFix = true) (processors : Nat) :
    ∃ handled, e.Direct t switches mode settingsPath projects handled
      (e.runWith sweep t switches processors mode settingsPath projects) := by
  obtain ⟨p, hp, hfatal, hloop⟩ := h.one_pass hb hs hmode processors
  exact ⟨p.handled, h.direct_of_pass hb hmode hp hfatal hloop⟩

/-- A well-formed request over projects whose settings can be read is met by a direct run. -/
theorem exists_direct (hb : e.registry.IsBuiltin) (hs : sweep.Interleaves)
    (hmode : mode.full = true ∨ mode.autoFix = true) (hacc : e.Accepts settingsPath)
    (hset : ∀ p ∈ projects, ∃ s, e.settingsOf t (settingsPath.map Path.mk) p = .ok s)
    (switches : Switches) (processors : Nat) :
    ∃ handled, e.Direct t switches mode settingsPath projects handled
      (e.runWith sweep t switches processors mode settingsPath projects) := by
  rcases builtin_cases hb sweep t switches processors mode settingsPath projects with
    ⟨hno, -, -⟩ | ⟨-, hfails, -⟩ | ⟨-, -, hstart⟩
  · exact absurd hacc hno
  · have hbusy : ∀ p ∈ projects,
        ∃ s, e.busy.settingsOf t (settingsPath.map Path.mk) p = .ok s := hset
    exact absurd (prepare_eq_ok hbusy) hfails
  · exact hstart.direct hb hs hmode processors

end Engine

end StyleEngine
