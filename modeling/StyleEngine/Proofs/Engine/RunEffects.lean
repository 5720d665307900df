import Mathlib.Data.List.Forall2
import StyleEngine.Proofs.Engine.Preparation

/-! # What a run can do to projects

Whatever the add-ins are, however the passes are carried out and however the run
ends, it gives the projects back in their order, each under its name and with its
files, and a file was left as it was or was reset and then worked on by the add-ins
of the engine (`Engine.Advances`).  So a property of projects that this keeps is
kept by any history of runs (`Project.History`).
-/
namespace StyleEngine

section

variable {α β : Type} {R : α → β → Prop} {l : List α} {l' : List β}

theorem forall₂_of_getElem? (hsome : ∀ i : Nat, (l'[i]?).isSome = (l[i]?).isSome)
    (h : ∀ (i : Nat) a b, l[i]? = some a → l'[i]? = some b → R a b) : List.Forall₂ R l l' := by
  induction l generalizing l' with
  | nil =>
    cases l' with
    | nil => exact .nil
    | cons => cases hsome 0
  | cons a l ih =>
    cases l' with
    | nil => cases hsome 0
    | cons b l' =>
      refine .cons (h 0 a b rfl rfl) (ih (fun i => hsome (i + 1)) ?_)
      intro i x y hx hy
      exact h (i + 1) x y hx hy

theorem exists_getElem?_of_forall₂ (h : List.Forall₂ R l l') {i : Nat} {a : α}
    (ha : l[i]? = some a) : ∃ b, l'[i]? = some b ∧ R a b := by
  induction h generalizing i with
  | nil => cases ha
  | cons hab _ ih =>
    cases i with
    | zero =>
      obtain rfl := Option.some.inj ha
      exact ⟨_, rfl, hab⟩
    | succ i => exact ih ha

theorem getElem?_eq_none_of_forall₂ (h : List.Forall₂ R l l') {i : Nat} (hi : l[i]? = none) :
    l'[i]? = none := by
  rw [List.getElem?_eq_none_iff] at hi ⊢
  exact h.length_eq ▸ hi

theorem forall₂_imp_of_mem {S : α → β → Prop} (h : List.Forall₂ R l l')
    (himp : ∀ a ∈ l, ∀ b ∈ l', R a b → S a b) : List.Forall₂ S l l' := by
  induction h with
  | nil => exact .nil
  | cons hab _ ih =>
    refine .cons (himp _ List.mem_cons_self _ List.mem_cons_self hab) (ih ?_)
    intro a ha b hb
    exact himp a (List.mem_cons_of_mem _ ha) b (List.mem_cons_of_mem _ hb)

theorem map_eq_of_forall₂ {γ : Type} {g : α → γ} {g' : β → γ} (hg : ∀ {a b}, R a b → g a = g' b)
    (h : List.Forall₂ R l l') : l.map g = l'.map g' := by
  rw [← List.forall₂_eq_eq_eq]
  exact List.rel_map (fun _ _ hab => hg hab) h

theorem exists_of_forall₂_right (h : List.Forall₂ R l l') {b : β} (hb : b ∈ l') :
    ∃ a ∈ l, R a b := by
  induction h with
  | nil => cases hb
  | cons hab _ ih =>
    rcases List.mem_cons.mp hb with rfl | hb
    · exact ⟨_, List.mem_cons_self, hab⟩
    · obtain ⟨a, ha, hr⟩ := ih hb
      exact ⟨a, List.mem_cons_of_mem _ ha, hr⟩

end

/-! ## Files -/

/-- What a file can become by work on it with the add-ins of a registry, any number of times. -/
inductive SourceFile.Worked (r : Registry) (f : SourceFile) : SourceFile → Prop
  | start : Worked r f f
  | work {g : SourceFile} (h : Worked r f g) {j : FileJob} (hj : j.registry = r)
    (cached : Option (List Violation)) : Worked r f (j.process cached g).file
  | skip {g : SourceFile} (h : Worked r f g) : Worked r f g.markDone

theorem SourceFile.Worked.identity {r : Registry} {f g : SourceFile} (h : f.Worked r g) :
    g.path = f.path ∧ g.digest = f.digest := by
  induction h with
  | start => exact ⟨rfl, rfl⟩
  | @work g _ j _ cached ih =>
    obtain ⟨hpath, hdigest⟩ := j.process_identity cached g
    exact ⟨hpath.trans ih.1, hdigest.trans ih.2⟩
  | skip _ ih => exact ih

theorem SourceFile.Worked.trans {r : Registry} {f g h : SourceFile} (hfg : f.Worked r g)
    (hgh : g.Worked r h) : f.Worked r h := by
  induction hgh with
  | start => exact hfg
  | work _ hj cached ih => exact ih.work hj cached
  | skip _ ih => exact ih.skip

namespace Run

variable {r r' : Run}

theorem worked_outcome (r : Run) {q : Project} {status : Option ProjectStatus}
    {f g : SourceFile} (h : f.Worked r.registry g) :
    f.Worked r.registry (r.outcome q status g).2.file := by
  rcases r.outcome_cases q status g with ⟨st, -, hout⟩ | ⟨-, hout⟩
  · rw [hout]
    exact h.work rfl _
  · rw [hout]
    exact h.skip

theorem Works.worked {hs : List Handled} (h : r.Works hs r') {s : Slot} {f' : SourceFile}
    (hf' : r'.file? s = some f') : ∃ f, r.file? s = some f ∧ f.Worked r.registry f' := by
  induction h generalizing f' with
  | start => exact ⟨f', hf', .start⟩
  | shift _ hw ih =>
    rw [hw.file?] at hf'
    exact ih hf'
  | @work hs r₁ r₂ s₀ p hw hp ih =>
    obtain ⟨q, g, -, hg, hout, rfl⟩ := process_eq_some hp
    rw [file?_absorb] at hf'
    split at hf'
    · next hslot =>
      subst hslot
      obtain ⟨f, hf, hworked⟩ := ih hg
      obtain ⟨_, -, rfl⟩ := Option.map_eq_some_iff.mp hf'
      rw [← hw.frame.registry] at hworked ⊢
      exact ⟨f, hf, hout ▸ r₁.worked_outcome hworked⟩
    · exact ih hf'

/-- **Passes do nothing to files but work on them**, however they end. -/
theorem Passes.worked {sweep : Run → Pool} {log : List Pool}
    {result : Except AddInError PassResult} (h : Passes sweep r log r' result)
    (hs : ∀ r, r.WellPlaced → (sweep r).IsPass r) (hr : r.WellPlaced) {s : Slot}
    {f' : SourceFile} (hf' : r'.file? s = some f') :
    ∃ f, r.file? s = some f ∧ f.Worked r.registry f' := by
  induction h generalizing f' with
  | cancelled _ => exact ⟨f', hf', .start⟩
  | aborted _ _ | converged _ _ _ | limit _ _ _ _ => exact ((hs _ hr).works hr).worked hf'
  | @next r₀ _ _ _ _ _ _ _ _ ih =>
    obtain ⟨g, hg, hlater⟩ := ih (wellPlaced_next ((hs _ hr).wellPlaced hr)) hf'
    obtain ⟨f, hf, hfirst⟩ := ((hs _ hr).works hr).worked hg
    have hregistry : (sweep r₀).run.settle.next.registry = r₀.registry :=
      ((hs _ hr).frame hr).registry
    exact ⟨f, hf, hfirst.trans (hregistry ▸ hlater)⟩

end Run

/-! ## Projects -/

namespace Engine

variable {e : Engine} {sweep : Sweep} {t : FileTree} {switches : Switches} {processors : Nat}
  {mode : RunMode} {settingsPath : Option String} {projects : List Project} {path : Option Path}

/-- What a run can make of a project: it may get its settings, and its files may be reset and
worked on. -/
structure Advances (e : Engine) (t : FileTree) (path : Option Path) (p p' : Project) : Prop where
  info : p'.toProjectInfo = p.toProjectInfo
  settings : p'.settings = p.settings ∨
    ∃ s, e.settingsOf t path p = .ok s ∧ p'.settings = some s
  files : List.Forall₂ (fun f f' => f' = f ∨ f.reset.Worked e.registry f') p.files p'.files

theorem Advances.refl (e : Engine) (t : FileTree) (path : Option Path) (p : Project) :
    e.Advances t path p p where
  info := rfl
  settings := .inl rfl
  files := List.forall₂_same.mpr fun _ _ => .inl rfl

theorem advances_readied {p : Project} {s : Settings} (hs : e.settingsOf t path p = .ok s) :
    e.Advances t path p (readied p s) where
  info := rfl
  settings := .inr ⟨s, hs, rfl⟩
  files := by
    refine List.forall₂_map_right_iff.mpr (List.forall₂_same.mpr ?_)
    intro f _
    exact .inr .start

/-- Preparing projects readies them up to one whose settings cannot be read. -/
theorem exists_prepare (e : Engine) (t : FileTree) (mode : RunMode) (path : Option Path)
    (before : Prepared) (ps : List Project) :
    ∃ qs, (e.prepare t mode path before ps).1.projects = before.projects ++ qs ∧
      List.Forall₂ (e.Advances t path) ps qs := by
  induction ps generalizing before with
  | nil => exact ⟨[], (List.append_nil _).symm, .nil⟩
  | cons p ps ih =>
    unfold prepare
    cases hs : e.settingsOf t path p with
    | error cause =>
      exact ⟨p :: ps, rfl, List.forall₂_same.mpr fun q _ => .refl e t path q⟩
    | ok s =>
      obtain ⟨qs, hqs, hadvances⟩ := ih (prepareUnder mode before p s)
      refine ⟨readied p s :: qs, ?_, .cons (advances_readied hs) hadvances⟩
      show (e.prepare t mode path (prepareUnder mode before p s) ps).1.projects = _
      rw [hqs, prepareUnder, List.append_assoc]
      rfl

/-- A run over projects advances them. -/
theorem Starts.advances {r r' : Run} (h : e.Starts t switches mode settingsPath projects r)
    (hsame : r.SameFiles r')
    (hworked : ∀ {s f'}, r'.file? s = some f' → ∃ f, r.file? s = some f ∧
      f.Worked r.registry f') :
    List.Forall₂ (e.Advances t (settingsPath.map Path.mk)) projects r'.projects := by
  have hshell (i : Nat) : r'.shell? i = (projects[i]?).bind fun p =>
      (e.settingsOf t (settingsPath.map Path.mk) p).toOption.map fun s =>
        { p with files := [], settings := some s } := (hsame.shell i).trans (h.shell?_eq i)
  refine forall₂_of_getElem? ?_ ?_
  · intro i
    have hsome := congrArg Option.isSome (hshell i)
    rw [Run.shell?, Option.isSome_map] at hsome
    rw [hsome]
    cases hp : projects[i]? with
    | none => rfl
    | some p =>
      obtain ⟨s, hs⟩ := h.settings p (List.mem_of_getElem? hp)
      rw [Option.bind_some, hs]
      rfl
  intro i p p' hp hp'
  have hplace := hshell i
  rw [Run.shell?, hp, hp', Option.map_some, Option.bind_some] at hplace
  obtain ⟨s, hs⟩ := h.settings p (List.mem_of_getElem? hp)
  rw [hs] at hplace
  obtain ⟨hinfo, hsettings⟩ : p'.toProjectInfo = p.toProjectInfo ∧ p'.settings = some s := by
    simpa [Except.toOption] using hplace
  refine ⟨hinfo, .inr ⟨s, hs, hsettings⟩, ?_⟩
  have hfile (k : Nat) (f' : SourceFile) (hf' : p'.files[k]? = some f') :
      ∃ f, p.files[k]? = some f ∧ f.reset.Worked e.registry f' := by
    have hplaced : r'.file? ⟨i, k⟩ = some f' := by
      rw [Run.file?, hp']
      exact hf'
    obtain ⟨g, hg, hg'⟩ := hworked hplaced
    rw [h.file?_eq, hp, Option.bind_some] at hg
    obtain ⟨f, hf, rfl⟩ := Option.map_eq_some_iff.mp hg
    exact ⟨f, hf, h.registry ▸ hg'⟩
  refine forall₂_of_getElem? ?_ ?_
  · intro k
    have hsome := hsame.isSome ⟨i, k⟩
    rw [h.file?_eq, hp, Option.bind_some, Option.isSome_map] at hsome
    rw [← hsome, Run.file?, hp', Option.bind_some]
  · intro k f f' hf hf'
    obtain ⟨g, hg, hworked⟩ := hfile k f' hf'
    obtain rfl := Option.some.inj (hf.symm.trans hg)
    exact .inr hworked

/-- **What a request does to projects**, however it is met. -/
theorem runWith_advances (hs : sweep.Interleaves) (e : Engine) (t : FileTree)
    (switches : Switches) (processors : Nat) (mode : RunMode) (settingsPath : Option String)
    (projects : List Project) :
    List.Forall₂ (e.Advances t (settingsPath.map Path.mk)) projects
      (e.runWith sweep t switches processors mode settingsPath projects).projects := by
  rcases e.runWith_cases sweep t switches processors mode settingsPath projects with
    ⟨-, hprojects, -⟩ | ⟨-, -, hprojects, -⟩ | ⟨-, -, -, hstart⟩
  · rw [hprojects]
    exact List.forall₂_same.mpr fun p _ => .refl e t _ p
  · rw [hprojects]
    obtain ⟨qs, hqs, hadvances⟩ := e.busy.exists_prepare t mode (settingsPath.map Path.mk)
      { cache := e.cache } projects
    rw [hqs]
    exact hadvances.imp fun _ _ h => ⟨h.info, h.settings, h.files⟩
  · have hpass := isPass_sweepOf hs e processors
      (e.busy.begin switches mode (e.busy.prepare t mode (settingsPath.map Path.mk)
        { cache := e.cache } projects).1
        (callAll (fun a p => a.before p switches) (participants e.registry)).events)
    have hwell := hstart.fresh.wellPlaced
    have hpasses := hstart.fresh.passes hpass
    rw [runWith_of_starts hstart]
    simp only [projects_close]
    exact hstart.advances (hpasses.sameFiles hpass hwell) (hpasses.worked hpass hwell)

end Engine

/-! ## Histories -/

/-- A request to an engine, and all that its run depends on. -/
structure Request where
  engine : Engine
  sweep : Sweep
  files : FileTree
  switches : Switches
  processors : Nat
  mode : RunMode
  settingsPath : Option String
  projects : List Project

namespace Request

/-- What a request was given back. -/
def outcome (q : Request) : Engine.RunOutcome :=
  q.engine.runWith q.sweep q.files q.switches q.processors q.mode q.settingsPath q.projects

/-- What a request can make of a project. -/
def Advances (q : Request) : Project → Project → Prop :=
  q.engine.Advances q.files (q.settingsPath.map Path.mk)

theorem advances_outcome {q : Request} (hs : q.sweep.Interleaves) :
    List.Forall₂ q.Advances q.projects q.outcome.projects :=
  Engine.runWith_advances hs ..

end Request

/-- Projects with a history of runs: they are built, put in another order, and run, some of them
at a time, each time by the engine and in the way of a request. -/
inductive Project.History (Built : Project → Prop) (Allowed : Request → Prop) :
    List Project → Prop
  | start : History Built Allowed []
  | build {ps : List Project} {p : Project} (h : History Built Allowed ps) (hp : Built p) :
    History Built Allowed (p :: ps)
  | arrange {ps ps' : List Project} (h : History Built Allowed ps) (hp : ps'.Perm ps) :
    History Built Allowed ps'
  | run {q : Request} {rest : List Project} (h : History Built Allowed (q.projects ++ rest))
    (hs : q.sweep.Interleaves) (hq : Allowed q) :
    History Built Allowed (q.outcome.projects ++ rest)

theorem Project.History.mono {Built Built' : Project → Prop} {Allowed Allowed' : Request → Prop}
    {ps : List Project} (h : Project.History Built Allowed ps) (hbuilt : ∀ p, Built p → Built' p)
    (hallowed : ∀ q, Allowed q → Allowed' q) : Project.History Built' Allowed' ps := by
  induction h with
  | start => exact .start
  | build _ hp ih => exact ih.build (hbuilt _ hp)
  | arrange _ hp ih => exact ih.arrange hp
  | run _ hs hq ih => exact ih.run hs (hallowed _ hq)

/-- **What new projects have and allowed requests keep, all projects have**, after any history. -/
theorem Project.History.forall_mem {Built : Project → Prop} {Allowed : Request → Prop}
    {P : Project → Prop} {ps : List Project} (h : Project.History Built Allowed ps)
    (hbuilt : ∀ p, Built p → P p)
    (hkeeps : ∀ q, Allowed q → ∀ p ∈ q.projects, P p → ∀ p' ∈ q.outcome.projects,
      q.Advances p p' → P p') : ∀ p ∈ ps, P p := by
  induction h with
  | start => exact fun p hp => absurd hp List.not_mem_nil
  | build _ hp ih =>
    intro p hmem
    rcases List.mem_cons.mp hmem with rfl | hmem
    · exact hbuilt p hp
    · exact ih p hmem
  | arrange _ hperm ih => exact fun p hp => ih p (hperm.mem_iff.mp hp)
  | @run q rest _ hs hq ih =>
    intro p' hmem
    rcases List.mem_append.mp hmem with hp' | hp'
    · obtain ⟨p, hp, hadvances⟩ := exists_of_forall₂_right (q.advances_outcome hs) hp'
      exact hkeeps q hq p hp (ih p (List.mem_append_left _ hp)) p' hp' hadvances
    · exact ih p' (List.mem_append_right _ hp')

end StyleEngine
