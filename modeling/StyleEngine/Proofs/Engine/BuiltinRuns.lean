import StyleEngine.Proofs.Analysis.Findings
import StyleEngine.Proofs.Engine.Preparation

/-! # Requests to text parsers and pattern analyzers

Text parsers and pattern analyzers do nothing outside of files.  Where they are
the only add-ins, a request is therefore refused, fails because settings cannot be
read, or starts a run, and the mode of the run has no part in it.
-/
namespace StyleEngine

namespace Engine

theorem callAll_eq_ok {call : AddIn → Profile → Reaction Crash Unit} {l : List (AddIn × Profile)}
    (h : ∀ x ∈ l, call x.1 x.2 = .ok ()) : callAll call l = .ok () := by
  induction l with
  | nil => rfl
  | cons x l ih =>
    obtain ⟨a, p⟩ := x
    rw [callAll, h _ List.mem_cons_self, ih fun y hy => h y (List.mem_cons_of_mem _ hy)]
    rfl

theorem mem_participants {r : Registry} (hr : r.IsBuiltin) {x : AddIn × Profile}
    (h : x ∈ participants r) (switches : Switches) :
    x.1.before x.2 switches = .ok () ∧ x.1.after x.2 switches = .ok () := by
  obtain ⟨e, he, hx⟩ := List.mem_flatMap.mp h
  rcases List.mem_cons.mp hx with rfl | hx
  · obtain ⟨id, extensions, heq⟩ := hr.parser e he
    rw [heq]
    exact ⟨rfl, rfl⟩
  · obtain ⟨a, ha, rfl⟩ := List.mem_map.mp hx
    obtain ⟨id, parserId, heq⟩ := hr.analyzer a (Registry.mem_analyzers_of_analyzersOf ha)
    simp only [heq]
    exact ⟨rfl, rfl⟩

variable {e : Engine} {sweep : Sweep} {t : FileTree} {switches : Switches} {processors : Nat}
  {mode : RunMode} {settingsPath : Option String} {projects : List Project}

theorem closes_of_isBuiltin (h : e.registry.IsBuiltin) (switches : Switches) :
    e.Closes switches := by
  rw [Closes, callAll_eq_ok fun x hx => (mem_participants h hx switches).2]
  rfl

/-- How a request to such add-ins is met: it is refused, the projects cannot be made ready, or
a run over them starts. -/
theorem builtin_cases (h : e.registry.IsBuiltin) (sweep : Sweep) (t : FileTree)
    (switches : Switches) (processors : Nat) (mode : RunMode) (settingsPath : Option String)
    (projects : List Project) :
    let o := e.runWith sweep t switches processors mode settingsPath projects
    let ready := e.busy.prepare t mode (settingsPath.map Path.mk) { cache := e.cache } projects
    (¬ e.Accepts settingsPath ∧ o.projects = projects ∧ o.engine = e) ∨
    (e.Accepts settingsPath ∧ ready.2 ≠ .ok () ∧ o.projects = ready.1.projects ∧
      o.engine.registry = e.registry ∧ o.engine.cache = ready.1.cache) ∨
    (e.Accepts settingsPath ∧ ready.2 = .ok () ∧ e.Starts t switches mode settingsPath projects
      (e.busy.begin switches mode ready.1 [])) := by
  intro o ready
  have hbegun : callAll (fun a p => a.before p switches) (participants e.registry) = .ok () :=
    callAll_eq_ok fun x hx => (mem_participants h hx switches).1
  rcases e.runWith_cases sweep t switches processors mode settingsPath projects with
    ⟨hno, hprojects, hengine, -⟩ | ⟨hyes, hfails, hprojects, hregistry, hcache, -⟩ |
    ⟨hyes, hok, -, hstart⟩
  · exact .inl ⟨hno, hprojects, hengine⟩
  · refine .inr (.inl ⟨hyes, hfails.resolve_right fun hcrash => hcrash ?_, hprojects, hregistry,
      hcache⟩)
    rw [hbegun]
    rfl
  · rw [hbegun] at hstart
    exact .inr (.inr ⟨hyes, hok, hstart⟩)

/-- A request that is met with a run to the end started one. -/
theorem starts_of_converged (h : e.registry.IsBuiltin) {summary : RunSummary}
    (hresult : (e.runWith sweep t switches processors mode settingsPath projects).result =
      .ok summary) (hconverged : summary.converged = true) :
    let ready := e.busy.prepare t mode (settingsPath.map Path.mk) { cache := e.cache } projects
    ready.2 = .ok () ∧
      e.Starts t switches mode settingsPath projects (e.busy.begin switches mode ready.1 []) := by
  intro ready
  rcases e.runWith_cases sweep t switches processors mode settingsPath projects with
    ⟨-, -, -, cause, hcause⟩ | ⟨-, -, -, -, -, hnever⟩ | ⟨hyes, hok, -, -⟩
  · rw [hcause] at hresult
    cases hresult
  · rw [hnever summary hresult] at hconverged
    cases hconverged
  · rcases builtin_cases h sweep t switches processors mode settingsPath projects with
      ⟨hno, -⟩ | ⟨-, herror, -⟩ | ⟨-, -, hstart⟩
    · exact absurd hyes hno
    · exact absurd hok herror
    · exact ⟨hok, hstart⟩

/-- Requests in two modes give back the same projects, or start runs over the same projects. -/
theorem runWith_modes (h : e.registry.IsBuiltin) (sweep₁ sweep₂ : Sweep) (t : FileTree)
    (switches : Switches) (processors₁ processors₂ : Nat) (mode₁ mode₂ : RunMode)
    (settingsPath : Option String) (projects : List Project) :
    let o₁ := e.runWith sweep₁ t switches processors₁ mode₁ settingsPath projects
    let o₂ := e.runWith sweep₂ t switches processors₂ mode₂ settingsPath projects
    let ready₁ := e.busy.prepare t mode₁ (settingsPath.map Path.mk) { cache := e.cache } projects
    let ready₂ := e.busy.prepare t mode₂ (settingsPath.map Path.mk) { cache := e.cache } projects
    o₁.projects = o₂.projects ∨
    (ready₁.1.projects = ready₂.1.projects ∧ ready₁.2 = .ok () ∧ ready₂.2 = .ok () ∧
      e.Starts t switches mode₁ settingsPath projects (e.busy.begin switches mode₁ ready₁.1 []) ∧
      e.Starts t switches mode₂ settingsPath projects
        (e.busy.begin switches mode₂ ready₂.1 [])) := by
  intro o₁ o₂ ready₁ ready₂
  obtain ⟨hprojects, hresult⟩ := projects_prepare e.busy t (settingsPath.map Path.mk) mode₁ mode₂
    { cache := e.cache } { cache := e.cache } rfl projects
  rcases builtin_cases h sweep₁ t switches processors₁ mode₁ settingsPath projects with
    ⟨hno, h₁, -⟩ | ⟨hyes, herror, h₁, -⟩ | ⟨hyes, hok, hstart⟩
  · rcases builtin_cases h sweep₂ t switches processors₂ mode₂ settingsPath projects with
      ⟨-, h₂, -⟩ | ⟨hyes, -⟩ | ⟨hyes, -⟩
    · exact .inl (h₁.trans h₂.symm)
    · exact absurd hyes hno
    · exact absurd hyes hno
  · rcases builtin_cases h sweep₂ t switches processors₂ mode₂ settingsPath projects with
      ⟨hno, -⟩ | ⟨-, -, h₂, -⟩ | ⟨-, hok, -⟩
    · exact absurd hyes hno
    · exact .inl (h₁.trans (hprojects.trans h₂.symm))
    · exact absurd (hresult.trans hok) herror
  · rcases builtin_cases h sweep₂ t switches processors₂ mode₂ settingsPath projects with
      ⟨hno, -⟩ | ⟨-, herror, -⟩ | ⟨-, hok', hstart'⟩
    · exact absurd hyes hno
    · exact absurd (hresult.symm.trans hok) herror
    · exact .inr ⟨hprojects, hok, hok', hstart, hstart'⟩

end Engine

end StyleEngine
