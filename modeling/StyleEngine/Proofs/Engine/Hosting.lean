import StyleEngine.Proofs.Engine.FailureIsolation
import StyleEngine.Proofs.Registry.Origins

/-! # Engines and the calls to their registries

All that a host does with an engine comes to calls to its registry, with runs in
between that leave the registry alone (`Engine.IsHosted`).  Whatever modules an
engine loads, it loads under the key that it was created with.
-/
namespace StyleEngine

namespace Engine

/-- The calls by which an engine loads directories, one after the other, up to one that ends the
loading.  After the last one add-ins are wired. -/
def loadCalls (t : FileTree) (switches : Switches) (hostKey : List UInt8) :
    List Path → Registry → List Registry.Call
  | [], _ => [.wire]
  | path :: paths, r =>
    if t.isDirectory path then
      .loadAll t switches path hostKey ::
        match (r.loadAll t switches path hostKey).result with
        | .ok _ => loadCalls t switches hostKey paths (r.loadAll t switches path hostKey).registry
        | .error _ => []
    else loadCalls t switches hostKey paths r

theorem isUnder_loadCalls (t : FileTree) (switches : Switches) (hostKey : List UInt8)
    (paths : List Path) (r : Registry) :
    ∀ c ∈ loadCalls t switches hostKey paths r, c.IsUnder hostKey := by
  induction paths generalizing r with
  | nil => exact Registry.Call.IsUnder.singleton (c := .wire) trivial rfl _
  | cons path paths ih =>
    unfold loadCalls
    split
    · rw [List.forall_mem_cons]
      refine ⟨⟨trivial, fun key hkey => (Option.some.inj hkey).symm⟩, ?_⟩
      split
      · exact ih _
      · exact fun _ hc => nomatch hc
    · exact ih r

/-- The calls that come of a registration: if it went well, add-ins are wired. -/
def registerCalls (c : Registry.Call) (x : Reaction AddInError (Bool × Registry)) :
    List Registry.Call :=
  c :: match x.result with
    | .ok _ => [.wire]
    | .error _ => []

theorem isUnder_registerCalls {c : Registry.Call} (hpatterns : c.KeepsPatterns)
    (hkey : c.hostKey? = none) (x : Reaction AddInError (Bool × Registry)) (hostKey : List UInt8) :
    ∀ c' ∈ registerCalls c x, c'.IsUnder hostKey := by
  unfold registerCalls
  rw [← List.singleton_append, List.forall_mem_append]
  refine ⟨.singleton hpatterns hkey hostKey, ?_⟩
  split
  · exact Registry.Call.IsUnder.singleton (c := .wire) trivial rfl _
  · exact fun _ hc => nomatch hc

/-- The registry that a loading leaves: unless it ended early, add-ins are wired. -/
def leftBy (s : Loading) : Registry :=
  match s.result with
  | .ok _ => s.registry.wire
  | .error _ => s.registry

theorem leftBy_loadDirectories (t : FileTree) (switches : Switches) (hostKey : List UInt8)
    (dirs : List (Path × Bool)) {s : Loading} {report : LoadReport} (hs : s.result = .ok report) :
    leftBy (dirs.foldl
        (fun s x => s.andThen (loadDirectory t switches hostKey x.1 x.2)) s) =
      s.registry.afterAll (loadCalls t switches hostKey (dirs.map Prod.fst) s.registry) := by
  induction dirs generalizing s report with
  | nil =>
    rw [List.foldl_nil, leftBy, hs]
    rfl
  | cons dir dirs ih =>
    obtain ⟨path, explicit⟩ := dir
    rw [List.foldl_cons, List.map_cons, loadCalls]
    by_cases hdir : t.isDirectory path = true
    · rw [if_pos hdir]
      have hregistry : (s.andThen (loadDirectory t switches hostKey path explicit)).registry =
          (s.registry.loadAll t switches path hostKey).registry := by
        simp [Loading.andThen, hs, loadDirectory, hdir]
      have hresult : (s.andThen (loadDirectory t switches hostKey path explicit)).result =
          (s.registry.loadAll t switches path hostKey).result.map report.append := by
        simp [Loading.andThen, hs, loadDirectory, hdir]
      cases hload : (s.registry.loadAll t switches path hostKey).result with
      | ok found =>
        rw [hload] at hresult
        rw [ih hresult, hregistry]
        rfl
      | error cause =>
        rw [hload] at hresult
        rw [Loading.foldl_andThen_of_error hresult, leftBy, hresult]
        exact hregistry
    · rw [if_neg hdir]
      have hstays : (s.andThen (loadDirectory t switches hostKey path explicit)).registry =
          s.registry := by
        simp [Loading.andThen, hs, loadDirectory, hdir]
      have hresult : (s.andThen (loadDirectory t switches hostKey path explicit)).result =
          .ok (report.append {}) := by
        simp [Loading.andThen, hs, loadDirectory, hdir, Except.map]
      rw [ih hresult, hstays]

variable (e : Engine) (t : FileTree) (switches : Switches)

/-- **What loading comes to** for the registry of an engine. -/
theorem registry_loadAddIns_eq (paths : List Path) (defaults : Bool) :
    (e.loadAddIns t switches paths defaults).engine.registry =
      e.registry.afterAll (loadCalls t switches e.options.hostKey
        (paths ++ if defaults then e.environment.searchPaths else []) e.registry) := by
  have hdirs : (paths.map (·, true) ++
      if defaults then e.environment.searchPaths.map (·, false) else []).map Prod.fst =
      paths ++ if defaults then e.environment.searchPaths else [] := by
    cases defaults <;> simp [Function.comp_def]
  have hleft := leftBy_loadDirectories t switches e.options.hostKey
    (paths.map (·, true) ++ if defaults then e.environment.searchPaths.map (·, false) else [])
    (s := { registry := e.registry }) rfl
  rw [hdirs] at hleft
  rw [← hleft]
  unfold loadAddIns leftBy
  dsimp only
  split
  · next hresult => rw [hresult]; rfl
  · next hresult => rw [hresult]; rfl

theorem options_loadAddIns (paths : List Path) (defaults : Bool) :
    (e.loadAddIns t switches paths defaults).engine.options = e.options := by
  unfold loadAddIns
  dsimp only
  split <;> rfl

theorem options_registered (x : Reaction AddInError (Bool × Registry)) :
    (e.registered x).engine.options = e.options := by
  unfold registered
  dsimp only
  split <;> rfl

theorem registry_registered_eq {c : Registry.Call} {x : Reaction AddInError (Bool × Registry)}
    (h : e.registry.after c = e.registry.settle x) :
    (e.registered x).engine.registry = e.registry.afterAll (registerCalls c x) := by
  unfold registered registerCalls
  dsimp only
  cases hx : x.result with
  | error cause =>
    show e.registry = e.registry.after c
    rw [h, Registry.settle, hx]
  | ok y =>
    show y.2.wire = (e.registry.after c).wire
    rw [h, Registry.settle, hx]

theorem options_runWith (sweep : Sweep) (processors : Nat) (mode : RunMode)
    (settingsPath : Option String) (projects : List Project) :
    (e.runWith sweep t switches processors mode settingsPath projects).engine.options =
      e.options := by
  unfold runWith
  split
  · rfl
  · split <;> rfl

/-- The engines that a host with a key can come to, with the calls that their registries have met:
it may add factories, other than for pattern analyzers, register add-ins, load modules and run the
engine, in any order. -/
inductive IsHosted (hostKey : List UInt8) : List Registry.Call → Engine → Prop
  | fresh {e : Engine} (hr : e.registry = .withBuiltins) (hkey : e.options.hostKey = hostKey) :
    IsHosted hostKey [] e
  | parserFactory {cs : List Registry.Call} {e : Engine} (h : IsHosted hostKey cs e)
    (name : String) (f : Factory Parser) :
    IsHosted hostKey (cs ++ [.parserFactory name f])
      (e.wiredTo (e.registry.addParserFactory name f))
  | analyzerFactory {cs : List Registry.Call} {e : Engine} (h : IsHosted hostKey cs e)
    (name : String) (f : Factory Analyzer) (hname : name ≠ "pattern") :
    IsHosted hostKey (cs ++ [.analyzerFactory name f])
      (e.wiredTo (e.registry.addAnalyzerFactory name f))
  | parser {cs : List Registry.Call} {e : Engine} (h : IsHosted hostKey cs e)
    (switches : Switches) (parser : Parser) (ds : List InitDescriptor) (trusted : Bool) :
    IsHosted hostKey
      (cs ++ registerCalls (.registerParser switches parser ds trusted)
        (e.registry.registerParser switches parser ds trusted))
      (e.registerParser switches parser ds trusted).engine
  | analyzer {cs : List Registry.Call} {e : Engine} (h : IsHosted hostKey cs e)
    (switches : Switches) (analyzer : Analyzer) (ds : List InitDescriptor) (trusted : Bool) :
    IsHosted hostKey
      (cs ++ registerCalls (.registerAnalyzer switches analyzer ds trusted)
        (e.registry.registerAnalyzer switches analyzer ds trusted))
      (e.registerAnalyzer switches analyzer ds trusted).engine
  | load {cs : List Registry.Call} {e : Engine} (h : IsHosted hostKey cs e) (t : FileTree)
    (switches : Switches) (paths : List Path) (defaults : Bool) :
    IsHosted hostKey
      (cs ++ loadCalls t switches e.options.hostKey
        (paths ++ if defaults then e.environment.searchPaths else []) e.registry)
      (e.loadAddIns t switches paths defaults).engine
  | run {cs : List Registry.Call} {e : Engine} (h : IsHosted hostKey cs e) (sweep : Sweep)
    (t : FileTree) (switches : Switches) (processors : Nat) (mode : RunMode)
    (settingsPath : Option String) (projects : List Project) :
    IsHosted hostKey cs
      (e.runWith sweep t switches processors mode settingsPath projects).engine

namespace IsHosted

variable {hostKey : List UInt8} {cs : List Registry.Call} {e : Engine}

theorem options (h : IsHosted hostKey cs e) : e.options.hostKey = hostKey := by
  induction h with
  | fresh _ hkey => exact hkey
  | parserFactory _ _ _ ih => exact ih
  | analyzerFactory _ _ _ _ ih => exact ih
  | parser _ _ _ _ _ ih => exact (congrArg _ (options_registered ..)).trans ih
  | analyzer _ _ _ _ _ ih => exact (congrArg _ (options_registered ..)).trans ih
  | load _ _ _ _ _ ih => exact (congrArg _ (options_loadAddIns ..)).trans ih
  | run _ _ _ _ _ _ _ _ ih => exact (congrArg _ (options_runWith ..)).trans ih

/-- **What an engine has is what the calls have made.** -/
theorem registry_eq (h : IsHosted hostKey cs e) :
    e.registry = Registry.withBuiltins.afterAll cs := by
  have happend (r : Registry) (cs cs' : List Registry.Call) :
      r.afterAll (cs ++ cs') = (r.afterAll cs).afterAll cs' := List.foldl_append
  induction h with
  | fresh hr _ => exact hr
  | parserFactory _ _ _ ih => rw [happend, ← ih]; rfl
  | analyzerFactory _ _ _ _ ih => rw [happend, ← ih]; rfl
  | parser _ _ _ _ _ ih => rw [happend, ← ih]; exact registry_registered_eq _ rfl
  | analyzer _ _ _ _ _ ih => rw [happend, ← ih]; exact registry_registered_eq _ rfl
  | load _ _ _ _ _ ih => rw [happend, ← ih]; exact registry_loadAddIns_eq ..
  | run _ _ _ _ _ _ _ _ ih => exact (registry_runWith ..).trans ih

theorem isUnder (h : IsHosted hostKey cs e) : ∀ c ∈ cs, c.IsUnder hostKey := by
  induction h with
  | fresh _ _ => exact fun _ hc => nomatch hc
  | parserFactory _ name f ih =>
    rw [List.forall_mem_append]
    exact ⟨ih, .singleton (c := .parserFactory name f) trivial rfl _⟩
  | analyzerFactory _ name f hname ih =>
    rw [List.forall_mem_append]
    exact ⟨ih, .singleton (c := .analyzerFactory name f) hname rfl _⟩
  | parser _ switches p ds trusted ih =>
    rw [List.forall_mem_append]
    exact ⟨ih, isUnder_registerCalls (c := .registerParser switches p ds trusted) trivial rfl _ _⟩
  | analyzer _ switches a ds trusted ih =>
    rw [List.forall_mem_append]
    exact ⟨ih,
      isUnder_registerCalls (c := .registerAnalyzer switches a ds trusted) trivial rfl _ _⟩
  | load h _ _ _ _ ih =>
    rw [List.forall_mem_append]
    exact ⟨ih, h.options ▸ isUnder_loadCalls _ _ _ _ _⟩
  | run _ _ _ _ _ _ _ _ ih => exact ih

end IsHosted

end Engine

end StyleEngine
