import StyleEngine.Engine
import StyleEngine.Proofs.Analysis.Findings
import StyleEngine.Proofs.Registry.Descriptors
import StyleEngine.Proofs.Registry.Registrations

/-! # Engines with text parsers and pattern analyzers

A host equips an engine by loading modules and registering add-ins, in any order
and with runs in between (`Engine.IsEquipped`).  A loading that ends early leaves
add-ins registered but not wired.  Whatever the host does, the add-ins are wired in
the order of their registration, and the patterns of their rules can be read.
-/
namespace StyleEngine

/-! ## Profiles of pattern analyzers -/

/-- Whether the rules of a profile are fit to be checked: the profile has the trust of the host if
the add-in has, and all patterns can be read. -/
structure Profile.Fits (p : Profile) (trusted : Bool) : Prop where
  trust : p.rules ≠ [] → p.trusted = trusted
  pattern : ∀ rule ∈ p.rules, ∀ text, rule.pattern = some text →
    (Pattern.compile? text).isSome = true

theorem PatternAnalyzer.profileFor_fits {id parserId : String} {ds : List InitDescriptor}
    {trusted : Bool} {switches : Switches} {p : Profile}
    (h : ((patternAnalyzer id parserId).profileFor ds trusted switches).result = .ok p) :
    p.Fits trusted := by
  obtain ⟨hread, rfl⟩ := profileFor_eq_ok_iff.mp h
  refine ⟨fun hne => ?_, fun rule hrule text htext => ?_⟩
  · cases ds with
    | nil => exact absurd rfl hne
    | cons d ds => rfl
  · obtain ⟨declared, hdeclared, rfl⟩ := List.mem_map.mp hrule
    rw [Rule.pattern_takenBy] at htext
    have hone := hread declared hdeclared
    rw [Rule.complaint?, htext, Option.map_some] at hone
    unfold Pattern.reader at hone
    cases hcompiled : Pattern.compile? text with
    | some pattern => rfl
    | none =>
      rw [hcompiled] at hone
      cases hone

/-! ## Equipping -/

namespace Registry

/-- The registries that come of registering text parsers and pattern analyzers and wiring them,
in any order. -/
inductive IsEquipped : Registry → Prop
  | builtins : IsEquipped withBuiltins
  | parser {r : Registry} {id : String} {extensions : List String} {ds : List InitDescriptor}
    {trusted : Bool} {switches : Switches} {p : Profile} (h : IsEquipped r)
    (hid : r.contains id = false)
    (hp : ((textParser id extensions).profileFor ds trusted switches).result = .ok p) :
    IsEquipped (r.addParser (textParser id extensions) p trusted)
  | analyzer {r : Registry} {id parserId : String} {ds : List InitDescriptor} {trusted : Bool}
    {switches : Switches} {p : Profile} (h : IsEquipped r) (hid : r.contains id = false)
    (hp : ((patternAnalyzer id parserId).profileFor ds trusted switches).result = .ok p) :
    IsEquipped (r.addAnalyzer (patternAnalyzer id parserId) p trusted)
  | wire {r : Registry} (h : IsEquipped r) : IsEquipped r.wire

namespace IsEquipped

variable {r : Registry}

theorem factories (h : r.IsEquipped) :
    r.parserFactories = withBuiltins.parserFactories ∧
      r.analyzerFactories = withBuiltins.analyzerFactories := by
  induction h with
  | builtins => exact ⟨rfl, rfl⟩
  | parser _ _ _ ih => exact ih
  | analyzer _ _ _ ih => exact ih
  | wire _ ih => exact ih

theorem isWired (h : r.IsEquipped) : r.IsWired := by
  induction h with
  | builtins => exact .builtins
  | parser _ hid _ ih => exact ih.addParser hid _ _
  | analyzer _ hid _ ih => exact ih.addAnalyzer hid _ _
  | wire _ ih => exact ih.wire

theorem isBuiltin (h : r.IsEquipped) : r.IsBuiltin := by
  induction h with
  | builtins => exact ⟨(fun _ h => by cases h), fun _ h => by cases h⟩
  | parser _ _ _ ih =>
    refine ⟨?_, ih.analyzer⟩
    intro e he
    rcases List.mem_append.mp he with he | he
    · exact ih.parser e he
    · obtain rfl := List.mem_singleton.mp he
      exact ⟨_, _, rfl⟩
  | analyzer _ _ _ ih =>
    refine ⟨ih.parser, ?_⟩
    intro a ha
    rcases List.mem_append.mp ha with ha | ha
    · exact ih.analyzer a ha
    · obtain rfl := List.mem_singleton.mp ha
      exact ⟨_, _, rfl⟩
  | wire _ ih =>
    refine ⟨?_, ?_⟩
    · intro e' he'
      rw [Registry.wire, foldl_attach] at he'
      obtain ⟨e, he, rfl⟩ := List.mem_map.mp he'
      exact ih.parser e he
    · intro a' ha'
      rw [analyzers_wire] at ha'
      obtain ⟨a, ha, rfl⟩ := List.mem_map.mp ha'
      rw [owned_analyzer]
      exact ih.analyzer a ha

/-- The rules of every analyzer are fit to be checked. -/
theorem fits (h : r.IsEquipped) : ∀ a ∈ r.analyzers, a.profile.Fits a.trusted := by
  induction h with
  | builtins => exact fun _ h => by cases h
  | parser _ _ _ ih => exact ih
  | analyzer _ _ hp ih =>
    intro a ha
    rcases List.mem_append.mp ha with ha | ha
    · exact ih a ha
    · obtain rfl := List.mem_singleton.mp ha
      exact PatternAnalyzer.profileFor_fits hp
  | wire _ ih =>
    intro a' ha'
    rw [analyzers_wire] at ha'
    obtain ⟨a, ha, rfl⟩ := List.mem_map.mp ha'
    unfold owned
    split <;> exact ih a ha

/-! ### Registering and loading -/

theorem registerParser (h : r.IsEquipped) {id : String} {extensions : List String}
    {ds : List InitDescriptor} {trusted isNew : Bool} {switches : Switches} {r' : Registry}
    (hr : (r.registerParser switches (textParser id extensions) ds trusted).result =
      .ok (isNew, r')) : r'.IsEquipped := by
  unfold Registry.registerParser at hr
  split at hr
  · obtain ⟨-, rfl⟩ := Prod.mk.inj (Except.ok.inj hr)
    exact h
  · next hid =>
    obtain ⟨p, hp, hadd⟩ := Reaction.andThen_eq_ok.mp hr
    obtain ⟨-, rfl⟩ := Prod.mk.inj (Except.ok.inj hadd)
    exact .parser h (Bool.eq_false_iff.mpr hid) hp

theorem registerAnalyzer (h : r.IsEquipped) {id parserId : String} {ds : List InitDescriptor}
    {trusted isNew : Bool} {switches : Switches} {r' : Registry}
    (hr : (r.registerAnalyzer switches (patternAnalyzer id parserId) ds trusted).result =
      .ok (isNew, r')) : r'.IsEquipped := by
  unfold Registry.registerAnalyzer at hr
  split at hr
  · obtain ⟨-, rfl⟩ := Prod.mk.inj (Except.ok.inj hr)
    exact h
  · next hid =>
    obtain ⟨p, hp, hadd⟩ := Reaction.andThen_eq_ok.mp hr
    obtain ⟨-, rfl⟩ := Prod.mk.inj (Except.ok.inj hadd)
    exact .analyzer h (Bool.eq_false_iff.mpr hid) hp

theorem lookup_singleton {β : Type} {key name : String} {b b' : β}
    (h : [(name, b)].lookup key = some b') : b' = b := by
  rw [List.lookup_cons] at h
  split at h
  · exact (Option.some.inj h).symm
  · cases h

/-- A declared add-in is built by the factory of text parsers or that of pattern analyzers. -/
theorem declare (h : r.IsEquipped) {switches : Switches} {spec : AddInSpec}
    {trusted isNew : Bool} {r' : Registry}
    (hr : (r.declare switches spec trusted).result = .ok (isNew, r')) : r'.IsEquipped := by
  obtain ⟨hparsers, hanalyzers⟩ := h.factories
  unfold Registry.declare at hr
  split at hr
  · obtain ⟨-, rfl⟩ := Prod.mk.inj (Except.ok.inj hr)
    exact h
  · split at hr
    · split at hr
      · cases hr
      · next build hbuild =>
        rw [hparsers] at hbuild
        obtain rfl := lookup_singleton hbuild
        obtain ⟨p, hp, hreg⟩ := Reaction.andThen_eq_ok.mp hr
        obtain rfl := Except.ok.inj hp
        exact h.registerParser hreg
    · split at hr
      · cases hr
      · next build hbuild =>
        rw [hanalyzers] at hbuild
        obtain rfl := lookup_singleton hbuild
        obtain ⟨a, ha, hreg⟩ := Reaction.andThen_eq_ok.mp hr
        obtain ⟨parserId, -, rfl⟩ := patternAnalyzerOf_eq_ok ha
        exact h.registerAnalyzer hreg

theorem loadSpec (h : r.IsEquipped) (switches : Switches) (path : Path) (trusted : Bool)
    (spec : AddInSpec) : (r.loadSpec switches path trusted spec).registry.IsEquipped := by
  unfold Registry.loadSpec
  simp only
  split
  · next hr => exact h.declare hr
  · exact h

end IsEquipped

end Registry

namespace Registry.IsEquipped

variable {r : Registry}

theorem loadModule (h : r.IsEquipped) (t : FileTree) (switches : Switches) (path : Path)
    (hostKey : List UInt8) : (r.loadModule t switches path hostKey).registry.IsEquipped := by
  unfold Registry.loadModule
  split
  · exact h
  · exact Loading.foldl_keeps _ (fun spec _ r hr => hr.loadSpec switches path _ spec) h

theorem loadFound (h : r.IsEquipped) (t : FileTree) (switches : Switches) (hostKey : List UInt8)
    (path : Path) : (r.loadFound t switches hostKey path).registry.IsEquipped := by
  rw [registry_loadFound]
  exact h.loadModule t switches path hostKey

theorem loadAll (h : r.IsEquipped) (t : FileTree) (switches : Switches) (path : Path)
    (hostKey : List UInt8) : (r.loadAll t switches path hostKey).registry.IsEquipped := by
  unfold Registry.loadAll
  split
  · exact h
  · exact Loading.foldl_keeps _ (fun file _ r hr => hr.loadFound t switches hostKey file) h

end Registry.IsEquipped

namespace Engine

/-- The engines that a host can come to with text parsers and pattern analyzers: it may load
modules, register add-ins and run them, in any order. -/
inductive IsEquipped : Engine → Prop
  | fresh {e : Engine} (h : e.registry = .withBuiltins) : IsEquipped e
  | load {e : Engine} (h : IsEquipped e) (t : FileTree) (switches : Switches) (paths : List Path)
    (defaults : Bool) : IsEquipped (e.loadAddIns t switches paths defaults).engine
  | parser {e : Engine} (h : IsEquipped e) (switches : Switches) (id : String)
    (extensions : List String) (ds : List InitDescriptor) (trusted : Bool) :
    IsEquipped (e.registerParser switches (textParser id extensions) ds trusted).engine
  | analyzer {e : Engine} (h : IsEquipped e) (switches : Switches) (id parserId : String)
    (ds : List InitDescriptor) (trusted : Bool) :
    IsEquipped (e.registerAnalyzer switches (patternAnalyzer id parserId) ds trusted).engine
  | run {e : Engine} (h : IsEquipped e) (sweep : Sweep) (t : FileTree) (switches : Switches)
    (processors : Nat) (mode : RunMode) (settingsPath : Option String) (projects : List Project) :
    IsEquipped (e.runWith sweep t switches processors mode settingsPath projects).engine

theorem registry_registered {e : Engine} {x : Reaction AddInError (Bool × Registry)}
    (he : e.registry.IsEquipped)
    (h : ∀ isNew r, x.result = .ok (isNew, r) → r.IsEquipped) :
    (e.registered x).engine.registry.IsEquipped := by
  unfold registered
  simp only
  split
  · exact he
  · next isNew r hx => exact .wire (h isNew r hx)

theorem registry_loadDirectory {r : Registry} (h : r.IsEquipped) (t : FileTree)
    (switches : Switches) (hostKey : List UInt8) (path : Path) (explicit : Bool) :
    (loadDirectory t switches hostKey path explicit r).registry.IsEquipped := by
  unfold loadDirectory
  split
  · exact h
  · exact h.loadAll t switches path hostKey

theorem registry_loadAddIns {e : Engine} (h : e.registry.IsEquipped) (t : FileTree)
    (switches : Switches) (paths : List Path) (defaults : Bool) :
    (e.loadAddIns t switches paths defaults).engine.registry.IsEquipped := by
  have hloaded := Loading.foldl_keeps (P := Registry.IsEquipped)
    (paths.map (·, true) ++ if defaults then e.environment.searchPaths.map (·, false) else [])
    (fun x _ r hr => registry_loadDirectory hr t switches e.options.hostKey x.1 x.2)
    (s := { registry := e.registry }) h
  unfold loadAddIns
  simp only
  split
  · exact hloaded
  · exact .wire hloaded

theorem registry_runWith (e : Engine) (sweep : Sweep) (t : FileTree) (switches : Switches)
    (processors : Nat) (mode : RunMode) (settingsPath : Option String) (projects : List Project) :
    (e.runWith sweep t switches processors mode settingsPath projects).engine.registry =
      e.registry := by
  unfold runWith
  split
  · rfl
  · split <;> rfl

/-- **What an engine is equipped with**: text parsers and pattern analyzers that were registered
and wired. -/
theorem IsEquipped.registry {e : Engine} (h : e.IsEquipped) : e.registry.IsEquipped := by
  induction h with
  | fresh h => exact h ▸ .builtins
  | load _ t switches paths defaults ih => exact registry_loadAddIns ih t switches paths defaults
  | parser _ _ _ _ _ _ ih => exact registry_registered ih fun _ _ hr => ih.registerParser hr
  | analyzer _ _ _ _ _ _ ih => exact registry_registered ih fun _ _ hr => ih.registerAnalyzer hr
  | run _ _ _ _ _ _ _ _ ih => exact (registry_runWith ..).symm ▸ ih

end Engine

end StyleEngine
