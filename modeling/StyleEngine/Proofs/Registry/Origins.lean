import StyleEngine.Proofs.Registry.Equipment
import StyleEngine.Proofs.Registry.WiringOrder

/-! # Where add-ins come from

What a call to a registry registers was handed in by the host, or else it comes from
a module that the call loads (`Registry.Brings`).  An add-in of a module is trusted
exactly if the module carries the key that it was loaded under, and a pattern
analyzer keeps of the rules that its declaration lists the first one with each id
(`PatternAnalyzer.rules_profileFor`).
-/
namespace StyleEngine

/-! ## The rules that an analyzer keeps -/

namespace PatternAnalyzer

variable {id : String} {trusted : Bool} {p : Profile}

/-- **The rules of a pattern analyzer** are the first ones with each id among all that were
declared for it. -/
theorem rules_profileFor {parserId : String} {ds : List InitDescriptor} {switches : Switches}
    (h : ((patternAnalyzer id parserId).profileFor ds trusted switches).result = .ok p) :
    p.rules = ((ds.flatMap (·.rules)).eraseDupsBy Rule.sameId).map (·.takenBy id trusted) := by
  rw [(profileFor_eq_ok_iff.mp h).2]

/-- **Which rules are active**: those with a pattern, of the ones for trusted add-ins only if the
add-in is trusted. -/
theorem exists_mem_activeRules_iff (h : p.Fits trusted) {rule : Rule} :
    (∃ pattern, (rule, pattern) ∈ activeRules p) ↔
      rule ∈ p.rules ∧ rule.pattern.isSome = true ∧
        (rule.trustedOnly = true → trusted = true) := by
  have hmem (pattern : Pattern) : (rule, pattern) ∈ activeRules p ↔
      (rule ∈ p.rules ∧ (p.trusted || !rule.trustedOnly) = true) ∧
        rule.pattern.bind Pattern.compile? = some pattern := by
    rw [activeRules_eq, List.mem_filterMap]
    constructor
    · rintro ⟨r, hr, heq⟩
      obtain ⟨q, hq, heq⟩ := Option.map_eq_some_iff.mp heq
      obtain ⟨rfl, rfl⟩ := Prod.mk.inj heq
      exact ⟨List.mem_filter.mp hr, hq⟩
    · rintro ⟨hr, hq⟩
      exact ⟨rule, List.mem_filter.mpr hr, by rw [hq, Option.map_some]⟩
  have htrust (hr : rule ∈ p.rules) : (p.trusted || !rule.trustedOnly) = true ↔
      (rule.trustedOnly = true → trusted = true) := by
    rw [h.trust (List.ne_nil_of_mem hr)]
    cases rule.trustedOnly <;> simp
  constructor
  · rintro ⟨pattern, hpattern⟩
    obtain ⟨⟨hr, hgate⟩, hread⟩ := (hmem pattern).mp hpattern
    obtain ⟨text, htext, -⟩ := Option.bind_eq_some_iff.mp hread
    exact ⟨hr, by rw [htext, Option.isSome_some], (htrust hr).mp hgate⟩
  · rintro ⟨hr, hpattern, hgate⟩
    obtain ⟨text, htext⟩ := Option.isSome_iff_exists.mp hpattern
    obtain ⟨pattern, hread⟩ := Option.isSome_iff_exists.mp (h.pattern rule hr text htext)
    refine ⟨pattern, (hmem pattern).mpr ⟨⟨hr, (htrust hr).mpr hgate⟩, ?_⟩⟩
    rw [htext, Option.bind_some, hread]

end PatternAnalyzer

/-! ## What modules bring in -/

namespace Loading

variable {α : Type} {step : α → Registry → Loading} {new : α → Registry → List Registration}

/-- Loading as far as some steps. -/
def through (step : α → Registry → Loading) (r : Registry) (as : List α) : Loading :=
  as.foldl (fun s a => s.andThen (step a)) { registry := r }

theorem through_keeps {P : Registry → Prop} {r : Registry} {as : List α}
    (hstep : ∀ a ∈ as, ∀ r, P r → P (step a r).registry) (hr : P r) :
    P (through step r as).registry :=
  foldl_keeps as hstep hr

theorem foldl_andThen_of_error {s : Loading} {cause : AddInError} (h : s.result = .error cause)
    (as : List α) : as.foldl (fun s a => s.andThen (step a)) s = s := by
  induction as with
  | nil => rfl
  | cons a as ih =>
    have hstays : s.andThen (step a) = s := by rw [andThen, h]
    rw [List.foldl_cons, hstays, ih]

/-- What steps of loading register is what one of them registers when its turn comes. -/
theorem mem_registered_iff {s : Loading} {as : List α} {x : Registration} :
    x ∈ registered step new s as ↔ ∃ before a after report, as = before ++ a :: after ∧
      (before.foldl (fun s a => s.andThen (step a)) s).result = .ok report ∧
      x ∈ new a (before.foldl (fun s a => s.andThen (step a)) s).registry := by
  induction as generalizing s with
  | nil => simp [registered]
  | cons a as ih =>
    rw [registered, List.mem_append, ih]
    constructor
    · rintro (hx | ⟨before, b, after, report, rfl, hok, hx⟩)
      · cases hresult : s.result with
        | error cause =>
          rw [hresult] at hx
          cases hx
        | ok report =>
          rw [hresult] at hx
          exact ⟨[], a, as, report, rfl, hresult, hx⟩
      · exact ⟨a :: before, b, after, report, rfl, hok, hx⟩
    · rintro ⟨before, b, after, report, hsplit, hok, hx⟩
      cases before with
      | nil =>
        obtain ⟨rfl, rfl⟩ := List.cons.inj hsplit
        have hok' : s.result = .ok report := hok
        rw [hok']
        exact .inl hx
      | cons c before =>
        obtain ⟨rfl, rfl⟩ := List.cons.inj hsplit
        exact .inr ⟨before, b, after, report, rfl, hok, hx⟩

end Loading

/-- Whether an add-in is what a declaration asks for, trusted as its module is.  One that is to be
a pattern analyzer is one, configured as declared. -/
structure Registration.IsAsDeclared (x : Registration) (spec : AddInSpec) (trusted : Bool) :
    Prop where
  trust : x.trusted = trusted
  pattern : spec.kind = .analyzer → spec.factory = "pattern" →
    ∃ parserId switches p, spec.parser = some parserId ∧
      ((patternAnalyzer spec.id parserId).profileFor spec.descriptors trusted switches).result =
        .ok p ∧
      x = .analyzer (patternAnalyzer spec.id parserId) p trusted

namespace Registry

variable {r r₀ : Registry}

/-- Whether the factory for pattern analyzers builds them. -/
def BuildsPatterns (r : Registry) : Prop :=
  r.analyzerFactories.lookup "pattern" = some fun spec _ => { result := patternAnalyzerOf spec }

/-- Whether a call leaves alone the factory for pattern analyzers. -/
def Call.KeepsPatterns : Call → Prop
  | .analyzerFactory name _ => name ≠ "pattern"
  | _ => True

theorem BuildsPatterns.builtins : withBuiltins.BuildsPatterns := rfl

theorem BuildsPatterns.isInvariant : IsInvariant BuildsPatterns where
  enrol _ x h _ := by cases x <;> exact h
  wire _ h := h

theorem BuildsPatterns.afterAll (h : r.BuildsPatterns) {cs : List Call}
    (hcs : ∀ c ∈ cs, c.KeepsPatterns) : (r.afterAll cs).BuildsPatterns := by
  refine isInvariant.afterAll h fun c hc r hr hadds => ?_
  cases c with
  | parserFactory name f => exact hr
  | analyzerFactory name f =>
    have hname : name ≠ "pattern" := hcs _ hc
    show ((name, f) :: r.analyzerFactories).lookup "pattern" = _
    rw [List.lookup_cons, beq_false_of_ne hname.symm]
    exact hr
  | _ => cases hadds

/-! ### Add-ins as they were declared -/

theorem BuildsPatterns.declare (h : r.BuildsPatterns) (switches : Switches) (spec : AddInSpec)
    (trusted : Bool) :
    r.AllOrNothing (·.IsAsDeclared spec trusted) (r.declare switches spec trusted) := by
  unfold Registry.declare
  split
  · exact .known
  · split
    · next hkind =>
      split
      · exact .of_error rfl
      · refine .andThen fun p _ => ?_
        refine (AllOrNothing.registerParser switches p spec.descriptors trusted).mono ?_
        rintro n ⟨profile, -, rfl⟩
        exact ⟨rfl, fun hanalyzer => by rw [hkind] at hanalyzer; cases hanalyzer⟩
    · split
      · exact .of_error rfl
      · next build hbuild =>
        refine .andThen fun a ha => ?_
        refine (AllOrNothing.registerAnalyzer switches a spec.descriptors trusted).mono ?_
        rintro n ⟨profile, hprofile, rfl⟩
        refine ⟨rfl, fun _ hfactory => ?_⟩
        rw [hfactory, h] at hbuild
        obtain rfl := Option.some.inj hbuild
        obtain ⟨parserId, hparser, rfl⟩ := patternAnalyzerOf_eq_ok ha
        exact ⟨parserId, switches, profile, hparser, hprofile, rfl⟩

theorem AllOrNothing.mem_newcomers {expected : Registration → Prop}
    {y : Reaction AddInError (Bool × Registry)} {x : Registration}
    (h : r.AllOrNothing expected y) (hx : x ∈ r.newcomers (r.settle y)) : expected x := by
  by_cases hy : ∃ r', y.result = .ok (true, r')
  · obtain ⟨r', hr'⟩ := hy
    obtain ⟨n, hexpected, -, rfl⟩ := h.all r' hr'
    rw [settle, hr', newcomers_enrol] at hx
    exact List.mem_singleton.mp hx ▸ hexpected
  · rw [h.nothing fun r' hr' => hy ⟨r', hr'⟩, newcomers_self] at hx
    cases hx

/-! ### Modules and what they bring in -/

/-- Whether a module that is loaded under a key has a declaration that registers an add-in, after
those before it. -/
structure ModuleBrings (r : Registry) (t : FileTree) (switches : Switches) (hostKey : List UInt8)
    (path : Path) (m : Manifest) (spec : AddInSpec) (x : Registration) : Prop where
  read : readManifest t path = .ok m
  declared : ∃ before after report, m.addins = before ++ spec :: after ∧
    (Loading.through (loadSpec switches path (isTrustedKey m.key hostKey)) r before).result =
      .ok report ∧
    x ∈ specRegistered switches path (isTrustedKey m.key hostKey) spec
      (Loading.through (loadSpec switches path (isTrustedKey m.key hostKey)) r before).registry

/-- Whether a call loads under a key a module, a declaration of which registers an add-in: the one
that it names, or one that it finds, after those before it have been loaded. -/
inductive Brings (r : Registry) (hostKey : List UInt8) :
    Call → Manifest → AddInSpec → Registration → Prop
  | named {t : FileTree} {switches : Switches} {path : Path} {m : Manifest} {spec : AddInSpec}
    {x : Registration} (h : r.ModuleBrings t switches hostKey path m spec x) :
    Brings r hostKey (.loadModule t switches path hostKey) m spec x
  | found {t : FileTree} {switches : Switches} {root path : Path} {files before after : List Path}
    {report : LoadReport} {m : Manifest} {spec : AddInSpec} {x : Registration}
    (hfiles : t.filesBelow root = .ok files)
    (hpath : files.filter isModuleCandidate = before ++ path :: after)
    (hok : (Loading.through (loadFound t switches hostKey) r before).result = .ok report)
    (h : (Loading.through (loadFound t switches hostKey) r before).registry.ModuleBrings t switches
      hostKey path m spec x) :
    Brings r hostKey (.loadAll t switches root hostKey) m spec x

/-- Whether a call hands in an add-in with an id, with or without trust. -/
def Call.HandsIn : Call → String → Bool → Prop
  | .registerParser _ p _ trusted, id, t => p.id = id ∧ trusted = t
  | .registerAnalyzer _ a _ trusted, id, t => a.id = id ∧ trusted = t
  | _, _, _ => False

/-- The key that a call loads modules under, if it loads any. -/
def Call.hostKey? : Call → Option (List UInt8)
  | .loadModule _ _ _ hostKey => some hostKey
  | .loadAll _ _ _ hostKey => some hostKey
  | _ => none

/-- Whether a call may be one of a host with a key, which leaves pattern analyzers as they are. -/
structure Call.IsUnder (c : Call) (hostKey : List UInt8) : Prop where
  patterns : c.KeepsPatterns
  key : ∀ key, c.hostKey? = some key → key = hostKey

theorem Call.IsUnder.singleton {c : Call} (hpatterns : c.KeepsPatterns) (hkey : c.hostKey? = none)
    (hostKey : List UInt8) : ∀ c' ∈ [c], c'.IsUnder hostKey := by
  rw [List.forall_mem_singleton]
  exact ⟨hpatterns, fun key h => by rw [hkey] at h; cases h⟩

section

variable {t : FileTree} {switches : Switches} {hostKey : List UInt8} {path : Path} {m : Manifest}
  {spec : AddInSpec} {x : Registration} {c : Call}

theorem mem_moduleRegistered_iff : x ∈ moduleRegistered t switches hostKey path r ↔
    ∃ m spec, r.ModuleBrings t switches hostKey path m spec x := by
  unfold moduleRegistered
  constructor
  · intro hx
    split at hx
    · cases hx
    · next m hm =>
      obtain ⟨before, spec, after, report, hspec, hok, hx⟩ := Loading.mem_registered_iff.mp hx
      exact ⟨m, spec, hm, before, after, report, hspec, hok, hx⟩
  · rintro ⟨m, spec, hm, before, after, report, hspec, hok, hx⟩
    rw [hm]
    exact Loading.mem_registered_iff.mpr ⟨before, spec, after, report, hspec, hok, hx⟩

theorem ModuleBrings.isAsDeclared (h : r.ModuleBrings t switches hostKey path m spec x)
    (hr : r.BuildsPatterns) : x.IsAsDeclared spec (isTrustedKey m.key hostKey) := by
  obtain ⟨before, after, report, -, -, hx⟩ := h.declared
  rw [specRegistered, registry_loadSpec] at hx
  refine (BuildsPatterns.declare ?_ switches spec _).mem_newcomers hx
  exact Loading.through_keeps
    (fun spec _ r hr => BuildsPatterns.isInvariant.loadSpec hr switches path _ spec) hr

namespace Brings

theorem hostKey? (h : r.Brings hostKey c m spec x) : c.hostKey? = some hostKey := by
  cases h <;> rfl

/-- **An add-in of a module** is as declared there, and trusted if the module carries the key. -/
theorem isAsDeclared (h : r.Brings hostKey c m spec x) (hr : r.BuildsPatterns) :
    x.IsAsDeclared spec (isTrustedKey m.key hostKey) := by
  cases h with
  | named h => exact h.isAsDeclared hr
  | @found t switches root path files before after report _ _ _ hfiles hpath hok h =>
    refine h.isAsDeclared (Loading.through_keeps (fun file _ r hr => ?_) hr)
    exact BuildsPatterns.isInvariant.loadFound hr t switches hostKey file

theorem mem_registered (h : r.Brings hostKey c m spec x) : x ∈ r.registered c := by
  cases h with
  | named h => exact mem_moduleRegistered_iff.mpr ⟨m, spec, h⟩
  | found hfiles hpath hok h =>
    rw [registered, hfiles]
    exact Loading.mem_registered_iff.mpr
      ⟨_, _, _, _, hpath, hok, mem_moduleRegistered_iff.mpr ⟨m, spec, h⟩⟩

end Brings

/-- **Where an add-in comes from**: the host handed it in, or a module brought it. -/
theorem origin_of_mem_registered (hx : x ∈ r.registered c) :
    c.HandsIn x.id x.trusted ∨ ∃ hostKey m spec, r.Brings hostKey c m spec x := by
  cases c with
  | parserFactory | analyzerFactory | wire => cases hx
  | registerParser switches p ds trusted =>
    obtain ⟨-, -, rfl⟩ :=
      (AllOrNothing.registerParser (r := r) switches p ds trusted).mem_newcomers hx
    exact .inl ⟨rfl, rfl⟩
  | registerAnalyzer switches a ds trusted =>
    obtain ⟨-, -, rfl⟩ :=
      (AllOrNothing.registerAnalyzer (r := r) switches a ds trusted).mem_newcomers hx
    exact .inl ⟨rfl, rfl⟩
  | loadModule t switches path hostKey =>
    obtain ⟨m, spec, h⟩ := mem_moduleRegistered_iff.mp hx
    exact .inr ⟨hostKey, m, spec, .named h⟩
  | loadAll t switches root hostKey =>
    rw [registered] at hx
    split at hx
    · cases hx
    · next files hfiles =>
      obtain ⟨before, path, after, report, hpath, hok, hx⟩ := Loading.mem_registered_iff.mp hx
      obtain ⟨m, spec, h⟩ := mem_moduleRegistered_iff.mp hx
      exact .inr ⟨hostKey, m, spec, .found hfiles hpath hok h⟩

end

/-! ### In a history -/

theorem mem_history_iff {cs : List Call} {x : Registration} : x ∈ r.history cs ↔
    ∃ before c after, cs = before ++ c :: after ∧ x ∈ (r.afterAll before).registered c := by
  induction cs generalizing r with
  | nil => simp [history]
  | cons c cs ih =>
    rw [history, List.mem_append, ih]
    constructor
    · rintro (hx | ⟨before, c', after, rfl, hx⟩)
      · exact ⟨[], c, cs, rfl, hx⟩
      · exact ⟨c :: before, c', after, rfl, hx⟩
    · rintro ⟨before, c', after, hsplit, hx⟩
      cases before with
      | nil =>
        obtain ⟨rfl, rfl⟩ := List.cons.inj hsplit
        exact .inl hx
      | cons b before =>
        obtain ⟨rfl, rfl⟩ := List.cons.inj hsplit
        exact .inr ⟨before, c', after, rfl, hx⟩

/-- What a call registered is what its id stands for, whatever was called later. -/
theorem registration?_of_mem_registered (h₀ : r₀.HoldsNothing) {cs before after : List Call}
    {c : Call} (hcs : cs = before ++ c :: after) {x : Registration}
    (hx : x ∈ (r₀.afterAll before).registered c) :
    (r₀.afterAll cs).registration? x.id = some x := by
  have hrecords := h₀.records.afterAll cs
  rw [hrecords.registration?_eq]
  exact find?_of_nodup hrecords.ids
    (List.mem_append_right _ (mem_history_iff.mpr ⟨before, c, after, hcs, hx⟩))

end Registry

end StyleEngine
