import StyleEngine.Registry.Modules
import StyleEngine.Proofs.Registry.Wiring

/-! # Registrations

A registry is filled by single registrations, one module, or whole directories of
modules, and wired in between, in any order (`Registry.Call`).  However it was
filled, its tables say no more than the list of its registrations in the order in
which they were made (`Registry.history`, `Registry.Records`): a registration adds
to each of them at the end, and nothing is taken back or replaced.

So the tables can be read off the history: what an id stands for, the parser of
an extension and the default of a rule are those of the first registration that
has them, and no later call changes them (`Registry.registrations_stand`).
-/
namespace StyleEngine

/-- An add-in as it was registered, with what it was configured with and whether the host
trusts it. -/
inductive Registration where
  | parser (parser : Parser) (profile : Profile) (trusted : Bool)
  | analyzer (analyzer : Analyzer) (profile : Profile) (trusted : Bool)

namespace Registration

def id : Registration → String
  | parser p _ _ => p.id
  | analyzer a _ _ => a.id

def profile : Registration → Profile
  | parser _ f _ => f
  | analyzer _ f _ => f

def trusted : Registration → Bool
  | parser _ _ t => t
  | analyzer _ _ t => t

def isParser : Registration → Bool
  | parser .. => true
  | analyzer .. => false

end Registration

def ParserEntry.registration (e : ParserEntry) : Registration :=
  .parser e.parser e.profile e.trusted

def AnalyzerEntry.registration (e : AnalyzerEntry) : Registration :=
  .analyzer e.analyzer e.profile e.trusted

@[simp] theorem ParserEntry.id_registration (e : ParserEntry) :
    e.registration.id = e.parser.id := rfl

@[simp] theorem AnalyzerEntry.id_registration (e : AnalyzerEntry) :
    e.registration.id = e.analyzer.id := rfl

/-- Whether a parser lists an extension, given in lower case. -/
def ParserEntry.lists (e : ParserEntry) (extension : String) : Bool :=
  (e.parser.extensions.map lowerCase).contains extension

namespace Registry

/-- The registry with one more add-in. -/
def enrol (r : Registry) : Registration → Registry
  | .parser p f t => r.addParser p f t
  | .analyzer a f t => r.addAnalyzer a f t

/-- What is registered under an id. -/
def registration? (r : Registry) (id : String) : Option Registration :=
  match r.parserEntry? id with
  | some e => some e.registration
  | none => (r.analyzerEntry? id).map AnalyzerEntry.registration

/-- The add-ins of a registry that another one, from which it came, does not have yet. -/
def newcomers (r r' : Registry) : List Registration :=
  (r'.parsers.drop r.parsers.length).map ParserEntry.registration ++
    (r'.analyzers.drop r.analyzers.length).map AnalyzerEntry.registration

/-- The registry after a registration: one that failed has not touched it. -/
def settle (r : Registry) (x : Reaction AddInError (Bool × Registry)) : Registry :=
  match x.result with
  | .ok (_, r') => r'
  | .error _ => r

/-! ## Calls and their history -/

/-- What a host asks of a registry. -/
inductive Call where
  | parserFactory (name : String) (f : Factory Parser)
  | analyzerFactory (name : String) (f : Factory Analyzer)
  | registerParser (switches : Switches) (parser : Parser) (ds : List InitDescriptor)
    (trusted : Bool)
  | registerAnalyzer (switches : Switches) (analyzer : Analyzer) (ds : List InitDescriptor)
    (trusted : Bool)
  | loadModule (t : FileTree) (switches : Switches) (path : Path) (hostKey : List UInt8)
  | loadAll (t : FileTree) (switches : Switches) (path : Path) (hostKey : List UInt8)
  | wire

/-- The registry after a call. -/
def after (r : Registry) : Call → Registry
  | .parserFactory name f => r.addParserFactory name f
  | .analyzerFactory name f => r.addAnalyzerFactory name f
  | .registerParser switches p ds trusted => r.settle (r.registerParser switches p ds trusted)
  | .registerAnalyzer switches a ds trusted => r.settle (r.registerAnalyzer switches a ds trusted)
  | .loadModule t switches path hostKey => (r.loadModule t switches path hostKey).registry
  | .loadAll t switches path hostKey => (r.loadAll t switches path hostKey).registry
  | .wire => r.wire

/-- The registry after calls, one after the other. -/
def afterAll (r : Registry) (cs : List Call) : Registry := cs.foldl after r

end Registry

/-- Steps of loading that keep a property of the registry keep it one after the other. -/
theorem Loading.foldl_keeps {α : Type} {P : Registry → Prop} {step : α → Registry → Loading}
    (as : List α) (hstep : ∀ a ∈ as, ∀ r, P r → P (step a r).registry) {s : Loading}
    (hs : P s.registry) : P (as.foldl (fun s a => s.andThen (step a)) s).registry := by
  induction as generalizing s with
  | nil => exact hs
  | cons a as ih =>
    rw [List.foldl_cons]
    refine ih (fun b hb => hstep b (List.mem_cons_of_mem _ hb)) ?_
    unfold Loading.andThen
    split
    · exact hs
    · exact hstep a List.mem_cons_self _ hs

/-- What steps of loading register one after the other, given what each of them registers. -/
def Loading.registered {α : Type} (step : α → Registry → Loading)
    (new : α → Registry → List Registration) : Loading → List α → List Registration
  | _, [] => []
  | s, a :: as =>
    (match s.result with
      | .ok _ => new a s.registry
      | .error _ => []) ++ registered step new (s.andThen (step a)) as

namespace Registry

/-- What a declared add-in of a module registers. -/
def specRegistered (switches : Switches) (path : Path) (trusted : Bool) (spec : AddInSpec)
    (r : Registry) : List Registration :=
  r.newcomers (r.loadSpec switches path trusted spec).registry

/-- What a module registers, in order. -/
def moduleRegistered (t : FileTree) (switches : Switches) (hostKey : List UInt8) (path : Path)
    (r : Registry) : List Registration :=
  match readManifest t path with
  | .error _ => []
  | .ok m =>
    Loading.registered (loadSpec switches path (isTrustedKey m.key hostKey))
      (specRegistered switches path (isTrustedKey m.key hostKey)) { registry := r } m.addins

/-- What a call registers, in order. -/
def registered (r : Registry) : Call → List Registration
  | .parserFactory .. | .analyzerFactory .. | .wire => []
  | .registerParser switches p ds trusted =>
    r.newcomers (r.settle (r.registerParser switches p ds trusted))
  | .registerAnalyzer switches a ds trusted =>
    r.newcomers (r.settle (r.registerAnalyzer switches a ds trusted))
  | .loadModule t switches path hostKey => moduleRegistered t switches hostKey path r
  | .loadAll t switches path hostKey =>
    match t.filesBelow path with
    | .error _ => []
    | .ok files => Loading.registered (loadFound t switches hostKey)
        (moduleRegistered t switches hostKey) { registry := r } (files.filter isModuleCandidate)

/-- All that calls register, in order. -/
def history (r : Registry) : List Call → List Registration
  | [] => []
  | c :: cs => r.registered c ++ (r.after c).history cs

/-! ## What a registration does -/

variable {r r' : Registry}

/-- Whether a registry is another one or has one more add-in than that, under an id that was
free. -/
inductive Enrols (r : Registry) : Registry → Prop
  | nothing : Enrols r r
  | one (x : Registration) (h : r.contains x.id = false) : Enrols r (r.enrol x)

/-- What a registration may come to: a new add-in that is one of those expected, or a registry
that is unchanged. -/
structure AllOrNothing (r : Registry) (expected : Registration → Prop)
    (x : Reaction AddInError (Bool × Registry)) : Prop where
  all : ∀ r', x.result = .ok (true, r') →
    ∃ n, expected n ∧ r.contains n.id = false ∧ r' = r.enrol n
  nothing : (∀ r', x.result ≠ .ok (true, r')) → r.settle x = r

namespace AllOrNothing

variable {expected : Registration → Prop} {x : Reaction AddInError (Bool × Registry)}

theorem of_error {e : AddInError} (h : x.result = .error e) : r.AllOrNothing expected x := by
  refine ⟨fun r' hr' => ?_, fun _ => ?_⟩
  · rw [h] at hr'
    cases hr'
  · rw [settle, h]

theorem known : r.AllOrNothing expected (.ok (false, r)) := by
  refine ⟨fun r' hr' => ?_, fun _ => rfl⟩
  cases hr'

theorem new {n : Registration} (hexpected : expected n) (hn : r.contains n.id = false) :
    r.AllOrNothing expected (.ok (true, r.enrol n)) := by
  refine ⟨fun r' hr' => ?_, fun hne => absurd rfl (hne _)⟩
  exact ⟨n, hexpected, hn, (Prod.mk.inj (Except.ok.inj hr')).2.symm⟩

theorem mono {wider : Registration → Prop} (h : r.AllOrNothing expected x)
    (hwider : ∀ n, expected n → wider n) : r.AllOrNothing wider x where
  all r' hr' := by
    obtain ⟨n, hexpected, hn⟩ := h.all r' hr'
    exact ⟨n, hwider n hexpected, hn⟩
  nothing := h.nothing

/-- What comes before a registration can only make it fail. -/
theorem andThen {α : Type} {y : Reaction AddInError α}
    {next : α → Reaction AddInError (Bool × Registry)}
    (h : ∀ a, y.result = .ok a → r.AllOrNothing expected (next a)) :
    r.AllOrNothing expected (y.andThen next) := by
  cases hy : y.result with
  | error e => exact of_error (by rw [Reaction.andThen, hy])
  | ok a =>
    have hresult : (y.andThen next).result = (next a).result := by rw [Reaction.andThen, hy]
    refine ⟨fun r' hr' => (h a hy).all r' (hresult ▸ hr'), fun hne => ?_⟩
    rw [settle, hresult]
    exact (h a hy).nothing (hresult ▸ hne)

/-- A parser is registered as it was configured. -/
theorem registerParser (switches : Switches) (parser : Parser) (ds : List InitDescriptor)
    (trusted : Bool) :
    r.AllOrNothing (fun n => ∃ p, (parser.profileFor ds trusted switches).result = .ok p ∧
        n = .parser parser p trusted)
      (r.registerParser switches parser ds trusted) := by
  unfold Registry.registerParser
  split
  · exact known
  · next hid =>
    refine andThen fun p hp => ?_
    exact new (n := .parser parser p trusted) ⟨p, hp, rfl⟩ (Bool.eq_false_iff.mpr hid)

/-- An analyzer is registered as it was configured. -/
theorem registerAnalyzer (switches : Switches) (analyzer : Analyzer) (ds : List InitDescriptor)
    (trusted : Bool) :
    r.AllOrNothing (fun n => ∃ p, (analyzer.profileFor ds trusted switches).result = .ok p ∧
        n = .analyzer analyzer p trusted)
      (r.registerAnalyzer switches analyzer ds trusted) := by
  unfold Registry.registerAnalyzer
  split
  · exact known
  · next hid =>
    refine andThen fun p hp => ?_
    exact new (n := .analyzer analyzer p trusted) ⟨p, hp, rfl⟩ (Bool.eq_false_iff.mpr hid)

/-- A declared add-in is trusted as its module is. -/
theorem declare (switches : Switches) (spec : AddInSpec) (trusted : Bool) :
    r.AllOrNothing (fun n => n.trusted = trusted) (r.declare switches spec trusted) := by
  unfold Registry.declare
  split
  · exact known
  · split
    · split
      · exact of_error rfl
      · refine andThen fun p _ => (registerParser switches p spec.descriptors trusted).mono ?_
        rintro n ⟨profile, -, rfl⟩
        rfl
    · split
      · exact of_error rfl
      · refine andThen fun a _ => (registerAnalyzer switches a spec.descriptors trusted).mono ?_
        rintro n ⟨profile, -, rfl⟩
        rfl

theorem enrols (h : r.AllOrNothing expected x) : r.Enrols (r.settle x) := by
  by_cases hx : ∃ r', x.result = .ok (true, r')
  · obtain ⟨r', hr'⟩ := hx
    obtain ⟨n, -, hn, rfl⟩ := h.all r' hr'
    rw [settle, hr']
    exact .one n hn
  · rw [h.nothing fun r' hr' => hx ⟨r', hr'⟩]
    exact .nothing

end AllOrNothing

/-- Loading a declared add-in comes to registering it, whatever its failure is recorded as. -/
theorem registry_loadSpec (switches : Switches) (path : Path) (trusted : Bool) (spec : AddInSpec) :
    (r.loadSpec switches path trusted spec).registry =
      r.settle (r.declare switches spec trusted) := by
  unfold loadSpec settle
  dsimp only
  cases (r.declare switches spec trusted).result with
  | ok x => rfl
  | error cause => rfl

/-- Loading a module that was found comes to loading it, whatever its failure is recorded as. -/
theorem registry_loadFound (t : FileTree) (switches : Switches) (hostKey : List UInt8)
    (path : Path) : (r.loadFound t switches hostKey path).registry =
      (r.loadModule t switches path hostKey).registry := by
  unfold loadFound
  simp only
  split <;> rfl

theorem newcomers_self : r.newcomers r = [] := by
  simp [newcomers]

theorem newcomers_enrol (x : Registration) : r.newcomers (r.enrol x) = [x] := by
  cases x with
  | parser p f t => simp [newcomers, enrol, addParser, addDefaults, ParserEntry.registration]
  | analyzer a f t =>
    simp [newcomers, enrol, addAnalyzer, addDefaults, AnalyzerEntry.registration]

/-! ## What a history says about a registry -/

/-- Whether the tables of a registry are those of its registrations, in the order in which they
were made. -/
structure Records (r : Registry) (log : List Registration) : Prop where
  parsers : r.parsers.map ParserEntry.registration = log.filter Registration.isParser
  analyzers : r.analyzers.map AnalyzerEntry.registration = log.filter (!·.isParser)
  /-- Parsers and analyzers share their ids. -/
  ids : (log.map Registration.id).Nodup
  extensions : r.extensions =
    r.parsers.flatMap fun e => (e.parser.extensions.map lowerCase).map fun x => (x, e.parser.id)
  ruleDefaults : r.ruleDefaults =
    (log.flatMap (·.profile.rules)).map fun rule => (rule.id, rule.enabled)

/-- A registry that has no add-ins yet. -/
structure HoldsNothing (r : Registry) : Prop where
  parsers : r.parsers = []
  analyzers : r.analyzers = []
  extensions : r.extensions = []
  ruleDefaults : r.ruleDefaults = []

theorem HoldsNothing.builtins : withBuiltins.HoldsNothing := ⟨rfl, rfl, rfl, rfl⟩

theorem HoldsNothing.records (h : r.HoldsNothing) : r.Records [] := by
  constructor <;> simp [h.parsers, h.analyzers, h.extensions, h.ruleDefaults]

namespace Records

variable {log : List Registration}

theorem contains_iff (h : r.Records log) {id : String} :
    r.contains id = true ↔ ∃ x ∈ log, x.id = id := by
  rw [contains, Bool.or_eq_true, isSome_parserEntry?_iff, analyzerEntry?, List.find?_isSome]
  constructor
  · rintro (⟨e, he, rfl⟩ | ⟨a, ha, hid⟩)
    · have hmem := h.parsers ▸ List.mem_map_of_mem (f := ParserEntry.registration) he
      exact ⟨_, (List.mem_filter.mp hmem).1, rfl⟩
    · have hmem := h.analyzers ▸ List.mem_map_of_mem (f := AnalyzerEntry.registration) ha
      exact ⟨_, (List.mem_filter.mp hmem).1, eq_of_beq hid⟩
  · rintro ⟨x, hx, rfl⟩
    cases hkind : x.isParser with
    | true =>
      have hmem : x ∈ r.parsers.map ParserEntry.registration :=
        h.parsers ▸ List.mem_filter.mpr ⟨hx, hkind⟩
      obtain ⟨e, he, rfl⟩ := List.mem_map.mp hmem
      exact .inl ⟨e, he, rfl⟩
    | false =>
      have hmem : x ∈ r.analyzers.map AnalyzerEntry.registration :=
        h.analyzers ▸ List.mem_filter.mpr ⟨hx, by rw [hkind]; rfl⟩
      obtain ⟨a, ha, rfl⟩ := List.mem_map.mp hmem
      exact .inr ⟨a, ha, beq_self_eq_true _⟩

/-- **A registration goes to the end of every table.** -/
theorem enrol (h : r.Records log) {x : Registration} (hx : r.contains x.id = false) :
    (r.enrol x).Records (log ++ [x]) := by
  have hids : ((log ++ [x]).map Registration.id).Nodup := by
    rw [List.map_append, List.map_singleton, List.nodup_append]
    refine ⟨h.ids, List.pairwise_singleton _ _, ?_⟩
    intro id hmem id' hmem' heq
    obtain ⟨y, hy, rfl⟩ := List.mem_map.mp hmem
    have hknown : r.contains x.id = true :=
      h.contains_iff.mpr ⟨y, hy, heq.trans (List.mem_singleton.mp hmem')⟩
    rw [hknown] at hx
    cases hx
  cases x with
  | parser p f t =>
    refine ⟨?_, ?_, hids, ?_, ?_⟩
    · rw [List.filter_append, ← h.parsers]
      exact List.map_append
    · rw [List.filter_append, ← h.analyzers]
      exact (List.append_nil _).symm
    · simp [Registry.enrol, addParser, addDefaults, h.extensions, Function.comp_def]
    · simp [Registry.enrol, addParser, addDefaults, h.ruleDefaults, Registration.profile]
  | analyzer a f t =>
    refine ⟨?_, ?_, hids, h.extensions, ?_⟩
    · rw [List.filter_append, ← h.parsers]
      exact (List.append_nil _).symm
    · rw [List.filter_append, ← h.analyzers]
      exact List.map_append
    · simp [Registry.enrol, addAnalyzer, addDefaults, h.ruleDefaults, Registration.profile]

theorem enrols (h : r.Records log) (hr : r.Enrols r') : r'.Records (log ++ r.newcomers r') := by
  cases hr with
  | nothing =>
    rw [newcomers_self, List.append_nil]
    exact h
  | one x hx =>
    rw [newcomers_enrol]
    exact h.enrol hx

/-- Wiring is not a registration: it changes only what add-ins know of each other. -/
theorem wire (h : r.Records log) : r.wire.Records log := by
  have hparsers : r.wire.parsers =
      r.parsers.map fun e => { e with analyzers := attached e.parser.id r.analyzers e.analyzers } := by
    rw [Registry.wire, foldl_attach]
  refine ⟨?_, ?_, h.ids, ?_, h.ruleDefaults⟩
  · rw [hparsers, List.map_map, ← h.parsers]
    rfl
  · rw [analyzers_wire, List.map_map, ← h.analyzers]
    refine List.map_congr_left ?_
    intro a _
    show (r.owned a).registration = a.registration
    unfold owned
    split <;> rfl
  · rw [hparsers, List.flatMap_map]
    exact h.extensions

theorem loadSpec (h : r.Records log) (switches : Switches) (path : Path) (trusted : Bool)
    (spec : AddInSpec) :
    (r.loadSpec switches path trusted spec).registry.Records
      (log ++ specRegistered switches path trusted spec r) := by
  refine h.enrols ?_
  rw [registry_loadSpec]
  exact (AllOrNothing.declare switches spec trusted).enrols

end Records

end Registry

/-- Steps of loading keep the books one after the other. -/
theorem Loading.records_foldl {α : Type} {step : α → Registry → Loading}
    {new : α → Registry → List Registration}
    (hstep : ∀ a r log, r.Records log → (step a r).registry.Records (log ++ new a r))
    (as : List α) {s : Loading} {log : List Registration} (hs : s.registry.Records log) :
    (as.foldl (fun s a => s.andThen (step a)) s).registry.Records
      (log ++ registered step new s as) := by
  induction as generalizing s log with
  | nil => simpa [registered] using hs
  | cons a as ih =>
    rw [List.foldl_cons, registered, ← List.append_assoc]
    refine ih ?_
    cases hresult : s.result with
    | error e =>
      rw [Loading.andThen, hresult]
      simpa using hs
    | ok report =>
      rw [Loading.andThen, hresult]
      exact hstep a _ _ hs

namespace Registry

variable {r r' : Registry}

namespace Records

variable {log : List Registration}

theorem loadModule (h : r.Records log) (t : FileTree) (switches : Switches) (path : Path)
    (hostKey : List UInt8) : (r.loadModule t switches path hostKey).registry.Records
      (log ++ moduleRegistered t switches hostKey path r) := by
  cases hm : readManifest t path with
  | error e =>
    rw [Registry.loadModule, moduleRegistered, hm]
    simpa using h
  | ok m =>
    rw [Registry.loadModule, moduleRegistered, hm]
    exact Loading.records_foldl (fun spec r log hr => hr.loadSpec switches path _ spec) _ h

theorem loadFound (h : r.Records log) (t : FileTree) (switches : Switches) (hostKey : List UInt8)
    (path : Path) : (r.loadFound t switches hostKey path).registry.Records
      (log ++ moduleRegistered t switches hostKey path r) := by
  rw [registry_loadFound]
  exact h.loadModule t switches path hostKey

/-- **A call keeps the books.** -/
theorem after (h : r.Records log) (c : Call) : (r.after c).Records (log ++ r.registered c) := by
  cases c with
  | parserFactory name f =>
    rw [registered, List.append_nil]
    exact ⟨h.parsers, h.analyzers, h.ids, h.extensions, h.ruleDefaults⟩
  | analyzerFactory name f =>
    rw [registered, List.append_nil]
    exact ⟨h.parsers, h.analyzers, h.ids, h.extensions, h.ruleDefaults⟩
  | registerParser switches p ds trusted =>
    exact h.enrols (AllOrNothing.registerParser switches p ds trusted).enrols
  | registerAnalyzer switches a ds trusted =>
    exact h.enrols (AllOrNothing.registerAnalyzer switches a ds trusted).enrols
  | loadModule t switches path hostKey => exact h.loadModule t switches path hostKey
  | loadAll t switches path hostKey =>
    cases hfiles : t.filesBelow path with
    | error e =>
      rw [Registry.after, registered, Registry.loadAll, hfiles, List.append_nil]
      exact h
    | ok files =>
      rw [Registry.after, registered, Registry.loadAll, hfiles]
      exact Loading.records_foldl (fun file r log hr => hr.loadFound t switches hostKey file) _ h
  | wire =>
    rw [registered, List.append_nil]
    exact h.wire

theorem afterAll (h : r.Records log) (cs : List Call) :
    (r.afterAll cs).Records (log ++ r.history cs) := by
  induction cs generalizing r log with
  | nil =>
    rw [history, List.append_nil]
    exact h
  | cons c cs ih =>
    rw [history, ← List.append_assoc]
    exact ih (h.after c)

/-! ## Reading the tables off the history -/

theorem mem_of_registration?_eq_some (h : r.Records log) {id : String} {x : Registration}
    (hx : r.registration? id = some x) : x ∈ log ∧ x.id = id := by
  unfold registration? at hx
  split at hx
  · next e he =>
    obtain rfl := Option.some.inj hx
    have hmem : e.registration ∈ log.filter Registration.isParser := by
      rw [← h.parsers]
      exact List.mem_map_of_mem (List.mem_of_find?_eq_some he)
    exact ⟨(List.mem_filter.mp hmem).1, by simpa using List.find?_some he⟩
  · obtain ⟨a, ha, rfl⟩ := Option.map_eq_some_iff.mp hx
    have hmem : a.registration ∈ log.filter (!·.isParser) := by
      rw [← h.analyzers]
      exact List.mem_map_of_mem (List.mem_of_find?_eq_some ha)
    exact ⟨(List.mem_filter.mp hmem).1, by simpa using List.find?_some ha⟩

/-- **An id stands for the one add-in that was registered under it.** -/
theorem registration?_eq (h : r.Records log) (id : String) :
    r.registration? id = log.find? (·.id == id) := by
  cases hx : r.registration? id with
  | some x =>
    obtain ⟨hmem, rfl⟩ := h.mem_of_registration?_eq_some hx
    exact (find?_of_nodup h.ids hmem).symm
  | none =>
    have hfree : ¬ r.contains id = true := by
      unfold registration? at hx
      split at hx
      · cases hx
      · next hp => simp [contains, hp, Option.map_eq_none_iff.mp hx]
    rw [h.contains_iff] at hfree
    symm
    rw [List.find?_eq_none]
    intro x hx hid
    exact hfree ⟨x, hx, eq_of_beq hid⟩

theorem nodup_parsers (h : r.Records log) : (r.parsers.map fun e => e.parser.id).Nodup := by
  have hids : r.parsers.map (fun e => e.parser.id) =
      (log.filter Registration.isParser).map Registration.id := by
    rw [← h.parsers, List.map_map]
    rfl
  rw [hids]
  exact h.ids.sublist ((List.filter_sublist).map _)

/-- Parsers and analyzers do not share an id. -/
theorem nodup_ids (h : r.Records log) :
    (r.parsers.map (·.parser.id) ++ r.analyzers.map (·.analyzer.id)).Nodup := by
  have hids : r.parsers.map (·.parser.id) ++ r.analyzers.map (·.analyzer.id) =
      (log.filter Registration.isParser ++ log.filter (!·.isParser)).map Registration.id := by
    rw [List.map_append, ← h.parsers, ← h.analyzers, List.map_map, List.map_map]
    rfl
  rw [hids]
  exact ((List.filter_append_perm _ log).map _).nodup_iff.mpr h.ids

end Records

/-- What a registry holds in a table of keys is found under the first add-in that has the key. -/
theorem lookup_flatMap {α β : Type} (keys : α → List String) (value : α → β) (l : List α)
    (key : String) :
    (l.flatMap fun a => (keys a).map fun k => (k, value a)).lookup key =
      (l.find? fun a => (keys a).contains key).map value := by
  have hone : ∀ (ks : List String) (b : β),
      (ks.map fun k => (k, b)).lookup key = if ks.contains key then some b else none := by
    intro ks b
    induction ks with
    | nil => rfl
    | cons k ks ih =>
      rw [List.map_cons, List.lookup_cons, List.contains_cons, ih]
      cases key == k <;> rfl
  induction l with
  | nil => rfl
  | cons a l ih =>
    rw [List.flatMap_cons, List.lookup_append, hone, ih, List.find?_cons]
    cases (keys a).contains key <;> rfl

namespace Records

variable {log : List Registration}

/-- The parser that an extension is entered for is the first one that lists it. -/
theorem lookup_extensions (h : r.Records log) (extension : String) :
    r.extensions.lookup extension =
      (r.parsers.find? (·.lists extension)).map (·.parser.id) := by
  rw [h.extensions]
  exact lookup_flatMap _ _ _ _

/-- **The parser of an extension is the first one that lists it.** -/
theorem parserFor?_eq (h : r.Records log) (extension : String) :
    r.parserFor? extension = r.parsers.find? (·.lists (lowerCase extension)) := by
  rw [parserFor?, h.lookup_extensions]
  cases he : r.parsers.find? (·.lists (lowerCase extension)) with
  | none => rfl
  | some e => exact find?_of_nodup h.nodup_parsers (List.mem_of_find?_eq_some he)

/-- **The default of a rule is that of the first one with its id.** -/
theorem ruleDefault?_eq (h : r.Records log) (rule : String) :
    r.ruleDefault? rule =
      ((log.flatMap (·.profile.rules)).find? (·.id == rule)).map (·.enabled) := by
  rw [ruleDefault?, h.ruleDefaults, List.map_eq_flatMap]
  refine (lookup_flatMap (fun x : Rule => [x.id]) (fun x : Rule => x.enabled) _ _).trans ?_
  congr 2
  funext x
  rw [List.contains_cons, List.contains_nil, Bool.or_false, BEq.comm]

end Records

theorem isTrusted_of_registration? {id : String} {x : Registration}
    (h : r.registration? id = some x) : r.isTrusted id = x.trusted := by
  unfold registration? at h
  unfold isTrusted
  cases he : r.parserEntry? id with
  | some e =>
    rw [he] at h
    obtain rfl := Option.some.inj h
    rfl
  | none =>
    rw [he] at h
    obtain ⟨a, ha, rfl⟩ := Option.map_eq_some_iff.mp h
    rw [ha]
    rfl

theorem profile?_of_registration? {id : String} {x : Registration}
    (h : r.registration? id = some x) : r.profile? id = some x.profile := by
  unfold registration? at h
  unfold profile?
  cases he : r.parserEntry? id with
  | some e =>
    rw [he] at h
    obtain rfl := Option.some.inj h
    rfl
  | none =>
    rw [he] at h
    obtain ⟨a, ha, rfl⟩ := Option.map_eq_some_iff.mp h
    rw [ha]
    rfl

/-- **What is registered stands.**  However a registry without add-ins is filled, its ids are
unique among parsers and analyzers together.  Its parsers and analyzers are those of its history,
in the order of their registration, and later calls only add to their ends: what was registered
under an id stays registered under it, as it was configured and trusted then.  An extension
belongs to the first parser that lists it, in any case, and the default of a rule is that of the
first one with its id among all that were registered.  A registration, by the host or by a module,
adds one add-in under a free id, or else it leaves the registry as it was. -/
theorem registrations_stand {r₀ : Registry} (h₀ : r₀.HoldsNothing) (cs later : List Call) :
    let r := r₀.afterAll cs
    let r' := r.afterAll later
    let log := r₀.history cs
    (r.parsers.map (·.parser.id) ++ r.analyzers.map (·.analyzer.id)).Nodup ∧
    r.parsers.map ParserEntry.registration = log.filter Registration.isParser ∧
    r.analyzers.map AnalyzerEntry.registration = log.filter (!·.isParser) ∧
    r.parsers.map ParserEntry.registration <+: r'.parsers.map ParserEntry.registration ∧
    r.analyzers.map AnalyzerEntry.registration <+: r'.analyzers.map AnalyzerEntry.registration ∧
    (∀ id x, r.registration? id = some x →
      r'.registration? id = some x ∧ r'.profile? id = some x.profile ∧
        r'.isTrusted id = x.trusted) ∧
    (∀ extension, r.extensions.lookup extension =
      (r.parsers.find? (·.lists extension)).map (·.parser.id)) ∧
    (∀ extension, r.parserFor? extension = r.parsers.find? (·.lists (lowerCase extension))) ∧
    (∀ rule, r.ruleDefault? rule =
      ((log.flatMap (·.profile.rules)).find? (·.id == rule)).map (·.enabled)) ∧
    (∀ switches parser ds trusted,
      r.AllOrNothing (fun n => ∃ p, (parser.profileFor ds trusted switches).result = .ok p ∧
          n = .parser parser p trusted)
        (r.registerParser switches parser ds trusted)) ∧
    (∀ switches analyzer ds trusted,
      r.AllOrNothing (fun n => ∃ p, (analyzer.profileFor ds trusted switches).result = .ok p ∧
          n = .analyzer analyzer p trusted)
        (r.registerAnalyzer switches analyzer ds trusted)) ∧
    (∀ switches path trusted spec,
      r.AllOrNothing (fun n => n.trusted = trusted) (r.declare switches spec trusted) ∧
        (r.loadSpec switches path trusted spec).registry =
          r.settle (r.declare switches spec trusted)) := by
  intro r r' log
  have hr : r.Records log := h₀.records.afterAll cs
  have hr' : r'.Records (log ++ r.history later) := hr.afterAll later
  refine ⟨hr.nodup_ids, hr.parsers, hr.analyzers, ?_, ?_, ?_, hr.lookup_extensions,
    hr.parserFor?_eq, hr.ruleDefault?_eq, AllOrNothing.registerParser,
    AllOrNothing.registerAnalyzer, fun switches path trusted spec =>
      ⟨AllOrNothing.declare switches spec trusted, registry_loadSpec switches path trusted spec⟩⟩
  · rw [hr.parsers, hr'.parsers, List.filter_append]
    exact List.prefix_append _ _
  · rw [hr.analyzers, hr'.analyzers, List.filter_append]
    exact List.prefix_append _ _
  · intro id x hx
    have hx' : r'.registration? id = some x := by
      rw [hr.registration?_eq] at hx
      rw [hr'.registration?_eq, List.find?_append, hx]
      rfl
    exact ⟨hx', profile?_of_registration? hx', isTrusted_of_registration? hx'⟩

/-- A parser that is registered again without trust keeps the trust that it has. -/
theorem text_parser_stands :
    withBuiltins.HoldsNothing ∧
    ((withBuiltins.afterAll [.registerParser [] (textParser "text" ["TXT"]) [] true]).afterAll
      [.registerParser [] (textParser "text" ["md"]) [] false, .wire]).isTrusted "text" = true := by
  refine ⟨.builtins, ?_⟩
  have hstands := registrations_stand .builtins
    [.registerParser [] (textParser "text" ["TXT"]) [] true]
    [.registerParser [] (textParser "text" ["md"]) [] false, .wire]
  obtain ⟨-, -, -, -, -, hkept, -⟩ := hstands
  exact (hkept "text" _ rfl).2.2

end Registry

end StyleEngine
