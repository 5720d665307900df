import StyleEngine.Proofs.Registry.Registrations

/-! # Wiring in any order

Parsers and analyzers come in any order, by the host or by modules, and may be wired
any number of times in between.  Whatever the order was, after one more wiring every
analyzer whose parser is there is attached to it, in the order in which the analyzers
were registered, and wiring once more has nothing left to do
(`Registry.wired_in_any_order`).
-/
namespace StyleEngine

/-- Whether an add-in is an analyzer of the models of a parser. -/
def Registration.checks : Registration → String → Bool
  | parser .., _ => false
  | analyzer a _ _, id => a.parserId == id

namespace Registry

variable {r : Registry}

/-! ## What every call keeps -/

/-- Whether a call adds a factory, rather than add-ins or their wiring. -/
def Call.addsFactory : Call → Bool
  | parserFactory .. | analyzerFactory .. => true
  | _ => false

/-- Whether a property of registries is kept when an add-in is entered under a free id and when
add-ins are wired. -/
structure IsInvariant (P : Registry → Prop) : Prop where
  enrol : ∀ r x, P r → r.contains x.id = false → P (r.enrol x)
  wire : ∀ r, P r → P r.wire

namespace IsInvariant

variable {P : Registry → Prop}

theorem enrols (h : IsInvariant P) {r' : Registry} (hr : P r) (he : r.Enrols r') : P r' := by
  cases he with
  | nothing => exact hr
  | one x hx => exact h.enrol r x hr hx

theorem loadSpec (h : IsInvariant P) (hr : P r) (switches : Switches) (path : Path)
    (trusted : Bool) (spec : AddInSpec) :
    P (r.loadSpec switches path trusted spec).registry := by
  rw [registry_loadSpec]
  exact h.enrols hr (AllOrNothing.declare switches spec trusted).enrols

theorem loadModule (h : IsInvariant P) (hr : P r) (t : FileTree) (switches : Switches)
    (path : Path) (hostKey : List UInt8) :
    P (r.loadModule t switches path hostKey).registry := by
  unfold Registry.loadModule
  split
  · exact hr
  · refine Loading.foldl_keeps _ (fun spec _ r hr => ?_) hr
    exact h.loadSpec hr switches path _ spec

theorem loadFound (h : IsInvariant P) (hr : P r) (t : FileTree) (switches : Switches)
    (hostKey : List UInt8) (path : Path) :
    P (r.loadFound t switches hostKey path).registry := by
  rw [registry_loadFound]
  exact h.loadModule hr t switches path hostKey

theorem loadAll (h : IsInvariant P) (hr : P r) (t : FileTree) (switches : Switches)
    (path : Path) (hostKey : List UInt8) : P (r.loadAll t switches path hostKey).registry := by
  unfold Registry.loadAll
  split
  · exact hr
  · refine Loading.foldl_keeps _ (fun file _ r hr => ?_) hr
    exact h.loadFound hr t switches hostKey file

/-- **A call keeps what registering and wiring keep**, if it adds no factory or keeps it too. -/
theorem after (h : IsInvariant P) (hr : P r) {c : Call}
    (hc : c.addsFactory = true → P (r.after c)) : P (r.after c) := by
  cases c with
  | parserFactory name f => exact hc rfl
  | analyzerFactory name f => exact hc rfl
  | registerParser switches p ds trusted =>
    exact h.enrols hr (AllOrNothing.registerParser switches p ds trusted).enrols
  | registerAnalyzer switches a ds trusted =>
    exact h.enrols hr (AllOrNothing.registerAnalyzer switches a ds trusted).enrols
  | loadModule t switches path hostKey => exact h.loadModule hr t switches path hostKey
  | loadAll t switches path hostKey => exact h.loadAll hr t switches path hostKey
  | wire => exact h.wire r hr

theorem afterAll (h : IsInvariant P) (hr : P r) {cs : List Call}
    (hcs : ∀ c ∈ cs, ∀ r, P r → c.addsFactory = true → P (r.after c)) : P (r.afterAll cs) := by
  induction cs generalizing r with
  | nil => exact hr
  | cons c cs ih =>
    exact ih (h.after hr (hcs c List.mem_cons_self r hr)) fun c' hc' =>
      hcs c' (List.mem_cons_of_mem c hc')

end IsInvariant

theorem isInvariant_isWired : IsInvariant IsWired where
  enrol _ x h hx := by
    cases x with
    | parser p f t => exact h.addParser hx f t
    | analyzer a f t => exact h.addAnalyzer hx f t
  wire _ h := h.wire

/-- Factories have no part in the wiring. -/
theorem IsWired.afterAll (h : r.IsWired) (cs : List Call) : (r.afterAll cs).IsWired := by
  refine isInvariant_isWired.afterAll h fun c _ r hr hc => ?_
  cases c with
  | parserFactory name f => exact ⟨hr.parsers, hr.ids, hr.analyzers, hr.owner, hr.ordered⟩
  | analyzerFactory name f => exact ⟨hr.parsers, hr.ids, hr.analyzers, hr.owner, hr.ordered⟩
  | _ => cases hc

theorem HoldsNothing.isWired (h : r.HoldsNothing) : r.IsWired := by
  constructor <;> simp [h.parsers, h.analyzers]

/-! ## Nothing left to attach -/

/-- Whether every analyzer whose parser is registered is attached to it. -/
def LeavesNoneOut (r : Registry) : Prop :=
  ∀ a ∈ r.analyzers, (∃ e ∈ r.parsers, e.parser.id = a.analyzer.parserId) →
    a.owner = some a.analyzer.parserId

namespace IsWired

theorem leavesNoneOut_wire (h : r.IsWired) : r.wire.LeavesNoneOut := by
  intro a' ha' hparser
  rw [analyzers_wire] at ha'
  obtain ⟨a, ha, rfl⟩ := List.mem_map.mp ha'
  obtain ⟨e', he', hid⟩ := hparser
  rw [Registry.wire, foldl_attach] at he'
  obtain ⟨e, he, rfl⟩ := List.mem_map.mp he'
  rw [owned_analyzer] at hid ⊢
  exact (h.owner_owned ha).mpr ⟨rfl, isSome_parserEntry?_iff.mpr ⟨e, he, hid⟩⟩

/-- Where none is left out, the owner of an analyzer is the parser that it names, if there. -/
theorem owner_iff (h : r.IsWired) (hall : r.LeavesNoneOut) {a : AnalyzerEntry}
    (ha : a ∈ r.analyzers) {id : String} : a.owner = some id ↔
      a.analyzer.parserId = id ∧ ∃ e ∈ r.parsers, e.parser.id = id := by
  constructor
  · intro ho
    obtain ⟨rfl, hparser⟩ := h.owner a ha id ho
    exact ⟨rfl, hparser⟩
  · rintro ⟨rfl, hparser⟩
    exact hall a ha hparser

theorem filter_owner (h : r.IsWired) (hall : r.LeavesNoneOut) {id : String}
    (hparser : ∃ e ∈ r.parsers, e.parser.id = id) :
    (r.analyzers.filter fun a => a.owner = some id) =
      r.analyzers.filter fun a => a.analyzer.parserId = id := by
  refine List.filter_congr fun a ha => decide_eq_decide.mpr ?_
  rw [h.owner_iff hall ha]
  exact and_iff_left hparser

/-- **Where none is left out, wiring has nothing to do.** -/
theorem wire_eq (h : r.IsWired) (hall : r.LeavesNoneOut) : r.wire = r := by
  have hparsers : r.wire.parsers = r.parsers := by
    rw [Registry.wire, foldl_attach]
    refine (List.map_congr_left fun e he => ?_).trans (List.map_id _)
    -- the parser knows all analyzers that name it
    have hattached := attached_eq e.parser.id [] h.ids
      (fun a ha id ho => (h.owner a ha id ho).1) h.ordered
    rw [List.nil_append, List.nil_append, ← h.analyzers e he, ← h.filter_owner hall ⟨e, he, rfl⟩,
      ← h.analyzers e he] at hattached
    rw [hattached]
    rfl
  have hanalyzers : r.wire.analyzers = r.analyzers := by
    rw [analyzers_wire]
    refine (List.map_congr_left fun a ha => ?_).trans (List.map_id _)
    unfold owned
    split
    · next hparser => rw [← hall a ha (isSome_parserEntry?_iff.mp hparser)]; rfl
    · rfl
  show { r with parsers := r.wire.parsers, analyzers := r.wire.analyzers } = r
  rw [hparsers, hanalyzers]

theorem owner?_iff (h : r.IsWired) (hall : r.LeavesNoneOut) {analyzer parser : String} :
    r.owner? analyzer = some parser ↔
      (∃ a ∈ r.analyzers, a.analyzer.id = analyzer ∧ a.analyzer.parserId = parser) ∧
        ∃ e ∈ r.parsers, e.parser.id = parser := by
  unfold owner?
  rw [Option.bind_eq_some_iff]
  constructor
  · rintro ⟨a, ha, howner⟩
    have hmem := List.mem_of_find?_eq_some ha
    obtain ⟨hname, hparser⟩ := (h.owner_iff hall hmem).mp howner
    exact ⟨⟨a, hmem, by simpa using List.find?_some ha, hname⟩, hparser⟩
  · rintro ⟨⟨a, ha, rfl, hname⟩, hparser⟩
    exact ⟨a, find?_of_nodup h.ids ha, (h.owner_iff hall ha).mpr ⟨hname, hparser⟩⟩

end IsWired

/-! ## Calls in any order -/

namespace Records

variable {log : List Registration}

theorem exists_parser_iff (h : r.Records log) {id : String} :
    (∃ e ∈ r.parsers, e.parser.id = id) ↔ ∃ x ∈ log, x.isParser = true ∧ x.id = id := by
  have hmem (x : Registration) : x ∈ log ∧ x.isParser = true ↔
      ∃ e ∈ r.parsers, e.registration = x := by
    rw [← List.mem_filter, ← h.parsers, List.mem_map]
  constructor
  · rintro ⟨e, he, rfl⟩
    obtain ⟨hlog, hkind⟩ := (hmem _).mpr ⟨e, he, rfl⟩
    exact ⟨_, hlog, hkind, rfl⟩
  · rintro ⟨x, hx, hkind, rfl⟩
    obtain ⟨e, he, rfl⟩ := (hmem x).mp ⟨hx, hkind⟩
    exact ⟨e, he, rfl⟩

/-- The analyzers that name a parser, in the order of their registration. -/
theorem filter_checks (h : r.Records log) (id : String) :
    (r.analyzers.filter fun a => a.analyzer.parserId = id).map AnalyzerEntry.registration =
      log.filter (·.checks id) := by
  have hlog : log.filter (·.checks id) = (log.filter (!·.isParser)).filter (·.checks id) := by
    rw [List.filter_filter]
    refine List.filter_congr fun x _ => ?_
    cases x <;> simp [Registration.checks, Registration.isParser]
  rw [hlog, ← h.analyzers, List.filter_map]
  refine congrArg (List.map AnalyzerEntry.registration) (List.filter_congr fun a _ => ?_)
  by_cases hname : a.analyzer.parserId = id <;>
    simp [AnalyzerEntry.registration, Registration.checks, hname]

theorem exists_checks_iff (h : r.Records log) {analyzer parser : String} :
    (∃ a ∈ r.analyzers, a.analyzer.id = analyzer ∧ a.analyzer.parserId = parser) ↔
      ∃ x ∈ log, x.checks parser = true ∧ x.id = analyzer := by
  have hmem (x : Registration) : x ∈ log.filter (·.checks parser) ↔
      ∃ a ∈ r.analyzers, a.analyzer.parserId = parser ∧ a.registration = x := by
    rw [← h.filter_checks, List.mem_map]
    simp only [List.mem_filter, decide_eq_true_eq, and_assoc]
  constructor
  · rintro ⟨a, ha, rfl, hname⟩
    obtain ⟨hlog, hchecks⟩ := List.mem_filter.mp ((hmem _).mpr ⟨a, ha, hname, rfl⟩)
    exact ⟨_, hlog, hchecks, rfl⟩
  · rintro ⟨x, hx, hchecks, rfl⟩
    obtain ⟨a, ha, hname, rfl⟩ := (hmem x).mp (List.mem_filter.mpr ⟨hx, hchecks⟩)
    exact ⟨a, ha, rfl, hname⟩

end Records

/-- **Wiring is right in any order.**  However a registry without add-ins is filled and wired, let
it be wired once more.  An analyzer is then owned by a parser exactly if it was registered for
that parser and the parser was registered, in whichever order.  The analyzers of a registered
parser are those that were registered for it, each once, in the order of their registration; what
is no registered parser has none.  To wire again changes nothing. -/
theorem wired_in_any_order {r₀ : Registry} (h₀ : r₀.HoldsNothing) (cs : List Call) :
    let r := r₀.afterAll (cs ++ [.wire])
    let log := r₀.history cs
    r.parsers.map ParserEntry.registration = log.filter Registration.isParser ∧
    r.analyzers.map AnalyzerEntry.registration = log.filter (!·.isParser) ∧
    (∀ analyzer parser, r.owner? analyzer = some parser ↔
      (∃ x ∈ log, x.checks parser = true ∧ x.id = analyzer) ∧
        ∃ x ∈ log, x.isParser = true ∧ x.id = parser) ∧
    (∀ parser, (∃ x ∈ log, x.isParser = true ∧ x.id = parser) →
      (r.analyzersOf parser).map AnalyzerEntry.registration = log.filter (·.checks parser)) ∧
    (∀ parser, (¬ ∃ x ∈ log, x.isParser = true ∧ x.id = parser) → r.analyzersOf parser = []) ∧
    (∀ parser, ((r.analyzersOf parser).map (·.analyzer.id)).Nodup) ∧
    r.wire = r := by
  intro r log
  have hr : r = (r₀.afterAll cs).wire := by
    show List.foldl after r₀ (cs ++ [.wire]) = _
    rw [List.foldl_append]
    rfl
  have hrecords : r.Records log := hr ▸ (h₀.records.afterAll cs).wire
  have hbefore := h₀.isWired.afterAll cs
  have hwired : r.IsWired := hr ▸ hbefore.wire
  have hall : r.LeavesNoneOut := hr ▸ hbefore.leavesNoneOut_wire
  refine ⟨hrecords.parsers, hrecords.analyzers, ?_, ?_, ?_, ?_, hwired.wire_eq hall⟩
  · intro analyzer parser
    rw [hwired.owner?_iff hall, hrecords.exists_checks_iff, hrecords.exists_parser_iff]
  · intro parser hparser
    rw [hwired.analyzersOf_eq, hwired.filter_owner hall (hrecords.exists_parser_iff.mpr hparser),
      hrecords.filter_checks]
  · intro parser hparser
    rw [hwired.analyzersOf_eq, List.filter_eq_nil_iff]
    intro a ha ho
    have howner := (hwired.owner_iff hall ha).mp (of_decide_eq_true ho)
    exact hparser (hrecords.exists_parser_iff.mp howner.2)
  · intro parser
    rw [hwired.analyzersOf_eq]
    exact hwired.ids.sublist ((List.filter_sublist).map _)

/-- Analyzers for a parser that comes later, between and after wirings. -/
def scattered : List Call :=
  [.registerAnalyzer [] (patternAnalyzer "tabs" "text") [] false, .wire,
    .registerAnalyzer [] (patternAnalyzer "notes" "text") [] true,
    .registerParser [] (textParser "text" ["txt"]) [] false, .wire, .wire,
    .registerAnalyzer [] (patternAnalyzer "stray" "markdown") [] false,
    .registerAnalyzer [] (patternAnalyzer "ends" "text") [] false]

theorem wired_in_any_order_scattered :
    let r := withBuiltins.afterAll (scattered ++ [.wire])
    withBuiltins.HoldsNothing ∧ r.wire = r ∧
    (r.analyzersOf "text").map (·.analyzer.id) = ["tabs", "notes", "ends"] ∧
    r.owner? "tabs" = some "text" := by
  intro r
  obtain ⟨-, -, howner, hanalyzers, -, -, hwire⟩ := wired_in_any_order .builtins scattered
  have htext : ∃ x ∈ withBuiltins.history scattered, x.isParser = true ∧ x.id = "text" :=
    ⟨.parser (textParser "text" ["txt"]) {} false, .tail _ (.tail _ (.head _)), rfl, rfl⟩
  refine ⟨.builtins, hwire, ?_, ?_⟩
  · have hids := congrArg (List.map Registration.id) (hanalyzers "text" htext)
    rw [List.map_map] at hids
    exact hids
  · exact (howner "tabs" "text").mpr
      ⟨⟨.analyzer (patternAnalyzer "tabs" "text") {} false, .head _, rfl, rfl⟩, htext⟩

end Registry

end StyleEngine
