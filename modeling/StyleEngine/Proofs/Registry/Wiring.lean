import StyleEngine.Registry.Basic

/-! # Wiring

An analyzer may be registered before its parser, and add-ins may be registered
several times over before they are wired.  Still the analyzers of a parser are
those that it owns, in the order of their registration
(`Registry.IsWired.analyzersOf_eq`): an analyzer that a parser does not know yet
was registered after all those that it knows.
-/
namespace StyleEngine

namespace Registry

/-- Whether parsers know the analyzers that they own, in the order of their registration. -/
structure IsWired (r : Registry) : Prop where
  parsers : (r.parsers.map fun e => e.parser.id).Nodup
  ids : (r.analyzers.map fun a => a.analyzer.id).Nodup
  analyzers : ∀ e ∈ r.parsers, e.analyzers =
    (r.analyzers.filter fun a => a.owner = some e.parser.id).map fun a => a.analyzer.id
  /-- An analyzer is owned by the parser that it names. -/
  owner : ∀ a ∈ r.analyzers, ∀ id, a.owner = some id →
    id = a.analyzer.parserId ∧ ∃ e ∈ r.parsers, e.parser.id = id
  /-- Of two analyzers that name the same parser, the first one is owned first. -/
  ordered : r.analyzers.Pairwise fun a b =>
    a.analyzer.parserId = b.analyzer.parserId → a.owner = none → b.owner = none

/-- The ids that a parser knows after analyzers were attached to it. -/
def attached (parser : String) (as : List AnalyzerEntry) (ids : List String) : List String :=
  as.foldl (fun ids a =>
    if parser == a.analyzer.parserId && !ids.contains a.analyzer.id then ids ++ [a.analyzer.id]
    else ids) ids

theorem foldl_attach (as : List AnalyzerEntry) (ps : List ParserEntry) :
    as.foldl (fun ps a => attach ps a.analyzer) ps =
      ps.map fun e => { e with analyzers := attached e.parser.id as e.analyzers } := by
  induction as generalizing ps with
  | nil => simp [attached]
  | cons a as ih =>
    rw [List.foldl_cons, ih, attach, List.map_map]
    refine List.map_congr_left ?_
    intro e _
    simp only [Function.comp_apply, attached, List.foldl_cons]
    split <;> rfl

theorem attached_cons_known {parser : String} {a : AnalyzerEntry} {ids : List String}
    (h : a.analyzer.parserId ≠ parser ∨ a.analyzer.id ∈ ids) (as : List AnalyzerEntry) :
    attached parser (a :: as) ids = attached parser as ids := by
  rw [attached, List.foldl_cons, if_neg]
  · rfl
  · rcases h with h | h
    · simp [Ne.symm h]
    · simp [h]

theorem attached_cons_new {parser : String} {a : AnalyzerEntry} {ids : List String}
    (hname : a.analyzer.parserId = parser) (hnew : a.analyzer.id ∉ ids)
    (as : List AnalyzerEntry) :
    attached parser (a :: as) ids = attached parser as (ids ++ [a.analyzer.id]) := by
  rw [attached, List.foldl_cons, if_pos]
  · rfl
  · simp [hname, hnew]

/-- **Attaching analyzers in order adds those that a parser does not know yet**, if the ones it
knows come first. -/
theorem attached_eq (parser : String) {as : List AnalyzerEntry} (done : List String)
    (hnd : (done ++ as.map fun a => a.analyzer.id).Nodup)
    (howner : ∀ a ∈ as, ∀ id, a.owner = some id → id = a.analyzer.parserId)
    (hord : as.Pairwise fun a b =>
      a.analyzer.parserId = b.analyzer.parserId → a.owner = none → b.owner = none) :
    attached parser as
        (done ++ (as.filter fun a => a.owner = some parser).map fun a => a.analyzer.id) =
      done ++ (as.filter fun a => a.analyzer.parserId = parser).map fun a => a.analyzer.id := by
  induction as generalizing done with
  | nil => rfl
  | cons a as ih =>
    obtain ⟨hfirst, hrest⟩ := List.pairwise_cons.mp hord
    have howner' : ∀ b ∈ as, ∀ id, b.owner = some id → id = b.analyzer.parserId :=
      fun b hb => howner b (List.mem_cons_of_mem _ hb)
    have hnd' : (done ++ [a.analyzer.id] ++ as.map fun b => b.analyzer.id).Nodup := by
      rw [List.append_assoc]
      exact hnd
    have hstep := ih _ hnd' howner' hrest
    rw [List.append_assoc, List.append_assoc, List.singleton_append, List.singleton_append] at hstep
    by_cases hname : a.analyzer.parserId = parser
    · have hnames : ((a :: as).filter fun b => b.analyzer.parserId = parser) =
          a :: as.filter fun b => b.analyzer.parserId = parser :=
        List.filter_cons_of_pos (by simpa using hname)
      rw [hnames, List.map_cons, ← hstep]
      by_cases howned : a.owner = some parser
      · -- the parser knows the analyzer already
        rw [List.filter_cons_of_pos (by simpa using howned), List.map_cons]
        exact attached_cons_known (.inr (List.mem_append_right _ List.mem_cons_self)) as
      · -- it does not know this one, nor any that comes later
        have hnone : a.owner = none := by
          cases ho : a.owner with
          | none => rfl
          | some id =>
            have hid := howner a List.mem_cons_self id ho
            rw [ho, hid, hname] at howned
            exact absurd rfl howned
        have hlater : (as.filter fun b => b.owner = some parser) = [] := by
          refine List.filter_eq_nil_iff.mpr ?_
          intro b hb hob
          have hob' : b.owner = some parser := of_decide_eq_true hob
          have hbnone := hfirst b hb (hname.trans (howner' b hb parser hob')) hnone
          rw [hob'] at hbnone
          cases hbnone
        have hnew : a.analyzer.id ∉ done := by
          intro hmem
          exact (List.nodup_append.mp hnd).2.2 _ hmem _ (List.mem_map_of_mem List.mem_cons_self) rfl
        rw [List.filter_cons_of_neg (by simpa using howned), hlater, List.map_nil, List.append_nil]
        exact attached_cons_new hname hnew as
    · have howned : a.owner ≠ some parser := by
        intro ho
        exact hname (howner a List.mem_cons_self parser ho).symm
      have hnd'' : (done ++ as.map fun b => b.analyzer.id).Nodup :=
        hnd.sublist (List.Sublist.append_left (List.sublist_cons_self ..) _)
      rw [List.filter_cons_of_neg (by simpa using howned),
        List.filter_cons_of_neg (by simpa using hname), ← ih _ hnd'' howner' hrest]
      exact attached_cons_known (.inl hname) as

/-- What wiring does to an analyzer. -/
def owned (r : Registry) (a : AnalyzerEntry) : AnalyzerEntry :=
  if (r.parserEntry? a.analyzer.parserId).isSome then { a with owner := some a.analyzer.parserId }
  else a

theorem analyzers_wire (r : Registry) : r.wire.analyzers = r.analyzers.map r.owned := rfl

theorem owned_analyzer (r : Registry) (a : AnalyzerEntry) : (r.owned a).analyzer = a.analyzer := by
  unfold owned
  split <;> rfl

theorem isSome_parserEntry?_iff {r : Registry} {id : String} :
    (r.parserEntry? id).isSome = true ↔ ∃ e ∈ r.parsers, e.parser.id = id := by
  rw [ parserEntry?, List.find?_isSome]
  simp

/-- What is listed once under an id is found under it. -/
theorem find?_of_nodup {α : Type} {f : α → String} {l : List α} (hnd : (l.map f).Nodup) {a : α}
    (ha : a ∈ l) : l.find? (fun b => f b == f a) = some a := by
  induction l with
  | nil => cases ha
  | cons b l ih =>
    obtain ⟨hb, hl⟩ := List.nodup_cons.mp hnd
    rcases List.mem_cons.mp ha with rfl | ha
    · rw [List.find?_cons_of_pos (by simp)]
    · have hne : f b ≠ f a := by
        intro heq
        exact hb (List.mem_map.mpr ⟨a, ha, heq.symm⟩)
      rw [List.find?_cons_of_neg (by simpa using hne)]
      exact ih hl ha

theorem filterMap_of_some {α : Type} {g : α → Option α} {l : List α}
    (h : ∀ a ∈ l, g a = some a) : l.filterMap g = l := by
  induction l with
  | nil => rfl
  | cons a l ih =>
    rw [List.filterMap_cons_some (h a List.mem_cons_self),
      ih fun b hb => h b (List.mem_cons_of_mem _ hb)]

namespace IsWired

variable {r : Registry}

/-- An analyzer is owned after wiring if the parser that it names is there. -/
theorem owner_owned (h : r.IsWired) {a : AnalyzerEntry} (ha : a ∈ r.analyzers) {id : String} :
    (r.owned a).owner = some id ↔
      a.analyzer.parserId = id ∧ (r.parserEntry? id).isSome = true := by
  unfold owned
  by_cases hparser : (r.parserEntry? a.analyzer.parserId).isSome = true
  · rw [if_pos hparser]
    constructor
    · intro ho
      obtain rfl := Option.some.inj ho
      exact ⟨rfl, hparser⟩
    · rintro ⟨rfl, -⟩
      rfl
  · rw [if_neg hparser]
    constructor
    · intro ho
      obtain ⟨rfl, hex⟩ := h.owner a ha id ho
      exact absurd (isSome_parserEntry?_iff.mpr hex) hparser
    · rintro ⟨rfl, hsome⟩
      exact absurd hsome hparser

theorem builtins : withBuiltins.IsWired :=
  ⟨.nil, .nil, (fun _ h => by cases h), (fun _ h => by cases h), .nil⟩

/-- **Wiring keeps the order of registration.** -/
theorem wire (h : r.IsWired) : r.wire.IsWired where
  parsers := by
    rw [Registry.wire, foldl_attach, List.map_map]
    exact h.parsers
  ids := by
    rw [analyzers_wire, List.map_map]
    simp only [Function.comp_def, owned_analyzer]
    exact h.ids
  analyzers e' he' := by
    rw [Registry.wire, foldl_attach] at he'
    obtain ⟨e, he, rfl⟩ := List.mem_map.mp he'
    have hattached := attached_eq e.parser.id [] h.ids
      (fun a ha id ho => (h.owner a ha id ho).1) h.ordered
    rw [List.nil_append, List.nil_append, ← h.analyzers e he] at hattached
    simp only [hattached, analyzers_wire, List.filter_map, List.map_map]
    have hfilter : r.analyzers.filter (fun a => a.analyzer.parserId = e.parser.id) =
        r.analyzers.filter ((fun a => decide (a.owner = some e.parser.id)) ∘ r.owned) := by
      refine List.filter_congr ?_
      intro a ha
      refine decide_eq_decide.mpr ?_
      rw [h.owner_owned ha, isSome_parserEntry?_iff]
      exact ⟨fun hname => ⟨hname, e, he, rfl⟩, And.left⟩
    rw [hfilter]
    refine List.map_congr_left ?_
    intro a _
    rw [Function.comp_apply, owned_analyzer]
  owner a' ha' id ho := by
    rw [analyzers_wire] at ha'
    obtain ⟨a, ha, rfl⟩ := List.mem_map.mp ha'
    obtain ⟨rfl, hparser⟩ := (h.owner_owned ha).mp ho
    obtain ⟨e, he, hid⟩ := isSome_parserEntry?_iff.mp hparser
    refine ⟨by rw [owned_analyzer], ?_⟩
    rw [Registry.wire, foldl_attach]
    exact ⟨_, List.mem_map_of_mem he, hid⟩
  ordered := by
    rw [analyzers_wire]
    refine List.Pairwise.map _ ?_ h.ordered
    intro a b hab
    simp only [owned_analyzer]
    intro hname
    unfold owned
    rw [hname]
    split
    · intro hnone
      cases hnone
    · exact hab hname

theorem addParser (h : r.IsWired) {parser : Parser} (hid : r.contains parser.id = false)
    (profile : Profile) (trusted : Bool) : (r.addParser parser profile trusted).IsWired := by
  have hfresh : ∀ e ∈ r.parsers, e.parser.id ≠ parser.id := by
    intro e he heq
    rw [contains, isSome_parserEntry?_iff.mpr ⟨e, he, heq⟩] at hid
    cases hid
  refine ⟨?_, h.ids, ?_, ?_, h.ordered⟩
  · show ((r.parsers ++ [_]).map _).Nodup
    rw [List.map_append, List.nodup_append]
    refine ⟨h.parsers, List.pairwise_singleton _ _, ?_⟩
    intro id hmem id' hmem' heq
    obtain ⟨e, he, rfl⟩ := List.mem_map.mp hmem
    exact hfresh e he (heq.trans (List.mem_singleton.mp hmem'))
  · intro e he
    rcases List.mem_append.mp he with he | he
    · exact h.analyzers e he
    · -- no analyzer is owned by a parser that was not there
      obtain rfl := List.mem_singleton.mp he
      symm
      rw [List.map_eq_nil_iff, List.filter_eq_nil_iff]
      intro a ha ho
      obtain ⟨-, e, he, hid'⟩ := h.owner a ha _ (of_decide_eq_true ho)
      exact hfresh e he hid'
  · intro a ha id ho
    obtain ⟨hname, e, he, hid'⟩ := h.owner a ha id ho
    exact ⟨hname, e, List.mem_append_left _ he, hid'⟩

theorem addAnalyzer (h : r.IsWired) {analyzer : Analyzer}
    (hid : r.contains analyzer.id = false) (profile : Profile) (trusted : Bool) :
    (r.addAnalyzer analyzer profile trusted).IsWired := by
  refine ⟨h.parsers, ?_, ?_, ?_, ?_⟩
  · show ((r.analyzers ++ [_]).map _).Nodup
    rw [List.map_append, List.nodup_append]
    refine ⟨h.ids, List.pairwise_singleton _ _, ?_⟩
    intro id hmem id' hmem' heq
    obtain ⟨a, ha, rfl⟩ := List.mem_map.mp hmem
    have hsome : (r.analyzerEntry? analyzer.id).isSome = true := by
      rw [ analyzerEntry?, List.find?_isSome]
      exact ⟨a, ha, beq_iff_eq.mpr (heq.trans (List.mem_singleton.mp hmem'))⟩
    rw [contains, hsome, Bool.or_true] at hid
    cases hid
  · intro e he
    show _ = ((r.analyzers ++ [_]).filter _).map _
    rw [List.filter_append, List.filter_cons_of_neg (by simp), List.filter_nil, List.append_nil]
    exact h.analyzers e he
  · intro a ha id ho
    rcases List.mem_append.mp ha with ha | ha
    · exact h.owner a ha id ho
    · obtain rfl := List.mem_singleton.mp ha
      cases ho
  · refine List.pairwise_append.mpr ⟨h.ordered, List.pairwise_singleton _ _, ?_⟩
    intro a _ b hb _ _
    obtain rfl := List.mem_singleton.mp hb
    rfl

/-- **The analyzers of a parser are those that it owns, in the order of their registration.** -/
theorem analyzersOf_eq (h : r.IsWired) (id : String) :
    r.analyzersOf id = r.analyzers.filter fun a => a.owner = some id := by
  unfold analyzersOf
  cases he : r.parserEntry? id with
  | none =>
    symm
    refine List.filter_eq_nil_iff.mpr ?_
    intro a ha ho
    obtain ⟨-, hex⟩ := h.owner a ha id (of_decide_eq_true ho)
    have hsome := isSome_parserEntry?_iff.mpr hex
    rw [he] at hsome
    cases hsome
  | some e =>
    have hid : e.parser.id = id := by simpa using List.find?_some he
    have hmem : e ∈ r.parsers := List.mem_of_find?_eq_some he
    simp only [h.analyzers e hmem, hid, List.filterMap_map]
    have hfound : ∀ a ∈ r.analyzers.filter fun a => a.owner = some id,
        (r.analyzerEntry? ∘ fun a => a.analyzer.id) a = some a := by
      intro a ha
      exact find?_of_nodup h.ids (List.mem_filter.mp ha).1
    rw [filterMap_of_some hfound]

end IsWired

end Registry

end StyleEngine
