import StyleEngine.Registry.Basic

/-! # What descriptors come to

An add-in is configured with descriptors one after the other, and with the rules of
each one after the other.  The loops of text parsers and pattern analyzers come to a
choice from the list of all declared rules: the first one with each id counts
(`firstsBy`), and the configuration fails if one of these is at fault
(`AddIn.Gathers.profileFor`).  Rules that an earlier one with the same id shadows
have no part in it, not even with their faults.
-/
namespace StyleEngine

namespace Reaction

variable {ε α β : Type} {x : Reaction ε α} {next : α → Reaction ε β}

theorem andThen_eq_ok {b : β} :
    (x.andThen next).result = .ok b ↔ ∃ a, x.result = .ok a ∧ (next a).result = .ok b := by
  unfold Reaction.andThen
  split
  · next hx => simp [hx]
  · next hx => simp [hx]

theorem andThen_eq_error {e : ε} : (x.andThen next).result = .error e ↔
    x.result = .error e ∨ ∃ a, x.result = .ok a ∧ (next a).result = .error e := by
  unfold Reaction.andThen
  split
  · next hx => simp [hx]
  · next hx => simp [hx]

theorem result_andThen : (x.andThen next).result = x.result.bind fun a => (next a).result := by
  unfold andThen
  split
  · next hx => rw [hx]; rfl
  · next hx => rw [hx]; rfl

end Reaction

/-! ## First occurrences -/

section

variable {α : Type} {key : α → String} {seen : String → Bool} {a : α} {l : List α}

/-- The first items with each key, apart from keys that have been seen before. -/
def firstsBy (key : α → String) (seen : String → Bool) (l : List α) : List α :=
  (l.filter fun a => !seen (key a)).eraseDupsBy fun a b => key a == key b

theorem firstsBy_unseen (key : α → String) (l : List α) :
    firstsBy key (fun _ => false) l = l.eraseDupsBy fun a b => key a == key b := by
  rw [firstsBy, List.filter_eq_self.mpr fun _ _ => Bool.not_false]

theorem firstsBy_cons_seen (h : seen (key a) = true) :
    firstsBy key seen (a :: l) = firstsBy key seen l := by
  rw [firstsBy, List.filter_cons_of_neg (by simp [h]), firstsBy]

theorem firstsBy_cons_new (h : seen (key a) = false) :
    firstsBy key seen (a :: l) = a :: firstsBy key (fun k => seen k || k == key a) l := by
  rw [firstsBy, List.filter_cons_of_pos (by simp [h]), List.eraseDupsBy_cons, firstsBy,
    List.filter_filter]
  congr 3
  funext b
  rw [Bool.eq_iff_iff]
  simp [and_comm]

/-- **Which items are the first ones**: those before which no item has their key. -/
theorem mem_firstsBy_iff : a ∈ firstsBy key seen l ↔ seen (key a) = false ∧
    ∃ before after, l = before ++ a :: after ∧ ∀ b ∈ before, key b ≠ key a := by
  induction l generalizing seen with
  | nil => simp [firstsBy]
  | cons c l ih =>
    cases hc : seen (key c) with
    | true =>
      rw [firstsBy_cons_seen hc, ih]
      refine and_congr_right fun ha => ?_
      have hne : key c ≠ key a := by
        intro heq
        rw [heq, ha] at hc
        cases hc
      constructor
      · rintro ⟨before, after, rfl, hbefore⟩
        exact ⟨c :: before, after, rfl, List.forall_mem_cons.mpr ⟨hne, hbefore⟩⟩
      · rintro ⟨before, after, hsplit, hbefore⟩
        cases before with
        | nil => exact absurd (congrArg key (List.cons.inj hsplit).1) hne
        | cons b before =>
          obtain ⟨rfl, rfl⟩ := List.cons.inj hsplit
          exact ⟨before, after, rfl, (List.forall_mem_cons.mp hbefore).2⟩
    | false =>
      rw [firstsBy_cons_new hc, List.mem_cons, ih, Bool.or_eq_false_iff, beq_eq_false_iff_ne]
      constructor
      · rintro (rfl | ⟨⟨ha, hne⟩, before, after, rfl, hbefore⟩)
        · exact ⟨hc, [], l, rfl, fun _ h => by cases h⟩
        · exact ⟨ha, c :: before, after, rfl, List.forall_mem_cons.mpr ⟨Ne.symm hne, hbefore⟩⟩
      · rintro ⟨ha, before, after, hsplit, hbefore⟩
        cases before with
        | nil => exact .inl (List.cons.inj hsplit).1.symm
        | cons b before =>
          obtain ⟨rfl, rfl⟩ := List.cons.inj hsplit
          obtain ⟨hne, hbefore⟩ := List.forall_mem_cons.mp hbefore
          exact .inr ⟨⟨ha, Ne.symm hne⟩, before, after, rfl, hbefore⟩

/-- The first items have different keys. -/
theorem nodup_firstsBy (key : α → String) (seen : String → Bool) (l : List α) :
    ((firstsBy key seen l).map key).Nodup := by
  induction l generalizing seen with
  | nil => exact .nil
  | cons a l ih =>
    cases ha : seen (key a) with
    | true =>
      rw [firstsBy_cons_seen ha]
      exact ih seen
    | false =>
      rw [firstsBy_cons_new ha, List.map_cons, List.nodup_cons]
      refine ⟨fun hmem => ?_, ih _⟩
      obtain ⟨b, hb, heq⟩ := List.mem_map.mp hmem
      have hunseen := (mem_firstsBy_iff.mp hb).1
      rw [heq, beq_self_eq_true, Bool.or_true] at hunseen
      cases hunseen

/-- A further item is one of the first ones if its key is new. -/
theorem firstsBy_concat (key : α → String) (seen : String → Bool) (l : List α) (a : α) :
    firstsBy key seen (l ++ [a]) = firstsBy key seen l ++
      if seen (key a) || (firstsBy key seen l).any (key · == key a) then [] else [a] := by
  induction l generalizing seen with
  | nil =>
    cases ha : seen (key a) with
    | true => rw [List.nil_append, firstsBy_cons_seen ha]; rfl
    | false => rw [List.nil_append, firstsBy_cons_new ha]; rfl
  | cons b l ih =>
    cases hb : seen (key b) with
    | true => rw [List.cons_append, firstsBy_cons_seen hb, firstsBy_cons_seen hb, ih]
    | false =>
      have hcomm : (key b == key a) = (key a == key b) := BEq.comm
      rw [List.cons_append, firstsBy_cons_new hb, firstsBy_cons_new hb, ih, List.any_cons, hcomm,
        ← Bool.or_assoc, List.cons_append]

/-- Every unseen key of an item is that of one of the first items. -/
theorem exists_mem_firstsBy (ha : a ∈ l) (hseen : seen (key a) = false) :
    ∃ b ∈ firstsBy key seen l, key b = key a := by
  induction l generalizing seen with
  | nil => cases ha
  | cons c l ih =>
    cases hc : seen (key c) with
    | true =>
      rw [firstsBy_cons_seen hc]
      rcases List.mem_cons.mp ha with rfl | ha
      · rw [hc] at hseen
        cases hseen
      · exact ih ha hseen
    | false =>
      rw [firstsBy_cons_new hc]
      by_cases heq : key c = key a
      · exact ⟨c, List.mem_cons_self, heq⟩
      · rcases List.mem_cons.mp ha with rfl | ha
        · exact absurd rfl heq
        · have hunseen : (seen (key a) || key a == key c) = false := by
            rw [hseen, Bool.false_or, beq_eq_false_iff_ne]
            exact Ne.symm heq
          have hrest : ∃ b ∈ firstsBy key (fun k => seen k || k == key c) l, key b = key a :=
            ih ha hunseen
          obtain ⟨b, hb, hkey⟩ := hrest
          exact ⟨b, List.mem_cons_of_mem _ hb, hkey⟩

end

/-! ## The first rules with an id -/

namespace Rule

/-- A rule as a pattern analyzer keeps it: as its own, and off if it is for trusted add-ins only
and the analyzer is not trusted. -/
def takenBy (r : Rule) (addin : String) (trusted : Bool) : Rule :=
  (if r.trustedOnly && !trusted then { r with enabled := false } else r).ownedBy addin

variable (r : Rule) (addin : String) (trusted : Bool)

@[simp] theorem id_takenBy : (r.takenBy addin trusted).id = r.id := by
  unfold takenBy
  split <;> rfl

@[simp] theorem pattern_takenBy : (r.takenBy addin trusted).pattern = r.pattern := by
  unfold takenBy
  split <;> rfl

@[simp] theorem trustedOnly_takenBy : (r.takenBy addin trusted).trustedOnly = r.trustedOnly := by
  unfold takenBy
  split <;> rfl

/-- Only rules for trusted add-ins are switched off, and only in others. -/
theorem takenBy_eq : r.takenBy addin trusted =
    { r with addinId := addin, enabled := r.enabled && (trusted || !r.trustedOnly) } := by
  unfold takenBy ownedBy
  cases hgate : r.trustedOnly <;> cases trusted <;> simp [hgate]

def sameId (r r' : Rule) : Bool := r.id == r'.id

/-- What a reader complains of in the pattern of a rule. -/
def complaint? (read : PatternReader) (r : Rule) : Option String :=
  match r.pattern.map read with
  | some (.error complaint) => some complaint
  | _ => none

theorem complaint?_eq_some_iff {read : PatternReader} {r : Rule} {complaint : String} :
    r.complaint? read = some complaint ↔
      ∃ text, r.pattern = some text ∧ read text = .error complaint := by
  unfold complaint?
  cases r.pattern with
  | none => simp
  | some text => cases hread : read text <;> simp [hread]

variable {r} {rules : List Rule}

theorem firstsBy_id (rules : List Rule) :
    firstsBy Rule.id (fun _ => false) rules = rules.eraseDupsBy sameId := firstsBy_unseen _ rules

theorem mem_eraseDupsBy_sameId_iff : r ∈ rules.eraseDupsBy sameId ↔
    ∃ before after, rules = before ++ r :: after ∧ ∀ other ∈ before, other.id ≠ r.id := by
  rw [← firstsBy_id, mem_firstsBy_iff, and_iff_right rfl]

theorem nodup_eraseDupsBy_sameId (rules : List Rule) :
    ((rules.eraseDupsBy sameId).map Rule.id).Nodup :=
  firstsBy_id rules ▸ nodup_firstsBy Rule.id _ rules

end Rule

/-! ## Taking rules over -/

/-- Takes a rule over, as an add-in makes it its own, unless one with its id was taken over before
or the rule is at fault. -/
def takeOver (fault? : Rule → Option AddInError) (own : Rule → Rule) (kept : List Rule) (r : Rule) :
    Except AddInError (List Rule) :=
  if kept.any (·.id == r.id) then .ok kept
  else match fault? r with
    | some e => .error e
    | none => .ok (kept ++ [own r])

/-- **To take rules over one by one is to choose the first ones**; the first of these that is at
fault is the one that the loop fails with. -/
theorem foldlM_takeOver {fault? : Rule → Option AddInError} {own : Rule → Rule}
    (hown : ∀ r, (own r).id = r.id) (rules kept : List Rule) :
    rules.foldlM (takeOver fault? own) kept =
      match (firstsBy Rule.id (fun id => kept.any (·.id == id)) rules).findSome? fault? with
      | some e => .error e
      | none => .ok (kept ++ (firstsBy Rule.id (fun id => kept.any (·.id == id)) rules).map own) := by
  induction rules generalizing kept with
  | nil => simp [firstsBy, pure, Except.pure]
  | cons r rules ih =>
    rw [List.foldlM_cons, takeOver]
    cases hr : kept.any (·.id == r.id) with
    | true =>
      rw [if_pos rfl, firstsBy_cons_seen hr]
      exact ih kept
    | false =>
      rw [if_neg Bool.false_ne_true, firstsBy_cons_new hr, List.findSome?_cons]
      cases fault? r with
      | some e => rfl
      | none =>
        have hseen : (fun id => (kept ++ [own r]).any (·.id == id)) =
            fun id => kept.any (·.id == id) || id == r.id := by
          funext id
          rw [List.any_append, List.any_cons, List.any_nil, Bool.or_false, hown, BEq.comm]
        have hrest := ih (kept ++ [own r])
        rw [hseen, List.append_assoc, List.singleton_append, ← List.map_cons] at hrest
        exact hrest

namespace AddIn

/-- Whether an add-in takes its name from the first descriptor that it is configured with and its
rules, one by one, from all of them. -/
structure Gathers (a : AddIn) (trusted trust : Bool)
    (take : List Rule → Rule → Except AddInError (List Rule)) : Prop where
  configure : ∀ d primary p switches, (p.trusted = true → trust = true) →
    (a.configure d primary trusted p switches).result =
      (d.rules.foldlM take p.rules).map fun rules =>
        { name := if primary then d.name else p.name, rules, trusted := trust }
  ready : ∀ p switches, (a.ready p switches).result = .ok ()

namespace Gathers

variable {a : AddIn} {trusted trust : Bool} {take : List Rule → Rule → Except AddInError (List Rule)}

/-- Further descriptors add rules. -/
theorem configureFrom (h : a.Gathers trusted trust take) (switches : Switches)
    (ds : List InitDescriptor) {p : Profile} (hp : p.trusted = trust) :
    (a.configureFrom trusted switches false ds p).result =
      ((ds.flatMap (·.rules)).foldlM take p.rules).map fun rules => { p with rules } := by
  induction ds generalizing p with
  | nil => rfl
  | cons d ds ih =>
    rw [AddIn.configureFrom, Reaction.result_andThen, h.configure _ _ _ _ fun ht => hp ▸ ht,
      List.flatMap_cons, List.foldlM_append]
    cases d.rules.foldlM take p.rules with
    | error e => rfl
    | ok rules =>
      subst hp
      exact ih rfl

/-- **The profile of an add-in** has the name of the first descriptor and rules from all of
them. -/
theorem profileFor (h : a.Gathers trusted trust take) (switches : Switches)
    (ds : List InitDescriptor) :
    (a.profileFor ds trusted switches).result =
      ((ds.flatMap (·.rules)).foldlM take []).map fun rules =>
        { name := ds.head?.bind (·.name), rules, trusted := !ds.isEmpty && trust } := by
  have hready (p : Profile) :
      ((a.ready p switches).andThen fun _ => Reaction.ok (ε := AddInError) p).result = .ok p := by
    rw [Reaction.result_andThen, h.ready]
    rfl
  rw [AddIn.profileFor, Reaction.result_andThen]
  simp only [hready]
  cases ds with
  | nil => rfl
  | cons d ds =>
    have hfirst := h.configure d true {} switches fun ht => by cases ht
    rw [AddIn.configureFrom, Reaction.result_andThen, hfirst, List.flatMap_cons,
      List.foldlM_append]
    cases d.rules.foldlM take [] with
    | error e => rfl
    | ok rules =>
      have hrest := h.configureFrom switches ds (p := { name := d.name, rules, trusted := trust }) rfl
      show Except.bind (a.configureFrom trusted switches false ds
          { name := d.name, rules, trusted := trust }).result .ok =
        ((ds.flatMap (·.rules)).foldlM take rules).map _
      rw [hrest]
      cases (ds.flatMap (·.rules)).foldlM take rules with
      | error e => rfl
      | ok all => rfl

/-- The rules of an add-in that takes them over are the first ones with each id among all that were
declared for it.  The first of them that is at fault is the one that its configuration fails
with. -/
theorem profileFor_takeOver {fault? : Rule → Option AddInError} {own : Rule → Rule}
    (h : a.Gathers trusted trust (takeOver fault? own)) (hown : ∀ r, (own r).id = r.id)
    (switches : Switches) (ds : List InitDescriptor) :
    (a.profileFor ds trusted switches).result =
      match ((ds.flatMap (·.rules)).eraseDupsBy Rule.sameId).findSome? fault? with
      | some e => .error e
      | none => .ok
        { name := ds.head?.bind (·.name)
          rules := ((ds.flatMap (·.rules)).eraseDupsBy Rule.sameId).map own
          trusted := !ds.isEmpty && trust } := by
  have hfirsts : firstsBy Rule.id (fun id => [].any fun r : Rule => r.id == id)
      (ds.flatMap (·.rules)) = (ds.flatMap (·.rules)).eraseDupsBy Rule.sameId :=
    Rule.firstsBy_id _
  rw [h.profileFor, foldlM_takeOver hown, hfirsts]
  cases ((ds.flatMap (·.rules)).eraseDupsBy Rule.sameId).findSome? fault? with
  | some e => rfl
  | none => rfl

end Gathers

end AddIn

/-! ## Text parsers and pattern analyzers -/

theorem Pattern.toOption_reader (text : String) :
    (Pattern.reader text).toOption = Pattern.compile? text := by
  unfold Pattern.reader
  cases Pattern.compile? text <;> rfl

namespace Profile

theorem named_eq (p : Profile) (d : InitDescriptor) (primary : Bool) :
    p.named d primary = { p with name := if primary then d.name else p.name } := by
  unfold named
  cases primary <;> rfl

/-- A loop that changes only the rules of a profile. -/
theorem foldlM_rules {adopt : Profile → Rule → Except AddInError Profile}
    {take : List Rule → Rule → Except AddInError (List Rule)}
    (h : ∀ p r, adopt p r = (take p.rules r).map fun rules => { p with rules })
    (rules : List Rule) (p : Profile) :
    rules.foldlM adopt p = (rules.foldlM take p.rules).map fun rules => { p with rules } := by
  induction rules generalizing p with
  | nil => rfl
  | cons r rules ih =>
    rw [List.foldlM_cons, List.foldlM_cons, h]
    cases take p.rules r with
    | error e => rfl
    | ok kept => exact ih { p with rules := kept }

end Profile

namespace TextParser

theorem addRule_eq (id : String) (p : Profile) (r : Rule) :
    (.ok (p.addRule id r) : Except AddInError Profile) =
      (takeOver (fun _ => none) (·.ownedBy id) p.rules r).map fun rules => { p with rules } := by
  unfold Profile.addRule Profile.hasRule takeOver
  split <;> rfl

/-- No rule is at fault for a text parser, and it switches none off. -/
theorem gathers (id : String) (extensions : List String) (trusted : Bool) :
    (textParser id extensions).toAddIn.Gathers trusted false
      (takeOver (fun _ => none) (·.ownedBy id)) where
  configure d primary p switches hp := by
    have huntrusted : p.trusted = false := Bool.eq_false_iff.mpr fun ht => by cases hp ht
    have hloop : d.rules.foldlM (fun p r => Except.ok (p.addRule id r)) (p.named d primary) =
        .ok (d.rules.foldl (fun p r => p.addRule id r) (p.named d primary)) :=
      List.foldlM_pure (m := Except AddInError) (f := fun (p : Profile) r => p.addRule id r)
    show Except.ok (d.rules.foldl (fun p r => p.addRule id r) (p.named d primary)) = _
    rw [← hloop, Profile.foldlM_rules (addRule_eq id), Profile.named_eq, ← huntrusted]
  ready _ _ := rfl

/-- A text parser can be configured with any descriptors. -/
theorem profileFor_eq (id : String) (extensions : List String) (ds : List InitDescriptor)
    (trusted : Bool) (switches : Switches) :
    ((textParser id extensions).profileFor ds trusted switches).result = .ok
      { name := ds.head?.bind (·.name)
        rules := ((ds.flatMap (·.rules)).eraseDupsBy Rule.sameId).map (·.ownedBy id) } := by
  have hnone (rules : List Rule) :
      rules.findSome? (fun _ => (none : Option AddInError)) = none :=
    List.findSome?_eq_none_iff.mpr fun _ _ => rfl
  rw [(gathers id extensions trusted).profileFor_takeOver fun _ => rfl, hnone, Bool.and_false]

end TextParser

namespace PatternAnalyzer

variable {read : PatternReader} {id parserId : String} {ds : List InitDescriptor} {trusted : Bool}
  {switches : Switches}

/-- The rules that are checked, if patterns are read by the reader of this library. -/
theorem activeRules_eq (p : Profile) : activeRules p =
    (p.rules.filter fun r => p.trusted || !r.trustedOnly).filterMap fun r =>
      (r.pattern.bind Pattern.compile?).map (r, ·) := by
  simp only [activeRules, Pattern.toOption_reader]

/-- What a pattern analyzer finds at fault with a rule. -/
def fault? (read : PatternReader) (id : String) (r : Rule) : Option AddInError :=
  (r.complaint? read).map fun complaint =>
    .initialization id ("Rule " ++ r.id ++ " has an invalid pattern: " ++ complaint)

theorem adopt_eq (read : PatternReader) (id : String) (trusted : Bool) (p : Profile) (r : Rule) :
    adopt read id trusted p r =
      (takeOver (fault? read id) (·.takenBy id trusted) p.rules r).map fun rules =>
        { p with rules } := by
  have hid : (if r.trustedOnly && !trusted then { r with enabled := false } else r).id = r.id := by
    split <;> rfl
  have hadd (hnew : ¬ p.rules.any (·.id == r.id) = true) :
      p.addRule id (if r.trustedOnly && !trusted then { r with enabled := false } else r) =
        { p with rules := p.rules ++ [r.takenBy id trusted] } := by
    rw [Profile.addRule, Profile.hasRule, hid, if_neg hnew]
    rfl
  unfold adopt takeOver Profile.hasRule fault? Rule.complaint?
  by_cases hknown : p.rules.any (·.id == r.id) = true
  · rw [if_pos hknown, if_pos hknown]
    rfl
  · rw [if_neg hknown, if_neg hknown, hadd hknown]
    cases r.pattern with
    | none => rfl
    | some text => cases hread : read text <;> simp [hread, Except.map]

/-- A rule is at fault for a pattern analyzer if its pattern cannot be read. -/
theorem gathers (read : PatternReader) (id parserId : String) (trusted : Bool) :
    (patternAnalyzer id parserId read).toAddIn.Gathers trusted trusted
      (takeOver (fault? read id) (·.takenBy id trusted)) where
  configure d primary p switches _ := by
    show configure read id d primary trusted p = _
    rw [configure, Profile.foldlM_rules (adopt_eq read id trusted), Profile.named_eq]
  ready _ _ := rfl

/-- **A pattern analyzer can be configured exactly if the patterns of the first rules with each id
can be read**, and these are its rules. -/
theorem profileFor_eq_ok_iff {p : Profile} :
    ((patternAnalyzer id parserId read).profileFor ds trusted switches).result = .ok p ↔
      (∀ rule ∈ (ds.flatMap (·.rules)).eraseDupsBy Rule.sameId, rule.complaint? read = none) ∧
      p = { name := ds.head?.bind (·.name)
            rules := ((ds.flatMap (·.rules)).eraseDupsBy Rule.sameId).map (·.takenBy id trusted)
            trusted := !ds.isEmpty && trusted } := by
  have hread (rules : List Rule) : rules.findSome? (fault? read id) = none ↔
      ∀ rule ∈ rules, rule.complaint? read = none := by
    simp [List.findSome?_eq_none_iff, fault?]
  rw [← hread,
    (gathers read id parserId trusted).profileFor_takeOver fun r => r.id_takenBy id trusted]
  cases ((ds.flatMap (·.rules)).eraseDupsBy Rule.sameId).findSome? (fault? read id) with
  | some e => simp
  | none => simp [eq_comm]

/-- A pattern analyzer that cannot be configured has a rule at fault. -/
theorem exists_fault_of_findSome? {rules : List Rule} {e : AddInError}
    (h : rules.findSome? (fault? read id) = some e) :
    ∃ message, e = .initialization id message := by
  obtain ⟨rule, -, hfault⟩ := List.exists_of_findSome?_eq_some h
  obtain ⟨complaint, -, rfl⟩ := Option.map_eq_some_iff.mp hfault
  exact ⟨_, rfl⟩

/-- **It fails with the complaint about the first of these rules that has a pattern which cannot be
read.** -/
theorem profileFor_eq_error_iff {e : AddInError} :
    ((patternAnalyzer id parserId read).profileFor ds trusted switches).result = .error e ↔
      ((ds.flatMap (·.rules)).eraseDupsBy Rule.sameId).findSome? (fault? read id) = some e := by
  rw [(gathers read id parserId trusted).profileFor_takeOver fun r => r.id_takenBy id trusted]
  cases ((ds.flatMap (·.rules)).eraseDupsBy Rule.sameId).findSome? (fault? read id) <;> simp

theorem profileFor_fails_iff :
    (∃ e, ((patternAnalyzer id parserId read).profileFor ds trusted switches).result = .error e) ↔
      ∃ rule ∈ (ds.flatMap (·.rules)).eraseDupsBy Rule.sameId,
        ∃ complaint, rule.complaint? read = some complaint := by
  simp only [profileFor_eq_error_iff]
  rw [← Option.isSome_iff_exists, List.isSome_findSome?]
  simp [fault?, Option.isSome_iff_exists]

end PatternAnalyzer

/-- A module that declares a pattern analyzer names the parser that it is for. -/
theorem patternAnalyzerOf_eq_ok {spec : AddInSpec} {a : Analyzer}
    (h : patternAnalyzerOf spec = .ok a) :
    ∃ parserId, spec.parser = some parserId ∧ a = patternAnalyzer spec.id parserId := by
  unfold patternAnalyzerOf at h
  split at h
  · next parserId hparser => exact ⟨parserId, hparser, (Except.ok.inj h).symm⟩
  · cases h

end StyleEngine
