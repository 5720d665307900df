import StyleEngine.Proofs.Registry.Registrations

/-! # The default of a rule

An add-in has an option for each of its rules, which tells whether the rule is on by
default.  What is asked when a file is checked is another table, by the id of the rule
alone, in which the first add-in with such a rule counts.  The two agree unless an
add-in that was registered before has a rule with the same id and another default
(`Registry.isRuleEnabled_of_silent`): then it switches the rule for both.
-/
namespace StyleEngine

/-! ## Options -/

theorem Rule.enabledOption_beq (r r' : Rule) :
    (r.enabledOption == r'.enabledOption) = (r.id == r'.id) := by
  have hiff : r.enabledOption = r'.enabledOption ↔ r.id = r'.id := by
    unfold enabledOption
    rw [← String.toList_inj, ← String.toList_inj, String.toList_append, String.toList_append,
      List.append_left_inj]
  rw [Bool.eq_iff_iff, beq_iff_eq, beq_iff_eq, hiff]

namespace Profile

/-- Sets the option of a rule. -/
def setOption (opts : List (String × Bool)) (r : Rule) : List (String × Bool) :=
  if opts.any (·.1 == r.enabledOption) then
    opts.map fun o => if o.1 == r.enabledOption then (o.1, r.enabled) else o
  else opts ++ [(r.enabledOption, r.enabled)]

theorem options_eq (p : Profile) : p.options = p.rules.foldl setOption [] := rfl

theorem isSome_lookup (opts : List (String × Bool)) (key : String) :
    (opts.lookup key).isSome = opts.any (·.1 == key) := by
  induction opts with
  | nil => rfl
  | cons o opts ih =>
    rw [List.lookup_cons, List.any_cons, BEq.comm]
    cases o.1 == key with
    | true => rfl
    | false => exact ih

/-- An option that is set again keeps its place. -/
theorem lookup_map_set (opts : List (String × Bool)) (key : String) (b : Bool) (name : String) :
    (opts.map fun o => if o.1 == key then (o.1, b) else o).lookup name =
      if name == key then (opts.lookup name).map fun _ => b else opts.lookup name := by
  induction opts with
  | nil => simp
  | cons o opts ih =>
    obtain ⟨k, old⟩ := o
    have hset : (if k == key then (k, b) else (k, old)) = (k, if k == key then b else old) := by
      split <;> rfl
    rw [List.map_cons, hset, List.lookup_cons, List.lookup_cons, ih]
    cases hname : name == k with
    | true =>
      rw [eq_of_beq hname]
      cases k == key <;> rfl
    | false => rfl

theorem lookup_setOption (opts : List (String × Bool)) (r : Rule) (name : String) :
    (setOption opts r).lookup name =
      if name == r.enabledOption then some r.enabled else opts.lookup name := by
  have hsome := isSome_lookup opts r.enabledOption
  unfold setOption
  split
  · next hany =>
    rw [hany] at hsome
    obtain ⟨b, hb⟩ := Option.isSome_iff_exists.mp hsome
    rw [lookup_map_set]
    split
    · next hname => rw [eq_of_beq hname, hb, Option.map_some]
    · rfl
  · next hany =>
    rw [Bool.eq_false_iff.mpr hany, Option.isSome_eq_false_iff, Option.isNone_iff_eq_none] at hsome
    rw [List.lookup_append, List.lookup_cons, List.lookup_nil]
    cases hname : name == r.enabledOption with
    | true => simp [eq_of_beq hname, hsome]
    | false => simp

/-- **An option is that of the last rule that has it.** -/
theorem lookup_options_eq (p : Profile) (name : String) :
    p.options.lookup name =
      (p.rules.reverse.find? (·.enabledOption == name)).map (·.enabled) := by
  have hfold (rules : List Rule) (opts : List (String × Bool)) :
      (rules.foldl setOption opts).lookup name =
        ((rules.reverse.find? (·.enabledOption == name)).map (·.enabled)).or
          (opts.lookup name) := by
    induction rules generalizing opts with
    | nil => rfl
    | cons r rules ih =>
      rw [List.foldl_cons, ih, lookup_setOption, List.reverse_cons, List.find?_append, BEq.comm]
      cases rules.reverse.find? (·.enabledOption == name) with
      | some own => rfl
      | none =>
        rw [List.find?_singleton]
        cases r.enabledOption == name <;> rfl
  rw [options_eq, hfold]
  exact Option.or_none

/-- The option of a rule is that of the last rule with its id. -/
theorem lookup_options (p : Profile) (rule : Rule) :
    p.options.lookup rule.enabledOption =
      (p.rules.reverse.find? (·.id == rule.id)).map (·.enabled) := by
  simp only [lookup_options_eq, Rule.enabledOption_beq]

/-- **Where every rule has an id of its own, the options are those of the rules.** -/
theorem lookup_options_eq_some_iff {p : Profile} (h : (p.rules.map Rule.id).Nodup) {name : String}
    {on : Bool} : p.options.lookup name = some on ↔
      ∃ rule ∈ p.rules, rule.enabledOption = name ∧ rule.enabled = on := by
  constructor
  · intro hlookup
    rw [lookup_options_eq] at hlookup
    obtain ⟨rule, hfound, hon⟩ := Option.map_eq_some_iff.mp hlookup
    have hmem : rule ∈ p.rules := List.mem_reverse.mp (List.mem_of_find?_eq_some hfound)
    exact ⟨rule, hmem, by simpa using List.find?_some hfound, hon⟩
  · rintro ⟨rule, hmem, rfl, rfl⟩
    have hreversed : (p.rules.reverse.map Rule.id).Nodup :=
      ((List.reverse_perm _).map _).nodup_iff.mpr h
    rw [lookup_options, Registry.find?_of_nodup hreversed (List.mem_reverse.mpr hmem),
      Option.map_some]

end Profile

/-! ## Settings that do not mention a rule -/

/-- Whether the settings say nothing of a rule in a file: they neither switch it nor ignore its
name, and nothing that they say of files is about it here. -/
structure FileContext.IsSilentOn (ctx : FileContext) (rule : String) (path : Path) : Prop where
  disabled : rule ∉ ctx.settings.rules.disabled
  enabled : rule ∉ ctx.settings.rules.enabled
  name : ctx.settings.ignoresName rule = false
  file : ctx.settings.ignoresRuleFor rule path = false
  fileBelowRoot :
    ctx.settings.ignoresRuleFor rule ((path.stripBase? ctx.project.root).getD path) = false

theorem FileContext.IsSilentOn.isRuleEnabled {ctx : FileContext} {rule : String} {path : Path}
    (h : ctx.IsSilentOn rule path) :
    ctx.isRuleEnabled rule path = (ctx.ruleDefault rule).getD true := by
  simp [FileContext.isRuleEnabled, Settings.isRuleEnabled, h.disabled, h.enabled, h.name, h.file,
    h.fileBelowRoot]

namespace Registry

variable {r₀ : Registry}

/-- **What decides about a rule that the settings do not mention** is the first rule with its id
in the order of registration, be it of the add-in itself or of one that was registered before; the
option of the add-in is that of the last of its own rules with the id.  So the answer is the
add-in's own option exactly if these two have the same default, and it is if no add-in before has
such a rule and the add-in has it once.  What is registered later has no part in it. -/
theorem isRuleEnabled_of_silent (h₀ : r₀.HoldsNothing) {cs : List Call}
    {before after : List Registration} {x : Registration}
    (hlog : r₀.history cs = before ++ x :: after) {rule : Rule} (hrule : rule ∈ x.profile.rules)
    {ctx : FileContext} (hctx : ctx.ruleDefault = (r₀.afterAll cs).ruleDefault?) {path : Path}
    (hsilent : ctx.IsSilentOn rule.id path) :
    ∃ first own,
      (before.flatMap (·.profile.rules) ++ x.profile.rules).find? (·.id == rule.id) = some first ∧
      x.profile.rules.reverse.find? (·.id == rule.id) = some own ∧
      ctx.isRuleEnabled rule.id path = first.enabled ∧
      (r₀.afterAll cs).option? x.id rule.enabledOption = some own.enabled ∧
      ((r₀.afterAll cs).option? x.id rule.enabledOption =
          some (ctx.isRuleEnabled rule.id path) ↔ first.enabled = own.enabled) ∧
      ((∀ y ∈ before, ∀ other ∈ y.profile.rules, other.id ≠ rule.id) →
        (x.profile.rules.map (·.id)).Nodup → first = rule ∧ own = rule) := by
  have hrecords := h₀.records.afterAll cs
  rw [List.nil_append, hlog] at hrecords
  have hfinds (rules : List Rule) (hmem : rule ∈ rules) :
      ∃ found, rules.find? (·.id == rule.id) = some found := by
    refine Option.isSome_iff_exists.mp (List.find?_isSome.mpr ⟨rule, hmem, beq_self_eq_true _⟩)
  obtain ⟨first, hfirst⟩ := hfinds _ (List.mem_append_right (before.flatMap (·.profile.rules)) hrule)
  obtain ⟨own, hown⟩ := hfinds _ (List.mem_reverse.mpr hrule)
  have hon : ctx.isRuleEnabled rule.id path = first.enabled := by
    rw [hsilent.isRuleEnabled, hctx, hrecords.ruleDefault?_eq, List.flatMap_append,
      List.flatMap_cons, ← List.append_assoc, List.find?_append, hfirst]
    rfl
  have hregistered : (r₀.afterAll cs).registration? x.id = some x := by
    rw [hrecords.registration?_eq]
    exact find?_of_nodup hrecords.ids (List.mem_append_right _ List.mem_cons_self)
  have hoption : (r₀.afterAll cs).option? x.id rule.enabledOption = some own.enabled := by
    rw [option?, profile?_of_registration? hregistered, Option.bind_some,
      Profile.lookup_options, hown, Option.map_some]
  refine ⟨first, own, hfirst, hown, hon, hoption, ?_, ?_⟩
  · rw [hoption, hon, Option.some.injEq]
    exact eq_comm
  · intro hbefore hids
    have hnone : (before.flatMap (·.profile.rules)).find? (·.id == rule.id) = none := by
      rw [List.find?_eq_none]
      intro other hother hid
      obtain ⟨y, hy, hmem⟩ := List.mem_flatMap.mp hother
      exact hbefore y hy other hmem (eq_of_beq hid)
    rw [List.find?_append, hnone, Option.none_or, find?_of_nodup hids hrule] at hfirst
    have hreversed : (x.profile.rules.reverse.map (·.id)).Nodup :=
      ((List.reverse_perm _).map _).nodup_iff.mpr hids
    rw [find?_of_nodup hreversed (List.mem_reverse.mpr hrule)] at hown
    exact ⟨(Option.some.inj hfirst).symm, (Option.some.inj hown).symm⟩

/-- A rule against tabs. -/
def noTabs : Rule := { id := "NoTabs", context := "Tab found", pattern := some "\\t" }

/-- Three analyzers with a rule against tabs: an untrusted one that only trusted ones may enforce,
a trusted one, and one that leaves it off. -/
def tabCheckers : List Call :=
  [.registerAnalyzer [] (patternAnalyzer "probe" "text")
      [{ id := "Probe", rules := [{ noTabs with trustedOnly := true }] }] false,
    .registerAnalyzer [] (patternAnalyzer "tabs" "text") [{ id := "Tabs", rules := [noTabs] }] true,
    .registerAnalyzer [] (patternAnalyzer "spare" "text")
      [{ id := "Spare", rules := [{ noTabs with enabled := false }] }] true,
    .wire]

/-- What files are checked with where there are no settings. -/
def bareContext (r : Registry) : FileContext := { ruleDefault := r.ruleDefault? }

theorem isSilentOn_bareContext (r : Registry) (rule : String) (path : Path) :
    (bareContext r).IsSilentOn rule path := by
  constructor <;> simp [bareContext, Settings.ignoresName, Settings.ignoresRuleFor]

/-- Without the first one, the trusted analyzer has its rule on, and one that comes later leaves it
so. -/
theorem isRuleEnabled_of_silent_tabs :
    let r := withBuiltins.afterAll (tabCheckers.drop 1)
    withBuiltins.HoldsNothing ∧ (bareContext r).IsSilentOn "NoTabs" ⟨"a.txt"⟩ ∧
    r.option? "tabs" "NoTabs#Enabled" = some true ∧
    (bareContext r).isRuleEnabled "NoTabs" ⟨"a.txt"⟩ = true := by
  intro r
  have hsilent := isSilentOn_bareContext r "NoTabs" ⟨"a.txt"⟩
  have hdefaults : (bareContext r).ruleDefault = r.ruleDefault? := rfl
  obtain ⟨x, after, hlog, hid, hrules⟩ : ∃ x after,
      withBuiltins.history (tabCheckers.drop 1) = [] ++ x :: after ∧ x.id = "tabs" ∧
        x.profile.rules = [noTabs.ownedBy "tabs"] := ⟨_, _, rfl, rfl, by decide +kernel⟩
  have hrule : noTabs.ownedBy "tabs" ∈ x.profile.rules := hrules ▸ List.mem_cons_self
  obtain ⟨first, own, -, -, hon, hoption, -, hown⟩ :=
    isRuleEnabled_of_silent .builtins hlog hrule hdefaults hsilent
  obtain ⟨rfl, rfl⟩ := hown (fun _ hy => by cases hy) (by rw [hrules]; decide)
  rw [hid] at hoption
  exact ⟨.builtins, hsilent, hoption, hon⟩

/-- **An add-in switches the rule of another one.**  The trusted analyzer has its rule on, and the
settings say nothing of it; but the untrusted one, in which the rule is off, came first. -/
theorem isRuleEnabled_ne_option :
    let r := withBuiltins.afterAll tabCheckers
    withBuiltins.HoldsNothing ∧ (bareContext r).IsSilentOn "NoTabs" ⟨"a.txt"⟩ ∧
    (r.analyzerEntry? "tabs").map (fun a => a.profile.rules.map (·.id)) = some ["NoTabs"] ∧
    r.option? "tabs" "NoTabs#Enabled" = some true ∧
    (bareContext r).isRuleEnabled "NoTabs" ⟨"a.txt"⟩ = false :=
  ⟨.builtins, isSilentOn_bareContext _ _ _, by decide +kernel, by decide +kernel,
    by decide +kernel⟩

end Registry

end StyleEngine
