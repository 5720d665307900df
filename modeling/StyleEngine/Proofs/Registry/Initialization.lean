import StyleEngine.Proofs.Registry.Descriptors
import StyleEngine.Proofs.Registry.RuleDefaults

/-! # Layers of initialization

A text parser or a pattern analyzer is declared in layers, the most specific
descriptor first.  What it comes to is a matter of all its rules in a row: the first
one with each id counts, its name is that of the first descriptor, and its options
are those of its rules (`Registry.InitializesAs`).  Only a pattern analyzer can be
refused, for a rule that counts (`Registry.initialization_layers`).
-/
namespace StyleEngine

/-- The name that an add-in goes by. -/
def Registration.shownName : Registration → String
  | .parser p f _ => p.shownName f
  | .analyzer a f _ => a.shownName f

namespace Registry

variable {r : Registry} {x : Registration}

/-- An add-in that is registered under a free id is what the id stands for. -/
theorem registration?_enrol (hx : r.contains x.id = false) :
    (r.enrol x).registration? x.id = some x := by
  obtain ⟨hparser, hanalyzer⟩ := Bool.or_eq_false_iff.mp hx
  rw [Option.isSome_eq_false_iff, Option.isNone_iff_eq_none] at hparser hanalyzer
  cases x with
  | parser p f t =>
    have hfree : r.parsers.find? (fun e => e.parser.id == p.id) = none := hparser
    have hentry : parserEntry? (r.addParser p f t) p.id =
        some { parser := p, profile := f, trusted := t } := by
      show (r.parsers ++ [_]).find? _ = _
      rw [List.find?_append, hfree, Option.none_or, List.find?_cons_of_pos (by simp)]
    show registration? (r.addParser p f t) p.id = _
    rw [registration?, hentry]
    rfl
  | analyzer a f t =>
    have hnone : parserEntry? (r.addAnalyzer a f t) a.id = none := hparser
    have hfree : r.analyzers.find? (fun e => e.analyzer.id == a.id) = none := hanalyzer
    have hentry : analyzerEntry? (r.addAnalyzer a f t) a.id =
        some { analyzer := a, profile := f, trusted := t } := by
      show (r.analyzers ++ [_]).find? _ = _
      rw [List.find?_append, hfree, Option.none_or, List.find?_cons_of_pos (by simp)]
    show registration? (r.addAnalyzer a f t) a.id = _
    rw [registration?, hnone, hentry]
    rfl

/-- A parser is registered under a free id if it can be configured. -/
theorem result_registerParser {parser : Parser} (hid : r.contains parser.id = false)
    (switches : Switches) (ds : List InitDescriptor) (trusted : Bool) :
    (r.registerParser switches parser ds trusted).result =
      (parser.profileFor ds trusted switches).result.map fun p =>
        (true, r.enrol (.parser parser p trusted)) := by
  rw [registerParser, hid, if_neg Bool.false_ne_true, Reaction.result_andThen]
  cases (parser.profileFor ds trusted switches).result <;> rfl

/-- An analyzer is registered under a free id if it can be configured. -/
theorem result_registerAnalyzer {analyzer : Analyzer} (hid : r.contains analyzer.id = false)
    (switches : Switches) (ds : List InitDescriptor) (trusted : Bool) :
    (r.registerAnalyzer switches analyzer ds trusted).result =
      (analyzer.profileFor ds trusted switches).result.map fun p =>
        (true, r.enrol (.analyzer analyzer p trusted)) := by
  rw [registerAnalyzer, hid, if_neg Bool.false_ne_true, Reaction.result_andThen]
  cases (analyzer.profileFor ds trusted switches).result <;> rfl

/-- What a registration that succeeds comes to, given the rules that the add-in ends up with. -/
structure InitializesAs (r : Registry) (y : Reaction AddInError (Bool × Registry))
    (ds : List InitDescriptor) (rules : List Rule) (x : Registration) : Prop where
  result : y.result = .ok (true, r.enrol x)
  registered : (r.enrol x).registration? x.id = some x
  keeps : x.profile.rules = rules
  /-- The name is up to the first descriptor alone. -/
  name : x.shownName = (ds.head?.bind (·.name)).getD x.id
  /-- There is an option for each of these rules, and no other one. -/
  option : ∀ name on, (r.enrol x).option? x.id name = some on ↔
    ∃ rule ∈ rules, rule.enabledOption = name ∧ rule.enabled = on

/-- The tables of a registry speak of an add-in as it was configured. -/
theorem InitializesAs.of_profile {y : Reaction AddInError (Bool × Registry)}
    {ds : List InitDescriptor} {firsts : List Rule} {own : Rule → Rule}
    (hx : r.contains x.id = false) (hy : y.result = .ok (true, r.enrol x))
    (hname : x.shownName = (ds.head?.bind (·.name)).getD x.id)
    (hrules : x.profile.rules = firsts.map own) (hown : ∀ rule, (own rule).id = rule.id)
    (hids : (firsts.map Rule.id).Nodup) : r.InitializesAs y ds (firsts.map own) x := by
  have hregistered := registration?_enrol hx
  have hnodup : (x.profile.rules.map Rule.id).Nodup := by
    have hsame : (firsts.map own).map Rule.id = firsts.map Rule.id := by
      rw [List.map_map]
      exact List.map_congr_left fun rule _ => hown rule
    rw [hrules, hsame]
    exact hids
  refine ⟨hy, hregistered, hrules, hname, fun name on => ?_⟩
  rw [option?, profile?_of_registration? hregistered, Option.bind_some,
    Profile.lookup_options_eq_some_iff hnodup, hrules]

/-- **What layers of descriptors come to.**  Whatever the descriptors, a text parser or a pattern
analyzer that is registered under a free id has the first rule with each id of all that they
declare, in that order and as its own; it has the name that the first descriptor gives it and the
options of its rules.  A pattern analyzer that is not trusted has its rules for trusted add-ins
switched off, and all others are as they were declared.  A text parser is always registered.  A
pattern analyzer is refused exactly if a rule has a pattern that cannot be read, whatever reader
decides this, and no rule before it has its id. -/
theorem initialization_layers {id : String} (hid : r.contains id = false)
    (ds : List InitDescriptor) (trusted : Bool) (switches : Switches) :
    let declared := ds.flatMap (·.rules)
    let firsts := declared.eraseDupsBy Rule.sameId
    (∀ extensions,
      let y := r.registerParser switches (textParser id extensions) ds trusted
      ∃ p, r.InitializesAs y ds (firsts.map (·.ownedBy id))
        (.parser (textParser id extensions) p trusted)) ∧
    ∀ parserId read,
      let y := r.registerAnalyzer switches (patternAnalyzer id parserId read) ds trusted
      ((∃ e, y.result = .error e) ↔ ∃ before rule after, declared = before ++ rule :: after ∧
        (∀ other ∈ before, other.id ≠ rule.id) ∧
        ∃ text complaint, rule.pattern = some text ∧ read text = .error complaint) ∧
      ((∀ e, y.result ≠ .error e) →
        ∃ p, r.InitializesAs y ds
          (firsts.map fun rule =>
            { rule with addinId := id, enabled := rule.enabled && (trusted || !rule.trustedOnly) })
          (.analyzer (patternAnalyzer id parserId read) p trusted)) := by
  intro declared firsts
  have hids : (firsts.map Rule.id).Nodup := Rule.nodup_eraseDupsBy_sameId declared
  constructor
  · intro extensions y
    refine ⟨{ name := ds.head?.bind (·.name), rules := firsts.map (·.ownedBy id) },
      .of_profile hid ?_ rfl rfl (fun _ => rfl) hids⟩
    show (r.registerParser switches (textParser id extensions) ds trusted).result = _
    rw [result_registerParser hid, TextParser.profileFor_eq]
    rfl
  · intro parserId read y
    let analyzer := patternAnalyzer id parserId read
    have hy : y.result = (analyzer.profileFor ds trusted switches).result.map
        fun p => (true, r.enrol (.analyzer analyzer p trusted)) :=
      result_registerAnalyzer hid switches ds trusted
    constructor
    · have hfails : (∃ e, y.result = .error e) ↔
          ∃ e, (analyzer.profileFor ds trusted switches).result = .error e := by
        rw [hy]
        cases (analyzer.profileFor ds trusted switches).result <;> simp [Except.map]
      rw [hfails, PatternAnalyzer.profileFor_fails_iff]
      constructor
      · rintro ⟨rule, hrule, complaint, hbad⟩
        obtain ⟨before, after, hsplit, hfirst⟩ := Rule.mem_eraseDupsBy_sameId_iff.mp hrule
        obtain ⟨text, htext, hread⟩ := Rule.complaint?_eq_some_iff.mp hbad
        exact ⟨before, rule, after, hsplit, hfirst, text, complaint, htext, hread⟩
      · rintro ⟨before, rule, after, hsplit, hfirst, text, complaint, htext, hread⟩
        exact ⟨rule, Rule.mem_eraseDupsBy_sameId_iff.mpr ⟨before, after, hsplit, hfirst⟩,
          complaint, Rule.complaint?_eq_some_iff.mpr ⟨text, htext, hread⟩⟩
    · intro hok
      cases hprofile : (analyzer.profileFor ds trusted switches).result with
      | error e =>
        rw [hprofile] at hy
        exact absurd hy (hok e)
      | ok p =>
        rw [hprofile] at hy
        obtain ⟨-, rfl⟩ := PatternAnalyzer.profileFor_eq_ok_iff.mp hprofile
        have htaken : firsts.map (·.takenBy id trusted) = firsts.map fun rule =>
            { rule with
              addinId := id
              enabled := rule.enabled && (trusted || !rule.trustedOnly) } :=
          List.map_congr_left fun rule _ => rule.takenBy_eq id trusted
        exact ⟨_, .of_profile hid hy rfl htaken (fun _ => rfl) hids⟩

/-- A rule against open tasks. -/
def noTasks : Rule := { id := "NoTasks", context := "Open task", pattern := some "TODO" }

/-- The rule against tabs is for trusted add-ins here; the layer below has one with a pattern that
cannot be read. -/
def layeredChecks : List InitDescriptor :=
  [{ id := "team", name := some "Team checks", rules := [{ noTabs with trustedOnly := true }] },
    { id := "base", name := some "Base checks",
      rules := [{ noTabs with pattern := some "(" }, noTasks] }]

/-- The rule below that has the pattern is no obstacle; the one above is switched off without
trust. -/
theorem initialization_layers_checks :
    withBuiltins.contains "checks" = false ∧
    ∃ p, let x : Registration := .analyzer (patternAnalyzer "checks" "text") p false
      (withBuiltins.registerAnalyzer [] (patternAnalyzer "checks" "text") layeredChecks false).result
        = .ok (true, withBuiltins.enrol x) ∧
      x.shownName = "Team checks" ∧
      (withBuiltins.enrol x).option? "checks" "NoTabs#Enabled" = some false ∧
      (withBuiltins.enrol x).option? "checks" "NoTasks#Enabled" = some true := by
  have hfree : withBuiltins.contains "checks" = false := rfl
  obtain ⟨-, hlayers⟩ := initialization_layers hfree layeredChecks false []
  have hok : (withBuiltins.registerAnalyzer [] (patternAnalyzer "checks" "text") layeredChecks
      false).result.isOk = true := by decide +kernel
  obtain ⟨p, h⟩ := (hlayers "text" Pattern.reader).2 fun e he => by rw [he] at hok; cases hok
  refine ⟨hfree, p, h.result, h.name, (h.option _ _).mpr ?_, (h.option _ _).mpr ?_⟩
  · exact ⟨_, List.mem_cons_self, by decide, by decide⟩
  · exact ⟨_, List.mem_cons_of_mem _ List.mem_cons_self, by decide, by decide⟩

end Registry

end StyleEngine
