import StyleEngine.Proofs.Analysis.TextWork
import StyleEngine.Proofs.Engine.Hosting
import StyleEngine.Proofs.Engine.Profiles
import StyleEngine.Proofs.Registry.Manifests
import StyleEngine.Proofs.Text.Bytes

/-! # The gate for trusted add-ins

An add-in is trusted if its module carries the key of the host.  Rules for trusted
add-ins only are checked by a pattern analyzer exactly if it is trusted, whatever the
settings say, and in runs of an engine nothing shows what such rules of another
analyzer are (`Engine.trust_gate`).  Where the host has no key, its key is the empty
one, and a module may carry that (`Engine.trusted_without_key`).
-/
namespace StyleEngine

/-! ## Keys -/

/-- Whether a module carries a key, byte by byte. -/
def Manifest.CarriesKey (m : Manifest) (hostKey : List UInt8) : Prop :=
  ∃ text, m.key = some text ∧ text.toUTF8.toList = hostKey

theorem isTrustedKey_iff {m : Manifest} {hostKey : List UInt8} :
    isTrustedKey m.key hostKey = true ↔ m.CarriesKey hostKey := by
  unfold isTrustedKey Manifest.CarriesKey
  cases m.key with
  | none => simp
  | some text => simp

/-- Only the empty text has no bytes. -/
theorem toList_toUTF8_eq_nil {text : String} : text.toUTF8.toList = [] ↔ text = "" := by
  rw [toList_toUTF8, List.flatMap_eq_nil_iff, ← String.toList_eq_nil_iff,
    List.eq_nil_iff_forall_not_mem]
  exact forall₂_congr fun c _ => iff_false_intro String.utf8EncodeChar_ne_nil

/-- **The empty key is carried by modules that spell it out.** -/
theorem Manifest.carriesKey_nil {m : Manifest} : m.CarriesKey [] ↔ m.key = some "" := by
  unfold CarriesKey
  simp only [toList_toUTF8_eq_nil, exists_eq_right]

/-! ## What a pattern analyzer does in a file -/

theorem Act.reportAll_append (vs ws : List Violation) :
    reportAll (vs ++ ws) = (reportAll vs).bind fun _ => reportAll ws := by
  induction vs with
  | nil => rfl
  | cons v vs ih => exact congrArg (Act.report v) (funext fun _ => ih)

namespace PatternAnalyzer

/-- The hits of rules in a file, of those that the settings leave on. -/
def hitsIn (ctx : FileContext) (rules : List (Rule × Pattern)) (f : SourceFile) : List Violation :=
  match f.model with
  | some m => hitsOf ctx rules f.path m.lines
  | none => []

theorem hitsIn_cons (ctx : FileContext) (rule : Rule) (pattern : Pattern)
    (rules : List (Rule × Pattern)) (f : SourceFile) :
    hitsIn ctx ((rule, pattern) :: rules) f =
      (if ctx.isRuleEnabled rule.id f.path then hits f rule pattern else []) ++
        hitsIn ctx rules f := by
  unfold hitsIn hits
  cases f.model with
  | none => simp
  | some m => exact List.flatMap_cons

/-- **A pattern analyzer reports the hits of its active rules**, and that is all it does. -/
theorem run_check (ctx : FileContext) (rules : List (Rule × Pattern)) (s : Visit) :
    (check ctx rules).run ctx s = (Act.reportAll (hitsIn ctx rules s.file)).run ctx s := by
  induction rules generalizing s with
  | nil =>
    unfold hitsIn
    cases s.file.model <;> rfl
  | cons x rest ih =>
    obtain ⟨rule, pattern⟩ := x
    simp only [check, Act.run]
    rw [hitsIn_cons]
    by_cases hon : ctx.isRuleEnabled rule.id s.file.path = true
    · rw [if_pos hon, if_pos hon, Act.reportAll_append, Act.run_bind, Act.run_bind]
      -- reporting changes neither the path of the file nor its model
      have hpath : ((Act.reportAll (hits s.file rule pattern)).run ctx s).1.file.path =
          s.file.path :=
        ((Visit.sameIdentity_invariant ctx s.file).act _ (.inl trivial) ⟨rfl, rfl, rfl⟩).path
      have hmodel : ((Act.reportAll (hits s.file rule pattern)).run ctx s).1.file.model =
          s.file.model := ((Act.leavesText_reportAll _).run ctx s).model
      generalize (Act.reportAll (hits s.file rule pattern)).run ctx s = reported at hpath hmodel ⊢
      obtain ⟨s', result⟩ := reported
      cases result with
      | error cause => rfl
      | ok _ =>
        dsimp only at hpath hmodel ⊢
        have hrest : hitsIn ctx rest s'.file = hitsIn ctx rest s.file := by
          rw [hitsIn, hitsIn, hpath, hmodel]
        rw [ih s', hrest]
    · rw [if_neg hon, if_neg hon, List.nil_append, ih s]

end PatternAnalyzer

/-! ## Rules that are exchanged -/

/-- A rule that is exchanged for another one if both are for trusted add-ins only. -/
def Rule.exchanged (swap : Rule → Rule) (rule : Rule) : Rule :=
  if rule.trustedOnly then { swap rule with trustedOnly := true } else rule

/-- The profile of an analyzer where one with some id has exchanged its rules for trusted add-ins
only. -/
def AnalyzerEntry.exchanging (id : String) (swap : Rule → Rule) (a : AnalyzerEntry) : Profile :=
  if a.analyzer.id == id then
    { a.profile with rules := a.profile.rules.map (·.exchanged swap) }
  else a.profile

theorem PatternAnalyzer.activeRules_exchanged {p : Profile} (h : p.Fits false)
    (swap : Rule → Rule) :
    activeRules { p with rules := p.rules.map (·.exchanged swap) } = activeRules p := by
  by_cases hrules : p.rules = []
  · unfold activeRules
    rw [hrules]
    rfl
  · have hfilter (rules : List Rule) :
        (rules.map (·.exchanged swap)).filter (fun r => false || !r.trustedOnly) =
          rules.filter fun r => false || !r.trustedOnly := by
      induction rules with
      | nil => rfl
      | cons rule rules ih =>
        rw [List.map_cons, List.filter_cons, List.filter_cons, ih]
        cases htrusted : rule.trustedOnly <;> simp [Rule.exchanged, htrusted]
    unfold activeRules
    dsimp only
    rw [h.trust hrules, hfilter]

namespace Registry

variable {r : Registry} {id : String} {a : AnalyzerEntry}

/-- **A pattern analyzer that is not trusted** acts alike with other rules for trusted add-ins
only. -/
theorem actsAlike_exchanging (hids : (r.analyzers.map fun a => a.analyzer.id).Nodup)
    (ha : r.analyzerEntry? id = some a) {parserId : String}
    (hkind : a.analyzer = patternAnalyzer id parserId) (hfits : a.profile.Fits false)
    (swap : Rule → Rule) : r.ActsAlike (AnalyzerEntry.exchanging id swap) := by
  intro b hb
  by_cases hid : b.analyzer.id = id
  · have hsame : r.analyzerEntry? b.analyzer.id = some b := find?_of_nodup hids hb
    obtain rfl : a = b := Option.some.inj (ha.symm.trans (hid ▸ hsame))
    have hprofile : a.exchanging id swap =
        { a.profile with rules := a.profile.rules.map (·.exchanged swap) } :=
      if_pos (beq_iff_eq.mpr hid)
    rw [hprofile]
    refine ⟨fun ctx => ?_, fun switches => ?_, fun switches => ?_⟩
    · rw [hkind]
      exact congrArg (PatternAnalyzer.check ctx)
        (PatternAnalyzer.activeRules_exchanged hfits swap)
    · rw [hkind]
      rfl
    · rw [hkind]
      rfl
  · have hprofile : b.exchanging id swap = b.profile := if_neg fun h => hid (eq_of_beq h)
    rw [hprofile]
    exact ⟨fun _ => rfl, fun _ => rfl, fun _ => rfl⟩

theorem exists_registration?_of_isTrusted (h : r.isTrusted id = true) :
    ∃ x, r.registration? id = some x := by
  unfold isTrusted at h
  unfold registration?
  cases hparser : r.parserEntry? id with
  | some e => exact ⟨e.registration, rfl⟩
  | none =>
    cases hanalyzer : r.analyzerEntry? id with
    | some a => exact ⟨a.registration, rfl⟩
    | none =>
      rw [hparser, hanalyzer] at h
      cases h

theorem analyzerEntry?_of_registration? {f : Analyzer} {p : Profile} {t : Bool}
    (h : r.registration? id = some (.analyzer f p t)) :
    ∃ a, r.analyzerEntry? id = some a ∧ a.registration = .analyzer f p t := by
  unfold registration? at h
  split at h
  · cases h
  · exact Option.map_eq_some_iff.mp h

end Registry

/-! ## The gate -/

namespace Engine

/-- What a pattern analyzer that a module declares comes to in an engine, if the module carries the
key of the host or not. -/
structure Gates (e : Engine) (spec : AddInSpec) (a : AnalyzerEntry) (carriesKey : Prop) : Prop where
  /-- Of the rules that are declared for it, it keeps the first with each id. -/
  kept : a.profile.rules =
    ((spec.descriptors.flatMap (·.rules)).eraseDupsBy Rule.sameId).map
      (·.takenBy spec.id a.trusted)
  /-- Of the rules that it keeps, those with a pattern are active, and those for trusted add-ins
  only if the module carries the key. -/
  active : ∀ rule, (∃ pattern, (rule, pattern) ∈ PatternAnalyzer.activeRules a.profile) ↔
    rule ∈ a.profile.rules ∧ rule.pattern.isSome = true ∧ (rule.trustedOnly = true → carriesKey)
  /-- In a file it matches active rules that the settings leave on, and does nothing else. -/
  matched : ∀ (ctx : FileContext) (s : Visit), (a.analyzer.analyze a.profile ctx).run ctx s =
    (Act.reportAll (PatternAnalyzer.hitsIn ctx (PatternAnalyzer.activeRules a.profile)
      s.file)).run ctx s
  /-- If the module does not carry the key, no run of the engine shows what its rules for trusted
  add-ins are. -/
  unseen : ¬ carriesKey → ∀ (swap : Rule → Rule) (plan : Nat → Nat → Nat → List Move)
    (t : FileTree) (switches : Switches) (processors : Nat) (mode : RunMode)
    (settingsPath : Option String) (projects : List Project),
    let o := e.runWith (.following plan) t switches processors mode settingsPath projects
    (e.reprofiled (AnalyzerEntry.exchanging spec.id swap)).runWith (.following plan) t switches
        processors mode settingsPath projects =
      { o with engine := o.engine.reprofiled (AnalyzerEntry.exchanging spec.id swap) }

variable {hostKey : List UInt8} {cs before after : List Registry.Call} {c : Registry.Call}
  {e : Engine} {key : List UInt8} {m : Manifest} {spec : AddInSpec} {x : Registration}

namespace IsHosted

theorem isAsDeclared (h : e.IsHosted hostKey cs) (hcs : cs = before ++ c :: after)
    (hx : (Registry.withBuiltins.afterAll before).Brings key c m spec x) :
    x.IsAsDeclared spec (isTrustedKey m.key hostKey) := by
  have hunder := h.isUnder
  rw [hcs, List.forall_mem_append] at hunder
  obtain rfl : key = hostKey := (hunder.2 c List.mem_cons_self).key key hx.hostKey?
  exact hx.isAsDeclared
    (Registry.BuildsPatterns.builtins.afterAll fun c hc => (hunder.1 c hc).patterns)

theorem registration?_eq (h : e.IsHosted hostKey cs) (hcs : cs = before ++ c :: after)
    (hx : (Registry.withBuiltins.afterAll before).Brings key c m spec x) :
    e.registry.registration? x.id = some x := by
  rw [h.registry_eq]
  exact Registry.registration?_of_mem_registered Registry.HoldsNothing.builtins hcs
    hx.mem_registered

theorem isTrusted_iff (h : e.IsHosted hostKey cs) (hcs : cs = before ++ c :: after)
    (hx : (Registry.withBuiltins.afterAll before).Brings key c m spec x) :
    e.registry.isTrusted x.id = true ↔ m.CarriesKey hostKey := by
  rw [Registry.isTrusted_of_registration? (h.registration?_eq hcs hx),
    (h.isAsDeclared hcs hx).trust, isTrustedKey_iff]

/-- **A pattern analyzer of a module** is gated by the key that the module carries. -/
theorem exists_gates (h : e.IsHosted hostKey cs) (hcs : cs = before ++ c :: after)
    (hx : (Registry.withBuiltins.afterAll before).Brings key c m spec x)
    (hkind : spec.kind = .analyzer) (hfactory : spec.factory = "pattern") :
    ∃ a, x.id = spec.id ∧ e.registry.analyzerEntry? spec.id = some a ∧ a.registration = x ∧
      e.Gates spec a (m.CarriesKey hostKey) := by
  have hstands := h.registration?_eq hcs hx
  obtain ⟨parserId, switches, p, -, hprofile, rfl⟩ :=
    (h.isAsDeclared hcs hx).pattern hkind hfactory
  obtain ⟨a, ha, hregistration⟩ := Registry.analyzerEntry?_of_registration? hstands
  obtain ⟨hanalyzer, rfl, htrusted⟩ := Registration.analyzer.inj hregistration
  have hfits := PatternAnalyzer.profileFor_fits hprofile
  refine ⟨a, rfl, ha, hregistration, ?_, fun rule => ?_, fun ctx s => ?_, fun hlacks => ?_⟩
  · rw [htrusted]
    exact PatternAnalyzer.rules_profileFor hprofile
  · rw [PatternAnalyzer.exists_mem_activeRules_iff hfits, isTrustedKey_iff]
  · rw [hanalyzer]
    exact PatternAnalyzer.run_check ctx _ s
  · have huntrusted : isTrustedKey m.key hostKey = false :=
      Bool.eq_false_iff.mpr fun htrust => hlacks (isTrustedKey_iff.mp htrust)
    have hwired : e.registry.IsWired := by
      rw [h.registry_eq]
      exact Registry.IsWired.builtins.afterAll cs
    intro swap plan t switches processors mode settingsPath projects
    exact runWith_reprofiled
      (Registry.actsAlike_exchanging hwired.ids ha hanalyzer (huntrusted ▸ hfits) swap) _ _

end IsHosted

end Engine

/-! ## A module with a key or without one -/

/-- A directory with a module in it. -/
def FileTree.ofModule (m : Manifest) : FileTree where
  nodes := [(["work", "checks.json"], .file (.text m.toJson.compact))]

theorem FileTree.filesBelow_ofModule (m : Manifest) :
    (FileTree.ofModule m).filesBelow ⟨"."⟩ = .ok [⟨"./checks.json"⟩] := by
  have hnames : (FileTree.ofModule m).names ["work"] = ["checks.json"] := by
    simp [names, ofModule]
  show Except.ok (((FileTree.ofModule m).names ["work"]).flatMap fun n =>
    (FileTree.ofModule m).filesWithin 2 (["work"] ++ [n]) (Path.join ⟨"."⟩ ⟨n⟩)) = _
  rw [hnames]
  rfl

def textSpec : AddInSpec where
  id := "text"
  kind := .parser
  factory := "text"
  extensions := ["txt"]

/-- An analyzer with a rule for trusted add-ins only, which it declares once more for all, and
another rule. -/
def checkSpec : AddInSpec where
  id := "checks"
  kind := .analyzer
  factory := "pattern"
  parser := some "text"
  descriptors := [
    { id := "checks"
      rules := [
        { id := "NoTabs", context := "Tab found", pattern := some "\\t", trustedOnly := true },
        { id := "NoNotes", context := "Note left", pattern := some "TODO" }] },
    { id := "again", rules := [{ id := "NoTabs", context := "Tab found", pattern := some "\\t" }] }]

/-- A module with a key or without one. -/
def checksWith (key : Option String) : Manifest where
  name := "checks"
  key
  addins := [textSpec, checkSpec]

theorem Registry.readManifest_ofModule (key : Option String) :
    readManifest (.ofModule (checksWith key)) ⟨"./checks.json"⟩ = .ok (checksWith key) := by
  refine readManifest_of_text rfl rfl ?_
  rw [checksWith, List.forall_mem_cons, List.forall_mem_singleton]
  exact ⟨⟨.nil, fun _ hd => nomatch hd⟩, ⟨.nil, by simp [checkSpec, Record.IsOrdered]⟩⟩

/-- The add-ins of the module, loaded one after the other. -/
def loadingChecks (trusted : Bool) : Loading :=
  .through (Registry.loadSpec [] ⟨"./checks.json"⟩ trusted) .withBuiltins [textSpec, checkSpec]

theorem loadingChecks_ends (trusted : Bool) : (loadingChecks trusted).events = [] ∧
    ∃ report, (loadingChecks trusted).result = .ok report ∧ report.skipped = [] := by
  have hends : (loadingChecks trusted).events = [] ∧
      (loadingChecks trusted).result.toOption.any (·.skipped.isEmpty) = true := by
    cases trusted <;> decide +kernel
  refine ⟨hends.1, ?_⟩
  cases hresult : (loadingChecks trusted).result with
  | error cause => rw [hresult] at hends; cases hends.2
  | ok report =>
    rw [hresult] at hends
    exact ⟨report, rfl, List.isEmpty_iff.mp hends.2⟩

namespace Engine

/-- An engine under a key that has loaded the module. -/
def checking (hostKey : List UInt8) (key : Option String) : Engine :=
  (loadAddIns { options := { hostKey } } (.ofModule (checksWith key)) [] [⟨"."⟩] false).engine

/-- The keys tell in the engine only in whether the module is trusted. -/
theorem checking_eq (hostKey : List UInt8) (key : Option String) :
    checking hostKey key = ({ options := { hostKey } } : Engine).wiredTo
      (loadingChecks (isTrustedKey key hostKey)).registry.wire := by
  obtain ⟨hevents, report, hresult, hskipped⟩ := loadingChecks_ends (isTrustedKey key hostKey)
  have hdirectory : (FileTree.ofModule (checksWith key)).isDirectory ⟨"."⟩ = true := rfl
  have hcandidates : [⟨"./checks.json"⟩].filter Registry.isModuleCandidate =
      [(⟨"./checks.json"⟩ : Path)] := rfl
  have hmodule : Registry.loadModule .withBuiltins (.ofModule (checksWith key)) []
      ⟨"./checks.json"⟩ hostKey = loadingChecks (isTrustedKey key hostKey) := by
    rw [Registry.loadModule, Registry.readManifest_ofModule]
    rfl
  have hfound : Registry.loadFound (.ofModule (checksWith key)) [] hostKey ⟨"./checks.json"⟩
      .withBuiltins = loadingChecks (isTrustedKey key hostKey) := by
    rw [Registry.loadFound, hmodule]
    simp only [hresult]
  simp [checking, loadAddIns, loadDirectory, hdirectory, Registry.loadAll,
    FileTree.filesBelow_ofModule, hcandidates, Loading.andThen, hfound, hresult, Except.map,
    hevents, LoadReport.append, hskipped, heed, wiredTo]

theorem brings_checking (hostKey : List UInt8) (key : Option String) :
    ∃ after x, IsHosted hostKey (.loadAll (.ofModule (checksWith key)) [] ⟨"."⟩ hostKey :: after)
        (checking hostKey key) ∧
      Registry.withBuiltins.Brings hostKey
        (.loadAll (.ofModule (checksWith key)) [] ⟨"."⟩ hostKey) (checksWith key) checkSpec x := by
  have hbrings (trusted : Bool) : ∃ x report,
      (Loading.through (Registry.loadSpec [] ⟨"./checks.json"⟩ trusted) Registry.withBuiltins
        [textSpec]).result = .ok report ∧
      x ∈ Registry.specRegistered [] ⟨"./checks.json"⟩ trusted checkSpec
        (Loading.through (Registry.loadSpec [] ⟨"./checks.json"⟩ trusted) Registry.withBuiltins
          [textSpec]).registry := by
    have hids : (Registry.specRegistered [] ⟨"./checks.json"⟩ trusted checkSpec
        (Loading.through (Registry.loadSpec [] ⟨"./checks.json"⟩ trusted) Registry.withBuiltins
          [textSpec]).registry).map Registration.id = ["checks"] := by
      cases trusted <;> decide +kernel
    obtain ⟨x, hx, -⟩ := List.mem_map.mp (hids ▸ List.mem_singleton_self "checks")
    exact ⟨x, _, rfl, hx⟩
  obtain ⟨x, report, hok, hx⟩ := hbrings (isTrustedKey key hostKey)
  have hfresh : IsHosted hostKey [] { options := { hostKey } } := .fresh rfl rfl
  have hhosted : IsHosted hostKey
      (loadCalls (.ofModule (checksWith key)) [] hostKey [⟨"."⟩] .withBuiltins)
      (checking hostKey key) :=
    hfresh.load (.ofModule (checksWith key)) [] [⟨"."⟩] false
  have hpath : [⟨"./checks.json"⟩].filter Registry.isModuleCandidate =
      [] ++ (⟨"./checks.json"⟩ : Path) :: [] := rfl
  have hdirectory : (FileTree.ofModule (checksWith key)).isDirectory ⟨"."⟩ = true := rfl
  rw [loadCalls, if_pos hdirectory] at hhosted
  exact ⟨_, x, hhosted, .found (FileTree.filesBelow_ofModule _) hpath rfl
    ⟨Registry.readManifest_ofModule key, [textSpec], [], report, rfl, hok, hx⟩⟩

/-- The rules of the analyzer that the module declares, whether or not it is trusted. -/
theorem rules_checking {a : AnalyzerEntry} (hkept : a.profile.rules =
      ((checkSpec.descriptors.flatMap (·.rules)).eraseDupsBy Rule.sameId).map
        (·.takenBy checkSpec.id a.trusted)) :
    a.profile.rules.map (fun r => (r.id, r.pattern.isSome, r.trustedOnly)) =
      [("NoTabs", true, true), ("NoNotes", true, false)] := by
  rw [hkept]
  cases a.trusted <;> decide +kernel

/-! ## Who is trusted -/

variable {hostKey : List UInt8} {cs before after : List Registry.Call} {c : Registry.Call}
  {e : Engine} {key : List UInt8} {m : Manifest} {spec : AddInSpec} {x : Registration}

/-- **The trust gate.**  However a host with a key has come to an engine, by loading modules, adding
add-ins of its own and running the engine, let a module be one of those loaded.  What the module
declared and brought in is registered still, and trusted exactly if the module carries the key of
the host.  A pattern analyzer among it matches rules for trusted add-ins only exactly if it is
trusted, whatever the settings are; and if it is not, no run shows what these rules are. -/
theorem trust_gate (h : e.IsHosted hostKey cs) (hcs : cs = before ++ c :: after)
    (hx : (Registry.withBuiltins.afterAll before).Brings key c m spec x) :
    e.registry.registration? x.id = some x ∧
    (e.registry.isTrusted x.id = true ↔ m.CarriesKey hostKey) ∧
    (spec.kind = .analyzer → spec.factory = "pattern" →
      ∃ a, x.id = spec.id ∧ e.registry.analyzerEntry? spec.id = some a ∧ a.registration = x ∧
        e.Gates spec a (m.CarriesKey hostKey)) :=
  ⟨h.registration?_eq hcs hx, h.isTrusted_iff hcs hx, h.exists_gates hcs hx⟩

/-- Without the key of the host, the module's rule for trusted add-ins is not active, though the
analyzer declares it once more for all; its other rule is. -/
theorem trust_gate_checking : ∃ after x a,
    IsHosted [75] (.loadAll (.ofModule (checksWith (some "k"))) [] ⟨"."⟩ [75] :: after)
      (checking [75] (some "k")) ∧
    Registry.withBuiltins.Brings [75]
      (.loadAll (.ofModule (checksWith (some "k"))) [] ⟨"."⟩ [75]) (checksWith (some "k"))
      checkSpec x ∧
    ¬ (checksWith (some "k")).CarriesKey [75] ∧
    (checking [75] (some "k")).registry.isTrusted x.id = false ∧
    Registry.analyzerEntry? (checking [75] (some "k")).registry "checks" = some a ∧
    a.profile.rules.map (·.id) = ["NoTabs", "NoNotes"] ∧
    ∀ rule ∈ a.profile.rules,
      ((∃ pattern, (rule, pattern) ∈ PatternAnalyzer.activeRules a.profile) ↔
        rule.id = "NoNotes") := by
  obtain ⟨after, x, hhosted, hbrings⟩ := brings_checking [75] (some "k")
  obtain ⟨-, htrusted, hgates⟩ := trust_gate hhosted (List.nil_append _).symm hbrings
  obtain ⟨a, -, ha, -, hgate⟩ := hgates rfl rfl
  have hlacks : ¬ (checksWith (some "k")).CarriesKey [75] := by
    rw [← isTrustedKey_iff]
    decide +kernel
  have hrules := rules_checking hgate.kept
  refine ⟨after, x, a, hhosted, hbrings, hlacks, Bool.eq_false_iff.mpr fun h =>
    hlacks (htrusted.mp h), ha, ?_, fun rule hrule => ?_⟩
  · have hids := congrArg (List.map Prod.fst) hrules
    rw [List.map_map] at hids
    exact hids
  · have hmem := List.mem_map_of_mem (f := fun r : Rule => (r.id, r.pattern.isSome, r.trustedOnly))
      hrule
    rw [hrules] at hmem
    rw [hgate.active rule]
    simp only [List.mem_cons, Prod.mk.injEq, List.not_mem_nil, or_false] at hmem
    rcases hmem with ⟨hid, hpattern, htrustedOnly⟩ | ⟨hid, hpattern, htrustedOnly⟩
    · simp [hid, htrustedOnly, hlacks]
    · simp [hid, hrule, hpattern, htrustedOnly]

/-- **What is trusted by a host without a key.**  An add-in of a module is trusted exactly if the
module spells out the empty key, and so are the rules for trusted add-ins that a pattern analyzer
of the module keeps active.  Nothing else is trusted but what the host handed in as trusted. -/
theorem trusted_without_key (h : e.IsHosted [] cs) :
    (∀ before c after key m spec x, cs = before ++ c :: after →
      (Registry.withBuiltins.afterAll before).Brings key c m spec x →
      (e.registry.isTrusted x.id = true ↔ m.key = some "") ∧
      (spec.kind = .analyzer → spec.factory = "pattern" →
        ∃ a, e.registry.analyzerEntry? spec.id = some a ∧
          ∀ rule ∈ a.profile.rules, rule.trustedOnly = true →
            ((∃ pattern, (rule, pattern) ∈ PatternAnalyzer.activeRules a.profile) ↔
              rule.pattern.isSome = true ∧ m.key = some ""))) ∧
    (∀ id, e.registry.isTrusted id = true → ∃ before c after, cs = before ++ c :: after ∧
      (c.HandsIn id true ∨ ∃ key m spec x,
        (Registry.withBuiltins.afterAll before).Brings key c m spec x ∧ x.id = id ∧
          m.key = some "")) := by
  refine ⟨?_, ?_⟩
  · intro before c after key m spec x hcs hx
    have htrusted := h.isTrusted_iff hcs hx
    rw [Manifest.carriesKey_nil] at htrusted
    refine ⟨htrusted, fun hkind hfactory => ?_⟩
    obtain ⟨a, -, ha, -, hgate⟩ := h.exists_gates hcs hx hkind hfactory
    refine ⟨a, ha, fun rule hrule htrustedOnly => ?_⟩
    rw [hgate.active rule, Manifest.carriesKey_nil]
    exact ⟨fun ⟨_, hpattern, hkey⟩ => ⟨hpattern, hkey htrustedOnly⟩,
      fun ⟨hpattern, hkey⟩ => ⟨hrule, hpattern, fun _ => hkey⟩⟩
  · intro id htrusted
    obtain ⟨x, hx⟩ := Registry.exists_registration?_of_isTrusted htrusted
    have hrecords := Registry.HoldsNothing.builtins.records.afterAll cs
    rw [List.nil_append, ← h.registry_eq] at hrecords
    obtain ⟨hmem, rfl⟩ := hrecords.mem_of_registration?_eq_some hx
    obtain ⟨before, c, after, hcs, hregistered⟩ := Registry.mem_history_iff.mp hmem
    refine ⟨before, c, after, hcs, ?_⟩
    rcases Registry.origin_of_mem_registered hregistered with hhands | ⟨key, m, spec, hbrings⟩
    · rw [Registry.isTrusted_of_registration? hx] at htrusted
      exact .inl (htrusted ▸ hhands)
    · exact .inr ⟨key, m, spec, x, hbrings, rfl,
        Manifest.carriesKey_nil.mp ((h.isTrusted_iff hcs hbrings).mp htrusted)⟩

/-- A module without a key is not trusted by a host without one, and its rule for trusted add-ins
is not active. -/
theorem trusted_without_key_checking : ∃ after x a,
    IsHosted [] (.loadAll (.ofModule (checksWith none)) [] ⟨"."⟩ [] :: after)
      (checking [] none) ∧
    Registry.withBuiltins.Brings [] (.loadAll (.ofModule (checksWith none)) [] ⟨"."⟩ [])
      (checksWith none) checkSpec x ∧
    (checking [] none).registry.isTrusted x.id = false ∧
    Registry.analyzerEntry? (checking [] none).registry "checks" = some a ∧
    (∃ rule ∈ a.profile.rules, rule.trustedOnly = true) ∧
    ∀ rule ∈ a.profile.rules, rule.trustedOnly = true →
      ¬ ∃ pattern, (rule, pattern) ∈ PatternAnalyzer.activeRules a.profile := by
  obtain ⟨after, x, hhosted, hbrings⟩ := brings_checking [] none
  obtain ⟨htrusted, hgates⟩ :=
    (trusted_without_key hhosted).1 _ _ _ _ _ _ _ (List.nil_append _).symm hbrings
  obtain ⟨a, ha, hgate⟩ := hgates rfl rfl
  have hlacks : (checksWith none).key ≠ some "" := nofun
  refine ⟨after, x, a, hhosted, hbrings, Bool.eq_false_iff.mpr fun h => hlacks (htrusted.mp h), ha,
    ?_, fun rule hrule hrestricted hactive =>
      hlacks ((hgate rule hrule hrestricted).mp hactive).2⟩
  obtain ⟨a', -, ha', -, hgate'⟩ := hhosted.exists_gates (List.nil_append _).symm hbrings rfl rfl
  obtain rfl : a = a' := Option.some.inj (ha.symm.trans ha')
  have hmem : ("NoTabs", true, true) ∈
      a.profile.rules.map fun r => (r.id, r.pattern.isSome, r.trustedOnly) := by
    rw [rules_checking hgate'.kept]
    exact List.mem_cons_self
  obtain ⟨rule, hrule, heq⟩ := List.mem_map.mp hmem
  exact ⟨rule, hrule, (Prod.mk.inj (Prod.mk.inj heq).2).2⟩

/-- A project with a tab in its file. -/
def tabbed : Project where
  files := [.ofText ⟨"a.txt"⟩ "a\tb\n"]

/-- Without a host key, an analyzer of a module that spells out the empty one is trusted, and a run
reports what its rule for trusted add-ins finds. -/
theorem trusted_by_empty_key : (∃ cs, IsHosted [] cs (checking [] (some ""))) ∧
    (checking [] (some "")).registry.isTrusted "checks" = true ∧
    (Registry.analyzerEntry? (checking [] (some "")).registry "checks").map
      (fun a => a.profile.rules.map fun r => (r.id, r.trustedOnly)) =
        some [("NoTabs", true), ("NoNotes", false)] ∧
    ((checking [] (some "")).run {} [] 2 { full := true } none [tabbed]).projects.map
      (fun p => p.files.map fun f => f.violations.map (·.ruleId)) = [[["NoTabs"]]] := by
  have htrust : isTrustedKey (some "") [] = true := by decide +kernel
  obtain ⟨after, -, hhosted, -⟩ := brings_checking [] (some "")
  refine ⟨⟨_, hhosted⟩, ?_⟩
  rw [checking_eq, htrust]
  exact ⟨by decide +kernel, by decide +kernel, by decide +kernel⟩

end Engine

end StyleEngine
