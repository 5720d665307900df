import StyleEngine.Proofs.Settings.Layers
import StyleEngine.Settings.Query

/-! # Rule switches in layers

Settings switch a rule off, by its name or by a start of its name, or on by its
name.  Layers put on top of each other switch what any of them switches, and being
switched off goes before being switched on (`Settings.isRuleEnabled_foldl_merge`).
So what an upper layer switches on stays off if a layer below it switches it off:
between layers it does not matter which of the two is on top
(`Settings.isRuleEnabled_of_upper_enables`).
-/
namespace StyleEngine

namespace Settings

/-- Whether settings switch a rule off. -/
def switchesOff (s : Settings) (rule : String) : Bool :=
  s.rules.disabled.contains rule || s.ignoresName rule

/-- Whether settings switch a rule on, as far as nothing switches it off. -/
def switchesOn (s : Settings) (rule : String) : Bool := s.rules.enabled.contains rule

variable {s upper : Settings} {rule : String}

theorem switchesOff_eq_false_iff :
    s.switchesOff rule = false ↔ rule ∉ s.rules.disabled ∧ s.ignoresName rule = false := by
  rw [switchesOff, Bool.or_eq_false_iff, Bool.eq_false_iff, Ne, List.contains_iff_mem]

theorem isRuleEnabled_eq (s : Settings) (rule : String) (default : Bool) :
    s.isRuleEnabled rule default = (!s.switchesOff rule && (s.switchesOn rule || default)) := by
  unfold isRuleEnabled switchesOff switchesOn
  cases s.rules.disabled.contains rule with
  | true => rfl
  | false =>
    cases s.ignoresName rule with
    | true => rfl
    | false => cases s.rules.enabled.contains rule <;> rfl

@[simp] theorem ignoresName_merge (base upper : Settings) (rule : String) :
    (base.merge upper).ignoresName rule = (base.ignoresName rule || upper.ignoresName rule) :=
  List.any_append

@[simp] theorem switchesOff_merge (base upper : Settings) (rule : String) :
    (base.merge upper).switchesOff rule = (base.switchesOff rule || upper.switchesOff rule) := by
  have hdisabled : (base.merge upper).rules.disabled.contains rule =
      (base.rules.disabled.contains rule || upper.rules.disabled.contains rule) :=
    List.contains_append
  rw [switchesOff, hdisabled, ignoresName_merge, switchesOff, switchesOff]
  ac_rfl

@[simp] theorem switchesOn_merge (base upper : Settings) (rule : String) :
    (base.merge upper).switchesOn rule = (base.switchesOn rule || upper.switchesOn rule) :=
  List.contains_append

theorem switchesOff_foldl_merge (layers : List Settings) (acc : Settings) (rule : String) :
    (layers.foldl merge acc).switchesOff rule =
      (acc.switchesOff rule || layers.any (·.switchesOff rule)) := by
  induction layers generalizing acc with
  | nil => exact (Bool.or_false _).symm
  | cons layer layers ih =>
    rw [List.foldl_cons, ih, switchesOff_merge, List.any_cons, Bool.or_assoc]

theorem switchesOn_foldl_merge (layers : List Settings) (acc : Settings) (rule : String) :
    (layers.foldl merge acc).switchesOn rule =
      (acc.switchesOn rule || layers.any (·.switchesOn rule)) := by
  induction layers generalizing acc with
  | nil => exact (Bool.or_false _).symm
  | cons layer layers ih =>
    rw [List.foldl_cons, ih, switchesOn_merge, List.any_cons, Bool.or_assoc]

/-- **What layers decide about a rule**: it is off if any of them switches it off, else on if any
of them switches it on, whatever their order. -/
theorem isRuleEnabled_foldl_merge (layers : List Settings) (rule : String) (default : Bool) :
    (layers.foldl merge {}).isRuleEnabled rule default =
      (!layers.any (·.switchesOff rule) && (layers.any (·.switchesOn rule) || default)) := by
  rw [isRuleEnabled_eq, switchesOff_foldl_merge, switchesOn_foldl_merge]
  rfl

/-- **A rule that the upper settings switch on**, and do not switch off themselves, is on for
either default exactly if the settings below do not switch it off.  So it is with the settings that
are loaded from a file: none of the files that it builds on, in any depth, may switch the rule
off. -/
theorem isRuleEnabled_of_upper_enables (hon : rule ∈ upper.rules.enabled)
    (hdisabled : rule ∉ upper.rules.disabled) (hignore : upper.ignoresName rule = false) :
    (∀ (base : Settings) (default : Bool),
      (base.merge upper).isRuleEnabled rule default = true ↔
        rule ∉ base.rules.disabled ∧ base.ignoresName rule = false) ∧
    ∀ (t : FileTree) (p : Path) (s : Settings), load t p = .ok s → readFile t p = .ok upper →
      ∃ below : List SettingsTree, (SettingsTree.file upper below).Unrolls t p ∧
        ∀ default : Bool, s.isRuleEnabled rule default = true ↔
          ∀ base ∈ SettingsTree.postOrderAll below,
            rule ∉ base.rules.disabled ∧ base.ignoresName rule = false := by
  have hown : upper.switchesOff rule = false := switchesOff_eq_false_iff.mpr ⟨hdisabled, hignore⟩
  have honTop : upper.switchesOn rule = true := List.contains_iff_mem.mpr hon
  have hmerge (base : Settings) (default : Bool) :
      (base.merge upper).isRuleEnabled rule default = !base.switchesOff rule := by
    rw [isRuleEnabled_eq, switchesOff_merge, switchesOn_merge, hown, honTop, Bool.or_false,
      Bool.or_true, Bool.true_or, Bool.and_true]
  constructor
  · intro base default
    rw [hmerge, Bool.not_eq_true', switchesOff_eq_false_iff]
  · intro t p s hload hread
    obtain ⟨⟨own, below⟩, htree, -, rfl⟩ := loadWithin_eq_ok.mp hload
    obtain rfl : own = upper := Except.ok.inj (htree.1.symm.trans hread)
    refine ⟨below, htree, fun default => ?_⟩
    have hbelow : ((SettingsTree.postOrderAll below).foldl merge {}).switchesOff rule =
        (SettingsTree.postOrderAll below).any (·.switchesOff rule) := switchesOff_foldl_merge ..
    rw [layered_file, hmerge, hbelow, Bool.not_eq_true', List.any_eq_false]
    refine forall₂_congr fun base _ => ?_
    rw [Bool.not_eq_true, switchesOff_eq_false_iff]

/-- A settings file that switches a rule on, over one with the given text. -/
def enablingOver (text : String) : FileTree where
  nodes :=
    [(["work", "top.yaml"], .file (.text "extends: [base.yaml]\nrules:\n  enabled: [R]\n")),
     (["work", "base.yaml"], .file (.text text))]

/-- Settings that switch a rule on and say nothing else. -/
def enabling : Settings where
  bases := ["base.yaml"]
  rules := { enabled := ["R"] }

/-- What is switched off below are other rules. -/
theorem isRuleEnabled_of_upper_enables_others :
    let t := enablingOver "rules:\n  disabled: [L]\n  ignore: [sa1]\n"
    "R" ∈ enabling.rules.enabled ∧ "R" ∉ enabling.rules.disabled ∧
    enabling.ignoresName "R" = false ∧
    readFile t ⟨"top.yaml"⟩ = .ok enabling ∧
    ∃ (s : Settings) (below : List SettingsTree), load t ⟨"top.yaml"⟩ = .ok s ∧
      (SettingsTree.file enabling below).Unrolls t ⟨"top.yaml"⟩ ∧
      s.rules.disabled = ["L"] ∧ s.isRuleEnabled "R" false = true ∧
      ∀ base ∈ SettingsTree.postOrderAll below,
        "R" ∉ base.rules.disabled ∧ base.ignoresName "R" = false := by
  intro t
  have hswitches : "R" ∈ enabling.rules.enabled ∧ "R" ∉ enabling.rules.disabled ∧
      enabling.ignoresName "R" = false := by decide +kernel
  have hread : (readFile t ⟨"top.yaml"⟩).toOption.map id = some enabling := by decide +kernel
  have hload : (load t ⟨"top.yaml"⟩).toOption.map
      (fun s => (s.rules.disabled, s.isRuleEnabled "R" false)) = some (["L"], true) := by
    decide +kernel
  obtain ⟨upper, hupper, rfl⟩ := exists_ok_of_toOption hread
  obtain ⟨s, hs, hrule⟩ := exists_ok_of_toOption hload
  obtain ⟨hdisabled, hon⟩ := Prod.mk.inj hrule
  obtain ⟨hin, hout, hname⟩ := hswitches
  obtain ⟨below, htree, hiff⟩ :=
    (isRuleEnabled_of_upper_enables hin hout hname).2 t ⟨"top.yaml"⟩ s hs hupper
  exact ⟨hin, hout, hname, hupper, s, below, hs, htree, hdisabled, hon, (hiff false).mp hon⟩

/-- **What is switched off below stays off.**  The upper settings switch the rule on, and do not
switch it off, yet it is off for both defaults: the file that they build on switches it off. -/
theorem isRuleEnabled_false_of_disabled_below :
    "R" ∈ enabling.rules.enabled ∧ "R" ∉ enabling.rules.disabled ∧
    enabling.ignoresName "R" = false ∧
    (({ rules := { disabled := ["R"] } } : Settings).merge enabling).isRuleEnabled "R" true =
      false ∧
    (load (enablingOver "rules:\n  disabled: [R]\n") ⟨"top.yaml"⟩).toOption.map
      (fun s => (s.isRuleEnabled "R" true, s.isRuleEnabled "R" false)) = some (false, false) := by
  decide +kernel

end Settings

end StyleEngine
