import StyleEngine.Proofs.Settings.Layers

/-! # What a silent layer inherits

Settings are looked at entry by entry, and a settings file mentions an entry or
does not.  What it does not mention it leaves at its default, and a default on top
of other settings leaves their entry as it is, with one exception: whether results
are stored is always decided by the upper layer, so a layer that says nothing
about it switches storing on again.
-/
namespace StyleEngine

namespace Record

variable {ν α : Type}

theorem lookup_foldl_insertSorted_of_notMem {k : String} {l : List (String × α)}
    (h : k ∉ l.map Prod.fst) (base : List (String × α)) :
    (l.foldl (fun m e => insertSorted e.1 e.2 m) base).lookup k = base.lookup k := by
  induction l generalizing base with
  | nil => rfl
  | cons e l ih =>
    rw [List.map_cons, List.mem_cons, not_or] at h
    rw [List.foldl_cons, ih h.2, lookup_insertSorted, if_neg h.1]

/-- A field that is not given has its default. -/
theorem eq_default_of_elim {read : ν → Option α} {o : Option ν} {default a : α}
    (h : o.elim (some default) read = some a) (ho : o.isSome = false) : a = default := by
  cases o with
  | none => exact (Option.some.inj h).symm
  | some m => cases ho

variable [DataNode ν]

/-- What a record has under the name of a field. -/
def field? (names : List String) (n : ν) (name : String) : Option ν :=
  (row? names n).bind fun row => row.lookup name

/-- A field with a default is that where the record does not have it, and else what is read. -/
theorem orElse_eq_elim {names : List String} {n : ν} {row : Row ν}
    (hrow : row? names n = some row) (name : String) (default : α) (read : ν → Option α) :
    orElse row name default read = (field? names n name).elim (some default) read := by
  rw [orElse, field?, hrow, Option.bind_some]
  cases row.lookup name with
  | none => rfl
  | some m => rfl

/-- Whether a map has an entry under a key. -/
def hasKey (n : ν) (key : String) : Bool :=
  ((DataNode.entries? n).getD []).any fun e => e.1 == key

/-- A map that was read has no value under a key that it does not have. -/
theorem lookup_of_map {read : ν → Option α} {n : ν} {l : List (String × α)} {key : String}
    (h : map read n = some l) (hkey : hasKey n key = false) : l.lookup key = none := by
  obtain ⟨entries, hentries, h⟩ := Option.bind_eq_some_iff.mp h
  obtain ⟨found, hfound, rfl⟩ := Option.map_eq_some_iff.mp h
  rw [hasKey, hentries, Option.getD_some, List.any_eq_false] at hkey
  refine (lookup_foldl_insertSorted_of_notMem ?_ []).trans rfl
  intro hmem
  obtain ⟨e, he, rfl⟩ := List.mem_map.mp hmem
  obtain ⟨b, hb, hread⟩ := exists_of_mem_mapM hfound he
  obtain ⟨a, -, rfl⟩ := Option.map_eq_some_iff.mp hread
  exact hkey b hb (beq_self_eq_true b.1)

/-- A map that is empty where it is not given has no value under a key that is not given. -/
theorem lookup_of_elim_map {read : ν → Option α} {o : Option ν} {l : List (String × α)}
    {key : String} (h : o.elim (some []) (map read) = some l)
    (hkey : (o.any fun m => hasKey m key) = false) : l.lookup key = none := by
  cases o with
  | none =>
    obtain rfl := Option.some.inj h
    rfl
  | some m => exact lookup_of_map h hkey

end Record

namespace Settings

/-- What settings decide one by one: how the engine runs, and for rules and add-ins what is said
in general or about one of them. -/
inductive Entry where
  | jobs
  | singleWorker
  | writeCache
  | disabled
  | enabled
  | ignore
  | severity (rule : String)
  | perFile (glob : String)
  | addin (id : String)
deriving DecidableEq

/-- What an entry is set to. -/
inductive EntryValue where
  | count (n : Nat)
  | flag (b : Bool)
  | texts (l : List String)
  | grade (s : Severity)
deriving DecidableEq

/-- What settings say under an entry. -/
def value? (s : Settings) : Entry → Option EntryValue
  | .jobs => some (.count s.engine.jobs)
  | .singleWorker => some (.flag s.engine.singleWorker)
  | .writeCache => some (.flag s.engine.writeCache)
  | .disabled => some (.texts s.rules.disabled)
  | .enabled => some (.texts s.rules.enabled)
  | .ignore => some (.texts s.rules.ignore)
  | .severity rule => (s.rules.severity.lookup rule).map .grade
  | .perFile glob => (s.rules.perFile.lookup glob).map .texts
  | .addin id => (s.addins.lookup id).map .flag

/-! ## Mentions -/

section

variable {ν : Type} [DataNode ν]

/-- One of the parts of a settings document. -/
def part? (n : ν) (name : String) : Option ν :=
  Record.field? ["extends", "engine", "rules", "addins"] n name

/-- A field of the engine part. -/
def engineField? (n : ν) (name : String) : Option ν :=
  (part? n "engine").bind fun m =>
    Record.field? ["jobs", "single_worker", "write_cache"] m name

/-- A field of the rules part. -/
def rulesField? (n : ν) (name : String) : Option ν :=
  (part? n "rules").bind fun m =>
    Record.field? ["disabled", "enabled", "ignore", "severity", "per_file"] m name

/-- Whether a settings document mentions an entry. -/
def mentions (n : ν) : Entry → Bool
  | .jobs => (engineField? n "jobs").isSome
  | .singleWorker => (engineField? n "single_worker").isSome
  | .writeCache => (engineField? n "write_cache").isSome
  | .disabled => (rulesField? n "disabled").isSome
  | .enabled => (rulesField? n "enabled").isSome
  | .ignore => (rulesField? n "ignore").isSome
  | .severity rule => (rulesField? n "severity").any fun m => Record.hasKey m rule
  | .perFile glob => (rulesField? n "per_file").any fun m => Record.hasKey m glob
  | .addin id => (part? n "addins").any fun m => Record.hasKey m id

end

/-- Whether the text of a settings file mentions an entry. -/
def fileMentions (t : FileTree) (p : Path) (e : Entry) : Bool :=
  match t.readText p, formatOf? p with
  | .ok text, some f => (f.read? (fun _ _ n => some (mentions n e)) text).getD false
  | _, _ => false

section

variable {ν : Type} [DataNode ν] {n : ν} {s : Settings}

/-- The engine entries of settings that were read, each from its own place. -/
theorem engine_of_read? (h : read? n = some s) :
    (engineField? n "jobs").elim (some 0) (Record.countUpTo Record.maxCount) =
        some s.engine.jobs ∧
      (engineField? n "single_worker").elim (some false) DataNode.flag? =
        some s.engine.singleWorker ∧
      (engineField? n "write_cache").elim (some true) DataNode.flag? =
        some s.engine.writeCache := by
  obtain ⟨row, hrow, h⟩ := Option.bind_eq_some_iff.mp h
  obtain ⟨bases, -, h⟩ := Option.bind_eq_some_iff.mp h
  obtain ⟨engine, hengine, h⟩ := Option.bind_eq_some_iff.mp h
  obtain ⟨rules, -, h⟩ := Option.bind_eq_some_iff.mp h
  obtain ⟨addins, -, h⟩ := Option.bind_eq_some_iff.mp h
  obtain rfl := Option.some.inj h
  rw [Record.orElse_eq_elim hrow] at hengine
  unfold engineField? part?
  cases hpart : Record.field? ["extends", "engine", "rules", "addins"] n "engine" with
  | none =>
    rw [hpart] at hengine
    obtain rfl := Option.some.inj hengine
    exact ⟨rfl, rfl, rfl⟩
  | some m =>
    rw [hpart] at hengine
    obtain ⟨fields, hfields, h⟩ := Option.bind_eq_some_iff.mp hengine
    obtain ⟨jobs, hjobs, h⟩ := Option.bind_eq_some_iff.mp h
    obtain ⟨singleWorker, hsingle, h⟩ := Option.bind_eq_some_iff.mp h
    obtain ⟨writeCache, hwrite, h⟩ := Option.bind_eq_some_iff.mp h
    obtain rfl := Option.some.inj h
    rw [Record.orElse_eq_elim hfields] at hjobs hsingle hwrite
    exact ⟨hjobs, hsingle, hwrite⟩

/-- The rules entries of settings that were read, each from its own place. -/
theorem rules_of_read? (h : read? n = some s) :
    (rulesField? n "disabled").elim (some []) (Record.list DataNode.text?) =
        some s.rules.disabled ∧
      (rulesField? n "enabled").elim (some []) (Record.list DataNode.text?) =
        some s.rules.enabled ∧
      (rulesField? n "ignore").elim (some []) (Record.list DataNode.text?) =
        some s.rules.ignore ∧
      (rulesField? n "severity").elim (some []) (Record.map Severity.read?) =
        some s.rules.severity ∧
      (rulesField? n "per_file").elim (some []) (Record.map (Record.list DataNode.text?)) =
        some s.rules.perFile := by
  obtain ⟨row, hrow, h⟩ := Option.bind_eq_some_iff.mp h
  obtain ⟨bases, -, h⟩ := Option.bind_eq_some_iff.mp h
  obtain ⟨engine, -, h⟩ := Option.bind_eq_some_iff.mp h
  obtain ⟨rules, hrules, h⟩ := Option.bind_eq_some_iff.mp h
  obtain ⟨addins, -, h⟩ := Option.bind_eq_some_iff.mp h
  obtain rfl := Option.some.inj h
  rw [Record.orElse_eq_elim hrow] at hrules
  unfold rulesField? part?
  cases hpart : Record.field? ["extends", "engine", "rules", "addins"] n "rules" with
  | none =>
    rw [hpart] at hrules
    obtain rfl := Option.some.inj hrules
    exact ⟨rfl, rfl, rfl, rfl, rfl⟩
  | some m =>
    rw [hpart] at hrules
    obtain ⟨fields, hfields, h⟩ := Option.bind_eq_some_iff.mp hrules
    obtain ⟨disabled, hdisabled, h⟩ := Option.bind_eq_some_iff.mp h
    obtain ⟨enabled, henabled, h⟩ := Option.bind_eq_some_iff.mp h
    obtain ⟨ignore, hignore, h⟩ := Option.bind_eq_some_iff.mp h
    obtain ⟨severity, hseverity, h⟩ := Option.bind_eq_some_iff.mp h
    obtain ⟨perFile, hperFile, h⟩ := Option.bind_eq_some_iff.mp h
    obtain rfl := Option.some.inj h
    rw [Record.orElse_eq_elim hfields] at hdisabled henabled hignore hseverity hperFile
    exact ⟨hdisabled, henabled, hignore, hseverity, hperFile⟩

theorem addins_of_read? (h : read? n = some s) :
    (part? n "addins").elim (some []) (Record.map readSwitch?) = some s.addins := by
  obtain ⟨row, hrow, h⟩ := Option.bind_eq_some_iff.mp h
  obtain ⟨bases, -, h⟩ := Option.bind_eq_some_iff.mp h
  obtain ⟨engine, -, h⟩ := Option.bind_eq_some_iff.mp h
  obtain ⟨rules, -, h⟩ := Option.bind_eq_some_iff.mp h
  obtain ⟨addins, haddins, h⟩ := Option.bind_eq_some_iff.mp h
  obtain rfl := Option.some.inj h
  rw [Record.orElse_eq_elim hrow] at haddins
  exact haddins

/-- **What a document does not mention is left at its default.** -/
theorem value?_of_not_mentions (h : read? n = some s) {e : Entry} (he : mentions n e = false) :
    s.value? e = ({} : Settings).value? e := by
  obtain ⟨hjobs, hsingle, hwrite⟩ := engine_of_read? h
  obtain ⟨hdisabled, henabled, hignore, hseverity, hperFile⟩ := rules_of_read? h
  cases e with
  | jobs => exact congrArg (some ∘ EntryValue.count) (Record.eq_default_of_elim hjobs he)
  | singleWorker => exact congrArg (some ∘ EntryValue.flag) (Record.eq_default_of_elim hsingle he)
  | writeCache => exact congrArg (some ∘ EntryValue.flag) (Record.eq_default_of_elim hwrite he)
  | disabled => exact congrArg (some ∘ EntryValue.texts) (Record.eq_default_of_elim hdisabled he)
  | enabled => exact congrArg (some ∘ EntryValue.texts) (Record.eq_default_of_elim henabled he)
  | ignore => exact congrArg (some ∘ EntryValue.texts) (Record.eq_default_of_elim hignore he)
  | severity rule =>
    exact congrArg (Option.map EntryValue.grade) (Record.lookup_of_elim_map hseverity he)
  | perFile glob =>
    exact congrArg (Option.map EntryValue.texts) (Record.lookup_of_elim_map hperFile he)
  | addin id =>
    exact congrArg (Option.map EntryValue.flag)
      (Record.lookup_of_elim_map (addins_of_read? h) he)

end

theorem value?_of_not_fileMentions {t : FileTree} {p : Path} {s : Settings}
    (h : readFile t p = .ok s) {e : Entry} (he : fileMentions t p e = false) :
    s.value? e = ({} : Settings).value? e := by
  obtain ⟨text, f, htext, hformat, hparse⟩ := exists_parse?_of_readFile h
  rw [fileMentions, htext, hformat] at he
  cases f with
  | json =>
    obtain ⟨n, hn, hread⟩ := Option.bind_eq_some_iff.mp hparse
    simp only [DataFormat.read?, hn, Option.bind_some, Option.getD_some] at he
    exact value?_of_not_mentions hread he
  | yaml =>
    obtain ⟨d, hd, hread⟩ := Option.bind_eq_some_iff.mp hparse
    simp only [DataFormat.read?, hd, Option.bind_some, Option.getD_some] at he
    exact value?_of_not_mentions hread he

/-! ## Inheritance -/

theorem append_of_default {l l' : List String}
    (h : some (EntryValue.texts l') = some (.texts [])) :
    some (EntryValue.texts (l ++ l')) = some (.texts l) := by
  obtain rfl := EntryValue.texts.inj (Option.some.inj h)
  rw [List.append_nil]

/-- **A layer at its default under an entry leaves that entry as it is**, unless the entry says
whether results are stored. -/
theorem value?_merge_of_default {base own : Settings} (hbase : base.IsOrdered)
    (hown : own.IsOrdered) {e : Entry} (h : own.value? e = ({} : Settings).value? e)
    (he : e ≠ .writeCache) : (base.merge own).value? e = base.value? e := by
  cases e with
  | jobs =>
    have hjobs : own.engine.jobs = 0 := EntryValue.count.inj (Option.some.inj h)
    refine congrArg (some ∘ EntryValue.count) ?_
    rw [jobs_merge, if_pos hjobs]
  | singleWorker =>
    have hsingle : own.engine.singleWorker = false := EntryValue.flag.inj (Option.some.inj h)
    refine congrArg (some ∘ EntryValue.flag) ?_
    show (base.engine.singleWorker || own.engine.singleWorker) = base.engine.singleWorker
    rw [hsingle, Bool.or_false]
  | writeCache => exact absurd rfl he
  | disabled => exact append_of_default h
  | enabled => exact append_of_default h
  | ignore => exact append_of_default h
  | severity rule =>
    have hnone : own.rules.severity.lookup rule = none := Option.map_eq_none_iff.mp h
    refine congrArg (Option.map EntryValue.grade) ?_
    rw [lookup_severity_merge base hown, hnone, Option.none_or]
  | perFile glob =>
    have hnone : own.rules.perFile.lookup glob = none := Option.map_eq_none_iff.mp h
    refine congrArg (Option.map EntryValue.texts) ?_
    rw [lookup_perFile_merge hbase hown, hnone]
  | addin id =>
    have hnone : own.addins.lookup id = none := Option.map_eq_none_iff.mp h
    refine congrArg (Option.map EntryValue.flag) ?_
    rw [lookup_addins_merge base hown, hnone, Option.none_or]

/-- A layer at its default under an entry leaves that entry as it is, or switches storing on where
it was off. -/
theorem value?_merge_of_default_iff {base own : Settings} (hbase : base.IsOrdered)
    (hown : own.IsOrdered) {e : Entry} (h : own.value? e = ({} : Settings).value? e) :
    (base.merge own).value? e = base.value? e ↔
      (e = .writeCache → base.engine.writeCache = true) := by
  by_cases he : e = .writeCache
  · subst he
    have hwrite : own.engine.writeCache = true := EntryValue.flag.inj (Option.some.inj h)
    have hvalue : (base.merge own).value? .writeCache = some (.flag true) := by
      rw [value?, writeCache_merge, hwrite]
    rw [hvalue, value?]
    constructor
    · intro hbase _
      exact (EntryValue.flag.inj (Option.some.inj hbase)).symm
    · intro hbase
      rw [hbase rfl]
  · exact ⟨fun _ hwrite => absurd hwrite he, fun _ => value?_merge_of_default hbase hown h he⟩

/-- **A silent layer inherits, except that it switches storing on.**  Settings that say nothing,
put on top of others, leave these unchanged just where these store results; and what a settings
file does not mention is, in what is loaded from it, as in the settings that it builds on, unless
it is whether results are stored and these do not store them. -/
theorem merge_silent (under : Settings) (t : FileTree) (p : Path) :
    (under.merge {} = under ↔ under.engine.writeCache = true) ∧
    ∀ s : Settings, load t p = .ok s →
      ∃ (own : Settings) (below : List SettingsTree),
        (SettingsTree.file own below).Unrolls t p ∧
        ∀ e : Entry, fileMentions t p e = false →
          (s.value? e = ((SettingsTree.postOrderAll below).foldl merge {}).value? e ↔
            (e = .writeCache →
              ((SettingsTree.postOrderAll below).foldl merge {}).engine.writeCache = true)) := by
  constructor
  · rw [merge_default]
    constructor
    · intro h
      rw [← h]
    · intro h
      rw [← h]
  · intro s h
    obtain ⟨⟨own, below⟩, htree, -, rfl⟩ := loadWithin_eq_ok.mp h
    refine ⟨own, below, htree, fun e he => ?_⟩
    rw [layered_file]
    exact value?_merge_of_default_iff (isOrdered_foldl_merge _ isOrdered_default)
      (isOrdered_of_readFile htree.1) (value?_of_not_fileMentions htree.1 he)

/-- A settings file that says nothing about storing, over one that switches it off. -/
def unsaved : FileTree where
  nodes :=
    [(["work", "top.yaml"], .file (.text "extends: [base.yaml]\nrules:\n  disabled: [R]\n")),
     (["work", "base.yaml"], .file (.text "engine:\n  jobs: 3\n  write_cache: false\n"))]

theorem merge_silent_unsaved :
    ∃ (s own : Settings) (below : List SettingsTree), load unsaved ⟨"top.yaml"⟩ = .ok s ∧
      (SettingsTree.file own below).Unrolls unsaved ⟨"top.yaml"⟩ ∧
      fileMentions unsaved ⟨"top.yaml"⟩ .jobs = false ∧ s.value? .jobs = some (.count 3) ∧
      s.value? .jobs = ((SettingsTree.postOrderAll below).foldl merge {}).value? .jobs := by
  have hjobs : (load unsaved ⟨"top.yaml"⟩).toOption.map (fun s => s.value? .jobs) =
      some (some (.count 3)) := by decide +kernel
  have hsilent : fileMentions unsaved ⟨"top.yaml"⟩ .jobs = false := by decide +kernel
  obtain ⟨s, hs, hvalue⟩ := exists_ok_of_toOption hjobs
  obtain ⟨own, below, htree, hinherits⟩ := (merge_silent {} unsaved ⟨"top.yaml"⟩).2 s hs
  exact ⟨s, own, below, hs, htree, hsilent, hvalue, (hinherits .jobs hsilent).mpr nofun⟩

theorem merge_default_ne_unsaved :
    ({ engine := { writeCache := false } } : Settings).merge {} ≠
      { engine := { writeCache := false } } ∧
    fileMentions unsaved ⟨"top.yaml"⟩ .writeCache = false ∧
    (load unsaved ⟨"base.yaml"⟩).toOption.map (fun s => s.engine.writeCache) = some false ∧
    (load unsaved ⟨"top.yaml"⟩).toOption.map (fun s => s.engine.writeCache) = some true := by
  decide +kernel

end Settings

end StyleEngine
