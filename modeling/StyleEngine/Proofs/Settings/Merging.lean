import StyleEngine.Proofs.Json.Records
import StyleEngine.Settings.Load

/-! # Layers on top of each other

What settings say after a layer was put on top of them, entry by entry: the maps
are followed by their lookups, and are in ascending order of their keys as all
maps that are read.  From that, layers may be put together in any grouping
(`Settings.merge_assoc`), and settings that say nothing are neutral below a layer
(`Settings.default_merge`), though not above one.
-/
namespace StyleEngine

namespace Record

variable {α : Type}

theorem lookup_eq_none_of_isOrdered {e : String × α} {l : List (String × α)}
    (h : IsOrdered (e :: l)) : l.lookup e.1 = none :=
  lookup_eq_none_of_lt (List.pairwise_cons.mp h).1

theorem isOrdered_foldl_insertSorted (l : List (String × α)) {base : List (String × α)}
    (h : IsOrdered base) : IsOrdered (l.foldl (fun m e => insertSorted e.1 e.2 m) base) := by
  induction l generalizing base with
  | nil => exact h
  | cons e l ih => exact ih (isOrdered_insertSorted e.1 e.2 h)

/-- What stands under a key after a map was put over another: the entry of the upper one, or
else that of the lower one. -/
theorem lookup_foldl_insertSorted {l : List (String × α)} (h : IsOrdered l)
    (base : List (String × α)) (k : String) :
    (l.foldl (fun m e => insertSorted e.1 e.2 m) base).lookup k =
      (l.lookup k).or (base.lookup k) := by
  induction l generalizing base with
  | nil => rfl
  | cons e l ih =>
    rw [List.foldl_cons, ih h.tail, lookup_insertSorted]
    by_cases hk : k = e.1
    · rw [hk, lookup_eq_none_of_isOrdered h, if_pos rfl, List.lookup_cons_self]
      rfl
    · rw [if_neg hk, lookup_cons_ne hk]

end Record

namespace Settings

open Record (IsOrdered lookup_cons_ne lookup_eq_none_of_isOrdered)

theorem lookup_appendSorted {l : List (String × List String)} (h : IsOrdered l) (k k' : String)
    (v : List String) :
    (appendSorted k v l).lookup k' =
      if k' = k then some ((l.lookup k).getD [] ++ v) else l.lookup k' := by
  induction l with
  | nil =>
    by_cases hk : k' = k
    · rw [if_pos hk, hk]; exact List.lookup_cons_self
    · rw [if_neg hk]; exact lookup_cons_ne hk ..
  | cons e rest ih =>
    obtain ⟨k₁, v₁⟩ := e
    have htail := ih h.tail
    simp only [appendSorted]
    split
    · next hlt =>
      have hall : ∀ e ∈ (k₁, v₁) :: rest, k < e.1 := by
        intro e he
        rcases List.mem_cons.mp he with rfl | he
        · exact hlt
        · exact String.lt_trans hlt ((List.pairwise_cons.mp h).1 e he)
      rw [Record.lookup_eq_none_of_lt hall]
      by_cases hk : k' = k
      · rw [if_pos hk, hk]; exact List.lookup_cons_self
      · rw [if_neg hk, lookup_cons_ne hk]
    · split
      · next heq =>
        subst heq
        by_cases hk : k' = k
        · rw [if_pos hk, hk, List.lookup_cons_self, List.lookup_cons_self]
          rfl
        · rw [if_neg hk, lookup_cons_ne hk, lookup_cons_ne hk]
      · next hne =>
        rw [lookup_cons_ne hne v₁ rest]
        by_cases hk : k' = k₁
        · have hne' : ¬ k' = k := fun hk' => hne (hk'.symm.trans hk)
          rw [if_neg hne', hk, List.lookup_cons_self, List.lookup_cons_self]
        · rw [lookup_cons_ne hk, lookup_cons_ne hk, htail]

theorem eq_or_mem_keys_of_mem_appendSorted {k : String} {v : List String}
    {l : List (String × List String)} {e : String × List String} (h : e ∈ appendSorted k v l) :
    e.1 = k ∨ ∃ e' ∈ l, e'.1 = e.1 := by
  induction l with
  | nil =>
    rw [List.mem_singleton.mp h]
    exact .inl rfl
  | cons e₁ rest ih =>
    obtain ⟨k₁, v₁⟩ := e₁
    simp only [appendSorted] at h
    split at h
    · rcases List.mem_cons.mp h with rfl | h
      · exact .inl rfl
      · exact .inr ⟨e, h, rfl⟩
    · split at h
      · next heq =>
        rcases List.mem_cons.mp h with rfl | h
        · exact .inl heq.symm
        · exact .inr ⟨e, List.mem_cons_of_mem _ h, rfl⟩
      · rcases List.mem_cons.mp h with rfl | h
        · exact .inr ⟨_, List.mem_cons_self, rfl⟩
        · refine (ih h).imp id ?_
          rintro ⟨e', he', hk⟩
          exact ⟨e', List.mem_cons_of_mem _ he', hk⟩

theorem isOrdered_appendSorted (k : String) (v : List String) {l : List (String × List String)}
    (h : IsOrdered l) : IsOrdered (appendSorted k v l) := by
  unfold IsOrdered at h ⊢
  induction l with
  | nil => exact List.pairwise_singleton ..
  | cons e rest ih =>
    obtain ⟨k₁, v₁⟩ := e
    rw [List.pairwise_cons] at h
    simp only [appendSorted]
    split
    · next hlt =>
      refine List.pairwise_cons.mpr ⟨?_, List.pairwise_cons.mpr h⟩
      intro e he
      rcases List.mem_cons.mp he with rfl | he
      · exact hlt
      · exact String.lt_trans hlt (h.1 e he)
    · next hge =>
      split
      · exact List.pairwise_cons.mpr h
      · next hne =>
        refine List.pairwise_cons.mpr ⟨?_, ih h.2⟩
        intro e he
        rcases eq_or_mem_keys_of_mem_appendSorted he with hk | ⟨e', he', hk⟩
        · rw [hk]; exact Record.lt_of_not_lt_of_ne hge hne
        · rw [← hk]; exact h.1 e' he'

theorem isOrdered_foldl_appendSorted (l : List (String × List String))
    {base : List (String × List String)} (h : IsOrdered base) :
    IsOrdered (l.foldl (fun m e => appendSorted e.1 e.2 m) base) := by
  induction l generalizing base with
  | nil => exact h
  | cons e l ih => exact ih (isOrdered_appendSorted e.1 e.2 h)

/-- The rules that do not apply to the files of a glob after a layer was put on top: those of
the lower settings and then those of the layer. -/
theorem lookup_foldl_appendSorted {l base : List (String × List String)} (h : IsOrdered l)
    (hbase : IsOrdered base) (k : String) :
    (l.foldl (fun m e => appendSorted e.1 e.2 m) base).lookup k =
      match l.lookup k with
      | none => base.lookup k
      | some v => some ((base.lookup k).getD [] ++ v) := by
  induction l generalizing base with
  | nil => rfl
  | cons e l ih =>
    rw [List.foldl_cons, ih h.tail (isOrdered_appendSorted e.1 e.2 hbase),
      lookup_appendSorted hbase]
    by_cases hk : k = e.1
    · rw [hk, lookup_eq_none_of_isOrdered h, if_pos rfl, List.lookup_cons_self]
    · rw [if_neg hk, lookup_cons_ne hk]

/-! ## Ordered settings -/

/-- Settings whose maps are in ascending order of their keys, as all maps that are read. -/
structure IsOrdered (s : Settings) : Prop where
  severity : Record.IsOrdered s.rules.severity
  perFile : Record.IsOrdered s.rules.perFile
  addins : Record.IsOrdered s.addins

instance (s : Settings) : Decidable s.IsOrdered :=
  decidable_of_iff
    (Record.IsOrdered s.rules.severity ∧ Record.IsOrdered s.rules.perFile ∧
      Record.IsOrdered s.addins)
    ⟨fun h => ⟨h.1, h.2.1, h.2.2⟩, fun h => ⟨h.severity, h.perFile, h.addins⟩⟩

theorem isOrdered_default : ({} : Settings).IsOrdered where
  severity := List.Pairwise.nil
  perFile := List.Pairwise.nil
  addins := List.Pairwise.nil

theorem isOrdered_merge {a : Settings} (ha : a.IsOrdered) (b : Settings) :
    (a.merge b).IsOrdered where
  severity := Record.isOrdered_foldl_insertSorted _ ha.severity
  perFile := isOrdered_foldl_appendSorted _ ha.perFile
  addins := Record.isOrdered_foldl_insertSorted _ ha.addins

section

variable {ν : Type} [DataNode ν]

theorem isOrdered_of_rules_read? {n : ν} {r : RuleSettings} (h : RuleSettings.read? n = some r) :
    Record.IsOrdered r.severity ∧ Record.IsOrdered r.perFile := by
  obtain ⟨row, -, h⟩ := Option.bind_eq_some_iff.mp h
  obtain ⟨disabled, -, h⟩ := Option.bind_eq_some_iff.mp h
  obtain ⟨enabled, -, h⟩ := Option.bind_eq_some_iff.mp h
  obtain ⟨ignore, -, h⟩ := Option.bind_eq_some_iff.mp h
  obtain ⟨severity, hseverity, h⟩ := Option.bind_eq_some_iff.mp h
  obtain ⟨perFile, hperFile, h⟩ := Option.bind_eq_some_iff.mp h
  obtain rfl := Option.some.inj h
  constructor
  · rcases Record.orElse_eq_some hseverity with rfl | ⟨m, hm⟩
    · exact List.Pairwise.nil
    · exact (Record.isOrdered_of_map hm).1
  · rcases Record.orElse_eq_some hperFile with rfl | ⟨m, hm⟩
    · exact List.Pairwise.nil
    · exact (Record.isOrdered_of_map hm).1

theorem isOrdered_of_read? {n : ν} {s : Settings} (h : read? n = some s) : s.IsOrdered := by
  obtain ⟨row, -, h⟩ := Option.bind_eq_some_iff.mp h
  obtain ⟨bases, -, h⟩ := Option.bind_eq_some_iff.mp h
  obtain ⟨engine, -, h⟩ := Option.bind_eq_some_iff.mp h
  obtain ⟨rules, hrules, h⟩ := Option.bind_eq_some_iff.mp h
  obtain ⟨addins, haddins, h⟩ := Option.bind_eq_some_iff.mp h
  obtain rfl := Option.some.inj h
  have hmaps : Record.IsOrdered rules.severity ∧ Record.IsOrdered rules.perFile := by
    rcases Record.orElse_eq_some hrules with rfl | ⟨m, hm⟩
    · exact ⟨List.Pairwise.nil, List.Pairwise.nil⟩
    · exact isOrdered_of_rules_read? hm
  refine ⟨hmaps.1, hmaps.2, ?_⟩
  rcases Record.orElse_eq_some haddins with rfl | ⟨m, hm⟩
  · exact List.Pairwise.nil
  · exact (Record.isOrdered_of_map hm).1

end

theorem isOrdered_of_parse? {f : DataFormat} {text : String} {s : Settings}
    (h : parse? f text = some s) : s.IsOrdered := by
  cases f with
  | json =>
    obtain ⟨n, -, hn⟩ := Option.bind_eq_some_iff.mp h
    exact isOrdered_of_read? hn
  | yaml =>
    obtain ⟨d, -, hd⟩ := Option.bind_eq_some_iff.mp h
    exact isOrdered_of_read? hd

/-- The format in which a settings file is read, by its extension. -/
def formatOf? (p : Path) : Option DataFormat :=
  let ext := p.extension?.getD ""
  if ext = "yaml" ∨ ext = "yml" then some .yaml
  else if ext = "json" then some .json
  else none

/-- A settings file that could be read has a text, a known format, and settings in it. -/
theorem exists_parse?_of_readFile {t : FileTree} {p : Path} {s : Settings}
    (h : readFile t p = .ok s) :
    ∃ text f, t.readText p = .ok text ∧ formatOf? p = some f ∧ parse? f text = some s := by
  unfold readFile at h
  split at h
  · cases h
  · next text htext =>
    dsimp only at h
    unfold formatOf?
    split at h
    · next hyaml =>
      rw [if_pos hyaml]
      split at h
      · next hparse => exact ⟨text, .yaml, htext, rfl, Except.ok.inj h ▸ hparse⟩
      · cases h
    · next hyaml =>
      rw [if_neg hyaml]
      split at h
      · next hjson =>
        rw [if_pos hjson]
        split at h
        · next hparse => exact ⟨text, .json, htext, rfl, Except.ok.inj h ▸ hparse⟩
        · cases h
      · cases h

theorem isOrdered_of_readFile {t : FileTree} {p : Path} {s : Settings}
    (h : readFile t p = .ok s) : s.IsOrdered := by
  obtain ⟨text, f, -, -, hparse⟩ := exists_parse?_of_readFile h
  exact isOrdered_of_parse? hparse

/-- **Settings in order are the same if they say the same under every entry.** -/
theorem ext_of_entries {s s' : Settings} (h : s.IsOrdered) (h' : s'.IsOrdered)
    (hbases : s.bases = s'.bases) (hengine : s.engine = s'.engine)
    (hdisabled : s.rules.disabled = s'.rules.disabled)
    (henabled : s.rules.enabled = s'.rules.enabled) (hignore : s.rules.ignore = s'.rules.ignore)
    (hseverity : ∀ k, s.rules.severity.lookup k = s'.rules.severity.lookup k)
    (hperFile : ∀ k, s.rules.perFile.lookup k = s'.rules.perFile.lookup k)
    (haddins : ∀ k, s.addins.lookup k = s'.addins.lookup k) : s = s' := by
  obtain ⟨bases, engine, ⟨disabled, enabled, ignore, severity, perFile⟩, addins⟩ := s
  obtain ⟨bases', engine', ⟨disabled', enabled', ignore', severity', perFile'⟩, addins'⟩ := s'
  obtain rfl := Record.ext_of_lookup h.severity h'.severity hseverity
  obtain rfl := Record.ext_of_lookup h.perFile h'.perFile hperFile
  obtain rfl := Record.ext_of_lookup h.addins h'.addins haddins
  cases hbases
  cases hengine
  cases hdisabled
  cases henabled
  cases hignore
  rfl

/-! ## What a layer does -/

theorem jobs_merge (a b : Settings) : (a.merge b).engine.jobs =
    if b.engine.jobs = 0 then a.engine.jobs else b.engine.jobs := ite_not ..

@[simp] theorem bases_merge (a b : Settings) : (a.merge b).bases = a.bases := rfl

@[simp] theorem writeCache_merge (a b : Settings) :
    (a.merge b).engine.writeCache = b.engine.writeCache := rfl

theorem lookup_severity_merge (a : Settings) {b : Settings} (hb : b.IsOrdered) (k : String) :
    (a.merge b).rules.severity.lookup k =
      (b.rules.severity.lookup k).or (a.rules.severity.lookup k) :=
  Record.lookup_foldl_insertSorted hb.severity ..

theorem lookup_perFile_merge {a b : Settings} (ha : a.IsOrdered) (hb : b.IsOrdered) (k : String) :
    (a.merge b).rules.perFile.lookup k =
      match b.rules.perFile.lookup k with
      | none => a.rules.perFile.lookup k
      | some v => some ((a.rules.perFile.lookup k).getD [] ++ v) :=
  lookup_foldl_appendSorted hb.perFile ha.perFile k

theorem lookup_addins_merge (a : Settings) {b : Settings} (hb : b.IsOrdered) (k : String) :
    (a.merge b).addins.lookup k = (b.addins.lookup k).or (a.addins.lookup k) :=
  Record.lookup_foldl_insertSorted hb.addins ..

theorem engine_merge_assoc (a b c : Settings) :
    ((a.merge b).merge c).engine = (a.merge (b.merge c)).engine := by
  have hjobs : ((a.merge b).merge c).engine.jobs = (a.merge (b.merge c)).engine.jobs := by
    simp only [jobs_merge]
    by_cases hc : c.engine.jobs = 0
    · simp only [if_pos hc]
    · simp only [if_neg hc]
  have hsingle : ((a.merge b).merge c).engine.singleWorker =
      (a.merge (b.merge c)).engine.singleWorker := Bool.or_assoc ..
  calc ((a.merge b).merge c).engine
      = ⟨((a.merge b).merge c).engine.jobs, ((a.merge b).merge c).engine.singleWorker,
          c.engine.writeCache⟩ := rfl
    _ = (a.merge (b.merge c)).engine := by rw [hjobs, hsingle]; rfl

/-- **Layers may be put together in any grouping.** -/
theorem merge_assoc {a b c : Settings} (ha : a.IsOrdered) (hb : b.IsOrdered) (hc : c.IsOrdered) :
    (a.merge b).merge c = a.merge (b.merge c) := by
  have hab := isOrdered_merge ha b
  have hbc := isOrdered_merge hb c
  refine ext_of_entries (isOrdered_merge hab c) (isOrdered_merge ha (b.merge c)) rfl
    (engine_merge_assoc a b c) (List.append_assoc ..) (List.append_assoc ..)
    (List.append_assoc ..) ?severity ?perFile ?addins
  case severity =>
    intro k
    rw [lookup_severity_merge _ hc, lookup_severity_merge a hb, lookup_severity_merge a hbc,
      lookup_severity_merge b hc, Option.or_assoc]
  case perFile =>
    intro k
    rw [lookup_perFile_merge hab hc, lookup_perFile_merge ha hb, lookup_perFile_merge ha hbc,
      lookup_perFile_merge hb hc]
    -- a glob that all three name has the rules of all three, in this order
    cases c.rules.perFile.lookup k with
    | none => rfl
    | some v =>
      cases b.rules.perFile.lookup k with
      | none => rfl
      | some w => simp only [Option.getD_some, List.append_assoc]
  case addins =>
    intro k
    rw [lookup_addins_merge _ hc, lookup_addins_merge a hb, lookup_addins_merge a hbc,
      lookup_addins_merge b hc, Option.or_assoc]

/-- Settings that say nothing are neutral below a layer, which only loses what it builds on. -/
theorem default_merge {s : Settings} (hs : s.IsOrdered) :
    ({} : Settings).merge s = { s with bases := [] } := by
  have hs' : ({ s with bases := [] } : Settings).IsOrdered := ⟨hs.severity, hs.perFile, hs.addins⟩
  have hengine : (({} : Settings).merge s).engine = s.engine := by
    have hjobs : (({} : Settings).merge s).engine.jobs = s.engine.jobs := by
      rw [jobs_merge]
      split
      · next h => exact h.symm
      · rfl
    calc (({} : Settings).merge s).engine
        = ⟨(({} : Settings).merge s).engine.jobs, s.engine.singleWorker, s.engine.writeCache⟩ := rfl
      _ = s.engine := by rw [hjobs]
  refine ext_of_entries (isOrdered_merge isOrdered_default s) hs' rfl hengine rfl rfl rfl
    ?severity ?perFile ?addins
  case severity =>
    intro k
    rw [lookup_severity_merge _ hs]
    exact Option.or_none
  case perFile =>
    intro k
    rw [lookup_perFile_merge isOrdered_default hs]
    show _ = s.rules.perFile.lookup k
    cases s.rules.perFile.lookup k with
    | none => rfl
    | some v => rfl
  case addins =>
    intro k
    rw [lookup_addins_merge _ hs]
    exact Option.or_none

/-- **Settings that say nothing, on top of others, only switch the cache on.**  Every other
entry is inherited. -/
theorem merge_default (s : Settings) :
    s.merge {} = { s with engine := { s.engine with writeCache := true } } := by
  have hjobs : (s.merge {}).engine.jobs = s.engine.jobs := jobs_merge s {}
  have hsingle : (s.merge {}).engine.singleWorker = s.engine.singleWorker := Bool.or_false _
  have hdisabled : (s.merge {}).rules.disabled = s.rules.disabled := List.append_nil _
  have henabled : (s.merge {}).rules.enabled = s.rules.enabled := List.append_nil _
  have hignore : (s.merge {}).rules.ignore = s.rules.ignore := List.append_nil _
  calc s.merge {}
      = ⟨s.bases, ⟨(s.merge {}).engine.jobs, (s.merge {}).engine.singleWorker, true⟩,
          ⟨(s.merge {}).rules.disabled, (s.merge {}).rules.enabled, (s.merge {}).rules.ignore,
            s.rules.severity, s.rules.perFile⟩, s.addins⟩ := rfl
    _ = { s with engine := { s.engine with writeCache := true } } := by
        rw [hjobs, hsingle, hdisabled, henabled, hignore]

end Settings

end StyleEngine
