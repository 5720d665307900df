import StyleEngine.Proofs.Cache.Entries
import StyleEngine.Proofs.Json.RoundTrip

/-! # Records that are read back

What is read from the JSON of a record: every field from its own value, a list item
by item, a value that may be absent, and a map entry by entry, whose keys are in
ascending order as they are in the record.
-/
namespace StyleEngine

namespace Json

variable {α : Type}

@[simp] theorem text?_str (s : String) : DataNode.text? (Json.str s) = some s := rfl

theorem isPlain_ofOption {write : α → Json} (h : ∀ a, (write a).IsPlain) (o : Option α) :
    (ofOption write o).IsPlain := by
  cases o with
  | none => exact .null
  | some a => exact h a

theorem isPlain_arr {write : α → Json} (h : ∀ a, (write a).IsPlain) (l : List α) :
    (Json.arr (l.map write)).IsPlain := by
  refine .arr fun v hv => ?_
  obtain ⟨a, -, rfl⟩ := List.mem_map.mp hv
  exact h a

theorem isPlain_ofTexts (ss : List String) : (ofTexts ss).IsPlain := isPlain_arr .str ss

theorem isPlain_obj {write : α → Json} (h : ∀ a, (write a).IsPlain) (l : List (String × α)) :
    (Json.obj (l.map fun e => (e.1, write e.2))).IsPlain := by
  refine .obj fun m hm => ?_
  obtain ⟨e, -, rfl⟩ := List.mem_map.mp hm
  exact h e.2

end Json

namespace Record

variable {α : Type}

/-- The fields of an object that has some of the fields of a record, each at most once. -/
theorem row?_of_sublist {names : List String} (keys : List String) {fields : List (String × Json)}
    (hnd : keys.Nodup) (hkeys : ∀ key ∈ keys, key ∈ names)
    (h : (fields.map Prod.fst).Sublist keys) : row? names (.obj fields) = some fields := by
  have hknown : fields.filter (fun f => names.contains f.1) = fields := by
    refine List.filter_eq_self.mpr ?_
    intro f hf
    rw [List.contains_iff_mem]
    exact hkeys _ (h.subset (List.mem_map_of_mem hf))
  simp only [row?, DataNode.fields?, hknown]
  rw [eraseDups_of_nodup (h.nodup hnd), List.length_map, if_pos rfl]

/-- The fields of an object that has just the fields of a record, each once. -/
theorem row?_obj (names : List String) (hnd : names.Nodup) {fields : List (String × Json)}
    (h : fields.map Prod.fst = names) : row? names (.obj fields) = some fields :=
  row?_of_sublist names hnd (fun _ hkey => hkey) (h ▸ List.Sublist.refl _)

/-- A list is read back if its items are. -/
theorem list_arr {read : Json → Option α} {write : α → Json} {l : List α}
    (h : ∀ a ∈ l, read (write a) = some a) : list read (.arr (l.map write)) = some l := by
  show (l.map write).mapM read = some l
  induction l with
  | nil => rfl
  | cons a l ih =>
    have hrest := ih fun b hb => h b (List.mem_cons_of_mem a hb)
    rw [List.map_cons, List.mapM_cons, h a List.mem_cons_self, hrest]
    rfl

/-- A value that may be absent is read back if it is not written as one that is. -/
theorem optional_ofOption {read : Json → Option α} {write : α → Json} {o : Option α}
    (h : ∀ a ∈ o, read (write a) = some a ∧ write a ≠ .null) :
    optional read (Json.ofOption write o) = some o := by
  cases o with
  | none => rfl
  | some a =>
    obtain ⟨hread, hnull⟩ := h a rfl
    have hpresent : DataNode.absent? (write a) = some false := by
      cases hw : write a with
      | null => exact absurd hw hnull
      | _ => rfl
    simp only [optional, Json.ofOption, hpresent, hread, Option.map_some]

/-- A value that may be absent is read back if it is left out where it is. -/
theorem orElse_of_lookup (write : α → Json) {row : Row Json} {name : String}
    {read : Json → Option α} {o : Option α} (hrow : row.lookup name = o.map write)
    (h : ∀ a ∈ o, read (write a) = some a ∧ write a ≠ .null) :
    orElse row name none (optional read) = some o := by
  rw [orElse, hrow]
  cases o with
  | none => rfl
  | some a => exact optional_ofOption (o := some a) h

@[simp] theorem optional_ofOption_str (o : Option String) :
    optional DataNode.text? (Json.ofOption Json.str o) = some o :=
  optional_ofOption fun _ _ => ⟨rfl, nofun⟩

theorem orElse_of_lookup_str {row : Row Json} {name : String} {o : Option String}
    (hrow : row.lookup name = o.map Json.str) :
    orElse row name none (optional DataNode.text?) = some o :=
  orElse_of_lookup Json.str hrow fun _ _ => ⟨rfl, by simp⟩

theorem countUpTo_nat {bound n : Nat} (h : n ≤ bound) : countUpTo bound (Json.nat n) = some n := by
  show (if n ≤ bound then some n else none) = some n
  rw [if_pos h]

/-- An entry with the greatest key is put at the end. -/
theorem insertSorted_of_forall_lt {k : String} (v : α) {l : List (String × α)}
    (h : ∀ e ∈ l, e.1 < k) : insertSorted k v l = l ++ [(k, v)] := by
  induction l with
  | nil => rfl
  | cons e l ih =>
    obtain ⟨k', v'⟩ := e
    have hlt : k' < k := h _ List.mem_cons_self
    have hge : ¬ k < k' := fun hk => String.lt_irrefl _ (String.lt_trans hk hlt)
    have hne : k ≠ k' := fun hk => String.lt_irrefl _ (hk ▸ hlt)
    rw [insertSorted, if_neg hge, if_neg hne, ih fun e he => h e (List.mem_cons_of_mem _ he),
      List.cons_append]

/-- Entries in ascending order of their keys stay as they are when they are put one by one. -/
theorem foldl_insertSorted {l : List (String × α)} (h : IsOrdered l) :
    l.foldl (fun m e => insertSorted e.1 e.2 m) [] = l := by
  have hfold (done : List (String × α)) (h : IsOrdered (done ++ l)) :
      l.foldl (fun m e => insertSorted e.1 e.2 m) done = done ++ l := by
    induction l generalizing done with
    | nil => exact (List.append_nil done).symm
    | cons e l ih =>
      have hlast : insertSorted e.1 e.2 done = done ++ [e] := by
        refine insertSorted_of_forall_lt e.2 ?_
        intro x hx
        exact (List.pairwise_append.mp h).2.2 x hx e List.mem_cons_self
      rw [List.foldl_cons, hlast, ih, List.append_assoc, List.singleton_append]
      · exact (List.pairwise_append.mp h).2.1.tail
      · rwa [List.append_assoc, List.singleton_append]
  exact hfold [] h

/-- **A map is read back** if its values are and its keys are in ascending order. -/
theorem map_obj {read : Json → Option α} {write : α → Json} {l : List (String × α)}
    (hl : IsOrdered l) (h : ∀ e ∈ l, read (write e.2) = some e.2) :
    map read (.obj (l.map fun e => (e.1, write e.2))) = some l := by
  have hvalues : (l.map fun e => (e.1, write e.2)).mapM
      (fun e => (read e.2).map (e.1, ·)) = some l := by
    clear hl
    induction l with
    | nil => rfl
    | cons e l ih =>
      have hrest := ih fun x hx => h x (List.mem_cons_of_mem e hx)
      rw [List.map_cons, List.mapM_cons, hrest, h e List.mem_cons_self]
      rfl
  show ((l.map fun e => (e.1, write e.2)).mapM fun e => (read e.2).map (e.1, ·)).map
    (fun entries => entries.foldl (fun m e => insertSorted e.1 e.2 m) []) = some l
  rw [hvalues, Option.map_some, foldl_insertSorted hl]

/-! ## What can be read -/

section

variable {ν : Type} [DataNode ν] {read : ν → Option α} {n : ν}

theorem le_of_countUpTo {bound k : Nat} (h : countUpTo bound n = some k) : k ≤ bound := by
  obtain ⟨j, -, hj⟩ := Option.bind_eq_some_iff.mp h
  split at hj
  · next hle => exact Option.some.inj hj ▸ hle
  · cases hj

omit [DataNode ν] in
/-- A field with a default is that, or was read. -/
theorem orElse_eq_some {row : Row ν} {name : String} {default a : α}
    (h : orElse row name default read = some a) : a = default ∨ ∃ m, read m = some a := by
  unfold orElse at h
  split at h
  · exact .inl (Option.some.inj h).symm
  · exact .inr ⟨_, h⟩

omit [DataNode ν] in
/-- A field that must be given was read. -/
theorem required_eq_some {row : Row ν} {name : String} {a : α}
    (h : required row name read = some a) : ∃ m, read m = some a := by
  obtain ⟨m, -, hm⟩ := Option.bind_eq_some_iff.mp h
  exact ⟨m, hm⟩

theorem exists_of_mem_mapM {β γ : Type} {f : β → Option γ} {l : List β} {r : List γ}
    (h : l.mapM f = some r) {c : γ} (hc : c ∈ r) : ∃ b ∈ l, f b = some c := by
  induction l generalizing r with
  | nil =>
    obtain rfl : [] = r := Option.some.inj h
    cases hc
  | cons b l ih =>
    rw [List.mapM_cons] at h
    obtain ⟨c₀, hc₀, hrest⟩ := Option.bind_eq_some_iff.mp h
    obtain ⟨r₀, hr₀, hr⟩ := Option.bind_eq_some_iff.mp hrest
    obtain rfl : c₀ :: r₀ = r := Option.some.inj hr
    rcases List.mem_cons.mp hc with rfl | hc
    · exact ⟨b, List.mem_cons_self, hc₀⟩
    · obtain ⟨b', hb', hfb⟩ := ih hr₀ hc
      exact ⟨b', List.mem_cons_of_mem b hb', hfb⟩

/-- Every item of a list that was read was read itself. -/
theorem exists_of_mem_list {l : List α} (h : list read n = some l) {a : α} (ha : a ∈ l) :
    ∃ m, read m = some a := by
  obtain ⟨items, -, hitems⟩ := Option.bind_eq_some_iff.mp h
  obtain ⟨m, -, hm⟩ := exists_of_mem_mapM hitems ha
  exact ⟨m, hm⟩

/-- **A map that was read** is in ascending order of its keys, and its values were read. -/
theorem isOrdered_of_map {l : List (String × α)} (h : map read n = some l) :
    IsOrdered l ∧ ∀ e ∈ l, ∃ m, read m = some e.2 := by
  obtain ⟨entries, -, hentries⟩ := Option.bind_eq_some_iff.mp h
  obtain ⟨found, hfound, rfl⟩ := Option.map_eq_some_iff.mp hentries
  have hread (e : String × α) (he : e ∈ found) : ∃ m, read m = some e.2 := by
    obtain ⟨b, -, hb⟩ := exists_of_mem_mapM hfound he
    obtain ⟨a, ha, rfl⟩ := Option.map_eq_some_iff.mp hb
    exact ⟨b.2, ha⟩
  have hfold (l done : List (String × α)) (hl : ∀ e ∈ l, ∃ m, read m = some e.2)
      (hdone : IsOrdered done ∧ ∀ e ∈ done, ∃ m, read m = some e.2) :
      IsOrdered (l.foldl (fun m e => insertSorted e.1 e.2 m) done) ∧
        ∀ e ∈ l.foldl (fun m e => insertSorted e.1 e.2 m) done, ∃ m, read m = some e.2 := by
    induction l generalizing done with
    | nil => exact hdone
    | cons e l ih =>
      refine ih _ (fun x hx => hl x (List.mem_cons_of_mem e hx))
        ⟨isOrdered_insertSorted e.1 e.2 hdone.1, ?_⟩
      intro x hx
      rcases eq_or_mem_of_mem_insertSorted hx with rfl | hx
      · exact hl e List.mem_cons_self
      · exact hdone.2 x hx
  exact hfold found [] hread ⟨List.Pairwise.nil, fun e he => absurd he List.not_mem_nil⟩

end

end Record

end StyleEngine
