import StyleEngine.Cache.Basic

/-! # Entries under keys

What stands under a key after an entry was put or dropped.  The maps of a cache
document are lists in ascending order of their keys; a lookup after an insertion
needs no such order, and with it a list is known by its lookups
(`Record.ext_of_lookup`).
-/
namespace StyleEngine

theorem eraseDups_of_nodup {l : List String} (h : l.Nodup) : l.eraseDups = l := by
  induction l with
  | nil => rfl
  | cons x l ih =>
    obtain ⟨hx, hl⟩ := List.nodup_cons.mp h
    have hfilter : l.filter (fun y => !y == x) = l := by
      refine List.filter_eq_self.mpr ?_
      intro y hy
      have hne : y ≠ x := fun hyx => hx (hyx ▸ hy)
      simpa using hne
    rw [List.eraseDups_cons, hfilter, ih hl]

namespace Record

variable {α : Type}

theorem lookup_cons_ne {κ : Type} [BEq κ] [LawfulBEq κ] {k k' : κ} (h : k' ≠ k) (v : α)
    (l : List (κ × α)) : ((k, v) :: l).lookup k' = l.lookup k' := by
  rw [List.lookup_cons, beq_false_of_ne h]

theorem lookup_insertSorted (k k' : String) (v : α) (l : List (String × α)) :
    (insertSorted k v l).lookup k' = if k' = k then some v else l.lookup k' := by
  induction l with
  | nil =>
    by_cases hk : k' = k
    · rw [if_pos hk, hk]; exact List.lookup_cons_self
    · rw [if_neg hk]; exact lookup_cons_ne hk ..
  | cons e rest ih =>
    obtain ⟨k₁, v₁⟩ := e
    simp only [insertSorted]
    by_cases hk : k' = k
    · subst hk
      rw [if_pos rfl] at ih ⊢
      split
      · exact List.lookup_cons_self
      · split
        · exact List.lookup_cons_self
        · next hne => rw [lookup_cons_ne hne, ih]
    · rw [if_neg hk] at ih ⊢
      split
      · exact lookup_cons_ne hk ..
      · split
        · next heq => rw [← heq, lookup_cons_ne hk, lookup_cons_ne hk]
        · rw [List.lookup_cons, List.lookup_cons, ih]

theorem lookup_filter_ne {κ : Type} [BEq κ] [LawfulBEq κ] [DecidableEq κ] (k k' : κ)
    (l : List (κ × α)) :
    (l.filter fun e => e.1 != k).lookup k' = if k' = k then none else l.lookup k' := by
  induction l with
  | nil => simp
  | cons e rest ih =>
    obtain ⟨k₁, v₁⟩ := e
    by_cases hk₁ : k₁ = k
    · subst hk₁
      rw [List.filter_cons_of_neg (by simp), ih]
      by_cases hk : k' = k₁
      · rw [if_pos hk, if_pos hk]
      · rw [if_neg hk, if_neg hk, lookup_cons_ne hk]
    · rw [List.filter_cons_of_pos (by simpa using hk₁)]
      by_cases hk : k' = k₁
      · subst hk
        rw [List.lookup_cons_self, if_neg hk₁, List.lookup_cons_self]
      · rw [lookup_cons_ne hk, ih, lookup_cons_ne hk]

/-- Whether the keys of a list are in ascending order, without repetition. -/
def IsOrdered (l : List (String × α)) : Prop := l.Pairwise fun a b => a.1 < b.1

instance (l : List (String × α)) : Decidable (IsOrdered l) :=
  inferInstanceAs (Decidable (l.Pairwise fun a b => a.1 < b.1))

theorem eq_or_mem_of_mem_insertSorted {k : String} {v : α} {l : List (String × α)}
    {e : String × α} (h : e ∈ insertSorted k v l) : e = (k, v) ∨ e ∈ l := by
  induction l with
  | nil => exact .inl (List.mem_singleton.mp h)
  | cons e₁ rest ih =>
    obtain ⟨k₁, v₁⟩ := e₁
    simp only [insertSorted] at h
    split at h
    · rcases List.mem_cons.mp h with rfl | h
      · exact .inl rfl
      · exact .inr h
    · split at h
      · rcases List.mem_cons.mp h with rfl | h
        · exact .inl rfl
        · exact .inr (List.mem_cons_of_mem _ h)
      · rcases List.mem_cons.mp h with rfl | h
        · exact .inr List.mem_cons_self
        · exact (ih h).imp id (List.mem_cons_of_mem _)

theorem lt_of_not_lt_of_ne {a b : String} (h : ¬ a < b) (hne : a ≠ b) : b < a := by
  by_cases hba : b < a
  · exact hba
  · exact absurd (String.le_antisymm (String.not_lt.mp hba) (String.not_lt.mp h)) hne

theorem isOrdered_insertSorted (k : String) (v : α) {l : List (String × α)} (h : IsOrdered l) :
    IsOrdered (insertSorted k v l) := by
  unfold IsOrdered at h ⊢
  induction l with
  | nil => exact List.pairwise_singleton ..
  | cons e rest ih =>
    obtain ⟨k₁, v₁⟩ := e
    rw [List.pairwise_cons] at h
    simp only [insertSorted]
    split
    · next hlt =>
      refine List.pairwise_cons.mpr ⟨?_, List.pairwise_cons.mpr h⟩
      intro e he
      rcases List.mem_cons.mp he with rfl | he
      · exact hlt
      · exact String.lt_trans hlt (h.1 e he)
    · next hge =>
      split
      · next heq =>
        subst heq
        exact List.pairwise_cons.mpr h
      · next hne =>
        refine List.pairwise_cons.mpr ⟨?_, ih h.2⟩
        intro e he
        rcases eq_or_mem_of_mem_insertSorted he with rfl | he
        · exact lt_of_not_lt_of_ne hge hne
        · exact h.1 e he

theorem isOrdered_filter (P : String × α → Bool) {l : List (String × α)} (h : IsOrdered l) :
    IsOrdered (l.filter P) := h.sublist List.filter_sublist

theorem lookup_eq_none_of_lt {k : String} {l : List (String × α)} (h : ∀ e ∈ l, k < e.1) :
    l.lookup k = none := by
  rw [List.lookup_eq_none_iff]
  intro e he
  refine bne_iff_ne.mpr ?_
  intro hk
  have hlt := h e he
  rw [← hk] at hlt
  exact String.lt_irrefl _ hlt

/-- There is nothing under a key below the first one of a list in ascending order. -/
theorem lookup_cons_of_lt {q k : String} {v : α} {rest : List (String × α)}
    (h : IsOrdered ((k, v) :: rest)) (hq : q < k) : ((k, v) :: rest).lookup q = none := by
  refine lookup_eq_none_of_lt ?_
  intro e he
  rcases List.mem_cons.mp he with rfl | he
  · exact hq
  · exact String.lt_trans hq ((List.pairwise_cons.mp h).1 e he)

/-- **Lists in ascending order of their keys are the same if they have the same entries under
all keys.** -/
theorem ext_of_lookup {l l' : List (String × α)} (h : IsOrdered l) (h' : IsOrdered l')
    (hl : ∀ k, l.lookup k = l'.lookup k) : l = l' := by
  induction l generalizing l' with
  | nil =>
    cases l' with
    | nil => rfl
    | cons e rest =>
      have hnone := hl e.1
      rw [List.lookup_cons_self] at hnone
      cases hnone
  | cons e rest ih =>
    obtain ⟨k, v⟩ := e
    cases l' with
    | nil =>
      have hnone := hl k
      rw [List.lookup_cons_self] at hnone
      cases hnone
    | cons e' rest' =>
      obtain ⟨k', v'⟩ := e'
      -- the least key of one list is the least key of the other
      have hk : k = k' := by
        by_cases hlt : k < k'
        · have hnone := lookup_cons_of_lt h' hlt
          rw [← hl, List.lookup_cons_self] at hnone
          cases hnone
        · by_cases hne : k = k'
          · exact hne
          · have hnone := lookup_cons_of_lt h (lt_of_not_lt_of_ne hlt hne)
            rw [hl, List.lookup_cons_self] at hnone
            cases hnone
      subst hk
      unfold IsOrdered at h h'
      rw [List.pairwise_cons] at h h'
      have hv := hl k
      simp only [List.lookup_cons_self, Option.some.injEq] at hv
      subst hv
      congr 1
      refine ih h.2 h'.2 ?_
      intro q
      by_cases hq : q = k
      · rw [hq, lookup_eq_none_of_lt h.1, lookup_eq_none_of_lt h'.1]
      · rw [← lookup_cons_ne hq v rest, hl, lookup_cons_ne hq]

end Record

theorem Path.cacheKey_inj {p q : Path} (h : p.cacheKey = q.cacheKey) : p = q := by
  obtain ⟨p⟩ := p
  obtain ⟨q⟩ := q
  exact congrArg Path.mk h

namespace Cache

/-- The entry of a file under a key. -/
def entryAt? (c : Cache) (key : String) : Option FileEntry := c.document.files.lookup key

theorem entryAt?_putEntry (c : Cache) (key key' : String) (e : FileEntry) :
    (c.putEntry key e).entryAt? key' = if key' = key then some e else c.entryAt? key' :=
  Record.lookup_insertSorted ..

theorem entryAt?_removeFile (c : Cache) (path : Path) (key : String) :
    (c.removeFile path).entryAt? key = if key = path.cacheKey then none else c.entryAt? key :=
  Record.lookup_filter_ne ..

/-- What a cache has for a file is its entry, if that belongs to the file as it is. -/
theorem loadFile?_eq (c : Cache) (p : ProjectInfo) (f : SourceFile) (settingsDigest : String) :
    c.loadFile? p f settingsDigest = (c.entryAt? f.path.cacheKey).bind fun e =>
      if isCurrent e p f settingsDigest then some e.violations else none := by
  unfold loadFile? entryAt?
  cases c.document.files.lookup f.path.cacheKey <;> rfl

/-- Whether every entry of a file in a cache has a property. -/
def EachEntry (P : Path → FileEntry → Prop) (cache : Option Cache) : Prop :=
  ∀ (path : Path) (e : FileEntry),
    (cache.bind fun c => c.entryAt? path.cacheKey) = some e → P path e

theorem EachEntry.congr {P : Path → FileEntry → Prop} {c c' : Option Cache} (h : EachEntry P c)
    (hc : ∀ key, (c'.bind fun c => c.entryAt? key) = c.bind fun c => c.entryAt? key) :
    EachEntry P c' := by
  intro path e he
  rw [hc] at he
  exact h path e he

/-- Caches without files have no entries. -/
theorem eachEntry_of_files_eq_nil {P : Path → FileEntry → Prop} {cache : Option Cache}
    (h : ∀ c, cache = some c → c.document.files = []) : EachEntry P cache := by
  intro path e he
  obtain ⟨c, hc, hentry⟩ := Option.bind_eq_some_iff.mp he
  rw [entryAt?, h c hc] at hentry
  cases hentry

/-- Caches with the same document have the same entries. -/
theorem entryAt?_congr {c c' : Option Cache} (h : c.map document = c'.map document) (key : String) :
    (c.bind fun c => c.entryAt? key) = c'.bind fun c => c.entryAt? key := by
  have hentry (c : Option Cache) : (c.bind fun c => c.entryAt? key) =
      (c.map document).bind fun d => d.files.lookup key := by cases c <;> rfl
  rw [hentry, hentry, h]

end Cache

end StyleEngine
