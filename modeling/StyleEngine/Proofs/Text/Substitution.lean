import Mathlib.Data.List.Find
import Mathlib.Data.List.Infix
import StyleEngine.Text.Substitute

/-! # Words in braces, replaced at once or one after the other

Words that stand in braces and have none inside never overlap in a text, so that a
text falls into the occurrences of such a word and what stands between them
(`IsBraced.induction`).  Replacing a further word in a text in which others were
replaced comes to replacing all of them at once, if the images of the others bring up
no new occurrence of it (`substituteAll_concat`), and only then, unless the word is
replaced by itself (`occurrences_eq_of_substituteAll_concat`).
-/
namespace StyleEngine

/-! ## Words in braces -/

/-- Whether a word stands in braces and has none inside. -/
def IsBraced (w : List Char) : Prop :=
  ∃ inner, w = '\x7b' :: (inner ++ ['\x7d']) ∧ '\x7b' ∉ inner ∧ '\x7d' ∉ inner

/-- A word without some character that starts in front of it ends in front of it. -/
theorem isPrefix_append_cons_iff {w front back : List Char} {c : Char} (hc : c ∉ w) :
    w <+: front ++ c :: back ↔ w <+: front := by
  constructor
  · intro h
    by_cases hlength : w.length ≤ front.length
    · exact List.prefix_of_prefix_length_le h (List.prefix_append _ _) hlength
    · exfalso
      have hfront : front ++ [c] <+: w := by
        refine List.prefix_of_prefix_length_le ⟨back, by simp⟩ h ?_
        simp only [List.length_append, List.length_singleton]
        omega
      exact hc (hfront.subset (by simp))
  · exact fun h => h.trans (List.prefix_append _ _)

namespace IsBraced

variable {w w' front back : List Char}

theorem exists_cons (h : IsBraced w) : ∃ rest, w = '\x7b' :: rest ∧ '\x7b' ∉ rest := by
  obtain ⟨inner, rfl, hopen, -⟩ := h
  exact ⟨inner ++ ['\x7d'], rfl, by simpa using hopen⟩

theorem ne_nil (h : IsBraced w) : w ≠ [] := by
  obtain ⟨rest, rfl, -⟩ := h.exists_cons
  exact List.cons_ne_nil _ _

/-- A word in braces that starts in front of another one ends in front of it. -/
theorem isPrefix_append_iff (h : IsBraced w) (h' : IsBraced w') (hne : front ≠ []) :
    w' <+: front ++ (w ++ back) ↔ w' <+: front := by
  obtain ⟨rest, rfl, -⟩ := h.exists_cons
  obtain ⟨rest', rfl, hrest'⟩ := h'.exists_cons
  obtain ⟨c, front, rfl⟩ := List.exists_cons_of_ne_nil hne
  rw [List.cons_append, List.cons_append, List.cons_prefix_cons, List.cons_prefix_cons,
    isPrefix_append_cons_iff hrest']

/-- Two words in braces that start at one place are the same. -/
theorem isPrefix_iff_eq (h : IsBraced w) (h' : IsBraced w') : w' <+: w ++ back ↔ w' = w := by
  constructor
  · rintro ⟨back', heq⟩
    obtain ⟨inner, rfl, -, hclose⟩ := h
    obtain ⟨inner', rfl, -, hclose'⟩ := h'
    have htake {cs back : List Char} (hcs : '\x7d' ∉ cs) :
        (cs ++ '\x7d' :: back).takeWhile (· != '\x7d') = cs := by
      rw [List.takeWhile_append_of_pos, List.takeWhile_cons_of_neg (by simp), List.append_nil]
      intro c hc
      simpa using ne_of_mem_of_not_mem hc hcs
    simp only [List.cons_append, List.append_assoc, List.cons.injEq, true_and,
      List.nil_append] at heq
    rw [← htake hclose, ← heq, htake hclose']
  · rintro rfl
    exact List.prefix_append _ _

end IsBraced

/-! ## Occurrences -/

/-- The number of places at which a word stands in a text. -/
def occurrences (w : List Char) : List Char → Nat
  | [] => 0
  | c :: cs => (if w.isPrefixOf (c :: cs) then 1 else 0) + occurrences w cs

theorem occurrences_cons (w : List Char) (c : Char) (cs : List Char) :
    occurrences w (c :: cs) =
      (if w.isPrefixOf (c :: cs) then 1 else 0) + occurrences w cs := rfl

theorem occurrences_cons_eq_zero_iff {w cs : List Char} {c : Char} :
    occurrences w (c :: cs) = 0 ↔ ¬ w <+: c :: cs ∧ occurrences w cs = 0 := by
  rw [occurrences, Nat.add_eq_zero_iff, ← List.isPrefixOf_iff_prefix]
  split <;> simp_all

namespace IsBraced

variable {w : List Char}

theorem occurrences_append_of_notMem (h : IsBraced w) {front : List Char}
    (hfront : '\x7b' ∉ front) (back : List Char) :
    occurrences w (front ++ back) = occurrences w back := by
  obtain ⟨rest, rfl, -⟩ := h.exists_cons
  induction front with
  | nil => rfl
  | cons c front ih =>
    rw [List.mem_cons, not_or] at hfront
    simp [occurrences, List.isPrefixOf, hfront.1, ih hfront.2]

/-- An occurrence of a word splits the others. -/
theorem occurrences_append (h : IsBraced w) (front back : List Char) :
    occurrences w (front ++ (w ++ back)) = occurrences w front + (1 + occurrences w back) := by
  induction front with
  | nil =>
    obtain ⟨rest, hw, hrest⟩ := h.exists_cons
    have hstarts : w.isPrefixOf ('\x7b' :: (rest ++ back)) = true := by
      rw [List.isPrefixOf_iff_prefix, hw]
      exact List.prefix_append _ _
    have hsplit : w ++ back = '\x7b' :: (rest ++ back) := by rw [hw, List.cons_append]
    rw [List.nil_append, hsplit, occurrences_cons, if_pos hstarts,
      h.occurrences_append_of_notMem hrest, occurrences, Nat.zero_add]
  | cons c front ih =>
    have hsame : w.isPrefixOf (c :: (front ++ (w ++ back))) = w.isPrefixOf (c :: front) := by
      rw [Bool.eq_iff_iff, List.isPrefixOf_iff_prefix, List.isPrefixOf_iff_prefix]
      exact h.isPrefix_append_iff h (List.cons_ne_nil c front)
    rw [List.cons_append, occurrences_cons, occurrences_cons, ih, hsame, Nat.add_assoc]

/-- A text with a word in it splits at the first place where it stands. -/
theorem exists_first {cs : List Char} (hcs : occurrences w cs ≠ 0) :
    ∃ front back, cs = front ++ (w ++ back) ∧ occurrences w front = 0 := by
  induction cs with
  | nil => exact absurd rfl hcs
  | cons c cs ih =>
    by_cases hstarts : w <+: c :: cs
    · obtain ⟨back, hback⟩ := hstarts
      exact ⟨[], back, hback.symm, rfl⟩
    · have hrest : occurrences w cs ≠ 0 := fun hzero =>
        hcs (occurrences_cons_eq_zero_iff.mpr ⟨hstarts, hzero⟩)
      obtain ⟨front, back, rfl, hfront⟩ := ih hrest
      refine ⟨c :: front, back, rfl, occurrences_cons_eq_zero_iff.mpr ⟨fun h => ?_, hfront⟩⟩
      exact hstarts (h.trans (List.prefix_append (c :: front) (w ++ back)))

/-- **A text by the occurrences of a word**: what holds of a text without the word, and of any text
in front of which the word is put, behind another text without it, holds of all. -/
theorem induction (h : IsBraced w) {P : List Char → Prop}
    (plain : ∀ cs, occurrences w cs = 0 → P cs)
    (step : ∀ front back, occurrences w front = 0 → P back → P (front ++ (w ++ back)))
    (cs : List Char) : P cs := by
  generalize hn : cs.length = n
  induction n using Nat.strongRecOn generalizing cs with
  | ind n ih =>
    by_cases hcs : occurrences w cs = 0
    · exact plain cs hcs
    · obtain ⟨front, back, rfl, hfront⟩ := exists_first hcs
      have hpos := List.length_pos_iff.mpr h.ne_nil
      simp only [List.length_append] at hn
      exact step front back hfront (ih back.length (by omega) back rfl)

end IsBraced

/-! ## Replacing words -/

/-- Replaces the words of a table all at once: what is put in the place of a word is not looked at
again.  `skip` characters of the last word found are still to be passed over. -/
def substituteAllFrom (table : List (List Char × List Char)) : Nat → List Char → List Char
  | _, [] => []
  | skip + 1, _ :: cs => substituteAllFrom table skip cs
  | 0, c :: cs =>
    match table.find? fun e => e.1.isPrefixOf (c :: cs) with
    | some e => e.2 ++ substituteAllFrom table (e.1.length - 1) cs
    | none => c :: substituteAllFrom table 0 cs

/-- The words of a table, each of them replaced by its image wherever it stands in a text. -/
def substituteAll (table : List (List Char × List Char)) (cs : List Char) : List Char :=
  substituteAllFrom table 0 cs

/-- What a table puts in the place of a word. -/
def imageOf (table : List (List Char × List Char)) (w : List Char) : List Char :=
  ((table.find? fun e => e.1 == w).map Prod.snd).getD w

/-- Replacing one word is replacing all words of a table with one. -/
theorem substituteFrom_eq (w image : List Char) (skip : Nat) (cs : List Char) :
    substituteFrom w image skip cs = substituteAllFrom [(w, image)] skip cs := by
  induction cs generalizing skip with
  | nil => cases skip <;> rfl
  | cons c cs ih =>
    cases skip with
    | succ skip => exact ih skip
    | zero =>
      rw [substituteFrom, substituteAllFrom]
      cases hdrop : dropWord? w (c :: cs) with
      | none =>
        have hno : ¬ w <+: c :: cs := dropWord?_eq_none_iff.mp hdrop
        rw [← List.isPrefixOf_iff_prefix] at hno
        simp [hno, ih]
      | some rest =>
        have hyes : w <+: c :: cs := ⟨rest, (eq_append_of_dropWord? hdrop).symm⟩
        rw [← List.isPrefixOf_iff_prefix] at hyes
        simp [hyes, ih]

section Tables

variable {table : List (List Char × List Char)}

theorem substituteAllFrom_length (front back : List Char) :
    substituteAllFrom table front.length (front ++ back) = substituteAll table back := by
  induction front with
  | nil => rfl
  | cons c front ih => exact ih

theorem substituteAll_cons {c : Char} {cs : List Char}
    (h : table.find? (fun e => e.1.isPrefixOf (c :: cs)) = none) :
    substituteAll table (c :: cs) = c :: substituteAll table cs := by
  rw [substituteAll, substituteAllFrom, h]
  rfl

/-- A word of a table that a text starts with is replaced. -/
theorem substituteAll_append_of_find? {w image cs : List Char} (hne : w ≠ [])
    (h : table.find? (fun e => e.1.isPrefixOf (w ++ cs)) = some (w, image)) :
    substituteAll table (w ++ cs) = image ++ substituteAll table cs := by
  obtain ⟨c, rest, rfl⟩ := List.exists_cons_of_ne_nil hne
  rw [List.cons_append] at h ⊢
  rw [substituteAll, substituteAllFrom, h]
  exact congrArg (image ++ ·) (substituteAllFrom_length rest cs)

theorem imageOf_eq_of_find? {w : List Char} {e : List Char × List Char}
    (h : table.find? (fun e => e.1 == w) = some e) : imageOf table w = e.2 := by
  rw [imageOf, h]
  rfl

theorem imageOf_eq_self {w : List Char} (h : ∀ e ∈ table, e.1 ≠ w) : imageOf table w = w := by
  have hnone : table.find? (fun e => e.1 == w) = none :=
    List.find?_eq_none.mpr fun e he => by simpa using h e he
  rw [imageOf, hnone]
  rfl

theorem imageOf_concat {w image : List Char} (h : ∀ e ∈ table, e.1 ≠ w) :
    imageOf (table ++ [(w, image)]) w = image := by
  have hnone : table.find? (fun e => e.1 == w) = none :=
    List.find?_eq_none.mpr fun e he => by simpa using h e he
  refine imageOf_eq_of_find? (e := (w, image)) ?_
  rw [List.find?_append, hnone]
  simp

variable (htable : ∀ e ∈ table, IsBraced e.1)
include htable

/-- No word of a table starts in a text without an opening brace. -/
theorem substituteAll_append_of_notMem {front : List Char} (hfront : '\x7b' ∉ front)
    (back : List Char) :
    substituteAll table (front ++ back) = front ++ substituteAll table back := by
  induction front with
  | nil => rfl
  | cons c front ih =>
    rw [List.mem_cons, not_or] at hfront
    have hnone : table.find? (fun e => e.1.isPrefixOf (c :: (front ++ back))) = none := by
      refine List.find?_eq_none.mpr fun e he => ?_
      obtain ⟨rest, hrest, -⟩ := (htable e he).exists_cons
      simp [hrest, List.isPrefixOf, hfront.1]
    rw [List.cons_append, substituteAll_cons hnone, ih hfront.2, List.cons_append]

/-- An occurrence at the start of a text is replaced by its image, if the word is in the table. -/
theorem substituteAll_append_word {w : List Char} (hw : IsBraced w) (back : List Char) :
    substituteAll table (w ++ back) = imageOf table w ++ substituteAll table back := by
  have hfind : table.find? (fun e => e.1.isPrefixOf (w ++ back)) =
      table.find? (fun e => e.1 == w) := by
    refine List.find?_congr fun e he => ?_
    rw [Bool.eq_iff_iff, List.isPrefixOf_iff_prefix, beq_iff_eq]
    exact hw.isPrefix_iff_eq (htable e he)
  cases hentry : table.find? (fun e => e.1 == w) with
  | some e =>
    obtain ⟨w', image⟩ := e
    obtain rfl : w' = w := by simpa using List.find?_some hentry
    rw [imageOf_eq_of_find? hentry]
    exact substituteAll_append_of_find? hw.ne_nil (hfind.trans hentry)
  | none =>
    rw [hentry] at hfind
    have hnew : ∀ e ∈ table, e.1 ≠ w := fun e he => by
      simpa using List.find?_eq_none.mp hentry e he
    obtain ⟨rest, rfl, hrest⟩ := hw.exists_cons
    rw [imageOf_eq_self hnew, List.cons_append, List.cons_append]
    rw [List.cons_append] at hfind
    rw [substituteAll_cons hfind, substituteAll_append_of_notMem htable hrest]

/-- **An occurrence splits a text**: what stands in front of it and behind it is replaced on its
own, and the occurrence by its image, if the word is in the table. -/
theorem substituteAll_append {w : List Char} (hw : IsBraced w) (front back : List Char) :
    substituteAll table (front ++ (w ++ back)) =
      substituteAll table front ++ (imageOf table w ++ substituteAll table back) := by
  generalize hn : front.length = n
  induction n using Nat.strongRecOn generalizing front with
  | ind n ih =>
    cases front with
    | nil => exact substituteAll_append_word htable hw back
    | cons c front =>
      have hfind : table.find? (fun e => e.1.isPrefixOf (c :: (front ++ (w ++ back)))) =
          table.find? (fun e => e.1.isPrefixOf (c :: front)) := by
        refine List.find?_congr fun e he => ?_
        rw [Bool.eq_iff_iff, List.isPrefixOf_iff_prefix, List.isPrefixOf_iff_prefix]
        exact hw.isPrefix_append_iff (htable e he) (List.cons_ne_nil c front)
      cases hentry : table.find? (fun e => e.1.isPrefixOf (c :: front)) with
      | none =>
        rw [List.cons_append, substituteAll_cons (hfind.trans hentry), substituteAll_cons hentry,
          ih front.length (by simp [← hn]) front rfl, List.cons_append]
      | some e =>
        -- the word found lies in front of the occurrence, and so does what is left behind it
        obtain ⟨w', image⟩ := e
        have hne : w' ≠ [] := (htable _ (List.mem_of_find?_eq_some hentry)).ne_nil
        have hstarts := List.find?_some hentry
        obtain ⟨middle, hmiddle⟩ : w' <+: c :: front := List.isPrefixOf_iff_prefix.mp hstarts
        rw [← List.cons_append, ← hmiddle] at hfind
        rw [← hmiddle] at hentry hn ⊢
        have hshorter : middle.length < n := by
          have hpos := List.length_pos_iff.mpr hne
          rw [List.length_append] at hn
          omega
        rw [List.append_assoc] at hfind ⊢
        rw [substituteAll_append_of_find? hne (hfind.trans hentry),
          substituteAll_append_of_find? hne hentry,
          ih middle.length hshorter middle rfl, List.append_assoc]

end Tables

section OneMore

variable {table : List (List Char × List Char)} {w image : List Char}

/-- A word that does not stand in a text is not replaced. -/
theorem substituteAllFrom_concat_of_eq_zero {cs : List Char} (h : occurrences w cs = 0)
    (skip : Nat) : substituteAllFrom (table ++ [(w, image)]) skip cs =
      substituteAllFrom table skip cs := by
  induction cs generalizing skip with
  | nil => cases skip <;> rfl
  | cons c cs ih =>
    obtain ⟨hno, hrest⟩ := occurrences_cons_eq_zero_iff.mp h
    have ih := ih hrest
    cases skip with
    | succ skip => exact ih skip
    | zero =>
      have hfind : (table ++ [(w, image)]).find? (fun e => e.1.isPrefixOf (c :: cs)) =
          table.find? (fun e => e.1.isPrefixOf (c :: cs)) := by
        rw [← List.isPrefixOf_iff_prefix] at hno
        rw [List.find?_append]
        simp [hno]
      rw [substituteAllFrom, substituteAllFrom, hfind]
      cases table.find? (fun e => e.1.isPrefixOf (c :: cs)) with
      | some e => exact congrArg (e.2 ++ ·) (ih _)
      | none => exact congrArg (c :: ·) (ih 0)

theorem substituteAll_concat_of_eq_zero {cs : List Char} (h : occurrences w cs = 0) :
    substituteAll (table ++ [(w, image)]) cs = substituteAll table cs :=
  substituteAllFrom_concat_of_eq_zero h 0

theorem substituteAll_nil (cs : List Char) : substituteAll [] cs = cs := by
  induction cs with
  | nil => rfl
  | cons c cs ih => exact congrArg (c :: ·) ih

theorem substituteAll_singleton_of_eq_zero {cs : List Char} (h : occurrences w cs = 0) :
    substituteAll [(w, image)] cs = cs :=
  (substituteAll_concat_of_eq_zero h).trans (substituteAll_nil cs)

variable (hw : IsBraced w)
include hw

theorem substituteAll_singleton_append (front back : List Char) :
    substituteAll [(w, image)] (front ++ (w ++ back)) =
      substituteAll [(w, image)] front ++ (image ++ substituteAll [(w, image)] back) := by
  have htable : ∀ e ∈ [(w, image)], IsBraced e.1 := by simpa using hw
  have hnone : ∀ e ∈ ([] : List (List Char × List Char)), e.1 ≠ w :=
    fun e he => absurd he List.not_mem_nil
  rw [substituteAll_append htable hw]
  exact congrArg (fun image' => _ ++ (image' ++ _)) (imageOf_concat hnone)

/-- A text grows by the difference of a word and its image with each occurrence. -/
theorem length_substituteAll_singleton (image cs : List Char) :
    (substituteAll [(w, image)] cs).length + occurrences w cs * w.length =
      cs.length + occurrences w cs * image.length := by
  induction cs using hw.induction with
  | plain cs hcs => rw [substituteAll_singleton_of_eq_zero hcs, hcs, Nat.zero_mul, Nat.zero_mul]
  | step front back hfront ih =>
    rw [substituteAll_singleton_append hw, substituteAll_singleton_of_eq_zero hfront,
      hw.occurrences_append, hfront]
    simp only [List.length_append, Nat.zero_add, Nat.add_mul, Nat.one_mul]
    omega

/-- A text that stays as it is has no occurrence of the word, or the word is replaced by itself. -/
theorem occurrences_eq_zero_of_substituteAll_eq {cs : List Char} (hne : image ≠ w)
    (hlength : image.length = w.length) (h : substituteAll [(w, image)] cs = cs) :
    occurrences w cs = 0 := by
  by_contra hcs
  obtain ⟨front, back, rfl, hfront⟩ := IsBraced.exists_first hcs
  rw [substituteAll_singleton_append hw, substituteAll_singleton_of_eq_zero hfront] at h
  exact hne (List.append_inj_left (List.append_cancel_left h) hlength)

variable (htable : ∀ e ∈ table, IsBraced e.1) (hnew : ∀ e ∈ table, e.1 ≠ w)
include htable hnew

theorem substituteAll_append_self (front back : List Char) :
    substituteAll table (front ++ (w ++ back)) =
      substituteAll table front ++ (w ++ substituteAll table back) := by
  rw [substituteAll_append htable hw, imageOf_eq_self hnew]

theorem substituteAll_concat_append (front back : List Char) :
    substituteAll (table ++ [(w, image)]) (front ++ (w ++ back)) =
      substituteAll (table ++ [(w, image)]) front ++
        (image ++ substituteAll (table ++ [(w, image)]) back) := by
  have hboth : ∀ e ∈ table ++ [(w, image)], IsBraced e.1 := by
    intro e he
    rcases List.mem_append.mp he with he | he
    · exact htable e he
    · exact List.mem_singleton.mp he ▸ hw
  rw [substituteAll_append hboth hw, imageOf_concat hnew]

/-- Replacing other words leaves the occurrences of a word, and may bring up more. -/
theorem occurrences_le_substituteAll (cs : List Char) :
    occurrences w cs ≤ occurrences w (substituteAll table cs) := by
  induction cs using hw.induction with
  | plain cs hcs => exact hcs ▸ Nat.zero_le _
  | step front back hfront ih =>
    rw [substituteAll_append_self hw htable hnew, hw.occurrences_append, hw.occurrences_append]
    omega

/-- **One word after the others comes to all at once** if no new occurrence of it came up. -/
theorem substituteAll_concat {cs : List Char}
    (h : occurrences w (substituteAll table cs) = occurrences w cs) :
    substituteAll [(w, image)] (substituteAll table cs) =
      substituteAll (table ++ [(w, image)]) cs := by
  induction cs using hw.induction with
  | plain cs hcs =>
    rw [substituteAll_singleton_of_eq_zero (h.trans hcs)]
    exact (substituteAll_concat_of_eq_zero hcs).symm
  | step front back hfront ih =>
    rw [substituteAll_append_self hw htable hnew, hw.occurrences_append,
      hw.occurrences_append] at h
    have hback := occurrences_le_substituteAll hw htable hnew back
    have hplain : occurrences w (substituteAll table front) = 0 := by omega
    rw [substituteAll_append_self hw htable hnew, substituteAll_singleton_append hw,
      substituteAll_singleton_of_eq_zero hplain, substituteAll_concat_append hw htable hnew,
      substituteAll_concat_of_eq_zero hfront, ih (by omega)]

theorem length_substituteAll_concat (image cs : List Char) :
    (substituteAll (table ++ [(w, image)]) cs).length + occurrences w cs * w.length =
      (substituteAll table cs).length + occurrences w cs * image.length := by
  induction cs using hw.induction with
  | plain cs hcs =>
    rw [substituteAll_concat_of_eq_zero hcs, hcs, Nat.zero_mul, Nat.zero_mul]
  | step front back hfront ih =>
    rw [substituteAll_concat_append hw htable hnew, substituteAll_append_self hw htable hnew,
      substituteAll_concat_of_eq_zero hfront, hw.occurrences_append, hfront]
    simp only [List.length_append, Nat.zero_add, Nat.add_mul, Nat.one_mul]
    omega

/-- Nothing changes by a word that is replaced by itself. -/
theorem substituteAll_concat_self (cs : List Char) :
    substituteAll (table ++ [(w, w)]) cs = substituteAll table cs := by
  induction cs using hw.induction with
  | plain cs hcs => exact substituteAll_concat_of_eq_zero hcs
  | step front back hfront ih =>
    rw [substituteAll_concat_append hw htable hnew, substituteAll_append_self hw htable hnew, ih,
      substituteAll_concat_of_eq_zero hfront]

omit htable hnew in
theorem substituteAll_singleton_self (cs : List Char) : substituteAll [(w, w)] cs = cs := by
  have h : substituteAll ([] ++ [(w, w)]) cs = substituteAll [] cs :=
    substituteAll_concat_self hw (fun e he => absurd he List.not_mem_nil)
      (fun e he => absurd he List.not_mem_nil) cs
  exact h.trans (substituteAll_nil cs)

/-- **Only then.**  Where replacing one word after the others comes to all at once, no new
occurrence of it came up, unless it is replaced by itself. -/
theorem occurrences_eq_of_substituteAll_concat {cs : List Char} (hne : image ≠ w)
    (h : substituteAll [(w, image)] (substituteAll table cs) =
      substituteAll (table ++ [(w, image)]) cs) :
    occurrences w (substituteAll table cs) = occurrences w cs := by
  by_cases hlength : image.length = w.length
  · -- the places stay where they are, so that the text can be compared part by part
    have hkeeps (cs : List Char) : (substituteAll [(w, image)] cs).length = cs.length := by
      have hgrows := length_substituteAll_singleton hw image cs
      rw [hlength] at hgrows
      omega
    induction cs using hw.induction with
    | plain cs hcs =>
      rw [substituteAll_concat_of_eq_zero hcs] at h
      rw [hcs, occurrences_eq_zero_of_substituteAll_eq hw hne hlength h]
    | step front back hfront ih =>
      rw [substituteAll_append_self hw htable hnew, substituteAll_singleton_append hw,
        substituteAll_concat_append hw htable hnew, substituteAll_concat_of_eq_zero hfront] at h
      obtain ⟨hstays, hback⟩ := List.append_inj h (hkeeps _)
      rw [substituteAll_append_self hw htable hnew, hw.occurrences_append, hw.occurrences_append,
        hfront, occurrences_eq_zero_of_substituteAll_eq hw hne hlength hstays,
        ih (List.append_cancel_left hback)]
  · -- every new occurrence would make the text longer or shorter
    have hone := length_substituteAll_singleton hw image (substituteAll table cs)
    have hall := length_substituteAll_concat hw htable hnew image cs
    obtain ⟨more, hmore⟩ := Nat.exists_eq_add_of_le (occurrences_le_substituteAll hw htable hnew cs)
    rw [h, hmore, Nat.add_mul, Nat.add_mul] at hone
    have hsame : more * w.length = more * image.length := by omega
    rcases Nat.eq_zero_or_pos more with hzero | hpos
    · rw [hmore, hzero, Nat.add_zero]
    · exact absurd (Nat.eq_of_mul_eq_mul_left hpos hsame).symm hlength

end OneMore

end StyleEngine
