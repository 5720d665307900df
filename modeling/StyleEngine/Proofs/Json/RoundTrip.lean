import StyleEngine.Json.Printer
import StyleEngine.Json.Reader

/-! # Reading what was written

A value that is written as JSON is read back as it was (`Json.IsPlain.parse?_compact`), if
it is made of texts, flags, numbers and collections (`Json.IsPlain`).  The reader
is followed construct by construct: characters that are read as a value whatever
comes after them (`Json.Reads`) are put together to characters that are read as a
collection, with blanks between them or without.
-/
namespace StyleEngine

namespace Json

/-! ## Strings -/

theorem hexDigit?_hexLower : ∀ n < 16, hexDigit? (hexLower n) = some n := by decide

theorem stringUnits_letter {c d : Char} (h : simpleEscape? d = some c) (fuel : Nat)
    (rest : List Char) : stringUnits (fuel + 1) ('\\' :: d :: rest) =
      (stringUnits fuel rest).map fun r => (.char c :: r.1, r.2) := by
  -- the letter before a code would be read in another way
  have hd : d ≠ 'u' := by
    rintro rfl
    cases h
  simp [stringUnits, h]

/-- A character is read back from the way it is written in a string. -/
theorem stringUnits_escapeChar (fuel : Nat) (c : Char) (rest : List Char) :
    stringUnits (fuel + 1) (escapeChar c ++ rest) =
      (stringUnits fuel rest).map fun r => (.char c :: r.1, r.2) := by
  unfold escapeChar
  iterate 7
    split
    · next h =>
      subst h
      exact stringUnits_letter rfl fuel rest
  split
  · next hlow =>
    have hhigh : hexDigit? (hexLower (c.toNat / 16)) = some (c.toNat / 16) :=
      hexDigit?_hexLower _ (by omega)
    have hunit : hexDigit? (hexLower (c.toNat % 16)) = some (c.toNat % 16) :=
      hexDigit?_hexLower _ (by omega)
    have hzero : hexDigit? '0' = some 0 := by decide
    have hvalue : c.toNat / 16 * 16 + c.toNat % 16 = c.toNat := by omega
    have hchar : Unit16.ofNat c.toNat = .char c := by
      rw [Unit16.ofNat, if_neg (by omega), if_neg (by omega), Char.ofNat_toNat]
    simp [stringUnits, hexUnit?, hzero, hhigh, hunit, hvalue, hchar]
  · next hslash _ _ _ _ _ hlow => simp [stringUnits, hslash, hlow]

theorem stringUnits_escaped (cs rest : List Char) {fuel : Nat} (h : cs.length < fuel) :
    stringUnits fuel (cs.flatMap escapeChar ++ '"' :: rest) = some (cs.map .char, rest) := by
  obtain ⟨fuel, rfl⟩ := Nat.exists_eq_succ_of_ne_zero (Nat.ne_zero_of_lt h)
  induction cs generalizing fuel with
  | nil => simp [stringUnits]
  | cons c cs ih =>
    rw [List.length_cons] at h
    obtain ⟨fuel, rfl⟩ := Nat.exists_eq_succ_of_ne_zero (show fuel ≠ 0 by omega)
    rw [List.flatMap_cons, List.append_assoc, stringUnits_escapeChar, ih fuel (by omega)]
    rfl

theorem joinUnits_map_char (cs : List Char) : joinUnits (cs.map .char) = some cs := by
  induction cs with
  | nil => rfl
  | cons c cs ih => simp [joinUnits, ih]

theorem length_le_length_escaped (cs : List Char) :
    cs.length ≤ (cs.flatMap escapeChar).length := by
  have hone (c : Char) : 1 ≤ (escapeChar c).length := by
    unfold escapeChar
    iterate 8 (split; · exact Nat.le_add_left ..)
    exact Nat.le_refl 1
  induction cs with
  | nil => exact Nat.le_refl 0
  | cons c cs ih =>
    have hc := hone c
    rw [List.flatMap_cons, List.length_append, List.length_cons]
    omega

/-- **A string is read back**, whatever characters it holds. -/
theorem string?_quoted (s : String) (rest : List Char) :
    string? (s.toList.flatMap escapeChar ++ '"' :: rest) = some (some s, rest) := by
  have hlen : s.toList.length <
      (s.toList.flatMap escapeChar ++ '"' :: rest).length + 1 := by
    have := length_le_length_escaped s.toList
    rw [List.length_append]
    omega
  rw [string?, stringUnits_escaped _ _ hlen, Option.map_some, joinUnits_map_char,
    Option.map_some, String.ofList_toList]

/-! ## Numbers -/

/-- Whether characters cannot go on with a number that ends before them. -/
def EndsNumber (rest : List Char) : Prop :=
  ∀ c ∈ rest.head?, c.isDigit = false ∧ c ≠ '.' ∧ c ≠ 'e' ∧ c ≠ 'E'

theorem digits_append {ds rest : List Char} (hds : ∀ c ∈ ds, c.isDigit = true)
    (hrest : EndsNumber rest) : digits (ds ++ rest) = (ds, rest) := by
  have htake : rest.takeWhile Char.isDigit = [] ∧ rest.dropWhile Char.isDigit = rest := by
    cases rest with
    | nil => exact ⟨rfl, rfl⟩
    | cons c rest =>
      have hc : c.isDigit = false := (hrest c rfl).1
      exact ⟨by simp [hc], by simp [hc]⟩
  rw [digits, List.takeWhile_append_of_pos hds, List.dropWhile_append_of_pos hds, htake.1, htake.2,
    List.append_nil]

theorem fraction?_of_endsNumber {rest : List Char} (h : EndsNumber rest) :
    fraction? rest = some ([], rest) := by
  cases rest with
  | nil => rfl
  | cons c rest =>
    have hc : c ≠ '.' := (h c rfl).2.1
    simp [fraction?, hc]

theorem exponent?_of_endsNumber {rest : List Char} (h : EndsNumber rest) :
    exponent? rest = some ([], rest) := by
  cases rest with
  | nil => rfl
  | cons c rest =>
    obtain ⟨-, -, he, hE⟩ := h c rfl
    simp [exponent?, he, hE]

theorem decimalValue_toDigits (n : Nat) : decimalValue (Nat.toDigits 10 n) = n := by
  have hfold : decimalValue (Nat.toDigits 10 n) = Nat.ofDigitChars 10 (Nat.toDigits 10 n) 0 := by
    rw [Nat.ofDigitChars_eq_foldl, decimalValue]
    congr 1
    funext k c
    rw [Nat.mul_comm]
    rfl
  rw [hfold, Nat.ofDigitChars_ten_toDigits]

/-- A number is written without a needless zero in front. -/
theorem toDigits_ne_zero_cons (n : Nat) (c : Char) (cs : List Char) :
    Nat.toDigits 10 n ≠ '0' :: c :: cs := by
  induction n using Nat.strongRecOn generalizing c cs with
  | ind n ih =>
    intro h
    by_cases hn : n < 10
    · rw [Nat.toDigits_of_lt_base hn] at h
      exact List.cons_ne_nil c cs (List.cons.inj h).2.symm
    · rw [Nat.toDigits_of_base_le (by omega) (by omega)] at h
      -- the digits before the last one are those of the tenth part, which is not zero
      cases hds : Nat.toDigits 10 (n / 10) with
      | nil => exact Nat.toDigits_ne_nil hds
      | cons d ds =>
        rw [hds, List.cons_append] at h
        obtain ⟨rfl, hrest⟩ := List.cons.inj h
        cases ds with
        | nil =>
          have hvalue := decimalValue_toDigits (n / 10)
          rw [hds] at hvalue
          have hzero : decimalValue ['0'] = 0 := rfl
          omega
        | cons d' ds => exact ih (n / 10) (by omega) d' ds hds

/-- **A number is read back**, however great it is. -/
theorem number?_toDigits (n : Nat) {rest : List Char} (hrest : EndsNumber rest) :
    number? (Nat.toDigits 10 n ++ rest) = some (.nat n, rest) := by
  have hdigit (c : Char) (hc : c ∈ Nat.toDigits 10 n) : c.isDigit = true :=
    Nat.isDigit_of_mem_toDigits (by omega) (by omega) hc
  have hunsigned : unsigned? (Nat.toDigits 10 n ++ rest) =
      some (.nat n, Nat.toDigits 10 n, rest) := by
    rw [unsigned?, digits_append hdigit hrest]
    split
    · next h => exact absurd (congrArg Prod.fst h) Nat.toDigits_ne_nil
    · next h => exact absurd (congrArg Prod.fst h) (toDigits_ne_zero_cons n _ _)
    · next h =>
      obtain ⟨rfl, rfl⟩ := Prod.mk.inj h
      simp [fraction?_of_endsNumber hrest, exponent?_of_endsNumber hrest, decimalValue_toDigits]
  unfold number?
  split
  · next cs h =>
    -- the first character is a digit and no sign
    obtain ⟨d, ds, hds⟩ := List.exists_cons_of_ne_nil (Nat.toDigits_ne_nil (n := n) (b := 10))
    rw [hds, List.cons_append] at h
    have hminus := hdigit d (by rw [hds]; exact List.mem_cons_self)
    rw [(List.cons.inj h).1] at hminus
    cases hminus
  · rw [hunsigned]
    rfl

/-! ## Blanks -/

/-- Whether characters are blanks, which may stand between the parts of a collection. -/
def AreBlank (ws : List Char) : Prop := ∀ c ∈ ws, isSpace c = true

theorem areBlank_nil : AreBlank [] := fun _ hc => absurd hc List.not_mem_nil

theorem skipSpace_append {ws : List Char} (h : AreBlank ws) (cs : List Char) :
    skipSpace (ws ++ cs) = skipSpace cs := List.dropWhile_append_of_pos h

theorem skipSpace_cons {c : Char} (h : isSpace c = false) (cs : List Char) :
    skipSpace (c :: cs) = c :: cs := by simp [skipSpace, h]

theorem endsNumber_cons {c : Char} (h : c = ',' ∨ c = ']' ∨ c = '}' ∨ isSpace c = true)
    (rest : List Char) : EndsNumber (c :: rest) := by
  intro d hd
  obtain rfl := Option.some.inj hd
  rcases h with rfl | rfl | rfl | h
  · decide
  · decide
  · decide
  · simp only [isSpace, Bool.or_eq_true, beq_iff_eq] at h
    rcases h with ((rfl | rfl) | rfl) | rfl <;> decide

theorem endsNumber_append {ws : List Char} (h : AreBlank ws) {rest : List Char}
    (hrest : EndsNumber rest) : EndsNumber (ws ++ rest) := by
  cases ws with
  | nil => exact hrest
  | cons c ws => exact endsNumber_cons (.inr (.inr (.inr (h c List.mem_cons_self)))) _

/-! ## Values -/

/-- Whether characters are read as a value, whatever comes after them. -/
structure Reads (cs : List Char) (v : Json) : Prop where
  start : ∃ c, c ∈ cs.head? ∧ isSpace c = false ∧ c ≠ ']'
  value : ∀ (fuel : Nat) (rest : List Char), cs.length < fuel → EndsNumber rest →
    value? fuel (cs ++ rest) = some (v, rest)

/-- Whether characters before the end of an array are read as its items. -/
structure ReadsItems (cs : List Char) (vs : List Json) : Prop where
  start : ∃ c, c ∈ cs.head? ∧ isSpace c = false ∧ c ≠ ']'
  items : ∀ (fuel : Nat) (rest : List Char), cs.length + 1 < fuel →
    items? fuel (cs ++ ']' :: rest) = some (vs, rest)

/-- Whether characters before the end of an object are read as its members. -/
structure ReadsMembers (cs : List Char) (ms : List (String × Json)) : Prop where
  start : '"' ∈ cs.head?
  members : ∀ (fuel : Nat) (rest : List Char), cs.length + 1 < fuel →
    members? fuel (cs ++ '}' :: rest) = some (ms.map fun m => (some m.1, m.2), rest)

theorem reads_null : Reads ['n', 'u', 'l', 'l'] .null where
  start := ⟨'n', rfl, rfl, by decide⟩
  value fuel rest hfuel _ := by
    obtain ⟨fuel, rfl⟩ := Nat.exists_eq_succ_of_ne_zero (Nat.ne_zero_of_lt hfuel)
    rfl

theorem reads_true : Reads ['t', 'r', 'u', 'e'] (.bool true) where
  start := ⟨'t', rfl, rfl, by decide⟩
  value fuel rest hfuel _ := by
    obtain ⟨fuel, rfl⟩ := Nat.exists_eq_succ_of_ne_zero (Nat.ne_zero_of_lt hfuel)
    rfl

theorem reads_false : Reads ['f', 'a', 'l', 's', 'e'] (.bool false) where
  start := ⟨'f', rfl, rfl, by decide⟩
  value fuel rest hfuel _ := by
    obtain ⟨fuel, rfl⟩ := Nat.exists_eq_succ_of_ne_zero (Nat.ne_zero_of_lt hfuel)
    rfl

theorem reads_str (s : String) : Reads (quote s) (.str s) where
  start := ⟨'"', rfl, rfl, by decide⟩
  value fuel rest hfuel _ := by
    obtain ⟨fuel, rfl⟩ := Nat.exists_eq_succ_of_ne_zero (Nat.ne_zero_of_lt hfuel)
    have hquote : quote s ++ rest = '"' :: (s.toList.flatMap escapeChar ++ '"' :: rest) := by
      simp [quote]
    rw [hquote]
    simp [value?, string?_quoted]

/-- What starts with a digit is read as a number. -/
theorem value?_of_isDigit {c : Char} (hc : c.isDigit = true) (fuel : Nat) (cs : List Char) :
    value? (fuel + 1) (c :: cs) = number? (c :: cs) := by
  have hne (d : Char) (hd : d.isDigit = false) : c ≠ d := by
    rintro rfl
    rw [hc] at hd
    cases hd
  -- none of the words and signs that other values start with is a digit
  rw [value?] <;> exact fun _ h => absurd (List.cons.inj h).1 (hne _ rfl)

theorem isSpace_of_isDigit {c : Char} (h : c.isDigit = true) : isSpace c = false := by
  refine Bool.eq_false_iff.mpr ?_
  intro hspace
  simp only [isSpace, Bool.or_eq_true, beq_iff_eq] at hspace
  rcases hspace with ((rfl | rfl) | rfl) | rfl <;> cases h

theorem reads_nat (n : Nat) : Reads (Nat.toDigits 10 n) (.nat n) := by
  obtain ⟨d, ds, hds⟩ := List.exists_cons_of_ne_nil (Nat.toDigits_ne_nil (n := n) (b := 10))
  have hd : d.isDigit = true :=
    Nat.isDigit_of_mem_toDigits (b := 10) (n := n) (by omega) (by omega)
      (by rw [hds]; exact List.mem_cons_self)
  refine ⟨⟨d, by rw [hds]; rfl, isSpace_of_isDigit hd, ?_⟩, ?_⟩
  · rintro rfl
    cases hd
  · intro fuel rest hfuel hrest
    obtain ⟨fuel, rfl⟩ := Nat.exists_eq_succ_of_ne_zero (Nat.ne_zero_of_lt hfuel)
    have hnumber := number?_toDigits n hrest
    rw [hds, List.cons_append] at hnumber ⊢
    rw [value?_of_isDigit hd, hnumber]

/-! ## Collections -/

theorem skipSpace_start {cs : List Char} {P : Char → Prop}
    (h : ∃ c, c ∈ cs.head? ∧ isSpace c = false ∧ P c) (rest : List Char) :
    skipSpace (cs ++ rest) = cs ++ rest := by
  obtain ⟨c, hc, hspace, -⟩ := h
  cases cs with
  | nil => cases hc
  | cons d cs =>
    obtain rfl := Option.some.inj hc
    exact skipSpace_cons hspace _

/-- The last item of an array. -/
theorem Reads.last {cs ws : List Char} {v : Json} (h : Reads cs v) (hws : AreBlank ws) :
    ReadsItems (cs ++ ws) [v] := by
  refine ⟨?_, ?_⟩
  · obtain ⟨c, hc, hstart⟩ := h.start
    exact ⟨c, by simp_all, hstart⟩
  · intro fuel rest hfuel
    obtain ⟨fuel, rfl⟩ := Nat.exists_eq_succ_of_ne_zero (Nat.ne_zero_of_lt hfuel)
    rw [List.length_append] at hfuel
    have hvalue := h.value fuel (ws ++ ']' :: rest) (by omega)
      (endsNumber_append hws (endsNumber_cons (.inr (.inl rfl)) rest))
    have hskip : skipSpace (ws ++ ']' :: rest) = ']' :: rest := by
      rw [skipSpace_append hws, skipSpace_cons rfl]
    rw [List.append_assoc, items?, hvalue]
    simp only [hskip]

/-- An item of an array that others follow. -/
theorem Reads.before {cs ds ws : List Char} {v : Json} {vs : List Json} (h : Reads cs v)
    (hws : AreBlank ws) (hds : ReadsItems ds vs) : ReadsItems (cs ++ (',' :: ws) ++ ds) (v :: vs) := by
  refine ⟨?_, ?_⟩
  · obtain ⟨c, hc, hstart⟩ := h.start
    exact ⟨c, by simp_all, hstart⟩
  · intro fuel rest hfuel
    obtain ⟨fuel, rfl⟩ := Nat.exists_eq_succ_of_ne_zero (Nat.ne_zero_of_lt hfuel)
    simp only [List.length_append, List.length_cons] at hfuel
    have hvalue := h.value fuel (',' :: (ws ++ (ds ++ ']' :: rest))) (by omega)
      (endsNumber_cons (.inl rfl) _)
    have hskip : skipSpace (ws ++ (ds ++ ']' :: rest)) = ds ++ ']' :: rest := by
      rw [skipSpace_append hws, skipSpace_start hds.start]
    have hitems := hds.items fuel rest (by omega)
    have hcomma : skipSpace (',' :: (ws ++ (ds ++ ']' :: rest))) =
        ',' :: (ws ++ (ds ++ ']' :: rest)) := skipSpace_cons rfl _
    simp only [List.append_assoc, List.cons_append]
    rw [items?, hvalue]
    simp only [hcomma, hskip, hitems, Option.map_some]

/-- **Items are read back** from their join, with blanks after the commas and at the end. -/
theorem readsItems_sepBy {write : Json → List Char} {ws tail : List Char} (hws : AreBlank ws)
    (htail : AreBlank tail) {vs : List Json} (hne : vs ≠ [])
    (h : ∀ v ∈ vs, Reads (write v) v) :
    ReadsItems (sepBy (',' :: ws) (vs.map write) ++ tail) vs := by
  induction vs with
  | nil => exact absurd rfl hne
  | cons v vs ih =>
    have hv := h v List.mem_cons_self
    cases vs with
    | nil => exact hv.last htail
    | cons w vs =>
      have hrest := ih (List.cons_ne_nil w vs) fun x hx => h x (List.mem_cons_of_mem v hx)
      have hjoin : sepBy (',' :: ws) ((v :: w :: vs).map write) ++ tail =
          write v ++ (',' :: ws) ++ (sepBy (',' :: ws) ((w :: vs).map write) ++ tail) := by
        simp [sepBy]
      rw [hjoin]
      exact hv.before hws hrest

/-- An array, with blanks after its opening bracket. -/
theorem ReadsItems.reads {cs ws : List Char} {vs : List Json} (h : ReadsItems cs vs)
    (hws : AreBlank ws) : Reads ('[' :: ws ++ cs ++ [']']) (.arr vs) := by
  refine ⟨⟨'[', rfl, rfl, by decide⟩, ?_⟩
  intro fuel rest hfuel _
  obtain ⟨fuel, rfl⟩ := Nat.exists_eq_succ_of_ne_zero (Nat.ne_zero_of_lt hfuel)
  simp only [List.length_append, List.length_cons] at hfuel
  have hskip : skipSpace (ws ++ (cs ++ ']' :: rest)) = cs ++ ']' :: rest := by
    rw [skipSpace_append hws, skipSpace_start h.start]
  have hitems := h.items fuel rest (by omega)
  obtain ⟨c, hc, -, hclose⟩ := h.start
  simp only [List.append_assoc, List.cons_append, List.nil_append]
  cases cs with
  | nil => cases hc
  | cons d cs =>
    obtain rfl := Option.some.inj hc
    rw [List.cons_append] at hskip hitems
    simp only [value?, hskip, List.cons_append]
    split
    · next heq => exact absurd (List.cons.inj heq).1 hclose
    · rw [hitems, Option.map_some]

theorem reads_arr_nil : Reads ['[', ']'] (.arr []) where
  start := ⟨'[', rfl, rfl, by decide⟩
  value fuel rest hfuel _ := by
    obtain ⟨fuel, rfl⟩ := Nat.exists_eq_succ_of_ne_zero (Nat.ne_zero_of_lt hfuel)
    rfl

/-- The characters of a member, with blanks after the colon. -/
def memberChars (write : Json → List Char) (ws : List Char) (m : String × Json) : List Char :=
  quote m.1 ++ ':' :: ws ++ write m.2

/-- A member is read, and then what comes after it. -/
theorem members?_memberChars {write : Json → List Char} {ws : List Char} {m : String × Json}
    (hws : AreBlank ws) (h : Reads (write m.2) m.2) {fuel : Nat} {rest : List Char}
    (hfuel : (memberChars write ws m).length < fuel) (hrest : EndsNumber rest) :
    (∀ cs, skipSpace rest = '}' :: cs →
      members? (fuel + 1) (memberChars write ws m ++ rest) = some ([(some m.1, m.2)], cs)) ∧
    (∀ cs ms rest', skipSpace rest = ',' :: cs → members? fuel (skipSpace cs) = some (ms, rest') →
      members? (fuel + 1) (memberChars write ws m ++ rest) =
        some ((some m.1, m.2) :: ms, rest')) := by
  have hchars : memberChars write ws m ++ rest = '"' :: (m.1.toList.flatMap escapeChar ++
      '"' :: ':' :: (ws ++ (write m.2 ++ rest))) := by
    simp [memberChars, quote]
  have hcolon : skipSpace (':' :: (ws ++ (write m.2 ++ rest))) =
      ':' :: (ws ++ (write m.2 ++ rest)) := skipSpace_cons rfl _
  have hskip : skipSpace (ws ++ (write m.2 ++ rest)) = write m.2 ++ rest := by
    rw [skipSpace_append hws, skipSpace_start h.start]
  have hlen : (write m.2).length < fuel := by
    simp only [memberChars, List.length_append] at hfuel
    omega
  have hvalue := h.value fuel rest hlen hrest
  rw [hchars, members?, string?_quoted]
  refine ⟨?_, ?_⟩
  · intro cs hclose
    simp only [hcolon, hskip, hvalue, hclose]
  · intro cs ms rest' hcomma hmore
    simp only [hcolon, hskip, hvalue, hcomma, hmore, Option.map_some]

/-- **Members are read back** from their join, with blanks after the commas and at the end. -/
theorem readsMembers_sepBy {write : Json → List Char} {gap ws tail : List Char}
    (hgap : AreBlank gap) (hws : AreBlank ws) (htail : AreBlank tail)
    {ms : List (String × Json)} (hne : ms ≠ []) (h : ∀ m ∈ ms, Reads (write m.2) m.2) :
    ReadsMembers (sepBy (',' :: ws) (ms.map (memberChars write gap)) ++ tail) ms := by
  induction ms with
  | nil => exact absurd rfl hne
  | cons m ms ih =>
    have hm := h m List.mem_cons_self
    cases ms with
    | nil =>
      refine ⟨rfl, ?_⟩
      intro fuel rest hfuel
      obtain ⟨fuel, rfl⟩ := Nat.exists_eq_succ_of_ne_zero (Nat.ne_zero_of_lt hfuel)
      simp only [List.map_cons, List.map_nil, sepBy, List.length_append] at hfuel ⊢
      have hskip : skipSpace (tail ++ '}' :: rest) = '}' :: rest := by
        rw [skipSpace_append htail, skipSpace_cons rfl]
      rw [List.append_assoc]
      exact (members?_memberChars hgap hm (by omega)
        (endsNumber_append htail (endsNumber_cons (.inr (.inr (.inl rfl))) rest))).1 rest hskip
    | cons m' ms =>
      have hrest := ih (List.cons_ne_nil m' ms) fun x hx => h x (List.mem_cons_of_mem m hx)
      have hjoin : sepBy (',' :: ws) ((m :: m' :: ms).map (memberChars write gap)) ++ tail =
          memberChars write gap m ++ ',' ::
            (ws ++ (sepBy (',' :: ws) ((m' :: ms).map (memberChars write gap)) ++ tail)) := by
        simp [sepBy]
      rw [hjoin]
      generalize sepBy (',' :: ws) ((m' :: ms).map (memberChars write gap)) ++ tail = cs at hrest
      refine ⟨rfl, ?_⟩
      intro fuel rest hfuel
      obtain ⟨fuel, rfl⟩ := Nat.exists_eq_succ_of_ne_zero (Nat.ne_zero_of_lt hfuel)
      simp only [List.length_append, List.length_cons] at hfuel
      have hskip : skipSpace (ws ++ (cs ++ '}' :: rest)) = cs ++ '}' :: rest := by
        rw [skipSpace_append hws]
        exact skipSpace_start (P := fun _ => True) ⟨'"', hrest.start, rfl, trivial⟩ _
      have hmore := hrest.members fuel rest (by omega)
      rw [← hskip] at hmore
      simp only [List.append_assoc, List.cons_append]
      exact (members?_memberChars hgap hm (by omega) (endsNumber_cons (.inl rfl) _)).2 _ _ _
        (skipSpace_cons rfl _) hmore

theorem ofMembers_map_some (ms : List (String × Json)) :
    ofMembers (ms.map fun m => (some m.1, m.2)) = .obj ms := by
  have hall : (ms.map fun m => (some m.1, m.2)).mapM (m := Option)
      (fun m : Option String × Json => m.1.map (·, m.2)) = some ms := by
    induction ms with
    | nil => rfl
    | cons m ms ih => simp [List.mapM_cons, ih]
  rw [ofMembers, hall]

/-- An object, with blanks after its opening brace. -/
theorem ReadsMembers.reads {cs ws : List Char} {ms : List (String × Json)}
    (h : ReadsMembers cs ms) (hws : AreBlank ws) : Reads ('{' :: ws ++ cs ++ ['}']) (.obj ms) := by
  refine ⟨⟨'{', rfl, rfl, by decide⟩, ?_⟩
  intro fuel rest hfuel _
  obtain ⟨fuel, rfl⟩ := Nat.exists_eq_succ_of_ne_zero (Nat.ne_zero_of_lt hfuel)
  simp only [List.length_append, List.length_cons] at hfuel
  have hskip : skipSpace (ws ++ (cs ++ '}' :: rest)) = cs ++ '}' :: rest := by
    rw [skipSpace_append hws]
    exact skipSpace_start (P := fun _ => True) ⟨'"', h.start, rfl, trivial⟩ _
  have hmembers := h.members fuel rest (by omega)
  have hstart := h.start
  simp only [List.append_assoc, List.cons_append, List.nil_append]
  cases cs with
  | nil => cases hstart
  | cons c cs =>
    obtain rfl := Option.some.inj hstart
    rw [List.cons_append] at hskip hmembers
    simp only [value?, hskip, List.cons_append]
    show (members? fuel ('"' :: (cs ++ '}' :: rest))).map _ = _
    rw [hmembers, Option.map_some, ofMembers_map_some]

theorem reads_obj_nil : Reads ['{', '}'] (.obj []) where
  start := ⟨'{', rfl, rfl, by decide⟩
  value fuel rest hfuel _ := by
    obtain ⟨fuel, rfl⟩ := Nat.exists_eq_succ_of_ne_zero (Nat.ne_zero_of_lt hfuel)
    rfl

/-! ## The compact layout -/

/-- Whether a value is made of texts, flags, numbers and collections. -/
inductive IsPlain : Json → Prop
  | null : IsPlain .null
  | bool (b : Bool) : IsPlain (.bool b)
  | nat (n : Nat) : IsPlain (.nat n)
  | str (s : String) : IsPlain (.str s)
  | arr {items : List Json} (h : ∀ v ∈ items, IsPlain v) : IsPlain (.arr items)
  | obj {members : List (String × Json)} (h : ∀ m ∈ members, IsPlain m.2) : IsPlain (.obj members)

theorem compactItems_eq (items : List Json) : compactItems items = items.map compactChars := by
  induction items with
  | nil => rfl
  | cons v items ih => rw [compactItems, ih, List.map_cons]

theorem compactMembers_eq (members : List (String × Json)) :
    compactMembers members = members.map (memberChars compactChars []) := by
  induction members with
  | nil => rfl
  | cons m members ih =>
    obtain ⟨k, v⟩ := m
    rw [compactMembers, ih, List.map_cons, memberChars]
    simp

/-- **A plain value is read back from its compact layout**, whatever comes after it. -/
theorem IsPlain.reads {v : Json} (h : IsPlain v) : Reads (compactChars v) v := by
  induction h with
  | null => exact reads_null
  | bool b =>
    cases b with
    | true => exact reads_true
    | false => exact reads_false
  | nat n => exact reads_nat n
  | str s => exact reads_str s
  | @arr items _ ih =>
    rw [compactChars, compactItems_eq]
    by_cases hne : items = []
    · rw [hne]
      exact reads_arr_nil
    · have hitems := readsItems_sepBy areBlank_nil areBlank_nil hne ih
      rw [List.append_nil] at hitems
      exact hitems.reads areBlank_nil
  | @obj members _ ih =>
    rw [compactChars, compactMembers_eq]
    by_cases hne : members = []
    · rw [hne]
      exact reads_obj_nil
    · have hmembers := readsMembers_sepBy areBlank_nil areBlank_nil areBlank_nil hne ih
      rw [List.append_nil] at hmembers
      exact hmembers.reads areBlank_nil

/-- A text that is read as a value is parsed as it. -/
theorem Reads.parse? {cs : List Char} {v : Json} (h : Reads cs v) :
    Json.parse? (String.ofList cs) = some v := by
  have hskip := skipSpace_start h.start []
  have hvalue := h.value (cs.length + 1) [] (Nat.lt_succ_self _) fun c hc => nomatch hc
  rw [List.append_nil] at hskip hvalue
  simp only [Json.parse?, String.toList_ofList, hskip, hvalue]
  rfl

/-- **A plain value is read back from its compact text.** -/
theorem IsPlain.parse?_compact {v : Json} (h : IsPlain v) : parse? v.compact = some v :=
  h.reads.parse?

end Json

end StyleEngine
