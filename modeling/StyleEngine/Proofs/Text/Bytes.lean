import Mathlib.Algebra.Group.Nat.Defs

/-! # The bytes of a text

A text is kept as its bytes in UTF-8.  The order of texts, which is that of their
characters, is also that of their bytes (`toList_toUTF8_lt_iff`): the first byte of a
character tells how many follow, more for a greater code, and then come the
digits of the code to the base 64, the highest first.
-/
namespace StyleEngine

/-! ## Bytes as a list -/

theorem byteLoop_eq (bytes : ByteArray) (i : Nat) (done : List UInt8) :
    ByteArray.toList.loop bytes i done = done.reverse ++ bytes.data.toList.drop i := by
  induction i, done using ByteArray.toList.loop.induct bytes with
  | case1 i done hi ih =>
    have hlength : i < bytes.data.toList.length := by
      rw [Array.length_toList]
      exact hi
    have hget : bytes.get! i = bytes.data.toList[i] := by
      obtain ⟨data⟩ := bytes
      exact getElem!_pos data i hi
    rw [ByteArray.toList.loop, if_pos hi, ih, List.reverse_cons, List.append_assoc,
      List.drop_eq_getElem_cons hlength, hget, List.singleton_append]
  | case2 i done hi =>
    have hlength : bytes.data.toList.length ≤ i := by
      rw [Array.length_toList]
      exact Nat.le_of_not_lt hi
    rw [ByteArray.toList.loop, if_neg hi, List.drop_eq_nil_of_le hlength, List.append_nil]

/-- The bytes of a text are those of its characters, one after the other. -/
theorem toList_toUTF8 (s : String) : s.toUTF8.toList = s.toList.flatMap String.utf8EncodeChar := by
  have hdata (bytes : ByteArray) : bytes.toList = bytes.data.toList := byteLoop_eq bytes 0 []
  rw [hdata, String.toUTF8_eq_toByteArray, ← String.utf8Encode_toList, List.utf8Encode,
    List.data_toByteArray]

/-! ## The bytes of one character -/

/-- The last bytes of a character, with the lowest `k` digits of its code. -/
def trailingBytes : Nat → Nat → List UInt8
  | 0, _ => []
  | k + 1, code => UInt8.ofNat (code / 64 ^ k % 64 + 0x80) :: trailingBytes k code

/-- How many bytes follow the first one. -/
def trailingCount (code : Nat) : Nat :=
  if code ≤ 0x7f then 0 else if code ≤ 0x7ff then 1 else if code ≤ 0xffff then 2 else 3

/-- What the first byte tells of the number of those that follow: a one for each byte. -/
def leadMark (count : Nat) : Nat := if count = 0 then 0 else 0x100 - 2 ^ (7 - count)

/-- The first byte of a character: the digits that are left, and the mark. -/
def leadByte (code : Nat) : Nat := code / 64 ^ trailingCount code + leadMark (trailingCount code)

theorem trailingCount_le {m n : Nat} (h : m ≤ n) : trailingCount m ≤ trailingCount n := by
  unfold trailingCount
  repeat' split
  all_goals omega

theorem leadMark_le {j k : Nat} (h : j ≤ k) : leadMark j ≤ leadMark k := by
  have hpow : 2 ^ (7 - k) ≤ 2 ^ (7 - j) := Nat.pow_le_pow_right (by omega) (by omega)
  unfold leadMark
  split
  · exact Nat.zero_le _
  · rw [if_neg (by omega)]
    omega

theorem leadMark_le_size (k : Nat) : leadMark k ≤ UInt8.size := by
  unfold leadMark
  split
  · exact Nat.zero_le _
  · exact Nat.sub_le ..

theorem toNat_lt_max (c : Char) : c.toNat < 0x110000 := by
  have hvalid : c.toNat.isValidChar := c.valid
  unfold Nat.isValidChar at hvalid
  omega

/-- The mark leaves no room for that of another number of bytes. -/
theorem leadByte_lt {code : Nat} (h : code < 0x110000) :
    leadByte code < leadMark (trailingCount code + 1) := by
  have hzero : leadMark 0 = 0 := rfl
  have hone : leadMark 1 = 0xc0 := rfl
  have htwo : leadMark 2 = 0xe0 := rfl
  have hthree : leadMark 3 = 0xf0 := rfl
  have hfour : leadMark 4 = 0xf8 := rfl
  unfold leadByte trailingCount
  split
  · rw [hzero, hone]; omega
  split
  · rw [hone, htwo]; omega
  split
  · rw [htwo, hthree]; omega
  · rw [hthree, hfour]; omega

theorem utf8EncodeChar_eq (c : Char) : String.utf8EncodeChar c =
    UInt8.ofNat (leadByte c.toNat) :: trailingBytes (trailingCount c.toNat) c.toNat := by
  have hmax := toNat_lt_max c
  unfold leadByte trailingCount
  simp only [String.utf8EncodeChar]
  change (if c.toNat ≤ _ then _ else if c.toNat ≤ _ then _ else if c.toNat ≤ _ then _ else _) = _
  split
  · simp [trailingBytes, leadMark]
  split
  · have h : c.toNat / 64 % 32 = c.toNat / 64 := by omega
    simp [trailingBytes, leadMark, h]
  split
  · have h : c.toNat / 4096 % 16 = c.toNat / 4096 := by omega
    simp [trailingBytes, leadMark, h]
  · have h : c.toNat / 262144 % 8 = c.toNat / 262144 := by omega
    simp [trailingBytes, leadMark, h]

/-! ## The order of texts -/

/-- Trailing bytes are in the order of the digits they hold. -/
theorem trailingBytes_append_lt {k m n : Nat} (h : m % 64 ^ k < n % 64 ^ k) (cs ds : List UInt8) :
    trailingBytes k m ++ cs < trailingBytes k n ++ ds := by
  induction k with
  | zero => omega
  | succ k ih =>
    have hbyte (digits : Nat) : digits % 64 + 0x80 < UInt8.size := by
      show _ < 256
      omega
    rw [Nat.pow_succ, Nat.mod_mul, Nat.mod_mul] at h
    rw [trailingBytes, trailingBytes, List.cons_append, List.cons_append, List.cons_lt_cons_iff]
    rcases Nat.lt_trichotomy (m / 64 ^ k % 64) (n / 64 ^ k % 64) with hlt | heq | hgt
    · exact .inl ((UInt8.ofNat_lt_iff_lt (hbyte _) (hbyte _)).mpr (Nat.add_lt_add_right hlt _))
    · rw [heq] at h ⊢
      exact .inr ⟨rfl, ih (Nat.lt_of_add_lt_add_right h)⟩
    · -- a smaller digit cannot be made up for by those behind it
      have hm : m % 64 ^ k < 64 ^ k := Nat.mod_lt _ (Nat.pow_pos (by omega))
      have hn : n % 64 ^ k < 64 ^ k := Nat.mod_lt _ (Nat.pow_pos (by omega))
      have hmul : 64 ^ k * (n / 64 ^ k % 64 + 1) ≤ 64 ^ k * (m / 64 ^ k % 64) :=
        Nat.mul_le_mul_left _ hgt
      rw [Nat.mul_succ] at hmul
      omega

/-- The first byte of a greater code is greater, or is the same and as many bytes follow. -/
theorem leadByte_lt_or_eq {m n : Nat} (h : m < n) (hm : m < 0x110000) :
    leadByte m < leadByte n ∨ trailingCount m = trailingCount n ∧
      m / 64 ^ trailingCount n = n / 64 ^ trailingCount n := by
  rcases Nat.lt_or_eq_of_le (trailingCount_le (Nat.le_of_lt h)) with hcount | hcount
  · left
    calc leadByte m
        < leadMark (trailingCount m + 1) := leadByte_lt hm
      _ ≤ leadMark (trailingCount n) := leadMark_le hcount
      _ ≤ leadByte n := Nat.le_add_left ..
  · rcases Nat.lt_or_eq_of_le (Nat.div_le_div_right (c := 64 ^ trailingCount n) (Nat.le_of_lt h))
      with hdiv | hdiv
    · left
      rw [leadByte, leadByte, hcount]
      exact Nat.add_lt_add_right hdiv _
    · exact .inr ⟨hcount, hdiv⟩

/-- **The bytes of characters are in the order of the characters**, whatever comes after them. -/
theorem utf8EncodeChar_append_lt {c d : Char} (h : c < d) (cs ds : List UInt8) :
    String.utf8EncodeChar c ++ cs < String.utf8EncodeChar d ++ ds := by
  have hlt : c.toNat < d.toNat := h
  rw [utf8EncodeChar_eq, utf8EncodeChar_eq, List.cons_append, List.cons_append,
    List.cons_lt_cons_iff]
  rcases leadByte_lt_or_eq hlt (toNat_lt_max c) with hlead | ⟨hcount, hdiv⟩
  · have hbyte : leadByte d.toNat < UInt8.size :=
      Nat.lt_of_lt_of_le (leadByte_lt (toNat_lt_max d)) (leadMark_le_size _)
    exact .inl ((UInt8.ofNat_lt_iff_lt (Nat.lt_trans hlead hbyte) hbyte).mpr hlead)
  · right
    refine ⟨by rw [leadByte, leadByte, hcount, hdiv], ?_⟩
    rw [hcount]
    refine trailingBytes_append_lt ?_ cs ds
    have hm := Nat.div_add_mod c.toNat (64 ^ trailingCount d.toNat)
    have hn := Nat.div_add_mod d.toNat (64 ^ trailingCount d.toNat)
    rw [hdiv] at hm
    omega

theorem flatMap_utf8EncodeChar_lt {cs ds : List Char} (h : cs < ds) :
    cs.flatMap String.utf8EncodeChar < ds.flatMap String.utf8EncodeChar := by
  induction h with
  | @nil d ds =>
    obtain ⟨b, bs, hbytes⟩ := List.exists_cons_of_ne_nil (String.utf8EncodeChar_ne_nil (c := d))
    rw [List.flatMap_cons, hbytes]
    exact List.nil_lt_cons ..
  | rel hlt => exact utf8EncodeChar_append_lt hlt _ _
  | cons _ ih => exact List.append_left_lt ih

/-- **Texts are in the order of their bytes.** -/
theorem toList_toUTF8_lt_iff {s t : String} : s.toUTF8.toList < t.toUTF8.toList ↔ s < t := by
  rw [toList_toUTF8, toList_toUTF8]
  constructor
  · intro h
    rcases Std.lt_trichotomy s t with hlt | rfl | hgt
    · exact hlt
    · exact absurd h (List.lt_irrefl _)
    · exact absurd (flatMap_utf8EncodeChar_lt hgt) (List.lt_asymm h)
  · exact flatMap_utf8EncodeChar_lt

end StyleEngine
