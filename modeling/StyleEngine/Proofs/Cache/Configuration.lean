import StyleEngine.Cache.Document
import StyleEngine.Proofs.Cache.Entries

/-! # Flags as one text

The flags of a project are stored as one text, joined by semicolons, and read back
by cutting it there.  Flags that are not empty, have no blanks at their ends and
hold no semicolon (`IsPlainFlag`) come back as they were; only these do, so that
stored flags can be told from all others if and only if they are plain
(`ProjectInfo.sameConfiguration_flagged`).
-/
namespace StyleEngine

/-! ## Cutting what was joined -/

theorem parts_of_notMem {sep : Char} {cs : List Char} (h : sep ∉ cs) : parts sep cs = [cs] := by
  induction cs with
  | nil => rfl
  | cons c cs ih =>
    have hc : c ≠ sep := fun hc => h (by simp [hc])
    have hcs : parts sep cs = [cs] := ih fun hmem => h (List.mem_cons_of_mem c hmem)
    show consPart sep c (parts sep cs) = [c :: cs]
    rw [hcs, consPart, if_neg hc]

theorem parts_ne_nil (sep : Char) (cs : List Char) : parts sep cs ≠ [] := by
  cases cs with
  | nil => exact List.cons_ne_nil _ _
  | cons c cs =>
    show consPart sep c (parts sep cs) ≠ []
    unfold consPart
    split
    · exact List.cons_ne_nil _ _
    · split <;> exact List.cons_ne_nil _ _

theorem consPart_append {sep c : Char} {l : List (List Char)} (hl : l ≠ [])
    (rest : List (List Char)) : consPart sep c (l ++ rest) = consPart sep c l ++ rest := by
  obtain ⟨p, ps, rfl⟩ := List.exists_cons_of_ne_nil hl
  unfold consPart
  split <;> rfl

/-- A text that is cut at a separator is cut on both sides of it. -/
theorem parts_append (sep : Char) (cs rest : List Char) :
    parts sep (cs ++ sep :: rest) = parts sep cs ++ parts sep rest := by
  induction cs with
  | nil =>
    show consPart sep sep (parts sep rest) = [] :: parts sep rest
    rw [consPart.eq_def, if_pos rfl]
  | cons c cs ih =>
    show consPart sep c (parts sep (cs ++ sep :: rest)) =
      consPart sep c (parts sep cs) ++ parts sep rest
    rw [ih, consPart_append (parts_ne_nil sep cs)]

/-- **The parts of a join are the parts of what was joined.** -/
theorem parts_intercalate (sep : Char) {l : List (List Char)} (hne : l ≠ []) :
    parts sep ([sep].intercalate l) = l.flatMap (parts sep) := by
  induction l with
  | nil => exact absurd rfl hne
  | cons cs rest ih =>
    by_cases hrest : rest = []
    · rw [hrest, List.intercalate_singleton, List.flatMap_singleton]
    · rw [List.intercalate_cons_of_ne_nil hrest, List.append_assoc, List.singleton_append,
        parts_append, ih hrest, List.flatMap_cons]

/-- No part holds the separator. -/
theorem notMem_of_mem_parts {sep : Char} {cs part : List Char} (h : part ∈ parts sep cs) :
    sep ∉ part := by
  induction cs generalizing part with
  | nil =>
    obtain rfl := List.mem_singleton.mp h
    exact List.not_mem_nil
  | cons c cs ih =>
    obtain ⟨p, ps, hps⟩ := List.exists_cons_of_ne_nil (parts_ne_nil sep cs)
    have hpart : part ∈ consPart sep c (p :: ps) := hps ▸ h
    unfold consPart at hpart
    split at hpart
    · rcases List.mem_cons.mp hpart with rfl | hmem
      · exact List.not_mem_nil
      · exact ih (hps ▸ hmem)
    · next hc =>
      rcases List.mem_cons.mp hpart with rfl | hmem
      · have hp : sep ∉ p := ih (hps ▸ List.mem_cons_self)
        simpa [Ne.symm hc] using hp
      · exact ih (hps ▸ List.mem_cons_of_mem p hmem)

/-! ## Flags -/

/-- Whether a flag can be told from others in one text. -/
structure IsPlainFlag (flag : String) : Prop where
  notEmpty : flag ≠ ""
  trimmed : trimBlanks flag = flag
  whole : ';' ∉ flag.toList

/-- A plain flag is cut and trimmed to itself. -/
theorem IsPlainFlag.cachedFlags_eq {flag : String} (h : IsPlainFlag flag) :
    cachedFlags flag = [flag] := by
  have hsplit : splitParts ';' flag = [flag] := by
    rw [splitParts, parts_of_notMem h.whole]
    simp
  rw [cachedFlags, hsplit, List.map_singleton, h.trimmed, List.filter_eq_self]
  intro x hx
  rw [List.mem_singleton.mp hx]
  simpa using h.notEmpty

namespace ProjectInfo

variable {p : ProjectInfo}

/-- **What is read from the text of some flags** is what each of them is cut to. -/
theorem cachedFlags_fingerprint (p : ProjectInfo) :
    cachedFlags p.fingerprint = p.flags.flatMap cachedFlags := by
  by_cases hnil : p.flags = []
  · rw [fingerprint, hnil]
    rfl
  · have hchars : (p.flags.map String.toList) ≠ [] := by simpa using hnil
    have hsep : (";" : String).toList = [';'] := rfl
    simp only [cachedFlags, splitParts, fingerprint, String.toList_intercalate, hsep,
      parts_intercalate ';' hchars, List.map_flatMap, List.filter_flatMap, List.flatMap_map]
    rfl

/-- Plain flags come back from their text. -/
theorem cachedFlags_fingerprint_plain (h : ∀ flag ∈ p.flags, IsPlainFlag flag) :
    cachedFlags p.fingerprint = p.flags := by
  rw [cachedFlags_fingerprint]
  calc p.flags.flatMap cachedFlags
      = p.flags.flatMap fun flag => [flag] := by
        rw [List.flatMap_def, List.flatMap_def,
          List.map_congr_left fun flag hflag => (h flag hflag).cachedFlags_eq]
    _ = p.flags := by simp

/-- **What a project with plain flags was stored under is its configuration.** -/
theorem sameConfiguration_fingerprint (h : ∀ flag ∈ p.flags, IsPlainFlag flag)
    (hnd : p.flags.Nodup) : sameConfiguration p.fingerprint p.flags = true := by
  rw [sameConfiguration, cachedFlags_fingerprint_plain h, eraseDups_of_nodup hnd]
  simp

end ProjectInfo

/-! ## What flags are read -/

theorem dropWhile_dropWhile {α : Type} (P : α → Bool) (l : List α) :
    (l.dropWhile P).dropWhile P = l.dropWhile P := by
  induction l with
  | nil => rfl
  | cons a l ih =>
    rw [List.dropWhile_cons]
    split
    · exact ih
    · next ha => rw [List.dropWhile_cons_of_neg ha]

theorem trimEnd_isPrefix (cs : List Char) : trimEnd cs <+: cs := by
  have hsuffix : cs.reverse.dropWhile isBlank <:+ cs.reverse := List.dropWhile_suffix isBlank
  have hprefix := List.reverse_prefix.mpr hsuffix
  rwa [List.reverse_reverse] at hprefix

theorem trimStart_trimEnd_trimStart (cs : List Char) :
    trimStart (trimEnd (trimStart cs)) = trimEnd (trimStart cs) := by
  cases hkept : trimEnd (trimStart cs) with
  | nil => rfl
  | cons c ds =>
    -- the first character was the first one that is no blank
    obtain ⟨rest, hrest⟩ := trimEnd_isPrefix (trimStart cs)
    have hc : isBlank c = false := by
      have hhead := List.head?_dropWhile_not isBlank cs
      rw [show cs.dropWhile isBlank = c :: ds ++ rest by rw [← hkept, hrest]; rfl] at hhead
      exact hhead
    exact List.dropWhile_cons_of_neg (by simp [hc])

/-- Trimming a text twice is trimming it once. -/
theorem trimBlanks_trimBlanks (s : String) : trimBlanks (trimBlanks s) = trimBlanks s := by
  have hend : trimEnd (trimEnd (trimStart s.toList)) = trimEnd (trimStart s.toList) := by
    rw [trimEnd, trimEnd, List.reverse_reverse, dropWhile_dropWhile]
  rw [trimBlanks, trimBlanks, String.toList_ofList, trimStart_trimEnd_trimStart, hend]

/-- **Only plain flags are read**, from whatever text. -/
theorem isPlainFlag_of_mem_cachedFlags {text flag : String} (h : flag ∈ cachedFlags text) :
    IsPlainFlag flag := by
  obtain ⟨hmem, hne⟩ := List.mem_filter.mp h
  obtain ⟨raw, hraw, rfl⟩ := List.mem_map.mp hmem
  obtain ⟨part, hpart, rfl⟩ := List.mem_map.mp hraw
  refine ⟨by simpa using hne, trimBlanks_trimBlanks _, ?_⟩
  intro hsep
  rw [trimBlanks, String.toList_ofList, String.toList_ofList] at hsep
  have hstart := (trimEnd_isPrefix _).subset hsep
  exact notMem_of_mem_parts hpart ((List.dropWhile_sublist isBlank).subset hstart)

/-! ## Sets of flags -/

namespace ProjectInfo

theorem mem_insertFlag (flag x : String) (l : List String) :
    x ∈ insertFlag flag l ↔ x = flag ∨ x ∈ l := by
  induction l with
  | nil => simp [insertFlag]
  | cons f rest ih =>
    unfold insertFlag
    split
    · exact List.mem_cons
    · split
      · next heq => simp [heq]
      · rw [List.mem_cons, ih, List.mem_cons]
        exact or_left_comm

theorem pairwise_insertFlag (flag : String) {l : List String} (h : l.Pairwise (· < ·)) :
    (insertFlag flag l).Pairwise (· < ·) := by
  induction l with
  | nil => exact List.pairwise_singleton ..
  | cons f rest ih =>
    obtain ⟨hf, hrest⟩ := List.pairwise_cons.mp h
    unfold insertFlag
    split
    · next hlt =>
      refine List.pairwise_cons.mpr ⟨?_, h⟩
      intro x hx
      rcases List.mem_cons.mp hx with rfl | hx
      · exact hlt
      · exact String.lt_trans hlt (hf x hx)
    · next hge =>
      split
      · exact h
      · next hne =>
        refine List.pairwise_cons.mpr ⟨?_, ih hrest⟩
        intro x hx
        rcases (mem_insertFlag ..).mp hx with rfl | hx
        · exact Record.lt_of_not_lt_of_ne hge hne
        · exact hf x hx

/-- A project with just the given flags. -/
def flagged (p : ProjectInfo) (flags : List String) : ProjectInfo :=
  { p with flags := [] }.withFlags flags

theorem flags_flagged (p : ProjectInfo) (flags : List String) :
    (p.flagged flags).flags.Nodup ∧ ∀ x, x ∈ (p.flagged flags).flags ↔ x ∈ flags := by
  have hfold (l : List String) (hl : l.Pairwise (· < ·)) :
      (flags.foldl (fun fs f => insertFlag f fs) l).Pairwise (· < ·) ∧
        ∀ x, x ∈ flags.foldl (fun fs f => insertFlag f fs) l ↔ x ∈ flags ∨ x ∈ l := by
    induction flags generalizing l with
    | nil => exact ⟨hl, fun x => by simp⟩
    | cons f flags ih =>
      obtain ⟨hsorted, hmem⟩ := ih _ (pairwise_insertFlag f hl)
      refine ⟨hsorted, ?_⟩
      intro x
      rw [List.foldl_cons, hmem, mem_insertFlag, List.mem_cons]
      simp only [or_assoc, or_left_comm]
  obtain ⟨hsorted, hmem⟩ := hfold [] List.Pairwise.nil
  refine ⟨hsorted.imp String.ne_of_lt, ?_⟩
  intro x
  show x ∈ flags.foldl _ [] ↔ _
  rw [hmem]
  simp

end ProjectInfo

theorem nodup_eraseDups (l : List String) : l.eraseDups.Nodup := by
  generalize hn : l.length = n
  induction n using Nat.strongRecOn generalizing l with
  | ind n ih =>
    cases l with
    | nil => exact List.nodup_nil
    | cons x l =>
      rw [List.eraseDups_cons, List.nodup_cons]
      have hlength := List.length_filter_le (fun y => !y == x) l
      rw [List.length_cons] at hn
      refine ⟨by simp [List.mem_eraseDups], ih _ ?_ _ rfl⟩
      omega

/-- A stored text is the configuration of a project if the flags that are read from it are
those of the project. -/
theorem sameConfiguration_iff (text : String) {flags : List String} (h : flags.Nodup) :
    sameConfiguration text flags = true ↔ ∀ flag, flag ∈ flags ↔ flag ∈ cachedFlags text := by
  have hnd := nodup_eraseDups (cachedFlags text)
  have hmem (flag : String) : flag ∈ (cachedFlags text).eraseDups ↔ flag ∈ cachedFlags text :=
    List.mem_eraseDups
  simp only [sameConfiguration, Bool.and_eq_true, beq_iff_eq, List.all_eq_true,
    List.contains_iff_mem]
  constructor
  · rintro ⟨hlength, hsub⟩ flag
    refine ⟨?_, fun hflag => hsub flag ((hmem flag).mpr hflag)⟩
    intro hflag
    rw [← hmem]
    -- one more flag would be too many
    by_cases hin : flag ∈ (cachedFlags text).eraseDups
    · exact hin
    · have hmore := (List.nodup_cons.mpr ⟨hin, hnd⟩).length_le_of_subset
        (List.cons_subset.mpr ⟨hflag, hsub⟩)
      rw [List.length_cons] at hmore
      omega
  · intro hsame
    have hsub : ∀ flag ∈ (cachedFlags text).eraseDups, flag ∈ flags := fun flag hflag =>
      (hsame flag).mpr ((hmem flag).mp hflag)
    refine ⟨Nat.le_antisymm (hnd.length_le_of_subset hsub) (h.length_le_of_subset ?_), hsub⟩
    intro flag hflag
    exact (hmem flag).mpr ((hsame flag).mp hflag)

namespace ProjectInfo

/-- **When stored flags can be told from others.**  The flags that a project was stored under are
taken for those that are read from their text; they are taken for themselves and no others if and
only if all of them are plain. -/
theorem sameConfiguration_flagged (p : ProjectInfo) (given : List String) :
    (∀ (q : ProjectInfo) (others : List String),
      sameConfiguration (p.flagged given).fingerprint (q.flagged others).flags = true ↔
        ∀ flag, flag ∈ others ↔ ∃ f ∈ given, flag ∈ cachedFlags f) ∧
    ((∀ (q : ProjectInfo) (others : List String),
      sameConfiguration (p.flagged given).fingerprint (q.flagged others).flags = true ↔
        ∀ flag, flag ∈ given ↔ flag ∈ others) ↔
      ∀ flag ∈ given, IsPlainFlag flag) := by
  have hread (q : ProjectInfo) (others : List String) :
      sameConfiguration (p.flagged given).fingerprint (q.flagged others).flags = true ↔
        ∀ flag, flag ∈ others ↔ ∃ f ∈ given, flag ∈ cachedFlags f := by
    obtain ⟨hnd, hmem⟩ := flags_flagged q others
    rw [sameConfiguration_iff _ hnd]
    simp only [cachedFlags_fingerprint, List.mem_flatMap, hmem, (flags_flagged p given).2]
  refine ⟨hread, ?_, ?_⟩
  · intro hfaithful flag hflag
    have hsame := (hread p given).mp ((hfaithful p given).mpr fun _ => Iff.rfl)
    obtain ⟨f, -, hf⟩ := (hsame flag).mp hflag
    exact isPlainFlag_of_mem_cachedFlags hf
  · intro hplain q others
    have hself (flag : String) : (∃ f ∈ given, flag ∈ cachedFlags f) ↔ flag ∈ given := by
      constructor
      · rintro ⟨f, hf, hflag⟩
        rw [(hplain f hf).cachedFlags_eq, List.mem_singleton] at hflag
        exact hflag ▸ hf
      · intro hflag
        refine ⟨flag, hflag, ?_⟩
        rw [(hplain flag hflag).cachedFlags_eq]
        exact List.mem_singleton_self flag
    rw [hread]
    simp only [hself]
    exact forall_congr' fun flag => Iff.comm

/-- A flag with a semicolon is taken for two. -/
theorem sameConfiguration_flagged_joined : ¬ ∀ (p q : ProjectInfo) (given others : List String),
    sameConfiguration (p.flagged given).fingerprint (q.flagged others).flags = true ↔
      ∀ flag, flag ∈ given ↔ flag ∈ others := by
  intro h
  have hsame : sameConfiguration (flagged {} ["A;B"]).fingerprint
      (flagged {} ["A", "B"]).flags = true := by decide +kernel
  have hmem := ((h {} {} ["A;B"] ["A", "B"]).mp hsame "A").mpr List.mem_cons_self
  revert hmem
  decide

end ProjectInfo

end StyleEngine
