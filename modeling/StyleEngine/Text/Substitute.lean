/-! # Substitution in texts

Replacing every occurrence of a word, from the left and without overlap.
-/
namespace StyleEngine

/-- The rest of a text after a word that it starts with. -/
def dropWord? : List Char → List Char → Option (List Char)
  | [], cs => some cs
  | _ :: _, [] => none
  | w :: ws, c :: cs => if w = c then dropWord? ws cs else none

theorem eq_append_of_dropWord? {w cs rest : List Char} (h : dropWord? w cs = some rest) :
    cs = w ++ rest := by
  induction w generalizing cs with
  | nil => simpa [dropWord?] using h
  | cons a w ih =>
    cases cs with
    | nil => simp [dropWord?] at h
    | cons c cs =>
      simp only [dropWord?] at h
      split at h
      · rename_i hac
        rw [hac, List.cons_append, ← ih h]
      · simp at h

theorem dropWord?_append (w rest : List Char) : dropWord? w (w ++ rest) = some rest := by
  induction w with
  | nil => rfl
  | cons c w ih => simp [dropWord?, ih]

theorem dropWord?_eq_none_iff {w cs : List Char} : dropWord? w cs = none ↔ ¬ w <+: cs := by
  rw [Option.eq_none_iff_forall_ne_some]
  constructor
  · intro h hstarts
    obtain ⟨rest, rfl⟩ := hstarts
    exact h rest (dropWord?_append w rest)
  · intro h rest hrest
    exact h ⟨rest, (eq_append_of_dropWord? hrest).symm⟩

/-- Replaces the occurrences of a word; `skip` characters of the last one found are still to
be passed over. -/
def substituteFrom (word image : List Char) : Nat → List Char → List Char
  | _, [] => []
  | skip + 1, _ :: cs => substituteFrom word image skip cs
  | 0, c :: cs =>
    match dropWord? word (c :: cs) with
    | some _ => image ++ substituteFrom word image (word.length - 1) cs
    | none => c :: substituteFrom word image 0 cs

/-- Every occurrence of a non-empty word replaced, from the left. -/
def substitute (word image text : String) : String :=
  String.ofList (substituteFrom word.toList image.toList 0 text.toList)

/-- Whether a word occurs in a text. -/
def containsWord (word : List Char) : List Char → Bool
  | [] => word.isEmpty
  | c :: cs => (dropWord? word (c :: cs)).isSome || containsWord word cs

end StyleEngine
