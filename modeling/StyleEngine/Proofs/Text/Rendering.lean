import StyleEngine.TextModel

/-! # Reading what was rendered

A text is a list of bodies, each with a line feed after it, and a tail without
one (`exists_bodies`).  A body that ends with a carriage return stands for a line
that ends so.  Rendering the model of a text makes all lines end alike, and the
text that this gives has the same model (`TextModel.ofText_source`).
-/
namespace StyleEngine

/-- Bodies, each with a line feed after it, and a tail. -/
def joinBodies (bodies : List (List Char)) (tail : List Char) : List Char :=
  bodies.flatMap (· ++ ['\n']) ++ tail

/-- The last line of a text, if it is not ended. -/
def tailLine (tail : List Char) : List (List Char) := if tail = [] then [] else [tail]

/-- The line that a body stands for. -/
def bodyLine (b : List Char) : List Char := if b.getLast? = some '\r' then b.dropLast else b

theorem exists_bodies (cs : List Char) : ∃ bodies tail, cs = joinBodies bodies tail ∧
    (∀ b ∈ bodies, '\n' ∉ b) ∧ '\n' ∉ tail := by
  induction cs with
  | nil => exact ⟨[], [], rfl, by simp, by simp⟩
  | cons c cs ih =>
    obtain ⟨bodies, tail, rfl, hbodies, htail⟩ := ih
    by_cases hc : c = '\n'
    · subst hc
      refine ⟨[] :: bodies, tail, rfl, ?_, htail⟩
      simpa using hbodies
    · cases bodies with
      | nil => exact ⟨[], c :: tail, rfl, by simp, by simp [Ne.symm hc, htail]⟩
      | cons b bodies =>
        refine ⟨(c :: b) :: bodies, tail, by simp [joinBodies], ?_, htail⟩
        simp only [List.mem_cons, forall_eq_or_imp, not_or] at hbodies ⊢
        exact ⟨⟨Ne.symm hc, hbodies.1⟩, hbodies.2⟩

theorem pieces_tail {tail : List Char} (h : '\n' ∉ tail) : pieces tail = tailLine tail := by
  induction tail with
  | nil => rfl
  | cons c cs ih =>
    rw [List.mem_cons, not_or] at h
    rw [pieces_cons, ih h.2, consPiece.eq_def, if_neg (Ne.symm h.1)]
    cases cs <;> rfl

theorem pieces_body {b : List Char} (h : '\n' ∉ b) (rest : List Char) :
    pieces (b ++ '\n' :: rest) = (b ++ ['\n']) :: pieces rest := by
  induction b with
  | nil => rfl
  | cons c cs ih =>
    rw [List.mem_cons, not_or] at h
    rw [List.cons_append, pieces_cons, ih h.2, consPiece, if_neg (Ne.symm h.1)]
    rfl

/-- The pieces of a text are its bodies with their line feeds, and its tail. -/
theorem pieces_joinBodies {bodies : List (List Char)} {tail : List Char}
    (hb : ∀ b ∈ bodies, '\n' ∉ b) (ht : '\n' ∉ tail) :
    pieces (joinBodies bodies tail) = bodies.map (· ++ ['\n']) ++ tailLine tail := by
  induction bodies with
  | nil => exact pieces_tail ht
  | cons b bodies ih =>
    have hsplit : joinBodies (b :: bodies) tail = b ++ '\n' :: joinBodies bodies tail := by
      simp [joinBodies]
    rw [hsplit, pieces_body (hb b List.mem_cons_self),
      ih fun b' hb' => hb b' (List.mem_cons_of_mem _ hb')]
    rfl

theorem pieceContent_body (b : List Char) : pieceContent (b ++ ['\n']) = bodyLine b := by
  rcases List.eq_nil_or_concat b with rfl | ⟨b, c, rfl⟩
  · rfl
  · by_cases hc : c = '\r'
    · subst hc
      simp [pieceContent, bodyLine]
    · simp [pieceContent, bodyLine, hc]

theorem pieceContent_tail {tail : List Char} (h : '\n' ∉ tail) : pieceContent tail = tail := by
  rcases List.eq_nil_or_concat tail with rfl | ⟨cs, c, rfl⟩
  · rfl
  · have hc : c ≠ '\n' := fun hc => h (by simp [hc])
    simp [pieceContent, hc]

/-- The lines of a text are those of its bodies, and its tail. -/
theorem splitLines_joinBodies {text : String} {bodies : List (List Char)} {tail : List Char}
    (htext : text.toList = joinBodies bodies tail) (hb : ∀ b ∈ bodies, '\n' ∉ b)
    (ht : '\n' ∉ tail) :
    splitLines text = (bodies.map bodyLine ++ tailLine tail).map String.ofList := by
  rw [splitLines, htext, pieces_joinBodies hb ht, List.map_append, List.map_append, List.map_map,
    List.map_map]
  congr 1
  · refine List.map_congr_left ?_
    intro b _
    rw [Function.comp_apply, Function.comp_apply, pieceContent_body]
  · refine List.map_congr_left ?_
    intro l hl
    unfold tailLine at hl
    split at hl
    · cases hl
    · rw [List.mem_singleton.mp hl, pieceContent_tail ht]

/-! ## Endings -/

theorem hasCrlf_tail {tail : List Char} (h : '\n' ∉ tail) : hasCrlf tail = false := by
  induction tail with
  | nil => rfl
  | cons c cs ih =>
    rw [List.mem_cons, not_or] at h
    unfold hasCrlf
    split
    · contradiction
    · next heq =>
      obtain ⟨-, rfl⟩ := List.cons.inj heq
      exact absurd List.mem_cons_self h.2
    · next heq =>
      obtain ⟨-, rfl⟩ := List.cons.inj heq
      exact ih h.2

theorem hasCrlf_body {b : List Char} (h : '\n' ∉ b) (rest : List Char) :
    hasCrlf (b ++ '\n' :: rest) = (decide (b.getLast? = some '\r') || hasCrlf rest) := by
  induction b with
  | nil => rfl
  | cons c cs ih =>
    rw [List.mem_cons, not_or] at h
    have ih := ih h.2
    cases cs with
    | nil =>
      by_cases hc : c = '\r'
      · subst hc; rfl
      · simp [hasCrlf, hc]
    | cons c' cs =>
      have hc' : c' ≠ '\n' := fun hc' => h.2 (by simp [hc'])
      rw [List.getLast?_cons_cons, ← ih]
      rw [List.cons_append, List.cons_append, hasCrlf]
      intro rest' _ hcons
      exact hc' (List.cons.inj hcons).1

/-- A text has a line that ends with a carriage return and a line feed exactly if a body ends
with the former. -/
theorem hasCrlf_joinBodies {bodies : List (List Char)} {tail : List Char}
    (hb : ∀ b ∈ bodies, '\n' ∉ b) (ht : '\n' ∉ tail) :
    hasCrlf (joinBodies bodies tail) = bodies.any fun b => decide (b.getLast? = some '\r') := by
  induction bodies with
  | nil => exact hasCrlf_tail ht
  | cons b bodies ih =>
    have hsplit : joinBodies (b :: bodies) tail = b ++ '\n' :: joinBodies bodies tail := by
      simp [joinBodies]
    rw [hsplit, hasCrlf_body (hb b List.mem_cons_self),
      ih fun b' hb' => hb b' (List.mem_cons_of_mem _ hb'), List.any_cons]

theorem getLast?_joinBodies {bodies : List (List Char)} {tail : List Char} (ht : '\n' ∉ tail) :
    ((joinBodies bodies tail).getLast? == some '\n') = (tail.isEmpty && !bodies.isEmpty) := by
  rcases List.eq_nil_or_concat tail with rfl | ⟨cs, c, rfl⟩
  · rcases List.eq_nil_or_concat bodies with rfl | ⟨bs, b, rfl⟩
    · rfl
    · simp [joinBodies]
  · have hc : (c == '\n') = false := beq_false_of_ne fun hc => ht (by simp [hc])
    simp [joinBodies, hc]

/-! ## Rendering -/

namespace TextModel

/-- What is put between a line and its line feed. -/
def returnOf : LineEnding → List Char
  | .lf => []
  | .crlf => ['\r']

theorem toList_text (e : LineEnding) : e.text.toList = returnOf e ++ ['\n'] := by
  cases e <;> rfl

/-- Lines with endings between them, and one more at the end if the text is closed. -/
theorem toList_intercalate_lines (e : LineEnding) (lines : List (List Char)) (tail : List Char) :
    (e.text.intercalate ((lines ++ tailLine tail).map String.ofList) ++
      if tail.isEmpty && !lines.isEmpty then e.text else "").toList =
      joinBodies (lines.map (· ++ returnOf e)) tail := by
  rw [String.toList_append, String.toList_intercalate, List.map_map]
  have hid : (String.toList ∘ String.ofList) = id := by
    funext cs
    simp
  rw [hid, List.map_id]
  induction lines with
  | nil =>
    by_cases ht : tail = []
    · simp [tailLine, ht, joinBodies]
    · simp [tailLine, ht, joinBodies]
  | cons l ls ih =>
    have hjoin : joinBodies ((l :: ls).map (· ++ returnOf e)) tail =
        l ++ e.text.toList ++ joinBodies (ls.map (· ++ returnOf e)) tail := by
      simp [joinBodies, toList_text]
    rw [hjoin, ← ih]
    -- the last line has no ending behind it unless the text is closed
    by_cases hrest : ls ++ tailLine tail = []
    · obtain ⟨rfl, htail⟩ := List.append_eq_nil_iff.mp hrest
      have ht : tail = [] := by
        unfold tailLine at htail
        split at htail
        · assumption
        · cases htail
      simp [ht, tailLine]
    · have hcond : (tail.isEmpty && !ls.isEmpty) = (tail.isEmpty && !(l :: ls).isEmpty) := by
        cases ls with
        | nil =>
          have ht : tail ≠ [] := by
            rintro rfl
            exact hrest rfl
          simp [ht]
        | cons l' ls => rfl
      rw [List.cons_append, List.intercalate_cons_of_ne_nil hrest, hcond]
      simp

/-- How the lines of a text with some bodies end. -/
def endingOf (bodies : List (List Char)) : LineEnding :=
  if bodies.any fun b => decide (b.getLast? = some '\r') then .crlf else .lf

theorem endingOf_eq_crlf {bodies : List (List Char)} :
    endingOf bodies = .crlf ↔ ∃ b ∈ bodies, b.getLast? = some '\r' := by
  simp [endingOf]

theorem endingOf_eq_lf {bodies : List (List Char)} :
    endingOf bodies = .lf ↔ ∀ b ∈ bodies, b.getLast? ≠ some '\r' := by
  simp [endingOf]

/-- The model of a text, by its bodies and its tail. -/
theorem ofText_joinBodies {text : String} {bodies : List (List Char)} {tail : List Char}
    (htext : text.toList = joinBodies bodies tail) (hb : ∀ b ∈ bodies, '\n' ∉ b)
    (ht : '\n' ∉ tail) :
    ofText text =
      { lines := (bodies.map bodyLine ++ tailLine tail).map String.ofList
        ending := endingOf bodies
        closed := tail.isEmpty && !bodies.isEmpty
        suppressions := Suppression.ofLines 1
          ((bodies.map bodyLine ++ tailLine tail).map String.ofList) } := by
  simp only [ofText, splitLines_joinBodies htext hb ht, htext, hasCrlf_joinBodies hb ht,
    getLast?_joinBodies ht, endingOf]

theorem notMem_bodyLine {b : List Char} (h : '\n' ∉ b) : '\n' ∉ bodyLine b := by
  unfold bodyLine
  split
  · exact fun hmem => h (List.dropLast_subset _ hmem)
  · exact h

/-- The lines of a text have no line feed. -/
theorem notMem_ofText_lines (text : String) : ∀ l ∈ (ofText text).lines, '\n' ∉ l.toList := by
  obtain ⟨bodies, tail, htext, hb, ht⟩ := exists_bodies text.toList
  rw [ofText_joinBodies htext hb ht]
  intro l hl
  obtain ⟨cs, hcs, rfl⟩ := List.mem_map.mp hl
  rw [String.toList_ofList]
  rcases List.mem_append.mp hcs with hcs | hcs
  · obtain ⟨b, hmem, rfl⟩ := List.mem_map.mp hcs
    exact notMem_bodyLine (hb b hmem)
  · unfold tailLine at hcs
    split at hcs
    · cases hcs
    · exact List.mem_singleton.mp hcs ▸ ht

/-- The bodies of a text after it was rendered. -/
def rendered (bodies : List (List Char)) : List (List Char) :=
  (bodies.map bodyLine).map (· ++ returnOf (endingOf bodies))

theorem mem_rendered {bodies : List (List Char)} {b : List Char} :
    b ∈ rendered bodies ↔ ∃ b₀ ∈ bodies, b = bodyLine b₀ ++ returnOf (endingOf bodies) := by
  constructor
  · intro h
    obtain ⟨line, hline, rfl⟩ := List.mem_map.mp h
    obtain ⟨b₀, hmem, rfl⟩ := List.mem_map.mp hline
    exact ⟨b₀, hmem, rfl⟩
  · rintro ⟨b₀, hmem, rfl⟩
    exact List.mem_map_of_mem (List.mem_map_of_mem hmem)

/-- Rendering keeps the lines. -/
theorem map_bodyLine_rendered (bodies : List (List Char)) :
    (rendered bodies).map bodyLine = bodies.map bodyLine := by
  rw [rendered, List.map_map, List.map_map]
  refine List.map_congr_left ?_
  intro b hmem
  cases he : endingOf bodies with
  | crlf => simp [returnOf, bodyLine]
  | lf =>
    have hno := endingOf_eq_lf.mp he b hmem
    simp [returnOf, bodyLine, hno]

/-- Rendering keeps the ending of the lines. -/
theorem endingOf_rendered (bodies : List (List Char)) :
    endingOf (rendered bodies) = endingOf bodies := by
  cases he : endingOf bodies with
  | crlf =>
    obtain ⟨b, hmem, -⟩ := endingOf_eq_crlf.mp he
    refine endingOf_eq_crlf.mpr ⟨_, mem_rendered.mpr ⟨b, hmem, rfl⟩, ?_⟩
    simp [he, returnOf]
  | lf =>
    refine endingOf_eq_lf.mpr ?_
    intro b hmem
    obtain ⟨b₀, hmem₀, rfl⟩ := mem_rendered.mp hmem
    have hno := endingOf_eq_lf.mp he b₀ hmem₀
    simp [he, returnOf, bodyLine, hno]

theorem notMem_rendered {bodies : List (List Char)} (h : ∀ b ∈ bodies, '\n' ∉ b) :
    ∀ b ∈ rendered bodies, '\n' ∉ b := by
  intro b hmem
  obtain ⟨b₀, hmem₀, rfl⟩ := mem_rendered.mp hmem
  have hline := notMem_bodyLine (h b₀ hmem₀)
  cases endingOf bodies <;> simp [returnOf, hline]

/-- What the model of a text is rendered to, by the bodies and the tail of the text. -/
theorem toList_source {text : String} {bodies : List (List Char)} {tail : List Char}
    (htext : text.toList = joinBodies bodies tail) (hb : ∀ b ∈ bodies, '\n' ∉ b)
    (ht : '\n' ∉ tail) : (ofText text).source.toList = joinBodies (rendered bodies) tail := by
  rw [ofText_joinBodies htext hb ht, source, rendered, ← toList_intercalate_lines]
  simp

/-- **The text that a text's model is rendered to has the same model.** -/
theorem ofText_source (text : String) : ofText (ofText text).source = ofText text := by
  obtain ⟨bodies, tail, htext, hb, ht⟩ := exists_bodies text.toList
  have hsource := toList_source htext hb ht
  have hempty : (rendered bodies).isEmpty = bodies.isEmpty := by simp [rendered]
  rw [ofText_joinBodies hsource (notMem_rendered hb) ht, ofText_joinBodies htext hb ht,
    map_bodyLine_rendered, endingOf_rendered, hempty]

end TextModel

end StyleEngine
