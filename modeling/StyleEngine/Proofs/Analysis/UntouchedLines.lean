import StyleEngine.Proofs.Analysis.FixOutcomes
import StyleEngine.Proofs.Text.LineEndings

/-! # Lines without a fix

A fix replaces one line of a model and leaves the text of all others alone.  But the
model has one ending for all its lines.  So when the file is rendered, a piece of its
text on which no fix was applied stands where it stood and is ended as the model's
lines are (`SourceFile.piece?_applyFixes`): it has changed exactly if it ended with a
bare line feed and some line of the text ended with a carriage return too.
-/
namespace StyleEngine

/-! ## Pieces -/

/-- The piece of a text with a number, counted from one. -/
def piece? (text : String) : Nat → Option (List Char)
  | 0 => none
  | n + 1 => (pieces text.toList)[n]?

/-- A piece with the given ending, if it is ended at all. -/
def endedAs (e : LineEnding) (p : List Char) : List Char :=
  if p.getLast? = some '\n' then pieceContent p ++ e.text.toList else p

/-- Whether a piece ends with a line feed that has no carriage return in front of it. -/
def EndsBare (p : List Char) : Prop :=
  p.getLast? = some '\n' ∧ p.dropLast.getLast? ≠ some '\r'

instance (p : List Char) : Decidable (EndsBare p) := inferInstanceAs (Decidable (_ ∧ _))

theorem endedAs_body (e : LineEnding) (b : List Char) :
    endedAs e (b ++ ['\n']) = bodyLine b ++ TextModel.returnOf e ++ ['\n'] := by
  have hlast : (b ++ ['\n']).getLast? = some '\n' := by simp
  rw [endedAs, if_pos hlast, pieceContent_body, TextModel.toList_text, List.append_assoc]

theorem endedAs_of_notMem (e : LineEnding) {p : List Char} (h : '\n' ∉ p) : endedAs e p = p :=
  if_neg fun hlast => h (List.mem_of_getLast? hlast)

theorem endsBare_body {b : List Char} : EndsBare (b ++ ['\n']) ↔ b.getLast? ≠ some '\r' := by
  simp [EndsBare]

theorem not_endsBare_of_notMem {p : List Char} (h : '\n' ∉ p) : ¬ EndsBare p :=
  fun hbare => h (List.mem_of_getLast? hbare.1)

/-- The pieces of a text are its bodies with their line feeds, and then its tail. -/
theorem piece?_succ {text : String} {bodies : List (List Char)} {tail : List Char}
    (htext : text.toList = joinBodies bodies tail) (hb : ∀ b ∈ bodies, '\n' ∉ b)
    (ht : '\n' ∉ tail) (i : Nat) :
    piece? text (i + 1) = if i < bodies.length then bodies[i]?.map (· ++ ['\n'])
      else (tailLine tail)[i - bodies.length]? := by
  rw [piece?, htext, pieces_joinBodies hb ht, List.getElem?_append, List.length_map,
    List.getElem?_map]

theorem getElem?_tailLine (tail : List Char) (j : Nat) :
    (tailLine tail)[j]? = if tail ≠ [] ∧ j = 0 then some tail else none := by
  unfold tailLine
  by_cases ht : tail = []
  · simp [ht]
  · cases j <;> simp [ht]

namespace TextModel

/-- Ending a body's line as the lines of the text are ended changes it exactly if the body had no
carriage return and others had. -/
theorem bodyLine_returnOf {bodies : List (List Char)} {b : List Char} (hmem : b ∈ bodies) :
    bodyLine b ++ returnOf (endingOf bodies) = b ↔
      ¬ (endingOf bodies = .crlf ∧ b.getLast? ≠ some '\r') := by
  cases he : endingOf bodies with
  | lf =>
    have hno := endingOf_eq_lf.mp he b hmem
    simp [returnOf, bodyLine, hno]
  | crlf =>
    constructor
    · rintro heq ⟨-, hno⟩
      exact hno (heq ▸ by simp [returnOf])
    · intro hcrlf
      have hreturn : b.getLast? = some '\r' := Decidable.not_not.mp fun hno => hcrlf ⟨rfl, hno⟩
      obtain ⟨line, rfl⟩ := List.getLast?_eq_some_iff.mp hreturn
      simp [returnOf, bodyLine]

/-! ## A model with other lines -/

/-- As many lines as a text has stand for its bodies and, if there is one, its tail. -/
theorem exists_init_last {lines : List String} {k : Nat} {tail : List Char}
    (h : lines.length = k + (tailLine tail).length) :
    ∃ init last, init.length = k ∧ (tail = [] → last = "") ∧
      lines = init ++ (tailLine tail).map fun _ => last := by
  by_cases ht : tail = []
  · refine ⟨lines, "", by simpa [tailLine, ht] using h, fun _ => rfl, by simp [tailLine, ht]⟩
  · have hne : lines ≠ [] := by
      rintro rfl
      simp [tailLine, ht] at h
    refine ⟨lines.dropLast, lines.getLast hne, ?_, fun h => absurd h ht, ?_⟩
    · simp [h, tailLine, ht]
    · simp [tailLine, ht, List.dropLast_concat_getLast hne]

/-- What a model with as many lines as a text is rendered to. -/
theorem toList_source_init_last (m : TextModel) {init : List String} {last : String}
    {tail : List Char} (hlast : tail = [] → last = "")
    (hlines : m.lines = init ++ (tailLine tail).map fun _ => last)
    (hclosed : m.closed = (tail.isEmpty && !init.isEmpty)) :
    m.source.toList = joinBodies (init.map (·.toList ++ returnOf m.ending)) last.toList := by
  rw [source, hlines, hclosed]
  by_cases ht : tail = []
  · have hjoin := toList_intercalate_lines m.ending (init.map String.toList) []
    simpa [ht, hlast ht, tailLine, Function.comp_def] using hjoin
  · have hunended : (tail.isEmpty && !init.isEmpty) = false := by simp [ht]
    rw [hunended, if_neg Bool.false_ne_true, String.append_empty, String.toList_intercalate]
    clear hlines hclosed hunended
    simp only [tailLine, ht, ↓reduceIte, List.map_cons, List.map_nil]
    induction init with
    | nil => simp [joinBodies]
    | cons l init ih =>
      rw [List.cons_append, List.map_cons, List.intercalate_cons_of_ne_nil (by simp), ih]
      simp [joinBodies, toList_text]

/-- What holds of every line and every replacement holds of the lines with the fixes in place. -/
theorem IsPatch.forall_mem_lines {m m' : TextModel} {vs : List Violation} (h : m.IsPatch vs m')
    {P : String → Prop} (hm : ∀ l ∈ m.lines, P l)
    (hvs : ∀ v ∈ vs, ∀ fix, v.fix = some fix → P fix.replacement) : ∀ l ∈ m'.lines, P l := by
  intro l hl
  obtain ⟨i, hi⟩ := List.mem_iff_getElem?.mp hl
  have hline : m'.line? (i + 1) = some l := hi
  by_cases hmem : i + 1 ∈ vs.map Violation.line
  · obtain ⟨v, hv, hv'⟩ := List.mem_map.mp hmem
    have hfixed := h.fixed v hv
    rw [hv', hline] at hfixed
    obtain ⟨fix, hfix, rfl⟩ := Option.map_eq_some_iff.mp hfixed.symm
    exact hvs v hv fix hfix
  · rw [h.kept _ hmem] at hline
    exact hm l (List.mem_of_getElem? hline)

/-- The pieces of a model with as many lines as a text: a line that stands for a body of the text
is ended, and one that stands for its tail is a piece unless it is empty. -/
theorem piece?_withLines {text : String} {bodies : List (List Char)} {tail : List Char}
    (htext : text.toList = joinBodies bodies tail) (hb : ∀ b ∈ bodies, '\n' ∉ b)
    (ht : '\n' ∉ tail) {lines : List String} (hlen : lines.length = (ofText text).lines.length)
    (hlines : ∀ l ∈ lines, '\n' ∉ l.toList) (i : Nat) :
    piece? ({ ofText text with lines } : TextModel).source (i + 1) =
      if i < bodies.length then lines[i]?.map fun l => l.toList ++ (ofText text).ending.text.toList
      else (lines[i]?.map String.toList).filter (· ≠ []) := by
  rw [ofText_joinBodies htext hb ht] at hlen ⊢
  generalize endingOf bodies = e
  have hcount : lines.length = bodies.length + (tailLine tail).length := by simpa using hlen
  obtain ⟨init, last, hinit, hlast, rfl⟩ := exists_init_last hcount
  have hempty : bodies.isEmpty = init.isEmpty := by
    rw [Bool.eq_iff_iff, List.isEmpty_iff_length_eq_zero, List.isEmpty_iff_length_eq_zero, hinit]
  have hsource := toList_source_init_last
    { lines := init ++ (tailLine tail).map fun _ => last
      ending := e
      closed := tail.isEmpty && !bodies.isEmpty
      suppressions := Suppression.ofLines 1
        ((bodies.map bodyLine ++ tailLine tail).map String.ofList) }
    hlast rfl (by rw [hempty])
  have hb' : ∀ b ∈ init.map (·.toList ++ returnOf e), '\n' ∉ b := by
    intro b hmem
    obtain ⟨l, hl, rfl⟩ := List.mem_map.mp hmem
    have hl := hlines l (List.mem_append_left _ hl)
    cases e <;> simp [returnOf, hl]
  have ht' : '\n' ∉ last.toList := by
    by_cases htail : tail = []
    · simp [hlast htail]
    · exact hlines last (List.mem_append_right _ (by simp [tailLine, htail]))
  rw [piece?_succ hsource hb' ht', List.length_map, hinit]
  by_cases hi : i < bodies.length
  · rw [if_pos hi, if_pos hi, List.getElem?_append_left (hinit ▸ hi)]
    simp [toList_text, Function.comp_def]
  · rw [if_neg hi, if_neg hi, List.getElem?_append_right (by omega), hinit, getElem?_tailLine]
    by_cases htail : tail = []
    · simp [hlast htail, tailLine, htail]
    · cases i - bodies.length <;> simp [tailLine, htail, Option.filter]

/-- **Rendering a text in which some lines are replaced**: the pieces of all others are as they
were, but ended as the model's lines are. -/
theorem IsPatch.piece?_source {text : String} {vs : List Violation} {lines : List String}
    (h : (ofText text).IsPatch vs { ofText text with lines })
    (hlines : ∀ l ∈ lines, '\n' ∉ l.toList) {n : Nat} (hn : n ∉ vs.map Violation.line) :
    piece? ({ ofText text with lines } : TextModel).source n =
      (piece? text n).map (endedAs (ofText text).ending) := by
  cases n with
  | zero => rfl
  | succ i =>
    obtain ⟨bodies, tail, htext, hb, ht⟩ := exists_bodies text.toList
    have hkept : lines[i]? = (ofText text).lines[i]? := h.kept (i + 1) hn
    rw [piece?_withLines htext hb ht h.length hlines, hkept, piece?_succ htext hb ht,
      ofText_joinBodies htext hb ht, List.map_append]
    by_cases hi : i < bodies.length
    · rw [if_pos hi, if_pos hi, List.getElem?_append_left (by simpa using hi)]
      simp [hi, endedAs_body, toList_text]
    · rw [if_neg hi, if_neg hi, List.getElem?_append_right (by simpa using hi)]
      simp only [List.getElem?_map, List.length_map, getElem?_tailLine]
      split
      · next htail => simp [htail.1, endedAs_of_notMem _ ht]
      · rfl

/-- Ending a piece of a text as its lines are ended changes it exactly if it ends with a bare line
feed and some line of the text does not. -/
theorem map_endedAs_piece? (text : String) (n : Nat) :
    (piece? text n).map (endedAs (ofText text).ending) = piece? text n ↔
      ¬ (['\r', '\n'] <:+: text.toList ∧ ∃ p, piece? text n = some p ∧ EndsBare p) := by
  cases n with
  | zero => simp [piece?]
  | succ i =>
    obtain ⟨bodies, tail, htext, hb, ht⟩ := exists_bodies text.toList
    have hcrlf : ['\r', '\n'] <:+: text.toList ↔ endingOf bodies = .crlf := by
      rw [← hasCrlf_iff_infix, htext, hasCrlf_joinBodies hb ht, endingOf_eq_crlf]
      simp
    rw [hcrlf, piece?_succ htext hb ht, ofText_joinBodies htext hb ht]
    split
    · next hi =>
      have hbody := List.getElem_mem hi
      have hsame := bodyLine_returnOf hbody
      simpa [hi, endedAs_body, endsBare_body, -List.append_assoc] using hsame
    · rw [getElem?_tailLine]
      split
      · simp [endedAs_of_notMem _ ht, not_endsBare_of_notMem ht]
      · simp

end TextModel

namespace SourceFile

/-- **Pieces without a fix.**  When fixes were applied to a parsed file, a piece of its text on
which none was applied is ended as the model's lines are.  It is the piece that it was unless this
ended with a bare line feed and some line of the text ends with a carriage return too. -/
theorem piece?_applyFixes {f : SourceFile} {text : String} {vs : List Violation}
    (htaken : f.text = none) (hmodel : f.model = some (.ofText text))
    (hfixes : ∀ v ∈ vs, ∀ fix, v.fix = some fix → '\n' ∉ fix.replacement.toList) :
    ∃ fixed, (f.applyFixes vs).file.sourceText? = some fixed ∧
      ∀ n, n ∉ (f.applyFixes vs).applied.map Violation.line →
        piece? fixed n = (piece? text n).map (endedAs (TextModel.ofText text).ending) ∧
        (piece? fixed n = piece? text n ↔
          ¬ (['\r', '\n'] <:+: text.toList ∧ ∃ p, piece? text n = some p ∧ EndsBare p)) := by
  have hsettles := f.settles vs
  obtain ⟨lines, hpatch, hfile⟩ := hsettles.model _ hmodel
  refine ⟨({ TextModel.ofText text with lines } : TextModel).source, ?_, ?_⟩
  · rw [hfile]
    simp [sourceText?, htaken]
  · intro n hn
    have hlines : ∀ l ∈ lines, '\n' ∉ l.toList :=
      hpatch.forall_mem_lines (P := fun l => '\n' ∉ l.toList) (TextModel.notMem_ofText_lines text)
        fun v hv => hfixes v (hsettles.perm.mem_iff.mp (List.mem_append_left _ hv))
    have hpiece := hpatch.piece?_source hlines hn
    refine ⟨hpiece, ?_⟩
    rw [hpiece]
    exact TextModel.map_endedAs_piece? text n

/-- A parsed file. -/
def parsed (text : String) : SourceFile :=
  { path := ⟨"a.cs"⟩, digest := Digest.ofText text, text := none
    model := some (.ofText text) }

/-- Blanks at the end of the first line. -/
def trailingBlanks : Violation where
  ruleId := "Trailing"
  message := "Trailing blanks"
  line := 1
  fix := some { description := "Trim", replacement := "a" }

theorem piece?_applyFixes_trailingBlanks :
    ∃ fixed, ((parsed "a  \r\nb\r\n").applyFixes [trailingBlanks]).file.sourceText? = some fixed ∧
      piece? fixed 2 = piece? "a  \r\nb\r\n" 2 := by
  have hfixes : ∀ v ∈ [trailingBlanks], ∀ fix, v.fix = some fix →
      '\n' ∉ fix.replacement.toList := by
    intro v hv fix hfix
    obtain rfl := List.mem_singleton.mp hv
    obtain rfl := Option.some.inj hfix
    decide
  obtain ⟨fixed, hfixed, hpieces⟩ :=
    piece?_applyFixes (f := parsed "a  \r\nb\r\n") rfl rfl hfixes
  refine ⟨fixed, hfixed, (hpieces 2 (by decide +kernel)).2.mpr ?_⟩
  rintro ⟨-, p, hp, hbare⟩
  have hb : piece? "a  \r\nb\r\n" 2 = some "b\r\n".toList := by decide +kernel
  obtain rfl := Option.some.inj (hb.symm.trans hp)
  exact absurd hbare (by decide)

/-- A fix on the first line gives the second one, which ended with a bare line feed, another
ending. -/
theorem piece?_applyFixes_ne_mixed :
    ((parsed "a  \r\nb\n").applyFixes [trailingBlanks]).applied.map Violation.line = [1] ∧
      ((parsed "a  \r\nb\n").applyFixes [trailingBlanks]).file.sourceText? = some "a\r\nb\r\n" ∧
      piece? "a\r\nb\r\n" 2 ≠ piece? "a  \r\nb\n" 2 := by
  decide +kernel

end SourceFile

end StyleEngine
