import StyleEngine.Proofs.Analysis.Conservation
import StyleEngine.Proofs.Analysis.UntouchedLines

/-! # Reading fixed lines again

A model with other lines in place of those of a text has as many lines as the text.
What it is rendered to need not: a line with a line feed becomes two, an empty one
at the end is none if the text does not end with a line feed, and a carriage
return at the end of a line that is ended by a bare line feed becomes a part of the
ending.  These are all the exceptions (`TextModel.Survives`), so fixes neither add
nor remove nor change lines exactly if all replacements avoid them
(`SourceFile.Fixed.isPatch_iff`).
-/
namespace StyleEngine

namespace TextModel

/-- Whether an ending stands behind the line with a number. -/
def isEnded (m : TextModel) (n : Nat) : Bool := m.closed || decide (n < m.lineCount)

/-- Whether a line in the place of another is the same when the model is rendered and read
again. -/
structure Survives (m : TextModel) (n : Nat) (line : String) : Prop where
  one : '\n' ∉ line.toList
  nonempty : m.isEnded n = false → line ≠ ""
  ending : m.isEnded n = true → m.ending = .lf → line.toList.getLast? ≠ some '\r'

theorem survives_of_isEnded {m : TextModel} {n : Nat} {line : String} (h : m.isEnded n = true) :
    m.Survives n line ↔
      '\n' ∉ line.toList ∧ (m.ending = .lf → line.toList.getLast? ≠ some '\r') := by
  constructor
  · intro hs
    exact ⟨hs.one, hs.ending h⟩
  · rintro ⟨hone, hending⟩
    exact ⟨hone, fun hno => absurd (h.symm.trans hno) Bool.noConfusion, fun _ => hending⟩

theorem survives_of_not_isEnded {m : TextModel} {n : Nat} {line : String}
    (h : m.isEnded n = false) : m.Survives n line ↔ '\n' ∉ line.toList ∧ line ≠ "" := by
  constructor
  · intro hs
    exact ⟨hs.one, hs.nonempty h⟩
  · rintro ⟨hone, hne⟩
    exact ⟨hone, fun _ => hne, fun hyes => absurd (h.symm.trans hyes) Bool.noConfusion⟩

/-! ## Models with other lines -/

theorem bodyLine_eq_self_iff {b : List Char} : bodyLine b = b ↔ b.getLast? ≠ some '\r' := by
  unfold bodyLine
  split
  · next hlast =>
    obtain ⟨b, rfl⟩ := List.getLast?_eq_some_iff.mp hlast
    simp
  · next hlast => exact iff_of_true rfl hlast

/-- A line that is ended is read again as it is, but for a carriage return before a bare line
feed. -/
theorem bodyLine_ended_iff (e : LineEnding) (line : List Char) :
    bodyLine (line ++ returnOf e) = line ↔ (e = .lf → line.getLast? ≠ some '\r') := by
  cases e with
  | lf => simpa [returnOf] using bodyLine_eq_self_iff
  | crlf => simp [returnOf, bodyLine]

/-- An unended line at the end is read again as it is unless it is empty. -/
theorem tailLine_reread_iff {last : String} {tail : List Char} (h : tail = [] → last = "") :
    (tailLine last.toList).map String.ofList = (tailLine tail).map (fun _ => last) ↔
      (tail ≠ [] → last ≠ "") := by
  by_cases ht : tail = []
  · simp [h ht, ht, tailLine]
  · by_cases hl : last = "" <;> simp [hl, ht, tailLine]

/-- Ended lines and a last one without an ending, none of which has a line feed, are read again as
they are but for these exceptions. -/
theorem splitLines_joinBodies_iff {text : String} {e : LineEnding} {init : List String}
    {last : String} {tail : List Char} (htail : tail = [] → last = "")
    (htext : text.toList = joinBodies (init.map (·.toList ++ returnOf e)) last.toList)
    (hinit : ∀ l ∈ init, '\n' ∉ l.toList) (hlast : '\n' ∉ last.toList) :
    splitLines text = init ++ (tailLine tail).map (fun _ => last) ↔
      (∀ l ∈ init, e = .lf → l.toList.getLast? ≠ some '\r') ∧ (tail ≠ [] → last ≠ "") := by
  have hbodies : ∀ b ∈ init.map (·.toList ++ returnOf e), '\n' ∉ b := by
    intro b hb
    obtain ⟨l, hl, rfl⟩ := List.mem_map.mp hb
    cases e <;> simp [returnOf, hinit l hl]
  have hlines : ((init.map (·.toList ++ returnOf e)).map bodyLine).map String.ofList = init ↔
      ∀ l ∈ init, e = .lf → l.toList.getLast? ≠ some '\r' := by
    have hmap (g : String → String) : init.map g = init ↔ ∀ l ∈ init, g l = l := by
      simpa using List.map_inj_left (l := init) (f := g) (g := id)
    rw [List.map_map, List.map_map, hmap]
    refine forall₂_congr fun l _ => ?_
    rw [← bodyLine_ended_iff, ← String.toList_inj]
    simp
  rw [splitLines_joinBodies htext hbodies hlast, List.map_append, ← hlines,
    ← tailLine_reread_iff htail]
  exact ⟨fun h => List.append_inj h (by simp), fun h => by rw [h.1, h.2]⟩

/-- An ending stands behind each line of a text but its tail. -/
theorem isEnded_ofText {text : String} {bodies : List (List Char)} {tail : List Char}
    (htext : text.toList = joinBodies bodies tail) (hb : ∀ b ∈ bodies, '\n' ∉ b)
    (ht : '\n' ∉ tail) {k : Nat} (hk : k < bodies.length + (tailLine tail).length) :
    (ofText text).isEnded (k + 1) = decide (k < bodies.length) := by
  rw [isEnded, lineCount, ofText_joinBodies htext hb ht]
  by_cases htail : tail = []
  · have hlt : k < bodies.length := by simpa [tailLine, htail] using hk
    have hne : bodies ≠ [] := List.ne_nil_of_length_pos (by omega)
    simp [htail, hne, hlt]
  · simp [htail, tailLine]

/-- A line is one of the ended ones, or the last one behind them. -/
theorem line_cases {init : List String} {last line : String} {tail : List Char} {k : Nat}
    (h : (init ++ (tailLine tail).map fun _ => last)[k]? = some line) :
    k < init.length + (tailLine tail).length ∧
      (k < init.length ∧ line ∈ init ∨ ¬k < init.length ∧ tail ≠ [] ∧ line = last) := by
  refine ⟨by simpa using (List.getElem?_eq_some_iff.mp h).1, ?_⟩
  by_cases hk : k < init.length
  · rw [List.getElem?_append_left hk] at h
    exact .inl ⟨hk, List.mem_of_getElem? h⟩
  · rw [List.getElem?_append_right (by omega)] at h
    have hmem := List.mem_of_getElem? h
    refine .inr ⟨hk, ?_, ?_⟩
    · rintro rfl
      cases hmem
    · obtain ⟨_, -, hline⟩ := List.mem_map.mp hmem
      exact hline.symm

/-- Lines all survive exactly if none of them has a line feed, none that is ended by a bare one
has a carriage return before it, and the one behind the ended ones is not empty. -/
theorem survive_iff {m : TextModel} {init : List String} {last : String} {tail : List Char}
    (hended : ∀ k < init.length + (tailLine tail).length,
      m.isEnded (k + 1) = decide (k < init.length)) :
    (∀ k line, (init ++ (tailLine tail).map fun _ => last)[k]? = some line →
        m.Survives (k + 1) line) ↔
      (∀ l ∈ init ++ (tailLine tail).map (fun _ => last), '\n' ∉ l.toList) ∧
        (∀ l ∈ init, m.ending = .lf → l.toList.getLast? ≠ some '\r') ∧
        (tail ≠ [] → last ≠ "") := by
  constructor
  · intro hsurvive
    refine ⟨?_, ?_, ?_⟩
    · intro l hl
      obtain ⟨k, hk⟩ := List.mem_iff_getElem?.mp hl
      exact (hsurvive k l hk).one
    · intro l hl
      obtain ⟨k, hk⟩ := List.mem_iff_getElem?.mp hl
      have hlt := (List.getElem?_eq_some_iff.mp hk).1
      have hyes := (hended k (by omega)).trans (decide_eq_true hlt)
      exact ((survives_of_isEnded hyes).mp
        (hsurvive k l (List.getElem?_append_left hlt ▸ hk))).2
    · intro htail
      have hline : (init ++ (tailLine tail).map fun _ => last)[init.length]? = some last := by
        simp [tailLine, htail]
      have hno := (hended _ (line_cases hline).1).trans (decide_eq_false (by omega))
      exact ((survives_of_not_isEnded hno).mp (hsurvive _ last hline)).2
  · rintro ⟨hone, hends, hnonempty⟩ k line hline
    have hline' := hone line (List.mem_of_getElem? hline)
    obtain ⟨hk, ⟨hlt, hmem⟩ | ⟨hnot, htail, rfl⟩⟩ := line_cases hline
    · have hyes := (hended k hk).trans (decide_eq_true hlt)
      exact (survives_of_isEnded hyes).mpr ⟨hline', hends line hmem⟩
    · have hno := (hended k hk).trans (decide_eq_false hnot)
      exact (survives_of_not_isEnded hno).mpr ⟨hline', hnonempty htail⟩

/-- **Lines in place of those of a text are read again** exactly if they all survive. -/
theorem lines_reread_iff {text : String} {lines : List String}
    (hlen : lines.length = (ofText text).lines.length) :
    (ofText ({ ofText text with lines } : TextModel).source).lines = lines ↔
      ∀ n line, ({ ofText text with lines } : TextModel).line? n = some line →
        (ofText text).Survives n line := by
  obtain ⟨bodies, tail, htext, hb, ht⟩ := exists_bodies text.toList
  have hmodel := ofText_joinBodies htext hb ht
  have hcount : lines.length = bodies.length + (tailLine tail).length := by
    rw [hlen, hmodel]
    simp
  obtain ⟨init, last, hinit, hlast, rfl⟩ := exists_init_last hcount
  have hended : ∀ k < init.length + (tailLine tail).length,
      (ofText text).isEnded (k + 1) = decide (k < init.length) := by
    rw [hinit]
    exact fun k hk => isEnded_ofText htext hb ht hk
  have hclosed : (ofText text).closed = (tail.isEmpty && !init.isEmpty) := by
    rw [hmodel, Bool.eq_iff_iff]
    simp [← List.length_eq_zero_iff, hinit]
  have hsource := toList_source_init_last
    { ofText text with lines := init ++ (tailLine tail).map fun _ => last } hlast rfl hclosed
  have hiff (hone : ∀ l ∈ init ++ (tailLine tail).map (fun _ => last), '\n' ∉ l.toList) :=
    splitLines_joinBodies_iff hlast hsource (fun l hl => hone l (List.mem_append_left _ hl))
      (by
        by_cases htail : tail = []
        · simp [hlast htail]
        · exact hone last (List.mem_append_right _ (by simp [tailLine, htail])))
  constructor
  · intro hread n line hline
    have hone : ∀ l ∈ init ++ (tailLine tail).map (fun _ => last), '\n' ∉ l.toList :=
      hread ▸ notMem_ofText_lines _
    cases n with
    | zero => cases hline
    | succ k => exact (survive_iff hended).mpr ⟨hone, (hiff hone).mp hread⟩ k line hline
  · intro hsurvive
    obtain ⟨hone, hrest⟩ := (survive_iff hended).mp fun k => hsurvive (k + 1)
    exact (hiff hone).mpr hrest

end TextModel

/-! ## Fixes -/

/-- Whether the replacement that a violation offers for its line survives there. -/
def Violation.KeepsLines (m : TextModel) (v : Violation) : Prop :=
  ∀ fix, v.fix = some fix → m.Survives v.line fix.replacement

namespace TextModel

variable {m m₁ m₂ : TextModel} {vs : List Violation}

/-- Fixes determine all lines. -/
theorem IsPatch.lines_eq (h₁ : m.IsPatch vs m₁) (h₂ : m.IsPatch vs m₂) : m₁.lines = m₂.lines := by
  refine List.ext_getElem? fun i => ?_
  show m₁.line? (i + 1) = m₂.line? (i + 1)
  by_cases hi : i + 1 ∈ vs.map Violation.line
  · obtain ⟨v, hv, hline⟩ := List.mem_map.mp hi
    rw [← hline, h₁.fixed v hv, h₂.fixed v hv]
  · rw [h₁.kept _ hi, h₂.kept _ hi]

theorem IsPatch.congr (h : m.IsPatch vs m₁) (hlines : m₂.lines = m₁.lines) : m.IsPatch vs m₂ := by
  have hline (n : Nat) : m₂.line? n = m₁.line? n := by
    cases n with
    | zero => rfl
    | succ k => simp only [line?, hlines]
  exact ⟨fun v hv => (hline v.line).trans (h.fixed v hv),
    fun n hn => (hline n).trans (h.kept n hn), (congrArg List.length hlines).trans h.length⟩

/-- The lines of a text survive. -/
theorem survives_of_line? {text : String} {n : Nat} {line : String}
    (h : (ofText text).line? n = some line) : (ofText text).Survives n line :=
  (@lines_reread_iff text (ofText text).lines rfl).mp
    (congrArg TextModel.lines (ofText_source text)) n line h

/-- **Fixed lines are read again** exactly if the replacements survive. -/
theorem IsPatch.reread_iff {text : String} {lines : List String}
    (h : (ofText text).IsPatch vs { ofText text with lines }) :
    (ofText text).IsPatch vs (ofText ({ ofText text with lines } : TextModel).source) ↔
      ∀ v ∈ vs, v.KeepsLines (ofText text) := by
  have hsame : (ofText text).IsPatch vs (ofText ({ ofText text with lines } : TextModel).source) ↔
      (ofText ({ ofText text with lines } : TextModel).source).lines = lines :=
    ⟨fun h' => h'.lines_eq h, fun heq => h.congr heq⟩
  rw [hsame, lines_reread_iff h.length]
  constructor
  · intro hsurvive v hv fix hfix
    refine hsurvive v.line fix.replacement ?_
    rw [h.fixed v hv, hfix, Option.map_some]
  · intro hkeeps n line hline
    by_cases hn : n ∈ vs.map Violation.line
    · obtain ⟨v, hv, rfl⟩ := List.mem_map.mp hn
      rw [h.fixed v hv] at hline
      obtain ⟨fix, hfix, rfl⟩ := Option.map_eq_some_iff.mp hline
      exact hkeeps v hv fix hfix
    · rw [h.kept n hn] at hline
      exact survives_of_line? hline

end TextModel

/-- Whether a file with a text is as fixes have left it: untouched if there were none, or with a
model whose lines are those of the text with the replacements in their places. -/
structure SourceFile.Fixed (text : String) (applied : List Violation) (f : SourceFile) : Prop where
  fixable : ∀ v ∈ applied, v.IsFixable (.ofText text)
  source : (applied = [] ∧ f.sourceText? = some text) ∨
    ∃ lines, (TextModel.ofText text).IsPatch applied { TextModel.ofText text with lines } ∧
      f.sourceText? = some ({ TextModel.ofText text with lines } : TextModel).source

namespace SourceFile

variable {text : String} {f f' : SourceFile} {applied : List Violation}

theorem Fixed.untouched (h : f.sourceText? = some text) : f.Fixed text [] :=
  ⟨nofun, .inl ⟨rfl, h⟩⟩

/-- **What a fixed file is read as**: its lines are the old ones and the replacements exactly if all
of these survive. -/
theorem Fixed.isPatch_iff (h : f.Fixed text applied) : ∃ text', f.sourceText? = some text' ∧
    ((TextModel.ofText text).IsPatch applied (.ofText text') ↔
      ∀ v ∈ applied, v.KeepsLines (.ofText text)) := by
  rcases h.source with ⟨rfl, htext⟩ | ⟨lines, hpatch, htext⟩
  · exact ⟨text, htext, iff_of_true ⟨nofun, fun _ _ => rfl, rfl⟩ nofun⟩
  · exact ⟨_, htext, hpatch.reread_iff⟩

end SourceFile

namespace FileJob

variable {j : FileJob} {f : SourceFile} {text : String}

/-- What is made of a file that is parsed and fixed. -/
theorem parse_fixed (hj : j.registry.IsBuiltin) (hfix : j.context.autoFix = true)
    {e : ParserEntry} (he : e ∈ j.registry.parsers) (hf : f.IsReset text) :
    ∃ applied, (j.parse e f).fixes = applied.length ∧ (j.parse e f).file.Fixed text applied := by
  obtain ⟨s, hrep, hparsed⟩ := parse_reported hj he hf
  have hsettles := s.file.settles s.held
  obtain ⟨lines, hpatch, hfile⟩ := hsettles.model _ hrep.model
  have hfixed (v : Violation) (hv : v ∈ s.held) : v.IsFixable (.ofText text) :=
    hrep.of_mem_held (fun v hv => Registry.line_of_mem_reports hv) hv
  refine ⟨(s.file.applyFixes s.held).applied, ?_, ?_, .inr ⟨lines, hpatch, ?_⟩⟩
  · rw [hparsed]
    simp only [fix, hfix, ↓reduceIte, finish]
  · intro v hv
    exact hfixed v (hsettles.perm.mem_iff.mp (List.mem_append_left _ hv))
  · have htaken : s.file.text = none := by rw [hrep.file]
    rw [hparsed]
    simp [fix, hfix, finish, Visit.publishAll_file, hfile, SourceFile.markDone,
      SourceFile.sourceText?, htaken]

/-- **What is made of a file in a fixing run.** -/
theorem process_fixed (hj : j.registry.IsBuiltin) (hfix : j.context.autoFix = true)
    (f : SourceFile) : ∃ applied, (j.process none f.reset).fixes = applied.length ∧
      ∀ text, f.sourceText? = some text → (j.process none f.reset).file.Fixed text applied := by
  have hskip : (skip f.reset).fixes = ([] : List Violation).length ∧
      ∀ text, f.sourceText? = some text → (skip f.reset).file.Fixed text [] := by
    refine ⟨rfl, fun text htext => .untouched ?_⟩
    simp only [skip, SourceFile.markDone, SourceFile.sourceText?,
      (SourceFile.isReset_reset htext).text]
  rw [process_reset]
  split
  · exact ⟨[], hskip⟩
  · next e he =>
    have hmem := mem_parsers_of_parserOf? he
    split
    · cases htext : f.sourceText? with
      | none =>
        refine ⟨[], (parse_of_textless hj hmem htext rfl).1, ?_⟩
        rintro _ ⟨⟩
      | some text =>
        obtain ⟨applied, hfixes, hfixed⟩ :=
          parse_fixed hj hfix hmem (SourceFile.isReset_reset htext)
        refine ⟨applied, hfixes, ?_⟩
        rintro _ ⟨⟩
        exact hfixed
    · exact ⟨[], hskip⟩

end FileJob

end StyleEngine
