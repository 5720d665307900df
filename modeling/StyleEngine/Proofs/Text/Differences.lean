import Mathlib.Data.List.Infix
import StyleEngine.Diff
import StyleEngine.Proofs.Text.Rendering

/-! # What a difference says

The difference between two texts that are not the same is one hunk.  Its body starts
with the line in front of the first one that differs, if there is such a line, and
reaches to the end of both texts, so that nothing of them is lost
(`unifiedDiff_lossless`): the lines that are marked as common or removed are those of
the old text from there on, and those that are marked as common or added are those of
the new one.
-/
namespace StyleEngine

/-! ## The text of a difference -/

/-- The lines that name the two texts. -/
def fileLines (file : Path) : String :=
  "--- a/" ++ file.text ++ "\n+++ b/" ++ file.text ++ "\n"

/-- Where a hunk starts in the two texts and how many lines of them it has. -/
structure HunkRange where
  oldStart : Nat
  oldCount : Nat
  newStart : Nat
  newCount : Nat
deriving DecidableEq

/-- The line in front of a hunk. -/
def HunkRange.text (r : HunkRange) : String :=
  "@@ -" ++ toString r.oldStart ++ "," ++ toString r.oldCount ++ " +" ++ toString r.newStart ++
    "," ++ toString r.newCount ++ " @@\n"

/-- The lines in the body of a hunk that have one of the given marks, without it. -/
def marked (marks : List Char) (body : String) : List String :=
  (pieces body.toList).filterMap fun
    | [] => none
    | c :: rest => if c ∈ marks then some (String.ofList rest.dropLast) else none

/-- A number is told from what follows it in a text, if no digit does. -/
theorem toDigits_append_inj {m n : Nat} {c : Char} {cs cs' : List Char} (hc : c.isDigit = false)
    (h : Nat.toDigits 10 m ++ c :: cs = Nat.toDigits 10 n ++ c :: cs') : m = n ∧ cs = cs' := by
  have htake (k : Nat) (cs : List Char) :
      (Nat.toDigits 10 k ++ c :: cs).takeWhile Char.isDigit = Nat.toDigits 10 k := by
    rw [List.takeWhile_append_of_pos fun _ => Nat.isDigit_of_mem_toDigits (by omega) le_rfl,
      List.takeWhile_cons_of_neg (by simpa using hc), List.append_nil]
  have hdigits : Nat.toDigits 10 m = Nat.toDigits 10 n := by
    rw [← htake m cs, h, htake n cs']
  have hvalue := congrArg (Nat.ofDigitChars 10 · 0) hdigits
  simp only [Nat.ofDigitChars_ten_toDigits] at hvalue
  rw [hdigits] at h
  exact ⟨hvalue, (List.cons.inj (List.append_cancel_left h)).2⟩

/-- The line in front of a hunk tells its numbers, and where the body starts. -/
theorem HunkRange.text_append_inj {r r' : HunkRange} {body body' : String}
    (h : r.text ++ body = r'.text ++ body') : r = r' ∧ body = body' := by
  have hchars := congrArg String.toList h
  simp only [text, Nat.toString_eq_repr, Nat.toList_repr, String.toList_append,
    String.reduceToList, List.cons_append, List.nil_append, List.append_assoc, List.cons.injEq,
    true_and] at hchars
  obtain ⟨hold, hchars⟩ := toDigits_append_inj rfl hchars
  obtain ⟨holdCount, hchars⟩ := toDigits_append_inj rfl hchars
  obtain ⟨hnew, hchars⟩ := toDigits_append_inj rfl (List.cons.inj hchars).2
  obtain ⟨hnewCount, hchars⟩ := toDigits_append_inj rfl hchars
  refine ⟨?_, String.toList_inj.mp (by simpa using hchars)⟩
  cases r
  cases r'
  simp_all

/-! ## Lines of a hunk -/

namespace DiffLine

/-- The mark in front of a line. -/
def mark : DiffLine → Char
  | same _ => ' '
  | removed _ => '-'
  | added _ => '+'

def text : DiffLine → String
  | same t => t
  | removed t => t
  | added t => t

/-- The text of a line that has one of the given marks. -/
def marked? (marks : List Char) (l : DiffLine) : Option String :=
  if l.mark ∈ marks then some l.text else none

theorem toList_render (l : DiffLine) : l.render.toList = l.mark :: l.text.toList ++ ['\n'] := by
  cases l <;> simp [render, mark, text]

/-- The body of a hunk is cut into its lines again. -/
theorem marked_join_render (marks : List Char) {ls : List DiffLine}
    (h : ∀ l ∈ ls, '\n' ∉ l.text.toList) :
    marked marks (String.join (ls.map render)) = ls.filterMap (marked? marks) := by
  have hbody : (String.join (ls.map render)).toList =
      joinBodies (ls.map fun l => l.mark :: l.text.toList) [] := by
    simp [joinBodies, String.toList_join, List.flatMap_map, toList_render]
  have hlines : ∀ b ∈ ls.map fun l => l.mark :: l.text.toList, '\n' ∉ b := by
    intro b hb
    obtain ⟨l, hl, rfl⟩ := List.mem_map.mp hb
    have hmark : l.mark ≠ '\n' := by cases l <;> simp [mark]
    simp [h l hl, Ne.symm hmark]
  rw [marked, hbody, pieces_joinBodies hlines List.not_mem_nil, tailLine, if_pos rfl,
    List.append_nil, List.map_map, List.filterMap_map]
  refine List.filterMap_congr fun l _ => ?_
  simp [marked?]

theorem old_compare (os ms : List String) :
    (compare os ms).filterMap (marked? [' ', '-']) = os := by
  fun_induction compare os ms with
  | case1 ms => simp [marked?, mark]
  | case2 os hos => simp [marked?, mark, text, Function.comp_def]
  | case3 os o ms ih => simp [marked?, mark, text, ih]
  | case4 o os m ms hne ih => simp [marked?, mark, text, ih]

theorem new_compare (os ms : List String) :
    (compare os ms).filterMap (marked? [' ', '+']) = ms := by
  fun_induction compare os ms with
  | case1 ms => simp [marked?, mark, text, Function.comp_def]
  | case2 os hos => simp [marked?, mark]
  | case3 os o ms ih => simp [marked?, mark, text, ih]
  | case4 o os m ms hne ih => simp [marked?, mark, text, ih]

/-- Lines of a comparison are lines of one of the texts. -/
theorem text_mem_of_mem_compare {os ms : List String} {l : DiffLine} (h : l ∈ compare os ms) :
    l.text ∈ os ++ ms := by
  fun_induction compare os ms with
  | case1 ms =>
    obtain ⟨m, hm, rfl⟩ := List.mem_map.mp h
    exact hm
  | case2 os hos =>
    obtain ⟨o, ho, rfl⟩ := List.mem_map.mp h
    exact List.mem_append_left _ ho
  | case3 os o ms ih =>
    rcases List.mem_cons.mp h with rfl | h
    · exact List.mem_cons_self
    · have := ih h
      simp only [List.mem_append, List.mem_cons] at this ⊢
      tauto
  | case4 o os m ms hne ih =>
    rcases List.mem_cons.mp h with rfl | h
    · exact List.mem_cons_self
    rcases List.mem_cons.mp h with rfl | h
    · simp [text]
    · have := ih h
      simp only [List.mem_append, List.mem_cons] at this ⊢
      tauto

end DiffLine

/-! ## The first difference -/

/-- Whether two lists of lines differ at an index and are the same in front of it. -/
structure DiffersFirstAt (os ms : List String) (i : Nat) : Prop where
  same : os.take i = ms.take i
  differs : os[i]? ≠ ms[i]?

namespace DiffersFirstAt

variable {os ms : List String} {i j : Nat}

theorem symm (h : DiffersFirstAt os ms i) : DiffersFirstAt ms os i :=
  ⟨h.same.symm, h.differs.symm⟩

theorem ne (h : DiffersFirstAt os ms i) : os ≠ ms := by
  rintro rfl
  exact h.differs rfl

theorem cons (h : DiffersFirstAt os ms i) (o : String) :
    DiffersFirstAt (o :: os) (o :: ms) (i + 1) :=
  ⟨by simp [h.same], by simpa using h.differs⟩

theorem le_length (h : DiffersFirstAt os ms i) : i ≤ os.length := by
  by_contra hlong
  have hlength := congrArg List.length h.same
  simp only [List.length_take] at hlength
  refine h.differs ?_
  rw [List.getElem?_eq_none (by omega), List.getElem?_eq_none (by omega)]

theorem not_lt (h : DiffersFirstAt os ms i) (h' : DiffersFirstAt os ms j) : ¬ i < j := by
  intro hij
  refine h.differs ?_
  rw [← List.getElem?_take_of_lt hij, h'.same, List.getElem?_take_of_lt hij]

theorem unique (h : DiffersFirstAt os ms i) (h' : DiffersFirstAt os ms j) : i = j :=
  Nat.le_antisymm (Nat.not_lt.mp (h'.not_lt h)) (Nat.not_lt.mp (h.not_lt h'))

theorem zero_iff (h : DiffersFirstAt os ms i) : i = 0 ↔ os.head? ≠ ms.head? := by
  constructor
  · rintro rfl
    simpa [List.head?_eq_getElem?] using h.differs
  · intro hhead
    exact h.unique ⟨rfl, by simpa [List.head?_eq_getElem?] using hhead⟩

end DiffersFirstAt

/-- The last of some lines and all behind them. -/
theorem getLast?_take_append_drop {l : List String} {i : Nat} (h : i ≤ l.length) :
    (l.take i).getLast?.toList ++ l.drop i = l.drop (i - 1) := by
  cases i with
  | zero => rfl
  | succ k =>
    have hk : k < l.length := h
    rw [List.take_succ_eq_append_getElem hk, List.getLast?_concat, Nat.add_sub_cancel,
      List.drop_eq_getElem_cons hk]
    rfl

/-- The lines of the hunk of two texts that differ at an index first: the one in front of it, if
there is one, and what the comparison of the rest comes to. -/
def hunkLines (os ms : List String) (i : Nat) : List DiffLine :=
  ((os.take i).getLast?.map DiffLine.same).toList ++ DiffLine.compare (os.drop i) (ms.drop i)

theorem old_hunkLines {os ms : List String} {i : Nat} (h : DiffersFirstAt os ms i) :
    (hunkLines os ms i).filterMap (DiffLine.marked? [' ', '-']) = os.drop (i - 1) := by
  rw [hunkLines, List.filterMap_append, DiffLine.old_compare,
    ← getLast?_take_append_drop h.le_length]
  cases (os.take i).getLast? <;> simp [DiffLine.marked?, DiffLine.mark, DiffLine.text]

theorem new_hunkLines {os ms : List String} {i : Nat} (h : DiffersFirstAt os ms i) :
    (hunkLines os ms i).filterMap (DiffLine.marked? [' ', '+']) = ms.drop (i - 1) := by
  rw [hunkLines, List.filterMap_append, DiffLine.new_compare, h.same,
    ← getLast?_take_append_drop h.symm.le_length]
  cases (ms.take i).getLast? <;> simp [DiffLine.marked?, DiffLine.mark, DiffLine.text]

theorem text_mem_of_mem_hunkLines {os ms : List String} {i : Nat} {l : DiffLine}
    (h : l ∈ hunkLines os ms i) : l.text ∈ os ++ ms := by
  rcases List.mem_append.mp h with h | h
  · obtain ⟨o, ho, rfl⟩ := Option.map_eq_some_iff.mp (Option.mem_toList.mp h)
    exact List.mem_append_left _ (List.mem_of_mem_take (List.mem_of_getLast? ho))
  · have hmem := DiffLine.text_mem_of_mem_compare h
    rcases List.mem_append.mp hmem with hmem | hmem
    · exact List.mem_append_left _ (List.mem_of_mem_drop hmem)
    · exact List.mem_append_right _ (List.mem_of_mem_drop hmem)

/-- There is a hunk exactly between lists that differ, and it starts where they do first. -/
theorem Hunk.between?_cases (n : Nat) (before : Option String) (os ms : List String) :
    (os = ms ∧ Hunk.between? n before os ms = none) ∨
    ∃ i, DiffersFirstAt os ms i ∧
      Hunk.between? n before os ms = some ⟨n + i,
        ((before.toList ++ os.take i).getLast?.map DiffLine.same).toList ++
          DiffLine.compare (os.drop i) (ms.drop i)⟩ := by
  induction os generalizing n before ms with
  | nil =>
    cases ms with
    | nil => exact .inl ⟨rfl, rfl⟩
    | cons m ms =>
      refine .inr ⟨0, ⟨rfl, nofun⟩, ?_⟩
      cases before <;> simp [Hunk.between?]
  | cons o os ih =>
    cases ms with
    | nil =>
      refine .inr ⟨0, ⟨rfl, nofun⟩, ?_⟩
      cases before <;> simp [Hunk.between?]
    | cons m ms =>
      by_cases hom : o = m
      · subst hom
        rw [Hunk.between?, if_pos rfl]
        rcases ih (n + 1) (some o) ms with ⟨rfl, hnone⟩ | ⟨i, hi, hsome⟩
        · exact .inl ⟨rfl, hnone⟩
        · refine .inr ⟨i + 1, hi.cons o, ?_⟩
          have hlast : (before.toList ++ o :: os.take i).getLast? = (o :: os.take i).getLast? :=
            List.getLast?_append_of_ne_nil _ (List.cons_ne_nil _ _)
          rw [hsome, List.take_succ_cons, hlast, Nat.add_assoc, Nat.add_comm 1 i]
          rfl
      · refine .inr ⟨0, ⟨rfl, by simpa using hom⟩, ?_⟩
        rw [Hunk.between?, if_neg hom]
        cases before <;> rfl

/-! ## Differences -/

/-- The numbers that a difference gives for its hunk. -/
def hunkRange (os ms : List String) (i : Nat) : HunkRange :=
  ⟨i + 1, os.length, i + 1, ms.length⟩

/-- The difference of two texts, by the index at which their lines differ first. -/
theorem unifiedDiff_cases (file : Path) (old new : String) :
    (splitLines old = splitLines new ∧ unifiedDiff file old new = fileLines file) ∨
    ∃ i, DiffersFirstAt (splitLines old) (splitLines new) i ∧
      unifiedDiff file old new = fileLines file ++
        ((hunkRange (splitLines old) (splitLines new) i).text ++
          String.join ((hunkLines (splitLines old) (splitLines new) i).map DiffLine.render)) := by
  rcases Hunk.between?_cases 1 none (splitLines old) (splitLines new) with
    ⟨hsame, hnone⟩ | ⟨i, hi, hsome⟩
  · refine .inl ⟨hsame, ?_⟩
    simp [unifiedDiff, hnone, fileLines]
  · refine .inr ⟨i, hi, ?_⟩
    simp [unifiedDiff, hsome, fileLines, hunkRange, HunkRange.text, hunkLines, String.append_assoc,
      Nat.add_comm 1 i]

section Hunks

variable {file : Path} {old new : String} {r : HunkRange} {body : String}

theorem fileLines_append_text_ne : fileLines file ++ (r.text ++ body) ≠ fileLines file := by
  intro h
  have hchars := congrArg String.toList h
  rw [String.toList_append, List.append_right_eq_self, String.toList_append] at hchars
  have hempty := (List.append_eq_nil_iff.mp hchars).1
  simp [HunkRange.text] at hempty

/-- However a difference is read as the two files and a hunk, the hunk has the numbers and the
lines of the texts from the first index on at which they differ. -/
theorem exists_of_unifiedDiff_eq
    (h : unifiedDiff file old new = fileLines file ++ (r.text ++ body)) :
    ∃ i, DiffersFirstAt (splitLines old) (splitLines new) i ∧
      r = hunkRange (splitLines old) (splitLines new) i ∧
      marked [' ', '-'] body = (splitLines old).drop (i - 1) ∧
      marked [' ', '+'] body = (splitLines new).drop (i - 1) := by
  rcases unifiedDiff_cases file old new with ⟨-, hnone⟩ | ⟨i, hi, hsome⟩
  · exact absurd (h.symm.trans hnone) fileLines_append_text_ne
  · rw [hsome, String.append_right_inj] at h
    obtain ⟨rfl, rfl⟩ := HunkRange.text_append_inj h
    have hfeeds : ∀ l ∈ hunkLines (splitLines old) (splitLines new) i, '\n' ∉ l.text.toList := by
      intro l hl
      rcases List.mem_append.mp (text_mem_of_mem_hunkLines hl) with hmem | hmem
      · exact TextModel.notMem_ofText_lines old _ hmem
      · exact TextModel.notMem_ofText_lines new _ hmem
    refine ⟨i, hi, rfl, ?_, ?_⟩
    · rw [DiffLine.marked_join_render _ hfeeds, old_hunkLines hi]
    · rw [DiffLine.marked_join_render _ hfeeds, new_hunkLines hi]

theorem exists_hunk (file : Path) (h : splitLines old ≠ splitLines new) :
    ∃ (r : HunkRange) (body : String),
      unifiedDiff file old new = fileLines file ++ (r.text ++ body) := by
  rcases unifiedDiff_cases file old new with ⟨hsame, -⟩ | ⟨i, -, hsome⟩
  · exact absurd hsame h
  · exact ⟨_, _, hsome⟩

theorem unifiedDiff_eq_fileLines_iff :
    unifiedDiff file old new = fileLines file ↔ splitLines old = splitLines new := by
  rcases unifiedDiff_cases file old new with ⟨hsame, hnone⟩ | ⟨i, hi, hsome⟩
  · exact iff_of_true hnone hsame
  · exact iff_of_false (fun h => fileLines_append_text_ne (hsome.symm.trans h)) hi.ne

end Hunks

/-- **Nothing is lost in a difference.**  There is a hunk exactly if the lines of the texts differ.
It is numbered by the first line that does, and from the line in front of that one on its body has
the lines of both texts.  So the new lines can be told from the old ones and the difference. -/
theorem unifiedDiff_lossless (file : Path) (old new : String) :
    (unifiedDiff file old new = fileLines file ↔ splitLines old = splitLines new) ∧
    (splitLines old ≠ splitLines new →
      ∃ i r body, DiffersFirstAt (splitLines old) (splitLines new) i ∧
        unifiedDiff file old new = fileLines file ++ (HunkRange.text r ++ body) ∧
        r.oldStart = i + 1 ∧ r.newStart = i + 1 ∧
        marked [' ', '-'] body = (splitLines old).drop (i - 1) ∧
        marked [' ', '+'] body = (splitLines new).drop (i - 1)) ∧
    ∀ old' new', splitLines old' = splitLines old →
      unifiedDiff file old' new' = unifiedDiff file old new → splitLines new' = splitLines new := by
  refine ⟨unifiedDiff_eq_fileLines_iff, fun hne => ?_, fun old' new' hlines hdiff => ?_⟩
  · obtain ⟨r, body, hread⟩ := exists_hunk file hne
    obtain ⟨i, hi, rfl, hold, hnew⟩ := exists_of_unifiedDiff_eq hread
    exact ⟨i, _, body, hi, hread, rfl, rfl, hold, hnew⟩
  · by_cases hsame : splitLines old = splitLines new
    · rw [unifiedDiff_eq_fileLines_iff.mpr hsame, unifiedDiff_eq_fileLines_iff] at hdiff
      exact hdiff.symm.trans (hlines.trans hsame)
    · obtain ⟨r, body, hread⟩ := exists_hunk file hsame
      obtain ⟨i, hi, hr, -, hnew⟩ := exists_of_unifiedDiff_eq hread
      obtain ⟨i', hi', hr', -, hnew'⟩ := exists_of_unifiedDiff_eq (hdiff.trans hread)
      rw [hlines] at hi'
      obtain rfl : i = i' := by
        have hstart := congrArg HunkRange.oldStart (hr.symm.trans hr')
        simpa [hunkRange] using hstart
      -- in front of the hunk the new lines are the old ones, and behind it they are in its body
      have hfront : (splitLines new').take (i - 1) = (splitLines new).take (i - 1) := by
        have htake := congrArg (List.take (i - 1)) (hi'.same.symm.trans hi.same)
        simpa [List.take_take, Nat.min_eq_left (Nat.sub_le i 1)] using htake
      calc splitLines new'
          = (splitLines new').take (i - 1) ++ (splitLines new').drop (i - 1) :=
            (List.take_append_drop _ _).symm
        _ = (splitLines new).take (i - 1) ++ (splitLines new).drop (i - 1) := by
            rw [hfront, ← hnew', hnew]
        _ = splitLines new := List.take_append_drop _ _

/-! ## What the numbers of a hunk say -/

namespace HunkRange

/-- Whether the numbers in front of a hunk are those of its body: how many lines of the two texts
it has, and at which numbers these lines stand there, if there are any. -/
structure Names (r : HunkRange) (os ms : List String) (body : String) : Prop where
  oldCount : (marked [' ', '-'] body).length = r.oldCount
  newCount : (marked [' ', '+'] body).length = r.newCount
  oldStart : 0 < r.oldCount →
    0 < r.oldStart ∧ marked [' ', '-'] body <+: os.drop (r.oldStart - 1)
  newStart : 0 < r.newCount →
    0 < r.newStart ∧ marked [' ', '+'] body <+: ms.drop (r.newStart - 1)

/-- The lines of a text after a hunk was applied, by its numbers and with no search for a better
place: the hunk must have as many lines as it says, and the text its old lines where it says. -/
def patch? (r : HunkRange) (os : List String) (body : String) : Option (List String) :=
  if (marked [' ', '-'] body).length = r.oldCount ∧ (marked [' ', '+'] body).length = r.newCount ∧
      marked [' ', '-'] body <+: os.drop (r.oldStart - 1) then
    some (os.take (r.oldStart - 1) ++ marked [' ', '+'] body ++
      os.drop (r.oldStart - 1 + r.oldCount))
  else none

end HunkRange

/-- The old lines of a hunk are not as many as it says or not where it says, unless the texts
differ in their first lines. -/
theorem DiffersFirstAt.eq_zero {os ms : List String} {i : Nat} (h : DiffersFirstAt os ms i)
    (hcount : (os.drop (i - 1)).length = os.length)
    (hplace : 0 < os.length → os.drop (i - 1) <+: os.drop i) : i = 0 := by
  by_contra hi
  have hlong := h.le_length
  have hlength := (hplace (by omega)).length_le
  simp only [List.length_drop] at hcount hlength
  omega

/-- **When a hunk is numbered as its lines are.**  The numbers in front of the hunk between two
texts are those of its body exactly if the texts differ in their first lines already, or one of
them has none.  Just then the new lines are what the hunk makes of the old ones. -/
theorem names_iff_head?_ne (file : Path) (old new : String) :
    (splitLines old ≠ splitLines new → ∃ (r : HunkRange) (body : String),
      unifiedDiff file old new = fileLines file ++ (r.text ++ body)) ∧
    ∀ (r : HunkRange) (body : String),
      unifiedDiff file old new = fileLines file ++ (r.text ++ body) →
        (r.Names (splitLines old) (splitLines new) body ↔
          (splitLines old).head? ≠ (splitLines new).head?) ∧
        (r.patch? (splitLines old) body = some (splitLines new) ↔
          (splitLines old).head? ≠ (splitLines new).head?) := by
  refine ⟨exists_hunk file, fun r body hread => ?_⟩
  obtain ⟨i, hi, rfl, hold, hnew⟩ := exists_of_unifiedDiff_eq hread
  rw [← hi.zero_iff]
  constructor
  · constructor
    · intro hnames
      have hcount := hnames.oldCount
      have hplace := fun hpos => (hnames.oldStart hpos).2
      rw [hold] at hcount hplace
      exact hi.eq_zero hcount hplace
    · rintro rfl
      refine ⟨by rw [hold]; rfl, by rw [hnew]; rfl, fun _ => ?_, fun _ => ?_⟩
      · exact ⟨Nat.one_pos, hold ▸ List.prefix_rfl⟩
      · exact ⟨Nat.one_pos, hnew ▸ List.prefix_rfl⟩
  · rw [HunkRange.patch?, hold, hnew]
    constructor
    · intro hpatch
      split at hpatch
      · next hfits => exact hi.eq_zero hfits.1 fun _ => hfits.2.2
      · cases hpatch
    · rintro rfl
      simp [hunkRange]

/-- Two texts that differ in their third lines only: the hunk has two lines of each from number two
on, and is said to have three from number three on. -/
theorem not_names_behind_common_lines :
    splitLines "a\nb\nc\n" ≠ splitLines "a\nb\nd\n" ∧
    unifiedDiff ⟨"a.cs"⟩ "a\nb\nc\n" "a\nb\nd\n" =
      fileLines ⟨"a.cs"⟩ ++ ((⟨3, 3, 3, 3⟩ : HunkRange).text ++ " b\n-c\n+d\n") ∧
    ¬ (⟨3, 3, 3, 3⟩ : HunkRange).Names (splitLines "a\nb\nc\n") (splitLines "a\nb\nd\n")
      " b\n-c\n+d\n" ∧
    (⟨3, 3, 3, 3⟩ : HunkRange).patch? (splitLines "a\nb\nc\n") " b\n-c\n+d\n" = none :=
  ⟨by decide +kernel, by decide +kernel, fun h => absurd h.oldCount (by decide +kernel),
    by decide +kernel⟩

end StyleEngine
