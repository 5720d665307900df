import Mathlib.Data.List.Infix
import Mathlib.Data.List.TakeWhile
import StyleEngine.Proofs.Text.Suppressions

/-! # Directives as they are written

A directive is written as the keyword and what it is for, blanks, the name of a rule, a
reason behind a colon if there is one, and what closes the comment if anything does
(`Directive.written`).  The characters of a name also start the closing marks, and a
reason is read as short as can be, with blanks on all sides that belong to nobody.
Still a line is read as it was written, whatever stands in front of the keyword
(`TextModel.carries_written`): the longest name after which the line ends well is the
name that was written, and the shortest reason is the one that was given.
-/
namespace StyleEngine

/-! ## Blanks -/

/-- Blanks, or nothing. -/
structure Blanks where
  text : List Char
  blank : ∀ c ∈ text, isBlank c = true

namespace Blanks

def empty : Blanks := ⟨[], by simp⟩

def append (b b' : Blanks) : Blanks :=
  ⟨b.text ++ b'.text, fun c hc => (List.mem_append.mp hc).elim (b.blank c) (b'.blank c)⟩

theorem mem_head?_append (b : Blanks) {cs : List Char} {c : Char}
    (h : c ∈ (b.text ++ cs).head?) : isBlank c = true ∨ c ∈ cs.head? := by
  rw [List.head?_append, Option.mem_def, Option.or_eq_some_iff] at h
  rcases h with h | ⟨-, h⟩
  · exact .inl (b.blank c (List.mem_of_head? h))
  · exact .inr h

end Blanks

/-- Whether a text does not start with a blank. -/
def StartsVisibly (cs : List Char) : Prop := ∀ c ∈ cs.head?, isBlank c = false

/-- Whether a text does not end with a blank. -/
def EndsVisibly (cs : List Char) : Prop := ∀ c ∈ cs.getLast?, isBlank c = false

theorem trimStart_eq_self {cs : List Char} (h : StartsVisibly cs) : trimStart cs = cs := by
  cases cs with
  | nil => rfl
  | cons c cs => exact List.dropWhile_cons_of_neg (by simpa using h c rfl)

theorem trimStart_append (b : Blanks) {cs : List Char} (h : StartsVisibly cs) :
    trimStart (b.text ++ cs) = cs := by
  rw [trimStart, List.dropWhile_append_of_pos b.blank]
  exact trimStart_eq_self h

theorem trimStart_blanks (b : Blanks) : trimStart b.text = [] := by
  have h : trimStart (b.text ++ []) = [] := trimStart_append b (by simp [StartsVisibly])
  rwa [List.append_nil] at h

theorem exists_blanks (cs : List Char) :
    ∃ b : Blanks, cs = b.text ++ trimStart cs ∧ StartsVisibly (trimStart cs) := by
  refine ⟨⟨cs.takeWhile isBlank, fun c hc => List.mem_takeWhile_imp hc⟩, ?_, ?_⟩
  · exact List.takeWhile_append_dropWhile.symm
  · intro c hc
    have hnot := List.head?_dropWhile_not isBlank cs
    rw [← trimStart, Option.mem_def.mp hc] at hnot
    simpa using hnot

theorem trimEnd_append (b : Blanks) {cs : List Char} (h : EndsVisibly cs) :
    trimEnd (cs ++ b.text) = cs := by
  rw [trimEnd, List.reverse_append,
    List.dropWhile_append_of_pos fun c hc => b.blank c (List.mem_reverse.mp hc)]
  have hstart : StartsVisibly cs.reverse := fun c hc => h c (by simpa using hc)
  rw [← trimStart, trimStart_eq_self hstart, List.reverse_reverse]

theorem trimBlanks_eq_self {s : String} (hstart : StartsVisibly s.toList)
    (hend : EndsVisibly s.toList) : trimBlanks s = s := by
  have htrim := trimEnd_append .empty hend
  rw [Blanks.empty, List.append_nil] at htrim
  rw [trimBlanks, trimStart_eq_self hstart, htrim, String.ofList_toList]

/-- What closes a comment of another language. -/
inductive ClosingMark where
  | arrow
  | star
deriving DecidableEq

def ClosingMark.text : ClosingMark → List Char
  | .arrow => ['-', '-', '>']
  | .star => ['*', '/']

theorem ClosingMark.startsVisibly (m : ClosingMark) (cs : List Char) :
    StartsVisibly (m.text ++ cs) := by
  cases m <;> simp [StartsVisibly, text] <;> decide

theorem ClosingMark.endsVisibly (m : ClosingMark) (cs : List Char) :
    EndsVisibly (cs ++ m.text) := by
  cases m <;> simp [EndsVisibly, text] <;> decide

/-- The last characters tell the closing marks apart. -/
theorem ClosingMark.append_text_inj {m m' : ClosingMark} {cs cs' : List Char}
    (h : cs ++ m.text = cs' ++ m'.text) : cs = cs' ∧ m = m' := by
  have hlast := congrArg List.getLast? h
  obtain rfl : m = m' := by
    cases m <;> cases m' <;> simp [text] at hlast ⊢
  exact ⟨List.append_cancel_right h, rfl⟩

namespace Directive

/-! ## How a line closes -/

/-- The end of a line with a directive: a closing mark if there is one, among blanks. -/
def closing (before : Blanks) (mark : Option ClosingMark) (after : Blanks) : List Char :=
  before.text ++ ((mark.map ClosingMark.text).getD [] ++ after.text)

theorem closes_eq (cs : List Char) : closes cs =
    ((trimStart cs).isEmpty ||
      (dropWord? ClosingMark.arrow.text (trimStart cs)).any (trimStart · |>.isEmpty) ||
      (dropWord? ClosingMark.star.text (trimStart cs)).any (trimStart · |>.isEmpty)) := by
  simp only [closes, ClosingMark.text]
  cases dropWord? ['-', '-', '>'] (trimStart cs) <;>
    cases dropWord? ['*', '/'] (trimStart cs) <;> rfl

/-- A line closes exactly if blanks are left of it, or a closing mark among blanks. -/
theorem closes_iff {cs : List Char} :
    closes cs = true ↔ ∃ before mark after, cs = closing before mark after := by
  have hempty (xs : List Char) : (trimStart xs).isEmpty = true ↔ ∃ b : Blanks, xs = b.text := by
    rw [List.isEmpty_iff]
    constructor
    · intro h
      obtain ⟨b, hb, -⟩ := exists_blanks xs
      exact ⟨b, by rw [hb, h, List.append_nil]⟩
    · rintro ⟨b, rfl⟩
      exact trimStart_blanks b
  have hmark (m : ClosingMark) :
      ((dropWord? m.text (trimStart cs)).any fun rest => (trimStart rest).isEmpty) = true ↔
        ∃ before after, cs = closing before (some m) after := by
    rw [Option.any_eq_true]
    constructor
    · rintro ⟨rest, hrest, hblank⟩
      obtain ⟨before, hbefore, -⟩ := exists_blanks cs
      obtain ⟨after, rfl⟩ := (hempty rest).mp hblank
      rw [eq_append_of_dropWord? hrest] at hbefore
      exact ⟨before, after, hbefore⟩
    · rintro ⟨before, after, rfl⟩
      have htrim : trimStart (closing before (some m) after) = m.text ++ after.text :=
        trimStart_append before (m.startsVisibly _)
      exact ⟨after.text, by rw [htrim, dropWord?_append], (hempty _).mpr ⟨after, rfl⟩⟩
  rw [closes_eq, Bool.or_eq_true, Bool.or_eq_true, hempty]
  constructor
  · rintro ((⟨b, rfl⟩ | h) | h)
    · exact ⟨b, none, .empty, by simp [closing, Blanks.empty]⟩
    · obtain ⟨before, after, hcs⟩ := (hmark .arrow).mp h
      exact ⟨before, some .arrow, after, hcs⟩
    · obtain ⟨before, after, hcs⟩ := (hmark .star).mp h
      exact ⟨before, some .star, after, hcs⟩
  · rintro ⟨before, mark, after, hcs⟩
    cases mark with
    | none =>
      exact .inl (.inl ⟨before.append after, hcs⟩)
    | some m =>
      cases m with
      | arrow => exact .inl (.inr ((hmark .arrow).mpr ⟨before, after, hcs⟩))
      | star => exact .inr ((hmark .star).mpr ⟨before, after, hcs⟩)

theorem closes_closing (before : Blanks) (mark : Option ClosingMark) (after : Blanks) :
    closes (closing before mark after) = true :=
  closes_iff.mpr ⟨before, mark, after, rfl⟩

theorem trimEnd_append_closing {cs : List Char} (h : EndsVisibly cs) (before : Blanks)
    (mark : Option ClosingMark) (after : Blanks) :
    trimEnd (cs ++ closing before mark after) =
      match mark with
      | none => cs
      | some m => cs ++ (before.text ++ m.text) := by
  cases mark with
  | none =>
    exact trimEnd_append (before.append after) h
  | some m =>
    have hsplit : cs ++ closing before (some m) after =
        cs ++ before.text ++ m.text ++ after.text := by simp [closing]
    rw [hsplit, trimEnd_append after (m.endsVisibly _), List.append_assoc]

/-- A line does not close yet in front of a text that ends visibly and with no closing mark. -/
theorem closes_append_closing {cs : List Char} (hne : cs ≠ []) (hend : EndsVisibly cs)
    (hopen : ∀ m : ClosingMark, ¬ m.text <:+ cs) (before : Blanks) (mark : Option ClosingMark)
    (after : Blanks) : closes (cs ++ closing before mark after) = false := by
  rw [Bool.eq_false_iff, ne_eq, closes_iff]
  rintro ⟨before', mark', after', heq⟩
  have htrim := trimEnd_append_closing hend before mark after
  have hnil : EndsVisibly [] := by simp [EndsVisibly]
  have htrim' := trimEnd_append_closing hnil before' mark' after'
  rw [List.nil_append, ← heq, htrim] at htrim'
  cases mark with
  | none =>
    cases mark' with
    | none => exact hne htrim'
    | some m' => exact hopen m' ⟨before'.text, htrim'.symm⟩
  | some m =>
    cases mark' with
    | none => exact hne (List.append_eq_nil_iff.mp htrim').1
    | some m' =>
      -- the marks are the same, so that the text would be one of blanks
      have hsame : cs ++ before.text ++ m.text = before'.text ++ m'.text := by
        rw [List.append_assoc]
        exact htrim'
      have hblank := (ClosingMark.append_text_inj hsame).1
      have hlast := List.getLast_mem hne
      have hvisible := hend _ (List.getLast?_eq_some_getLast hne)
      rw [before'.blank _ (hblank ▸ List.mem_append_left _ hlast)] at hvisible
      cases hvisible

/-! ## Reasons -/

/-- Whether a text can be told from what stands around it as a reason.  (A line has no line feed,
so that a reason on a line has none either.) -/
structure IsReason (r : String) : Prop where
  notEmpty : r ≠ ""
  startsVisibly : StartsVisibly r.toList
  endsVisibly : EndsVisibly r.toList
  staysOpen : ∀ m : ClosingMark, ¬ m.text <:+ r.toList

theorem IsReason.toList_ne_nil {r : String} (h : IsReason r) : r.toList ≠ [] := fun hnil =>
  h.notEmpty (String.toList_eq_nil_iff.mp hnil)

theorem IsReason.closes_append {r : String} (h : IsReason r) {cs : List Char} (hne : cs ≠ [])
    (hcs : cs <:+ r.toList) (before : Blanks) (mark : Option ClosingMark) (after : Blanks) :
    closes (cs ++ closing before mark after) = false := by
  refine closes_append_closing hne ?_ (fun m hm => h.staysOpen m (hm.trans hcs)) before mark after
  obtain ⟨front, hfront⟩ := hcs
  intro c hc
  refine h.endsVisibly c ?_
  rwa [← hfront, List.getLast?_append_of_ne_nil front hne]

/-- The shortest reason is all of a text of which no end may be left out. -/
theorem shortestReason_append {r rest : List Char} (hne : r ≠ []) (hrest : closes rest = true)
    (hopen : ∀ cs, cs ≠ [] → cs <:+ r → closes (cs ++ rest) = false) :
    shortestReason (r ++ rest) = some r := by
  induction r with
  | nil => exact absurd rfl hne
  | cons c r ih =>
    rw [List.cons_append, shortestReason]
    by_cases hr : r = []
    · rw [hr, List.nil_append, if_pos hrest]
    · rw [if_neg (by simp [hopen r hr (List.suffix_cons c r)]),
        ih hr fun cs hcs hsuffix => hopen cs hcs (hsuffix.trans (List.suffix_cons c r)),
        Option.map_some]

theorem reason?_eq_none {cs : List Char} (h : (trimStart cs).head? ≠ some ':') :
    reason? cs = none := by
  unfold reason?
  split
  · next heq =>
    rw [heq] at h
    exact absurd rfl h
  · rfl

theorem reason?_colon (beforeColon afterColon : Blanks) {cs : List Char} (hne : cs ≠ [])
    (hcs : StartsVisibly cs) :
    reason? (beforeColon.text ++ ':' :: (afterColon.text ++ cs)) = shortestReason cs := by
  have hcolon : StartsVisibly (':' :: (afterColon.text ++ cs)) := by
    simp only [StartsVisibly, List.head?_cons, Option.mem_def, Option.some.injEq, forall_eq']
    decide
  unfold reason?
  rw [trimStart_append beforeColon hcolon]
  split
  · next rest hrest =>
    obtain rfl : afterColon.text ++ cs = rest := (List.cons.inj hrest).2
    rw [trimStart_append afterColon hcs]
    split
    · exact absurd rfl hne
    · rfl
  · next hother => exact absurd rfl (hother _)

/-- A reason as it is written behind the name of a rule. -/
def reasonText (beforeColon afterColon : Blanks) : Option String → List Char
  | none => []
  | some r => beforeColon.text ++ ':' :: (afterColon.text ++ r.toList)

/-- What follows a rule's name is read as the reason that was given, or as none. -/
theorem ending?_reasonText {reason : Option String} (hreason : ∀ r ∈ reason, IsReason r)
    (beforeColon afterColon before : Blanks) (mark : Option ClosingMark) (after : Blanks) :
    ending? (reasonText beforeColon afterColon reason ++ closing before mark after) =
      some (reason.map String.toList) := by
  cases reason with
  | none =>
    have hnone : reason? (closing before mark after) = none := by
      refine reason?_eq_none ?_
      cases mark with
      | none =>
        rw [show trimStart (closing before none after) = [] from
          trimStart_blanks (before.append after)]
        exact nofun
      | some m =>
        rw [show trimStart (closing before (some m) after) = m.text ++ after.text from
          trimStart_append before (m.startsVisibly _)]
        cases m <;> simp [ClosingMark.text]
    rw [reasonText, List.nil_append, ending?, hnone]
    simp [closes_closing]
  | some r =>
    have hr := hreason r rfl
    have hread : reason? (reasonText beforeColon afterColon (some r) ++
        closing before mark after) = some r.toList := by
      have hsplit : reasonText beforeColon afterColon (some r) ++ closing before mark after =
          beforeColon.text ++
            ':' :: (afterColon.text ++ (r.toList ++ closing before mark after)) := by
        simp [reasonText]
      have hstart : StartsVisibly (r.toList ++ closing before mark after) := by
        intro c hc
        rw [List.head?_append_of_ne_nil _ hr.toList_ne_nil] at hc
        exact hr.startsVisibly c hc
      rw [hsplit, reason?_colon beforeColon afterColon (by simp [hr.toList_ne_nil]) hstart]
      exact shortestReason_append hr.toList_ne_nil (closes_closing before mark after)
        fun cs hne hcs => hr.closes_append hne hcs before mark after
    rw [ending?, hread]
    rfl

/-! ## Names -/

theorem isNameChar_of_isBlank {c : Char} (h : isBlank c = true) : isNameChar c = false := by
  rw [Bool.eq_false_iff]
  intro hname
  simp only [isBlank, Bool.or_eq_true, Bool.and_eq_true, decide_eq_true_eq, beq_iff_eq] at h
  delta isNameChar Char.isAlphanum Char.isAlpha Char.isUpper Char.isLower Char.isDigit at hname
  simp only [Bool.or_eq_true, Bool.and_eq_true, decide_eq_true_eq, beq_iff_eq,
    UInt32.le_iff_toNat_le, ge_iff_le] at hname
  rcases hname with (((((((hupper | hlower) | hdigit) | rfl) | rfl) | rfl) | rfl) | rfl)
  · change 65 ≤ c.toNat ∧ c.toNat ≤ 90 at hupper
    omega
  · change 97 ≤ c.toNat ∧ c.toNat ≤ 122 at hlower
    omega
  · change 48 ≤ c.toNat ∧ c.toNat ≤ 57 at hdigit
    omega
  all_goals simp at h

/-- The longest name after which a line ends well is the one behind which it does and no longer one
does. -/
theorem nameUpTo_append {name extra rest : List Char} {reason : Option (List Char)}
    (hne : name ≠ []) (hends : ending? (extra ++ rest) = some reason)
    (hextra : ∀ n, 0 < n → n ≤ extra.length → ending? (extra.drop n ++ rest) = none) :
    ∀ n ≤ extra.length,
      nameUpTo (name ++ extra) rest (name.length + n) = some (name, reason) := by
  intro n hn
  induction n with
  | zero =>
    obtain ⟨k, hk⟩ : ∃ k, name.length = k + 1 :=
      Nat.exists_eq_succ_of_ne_zero (by simpa using hne)
    rw [Nat.add_zero, hk, nameUpTo, ← hk, List.drop_left, hends, List.take_left]
  | succ n ih =>
    rw [← Nat.add_assoc, nameUpTo, Nat.add_assoc, List.drop_length_add_append,
      hextra (n + 1) (by omega) hn]
    exact ih (by omega)

/-- What follows a rule's name goes on as a name does only if a closing mark stands there at
once. -/
theorem follows_cases (beforeColon afterColon : Blanks) (reason : Option String)
    (before : Blanks) (mark : Option ClosingMark) (after : Blanks) :
    (∀ c ∈ (reasonText beforeColon afterColon reason ++ closing before mark after).head?,
      isNameChar c = false) ∨
    ∃ m : ClosingMark, reasonText beforeColon afterColon reason ++ closing before mark after =
      m.text ++ after.text := by
  cases reason with
  | some r =>
    left
    intro c hc
    simp only [reasonText, List.append_assoc] at hc
    rcases beforeColon.mem_head?_append hc with hblank | hcolon
    · exact isNameChar_of_isBlank hblank
    · obtain rfl : ':' = c := by simpa using hcolon
      decide
  | none =>
    simp only [reasonText, List.nil_append]
    by_cases hbefore : before.text = []
    · cases mark with
      | some m => exact .inr ⟨m, by simp [closing, hbefore]⟩
      | none =>
        left
        intro c hc
        refine isNameChar_of_isBlank (after.blank c (List.mem_of_head? ?_))
        simpa [closing, hbefore] using hc
    · left
      intro c hc
      rw [closing, List.head?_append_of_ne_nil _ hbefore] at hc
      exact isNameChar_of_isBlank (before.blank c (List.mem_of_head? hc))

/-- No more of what follows a rule's name can be taken into the name: it may go on with a part
of a closing mark, but what is left of the mark does not end a line. -/
theorem ending?_drop_eq_none {beforeColon afterColon before after : Blanks}
    {reason : Option String} {mark : Option ClosingMark} {n : Nat} (hpos : 0 < n)
    (hn : n ≤ ((reasonText beforeColon afterColon reason ++
      closing before mark after).takeWhile isNameChar).length) :
    ending? ((reasonText beforeColon afterColon reason ++ closing before mark after).drop n) =
      none := by
  rcases follows_cases beforeColon afterColon reason before mark after with hstop | ⟨m, hmark⟩
  · have hnone : (reasonText beforeColon afterColon reason ++
        closing before mark after).takeWhile isNameChar = [] := by
      cases hfollows : reasonText beforeColon afterColon reason ++ closing before mark after with
      | nil => rfl
      | cons c cs =>
        rw [hfollows] at hstop
        exact List.takeWhile_cons_of_neg (by simpa using hstop c rfl)
    rw [hnone] at hn
    exact absurd hpos (by simpa using hn)
  · rw [hmark] at hn ⊢
    cases m with
    | arrow =>
      obtain rfl | rfl : n = 1 ∨ n = 2 := by
        have htwo : ((ClosingMark.arrow.text ++ after.text).takeWhile isNameChar).length = 2 := rfl
        omega
      · rfl
      · rfl
    | star =>
      obtain rfl : n = 1 := by
        have hone : ((ClosingMark.star.text ++ after.text).takeWhile isNameChar).length = 1 := rfl
        omega
      rfl

/-! ## Directives -/

/-- The word behind the keyword that says what a directive is for. -/
def kindWord : DirectiveKind → List Char
  | .line => []
  | .nextLine => "-next-line".toList
  | .file => "-file".toList

/-- How a directive is laid out on its line: the blanks between its parts, and what closes the
comment. -/
structure Layout where
  beforeName : Blanks
  beforeColon : Blanks
  afterColon : Blanks
  beforeMark : Blanks
  mark : Option ClosingMark
  afterMark : Blanks
  apart : beforeName.text ≠ []

/-- What follows a rule's name. -/
def Layout.follows (lay : Layout) (reason : Option String) : List Char :=
  reasonText lay.beforeColon lay.afterColon reason ++
    closing lay.beforeMark lay.mark lay.afterMark

/-- A directive as it is written. -/
def written (d : Directive) (lay : Layout) : List Char :=
  keyword ++ (kindWord d.kind ++ (lay.beforeName.text ++ (d.rule.toList ++ lay.follows d.reason)))

/-- Whether a directive has the name of a rule, and no reason or one that stays apart from what
stands around it. -/
structure IsWritable (d : Directive) : Prop where
  named : d.rule ≠ ""
  isName : ∀ c ∈ d.rule.toList, isNameChar c = true
  isReason : ∀ r ∈ d.reason, IsReason r

theorem kindOf_kindWord (kind : DirectiveKind) {b : Blanks} (hb : b.text ≠ []) (cs : List Char) :
    kindOf (kindWord kind ++ (b.text ++ cs)) = (kind, b.text ++ cs) := by
  cases kind with
  | nextLine =>
    rw [kindOf, show kindWord .nextLine = "-next-line".toList from rfl, dropWord?_append]
  | file =>
    have hnext : dropWord? "-next-line".toList ("-file".toList ++ (b.text ++ cs)) = none := by
      simp [dropWord?]
    rw [kindOf, show kindWord .file = "-file".toList from rfl, hnext, dropWord?_append]
  | line =>
    obtain ⟨c, rest, hc⟩ := List.exists_cons_of_ne_nil hb
    have hblank : isBlank c = true := b.blank c (by simp [hc])
    have hdash : '-' ≠ c := by
      rintro rfl
      exact absurd hblank (by decide)
    have hnone (word : List Char) : dropWord? ('-' :: word) (c :: (rest ++ cs)) = none := by
      simp [dropWord?, hdash]
    rw [show kindWord .line = [] from rfl, List.nil_append, hc, kindOf]
    rw [show "-next-line".toList = '-' :: "next-line".toList from rfl,
      show "-file".toList = '-' :: "file".toList from rfl, List.cons_append, hnone, hnone]

theorem trimmed_reason {reason : Option String} (h : ∀ r ∈ reason, IsReason r) :
    (reason.map String.toList).map (fun r => trimBlanks (String.ofList r)) = reason := by
  cases reason with
  | none => rfl
  | some r =>
    have hr := h r rfl
    simp [trimBlanks_eq_self hr.startsVisibly hr.endsVisibly]

/-- A directive is read behind its keyword as it was written. -/
theorem after?_written {d : Directive} (hd : d.IsWritable) (lay : Layout) :
    after? (kindWord d.kind ++ (lay.beforeName.text ++ (d.rule.toList ++ lay.follows d.reason))) =
      some d := by
  have hne : d.rule.toList ≠ [] := fun hnil => hd.named (String.toList_eq_nil_iff.mp hnil)
  have hstart : StartsVisibly (d.rule.toList ++ lay.follows d.reason) := by
    intro c hc
    rw [List.head?_append_of_ne_nil _ hne] at hc
    have hname := hd.isName c (List.mem_of_head? hc)
    rw [Bool.eq_false_iff]
    intro hblank
    rw [isNameChar_of_isBlank hblank] at hname
    cases hname
  have hends : ending? (lay.follows d.reason) = some (d.reason.map String.toList) :=
    ending?_reasonText hd.isReason ..
  -- the characters of a name go on behind it into a closing mark that stands there at once
  have hrun : (d.rule.toList ++ lay.follows d.reason).takeWhile isNameChar =
      d.rule.toList ++ (lay.follows d.reason).takeWhile isNameChar :=
    List.takeWhile_append_of_pos hd.isName
  have hrest : (d.rule.toList ++ lay.follows d.reason).dropWhile isNameChar =
      (lay.follows d.reason).dropWhile isNameChar := List.dropWhile_append_of_pos hd.isName
  have hname : nameUpTo (d.rule.toList ++ (lay.follows d.reason).takeWhile isNameChar)
      ((lay.follows d.reason).dropWhile isNameChar)
      (d.rule.toList.length + ((lay.follows d.reason).takeWhile isNameChar).length) =
      some (d.rule.toList, d.reason.map String.toList) := by
    refine nameUpTo_append hne ?_ ?_ _ le_rfl
    · rw [List.takeWhile_append_dropWhile, hends]
    · intro n hpos hn
      rw [← List.drop_append_of_le_length hn, List.takeWhile_append_dropWhile]
      exact ending?_drop_eq_none hpos hn
  have hlength : (d.rule.toList ++ lay.follows d.reason).length ≠
      (lay.beforeName.text ++ (d.rule.toList ++ lay.follows d.reason)).length := by
    simpa [List.length_append] using lay.apart
  unfold after?
  rw [kindOf_kindWord d.kind lay.apart]
  dsimp only
  rw [trimStart_append lay.beforeName hstart, if_neg hlength, hrun, hrest, List.length_append,
    hname, Option.map_some, trimmed_reason hd.isReason, String.ofList_toList]

/-! ## Lines -/

/-- No proper end of the keyword is one of its starts. -/
theorem keyword_drop_ne_take :
    ∀ n < keyword.length, 0 < n → keyword.drop n ≠ keyword.take (keyword.length - n) := by
  decide

/-- A keyword that starts in front of another one ends in front of it. -/
theorem isPrefix_of_append_keyword {cs rest : List Char} (hne : cs ≠ [])
    (h : keyword <+: cs ++ (keyword ++ rest)) : keyword <+: cs := by
  by_cases hlength : keyword.length ≤ cs.length
  · exact List.prefix_of_prefix_length_le h (List.prefix_append _ _) hlength
  · exfalso
    have hoverlap : keyword.drop cs.length <+: keyword ++ rest := by
      have hdrop := h.drop cs.length
      rwa [List.drop_left] at hdrop
    have htake := List.prefix_iff_eq_take.mp hoverlap
    rw [List.length_drop, List.take_append_of_le_length (Nat.sub_le _ _)] at htake
    exact keyword_drop_ne_take _ (not_le.mp hlength) (List.length_pos_iff.mpr hne) htake

/-- The leftmost keyword of a line counts, if a directive can be read behind it. -/
theorem read?_append_keyword {front rest : List Char} {d : Directive}
    (hfront : ¬ keyword <:+: front) (hrest : after? rest = some d) :
    read? (front ++ (keyword ++ rest)) = some d := by
  induction front with
  | nil =>
    obtain ⟨c, cs, hkeyword⟩ : ∃ c cs, keyword = c :: cs := ⟨_, _, rfl⟩
    have hread : (dropWord? keyword (keyword ++ rest)).bind after? = some d := by
      rw [dropWord?_append, Option.bind_some, hrest]
    rw [List.nil_append]
    rw [hkeyword, List.cons_append] at hread ⊢
    rw [read?, hkeyword, hread]
  | cons c front ih =>
    have hnone : dropWord? keyword (c :: (front ++ (keyword ++ rest))) = none := by
      refine dropWord?_eq_none_iff.mpr fun h => hfront ?_
      exact (isPrefix_of_append_keyword (List.cons_ne_nil c front) h).isInfix
    rw [List.cons_append, read?, hnone, Option.bind_none]
    exact ih fun h => hfront (h.trans (List.suffix_cons c front).isInfix)

theorem read?_written {front : List Char} {d : Directive} (hfront : ¬ keyword <:+: front)
    (hd : d.IsWritable) (lay : Layout) : read? (front ++ d.written lay) = some d :=
  read?_append_keyword hfront (after?_written hd lay)

end Directive

namespace TextModel

/-- **Directives are recognized.**  A directive for the rule with some name, with a reason or
without one, is read on the line that it is written on as it was written: behind any text without
the keyword, with any blanks between its parts, and with or without a mark that closes the comment.
A text that has the line switches off what the directive says. -/
theorem carries_written {front : List Char} {d : Directive}
    (hfront : ¬ Directive.keyword <:+: front) (hd : d.IsWritable) (lay : Directive.Layout) :
    Directive.read? (front ++ d.written lay) = some d ∧
    ∀ text k, (ofText text).line? k = some (String.ofList (front ++ d.written lay)) →
      (∀ d', (ofText text).Carries k d' ↔ d' = d) ∧
      Suppression.ofDirective k d ∈ (ofText text).suppressions := by
  have hread := Directive.read?_written hfront hd lay
  refine ⟨hread, fun text k hline => ?_⟩
  have hcarries (d' : Directive) : (ofText text).Carries k d' ↔ d' = d := by
    constructor
    · rintro ⟨l, hl, hd'⟩
      obtain rfl := Option.some.inj (hline.symm.trans hl)
      rw [String.toList_ofList, hread] at hd'
      exact (Option.some.inj hd').symm
    · rintro rfl
      exact ⟨_, hline, by rw [String.toList_ofList, hread]⟩
  exact ⟨hcarries, mem_suppressions_iff.mpr ⟨k, d, (hcarries d).mpr rfl, rfl⟩⟩

/-- A reason with a closing mark inside, under a name that goes on as the closing marks begin. -/
def markedDirective : Directive where
  kind := .nextLine
  rule := "No.Tabs*-"
  reason := some "a --> b-"

/-- No blank where none is needed, and a closing mark at once behind the reason. -/
def tightLayout : Directive.Layout where
  beforeName := ⟨[' '], List.all_eq_true.mp rfl⟩
  beforeColon := .empty
  afterColon := .empty
  beforeMark := .empty
  mark := some .arrow
  afterMark := .empty
  apart := by decide

theorem carries_written_marked :
    ¬ Directive.keyword <:+: "x <!-- ".toList ∧ markedDirective.IsWritable ∧
      Directive.read? "x <!-- stylecheck-disable-next-line No.Tabs*-:a --> b--->".toList =
        some markedDirective ∧
      Suppression.ofDirective 1 markedDirective ∈
        (ofText "x <!-- stylecheck-disable-next-line No.Tabs*-:a --> b--->\ny\n").suppressions := by
  have hfront : ¬ Directive.keyword <:+: "x <!-- ".toList := by decide
  have hreason : Directive.IsReason "a --> b-" := by
    refine ⟨by decide, ?_, ?_, ?_⟩
    · exact fun c hc => by obtain rfl := Option.some.inj hc; decide
    · exact fun c hc => by obtain rfl := Option.some.inj hc; decide
    · rintro (_ | _) <;> decide
  have hwritable : markedDirective.IsWritable :=
    ⟨by decide, List.all_eq_true.mp rfl, fun r hr => Option.some.inj hr ▸ hreason⟩
  have hline : "x <!-- stylecheck-disable-next-line No.Tabs*-:a --> b--->".toList =
      "x <!-- ".toList ++ markedDirective.written tightLayout := by decide
  obtain ⟨hread, htexts⟩ := carries_written hfront hwritable tightLayout
  refine ⟨hfront, hwritable, by rw [hline, hread], (htexts _ 1 ?_).2⟩
  rw [← hline, String.ofList_toList]
  decide +kernel

end TextModel

end StyleEngine
