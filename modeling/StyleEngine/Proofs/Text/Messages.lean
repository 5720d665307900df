import StyleEngine.Rule
import StyleEngine.Proofs.Text.Substitution

/-! # Messages

The message that a template stands for has every placeholder of an argument replaced by
it, and the arguments are not templates themselves (`Rule.filled`).  A rule fills its
arguments into the template one after the other, so that an argument can bring up the
placeholder of a later one, or complete it.  The message is the right one for the
arguments and for each leading part of them exactly if none does
(`Rule.render_eq_filled_iff`); a single argument cannot.
-/
namespace StyleEngine.Rule

/-! ## Placeholders -/

theorem toList_placeholder (i : Nat) :
    (placeholder i).toList = '\x7b' :: (Nat.toDigits 10 i ++ ['\x7d']) := by
  simp [placeholder, Nat.toString_eq_repr, Nat.toList_repr]

theorem isBraced_placeholder (i : Nat) : IsBraced (placeholder i).toList := by
  refine ⟨Nat.toDigits 10 i, toList_placeholder i, ?_, ?_⟩
  all_goals
    intro h
    exact absurd (Nat.isDigit_of_mem_toDigits (by omega) le_rfl h) (by decide)

theorem placeholder_toList_inj {i j : Nat}
    (h : (placeholder i).toList = (placeholder j).toList) : i = j := by
  rw [toList_placeholder, toList_placeholder, List.cons.injEq, List.append_left_inj] at h
  have hvalue := congrArg (Nat.ofDigitChars 10 · 0) h.2
  simpa only [Nat.ofDigitChars_ten_toDigits] using hvalue

/-- What is put into a template: each argument in the place of its placeholder. -/
def slots (args : List String) : List (List Char × List Char) :=
  args.zipIdx.map fun x => ((placeholder x.2).toList, x.1.toList)

theorem slots_concat (args : List String) (arg : String) :
    slots (args ++ [arg]) =
      slots args ++ [((placeholder args.length).toList, arg.toList)] := by
  simp [slots, List.zipIdx_append]

theorem exists_of_mem_slots {args : List String} {e : List Char × List Char}
    (h : e ∈ slots args) : ∃ i < args.length, e.1 = (placeholder i).toList := by
  obtain ⟨⟨arg, i⟩, hmem, rfl⟩ := List.mem_map.mp h
  obtain ⟨hi, -⟩ := List.getElem?_eq_some_iff.mp (List.mem_zipIdx_iff_getElem?.mp hmem)
  exact ⟨i, hi, rfl⟩

theorem isBraced_of_mem_slots {args : List String} : ∀ e ∈ slots args, IsBraced e.1 := by
  intro e he
  obtain ⟨i, -, hi⟩ := exists_of_mem_slots he
  exact hi ▸ isBraced_placeholder i

theorem ne_placeholder_of_mem_slots {args : List String} :
    ∀ e ∈ slots args, e.1 ≠ (placeholder args.length).toList := by
  intro e he heq
  obtain ⟨i, hi, hplace⟩ := exists_of_mem_slots he
  exact absurd (placeholder_toList_inj (hplace.symm.trans heq)) (Nat.ne_of_lt hi)

/-! ## Filling in -/

/-- The template of a rule with every placeholder of an argument replaced by it, all at once. -/
def filled (r : Rule) (args : List String) : String :=
  String.ofList (substituteAll (slots args) r.context.toList)

theorem fillFrom_concat (template : String) (i : Nat) (args : List String) (arg : String) :
    fillFrom template i (args ++ [arg]) =
      substitute (placeholder (i + args.length)) arg (fillFrom template i args) := by
  induction args generalizing template i with
  | nil => rfl
  | cons a args ih =>
    rw [List.cons_append, fillFrom, ih, fillFrom, List.length_cons, Nat.add_assoc,
      Nat.add_comm 1]

/-- The last argument is filled into the message of the others. -/
theorem render_concat (r : Rule) (args : List String) (arg : String) :
    r.render (args ++ [arg]) = substitute (placeholder args.length) arg (r.render args) := by
  rw [render, fillFrom_concat, Nat.zero_add]
  rfl

/-- Where the message of some arguments is the right one, that of one more is too, exactly if the
others bring up no placeholder of it, or it is its placeholder. -/
theorem render_concat_eq_iff {r : Rule} {args : List String} (h : r.render args = r.filled args)
    (arg : String) : r.render (args ++ [arg]) = r.filled (args ++ [arg]) ↔
      (arg ≠ placeholder args.length →
        occurrences (placeholder args.length).toList (r.filled args).toList =
          occurrences (placeholder args.length).toList r.context.toList) := by
  have hw := isBraced_placeholder args.length
  have hrender : r.render (args ++ [arg]) = r.filled (args ++ [arg]) ↔
      substituteAll [((placeholder args.length).toList, arg.toList)]
        (substituteAll (slots args) r.context.toList) =
      substituteAll (slots args ++ [((placeholder args.length).toList, arg.toList)])
        r.context.toList := by
    rw [render_concat, h, filled, filled, slots_concat, substitute, String.toList_ofList,
      substituteFrom_eq, String.ofList_inj]
    rfl
  rw [hrender, filled, String.toList_ofList]
  constructor
  · intro hone hne
    exact occurrences_eq_of_substituteAll_concat hw isBraced_of_mem_slots
      ne_placeholder_of_mem_slots (fun heq => hne (String.toList_inj.mp heq)) hone
  · intro hkeeps
    by_cases hself : arg = placeholder args.length
    · rw [hself, substituteAll_concat_self hw isBraced_of_mem_slots ne_placeholder_of_mem_slots,
        substituteAll_singleton_self hw]
    · exact substituteAll_concat hw isBraced_of_mem_slots ne_placeholder_of_mem_slots
        (hkeeps hself)

/-- Whether no argument brings up the placeholder of a later one: with the arguments before it
filled in, it stands in the template as often as without them.  (For an argument that is its own
placeholder that makes no difference.) -/
def KeepsPlaceholders (r : Rule) (args : List String) : Prop :=
  ∀ k arg, args[k]? = some arg → arg ≠ placeholder k →
    occurrences (placeholder k).toList (r.filled (args.take k)).toList =
      occurrences (placeholder k).toList r.context.toList

theorem filled_nil (r : Rule) : r.filled [] = r.context := by
  rw [filled, show slots [] = [] from rfl, substituteAll_nil, String.ofList_toList]

theorem KeepsPlaceholders.render_take {r : Rule} {args : List String}
    (h : r.KeepsPlaceholders args) :
    ∀ k ≤ args.length, r.render (args.take k) = r.filled (args.take k) := by
  intro k hk
  induction k with
  | zero =>
    rw [List.take_zero, filled_nil]
    rfl
  | succ k ih =>
    have hlength : (args.take k).length = k := by
      rw [List.length_take]
      omega
    have hnext := render_concat_eq_iff (ih (by omega)) args[k]
    rw [hlength] at hnext
    rw [List.take_succ_eq_append_getElem hk, hnext]
    exact h k args[k] (List.getElem?_eq_getElem hk)

/-- A single argument is filled in at once, as the text is that a pattern has matched. -/
theorem render_singleton (r : Rule) (arg : String) : r.render [arg] = r.filled [arg] := by
  have h : r.KeepsPlaceholders [arg] := by
    intro k arg' harg _
    obtain ⟨hk, -⟩ := List.getElem?_eq_some_iff.mp harg
    obtain rfl : k = 0 := by simpa using hk
    rw [List.take_zero, filled_nil]
  exact h.render_take 1 le_rfl

/-- **When a message is filled in at once.**  The message of a rule for some arguments is its
template with every placeholder of an argument replaced by that argument, if no argument brings up
the placeholder of a later one.  It is so for each leading part of the arguments only then. -/
theorem render_eq_filled_iff (r : Rule) (args : List String) :
    (r.KeepsPlaceholders args → r.render args = r.filled args) ∧
    ((∀ k ≤ args.length, r.render (args.take k) = r.filled (args.take k)) ↔
      r.KeepsPlaceholders args) := by
  refine ⟨fun h => ?_, fun h k arg harg => ?_, KeepsPlaceholders.render_take⟩
  · have hall := h.render_take args.length le_rfl
    rwa [List.take_length] at hall
  · obtain ⟨hk, rfl⟩ := List.getElem?_eq_some_iff.mp harg
    have hlength : (args.take k).length = k := by
      rw [List.length_take]
      omega
    have hnext := render_concat_eq_iff (h k (by omega)) args[k]
    rw [hlength] at hnext
    refine hnext.mp ?_
    rw [← List.take_succ_eq_append_getElem hk]
    exact h (k + 1) hk

/-- A rule whose messages are their first argument. -/
def quoting : Rule where
  id := "Quoting"
  context := "\x7b0\x7d"

/-- An argument that is the placeholder of the next one is replaced in its turn. -/
theorem render_ne_filled_nested :
    quoting.render ["\x7b1\x7d", "x"] = "x" ∧ quoting.filled ["\x7b1\x7d", "x"] = "\x7b1\x7d" ∧
      quoting.render ["\x7b1\x7d", "x"] ≠ quoting.filled ["\x7b1\x7d", "x"] := by
  decide +kernel

end StyleEngine.Rule
