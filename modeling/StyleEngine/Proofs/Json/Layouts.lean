import StyleEngine.Proofs.Json.RoundTrip

/-! # Both layouts of JSON

A plain value is read back from its indented text as it is from its compact one
(`Json.IsPlain.parse?_pretty`): the layouts differ in the blanks between the parts of a
collection.  So different values have different texts.
-/
namespace StyleEngine

namespace Json

theorem areBlank_newline (level : Nat) : AreBlank (newline level) := by
  intro c hc
  rcases List.mem_cons.mp hc with rfl | hc
  · rfl
  · rw [List.eq_of_mem_replicate hc]
    rfl

theorem areBlank_space : AreBlank [' '] := by
  intro c hc
  rw [List.mem_singleton.mp hc]
  rfl

theorem prettyItems_eq (level : Nat) (items : List Json) :
    prettyItems level items = items.map (prettyChars level) := by
  induction items with
  | nil => rfl
  | cons v items ih => rw [prettyItems, ih, List.map_cons]

theorem prettyMembers_eq (level : Nat) (members : List (String × Json)) :
    prettyMembers level members = members.map (memberChars (prettyChars level) [' ']) := by
  induction members with
  | nil => rfl
  | cons m members ih =>
    obtain ⟨k, v⟩ := m
    rw [prettyMembers, ih, List.map_cons, memberChars]
    simp

/-- **A plain value is read back from its indented layout** at every level, whatever comes after
it. -/
theorem IsPlain.reads_pretty {v : Json} (h : IsPlain v) (level : Nat) :
    Reads (prettyChars level v) v := by
  induction h generalizing level with
  | null => exact reads_null
  | bool b => exact (IsPlain.bool b).reads
  | nat n => exact reads_nat n
  | str s => exact reads_str s
  | @arr items _ ih =>
    cases items with
    | nil => exact reads_arr_nil
    | cons v items =>
      have hitems := readsItems_sepBy (areBlank_newline (level + 1)) (areBlank_newline level)
        (List.cons_ne_nil v items) fun w hw => ih w hw (level + 1)
      have hreads := hitems.reads (areBlank_newline (level + 1))
      rw [← prettyItems_eq] at hreads
      rw [prettyChars]
      · simpa using hreads
      · exact List.cons_ne_nil v items
  | @obj members _ ih =>
    cases members with
    | nil => exact reads_obj_nil
    | cons m members =>
      have hmembers := readsMembers_sepBy areBlank_space (areBlank_newline (level + 1))
        (areBlank_newline level) (List.cons_ne_nil m members) fun w hw => ih w hw (level + 1)
      have hreads := hmembers.reads (areBlank_newline (level + 1))
      rw [← prettyMembers_eq] at hreads
      rw [prettyChars]
      · simpa using hreads
      · exact List.cons_ne_nil m members

/-- **A plain value is read back from its indented text.** -/
theorem IsPlain.parse?_pretty {v : Json} (h : IsPlain v) : parse? v.pretty = some v :=
  (h.reads_pretty 0).parse?

/-- **Plain values with the same compact text are the same.** -/
theorem IsPlain.compact_inj {v w : Json} (hv : IsPlain v) (hw : IsPlain w)
    (h : v.compact = w.compact) : v = w := by
  have hread := hv.parse?_compact
  rw [h, hw.parse?_compact] at hread
  exact (Option.some.inj hread).symm

end Json

end StyleEngine
