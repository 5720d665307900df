import StyleEngine.Proofs.Text.Rendering

/-! # Texts with mixed line endings

A model has one line ending for all its lines.  So rendering the model of a text
gives the text back exactly if the lines of the text do not end now in one way and
now in the other (`TextModel.source_eq_iff`).
-/
namespace StyleEngine

/-- Whether a line feed stands in a text without a carriage return in front of it. -/
def HasBareLf (cs : List Char) : Prop :=
  ∃ before after, cs = before ++ '\n' :: after ∧ before.getLast? ≠ some '\r'

/-- Whether some lines of a text end with a carriage return and a line feed and others with a
line feed alone. -/
def IsMixed (text : String) : Prop := hasCrlf text.toList = true ∧ HasBareLf text.toList

/-- A line feed is bare exactly if it ends a body that does not end with a carriage return. -/
theorem hasBareLf_joinBodies {bodies : List (List Char)} {tail : List Char}
    (hb : ∀ b ∈ bodies, '\n' ∉ b) (ht : '\n' ∉ tail) :
    HasBareLf (joinBodies bodies tail) ↔ ∃ b ∈ bodies, b.getLast? ≠ some '\r' := by
  constructor
  · rintro ⟨before, after, hsplit, hlast⟩
    induction bodies generalizing before with
    | nil =>
      have htail : tail = before ++ '\n' :: after := hsplit
      exact absurd (by rw [htail]; simp) ht
    | cons b bodies ih =>
      have hcons : b ++ '\n' :: joinBodies bodies tail = before ++ '\n' :: after := by
        rw [← hsplit]
        simp [joinBodies]
      have hrest := fun b' hb' => hb b' (List.mem_cons_of_mem b hb')
      rcases List.append_eq_append_iff.mp hcons with ⟨l, rfl, hl⟩ | ⟨l, rfl, hl⟩
      · cases l with
        | nil => exact ⟨b, List.mem_cons_self, by simpa using hlast⟩
        | cons c l =>
          -- the line feed stands behind the first body, so it ends one of the others
          obtain ⟨rfl, hafter⟩ := List.cons.inj hl
          have hlast' : l.getLast? ≠ some '\r' := by
            intro hl
            exact hlast (by simp [List.getLast?_append, List.getLast?_cons, hl])
          obtain ⟨b', hb', hreturn⟩ := ih hrest l hafter hlast'
          exact ⟨b', List.mem_cons_of_mem b hb', hreturn⟩
      · cases l with
        | nil => exact ⟨before, by simp, hlast⟩
        | cons c l =>
          obtain ⟨rfl, -⟩ := List.cons.inj hl
          exact absurd (by simp) (hb _ List.mem_cons_self)
  · rintro ⟨b, hmem, hlast⟩
    obtain ⟨first, last, rfl⟩ := List.append_of_mem hmem
    refine ⟨joinBodies first [] ++ b, joinBodies last tail, by simp [joinBodies], ?_⟩
    rcases List.eq_nil_or_concat b with rfl | ⟨b, c, rfl⟩
    · rcases List.eq_nil_or_concat first with rfl | ⟨first, b', rfl⟩
      · simp [joinBodies]
      · simp [joinBodies]
    · simpa [joinBodies] using hlast

/-- A text has a line that ends with a carriage return and a line feed exactly if these stand
next to each other. -/
theorem hasCrlf_iff_infix {cs : List Char} : hasCrlf cs = true ↔ ['\r', '\n'] <:+: cs := by
  fun_induction hasCrlf cs with
  | case1 => simp
  | case2 rest => exact iff_of_true rfl ⟨[], rest, rfl⟩
  | case3 c rest hne ih =>
    rw [ih, List.infix_cons_iff]
    refine (or_iff_right ?_).symm
    rintro ⟨after, happ⟩
    obtain ⟨rfl, rfl⟩ := List.cons.inj happ
    exact hne after rfl rfl

namespace TextModel

/-- **Rendering gives a text back exactly if its lines all end alike.** -/
theorem source_eq_iff (text : String) : (ofText text).source = text ↔ ¬ IsMixed text := by
  obtain ⟨bodies, tail, htext, hb, ht⟩ := exists_bodies text.toList
  have hsource := toList_source htext hb ht
  have hcrlf : hasCrlf text.toList = true ↔ endingOf bodies = .crlf := by
    rw [htext, hasCrlf_joinBodies hb ht, endingOf_eq_crlf]
    simp
  constructor
  · rintro heq ⟨hsome, hbare⟩
    -- all lines of what was rendered end with a carriage return
    rw [hcrlf] at hsome
    rw [← heq, hsource, hasBareLf_joinBodies (notMem_rendered hb) ht] at hbare
    obtain ⟨b, hmem, hlast⟩ := hbare
    obtain ⟨b₀, -, rfl⟩ := mem_rendered.mp hmem
    exact hlast (by simp [hsome, returnOf])
  · intro hmixed
    have hrendered : rendered bodies = bodies := by
      rw [rendered, List.map_map]
      refine (List.map_congr_left ?_).trans (List.map_id bodies)
      intro b hmem
      rw [Function.comp_apply, id_eq]
      cases hending : endingOf bodies with
      | lf =>
        have hno := endingOf_eq_lf.mp hending b hmem
        simp [returnOf, bodyLine, hno]
      | crlf =>
        have hreturn : b.getLast? = some '\r' := by
          refine Decidable.byContradiction fun hno => hmixed ⟨hcrlf.mpr hending, ?_⟩
          rw [htext, hasBareLf_joinBodies hb ht]
          exact ⟨b, hmem, hno⟩
        obtain ⟨line, rfl⟩ := List.getLast?_eq_some_iff.mp hreturn
        simp [returnOf, bodyLine]
    rw [← String.toList_inj, hsource, hrendered, htext]

/-- **Reading and rendering**: what the model of a text is rendered to has the same model, and is
the text itself unless this has both kinds of line endings. -/
theorem rendering_law (text : String) :
    ofText (ofText text).source = ofText text ∧
      ((ofText text).source = text ↔
        ¬ (['\r', '\n'] <:+: text.toList ∧ HasBareLf text.toList)) :=
  ⟨ofText_source text, by rw [source_eq_iff, IsMixed, hasCrlf_iff_infix]⟩

end TextModel

end StyleEngine
