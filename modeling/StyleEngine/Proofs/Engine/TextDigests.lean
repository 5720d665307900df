import StyleEngine.Proofs.Analysis.TextWork
import StyleEngine.Proofs.Engine.FixConservation
import StyleEngine.Proofs.Engine.RepeatedRuns
import StyleEngine.Proofs.Engine.RunEffects
import StyleEngine.Proofs.Text.LineEndings

/-! # Digests of texts over many runs

The digest of a file is taken of its text when the file is built, and taken anew when
fixes have changed it.  A run that only parses the file gives the text back as its
model renders it, under the old digest.  So when a file is reset it has the digest of
the text that was last digested, and this text or what its model is rendered to
(`SourceFile.IsTraced`); the two differ exactly if the lines of the text end now in
one way and now in the other.
-/
namespace StyleEngine

namespace SourceFile

variable {IsText : String → Prop} {r : Registry} {f g : SourceFile} {text : String}

/-! ## One run -/

/-- A file holds its text however often it is worked on. -/
theorem Worked.holds (h : f.Worked r g) (hr : r.ReadsTexts f.path) (hf : f.Holds text) :
    g.Holds text := by
  induction h with
  | start => exact hf
  | work hw hj cached ih =>
    refine FileJob.process_holds ?_ ih cached
    rw [hj, hw.identity.1]
    exact hr
  | skip _ ih => exact ih.of_sameContent ⟨rfl, rfl, rfl⟩

/-- Whether a file is reset to the digest of a text with a property, and to this text or to what
its model is rendered to. -/
def IsTraced (IsText : String → Prop) (f : SourceFile) : Prop :=
  ∃ origin text, IsText origin ∧ f.reset.text = some text ∧
    f.reset.digest = Digest.ofText origin ∧
    (text = origin ∨ text = (TextModel.ofText origin).source)

theorem isTraced_ofText (path : Path) (h : IsText text) : (ofText path text).IsTraced IsText :=
  ⟨text, text, h, rfl, rfl, .inl rfl⟩

/-- **One run over a text.**  Only a text that fixes gave is digested anew. -/
theorem IsTraced.worked (h : f.IsTraced IsText) (hr : r.ReadsTexts f.path)
    (hw : f.reset.Worked r g)
    (hfixed : g.modified = true → ∀ text, g.sourceText? = some text → IsText text) :
    g.IsTraced IsText := by
  obtain ⟨origin, text, horigin, htext, hdigest, hor⟩ := h
  have hholds : g.Holds text := hw.holds hr (holds_reset htext)
  by_cases hmodified : g.modified = true
  · obtain ⟨text', hsource, hreset, hnew⟩ := hholds.reset_modified hmodified
    exact ⟨text', text', hfixed hmodified text' hsource, hreset, hnew, .inl rfl⟩
  · obtain ⟨hkept, hback⟩ := hholds.reset (Bool.eq_false_iff.mpr hmodified)
    have hdigest' : g.reset.digest = Digest.ofText origin :=
      hkept.trans (hw.identity.2.trans hdigest)
    rcases hback with hback | hback
    · exact ⟨origin, text, horigin, hback, hdigest', hor⟩
    · -- a text that was rendered already is rendered to itself
      refine ⟨origin, _, horigin, hback, hdigest', .inr ?_⟩
      rcases hor with rfl | rfl
      · rfl
      · rw [TextModel.ofText_source]

end SourceFile

/-! ## Many runs -/

/-- Whether a request leaves some files to text parsers, and the fixes of its run give them texts
with a property. -/
structure Request.TreatsTexts (IsFile : Path → Prop) (IsText : String → Prop) (q : Request) :
    Prop where
  reads : ∀ p ∈ q.projects, ∀ f ∈ p.files, IsFile f.path → q.engine.registry.ReadsTexts f.path
  fixed : ∀ p ∈ q.outcome.projects, ∀ f ∈ p.files, IsFile f.path → f.modified = true →
    ∀ text, f.sourceText? = some text → IsText text

/-- Whether some files of a project are built of texts with a property. -/
def Project.HasTexts (IsFile : Path → Prop) (IsText : String → Prop) (p : Project) : Prop :=
  ∀ f ∈ p.files, IsFile f.path → ∃ text, IsText text ∧ f = .ofText f.path text

variable {IsFile : Path → Prop} {IsText : String → Prop} {ps : List Project}

theorem Project.History.isTraced
    (h : Project.History (Project.HasTexts IsFile IsText) (Request.TreatsTexts IsFile IsText) ps) :
    ∀ p ∈ ps, ∀ f ∈ p.files, IsFile f.path → f.IsTraced IsText := by
  refine h.forall_mem ?_ ?_
  · intro p hp f hf hfile
    obtain ⟨text, htext, heq⟩ := hp f hf hfile
    rw [heq]
    exact SourceFile.isTraced_ofText _ htext
  · intro q hq p hp hold p' hp' hadvances f' hf' hfile
    obtain ⟨f, hf, rfl | hworked⟩ := exists_of_forall₂_right hadvances.files hf'
    · exact hold f' hf hfile
    · have hpath : f'.path = f.path := hworked.identity.1
      rw [hpath] at hfile
      exact (hold f hf hfile).worked (hq.reads p hp f hf hfile) hworked
        (hq.fixed p' hp' f' hf' (hpath ▸ hfile))

/-- **The digest of a text over many runs.**  However files have been run that text parsers read,
each is reset to the digest of a text that was digested when the file was built or fixes had
changed it.  The file is reset to this very text unless its lines end now in one way and now in
the other, and to what its model is rendered to if they do. -/
theorem Project.History.digest_reset
    (h : Project.History (Project.HasTexts IsFile IsText) (Request.TreatsTexts IsFile IsText) ps) :
    ∀ p ∈ ps, ∀ f ∈ p.files, IsFile f.path → ∃ origin text, IsText origin ∧
      f.reset.text = some text ∧ f.reset.digest = Digest.ofText origin ∧
      (text = origin ∨ (IsMixed origin ∧ text = (TextModel.ofText origin).source)) ∧
      ((∀ t, IsText t → ¬ IsMixed t) → f.reset.digest = Digest.ofText text) := by
  intro p hp f hf hfile
  obtain ⟨origin, text, horigin, htext, hdigest, hor⟩ := h.isTraced p hp f hf hfile
  have hsplit : text = origin ∨ (IsMixed origin ∧ text = (TextModel.ofText origin).source) := by
    rcases hor with rfl | rfl
    · exact .inl rfl
    · by_cases hmixed : IsMixed origin
      · exact .inr ⟨hmixed, rfl⟩
      · exact .inl ((TextModel.source_eq_iff origin).mpr hmixed)
  refine ⟨origin, text, horigin, htext, hdigest, hsplit, ?_⟩
  intro hplain
  rcases hsplit with rfl | ⟨hmixed, -⟩
  · exact hdigest
  · exact absurd hmixed (hplain origin horigin)

namespace Engine

/-- A request to analyze a text and a file that no parser reads. -/
def inspecting : Request where
  engine := mender
  sweep := Sweep.oneByOne
  files := {}
  switches := []
  processors := 1
  mode := { full := true }
  settingsPath := none
  projects := [worn]

theorem digest_reset_worn :
    (inspecting.outcome.projects.map fun p => p.files.map fun f => (f.text, f.reset.text)) =
      [[(none, some "old\tTODO\nold\n"), (some "old", some "old")]] ∧
    ∀ p ∈ inspecting.outcome.projects, ∀ f ∈ p.files, ∃ text, f.reset.text = some text ∧
      f.reset.digest = Digest.ofText text := by
  have hsource : ∀ p ∈ inspecting.outcome.projects, ∀ f ∈ p.files,
      (f.sourceText?.all fun text => (TextModel.ofText text).source == text) = true := by
    decide +kernel
  have hbuilt : Project.HasTexts (fun _ => True) (fun text => ¬ IsMixed text) worn := by
    intro f hf _
    rcases List.mem_cons.mp hf with rfl | hf
    · exact ⟨_, (TextModel.source_eq_iff _).mp (by decide +kernel), rfl⟩
    · obtain rfl := List.mem_singleton.mp hf
      exact ⟨_, (TextModel.source_eq_iff _).mp (by decide +kernel), rfl⟩
  have hallowed : inspecting.TreatsTexts (fun _ => True) fun text => ¬ IsMixed text := by
    refine ⟨fun _ _ f _ _ => mender_isBuiltin.readsTexts f.path, ?_⟩
    intro p hp f hf _ _ text htext
    have hback := hsource p hp f hf
    rw [htext] at hback
    exact (TextModel.source_eq_iff text).mp (beq_iff_eq.mp hback)
  have hhistory : Project.History (Project.HasTexts (fun _ => True) fun text => ¬ IsMixed text)
      (Request.TreatsTexts (fun _ => True) fun text => ¬ IsMixed text)
      (inspecting.outcome.projects ++ []) :=
    .run (.build .start hbuilt) Sweep.oneByOne_interleaves.interleaves hallowed
  refine ⟨by decide +kernel, ?_⟩
  intro p hp f hf
  obtain ⟨_, text, -, htext, -, -, hdigest⟩ :=
    hhistory.digest_reset p (List.mem_append_left _ hp) f hf trivial
  exact ⟨text, htext, hdigest fun _ h => h⟩

/-- A request to analyze a text whose lines end differently. -/
def mixing : Request where
  engine := texter
  sweep := Sweep.oneByOne
  files := {}
  switches := []
  processors := 2
  mode := { full := true }
  settingsPath := none
  projects := [texted "a\r\nb\n"]

/-- A file whose lines end differently is parsed again under the digest of a text that it no
longer has. -/
theorem digest_reset_ne_mixing :
    Project.History (Project.HasTexts (fun _ => True) fun _ => True)
      (Request.TreatsTexts (fun _ => True) fun _ => True) mixing.outcome.projects ∧
    mixing.engine.registry.IsBuiltin ∧
    ∃ p ∈ mixing.outcome.projects, ∃ f ∈ p.files, f.reset.text = some "a\r\nb\r\n" ∧
      f.reset.digest = Digest.ofText "a\r\nb\n" ∧
      Digest.ofText "a\r\nb\n" ≠ Digest.ofText "a\r\nb\r\n" := by
  have hbuiltin : mixing.engine.registry.IsBuiltin := by
    refine ⟨?_, nofun⟩
    intro e he
    obtain rfl := List.mem_singleton.mp he
    exact ⟨_, _, rfl⟩
  refine ⟨?_, hbuiltin, by decide +kernel⟩
  rw [← List.append_nil mixing.outcome.projects]
  refine .run (.build .start ?_) Sweep.oneByOne_interleaves.interleaves ?_
  · intro f hf _
    obtain rfl := List.mem_singleton.mp hf
    exact ⟨_, trivial, rfl⟩
  · exact ⟨fun _ _ f _ _ => hbuiltin.readsTexts f.path, fun _ _ _ _ _ _ _ _ => trivial⟩

end Engine

end StyleEngine
