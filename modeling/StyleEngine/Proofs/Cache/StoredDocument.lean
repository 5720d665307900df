import StyleEngine.Cache.Store
import StyleEngine.Proofs.FileTree.Writing
import StyleEngine.Proofs.Json.Records

/-! # Cache documents that are read back

A document that was saved to a file is loaded from it as it was, whatever characters
its texts hold (`CacheStore.load_save_file`): its parts are read back from their JSON
field by field, and the file that was moved to its place holds the text of that JSON.
Documents of another version are loaded as nothing.
-/
namespace StyleEngine

/-! ## The parts of a document -/

theorem FixSafety.ofName?_name (s : FixSafety) : ofName? s.name = some s := by
  cases s <;> rfl

namespace Fix

theorem read?_toJson (f : Fix) : read? f.toJson = some f := by
  have hsafety : FixSafety.read? (Json.str f.safety.name) = some f.safety :=
    FixSafety.ofName?_name f.safety
  rw [read?, toJson, Record.row?_obj]
  · simp [Record.required, Record.orElse, List.lookup_cons, hsafety]
  · decide
  · rfl

theorem isPlain_toJson (f : Fix) : f.toJson.IsPlain := by
  refine .obj ?_
  simp [Json.IsPlain.str]

end Fix

namespace Violation

/-- A violation is read back if its line is a number of 64 bits. -/
theorem read?_toJson {v : Violation} (h : v.line ≤ Record.maxCount) :
    read? v.toJson = some v := by
  have hseverity : Severity.read? (Json.str v.severity.name) = some v.severity :=
    Severity.ofName?_name v.severity
  have hfile : Record.optional DataNode.text?
      (Json.ofOption (fun p => Json.str p.text) v.file) = some (v.file.map Path.text) := by
    cases v.file <;> rfl
  have hfix : Record.optional Fix.read? (Json.ofOption Fix.toJson v.fix) = some v.fix :=
    Record.optional_ofOption fun f _ => ⟨f.read?_toJson, nofun⟩
  have hpath : (v.file.map Path.text).map Path.mk = v.file := by
    cases v.file <;> rfl
  rw [read?, toJson, Record.row?_obj]
  · simp [Record.required, Record.orElse, List.lookup_cons, hseverity, hfile, hfix, hpath,
      Record.countUpTo_nat h]
  · decide
  · rfl

theorem isPlain_toJson (v : Violation) : v.toJson.IsPlain := by
  refine .obj ?_
  simp [Json.IsPlain.str, Json.IsPlain.nat, Json.isPlain_ofOption, Fix.isPlain_toJson]

theorem line_le_of_read? {ν : Type} [DataNode ν] {n : ν} {v : Violation} (h : read? n = some v) :
    v.line ≤ Record.maxCount := by
  obtain ⟨row, -, h⟩ := Option.bind_eq_some_iff.mp h
  obtain ⟨ruleId, -, h⟩ := Option.bind_eq_some_iff.mp h
  obtain ⟨severity, -, h⟩ := Option.bind_eq_some_iff.mp h
  obtain ⟨message, -, h⟩ := Option.bind_eq_some_iff.mp h
  obtain ⟨file, -, h⟩ := Option.bind_eq_some_iff.mp h
  obtain ⟨element, -, h⟩ := Option.bind_eq_some_iff.mp h
  obtain ⟨line, hline, h⟩ := Option.bind_eq_some_iff.mp h
  obtain ⟨fix, -, h⟩ := Option.bind_eq_some_iff.mp h
  obtain rfl := Option.some.inj h
  obtain ⟨m, hm⟩ := Record.required_eq_some hline
  exact Record.le_of_countUpTo hm

end Violation

namespace ProjectEntry

theorem read?_toJson (e : ProjectEntry) : read? e.toJson = some e := by
  rw [read?, toJson, Record.row?_obj]
  · simp [Record.required, Record.orElse, List.lookup_cons]
  · decide
  · rfl

theorem isPlain_toJson (e : ProjectEntry) : e.toJson.IsPlain := by
  refine .obj ?_
  simp [Json.IsPlain.str]

end ProjectEntry

namespace FileEntry

theorem read?_toJson {e : FileEntry} (h : ∀ v ∈ e.violations, v.line ≤ Record.maxCount) :
    read? e.toJson = some e := by
  have hviolations : Record.list Violation.read? (Json.arr (e.violations.map Violation.toJson)) =
      some e.violations := Record.list_arr fun v hv => Violation.read?_toJson (h v hv)
  rw [read?, toJson, Record.row?_obj]
  · simp [Record.required, Record.orElse, List.lookup_cons, hviolations]
  · decide
  · rfl

theorem isPlain_toJson (e : FileEntry) : e.toJson.IsPlain := by
  refine .obj ?_
  simp [Json.IsPlain.str, Json.isPlain_arr Violation.isPlain_toJson]

theorem line_le_of_read? {ν : Type} [DataNode ν] {n : ν} {e : FileEntry} (h : read? n = some e) :
    ∀ v ∈ e.violations, v.line ≤ Record.maxCount := by
  obtain ⟨row, -, h⟩ := Option.bind_eq_some_iff.mp h
  obtain ⟨configuration, -, h⟩ := Option.bind_eq_some_iff.mp h
  obtain ⟨settingsDigest, -, h⟩ := Option.bind_eq_some_iff.mp h
  obtain ⟨contentDigest, -, h⟩ := Option.bind_eq_some_iff.mp h
  obtain ⟨violations, hviolations, h⟩ := Option.bind_eq_some_iff.mp h
  obtain rfl := Option.some.inj h
  intro v hv
  obtain ⟨m, hm⟩ := Record.required_eq_some hviolations
  obtain ⟨m, hm⟩ := Record.exists_of_mem_list hm hv
  exact Violation.line_le_of_read? hm

end FileEntry

/-! ## Documents -/

namespace CacheDocument

/-- Whether a document is one that can be stored: its maps are in order and its numbers have no
more than 32 and 64 bits. -/
structure IsStorable (d : CacheDocument) : Prop where
  version : d.version ≤ UInt32.size - 1
  projects : Record.IsOrdered d.projects
  files : Record.IsOrdered d.files
  lines : ∀ e ∈ d.files, ∀ v ∈ e.2.violations, v.line ≤ Record.maxCount

theorem read?_toJson {d : CacheDocument} (h : d.IsStorable) : read? d.toJson = some d := by
  have hprojects : Record.map ProjectEntry.read?
      (Json.obj (d.projects.map fun e => (e.1, e.2.toJson))) = some d.projects :=
    Record.map_obj h.projects fun e _ => e.2.read?_toJson
  have hfiles : Record.map FileEntry.read?
      (Json.obj (d.files.map fun e => (e.1, e.2.toJson))) = some d.files :=
    Record.map_obj h.files fun e he => FileEntry.read?_toJson (h.lines e he)
  have hversion : Record.countUpTo 4294967295 (Json.nat d.version) = some d.version :=
    Record.countUpTo_nat (Nat.le_trans h.version (by decide))
  rw [read?, toJson, Record.row?_obj]
  · simp [Record.required, Record.orElse, List.lookup_cons, hversion, hprojects, hfiles]
  · decide
  · rfl

theorem isPlain_toJson (d : CacheDocument) : d.toJson.IsPlain := by
  refine .obj ?_
  simp [Json.IsPlain.nat, Json.isPlain_obj ProjectEntry.isPlain_toJson,
    Json.isPlain_obj FileEntry.isPlain_toJson]

/-- **A document is read back from its text**, whatever its texts are. -/
theorem parse?_compact {d : CacheDocument} (h : d.IsStorable) :
    parse? .json d.toJson.compact = some d := by
  show (Json.parse? d.toJson.compact).bind read? = some d
  rw [d.isPlain_toJson.parse?_compact, Option.bind_some, read?_toJson h]

/-- **What is read as a document can be stored.** -/
theorem isStorable_of_read? {ν : Type} [DataNode ν] {n : ν} {d : CacheDocument}
    (h : read? n = some d) : d.IsStorable := by
  obtain ⟨row, -, h⟩ := Option.bind_eq_some_iff.mp h
  obtain ⟨version, hversion, h⟩ := Option.bind_eq_some_iff.mp h
  obtain ⟨projects, hprojects, h⟩ := Option.bind_eq_some_iff.mp h
  obtain ⟨files, hfiles, h⟩ := Option.bind_eq_some_iff.mp h
  obtain rfl := Option.some.inj h
  obtain ⟨m, hm⟩ := Record.required_eq_some hversion
  refine ⟨Record.le_of_countUpTo hm, ?_, ?_, ?_⟩
  · rcases Record.orElse_eq_some hprojects with rfl | ⟨m, hm⟩
    · exact List.Pairwise.nil
    · exact (Record.isOrdered_of_map hm).1
  · rcases Record.orElse_eq_some hfiles with rfl | ⟨m, hm⟩
    · exact List.Pairwise.nil
    · exact (Record.isOrdered_of_map hm).1
  · rcases Record.orElse_eq_some hfiles with rfl | ⟨m, hm⟩
    · exact fun e he => absurd he List.not_mem_nil
    · intro e he
      obtain ⟨m, hm⟩ := (Record.isOrdered_of_map hm).2 e he
      exact FileEntry.line_le_of_read? hm

end CacheDocument

/-! ## Files -/

namespace CacheStore

/-- A text of a document is of use if the document is of the current version. -/
theorem usable?_compact {d : CacheDocument} (h : d.IsStorable) :
    usable? d.toJson.compact = if d.version = cacheVersion then some d else none := by
  rw [usable?, CacheDocument.parse?_compact h, Option.filter_some]
  simp only [beq_iff_eq]

/-- What is of use in a text can be stored. -/
theorem isStorable_of_usable? {text : String} {d : CacheDocument} (h : usable? text = some d) :
    d.IsStorable ∧ d.version = cacheVersion := by
  rw [usable?, Option.filter_eq_some_iff, beq_iff_eq] at h
  obtain ⟨v, -, hread⟩ := Option.bind_eq_some_iff.mp h.1
  exact ⟨CacheDocument.isStorable_of_read? hread, h.2⟩

/-- When a save to a file succeeds, and what it does: the directory of the file is made, and the
text of the document is written next to its place and moved there. -/
theorem save_file_eq_ok_iff {path : Path} {t t' : FileTree} {s : CacheStore} {d : CacheDocument} :
    (file path).save t d = (s, t', .ok ()) ↔ s = .file path ∧ ∃ t₁ t₂,
      t.makeDirectories (path.parent?.getD ⟨""⟩) = .ok t₁ ∧
      t₁.write (draft path) (.text d.toJson.compact) = .ok t₂ ∧
      t₂.rename (draft path) path = .ok t' := by
  constructor
  · intro h
    unfold save writeDraft at h
    simp only at h
    split at h
    · cases h
    · next hdraft =>
      split at h
      · cases h
      · next hmove =>
        cases h
        refine ⟨rfl, ?_⟩
        split at hdraft
        · cases hdraft
        · next t₁ hmake =>
          split at hdraft
          · cases hdraft
          · next hwrite =>
            cases hdraft
            exact ⟨t₁, _, hmake, hwrite, hmove⟩
  · rintro ⟨rfl, t₁, t₂, hmake, hwrite, hmove⟩
    unfold save writeDraft
    simp only [hmake, hwrite, hmove]

/-- A save that succeeds leaves the text of the document in its place. -/
theorem read_of_save {path : Path} {t t' : FileTree} {s : CacheStore} {d : CacheDocument}
    (h : (file path).save t d = (s, t', .ok ())) :
    s = .file path ∧ t'.read path = .ok (.text d.toJson.compact) := by
  obtain ⟨hs, t₁, t₂, -, hwrite, hmove⟩ := save_file_eq_ok_iff.mp h
  exact ⟨hs, FileTree.read_rename hmove (FileTree.read_write hwrite)⟩

/-- Where one document can be saved, every other one can. -/
theorem exists_save_file {path : Path} {t t' : FileTree} {s : CacheStore} {d : CacheDocument}
    (h : (file path).save t d = (s, t', .ok ())) (d' : CacheDocument) :
    ∃ t'', (file path).save t d' = (.file path, t'', .ok ()) := by
  obtain ⟨-, t₁, t₂, hmake, hwrite, hmove⟩ := save_file_eq_ok_iff.mp h
  obtain ⟨l, hl, htakes, rfl⟩ := FileTree.write_eq_ok_iff.mp hwrite
  have hwrite' : t₁.write (draft path) (.text d'.toJson.compact) =
      .ok (t₁.put l (.file (.text d'.toJson.compact))) :=
    FileTree.write_eq_ok_iff.mpr ⟨l, hl, htakes, rfl⟩
  obtain ⟨t'', hmove'⟩ := (FileTree.samePlaces_put htakes.ne_directory _ _).rename hmove
  exact ⟨t'', save_file_eq_ok_iff.mpr ⟨rfl, t₁, _, hmake, hwrite', hmove'⟩⟩

/-- **A saved document is loaded as it was**, whatever its texts, lines and absent parts are.  Its
save to a file fails only where all saves fail; one that succeeds leaves the document there whole,
and a document of another version is loaded as none. -/
theorem load_save_file (path : Path) (t : FileTree) (d : CacheDocument) (hd : d.IsStorable) :
    (∀ d', ((file path).save t d').2.2 = .ok () → ((file path).save t d).2.2 = .ok ()) ∧
      ∀ s t', (file path).save t d = (s, t', .ok ()) → s = .file path ∧
        s.load t' = .ok (if d.version = cacheVersion then some d else none) := by
  refine ⟨?_, ?_⟩
  · intro d' hok
    rcases hsave : (file path).save t d' with ⟨s, t', result⟩
    obtain rfl : result = .ok () := by rw [hsave] at hok; exact hok
    obtain ⟨t'', hsave⟩ := exists_save_file hsave d
    rw [hsave]
  · intro s t' hsave
    obtain ⟨rfl, hread⟩ := read_of_save hsave
    refine ⟨rfl, ?_⟩
    simp only [load, hread, usable?_compact hd]

/-- A document with quotes, control characters and letters of several alphabets in its texts. -/
def motley : CacheDocument where
  projects := [("src|пример", { configuration := "DEBUG;é", settingsDigest := "\u0000" })]
  files := [("src/\"a\"\\b.txt", {
    configuration := "DEBUG;é"
    contentDigest := "\u001f\u007f"
    violations := [
      { ruleId := "SA\t1", severity := .error, message := "日本 \u2028 😀\n"
        file := some ⟨"src/\"a\"\\b.txt"⟩, line := Record.maxCount
        fix := some { description := "\r", replacement := "", safety := .risky } },
      { ruleId := "", message := "", element := some "", line := 0 }] })]

theorem load_save_file_motley :
    ((file ⟨"new/store.json"⟩).save {} motley).2.2 = .ok () ∧
      (file ⟨"new/store.json"⟩).load ((file ⟨"new/store.json"⟩).save {} motley).2.1 =
        .ok (some motley) := by
  have hsave : (file ⟨"new/store.json"⟩).save {} motley =
      (.file ⟨"new/store.json"⟩, ((file ⟨"new/store.json"⟩).save {} motley).2.1, .ok ()) := rfl
  have hd : motley.IsStorable := ⟨by decide, by decide, by decide, by decide⟩
  exact ⟨congrArg (fun r => r.2.2) hsave, ((load_save_file _ _ motley hd).2 _ _ hsave).2⟩

end CacheStore

end StyleEngine
