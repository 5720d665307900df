import StyleEngine.Proofs.Cache.StoredDocument
import StyleEngine.Registry.Modules

/-! # Manifests that are read back

A module that holds the JSON of a manifest is read as that manifest, whatever its
declarations and texts are (`Registry.readManifest_of_text`); so there is a module
for every manifest whose properties are in the order of their keys.
-/
namespace StyleEngine

/-! ## The parts of a manifest -/

theorem Json.isPlain_ofTextMap (l : List (String × String)) : (Json.ofTextMap l).IsPlain :=
  Json.isPlain_obj .str l

theorem Record.map_ofTextMap {l : List (String × String)} (h : Record.IsOrdered l) :
    Record.map DataNode.text? (Json.ofTextMap l) = some l :=
  Record.map_obj h fun _ _ => rfl

theorem Record.list_ofTexts (l : List String) :
    Record.list DataNode.text? (Json.ofTexts l) = some l :=
  Record.list_arr fun _ _ => rfl

namespace Rule

theorem read?_toJson (r : Rule) : read? r.toJson = some r := by
  have hseverity : Severity.read? (Json.str r.severity.name) = some r.severity :=
    Severity.ofName?_name r.severity
  have hcategory : Category.read? (Json.str r.category.name) = some r.category :=
    Category.ofName?_name r.category
  have hflag (b : Bool) : DataNode.flag? (Json.bool b) = some b := rfl
  rw [read?, toJson, Record.row?_obj]
  · simp [Record.required, Record.orElse, List.lookup_cons, hseverity, hcategory, hflag]
  · decide
  · rfl

theorem isPlain_toJson (r : Rule) : r.toJson.IsPlain := by
  refine .obj ?_
  simp [Json.IsPlain.str, Json.IsPlain.bool, Json.isPlain_ofOption]

end Rule

namespace InitDescriptor

variable {d : InitDescriptor}

theorem read?_toJson (h : Record.IsOrdered d.properties) : read? d.toJson = some d := by
  have hrules : Record.list Rule.read? (Json.arr (d.rules.map Rule.toJson)) = some d.rules :=
    Record.list_arr fun r _ => r.read?_toJson
  rw [read?, toJson, Record.row?_obj]
  · simp [Record.required, Record.orElse, List.lookup_cons, hrules, Record.map_ofTextMap h]
  · decide
  · rfl

theorem isPlain_toJson (d : InitDescriptor) : d.toJson.IsPlain := by
  refine .obj ?_
  simp [Json.IsPlain.str, Json.isPlain_ofOption, Json.isPlain_arr Rule.isPlain_toJson,
    Json.isPlain_ofTextMap]

end InitDescriptor

namespace AddInSpec

/-- Whether the properties of a declaration are in the order of their keys. -/
structure IsOrdered (s : AddInSpec) : Prop where
  properties : Record.IsOrdered s.properties
  descriptors : ∀ d ∈ s.descriptors, Record.IsOrdered d.properties

variable {s : AddInSpec}

theorem read?_toJson (h : s.IsOrdered) : read? s.toJson = some s := by
  have hkind : AddInKind.read? (Json.str s.kind.name) = some s.kind := by
    cases s.kind <;> rfl
  have hdescriptors : Record.list InitDescriptor.read?
      (Json.arr (s.descriptors.map InitDescriptor.toJson)) = some s.descriptors :=
    Record.list_arr fun d hd => InitDescriptor.read?_toJson (h.descriptors d hd)
  rw [read?, toJson, Record.row?_obj]
  · simp [Record.required, Record.orElse, List.lookup_cons, hkind, hdescriptors,
      Record.list_ofTexts, Record.map_ofTextMap h.properties]
  · decide
  · rfl

theorem isPlain_toJson (s : AddInSpec) : s.toJson.IsPlain := by
  refine .obj ?_
  simp [Json.IsPlain.str, Json.isPlain_ofOption, Json.isPlain_ofTexts,
    Json.isPlain_arr InitDescriptor.isPlain_toJson, Json.isPlain_ofTextMap]

end AddInSpec

namespace Manifest

variable {m : Manifest}

theorem read?_toJson (h : ∀ s ∈ m.addins, s.IsOrdered) : read? m.toJson = some m := by
  have hhead : readHead? (Json.obj [("name", .str m.name), ("version", .str m.version),
      ("description", .str m.description), ("key", Json.ofOption .str m.key)]) =
      some { name := m.name, version := m.version, description := m.description, key := m.key } := by
    rw [readHead?, Record.row?_obj]
    · simp [Record.required, Record.orElse, List.lookup_cons]
    · decide
    · rfl
  have haddins : Record.list AddInSpec.read? (Json.arr (m.addins.map AddInSpec.toJson)) =
      some m.addins := Record.list_arr fun s hs => AddInSpec.read?_toJson (h s hs)
  rw [read?, toJson, Record.row?_obj]
  · simp [Record.required, Record.orElse, List.lookup_cons, hhead, haddins]
  · decide
  · rfl

theorem isPlain_toJson (m : Manifest) : m.toJson.IsPlain := by
  have hhead : (Json.obj [("name", .str m.name), ("version", .str m.version),
      ("description", .str m.description), ("key", Json.ofOption .str m.key)]).IsPlain := by
    refine .obj ?_
    simp [Json.IsPlain.str, Json.isPlain_ofOption]
  refine .obj ?_
  simp [hhead, Json.isPlain_arr AddInSpec.isPlain_toJson]

/-- **A manifest is read back from its JSON.** -/
theorem parse?_compact (h : ∀ s ∈ m.addins, s.IsOrdered) :
    parse? .json m.toJson.compact = some m := by
  show (Json.parse? m.toJson.compact).bind read? = some m
  rw [m.isPlain_toJson.parse?_compact, Option.bind_some, read?_toJson h]

end Manifest

/-! ## Modules -/

/-- A module in a file with the JSON of a manifest is read as that manifest. -/
theorem Registry.readManifest_of_text {t : FileTree} {path : Path} {m : Manifest}
    (htext : t.readText path = .ok m.toJson.compact) (hpath : path.extension? = some "json")
    (h : ∀ s ∈ m.addins, s.IsOrdered) : readManifest t path = .ok m := by
  have hparse := Manifest.parse?_compact h
  simp [readManifest, htext, hpath, hparse]

end StyleEngine
