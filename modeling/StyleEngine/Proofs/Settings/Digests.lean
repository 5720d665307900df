import StyleEngine.Proofs.Json.Layouts
import StyleEngine.Proofs.Json.Records
import StyleEngine.Settings.Basic

/-! # Settings are told apart by their texts

Results are known to belong to settings by the digest of the settings' compact JSON.
Different settings have different texts (`Settings.compact_toJson_inj`): nothing that
they say is left out, and texts are quoted.  So their digests differ as long as the hash
tells the texts apart (`Settings.digest_tells_apart`).
-/
namespace StyleEngine

theorem Severity.name_inj {s t : Severity} (h : s.name = t.name) : s = t := by
  have hs := ofName?_name s
  rw [h, ofName?_name] at hs
  exact (Option.some.inj hs).symm

/-! ## Lists and maps -/

namespace Json

variable {α : Type}

theorem ofTexts_inj {ss ss' : List String} (h : ofTexts ss = ofTexts ss') : ss = ss' :=
  (List.map_inj_right fun _ _ => str.inj).mp (arr.inj h)

/-- Maps are the same if their members are, where different values have different JSON. -/
theorem members_map_inj (write : α → Json) (hwrite : ∀ a b, write a = write b → a = b)
    {l l' : List (String × α)}
    (h : l.map (fun e => (e.1, write e.2)) = l'.map fun e => (e.1, write e.2)) : l = l' := by
  refine (List.map_inj_right ?_).mp h
  intro e e' he
  obtain ⟨hkey, hvalue⟩ := Prod.mk.inj he
  exact Prod.ext hkey (hwrite _ _ hvalue)

end Json

/-! ## The parts of settings -/

theorem EngineSettings.toJson_inj {e e' : EngineSettings} (h : e.toJson = e'.toJson) : e = e' := by
  obtain ⟨jobs, singleWorker, writeCache⟩ := e
  obtain ⟨jobs', singleWorker', writeCache'⟩ := e'
  simpa [toJson] using h

theorem EngineSettings.isPlain_toJson (e : EngineSettings) : e.toJson.IsPlain := by
  refine .obj ?_
  simp [Json.IsPlain.nat, Json.IsPlain.bool]

namespace RuleSettings

theorem toJson_inj {r r' : RuleSettings} (h : r.toJson = r'.toJson) : r = r' := by
  obtain ⟨disabled, enabled, ignore, severity, perFile⟩ := r
  obtain ⟨disabled', enabled', ignore', severity', perFile'⟩ := r'
  simp only [toJson, Json.obj.injEq, List.cons.injEq, Prod.mk.injEq, true_and, and_true] at h
  obtain ⟨hdisabled, henabled, hignore, hseverity, hperFile⟩ := h
  obtain rfl := Json.ofTexts_inj hdisabled
  obtain rfl := Json.ofTexts_inj henabled
  obtain rfl := Json.ofTexts_inj hignore
  obtain rfl := Json.members_map_inj (fun s => .str (Severity.name s))
    (fun _ _ h => Severity.name_inj (Json.str.inj h)) hseverity
  obtain rfl := Json.members_map_inj Json.ofTexts (fun _ _ => Json.ofTexts_inj) hperFile
  rfl

theorem isPlain_toJson (r : RuleSettings) : r.toJson.IsPlain := by
  have hseverity (s : Severity) : (Json.str s.name).IsPlain := .str _
  refine .obj ?_
  simp [Json.isPlain_ofTexts, Json.isPlain_obj hseverity, Json.isPlain_obj Json.isPlain_ofTexts]

end RuleSettings

namespace Settings

theorem toJson_inj {s s' : Settings} (h : s.toJson = s'.toJson) : s = s' := by
  obtain ⟨bases, engine, rules, addins⟩ := s
  obtain ⟨bases', engine', rules', addins'⟩ := s'
  simp only [toJson, Json.obj.injEq, List.cons.injEq, Prod.mk.injEq, true_and, and_true] at h
  obtain ⟨hbases, hengine, hrules, haddins⟩ := h
  obtain rfl := Json.ofTexts_inj hbases
  obtain rfl := EngineSettings.toJson_inj hengine
  obtain rfl := RuleSettings.toJson_inj hrules
  obtain rfl := Json.members_map_inj (fun b => .obj [("enabled", .bool b)]) (by simp) haddins
  rfl

theorem isPlain_toJson (s : Settings) : s.toJson.IsPlain := by
  have hswitch (b : Bool) : (Json.obj [("enabled", .bool b)]).IsPlain := by
    refine .obj ?_
    simp [Json.IsPlain.bool]
  refine .obj ?_
  simp [Json.isPlain_ofTexts, s.engine.isPlain_toJson, s.rules.isPlain_toJson,
    Json.isPlain_obj hswitch]

/-- **Settings with the same text are the same** in all that they say. -/
theorem compact_toJson_inj {s s' : Settings} (h : s.toJson.compact = s'.toJson.compact) : s = s' :=
  toJson_inj (s.isPlain_toJson.compact_inj s'.isPlain_toJson h)

end Settings

/-! ## Digests -/

/-- Whether different texts, of some, have different digests. -/
def Digest.TellsApart (IsText : String → Prop) : Prop :=
  ∀ t t', IsText t → IsText t' → Digest.ofText t = Digest.ofText t' → t = t'

/-- **The text of settings is that of no others.**  So among some settings each is known by its
digest just if the hash tells their texts apart. -/
theorem Settings.digest_tells_apart :
    (∀ s s' : Settings, s.toJson.compact = s'.toJson.compact ↔ s = s') ∧
    ∀ IsSettings : Settings → Prop,
      (∀ s s', IsSettings s → IsSettings s' → (s.digest = s'.digest ↔ s = s')) ↔
        Digest.TellsApart fun t => ∃ s, IsSettings s ∧ s.toJson.compact = t := by
  refine ⟨fun s s' => ⟨compact_toJson_inj, fun h => h ▸ rfl⟩, ?_⟩
  intro IsSettings
  constructor
  · rintro h t t' ⟨s, hs, rfl⟩ ⟨s', hs', rfl⟩ hdigest
    rw [(h s s' hs hs').mp hdigest]
  · intro h s s' hs hs'
    refine ⟨?_, fun heq => heq ▸ rfl⟩
    intro hdigest
    exact compact_toJson_inj (h _ _ ⟨s, hs, rfl⟩ ⟨s', hs', rfl⟩ hdigest)

end StyleEngine
