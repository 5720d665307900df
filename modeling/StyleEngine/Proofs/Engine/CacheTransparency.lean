import StyleEngine.Proofs.Engine.RunHistories

/-! # The cache is transparent

Where a path is always analyzed under the same root, a history of runs
(`Scope.History`) leaves a cache that holds for each path what is found under that
root.  So a run that may use the cache leaves on every file what one that may not
leaves there.
-/
namespace StyleEngine

/-- What a history of runs is about: the root under which each path is analyzed, the texts and
the settings. -/
structure Scope where
  root : Path → Path
  IsText : String → Prop
  IsSettings : Settings → Prop

namespace Scope

/-- Whether digests tell the texts and the settings apart. -/
structure CollisionFree (σ : Scope) : Prop where
  text : ∀ t t', σ.IsText t → σ.IsText t' → Digest.ofText t = Digest.ofText t' → t = t'
  settings : ∀ s s', σ.IsSettings s → σ.IsSettings s' → s.digest = s'.digest → s = s'

/-- What is found in a text at a path, under settings. -/
def findings (σ : Scope) (r : Registry) (s : Settings) (path : Path) (text : String) :
    List Violation :=
  r.findings
    { project := { root := σ.root path }, settings := s, ruleDefault := r.ruleDefault? }
    path (TextModel.ofText text)

variable {σ : Scope} {e : Engine} {ps rest : List Project} {sweep : Sweep} {t : FileTree}
  {switches : Switches} {processors : Nat} {mode : RunMode} {settingsPath : Option String}

/-- What runs are about if each path has one root. -/
def realm (σ : Scope) : Realm where
  IsRoot root path := root.sameAs (σ.root path) = true
  IsText := σ.IsText
  IsSettings := σ.IsSettings

theorem CollisionFree.realm (h : σ.CollisionFree) : σ.realm.CollisionFree := ⟨h.text, h.settings⟩

/-- What holds of an engine and the projects that it has run over. -/
abbrev Covers (σ : Scope) (e : Engine) (ps : List Project) : Prop := σ.realm.Covers e ps

/-- Whether the settings of projects and the texts of their modified files are known. -/
def Includes (σ : Scope) (ps : List Project) : Prop :=
  ∀ p ∈ ps, (∀ s, p.settings = some s → σ.IsSettings s) ∧
    ∀ f ∈ p.files, f.modified = true → ∀ text, f.sourceText? = some text → σ.IsText text

/-- A run that does not fix files, over projects with known settings, brings in no others. -/
theorem Covers.includes (h : σ.Covers e ps) (hcf : σ.CollisionFree) (hs : sweep.Interleaves)
    (hfix : mode.autoFix = false) (hset : ∀ p ∈ ps, ∃ s, p.settings = some s ∧ σ.IsSettings s)
    (hmod : ∀ p ∈ ps, ∀ f ∈ p.files, f.modified = false) :
    σ.Includes (e.runWith sweep t switches processors mode settingsPath ps).projects :=
  Realm.Covers.includes h hcf.realm hs hfix hset hmod

/-! ## Histories -/

/-- A history of an engine and the projects that it runs over, from an empty cache on: projects
are built from texts, put in another order, and run, some of them at a time. -/
inductive History (σ : Scope) : Engine → List Project → Prop
  | start {e : Engine} (hb : e.registry.IsBuiltin)
    (hc : ∀ c, e.cache = some c → c.document.files = []) : History σ e []
  | build {e : Engine} {ps : List Project} {p : Project} (h : History σ e ps)
    (hp : ∀ f ∈ p.files, p.root.sameAs (σ.root f.path) = true ∧
      ∃ text, σ.IsText text ∧ f = .ofText f.path text) : History σ e (p :: ps)
  | arrange {e : Engine} {ps ps' : List Project} (h : History σ e ps) (hp : ps'.Perm ps) :
    History σ e ps'
  | run {e : Engine} {ps rest : List Project} (h : History σ e (ps ++ rest)) {sweep : Sweep}
    (hs : sweep.Interleaves) (t : FileTree) (switches : Switches) (processors : Nat)
    (mode : RunMode) (settingsPath : Option String)
    (hinc : σ.Includes (e.runWith sweep t switches processors mode settingsPath ps).projects) :
    History σ (e.runWith sweep t switches processors mode settingsPath ps).engine
      ((e.runWith sweep t switches processors mode settingsPath ps).projects ++ rest)

theorem History.realm (h : σ.History e ps) : σ.realm.History e ps := by
  induction h with
  | start hb hc => exact .start hb hc
  | build _ hp ih => exact ih.build hp
  | arrange _ hp ih => exact ih.arrange hp
  | run _ hs t switches processors mode settingsPath hinc ih =>
    exact ih.run hs t switches processors mode settingsPath hinc

/-- What a history keeps. -/
theorem History.covers (h : σ.History e ps) (hcf : σ.CollisionFree) : σ.Covers e ps :=
  h.realm.covers hcf.realm

/-- What is found under the root of a path. -/
theorem findingsAt_eq (σ : Scope) {root path : Path} (h : σ.realm.IsRoot root path) (r : Registry)
    (s : Settings) (text : String) : r.findingsAt root s path text = σ.findings r s path text := by
  have hlike : (r.contextAt root s).DecidesLike (r.contextAt (σ.root path) s) :=
    ⟨rfl, rfl, beq_iff_eq.mp h⟩
  exact hlike.findings ..

end Scope

section

variable {σ : Scope} {e : Engine} {ps : List Project} {sweep : Sweep} {t : FileTree}
  {switches : Switches} {mode : RunMode} {settingsPath : Option String}

/-- The violations that a run without fixes leaves are what is found in the files. -/
theorem Realm.Opens.found {r : Run} (h : σ.realm.Opens r) (hcf : σ.CollisionFree)
    (hstart : e.Starts t switches mode settingsPath ps r) (hcancel : r.cancelled = false)
    (hfix : r.autoFix = false) (hs : sweep.Interleaves) (processors : Nat) :
    ∃ r' : Run, (e.runWith sweep t switches processors mode settingsPath ps).projects =
        r'.projects ∧ (∀ i, r'.shell? i = r.shell? i) ∧
      ∀ s, ((r'.file? s).map fun f => (f.path, f.violations)) =
        (r.shell? s.project).bind fun q => (r.file? s).map fun f =>
          (f.path, σ.findings e.registry q.effectiveSettings f.path (f.text.getD "")) := by
  obtain ⟨r', hprojects, hsame, -, hfiles⟩ := h.runWith hcf.realm hstart hcancel hs processors
  refine ⟨r', hprojects, hsame.shell, ?_⟩
  intro s
  cases hf' : r'.file? s with
  | none =>
    have hnone : r.file? s = none := by
      have hsome := hsame.isSome s
      rw [hf'] at hsome
      simpa using hsome
    rw [hnone]
    cases r.shell? s.project <;> rfl
  | some f' =>
    obtain ⟨q, f, hq, hf, hsettles, hmod⟩ := hfiles s f' hf'
    obtain ⟨_, text, -, hawaits⟩ := h.file s q f hq hf
    obtain ⟨root, hroot, hviolations⟩ :=
      hsettles.violations text hawaits.reset.text (hmod hfix)
    rw [hq, hf, Option.map_some, Option.bind_some, Option.map_some, hsettles.path, hviolations,
      σ.findingsAt_eq hroot, hawaits.reset.text]
    rfl

end

namespace Scope

variable {σ : Scope} {e : Engine} {ps rest : List Project}

/-- **The cache is transparent**: after any history, a run that may use the cache leaves on
every file the violations that a run over the same projects without it leaves there. -/
theorem violations_analyze_eq_full (hcf : σ.CollisionFree) (h : σ.History e (ps ++ rest))
    {sweep₁ sweep₂ : Sweep} (hs₁ : sweep₁.Interleaves) (hs₂ : sweep₂.Interleaves) (t : FileTree)
    (switches : Switches) (processors₁ processors₂ : Nat) (settingsPath : Option String)
    (hinc : σ.Includes (e.runWith sweep₁ t switches processors₁ {} settingsPath ps).projects) :
    ((e.runWith sweep₁ t switches processors₁ {} settingsPath ps).projects.map fun p =>
      p.files.map fun f => (f.path, f.violations)) =
    (e.runWith sweep₂ t switches processors₂ { full := true } settingsPath ps).projects.map fun p =>
      p.files.map fun f => (f.path, f.violations) := by
  have hall := h.covers hcf
  have hps : σ.Covers e ps :=
    ⟨hall.registry, hall.cache, fun p hp => hall.projects p (List.mem_append_left _ hp)⟩
  rcases Engine.runWith_modes hall.registry sweep₁ sweep₂ t switches processors₁ processors₂ {}
    { full := true } settingsPath ps with hsame | ⟨hready, hok₁, hok₂, hstart₁, hstart₂⟩
  · rw [hsame]
  · have hset (p : Project) (hp : p ∈ (e.busy.prepare t {} (settingsPath.map Path.mk)
        { cache := e.cache } ps).1.projects) (s : Settings) (hs : p.settings = some s) :
        σ.IsSettings s := by
      obtain ⟨p', hp', heq⟩ := hstart₁.exists_settings hs₁ processors₁ hp
      exact (hinc p' hp').1 s (heq.trans hs)
    obtain ⟨r₁, hprojects₁, hsame₁, hfound₁⟩ :=
      (hps.opens switches hok₁ hset).found hcf hstart₁ rfl rfl hs₁ processors₁
    obtain ⟨r₂, hprojects₂, hsame₂, hfound₂⟩ :=
      (hps.opens switches hok₂ (hready ▸ hset)).found hcf hstart₂ rfl rfl hs₂ processors₂
    rw [hprojects₁, hprojects₂]
    -- the two runs started from the same files, and what is found depends on these alone
    have hshell (i : Nat) : r₁.shell? i = r₂.shell? i := by
      rw [hsame₁, hsame₂]
      exact congrArg (fun l : List Project => l[i]?.map fun p => { p with files := [] }) hready
    refine Run.map_files_eq _ hshell ?_
    intro s
    rw [hfound₁, hfound₂, ← hsame₁, ← hsame₂, hshell]
    have hfile : (e.busy.begin switches {} (e.busy.prepare t {} (settingsPath.map Path.mk)
        { cache := e.cache } ps).1 []).file? s =
        (e.busy.begin switches { full := true } (e.busy.prepare t { full := true }
          (settingsPath.map Path.mk) { cache := e.cache } ps).1 []).file? s :=
      congrArg (fun l : List Project => l[s.project]?.bind fun p => p.files[s.file]?) hready
    rw [hfile]

/-- The scope of one text at one root, under the default settings. -/
def single (root : Path) (text : String) : Scope where
  root _ := root
  IsText t := t = text
  IsSettings s := s = {}

theorem collisionFree_single (root : Path) (text : String) : (single root text).CollisionFree where
  text _ _ ht ht' _ := ht.trans ht'.symm
  settings _ _ hs hs' _ := hs.trans hs'.symm

/-- An engine with a cache that checks texts for tabs. -/
def tabChecker : Engine where
  registry :=
    { parsers := [{
        parser := textParser "text" ["txt"]
        profile := {}
        trusted := false
        analyzers := ["tabs"] }]
      analyzers := [{
        analyzer := patternAnalyzer "tabs" "text"
        profile := { rules := [{ id := "NoTabs", context := "tab", pattern := some "\t" }] }
        trusted := false }]
      extensions := [("txt", "text")] }
  cache := some { store := .memory none 0 }

theorem tabChecker_isBuiltin : tabChecker.registry.IsBuiltin where
  parser e he := by
    obtain rfl := List.mem_singleton.mp he
    exact ⟨_, _, rfl⟩
  analyzer e he := by
    obtain rfl := List.mem_singleton.mp he
    exact ⟨_, _, rfl⟩

/-- A project with a file whose lines end differently, so that it is not rendered as it was. -/
def tabbed : Project where
  root := ⟨"app"⟩
  files := [.ofText ⟨"app/a.txt"⟩ "a\tb\r\nc\n"]
  settings := some {}

theorem violations_analyze_eq_full_tabbed :
    let o := tabChecker.runWith Sweep.oneByOne {} [] 2 { full := true } none [tabbed]
    (o.projects.map fun p => p.files.map fun f => f.violations.map Violation.ruleId) =
      [[["NoTabs"]]] ∧
    ((o.engine.runWith Sweep.oneByOne {} [] 2 {} none o.projects).projects.map fun p =>
      p.files.map fun f => (f.path, f.violations)) =
    (o.engine.runWith Sweep.oneByOne {} [] 8 { full := true } none o.projects).projects.map fun p =>
      p.files.map fun f => (f.path, f.violations) := by
  intro o
  have hs := Sweep.oneByOne_interleaves.interleaves
  have hcf := collisionFree_single ⟨"app"⟩ "a\tb\r\nc\n"
  have hbuilt : (single ⟨"app"⟩ "a\tb\r\nc\n").History tabChecker ([tabbed] ++ []) := by
    refine .build (.start tabChecker_isBuiltin ?_) ?_
    · intro c hc
      obtain rfl := Option.some.inj hc
      rfl
    · intro f hf
      obtain rfl := List.mem_singleton.mp hf
      exact ⟨rfl, _, rfl, rfl⟩
  have hrun : (single ⟨"app"⟩ "a\tb\r\nc\n").History o.engine (o.projects ++ []) := by
    refine .run hbuilt hs {} [] 2 { full := true } none
      ((hbuilt.covers hcf).includes hcf hs rfl ?_ ?_)
    · intro p hp
      obtain rfl := List.mem_singleton.mp hp
      exact ⟨{}, rfl, rfl⟩
    · intro p hp f hf
      obtain rfl := List.mem_singleton.mp hp
      obtain rfl := List.mem_singleton.mp hf
      rfl
  have hcovers := hrun.covers hcf
  rw [List.append_nil] at hcovers
  have hset : ∀ p ∈ o.projects, p.settings = some {} := by decide +kernel
  have hmod : ∀ p ∈ o.projects, ∀ f ∈ p.files, f.modified = false := by decide +kernel
  refine ⟨by decide +kernel, violations_analyze_eq_full hcf hrun hs hs {} [] 2 8 none ?_⟩
  exact hcovers.includes hcf hs rfl (fun p hp => ⟨{}, hset p hp, rfl⟩) hmod

end Scope

end StyleEngine
