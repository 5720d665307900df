import Mathlib.Data.List.Perm.Basic
import Mathlib.Data.List.TakeWhile
import StyleEngine.Proofs.Analysis.Redigesting
import StyleEngine.Proofs.Engine.FixConservation
import StyleEngine.Proofs.Engine.TextDigests
import StyleEngine.Proofs.Engine.UncachedRuns
import StyleEngine.Proofs.Run.Schedules

/-! # Projects used again and projects built anew

Projects keep what a run has left on their files until the next run resets them.  A
run without a cache over projects that were run before is compared here with the run
over projects that are newly built from the current texts of the files.  If the
settings of all projects can be read, the two cannot be told apart but for the
digests of files (`Engine.runWith_rebuilt`).  If not, the projects from the first
unreadable one on are told of as they were left (`Project.History.runWith_rebuilt_iff`).
-/
namespace StyleEngine

namespace Project

/-! ## What is read off projects -/

/-- The files of projects, their digests left out. -/
def contents (ps : List Project) : List (List SourceFile) :=
  ps.map fun p => p.files.map (SourceFile.withDigest "")

/-- What runs have left on the files of projects. -/
def marks (ps : List Project) : List (List (Path × List Violation × Bool)) :=
  ps.map fun p => p.files.map fun f => (f.path, f.violations, f.modified)

/-- The violations that are recorded on the files of projects. -/
def records (ps : List Project) : List (List (Path × List Violation)) :=
  ps.map fun p => p.files.map fun f => (f.path, f.violations)

/-- The texts of the files of projects. -/
def texts (ps : List Project) : List (List (Path × Option String)) :=
  ps.map fun p => p.files.map fun f => (f.path, f.sourceText?)

/-- Whether no run has left anything on the files of a project. -/
def IsClean (p : Project) : Prop := ∀ f ∈ p.files, f.violations = [] ∧ f.modified = false

variable {ps ps' : List Project}

/-- Projects whose files agree in some data agree in what is read off these. -/
theorem map_files_congr {α β : Type} (g : SourceFile → α) (k : α → β)
    (h : (ps.map fun p => p.files.map g) = ps'.map fun p => p.files.map g) :
    (ps.map fun p => p.files.map fun f => k (g f)) =
      ps'.map fun p => p.files.map fun f => k (g f) := by
  have hmap (ps : List Project) : (ps.map fun p => p.files.map fun f => k (g f)) =
      (ps.map fun p => p.files.map g).map (List.map k) := by
    rw [List.map_map]
    refine List.map_congr_left fun p _ => ?_
    rw [Function.comp_apply, List.map_map]
    rfl
  rw [hmap, hmap, h]

theorem marks_of_contents (h : contents ps = contents ps') : marks ps = marks ps' :=
  map_files_congr (SourceFile.withDigest "")
    (fun f : SourceFile => (f.path, f.violations, f.modified)) h

theorem texts_of_contents (h : contents ps = contents ps') : texts ps = texts ps' :=
  map_files_congr (SourceFile.withDigest "") (fun f : SourceFile => (f.path, f.sourceText?)) h

theorem records_of_marks (h : marks ps = marks ps') : records ps = records ps' :=
  map_files_congr _ (fun m : Path × List Violation × Bool => (m.1, m.2.1)) h

theorem flatten_map_files {α : Type} (g : SourceFile → α) (ps : List Project) :
    (ps.map fun p => p.files.map g).flatten = (ps.flatMap files).map g := by
  rw [List.map_flatMap, List.flatMap_def]

/-- A summary tells of projects what runs have left on them. -/
theorem collect_of_marks (h : marks ps = marks ps') (vs : List Violation) :
    RunSummary.collect ps vs = RunSummary.collect ps' vs := by
  have hviolations (ps : List Project) :
      ps.flatMap violations = (marks ps).flatten.flatMap fun m => m.2.1 := by
    rw [marks, flatten_map_files, List.flatMap_map, List.flatMap_assoc]
    rfl
  have htotal (ps : List Project) : (ps.flatMap files).length = (marks ps).flatten.length := by
    rw [marks, flatten_map_files, List.length_map]
  have hfixed (ps : List Project) : (ps.flatMap files).countP SourceFile.modified =
      (marks ps).flatten.countP fun m => m.2.2 := by
    rw [marks, flatten_map_files, List.countP_map]
    rfl
  simp only [RunSummary.collect, hviolations, htotal, hfixed, h]

/-- Projects are clean exactly if a summary tells nothing of them. -/
theorem forall_isClean_iff (ps : List Project) : (∀ p ∈ ps, p.IsClean) ↔
    ps.flatMap violations = [] ∧ (ps.flatMap files).countP SourceFile.modified = 0 := by
  rw [List.flatMap_eq_nil_iff, List.countP_eq_zero]
  simp only [violations, List.flatMap_eq_nil_iff, List.mem_flatMap]
  constructor
  · intro h
    refine ⟨fun p hp f hf => (h p hp f hf).1, ?_⟩
    rintro f ⟨p, hp, hf⟩
    rw [(h p hp f hf).2]
    exact Bool.false_ne_true
  · rintro ⟨hviolations, hfixed⟩ p hp f hf
    exact ⟨hviolations p hp f hf, Bool.eq_false_iff.mpr (hfixed f ⟨p, hp, hf⟩)⟩

/-! ## Building projects anew -/

/-- Whether a project is newly built under the name, the root and the flags of another one, of
the current texts of its files. -/
structure RebuiltAs (p p' : Project) : Prop where
  name : p'.name = p.name
  root : p'.root = p.root
  flags : p'.flags = p.flags
  settings : p'.settings = none
  files : List.Forall₂ (fun f f' => ∃ text, f.sourceText? = some text ∧
    f' = SourceFile.ofText f.path text) p.files p'.files

/-- Whether a project is newly built: its settings were not read yet, and its files have their
texts. -/
structure IsNew (p : Project) : Prop where
  settings : p.settings = none
  files : ∀ f ∈ p.files, ∃ text, f = SourceFile.ofText f.path text

/-- A new project that agrees with an old one in what it is and in the texts of its files is the
old one built anew. -/
theorem IsNew.rebuiltAs {p p' : Project} (h : p'.IsNew) (hinfo : p.toProjectInfo = p'.toProjectInfo)
    (htexts : (p.files.map fun f => (f.path, f.sourceText?)) =
      p'.files.map fun f => (f.path, f.sourceText?)) : p.RebuiltAs p' := by
  have hfiles : List.Forall₂ (fun f f' => (f.path, f.sourceText?) = (f'.path, f'.sourceText?))
      p.files p'.files := by
    rwa [← List.forall₂_eq_eq_eq, List.forall₂_map_left_iff, List.forall₂_map_right_iff] at htexts
  refine ⟨by rw [hinfo], by rw [hinfo], by rw [hinfo], h.settings, ?_⟩
  refine forall₂_imp_of_mem hfiles ?_
  intro f _ f' hf' hsame
  obtain ⟨hpath, htext⟩ := Prod.mk.inj hsame
  obtain ⟨text, hnew⟩ := h.files f' hf'
  rw [hnew] at htext
  exact ⟨text, htext, hpath ▸ hnew⟩

theorem forall₂_rebuiltAs (hnew : ∀ p' ∈ ps', p'.IsNew)
    (hinfo : ps.map toProjectInfo = ps'.map toProjectInfo) (htexts : texts ps = texts ps') :
    List.Forall₂ RebuiltAs ps ps' := by
  induction ps generalizing ps' with
  | nil =>
    cases ps' with
    | nil => exact .nil
    | cons => cases hinfo
  | cons p ps ih =>
    cases ps' with
    | nil => cases hinfo
    | cons p' ps' =>
      obtain ⟨hhead, hrest⟩ := List.cons.inj hinfo
      obtain ⟨hheadTexts, hrestTexts⟩ := List.cons.inj htexts
      exact .cons ((hnew p' List.mem_cons_self).rebuiltAs hhead hheadTexts)
        (ih (fun q hq => hnew q (List.mem_cons_of_mem _ hq)) hrest hrestTexts)

/-- A project all of whose files have a text can be built anew. -/
theorem exists_rebuiltAs {p : Project} (h : ∀ f ∈ p.files, f.sourceText?.isSome = true) :
    ∃ p', p.RebuiltAs p' := by
  obtain ⟨info, files, settings⟩ := p
  suffices hfiles : ∃ fs, List.Forall₂ (fun f f' => ∃ text, f.sourceText? = some text ∧
      f' = SourceFile.ofText f.path text) files fs by
    obtain ⟨fs, hfs⟩ := hfiles
    exact ⟨{ info with files := fs }, rfl, rfl, rfl, rfl, hfs⟩
  induction files with
  | nil => exact ⟨[], .nil⟩
  | cons f files ih =>
    obtain ⟨fs, hfs⟩ := ih fun g hg => h g (List.mem_cons_of_mem _ hg)
    obtain ⟨text, htext⟩ := Option.isSome_iff_exists.mp (h f List.mem_cons_self)
    exact ⟨_, .cons ⟨text, htext, rfl⟩ hfs⟩

theorem exists_forall₂_rebuiltAs
    (h : ∀ p ∈ ps, ∀ f ∈ p.files, f.sourceText?.isSome = true) :
    ∃ ps', List.Forall₂ RebuiltAs ps ps' := by
  induction ps with
  | nil => exact ⟨[], .nil⟩
  | cons p ps ih =>
    obtain ⟨ps', hps'⟩ := ih fun q hq => h q (List.mem_cons_of_mem _ hq)
    obtain ⟨p', hp'⟩ := exists_rebuiltAs (h p List.mem_cons_self)
    exact ⟨p' :: ps', .cons hp' hps'⟩

theorem RebuiltAs.isClean {p p' : Project} (h : p.RebuiltAs p') : p'.IsClean := by
  intro f' hf'
  obtain ⟨f, -, text, -, rfl⟩ := exists_of_forall₂_right h.files hf'
  exact ⟨rfl, rfl⟩

/-- Building projects anew keeps the texts. -/
theorem texts_of_rebuiltAs (h : List.Forall₂ RebuiltAs ps ps') : texts ps = texts ps' := by
  refine map_eq_of_forall₂ (fun hp => map_eq_of_forall₂ ?_ hp.files) h
  rintro f _ ⟨text, htext, rfl⟩
  rw [htext]
  rfl

theorem marks_of_isClean (h : ∀ p ∈ ps, p.IsClean) :
    marks ps = ps.map fun p => p.files.map fun f => (f.path, [], false) := by
  refine List.map_congr_left fun p hp => List.map_congr_left fun f hf => ?_
  rw [(h p hp f hf).1, (h p hp f hf).2]

/-- Clean projects look like those that are built anew from them. -/
theorem marks_of_rebuiltAs (h : List.Forall₂ RebuiltAs ps ps') (hclean : ∀ p ∈ ps, p.IsClean) :
    marks ps = marks ps' := by
  have hclean' : ∀ p' ∈ ps', p'.IsClean := by
    intro p' hp'
    obtain ⟨p, -, hp⟩ := exists_of_forall₂_right h hp'
    exact hp.isClean
  rw [marks_of_isClean hclean, marks_of_isClean hclean']
  refine map_eq_of_forall₂ (fun hp => map_eq_of_forall₂ ?_ hp.files) h
  rintro f _ ⟨text, -, rfl⟩
  rfl

/-- Where projects that were readied are followed by some that were left as they are, the same
projects built anew make the same summary exactly if those that were left are clean. -/
theorem collect_eq_iff {ready ready' stale stale' : List Project}
    (hcontents : contents ready = contents ready') (hclean : ∀ p ∈ ready', p.IsClean)
    (hstale : List.Forall₂ RebuiltAs stale stale') (vs : List Violation) :
    (RunSummary.collect (ready ++ stale) vs = RunSummary.collect (ready' ++ stale') vs ∧
        records (ready ++ stale) = records (ready' ++ stale')) ↔ ∀ p ∈ stale, p.IsClean := by
  constructor
  · -- the summary over new projects tells of nothing but the engine's own violations
    rintro ⟨hcollect, -⟩
    have hclean' : ∀ p ∈ ready' ++ stale', p.IsClean := by
      intro p hp
      rcases List.mem_append.mp hp with hp | hp
      · exact hclean p hp
      · obtain ⟨_, -, hrebuilt⟩ := exists_of_forall₂_right hstale hp
        exact hrebuilt.isClean
    obtain ⟨hnone', hzero'⟩ := (forall_isClean_iff _).mp hclean'
    have hnone := List.append_cancel_right (congrArg RunSummary.violations hcollect)
    have hzero := congrArg RunSummary.filesFixed hcollect
    have hall := (forall_isClean_iff _).mpr ⟨hnone.trans hnone', hzero.trans hzero'⟩
    exact fun p hp => hall p (List.mem_append_right _ hp)
  · intro hstill
    have hmarks : marks (ready ++ stale) = marks (ready' ++ stale') := by
      simp only [marks, List.map_append]
      exact congr (congrArg _ (marks_of_contents hcontents)) (marks_of_rebuiltAs hstale hstill)
    exact ⟨collect_of_marks hmarks vs, records_of_marks hmarks⟩

end Project

/-- A file that is built anew is reset to what the old one is reset to, the digest apart. -/
theorem SourceFile.reset_ofText {f : SourceFile} {text : String} (h : f.sourceText? = some text) :
    (ofText f.path text).reset = f.reset.withDigest (Digest.ofText text) := by
  simp only [reset, h]
  rfl

namespace Engine

variable {e : Engine} {sweep sweep' : Sweep} {t : FileTree} {switches : Switches}
  {mode : RunMode} {settingsPath : Option String} {path : Option Path} {ps ps' : List Project}

/-- Whether a project is another one built anew, to be run under the same settings. -/
structure Renews (e : Engine) (t : FileTree) (path : Option Path) (p p' : Project) : Prop where
  rebuilt : p.RebuiltAs p'
  settings : e.settingsOf t path p' = e.settingsOf t path p

/-- Projects that are built anew have their files at the same places. -/
theorem slotsFrom_of_renews (h : List.Forall₂ (e.Renews t path) ps ps') (n : Nat) :
    slotsFrom n ps' = slotsFrom n ps := by
  induction h generalizing n with
  | nil => rfl
  | cons hp _ ih => rw [slotsFrom, slotsFrom, ih, hp.rebuilt.files.length_eq]

/-! ## Runs to the end -/

namespace Direct

variable {handled handled' : List Handled} {o o' : RunOutcome}

/-- What was made of a file that was built anew is what was made of the old one. -/
theorem redigests (h : e.Direct t switches mode settingsPath ps handled o)
    (h' : e.Direct t switches mode settingsPath ps' handled' o') (hb : e.registry.IsBuiltin)
    (hps : List.Forall₂ (e.Renews t (settingsPath.map Path.mk)) ps ps') {x y : Handled}
    (hx : x ∈ handled) (hy : y ∈ handled') (hxy : y.slot = x.slot) :
    ∃ d, x.result.Redigests d y.result := by
  obtain ⟨p, f, s, status, hp, hf, hs, hresult⟩ := h.result x hx
  obtain ⟨p', f', s', status', hp', hf', hs', hresult'⟩ := h'.result y hy
  rw [hxy] at hp' hf'
  obtain ⟨_, hq, hrenews⟩ := exists_getElem?_of_forall₂ hps hp
  obtain rfl := Option.some.inj (hp'.symm.trans hq)
  obtain ⟨_, hg, text, htext, rfl⟩ := exists_getElem?_of_forall₂ hrenews.rebuilt.files hf
  obtain rfl := Option.some.inj (hf'.symm.trans hg)
  obtain rfl : s' = s := Except.ok.inj (hs'.symm.trans (hrenews.settings.trans hs))
  have hlike : (e.jobOf switches mode p s' status).WorksLike
      (e.jobOf switches mode p' s' status') :=
    ⟨rfl, ⟨rfl, rfl, congrArg Path.components hrenews.rebuilt.root.symm⟩, rfl⟩
  refine ⟨Digest.ofText text, ?_⟩
  rw [hresult, hresult', SourceFile.reset_ofText htext]
  exact FileJob.process_withDigest hlike hb (SourceFile.isReset_reset htext) _

/-- Runs over old and new projects count the same. -/
theorem tallyOf_eq (h : e.Direct t switches mode settingsPath ps handled o)
    (h' : e.Direct t switches mode settingsPath ps' handled' o') (hb : e.registry.IsBuiltin)
    (hps : List.Forall₂ (e.Renews t (settingsPath.map Path.mk)) ps ps') :
    tallyOf handled = tallyOf handled' := by
  have hslots : (handled.map Handled.slot).Perm (handled'.map Handled.slot) :=
    h.slots.trans (slotsFrom_of_renews hps 0 ▸ h'.slots.symm)
  -- the work on the new files, in the order of that on the old ones
  have hplaced : List.Forall₂ (fun s y => y.slot = s) (handled'.map Handled.slot) handled' :=
    List.forall₂_map_left_iff.mpr (List.forall₂_same.mpr fun _ _ => rfl)
  obtain ⟨l, hl, hperm⟩ := List.perm_comp_forall₂ hslots hplaced
  rw [List.forall₂_map_left_iff] at hl
  have hcounts : List.Forall₂ (fun x y => ∀ n, Run.count n y.result = Run.count n x.result)
      handled l := by
    refine forall₂_imp_of_mem hl ?_
    intro x hx y hy hxy n
    obtain ⟨d, hd⟩ := h.redigests h' hb hps hx (hperm.mem_iff.mp hy) hxy
    simp only [Run.count, hd.outcome, hd.fixes]
  rw [tallyOf, tallyOf, ← Run.foldl_count_perm hperm]
  refine List.rel_foldl ?_ rfl hcounts
  rintro n _ rfl x y hcount
  exact (hcount n).symm

/-- Runs over old and new projects leave the same files, digests apart. -/
theorem contents_eq (h : e.Direct t switches mode settingsPath ps handled o)
    (h' : e.Direct t switches mode settingsPath ps' handled' o') (hb : e.registry.IsBuiltin)
    (hps : List.Forall₂ (e.Renews t (settingsPath.map Path.mk)) ps ps')
    (ho : List.Forall₂ (e.Advances t (settingsPath.map Path.mk)) ps o.projects)
    (ho' : List.Forall₂ (e.Advances t (settingsPath.map Path.mk)) ps' o'.projects) :
    Project.contents o.projects = Project.contents o'.projects := by
  refine List.ext_getElem? ?_
  intro i
  rw [Project.contents, Project.contents, List.getElem?_map, List.getElem?_map]
  cases hp : ps[i]? with
  | none =>
    rw [getElem?_eq_none_of_forall₂ ho hp,
      getElem?_eq_none_of_forall₂ ho' (getElem?_eq_none_of_forall₂ hps hp)]
  | some p =>
    obtain ⟨p', hp', hrenews⟩ := exists_getElem?_of_forall₂ hps hp
    obtain ⟨q, hq, hadvances⟩ := exists_getElem?_of_forall₂ ho hp
    obtain ⟨q', hq', hadvances'⟩ := exists_getElem?_of_forall₂ ho' hp'
    rw [hq, hq', Option.map_some, Option.map_some]
    refine congrArg some (List.ext_getElem? ?_)
    intro k
    rw [List.getElem?_map, List.getElem?_map]
    cases hf : p.files[k]? with
    | none =>
      rw [getElem?_eq_none_of_forall₂ hadvances.files hf, getElem?_eq_none_of_forall₂
        hadvances'.files (getElem?_eq_none_of_forall₂ hrenews.rebuilt.files hf)]
    | some f =>
      obtain ⟨f', hf', -⟩ := exists_getElem?_of_forall₂ hrenews.rebuilt.files hf
      obtain ⟨x, hx, hxs, -⟩ := h.exists_handled hp hf
      obtain ⟨y, hy, hys, -⟩ := h'.exists_handled hp' hf'
      obtain ⟨d, hd⟩ := h.redigests h' hb hps hx hy (hys.trans hxs.symm)
      obtain ⟨_, hqx, hxfile⟩ := h.file x hx
      obtain ⟨_, hqy, hyfile⟩ := h'.file y hy
      rw [hxs] at hqx hxfile
      rw [hys] at hqy hyfile
      obtain rfl := Option.some.inj (hq.symm.trans hqx)
      obtain rfl := Option.some.inj (hq'.symm.trans hqy)
      rw [hxfile, hyfile, hd.file]
      rfl

end Direct

theorem saveFixed_of_contents {o o' : List Project} (h : Project.contents o = Project.contents o')
    (env : Environment) (t : FileTree) :
    saveFixed env t (o.flatMap Project.files) = saveFixed env t (o'.flatMap Project.files) := by
  have hsaved (ps : List Project) : saveFixed env t (ps.flatMap Project.files) =
      saveFixed env t (Project.contents ps).flatten := by
    rw [Project.contents, Project.flatten_map_files, saveFixed, saveFixed, List.foldl_map]
    rfl
  rw [hsaved, hsaved, h]

/-- **A run to the end over projects that are built anew** gives the same result as one over the
old ones and leaves the same files, digests apart. -/
theorem runWith_rebuilt (hb : e.registry.IsBuiltin) (hc : e.cache = none)
    (hacc : e.Accepts settingsPath) (hs : sweep.Interleaves) (hs' : sweep'.Interleaves)
    (hps : List.Forall₂ (e.Renews t (settingsPath.map Path.mk)) ps ps')
    (hset : ∀ p ∈ ps, ∃ s, e.settingsOf t (settingsPath.map Path.mk) p = .ok s)
    (switches : Switches) (processors processors' : Nat) (mode : RunMode) :
    let o := e.runWith sweep t switches processors mode settingsPath ps
    let o' := e.runWith sweep' t switches processors' mode settingsPath ps'
    o.result = o'.result ∧ o.files = o'.files ∧
      Project.contents o.projects = Project.contents o'.projects := by
  intro o o'
  have hset' : ∀ p' ∈ ps', ∃ s, e.settingsOf t (settingsPath.map Path.mk) p' = .ok s := by
    intro p' hp'
    obtain ⟨p, hp, hrenews⟩ := exists_of_forall₂_right hps hp'
    rw [hrenews.settings]
    exact hset p hp
  obtain ⟨handled, hdirect, hresult, hfiles⟩ :=
    exists_uncached hb hs hc hacc hset switches processors mode
  obtain ⟨handled', hdirect', hresult', hfiles'⟩ :=
    exists_uncached hb hs' hc hacc hset' switches processors' mode
  have htally := hdirect.tallyOf_eq hdirect' hb hps
  have hcontents : Project.contents o.projects = Project.contents o'.projects :=
    hdirect.contents_eq hdirect' hb hps (runWith_advances hs ..) (runWith_advances hs' ..)
  refine ⟨?_, ?_, hcontents⟩
  · rw [hresult, hresult', htally,
      Project.collect_of_marks (Project.marks_of_contents hcontents) []]
  · rw [hfiles, hfiles', saveFixed_of_contents hcontents]

/-! ## Runs that fail in preparation -/

/-- What preparing makes of projects and of the same projects built anew: it goes equally far, to
the first project whose settings cannot be read. -/
theorem prepare_renews {readable : Project → Bool}
    (hread : ∀ p ∈ ps, readable p = (e.settingsOf t path p).isOk)
    (hps : List.Forall₂ (e.Renews t path) ps ps') (mode : RunMode) (before before' : Prepared) :
    (e.prepare t mode path before' ps').2 = (e.prepare t mode path before ps).2 ∧
    ∃ ready ready' stale',
      (e.prepare t mode path before ps).1.projects =
        before.projects ++ (ready ++ ps.dropWhile readable) ∧
      (e.prepare t mode path before' ps').1.projects = before'.projects ++ (ready' ++ stale') ∧
      Project.contents ready = Project.contents ready' ∧ (∀ p ∈ ready', p.IsClean) ∧
      List.Forall₂ Project.RebuiltAs (ps.dropWhile readable) stale' := by
  induction hps generalizing before before' with
  | nil => exact ⟨rfl, [], [], [], by simp [prepare], by simp [prepare], rfl, nofun, .nil⟩
  | @cons p p' ps ps' hp hrest ih =>
    have hhead := hread p List.mem_cons_self
    unfold prepare
    rw [hp.settings, hp.rebuilt.name]
    cases hs : e.settingsOf t path p with
    | error cause =>
      have hno : readable p = false := by rw [hhead, hs]; rfl
      rw [List.dropWhile_cons_of_neg (by rw [hno]; exact Bool.false_ne_true)]
      exact ⟨rfl, [], [], p' :: ps', rfl, rfl, rfl, nofun,
        .cons hp.rebuilt (hrest.imp fun _ _ h => h.rebuilt)⟩
    | ok s =>
      have hyes : readable p = true := by rw [hhead, hs]; rfl
      obtain ⟨hresult, ready, ready', stale', hprojects, hprojects', hcontents, hclean, hstale⟩ :=
        ih (fun q hq => hread q (List.mem_cons_of_mem _ hq)) (prepareUnder mode before p s)
          (prepareUnder mode before' p' s)
      rw [List.dropWhile_cons_of_pos hyes]
      have hreset : (readied p s).files.map (SourceFile.withDigest "") =
          (readied p' s).files.map (SourceFile.withDigest "") := by
        simp only [readied, Project.reset, List.map_map]
        refine map_eq_of_forall₂ ?_ hp.rebuilt.files
        rintro f _ ⟨text, htext, rfl⟩
        rw [Function.comp_apply, Function.comp_apply, SourceFile.reset_ofText htext]
        rfl
      refine ⟨hresult, readied p s :: ready, readied p' s :: ready', stale', ?_, ?_, ?_, ?_, hstale⟩
      · rw [hprojects, prepareUnder, List.append_assoc]
        rfl
      · rw [hprojects', prepareUnder, List.append_assoc]
        rfl
      · rw [Project.contents, Project.contents, List.map_cons, List.map_cons, hreset]
        exact congrArg _ hcontents
      · intro q hq
        rcases List.mem_cons.mp hq with rfl | hq
        · intro f hf
          obtain ⟨g, -, rfl⟩ := List.mem_map.mp hf
          exact ⟨rfl, rfl⟩
        · exact hclean q hq

/-- **Whether projects that were used before behave like new ones.**  Texts and written files are
the same in any case. -/
theorem runWith_renews_iff {readable : Project → Bool} (hb : e.registry.IsBuiltin)
    (hc : e.cache = none) (hacc : e.Accepts settingsPath) (hs : sweep.Interleaves)
    (hs' : sweep'.Interleaves)
    (hread : ∀ p ∈ ps, readable p = (e.settingsOf t (settingsPath.map Path.mk) p).isOk)
    (hps : List.Forall₂ (e.Renews t (settingsPath.map Path.mk)) ps ps') (switches : Switches)
    (processors processors' : Nat) (mode : RunMode) :
    let o := e.runWith sweep t switches processors mode settingsPath ps
    let o' := e.runWith sweep' t switches processors' mode settingsPath ps'
    Project.texts o.projects = Project.texts o'.projects ∧ o.files = o'.files ∧
      ((o.result = o'.result ∧ Project.records o.projects = Project.records o'.projects) ↔
        ∀ p ∈ ps.dropWhile readable, p.IsClean) := by
  intro o o'
  have hbusy : List.Forall₂ (e.busy.Renews t (settingsPath.map Path.mk)) ps ps' :=
    hps.imp fun _ _ h => ⟨h.rebuilt, h.settings⟩
  obtain ⟨hagree, ready, ready', stale', hprojects, hprojects', hcontents, hclean, hstale⟩ :=
    prepare_renews (e := e.busy) hread hbusy mode { cache := e.cache } { cache := e.cache }
  rcases hmade : e.busy.prepare t mode (settingsPath.map Path.mk) { cache := e.cache } ps with
    ⟨made, result⟩
  rcases hmade' : e.busy.prepare t mode (settingsPath.map Path.mk) { cache := e.cache } ps' with
    ⟨made', result'⟩
  rw [hmade] at hagree hprojects
  rw [hmade'] at hagree hprojects'
  obtain rfl : result' = result := hagree
  cases result' with
  | ok _ =>
    have hset : ∀ p ∈ ps, ∃ s, e.settingsOf t (settingsPath.map Path.mk) p = .ok s :=
      (prepares_of_prepare hmade).settings
    obtain ⟨hresult, hfiles, hsame⟩ :=
      runWith_rebuilt hb hc hacc hs hs' hps hset switches processors processors' mode
    have hnone : ps.dropWhile readable = [] := by
      refine List.dropWhile_eq_nil_iff.mpr ?_
      intro p hp
      obtain ⟨s, hok⟩ := hset p hp
      rw [hread p hp, hok]
      rfl
    rw [hnone]
    exact ⟨Project.texts_of_contents hsame, hfiles, fun _ => nofun, fun _ =>
      ⟨hresult, Project.records_of_marks (Project.marks_of_contents hsame)⟩⟩
  | error message =>
    have hended : o.projects = made.projects ∧ o.files = t ∧
        o.result = .ok (.collect made.projects [Violation.exception message]) :=
      runWith_of_unprepared hacc hmade
    have hended' : o'.projects = made'.projects ∧ o'.files = t ∧
        o'.result = .ok (.collect made'.projects [Violation.exception message]) :=
      runWith_of_unprepared hacc hmade'
    obtain ⟨ho, hfiles, hresult⟩ := hended
    obtain ⟨ho', hfiles', hresult'⟩ := hended'
    have hleft : made.projects = ready ++ ps.dropWhile readable := hprojects
    have hleft' : made'.projects = ready' ++ stale' := hprojects'
    rw [ho, ho', hresult, hresult', hleft, hleft', Except.ok.injEq]
    refine ⟨?_, hfiles.trans hfiles'.symm,
      Project.collect_eq_iff hcontents hclean hstale [Violation.exception message]⟩
    simp only [Project.texts, List.map_append]
    exact congr (congrArg _ (Project.texts_of_contents hcontents))
      (Project.texts_of_rebuiltAs hstale)

end Engine

/-! ## Histories -/

/-- Whether a request reads settings from a source, which has them by the name, the root and the
flags of a project, and leaves texts to text parsers. -/
structure Request.Consults (source : String → Path → List String → Except SettingsError Settings)
    (q : Request) : Prop where
  settings : ∀ p ∈ q.projects, q.engine.environment.settingsFor q.files p.toProjectInfo
    (q.settingsPath.map Path.mk) = source p.name p.root p.flags
  reads : ∀ p ∈ q.projects, ∀ f ∈ p.files, q.engine.registry.ReadsTexts f.path

section

variable {source : String → Path → List String → Except SettingsError Settings}
  {e : Engine} {t : FileTree} {path : Option Path} {p : Project} {ps rest : List Project}

/-- Whether the settings of a project, if they were read, are those that a source has for it. -/
def Project.Agrees (source : String → Path → List String → Except SettingsError Settings)
    (p : Project) : Prop :=
  ∀ s, p.settings = some s → source p.name p.root p.flags = .ok s

/-- A project is run under the settings that the source has for it, read now or before. -/
theorem Project.Agrees.settingsOf (h : p.Agrees source)
    (hsource : e.environment.settingsFor t p.toProjectInfo path = source p.name p.root p.flags) :
    e.settingsOf t path p = source p.name p.root p.flags := by
  unfold Engine.settingsOf
  cases hs : p.settings with
  | none => exact hsource
  | some s => exact (h s hs).symm

theorem Project.History.agrees (h : Project.History Project.IsNew (Request.Consults source) ps) :
    ∀ p ∈ ps, p.Agrees source := by
  refine h.forall_mem ?_ ?_
  · intro p hp s hs
    rw [hp.settings] at hs
    cases hs
  · intro q hq p hp hold p' _ hadvances s hs
    obtain ⟨hname, hroot, hflags⟩ : p'.name = p.name ∧ p'.root = p.root ∧ p'.flags = p.flags := by
      rw [hadvances.info]
      exact ⟨rfl, rfl, rfl⟩
    rw [hname, hroot, hflags]
    rcases hadvances.settings with hkept | ⟨s', hread, hset⟩
    · exact hold s (hkept.symm.trans hs)
    · obtain rfl := Option.some.inj (hs.symm.trans hset)
      rw [← hread]
      exact (hold.settingsOf (hq.settings p hp)).symm

/-- No run loses the text of a file. -/
theorem Project.History.isSome_sourceText?
    (h : Project.History Project.IsNew (Request.Consults source) ps) :
    ∀ p ∈ ps, ∀ f ∈ p.files, f.sourceText?.isSome = true := by
  have htraced : Project.History (Project.HasTexts (fun _ => True) fun _ => True)
      (Request.TreatsTexts (fun _ => True) fun _ => True) ps := by
    refine h.mono ?_ ?_
    · intro p hp f hf _
      obtain ⟨text, htext⟩ := hp.files f hf
      exact ⟨text, trivial, htext⟩
    · exact fun q hq => ⟨fun p hp f hf _ => hq.reads p hp f hf, fun _ _ _ _ _ _ _ _ => trivial⟩
  intro p hp f hf
  obtain ⟨_, text, -, htext, -⟩ := htraced.isTraced p hp f hf trivial
  exact Option.isSome_iff_exists.mpr ⟨text, htext⟩

/-- **Used projects and new ones.**  After any history of runs that take settings from one source,
the projects can be built anew from their current texts.  A next run without a cache over the old
projects leaves the same texts and writes the same files as one over new projects.  It tells the
same and records the same exactly if the projects from the first one on whose settings cannot be
read are clean, so always if the settings of all of them can. -/
theorem Project.History.runWith_rebuilt_iff {sweep sweep' : Sweep} {settingsPath : Option String}
    (h : Project.History Project.IsNew (Request.Consults source) (ps ++ rest))
    (hb : e.registry.IsBuiltin) (hc : e.cache = none) (hacc : e.Accepts settingsPath)
    (hs : sweep.Interleaves) (hs' : sweep'.Interleaves) (t : FileTree) (switches : Switches)
    (processors processors' : Nat) (mode : RunMode) :
    (∃ ps', List.Forall₂ Project.RebuiltAs ps ps') ∧
    ∀ ps', List.Forall₂ Project.RebuiltAs ps ps' →
      (∀ p ∈ ps ++ ps', e.environment.settingsFor t p.toProjectInfo (settingsPath.map Path.mk) =
        source p.name p.root p.flags) →
      let o := e.runWith sweep t switches processors mode settingsPath ps
      let o' := e.runWith sweep' t switches processors' mode settingsPath ps'
      Project.texts o.projects = Project.texts o'.projects ∧ o.files = o'.files ∧
        ((o.result = o'.result ∧ Project.records o.projects = Project.records o'.projects) ↔
          ∀ p ∈ ps.dropWhile (fun p => (source p.name p.root p.flags).isOk), p.IsClean) := by
  have hagrees (p : Project) (hp : p ∈ ps) := h.agrees p (List.mem_append_left _ hp)
  refine ⟨Project.exists_forall₂_rebuiltAs fun p hp =>
    h.isSome_sourceText? p (List.mem_append_left _ hp), ?_⟩
  intro ps' hps hsource
  have hold (p : Project) (hp : p ∈ ps) : e.settingsOf t (settingsPath.map Path.mk) p =
      source p.name p.root p.flags :=
    (hagrees p hp).settingsOf (hsource p (List.mem_append_left _ hp))
  have hrenews : List.Forall₂ (e.Renews t (settingsPath.map Path.mk)) ps ps' := by
    refine forall₂_imp_of_mem hps ?_
    intro p hp p' hp' hrebuilt
    refine ⟨hrebuilt, ?_⟩
    have hread := hsource p' (List.mem_append_right _ hp')
    rw [hrebuilt.name, hrebuilt.root, hrebuilt.flags] at hread
    rw [hold p hp, Engine.settingsOf, hrebuilt.settings]
    exact hread
  exact Engine.runWith_renews_iff hb hc hacc hs hs' (fun p hp => by rw [hold p hp]) hrenews switches
    processors processors' mode

end

namespace Engine

/-- A file tree with settings in the directory `bad` that build on settings that are not there. -/
def misled : FileTree where
  nodes :=
    [(["work", "bad"], .directory),
     (["work", "bad", ".stylecheck.json"],
      .file (.text "\x7b\"extends\": [\"missing.json\"]\x7d"))]

/-- The settings in the root of a project. -/
def rootSettings (name : String) (root : Path) (flags : List String) :
    Except SettingsError Settings :=
  Settings.ofProject misled { name, root, flags } none

/-- A project with a text. -/
def spotted (text : String) : Project where
  name := "app"
  root := ⟨"app"⟩
  files := [.ofText ⟨"app/a.txt"⟩ text]

/-- A request to analyze a text. -/
def spotting (text : String) : Request where
  engine := mender
  sweep := Sweep.oneByOne
  files := misled
  switches := []
  processors := 1
  mode := { full := true }
  settingsPath := none
  projects := [spotted text]

/-- A project without files, in a root whose settings cannot be read. -/
def astray : Project where
  name := "lib"
  root := ⟨"bad"⟩

theorem isNew_astray : astray.IsNew := ⟨rfl, nofun⟩

theorem isNew_spotted (text : String) : (spotted text).IsNew := by
  refine ⟨rfl, ?_⟩
  intro f hf
  obtain rfl := List.mem_singleton.mp hf
  exact ⟨text, rfl⟩

theorem history_spotting (text : String) : Project.History Project.IsNew
    (Request.Consults rootSettings) ((spotting text).outcome.projects ++ []) := by
  refine .run (.build .start (isNew_spotted text)) Sweep.oneByOne_interleaves.interleaves ⟨?_, ?_⟩
  · intro p hp
    obtain rfl := List.mem_singleton.mp hp
    rfl
  · exact fun _ _ f _ => mender_isBuiltin.readsTexts f.path

theorem runWith_rebuilt_spotting :
    let ps := (spotting "a\tb\r\nc\n").outcome.projects
    let o := mender.runWith Sweep.oneByOne misled [] 1 {} none ps
    let o' := mender.runWith Sweep.oneByOne misled [] 4 {} none [spotted "a\tb\r\nc\r\n"]
    (ps.map fun p => p.files.map fun f => f.violations.map Violation.ruleId) = [[["Tab"]]] ∧
      o.result = o'.result ∧ Project.records o.projects = Project.records o'.projects ∧
      Project.texts o.projects = Project.texts o'.projects := by
  intro ps o o'
  have hs := Sweep.oneByOne_interleaves.interleaves
  have haccepts : mender.Accepts none := ⟨rfl, rfl⟩
  obtain ⟨hinfo, hsource, hfound, hread⟩ :
      ps.map Project.toProjectInfo = [(spotted "a\tb\r\nc\r\n").toProjectInfo] ∧
      Project.texts ps = Project.texts [spotted "a\tb\r\nc\r\n"] ∧
      (ps.map fun p => p.files.map fun f => f.violations.map Violation.ruleId) = [[["Tab"]]] ∧
      ∀ p ∈ ps, (rootSettings p.name p.root p.flags).isOk = true := by decide +kernel
  have hrebuilt : List.Forall₂ Project.RebuiltAs ps [spotted "a\tb\r\nc\r\n"] :=
    Project.forall₂_rebuiltAs (by simpa using isNew_spotted _) hinfo hsource
  obtain ⟨htexts, -, hiff⟩ := ((history_spotting "a\tb\r\nc\n").runWith_rebuilt_iff
    mender_isBuiltin rfl haccepts hs hs misled [] 1 4 {}).2 _ hrebuilt fun _ _ => rfl
  have hnone : ps.dropWhile (fun p => (rootSettings p.name p.root p.flags).isOk) = [] :=
    List.dropWhile_eq_nil_iff.mpr hread
  rw [hnone] at hiff
  obtain ⟨hresult, hrecords⟩ := hiff.mpr nofun
  exact ⟨hfound, hresult, hrecords, htexts⟩

/-- What was found in a used project is told again by a run that fails before it is reset. -/
theorem runWith_ne_rebuilt_astray :
    let ps := astray :: (spotting "a\tb\n").outcome.projects
    let ps' := [astray, spotted "a\tb\n"]
    Project.History Project.IsNew (Request.Consults rootSettings) ps ∧
    mender.registry.IsBuiltin ∧ mender.cache = none ∧
    List.Forall₂ Project.RebuiltAs ps ps' ∧
    (∀ p ∈ ps ++ ps', mender.environment.settingsFor misled p.toProjectInfo none =
      rootSettings p.name p.root p.flags) ∧
    ((mender.runWith Sweep.oneByOne misled [] 1 {} none ps).result.toOption.map fun s =>
      s.violations.map Violation.ruleId) = some ["Tab", "ExceptionOccurred"] ∧
    ((mender.runWith Sweep.oneByOne misled [] 1 {} none ps').result.toOption.map fun s =>
      s.violations.map Violation.ruleId) = some ["ExceptionOccurred"] := by
  intro ps ps'
  have hhistory := (history_spotting "a\tb\n").build isNew_astray
  rw [List.append_nil] at hhistory
  have hnew : ∀ p ∈ ps', p.IsNew := by
    simpa [ps'] using And.intro isNew_astray (isNew_spotted "a\tb\n")
  obtain ⟨hinfo, htexts⟩ : ps.map Project.toProjectInfo = ps'.map Project.toProjectInfo ∧
      Project.texts ps = Project.texts ps' := by decide +kernel
  exact ⟨hhistory, mender_isBuiltin, rfl, Project.forall₂_rebuiltAs hnew hinfo htexts,
    fun _ _ => rfl, by decide +kernel⟩

end Engine

end StyleEngine
