import StyleEngine.Proofs.Registry.Initialization
import StyleEngine.Proofs.Registry.Manifests
import StyleEngine.Proofs.Registry.Origins

/-! # What loading modules comes to

Loading walks through directories, reads the modules that it finds and registers what
they declare, and each of these steps can fail.  Taken in a row, the declarations of
all modules are what counts: for each id that is free, the first declaration of it
that can be built is registered (`Registry.successes`).  The report lists these and
everything that was skipped, in order (`Registry.LoadsAs`).

That holds for every registry with factories that build what is declared and never
run out of resources, such as those for text parsers and pattern analyzers
(`Registry.loadAll_first_success`).
-/
namespace StyleEngine

/-! ## What loading comes across -/

/-- One thing that loading comes across. -/
inductive LoadItem where
  /-- A location or a module that cannot be read, and why. -/
  | unusable (path : Path) (reason : String)
  /-- What a module declares; the host trusts the module or not. -/
  | declared (path : Path) (trusted : Bool) (spec : AddInSpec)

/-- One entry of a walk through directories. -/
inductive WalkEntry where
  | file (path : Path)
  | unreadable (location : Path) (reason : String)

/-- The entries of a walk at and below a path. -/
def FileTree.walk (t : FileTree) (path : Path) : List WalkEntry :=
  match t.filesBelow path with
  | .error e => [.unreadable path ("IO error for operation on " ++ path.text ++ ": " ++ e.message)]
  | .ok files => files.map .file

namespace LoadReport

@[simp] theorem append_empty (a : LoadReport) : a.append {} = a := by
  rw [append, List.append_nil, List.append_nil]

theorem append_assoc (a b c : LoadReport) : (a.append b).append c = a.append (b.append c) := by
  rw [append, append, append, append, List.append_assoc, List.append_assoc]

end LoadReport

namespace Loading

/-- A step that does nothing. -/
theorem andThen_idle (s : Loading) : s.andThen (fun r => { registry := r }) = s := by
  obtain ⟨r, events, result⟩ := s
  cases result with
  | error e => rfl
  | ok report => simp [andThen, Except.map]

theorem andThen_assoc (s : Loading) (f g : Registry → Loading) :
    (s.andThen f).andThen g = s.andThen fun r => (f r).andThen g := by
  obtain ⟨r, events, result⟩ := s
  cases result with
  | error e => rfl
  | ok report =>
    cases hf : (f r).result with
    | error e => simp [andThen, hf, Except.map]
    | ok first =>
      have hreports : (g (f r).registry).result.map (report.append first).append =
          ((g (f r).registry).result.map first.append).map report.append := by
        cases (g (f r).registry).result with
        | error e => rfl
        | ok second => exact congrArg Except.ok (report.append_assoc first second)
      simp only [andThen, hf, Except.map] at hreports ⊢
      simp only [List.append_assoc, hreports]

/-- A step that consists of steps. -/
theorem andThen_through {α : Type} {step : α → Registry → Loading} (s : Loading) (as : List α) :
    s.andThen (fun r => through step r as) = as.foldl (fun s a => s.andThen (step a)) s := by
  have hfold (f : Registry → Loading) :
      s.andThen (fun r => as.foldl (fun s a => s.andThen (step a)) (f r)) =
        as.foldl (fun s a => s.andThen (step a)) (s.andThen f) := by
    induction as generalizing f with
    | nil => rfl
    | cons a as ih => rw [List.foldl_cons, andThen_assoc, ← ih fun r => (f r).andThen (step a)]; rfl
  exact (hfold fun r => { registry := r }).trans (by rw [s.andThen_idle])

end Loading

namespace Registry

/-- What loading comes across in a module. -/
def moduleItems (t : FileTree) (hostKey : List UInt8) (path : Path) : List LoadItem :=
  match readManifest t path with
  | .error e => [.unusable path e.message]
  | .ok m => m.addins.map (.declared path (isTrustedKey m.key hostKey))

/-- What loading comes across at an entry of a walk. -/
def itemsAt (t : FileTree) (hostKey : List UInt8) : WalkEntry → List LoadItem
  | .unreadable location reason => [.unusable location reason]
  | .file path => if isModuleCandidate path then moduleItems t hostKey path else []

/-- Loads what there is at an entry of a walk. -/
def loadEntry (t : FileTree) (switches : Switches) (hostKey : List UInt8) :
    WalkEntry → Registry → Loading
  | .unreadable location reason, r => { registry := r, result := .ok (.skip location reason) }
  | .file path, r =>
    if isModuleCandidate path then r.loadFound t switches hostKey path else { registry := r }

/-- Loads what there is at the entries of a walk, which may fail at any of them. -/
def loadWalk (r : Registry) (t : FileTree) (switches : Switches) (hostKey : List UInt8)
    (entries : List WalkEntry) : Loading :=
  .through (loadEntry t switches hostKey) r entries

/-- Loading goes along the walk. -/
theorem loadAll_eq_loadWalk (r : Registry) (t : FileTree) (switches : Switches) (path : Path)
    (hostKey : List UInt8) :
    r.loadAll t switches path hostKey = r.loadWalk t switches hostKey (t.walk path) := by
  unfold loadAll loadWalk FileTree.walk
  cases t.filesBelow path with
  | error e => rfl
  | ok files =>
    have hentry (s : Loading) (file : Path) : s.andThen (loadEntry t switches hostKey (.file file)) =
        if isModuleCandidate file then s.andThen (loadFound t switches hostKey file) else s := by
      cases hcandidate : isModuleCandidate file with
      | true =>
        have hstep : loadEntry t switches hostKey (.file file) = loadFound t switches hostKey file :=
          funext fun r => if_pos hcandidate
        rw [hstep, if_pos rfl]
      | false =>
        have hstep : loadEntry t switches hostKey (.file file) = fun r => { registry := r } :=
          funext fun r => if_neg (Bool.eq_false_iff.mp hcandidate)
        rw [hstep, s.andThen_idle, if_neg Bool.false_ne_true]
    simp only [Loading.through, List.foldl_map, List.foldl_filter, hentry]

/-! ## What can be built -/

/-- Builds the add-in that a declaration asks for and configures it. -/
def build (r : Registry) (switches : Switches) (trusted : Bool) (spec : AddInSpec) :
    Reaction AddInError Registration :=
  match spec.kind with
  | .parser =>
    match r.parserFactories.lookup spec.factory with
    | none => .error (.unknownFactory spec.factory)
    | some make => (make spec switches).andThen fun p =>
      (p.profileFor spec.descriptors trusted switches).andThen fun f => .ok (.parser p f trusted)
  | .analyzer =>
    match r.analyzerFactories.lookup spec.factory with
    | none => .error (.unknownFactory spec.factory)
    | some make => (make spec switches).andThen fun a =>
      (a.profileFor spec.descriptors trusted switches).andThen fun f => .ok (.analyzer a f trusted)

/-- Whether the factories of a registry give add-ins the ids that are declared, and never run out
of resources. -/
structure BuildsAsDeclared (r : Registry) (switches : Switches) : Prop where
  parser : ∀ spec make p, r.parserFactories.lookup spec.factory = some make →
    (make spec switches).result = .ok p → p.id = spec.id
  analyzer : ∀ spec make a, r.analyzerFactories.lookup spec.factory = some make →
    (make spec switches).result = .ok a → a.id = spec.id
  safe : ∀ trusted spec e, (r.build switches trusted spec).result = .error e → e.isExhaustion = false

/-- Whether a registry builds text parsers and pattern analyzers, and nothing else. -/
structure HasBuiltinFactories (r : Registry) : Prop where
  parsers : ∀ name, r.parserFactories.lookup name = withBuiltins.parserFactories.lookup name
  analyzers : ∀ name, r.analyzerFactories.lookup name = withBuiltins.analyzerFactories.lookup name

variable {r : Registry} {switches : Switches}

/-- What is built has the id of its declaration and the trust of its module. -/
theorem BuildsAsDeclared.id_eq (h : r.BuildsAsDeclared switches) {trusted : Bool}
    {spec : AddInSpec} {x : Registration} (hx : (r.build switches trusted spec).result = .ok x) :
    x.id = spec.id ∧ x.trusted = trusted := by
  unfold build at hx
  split at hx
  · split at hx
    · cases hx
    · next make hmake =>
      obtain ⟨p, hp, hx⟩ := Reaction.andThen_eq_ok.mp hx
      obtain ⟨f, -, hx⟩ := Reaction.andThen_eq_ok.mp hx
      obtain rfl := Except.ok.inj hx
      exact ⟨h.parser spec make p hmake hp, rfl⟩
  · split at hx
    · cases hx
    · next make hmake =>
      obtain ⟨a, ha, hx⟩ := Reaction.andThen_eq_ok.mp hx
      obtain ⟨f, -, hx⟩ := Reaction.andThen_eq_ok.mp hx
      obtain rfl := Except.ok.inj hx
      exact ⟨h.analyzer spec make a hmake ha, rfl⟩

/-- A declaration with a free id comes to what is built for it. -/
theorem BuildsAsDeclared.result_declare (h : r.BuildsAsDeclared switches) (trusted : Bool)
    {spec : AddInSpec} (hid : r.contains spec.id = false) :
    (r.declare switches spec trusted).result =
      (r.build switches trusted spec).result.map fun x => (true, r.enrol x) := by
  rw [declare, hid, if_neg Bool.false_ne_true, build]
  cases spec.kind with
  | parser =>
    cases hmake : r.parserFactories.lookup spec.factory with
    | none => rfl
    | some make =>
      dsimp only
      rw [Reaction.result_andThen, Reaction.result_andThen]
      cases hp : (make spec switches).result with
      | error e => rfl
      | ok p =>
        have hfree : r.contains p.id = false := h.parser spec make p hmake hp ▸ hid
        show (r.registerParser switches p spec.descriptors trusted).result =
          Except.map _ (Reaction.andThen _ _).result
        rw [result_registerParser hfree, Reaction.result_andThen]
        cases (p.profileFor spec.descriptors trusted switches).result <;> rfl
  | analyzer =>
    cases hmake : r.analyzerFactories.lookup spec.factory with
    | none => rfl
    | some make =>
      dsimp only
      rw [Reaction.result_andThen, Reaction.result_andThen]
      cases ha : (make spec switches).result with
      | error e => rfl
      | ok a =>
        have hfree : r.contains a.id = false := h.analyzer spec make a hmake ha ▸ hid
        show (r.registerAnalyzer switches a spec.descriptors trusted).result =
          Except.map _ (Reaction.andThen _ _).result
        rw [result_registerAnalyzer hfree, Reaction.result_andThen]
        cases (a.profileFor spec.descriptors trusted switches).result <;> rfl

/-- **The built-in factories build what is declared and never run out of resources.** -/
theorem HasBuiltinFactories.buildsAsDeclared (h : r.HasBuiltinFactories) (switches : Switches) :
    r.BuildsAsDeclared switches where
  parser spec make p hmake hp := by
    rw [h.parsers] at hmake
    obtain rfl := IsEquipped.lookup_singleton hmake
    obtain rfl := Except.ok.inj hp
    rfl
  analyzer spec make a hmake ha := by
    rw [h.analyzers] at hmake
    obtain rfl := IsEquipped.lookup_singleton hmake
    obtain ⟨parserId, -, rfl⟩ := patternAnalyzerOf_eq_ok ha
    rfl
  safe trusted spec e he := by
    unfold build at he
    split at he
    · split at he
      · cases he
        rfl
      · next make hmake =>
        rw [h.parsers] at hmake
        obtain rfl := IsEquipped.lookup_singleton hmake
        -- a text parser can always be configured
        rcases Reaction.andThen_eq_error.mp he with hp | ⟨p, hp, he⟩
        · cases hp
        · obtain rfl := Except.ok.inj hp
          rcases Reaction.andThen_eq_error.mp he with hf | ⟨f, -, he⟩
          · rw [textParserOf, TextParser.profileFor_eq] at hf
            cases hf
          · cases he
    · split at he
      · cases he
        rfl
      · next make hmake =>
        rw [h.analyzers] at hmake
        obtain rfl := IsEquipped.lookup_singleton hmake
        -- a pattern analyzer needs a parser, and patterns that can be read
        rcases Reaction.andThen_eq_error.mp he with ha | ⟨a, ha, he⟩
        · have hof : patternAnalyzerOf spec = .error e := ha
          unfold patternAnalyzerOf at hof
          split at hof
          · cases hof
          · cases hof
            rfl
        · obtain ⟨parserId, -, rfl⟩ := patternAnalyzerOf_eq_ok ha
          rcases Reaction.andThen_eq_error.mp he with hf | ⟨f, -, he⟩
          · obtain ⟨message, rfl⟩ := PatternAnalyzer.exists_fault_of_findSome?
              (PatternAnalyzer.profileFor_eq_error_iff.mp hf)
            rfl
          · cases he

/-! ## What loading comes to -/

/-- Registers what is declared, or takes note of what cannot be used. -/
def loadItem (switches : Switches) : LoadItem → Registry → Loading
  | .unusable path reason, r => { registry := r, result := .ok (.skip path reason) }
  | .declared path trusted spec, r => r.loadSpec switches path trusted spec

/-- What can be built of something that loading comes across. -/
def built? (r : Registry) (switches : Switches) : LoadItem → Option Registration
  | .unusable .. => none
  | .declared _ trusted spec => (r.build switches trusted spec).result.toOption

/-- Of all that can be built, the first with each id that is free. -/
def successes (r : Registry) (switches : Switches) (items : List LoadItem) : List Registration :=
  firstsBy Registration.id r.contains (items.filterMap (r.built? switches))

/-- The entry in the report for something that is skipped, given all that came before.  A
declaration of an id that is taken is no failure. -/
def complaint? (r : Registry) (switches : Switches) (before : List LoadItem) :
    LoadItem → Option (Path × String)
  | .unusable path reason => some (path, reason)
  | .declared path trusted spec =>
    if r.contains spec.id || (r.successes switches before).any (·.id == spec.id) then none
    else match (r.build switches trusted spec).result with
      | .ok _ => none
      | .error e => some (path, e.message)

/-- The entries in the report for all that is skipped. -/
def complaints (r : Registry) (switches : Switches) (items : List LoadItem) :
    List (Path × String) :=
  items.zipIdx.filterMap fun item => r.complaint? switches (items.take item.2) item.1

/-- Whether loading comes to the first successes, and to an entry in the report for each failure
that counts. -/
structure LoadsAs (r : Registry) (switches : Switches) (items : List LoadItem) (s : Loading) :
    Prop where
  registry : s.registry = (r.successes switches items).foldl enrol r
  result : s.result = .ok
    { loaded := (r.successes switches items).map Registration.id
      skipped := r.complaints switches items }

/-- What is complained of is not up to what comes later. -/
theorem complaints_concat (r : Registry) (switches : Switches) (items : List LoadItem)
    (item : LoadItem) : r.complaints switches (items ++ [item]) =
      r.complaints switches items ++ (r.complaint? switches items item).toList := by
  have hearlier : items.zipIdx.map (fun x => r.complaint? switches ((items ++ [item]).take x.2) x.1) =
      items.zipIdx.map fun x => r.complaint? switches (items.take x.2) x.1 := by
    refine List.map_congr_left fun x hx => ?_
    have hlt := List.snd_lt_of_mem_zipIdx hx
    rw [List.take_append_of_le_length (by omega)]
  have hsame := congrArg (List.filterMap id) hearlier
  rw [List.filterMap_map, List.filterMap_map] at hsame
  unfold complaints
  rw [List.zipIdx_append, List.filterMap_append, List.zipIdx_singleton]
  refine congr (congrArg _ hsame) ?_
  simp only [Nat.zero_add, List.take_left, List.filterMap_cons, List.filterMap_nil]
  cases r.complaint? switches items item <;> rfl

theorem successes_concat (r : Registry) (switches : Switches) (items : List LoadItem)
    (item : LoadItem) : r.successes switches (items ++ [item]) =
      r.successes switches items ++ match r.built? switches item with
        | none => []
        | some x =>
          if r.contains x.id || (r.successes switches items).any (·.id == x.id) then [] else [x] := by
  unfold successes
  rw [List.filterMap_append, List.filterMap_cons, List.filterMap_nil]
  cases r.built? switches item with
  | none => simp only [List.append_nil]
  | some x => exact firstsBy_concat ..

theorem contains_enrol (x : Registration) (id : String) :
    (r.enrol x).contains id = (r.contains id || x.id == id) := by
  cases x with
  | parser p f t =>
    show (((r.parsers ++ [_]).find? _).isSome || (r.analyzerEntry? id).isSome) =
      ((r.parserEntry? id).isSome || (r.analyzerEntry? id).isSome || p.id == id)
    rw [List.find?_append, List.find?_singleton, Option.isSome_or, Bool.or_right_comm]
    cases p.id == id <;> rfl
  | analyzer a f t =>
    show ((r.parserEntry? id).isSome || ((r.analyzers ++ [_]).find? _).isSome) =
      ((r.parserEntry? id).isSome || (r.analyzerEntry? id).isSome || a.id == id)
    rw [List.find?_append, List.find?_singleton, Option.isSome_or, Bool.or_assoc]
    cases a.id == id <;> rfl

theorem contains_foldl_enrol (xs : List Registration) (id : String) :
    (xs.foldl enrol r).contains id = (r.contains id || xs.any (·.id == id)) := by
  induction xs generalizing r with
  | nil => exact (Bool.or_false _).symm
  | cons x xs ih => rw [List.foldl_cons, ih, contains_enrol, List.any_cons, Bool.or_assoc]

theorem factories_foldl_enrol (xs : List Registration) :
    (xs.foldl enrol r).parserFactories = r.parserFactories ∧
      (xs.foldl enrol r).analyzerFactories = r.analyzerFactories := by
  induction xs generalizing r with
  | nil => exact ⟨rfl, rfl⟩
  | cons x xs ih => cases x <;> exact ih

theorem build_foldl_enrol (xs : List Registration) : (xs.foldl enrol r).build = r.build := by
  obtain ⟨hparsers, hanalyzers⟩ := factories_foldl_enrol (r := r) xs
  funext switches trusted spec
  rw [build, hparsers, hanalyzers, build]

theorem BuildsAsDeclared.foldl_enrol (h : r.BuildsAsDeclared switches) (xs : List Registration) :
    (xs.foldl enrol r).BuildsAsDeclared switches := by
  obtain ⟨hparsers, hanalyzers⟩ := factories_foldl_enrol (r := r) xs
  refine ⟨hparsers ▸ h.parser, hanalyzers ▸ h.analyzer, ?_⟩
  rw [build_foldl_enrol]
  exact h.safe

/-! ### One declaration -/

section

variable (path : Path) {trusted : Bool} {spec : AddInSpec}

theorem loadSpec_of_known (hid : r.contains spec.id = true) :
    r.loadSpec switches path trusted spec = { registry := r } := by
  have hdeclare : r.declare switches spec trusted = .ok (false, r) := if_pos hid
  rw [loadSpec, hdeclare]
  rfl

theorem BuildsAsDeclared.loadSpec_of_ok (h : r.BuildsAsDeclared switches)
    (hid : r.contains spec.id = false) {x : Registration}
    (hx : (r.build switches trusted spec).result = .ok x) :
    (r.loadSpec switches path trusted spec).registry = r.enrol x ∧
      (r.loadSpec switches path trusted spec).result = .ok { loaded := [x.id] } := by
  have hdeclare := h.result_declare trusted hid
  rw [hx] at hdeclare
  unfold loadSpec
  simp only [hdeclare, Except.map, (h.id_eq hx).1, if_true, and_self]

theorem BuildsAsDeclared.loadSpec_of_error (h : r.BuildsAsDeclared switches)
    (hid : r.contains spec.id = false) {e : AddInError}
    (he : (r.build switches trusted spec).result = .error e) :
    (r.loadSpec switches path trusted spec).registry = r ∧
      (r.loadSpec switches path trusted spec).result = .ok (.skip path e.message) := by
  have hdeclare := h.result_declare trusted hid
  rw [he] at hdeclare
  unfold loadSpec
  simp only [hdeclare, Except.map, Loading.failed, h.safe trusted spec e he, Bool.false_eq_true,
    if_false, and_self]

end

namespace LoadsAs

variable {items : List LoadItem} {s : Loading}

theorem start (r : Registry) (switches : Switches) : r.LoadsAs switches [] { registry := r } :=
  ⟨rfl, rfl⟩

/-- A step that registers what is new among the successes and skips what there is to complain
of. -/
theorem extend (hs : r.LoadsAs switches items s) {item : LoadItem} {step : Registry → Loading}
    (new : List Registration) (hregistry : (step s.registry).registry = new.foldl enrol s.registry)
    (hresult : (step s.registry).result = .ok
      { loaded := new.map Registration.id, skipped := (r.complaint? switches items item).toList })
    (hnew : r.successes switches (items ++ [item]) = r.successes switches items ++ new) :
    r.LoadsAs switches (items ++ [item]) (s.andThen step) := by
  rw [Loading.andThen, hs.result]
  constructor
  · rw [hnew, List.foldl_append, ← hs.registry, hregistry]
  · rw [hnew, complaints_concat, List.map_append]
    show (step s.registry).result.map _ = _
    rw [hresult]
    rfl

/-- **One thing more that loading comes across.** -/
theorem step (h : r.BuildsAsDeclared switches) (hs : r.LoadsAs switches items s)
    (item : LoadItem) :
    r.LoadsAs switches (items ++ [item]) (s.andThen (loadItem switches item)) := by
  have hconcat := successes_concat r switches items item
  cases item with
  | unusable path reason => exact hs.extend [] rfl rfl hconcat
  | declared path trusted spec =>
    have hbuilds : s.registry.BuildsAsDeclared switches := by
      rw [hs.registry]
      exact h.foldl_enrol _
    have hbuild : s.registry.build = r.build := by
      rw [hs.registry, build_foldl_enrol]
    have hknown (id : String) : s.registry.contains id =
        (r.contains id || (r.successes switches items).any (·.id == id)) := by
      rw [hs.registry, contains_foldl_enrol]
    have hcomplaint : r.complaint? switches items (.declared path trusted spec) =
        if s.registry.contains spec.id then none
        else match (r.build switches trusted spec).result with
          | .ok _ => none
          | .error e => some (path, e.message) := by
      rw [hknown]
      rfl
    simp only [built?, ← hknown] at hconcat
    cases hid : s.registry.contains spec.id with
    | true =>
      rw [hid, if_pos rfl] at hcomplaint
      have hloaded : loadItem switches (.declared path trusted spec) s.registry =
          { registry := s.registry } := loadSpec_of_known path hid
      refine hs.extend [] (by rw [hloaded]; rfl) (by rw [hloaded, hcomplaint]; rfl) ?_
      rw [hconcat]
      cases hx : (r.build switches trusted spec).result with
      | error e => rfl
      | ok x =>
        simp only [Except.toOption, (h.id_eq hx).1, hid, if_true]
    | false =>
      rw [hid, if_neg Bool.false_ne_true] at hcomplaint
      cases hx : (r.build switches trusted spec).result with
      | error e =>
        rw [hx] at hconcat hcomplaint
        obtain ⟨hregistry, hresult⟩ := hbuilds.loadSpec_of_error path hid (hbuild ▸ hx)
        refine hs.extend [] hregistry ?_ hconcat
        rw [hcomplaint]
        exact hresult
      | ok x =>
        rw [hx] at hconcat hcomplaint
        obtain ⟨hregistry, hresult⟩ := hbuilds.loadSpec_of_ok path hid (hbuild ▸ hx)
        refine hs.extend [x] hregistry ?_ ?_
        · rw [hcomplaint]
          exact hresult
        · rw [hconcat]
          simp only [Except.toOption, (h.id_eq hx).1, hid, Bool.false_eq_true, if_false]

/-- Many things more. -/
theorem steps (h : r.BuildsAsDeclared switches) (hs : r.LoadsAs switches items s)
    (more : List LoadItem) : r.LoadsAs switches (items ++ more)
      (more.foldl (fun s item => s.andThen (loadItem switches item)) s) := by
  induction more generalizing items s with
  | nil =>
    rw [List.append_nil]
    exact hs
  | cons item more ih =>
    rw [List.append_cons]
    exact ih (hs.step h item)

end LoadsAs

/-! ### Modules and walks -/

theorem isExhaustion_of_readManifest {t : FileTree} {path : Path} {e : AddInError}
    (h : readManifest t path = .error e) : e.isExhaustion = false := by
  unfold readManifest at h
  split at h
  · cases h
    rfl
  · dsimp only at h
    split at h
    · cases h
      rfl
    · split at h
      · cases h
      · cases h
        rfl

variable {t : FileTree} {hostKey : List UInt8}

theorem BuildsAsDeclared.loadFound_eq (h : r.BuildsAsDeclared switches) (path : Path) :
    r.loadFound t switches hostKey path =
      .through (loadItem switches) r (moduleItems t hostKey path) := by
  cases hm : readManifest t path with
  | error e =>
    have hmodule : r.loadModule t switches path hostKey = { registry := r, result := .error e } := by
      rw [loadModule, hm]
    rw [loadFound, hmodule, moduleItems, hm]
    simp only [Loading.failed, isExhaustion_of_readManifest hm]
    rfl
  | ok m =>
    have hmodule : r.loadModule t switches path hostKey =
        .through (loadItem switches) r (moduleItems t hostKey path) := by
      rw [loadModule, moduleItems, hm]
      simp only [Loading.through, List.foldl_map]
      rfl
    have hresult := ((LoadsAs.start r switches).steps h (moduleItems t hostKey path)).result
    rw [loadFound, hmodule, Loading.through, hresult]

theorem BuildsAsDeclared.loadEntry_eq (h : r.BuildsAsDeclared switches) (e : WalkEntry) :
    loadEntry t switches hostKey e r = .through (loadItem switches) r (itemsAt t hostKey e) := by
  cases e with
  | unreadable location reason => rfl
  | file path =>
    by_cases hcandidate : isModuleCandidate path = true
    · rw [loadEntry, itemsAt, if_pos hcandidate, if_pos hcandidate]
      exact h.loadFound_eq path
    · rw [loadEntry, itemsAt, if_neg hcandidate, if_neg hcandidate]
      rfl

/-- **A walk comes to what loading comes across on it.** -/
theorem BuildsAsDeclared.loadWalk (h : r.BuildsAsDeclared switches) (entries : List WalkEntry) :
    r.LoadsAs switches (entries.flatMap (itemsAt t hostKey))
      (r.loadWalk t switches hostKey entries) := by
  have hwalk (items : List LoadItem) (s : Loading) (hs : r.LoadsAs switches items s) :
      r.LoadsAs switches (items ++ entries.flatMap (itemsAt t hostKey))
        (entries.foldl (fun s e => s.andThen (loadEntry t switches hostKey e)) s) := by
    induction entries generalizing items s with
    | nil =>
      rw [List.flatMap_nil, List.append_nil]
      exact hs
    | cons e entries ih =>
      have hbuilds : s.registry.BuildsAsDeclared switches := by
        rw [hs.registry]
        exact h.foldl_enrol _
      have hentry : s.andThen (loadEntry t switches hostKey e) =
          (itemsAt t hostKey e).foldl (fun s item => s.andThen (loadItem switches item)) s := by
        rw [← Loading.andThen_through, Loading.andThen, hs.result, hbuilds.loadEntry_eq e,
          Loading.andThen, hs.result]
      rw [List.flatMap_cons, ← List.append_assoc, List.foldl_cons, hentry]
      exact ih _ _ (hs.steps h (itemsAt t hostKey e))
  exact hwalk [] _ (.start r switches)

/-! ## First successes -/

theorem built?_eq_some_iff {item : LoadItem} {x : Registration} :
    r.built? switches item = some x ↔ ∃ path trusted spec, item = .declared path trusted spec ∧
      (r.build switches trusted spec).result = .ok x := by
  constructor
  · intro h
    cases item with
    | unusable path reason => cases h
    | declared path trusted spec =>
      cases hx : (r.build switches trusted spec).result with
      | error e =>
        rw [built?, hx] at h
        cases h
      | ok y =>
        rw [built?, hx] at h
        obtain rfl := Option.some.inj h
        exact ⟨path, trusted, spec, rfl, hx⟩
  · rintro ⟨path, trusted, spec, rfl, hx⟩
    rw [built?, hx]
    rfl

/-- **What is registered**: what is built for a declaration with a free id if no declaration of the
id that comes before can be built. -/
theorem BuildsAsDeclared.mem_successes_iff (h : r.BuildsAsDeclared switches)
    {items : List LoadItem} {x : Registration} :
    x ∈ r.successes switches items ↔ ∃ before path trusted spec after,
      items = before ++ .declared path trusted spec :: after ∧
      (r.build switches trusted spec).result = .ok x ∧ r.contains spec.id = false ∧
      ∀ path' trusted' spec', .declared path' trusted' spec' ∈ before → spec'.id = spec.id →
        ∀ y, (r.build switches trusted' spec').result ≠ .ok y := by
  rw [successes, mem_firstsBy_iff]
  constructor
  · rintro ⟨hfree, built, rest, hsplit, hfirst⟩
    obtain ⟨before, others, rfl, rfl, hothers⟩ := List.filterMap_eq_append_iff.mp hsplit
    obtain ⟨silent, item, after, rfl, hsilent, hitem, -⟩ := List.filterMap_eq_cons_iff.mp hothers
    obtain ⟨path, trusted, spec, rfl, hx⟩ := built?_eq_some_iff.mp hitem
    obtain ⟨hid, -⟩ := h.id_eq hx
    refine ⟨before ++ silent, path, trusted, spec, after, (List.append_assoc ..).symm, hx,
      hid ▸ hfree, fun path' trusted' spec' hmem heq y hy => ?_⟩
    have hbuilt : r.built? switches (.declared path' trusted' spec') = some y :=
      built?_eq_some_iff.mpr ⟨path', trusted', spec', rfl, hy⟩
    rcases List.mem_append.mp hmem with hmem | hmem
    · have hne := hfirst y (List.mem_filterMap.mpr ⟨_, hmem, hbuilt⟩)
      exact hne ((h.id_eq hy).1.trans (heq.trans hid.symm))
    · rw [hsilent _ hmem] at hbuilt
      cases hbuilt
  · rintro ⟨before, path, trusted, spec, after, rfl, hx, hfree, hfirst⟩
    obtain ⟨hid, -⟩ := h.id_eq hx
    refine ⟨hid ▸ hfree, before.filterMap (r.built? switches), after.filterMap (r.built? switches),
      ?_, fun y hy heq => ?_⟩
    · have hbuilt : r.built? switches (.declared path trusted spec) = some x :=
        built?_eq_some_iff.mpr ⟨path, trusted, spec, rfl, hx⟩
      rw [List.filterMap_append, List.filterMap_cons_some hbuilt]
    · obtain ⟨item, hmem, hitem⟩ := List.mem_filterMap.mp hy
      obtain ⟨path', trusted', spec', rfl, hy⟩ := built?_eq_some_iff.mp hitem
      exact hfirst path' trusted' spec' hmem ((h.id_eq hy).1.symm.trans (heq.trans hid)) y hy

/-- **Of modules, the first declaration of each id that can be built is registered.**  A registry
with the factories for text parsers and pattern analyzers may be given any tree of modules, and the
walk through it may fail anywhere.  In the order of the walk and of the modules, the declarations
that come to an add-in are those with a free id whose factory is there, whose configuration
succeeds, and before which no declaration of the id succeeds.  The report lists their ids, each
once, and next to them what is skipped: one entry for every location or module that cannot be read
and for every declaration that fails while its id is free.  A declaration that can be built leaves
its id registered whatever has failed before. -/
theorem loadAll_first_success (h : r.HasBuiltinFactories) (t : FileTree) (switches : Switches)
    (hostKey : List UInt8) :
    (∀ path, r.loadAll t switches path hostKey = r.loadWalk t switches hostKey (t.walk path)) ∧
    ∀ entries : List WalkEntry,
      let items := entries.flatMap (itemsAt t hostKey)
      let loaded := r.successes switches items
      let s := r.loadWalk t switches hostKey entries
      s.registry = loaded.foldl enrol r ∧
      s.result = .ok { loaded := loaded.map (·.id), skipped := r.complaints switches items } ∧
      (loaded.map (·.id)).Nodup ∧
      (∀ x, x ∈ loaded ↔ ∃ before path trusted spec after,
        items = before ++ .declared path trusted spec :: after ∧
        (r.build switches trusted spec).result = .ok x ∧ r.contains spec.id = false ∧
        ∀ path' trusted' spec', .declared path' trusted' spec' ∈ before → spec'.id = spec.id →
          ∀ y, (r.build switches trusted' spec').result ≠ .ok y) ∧
      ∀ path trusted spec x, .declared path trusted spec ∈ items →
        (r.build switches trusted spec).result = .ok x →
          x.id = spec.id ∧ x.trusted = trusted ∧ s.registry.contains spec.id = true := by
  have hbuilds := h.buildsAsDeclared switches
  refine ⟨fun path => loadAll_eq_loadWalk r t switches path hostKey, fun entries => ?_⟩
  intro items loaded s
  obtain ⟨hregistry, hresult⟩ := hbuilds.loadWalk (t := t) entries
  refine ⟨hregistry, hresult, nodup_firstsBy _ _ _, fun x => hbuilds.mem_successes_iff, ?_⟩
  intro path trusted spec x hmem hx
  obtain ⟨hid, htrust⟩ := hbuilds.id_eq hx
  refine ⟨hid, htrust, ?_⟩
  rw [hregistry, contains_foldl_enrol, Bool.or_eq_true, List.any_eq_true]
  cases hfree : r.contains spec.id with
  | true => exact .inl rfl
  | false =>
    have hbuilt : x ∈ items.filterMap (r.built? switches) :=
      List.mem_filterMap.mpr ⟨_, hmem, built?_eq_some_iff.mpr ⟨path, trusted, spec, rfl, hx⟩⟩
    obtain ⟨y, hy, hkey⟩ := exists_mem_firstsBy hbuilt (hid ▸ hfree)
    exact .inr ⟨y, hy, beq_iff_eq.mpr (hkey.trans hid)⟩

/-- A module that declares a parser three times, the first time with a factory that is not
there. -/
def parserModule : Manifest where
  name := "parsers"
  addins := [
    { id := "plain", kind := .parser, factory := "table" },
    { id := "plain", kind := .parser, factory := "text", extensions := ["txt"] },
    { id := "plain", kind := .parser, factory := "table" }]

def parserTree : FileTree where
  nodes := [(["work", "parsers.json"], .file (.text parserModule.toJson.compact))]

/-- The second declaration counts: the first one has failed, and the third one finds the id
taken. -/
theorem loadAll_first_success_parsers :
    withBuiltins.HasBuiltinFactories ∧
    (withBuiltins.loadWalk parserTree [] []
      [.unreadable ⟨"./locked"⟩ "Permission denied", .file ⟨"./parsers.json"⟩]).result = .ok
      { loaded := ["plain"]
        skipped := [(⟨"./locked"⟩, "Permission denied"),
          (⟨"./parsers.json"⟩, "Unknown add-in factory: table")] } := by
  have hbuiltin : withBuiltins.HasBuiltinFactories := ⟨fun _ => rfl, fun _ => rfl⟩
  obtain ⟨-, hwalk⟩ := loadAll_first_success hbuiltin parserTree [] []
  obtain ⟨-, hresult, -⟩ :=
    hwalk [.unreadable ⟨"./locked"⟩ "Permission denied", .file ⟨"./parsers.json"⟩]
  refine ⟨hbuiltin, hresult.trans ?_⟩
  have hread : readManifest parserTree ⟨"./parsers.json"⟩ = .ok parserModule := by
    refine readManifest_of_text rfl rfl fun spec hspec => ?_
    simp only [parserModule, List.mem_cons, List.not_mem_nil, or_false] at hspec
    rcases hspec with rfl | rfl | rfl <;> exact ⟨.nil, fun _ hd => nomatch hd⟩
  have hcandidate : isModuleCandidate ⟨"./parsers.json"⟩ = true := by decide +kernel
  have hmodule : itemsAt parserTree [] (.file ⟨"./parsers.json"⟩) =
      parserModule.addins.map (.declared ⟨"./parsers.json"⟩ false) := by
    rw [itemsAt, if_pos hcandidate, moduleItems, hread]
    rfl
  have hitems : [WalkEntry.unreadable ⟨"./locked"⟩ "Permission denied",
      .file ⟨"./parsers.json"⟩].flatMap (itemsAt parserTree []) =
      .unusable ⟨"./locked"⟩ "Permission denied" ::
        parserModule.addins.map (.declared ⟨"./parsers.json"⟩ false) := by
    rw [List.flatMap_cons, List.flatMap_singleton, hmodule]
    rfl
  rw [hitems]
  refine congrArg Except.ok (congr (congrArg LoadReport.mk ?_) ?_) <;> decide +kernel

end Registry

end StyleEngine
