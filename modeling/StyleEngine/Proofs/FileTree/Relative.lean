import StyleEngine.FileTree

/-! # Paths next to a file

A file can be reached by many paths: `loop.yaml`, `./loop.yaml` and
`../work/loop.yaml` may all lead to it.  What a path says beyond the location that
it leads to does not count: the name at its end is the name of the file, its
parent leads to the directory that the file lies in, and so a relative path
read from there leads to the same place whichever path the file was reached by
(`FileTree.Reaches.reaches_beside`).
-/
namespace StyleEngine

namespace Path

/-! ## Segments -/

theorem segmentsFrom_append (offset : Nat) (current cs ds : List Char) :
    segmentsFrom offset current (cs ++ '/' :: ds) =
      segmentsFrom offset current cs ++ segmentsFrom (offset + cs.length + 1) [] ds := by
  induction cs generalizing offset current with
  | nil => rfl
  | cons c cs ih =>
    have hoffset : offset + 1 + cs.length + 1 = offset + (c :: cs).length + 1 := by
      rw [List.length_cons, Nat.add_right_comm offset 1 cs.length, Nat.add_assoc offset]
    rw [List.cons_append, segmentsFrom, segmentsFrom, ih, ih, hoffset]
    split <;> rfl

theorem map_segmentsFrom (offset offset' : Nat) (current cs : List Char) :
    (segmentsFrom offset current cs).map Prod.fst =
      (segmentsFrom offset' current cs).map Prod.fst := by
  induction cs generalizing offset offset' current with
  | nil => rfl
  | cons c cs ih =>
    rw [segmentsFrom, segmentsFrom]
    split
    · rw [List.map_cons, List.map_cons, ih]
    · exact ih _ _ _

/-- A text cut behind one of its segments has the segments up to that one. -/
theorem segmentsFrom_take {before after : List (List Char × Nat)} {seg : List Char} {start : Nat}
    {offset : Nat} {current cs : List Char} (hcurrent : current.length ≤ offset)
    (h : segmentsFrom offset current cs = before ++ (seg, start) :: after) :
    offset ≤ start + seg.length ∧
      segmentsFrom offset current (cs.take (start + seg.length - offset)) =
        before ++ [(seg, start)] := by
  -- the segment that is being read ends where the rest of the text starts
  have hnow {offset : Nat} {current : List Char} (hcurrent : current.length ≤ offset)
      (hseg : (current.reverse, offset - current.length) = (seg, start)) :
      start + seg.length = offset := by
    obtain ⟨rfl, rfl⟩ := hseg
    rw [List.length_reverse, Nat.sub_add_cancel hcurrent]
  induction cs generalizing offset current before with
  | nil =>
    obtain ⟨rfl, hseg, -⟩ : before = [] ∧
        (current.reverse, offset - current.length) = (seg, start) ∧ [] = after := by
      cases before with
      | nil => exact ⟨rfl, List.cons.inj h⟩
      | cons x before => exact absurd (List.cons.inj h).2 (by simp)
    refine ⟨Nat.le_of_eq (hnow hcurrent hseg).symm, ?_⟩
    rw [List.take_nil, segmentsFrom, hseg, List.nil_append]
  | cons c cs ih =>
    rw [segmentsFrom] at h
    split at h
    · next hc =>
      cases before with
      | nil =>
        obtain ⟨hseg, -⟩ := List.cons.inj h
        refine ⟨Nat.le_of_eq (hnow hcurrent hseg).symm, ?_⟩
        rw [hnow hcurrent hseg, Nat.sub_self, List.take_zero, segmentsFrom, hseg, List.nil_append]
      | cons x before =>
        obtain ⟨rfl, hrest⟩ := List.cons.inj h
        obtain ⟨hle, htake⟩ := ih (Nat.zero_le _) hrest
        have hstep : start + seg.length - offset = start + seg.length - (offset + 1) + 1 := by
          omega
        refine ⟨Nat.le_of_succ_le hle, ?_⟩
        rw [hstep, List.take_succ_cons, segmentsFrom, if_pos hc, htake, List.cons_append]
    · next hc =>
      have hlength : (c :: current).length ≤ offset + 1 := Nat.succ_le_succ hcurrent
      obtain ⟨hle, htake⟩ := ih hlength h
      have hstep : start + seg.length - offset = start + seg.length - (offset + 1) + 1 := by
        omega
      refine ⟨Nat.le_of_succ_le hle, ?_⟩
      rw [hstep, List.take_succ_cons, segmentsFrom, if_neg hc, htake]

/-- The names between separators. -/
def segmentNames (p : Path) : List String := p.segments.map fun s => String.ofList s.1

theorem segmentNames_eq (p : Path) :
    p.segmentNames = ((segmentsFrom 0 [] p.text.toList).map Prod.fst).map String.ofList := by
  rw [segmentNames, List.map_map]
  rfl

/-- Where two texts meet at a separator, the names of the one come before those of the other. -/
theorem segmentNames_of_toList {p q : Path} {cs : List Char}
    (h : p.text.toList = cs ++ '/' :: q.text.toList) :
    p.segmentNames = (Path.mk (String.ofList cs)).segmentNames ++ q.segmentNames := by
  rw [segmentNames_eq, segmentNames_eq, segmentNames_eq, h, segmentsFrom_append, List.map_append,
    List.map_append, String.toList_ofList, map_segmentsFrom (0 + cs.length + 1) 0]

/-- The first segment starts where the text does. -/
theorem start_of_mem_head? {offset : Nat} {current cs : List Char} {s : List Char × Nat}
    (h : s ∈ (segmentsFrom offset current cs).head?) (hcurrent : current.length ≤ offset) :
    s.2 = offset - current.length := by
  induction cs generalizing offset current with
  | nil => exact (Option.some.inj h) ▸ rfl
  | cons c cs ih =>
    rw [segmentsFrom] at h
    split at h
    · exact (Option.some.inj h) ▸ rfl
    · rw [ih h (Nat.succ_le_succ hcurrent), List.length_cons, Nat.add_sub_add_right]

/-- A path cut behind one of its segments has the segments up to that one. -/
theorem segments_slice {p : Path} {before after : List (List Char × Nat)} {seg : List Char}
    {start : Nat} (h : p.segments = before ++ (seg, start) :: after) :
    (p.slice 0 (start + seg.length)).segments = before ++ [(seg, start)] := by
  obtain ⟨-, htake⟩ := segmentsFrom_take (Nat.zero_le _) h
  rw [segments, slice, String.toList_ofList, List.drop_zero]
  exact htake

theorem isAbsolute_eq (p : Path) : p.isAbsolute = (p.text.toList.head? == some '/') := by
  unfold isAbsolute
  split
  · next rest h => rw [h]; rfl
  · next h =>
    cases hcs : p.text.toList with
    | nil => rfl
    | cons c cs =>
      have hc : c ≠ '/' := by
        rintro rfl
        exact h cs hcs
      exact (beq_eq_false_iff_ne.mpr fun heq => hc (Option.some.inj heq)).symm

/-- A path that starts like another one is absolute where that is. -/
theorem isAbsolute_of_isPrefix {p q : Path} (h : p.text.toList <+: q.text.toList)
    (hp : p.text ≠ "") : q.isAbsolute = p.isAbsolute := by
  obtain ⟨rest, hrest⟩ := h
  rw [isAbsolute_eq, isAbsolute_eq, ← hrest]
  cases hcs : p.text.toList with
  | nil => exact absurd (String.toList_eq_nil_iff.mp hcs) hp
  | cons c cs => rfl

/-! ## The last name -/

/-- Whether a segment leaves its location as it is. -/
def IsBlank (s : List Char) : Prop := s = [] ∨ s = ['.']

/-- Whether a segment is a name. -/
def IsName (s : List Char) : Prop := ¬IsBlank s ∧ s ≠ ['.', '.']

theorem placed?_eq_none {s : List Char × Nat} : placed? s = none ↔ IsBlank s.1 := by
  fun_cases placed? s with
  | case1 => exact iff_of_true rfl (.inl rfl)
  | case2 => exact iff_of_true rfl (.inr rfl)
  | case3 => exact iff_of_false (by simp) (by simp [IsBlank])
  | case4 cs start hnil hdot => exact iff_of_false (by simp) (not_or_intro hnil hdot)

theorem placed?_of_isName {s : List Char × Nat} (h : IsName s.1) :
    placed? s = some ⟨.name (String.ofList s.1), s.2, s.2 + s.1.length⟩ := by
  fun_cases placed? s with
  | case1 => exact absurd (.inl rfl) h.1
  | case2 => exact absurd (.inr rfl) h.1
  | case3 => exact absurd rfl h.2
  | case4 => rfl

/-- A component ends where its segment does. -/
theorem stop_of_placed? {s : List Char × Nat} {c : Placed} (h : placed? s = some c) :
    c.stop = s.2 + s.1.length := by
  unfold placed? at h
  split at h <;> cases h <;> rfl

/-- What a path starts with: the root, a `.` or neither. -/
def lead (p : Path) : List Placed :=
  if ∃ s ∈ p.segments.head?, s.1 = ['.'] then [⟨.here, 0, 1⟩]
  else if p.isAbsolute then [⟨.root, 0, 1⟩] else []

theorem placed_eq (p : Path) : p.placed = p.lead ++ p.segments.filterMap placed? := by
  unfold placed lead
  split
  · next start rest hsegments =>
    rw [hsegments, if_pos ⟨_, rfl, rfl⟩]
    rfl
  · next hhere =>
    have hnone : ¬∃ s ∈ p.segments.head?, s.1 = ['.'] := by
      rintro ⟨⟨cs, start⟩, hs, rfl⟩
      obtain ⟨rest, hrest⟩ := List.head?_eq_some_iff.mp hs
      exact hhere start rest hrest
    rw [if_neg hnone]
    split <;> rfl

/-- The components of a path whose last segment is a name. -/
theorem placed_of_isName {p : Path} {before : List (List Char × Nat)} {s : List Char × Nat}
    (h : p.segments = before ++ [s]) (hs : IsName s.1) :
    p.placed = p.lead ++ before.filterMap placed? ++
      [⟨.name (String.ofList s.1), s.2, s.2 + s.1.length⟩] := by
  rw [placed_eq, h, List.filterMap_append, List.filterMap_cons_some (placed?_of_isName hs),
    List.filterMap_nil, List.append_assoc]

/-- The extension is read off the last segment. -/
theorem extension?_of_isName {p : Path} {before : List (List Char × Nat)} {s : List Char × Nat}
    (h : p.segments = before ++ [s]) (hs : IsName s.1) :
    p.extension? = (splitName s.1).2.map String.ofList := by
  have hlast : p.lastName? = some s := by
    unfold lastName?
    rw [placed_of_isName h hs, List.getLast?_concat]
    exact congrArg (fun cs => some (cs, s.2)) (String.toList_ofList)
  rw [extension?, hlast]
  rfl

/-- The parent ends where the component before the last does. -/
theorem parent?_of_isName {p : Path} {before : List (List Char × Nat)} {s : List Char × Nat}
    (h : p.segments = before ++ [s]) (hs : IsName s.1) :
    p.parent? = some (match (p.lead ++ before.filterMap placed?).getLast? with
      | none => ⟨""⟩
      | some c => p.slice 0 c.stop) := by
  unfold parent?
  rw [placed_of_isName h hs, List.reverse_concat, List.getLast?_eq_head?_reverse]
  cases (p.lead ++ before.filterMap placed?).reverse with
  | nil => rfl
  | cons c rest => rfl

end Path

namespace FileTree

open StyleEngine.Path

variable {t : FileTree} {p q : Path} {l d : Location}

/-! ## Following segments -/

/-- The location that one segment leads to from a directory. -/
def beside (l : Location) (s : String) : Location :=
  if s = "" ∨ s = "." then l else if s = ".." then l.dropLast else l ++ [s]

theorem follow_cons_eq_ok {s : String} {rest : List String} :
    t.follow l (s :: rest) = .ok d ↔
      t.node? l = some .directory ∧ t.follow (beside l s) rest = .ok d := by
  rw [follow, beside]
  cases t.node? l with
  | none => simp
  | some n =>
    cases n with
    | file c => simp
    | directory => simp only [true_and, apply_ite (t.follow · rest)]

theorem follow_append_eq_ok {names rest : List String} :
    t.follow l (names ++ rest) = .ok d ↔
      ∃ k, t.follow l names = .ok k ∧ t.follow k rest = .ok d := by
  induction names generalizing l with
  | nil =>
    constructor
    · intro h
      exact ⟨l, rfl, h⟩
    · rintro ⟨k, hk, h⟩
      obtain rfl := Except.ok.inj hk
      exact h
  | cons s names ih =>
    rw [List.cons_append, follow_cons_eq_ok, ih]
    constructor
    · rintro ⟨hdir, k, hk, h⟩
      exact ⟨k, follow_cons_eq_ok.mpr ⟨hdir, hk⟩, h⟩
    · rintro ⟨k, hk, h⟩
      obtain ⟨hdir, hk⟩ := follow_cons_eq_ok.mp hk
      exact ⟨hdir, k, hk, h⟩

theorem beside_of_isBlank {s : List Char} (h : IsBlank s) : beside l (String.ofList s) = l := by
  refine if_pos ?_
  rcases h with rfl | rfl
  · exact .inl rfl
  · exact .inr rfl

theorem beside_of_isName {s : List Char} (h : IsName s) :
    beside l (String.ofList s) = l ++ [String.ofList s] := by
  have hnot (cs : List Char) (hne : s ≠ cs) : String.ofList s ≠ String.ofList cs :=
    fun heq => hne (String.ofList_injective heq)
  have hblank : ¬(String.ofList s = "" ∨ String.ofList s = ".") :=
    not_or_intro (hnot [] fun heq => h.1 (.inl heq)) (hnot ['.'] fun heq => h.1 (.inr heq))
  exact (if_neg hblank).trans (if_neg (hnot ['.', '.'] h.2))

/-- Segments that leave their location as it is lead nowhere else. -/
theorem follow_of_isBlank {segments : List (List Char × Nat)}
    (hblank : ∀ s ∈ segments, IsBlank s.1)
    (h : t.follow l (segments.map fun s => String.ofList s.1) = .ok d) : l = d := by
  induction segments with
  | nil => exact Except.ok.inj h
  | cons s segments ih =>
    rw [List.map_cons, follow_cons_eq_ok, beside_of_isBlank (hblank s List.mem_cons_self)] at h
    exact ih (fun s hs => hblank s (List.mem_cons_of_mem _ hs)) h.2

/-- Whether everything above a location is a directory. -/
def IsUnderDirectories (t : FileTree) (l : Location) : Prop :=
  ∀ k, k <+: l → k ≠ l → t.node? k = some .directory

theorem node?_of_isPrefix_workingDirectory (h : l <+: t.workingDirectory) :
    t.node? l = some .directory :=
  if_pos (List.isPrefixOf_iff_prefix.mpr h)

theorem IsUnderDirectories.of_isPrefix (h : t.IsUnderDirectories l) (hd : d <+: l) :
    t.IsUnderDirectories d := by
  intro k hk hne
  refine h k (hk.trans hd) ?_
  rintro rfl
  exact hne (hk.eq_of_length (Nat.le_antisymm hk.length_le hd.length_le))

/-- What can be entered from a directory lies under directories. -/
theorem IsUnderDirectories.beside (h : t.IsUnderDirectories l)
    (hl : t.node? l = some .directory) (s : String) : t.IsUnderDirectories (beside l s) := by
  unfold FileTree.beside
  split
  · exact h
  · split
    · exact h.of_isPrefix (List.dropLast_prefix l)
    · intro k hk hne
      rcases List.prefix_concat_iff.mp hk with rfl | hk
      · exact absurd rfl hne
      · by_cases heq : k = l
        · rw [heq, hl]
        · exact h k hk heq

theorem IsUnderDirectories.follow {names : List String} (h : t.IsUnderDirectories l)
    (hd : t.follow l names = .ok d) : t.IsUnderDirectories d := by
  induction names generalizing l with
  | nil => exact Except.ok.inj hd ▸ h
  | cons s names ih =>
    obtain ⟨hl, hd⟩ := follow_cons_eq_ok.mp hd
    exact ih (h.beside hl s) hd

/-! ## The end of a path -/

/-- Where a path is read from. -/
def start (t : FileTree) (p : Path) : Location := if p.isAbsolute then [] else t.workingDirectory

theorem resolve_eq_ok : t.resolve p = .ok l ↔
    p.text ≠ "" ∧ t.follow (t.start p) p.segmentNames = .ok l := by
  unfold resolve
  split
  · next hempty => simp [String.isEmpty_iff.mp hempty]
  · next hempty =>
    rw [String.isEmpty_iff] at hempty
    exact (and_iff_right hempty).symm

theorem start_isPrefix : t.start p <+: t.workingDirectory := by
  unfold start
  split
  · exact List.nil_prefix
  · exact List.prefix_rfl

theorem node?_start : t.node? (t.start p) = some .directory :=
  node?_of_isPrefix_workingDirectory start_isPrefix

theorem isUnderDirectories_start : t.IsUnderDirectories (t.start p) := fun _ hk _ =>
  node?_of_isPrefix_workingDirectory (hk.trans start_isPrefix)

/-- **A path to a file ends with the file's name, behind a way to the directory of the file.** -/
theorem exists_name_of_resolve {c : Content} (hl : t.resolve p = .ok l)
    (hfile : t.node? l = some (.file c)) : ∃ before s d, p.segments = before ++ [s] ∧
      IsName s.1 ∧ t.follow (t.start p) (before.map fun s => String.ofList s.1) = .ok d ∧
      l = d ++ [String.ofList s.1] := by
  obtain ⟨-, hfollow⟩ := resolve_eq_ok.mp hl
  have hdirectory : t.node? l ≠ some .directory := by
    rw [hfile]
    rintro ⟨⟩
  rcases List.eq_nil_or_concat p.segments with hnil | ⟨before, s, hsegments⟩
  · rw [segmentNames, hnil] at hfollow
    obtain rfl := Except.ok.inj hfollow
    exact absurd node?_start hdirectory
  · rw [List.concat_eq_append] at hsegments
    rw [segmentNames, hsegments, List.map_append] at hfollow
    obtain ⟨d, hd, hlast⟩ := follow_append_eq_ok.mp hfollow
    obtain ⟨hdir, hlast⟩ := follow_cons_eq_ok.mp hlast
    obtain rfl : beside d (String.ofList s.1) = l := Except.ok.inj hlast
    have hname : IsName s.1 := by
      constructor
      · intro hblank
        rw [beside_of_isBlank hblank] at hdirectory
        exact hdirectory hdir
      · -- what lies above a directory is a directory
        intro hup
        rw [hup] at hdirectory
        refine hdirectory ?_
        by_cases heq : d.dropLast = d
        · exact (congrArg t.node? heq).trans hdir
        · exact isUnderDirectories_start.follow hd _ (List.dropLast_prefix d) heq
    exact ⟨before, s, d, hsegments, hname, hd, beside_of_isName hname⟩

/-! ## Paths next to a file -/

theorem start_of_isPrefix (h : p.text.toList <+: q.text.toList) (hp : p.text ≠ "") :
    t.start q = t.start p := by
  unfold start
  rw [isAbsolute_of_isPrefix h hp]

/-- A path cut behind one of its segments leads where its segments up to that one do. -/
theorem resolve_slice {before after : List (List Char × Nat)} {s : List Char × Nat}
    (h : p.segments = before ++ s :: after) (hs : s.1 ≠ [])
    (hd : t.follow (t.start p) ((before ++ [s]).map fun s => String.ofList s.1) = .ok d) :
    t.resolve (p.slice 0 (s.2 + s.1.length)) = .ok d := by
  have hsegments := segments_slice h
  have hne : (p.slice 0 (s.2 + s.1.length)).text ≠ "" := by
    intro hempty
    rw [segments, hempty] at hsegments
    cases before with
    | nil => exact hs (congrArg Prod.fst (List.cons.inj hsegments).1).symm
    | cons x before => exact absurd (List.cons.inj hsegments).2 (by simp)
  have hprefix : (p.slice 0 (s.2 + s.1.length)).text.toList <+: p.text.toList := by
    rw [slice, String.toList_ofList, List.drop_zero]
    exact List.take_prefix _ _
  rw [resolve_eq_ok, segmentNames, hsegments, ← start_of_isPrefix hprefix hne]
  exact ⟨hne, hd⟩

/-- What is read behind a separator is read from where the text before it leads to. -/
theorem resolve_of_toList {r : Path} {cs : List Char}
    (h : r.text.toList = cs ++ '/' :: q.text.toList)
    (hd : t.follow (t.start r) (Path.mk (String.ofList cs)).segmentNames = .ok d) :
    t.resolve r = .ok l ↔ t.follow d q.segmentNames = .ok l := by
  have hne : r.text ≠ "" := by
    intro hempty
    rw [hempty] at h
    exact absurd h.symm (by simp)
  rw [resolve_eq_ok, segmentNames_of_toList h, follow_append_eq_ok]
  constructor
  · rintro ⟨-, k, hk, hl⟩
    obtain rfl := Except.ok.inj (hk.symm.trans hd)
    exact hl
  · intro hl
    exact ⟨hne, d, hd, hl⟩

/-- **A relative path that is read from another one leads where it does from the location of that
one.** -/
theorem resolve_join (hp : t.resolve p = .ok d) (hq : q.isAbsolute = false) :
    t.resolve (p.join q) = .ok l ↔ t.follow d q.segmentNames = .ok l := by
  obtain ⟨hne, hd⟩ := resolve_eq_ok.mp hp
  unfold join
  rw [if_neg (by simp [hq]), if_neg (mt String.isEmpty_iff.mp hne)]
  split
  · next hlast =>
    obtain ⟨cs, hcs⟩ := List.getLast?_eq_some_iff.mp hlast
    have htext : (p.text ++ q.text).toList = cs ++ '/' :: q.text.toList := by
      rw [String.toList_append, hcs, List.append_assoc, List.singleton_append]
    have hprefix : p.text.toList <+: (Path.mk (p.text ++ q.text)).text.toList :=
      ⟨_, String.toList_append.symm⟩
    refine resolve_of_toList htext ?_
    -- behind the separator at its end the path has one more segment, which is empty
    rw [segmentNames_of_toList (q := ⟨""⟩) hcs, follow_append_eq_ok] at hd
    obtain ⟨k, hk, hblank⟩ := hd
    have hempty : ∀ s ∈ [(([] : List Char), 0)], IsBlank s.1 := by simp [IsBlank]
    obtain rfl : k = d := follow_of_isBlank hempty hblank
    rw [start_of_isPrefix hprefix hne, hk]
  · have htext : (p.text ++ "/" ++ q.text).toList = p.text.toList ++ '/' :: q.text.toList := by
      rw [String.toList_append, String.toList_append, List.append_assoc]
      rfl
    have hprefix : p.text.toList <+: (Path.mk (p.text ++ "/" ++ q.text)).text.toList :=
      ⟨_, htext.symm⟩
    refine resolve_of_toList htext ?_
    rw [start_of_isPrefix hprefix hne, String.ofList_toList, hd]

/-- What a path starts with leads to where the path is read from. -/
theorem resolve_lead (t : FileTree) (p : Path) :
    p.lead = [] ∧ t.start p = t.workingDirectory ∨
      ∃ c, p.lead = [c] ∧ t.resolve (p.slice 0 c.stop) = .ok (t.start p) := by
  by_cases hhere : ∃ s ∈ p.segments.head?, s.1 = ['.']
  · refine .inr ⟨_, if_pos hhere, ?_⟩
    obtain ⟨s, hhead, hdot⟩ := hhere
    obtain ⟨rest, hrest⟩ := List.head?_eq_some_iff.mp hhead
    have hfirst : p.segments = [] ++ s :: rest := hrest
    have hstop : s.2 + s.1.length = 1 := by
      rw [start_of_mem_head? hhead (Nat.zero_le _), hdot]
      rfl
    have hne : s.1 ≠ [] := by
      rw [hdot]
      exact List.cons_ne_nil _ _
    have hstay : t.follow (t.start p) [String.ofList s.1] = .ok (t.start p) := by
      rw [follow_cons_eq_ok, beside_of_isBlank (.inr hdot)]
      exact ⟨node?_start, rfl⟩
    have hslice := resolve_slice hfirst hne hstay
    rw [hstop] at hslice
    exact hslice
  · by_cases hroot : p.isAbsolute = true
    · refine .inr ⟨_, (if_neg hhere).trans (if_pos hroot), ?_⟩
      have htext : p.slice 0 1 = ⟨"/"⟩ := by
        rw [isAbsolute_eq, beq_iff_eq] at hroot
        obtain ⟨cs, hcs⟩ := List.head?_eq_some_iff.mp hroot
        rw [slice, hcs]
        rfl
      have hdir : t.node? [] = some .directory := node?_of_isPrefix_workingDirectory List.nil_prefix
      have hblank : t.follow [] ["", ""] = .ok [] :=
        follow_cons_eq_ok.mpr ⟨hdir, follow_cons_eq_ok.mpr ⟨hdir, rfl⟩⟩
      show t.resolve (p.slice 0 1) = _
      rw [htext, start, if_pos hroot, resolve_eq_ok]
      exact ⟨by decide, hblank⟩
    · exact .inl ⟨(if_neg hhere).trans (if_neg hroot), if_neg hroot⟩

/-- The parent of a path to a file leads to the directory that the file lies in, unless the path
is the name of a file in the working directory, and then it is empty. -/
theorem exists_parent? {c : Content} (hl : t.resolve p = .ok l)
    (hfile : t.node? l = some (.file c)) : ∃ above, p.parent? = some above ∧
      (above.text = "" ∧ l.dropLast = t.workingDirectory ∨ t.resolve above = .ok l.dropLast) := by
  obtain ⟨before, s, d, hsegments, hname, hd, rfl⟩ := exists_name_of_resolve hl hfile
  rw [List.dropLast_concat]
  refine ⟨_, parent?_of_isName hsegments hname, ?_⟩
  rcases List.eq_nil_or_concat (before.filterMap placed?) with hnone | ⟨init, c', hlast⟩
  · have hblank : ∀ s ∈ before, IsBlank s.1 := fun s hs =>
      placed?_eq_none.mp (List.filterMap_eq_nil_iff.mp hnone s hs)
    obtain rfl : t.start p = d := follow_of_isBlank hblank hd
    rw [hnone, List.append_nil]
    rcases resolve_lead t p with ⟨hlead, hstart⟩ | ⟨c, hlead, hresolve⟩
    · rw [hlead]
      exact .inl ⟨rfl, hstart⟩
    · rw [hlead]
      exact .inr hresolve
  · rw [List.concat_eq_append] at hlast
    rw [hlast, ← List.append_assoc, List.getLast?_concat]
    obtain ⟨front, back, rfl, -, hback⟩ := List.filterMap_eq_append_iff.mp hlast
    obtain ⟨blanks, s', after, rfl, -, hs', hafter⟩ := List.filterMap_eq_cons_iff.mp hback
    have hbefore : front ++ (blanks ++ s' :: after) = (front ++ blanks ++ [s']) ++ after := by
      simp
    rw [hbefore, List.map_append, follow_append_eq_ok] at hd
    obtain ⟨k, hk, hblank⟩ := hd
    obtain rfl : k = d := follow_of_isBlank
      (fun s hs => placed?_eq_none.mp (List.filterMap_eq_nil_iff.mp hafter s hs)) hblank
    have hne : s'.1 ≠ [] := by
      intro hempty
      rw [placed?_eq_none.mpr (.inl hempty)] at hs'
      cases hs'
    rw [hbefore, List.append_assoc, List.append_assoc, List.singleton_append] at hsegments
    refine .inr ?_
    show t.resolve (p.slice 0 c'.stop) = .ok k
    rw [stop_of_placed? hs']
    exact resolve_slice hsegments hne hk

/-- Whether a path leads to a file at a location. -/
structure Reaches (t : FileTree) (p : Path) (l : Location) : Prop where
  resolve : t.resolve p = .ok l
  file : ∃ c, t.node? l = some (.file c)

theorem reaches_of_readText {s : String} (h : t.readText p = .ok s) : ∃ l, t.Reaches p l := by
  cases hl : t.resolve p with
  | error e => simp [readText, read, find, hl] at h
  | ok l =>
    refine ⟨l, hl, ?_⟩
    cases hn : t.node? l with
    | none => simp [readText, read, find, hl, hn] at h
    | some n =>
      cases n with
      | directory => simp [readText, read, find, hl, hn] at h
      | file c => exact ⟨c, rfl⟩

theorem Reaches.readText_eq (hp : t.Reaches p l) (hq : t.Reaches q l) :
    t.readText p = t.readText q := by
  unfold readText read find
  rw [hp.resolve, hq.resolve]

/-- **The extension of a path to a file is that of the file.** -/
theorem Reaches.extension?_eq (hp : t.Reaches p l) (hq : t.Reaches q l) :
    p.extension? = q.extension? := by
  obtain ⟨c, hfile⟩ := hp.file
  obtain ⟨before, s, d, hsegments, hname, -, hd⟩ := exists_name_of_resolve hp.resolve hfile
  obtain ⟨before', s', d', hsegments', hname', -, hd'⟩ := exists_name_of_resolve hq.resolve hfile
  have hlast : [String.ofList s.1] = [String.ofList s'.1] :=
    List.append_inj_right' (hd.symm.trans hd') rfl
  rw [extension?_of_isName hsegments hname, extension?_of_isName hsegments' hname',
    String.ofList_injective (List.cons.inj hlast).1]

/-- **A relative path that is read from the parent of a file leads where it does from the directory
that the file lies in**, by whichever path the file was reached. -/
theorem Reaches.reaches_beside (hp : t.Reaches p l) (hq : q.isAbsolute = false) (m : Location) :
    t.Reaches ((p.parent?.getD ⟨"."⟩).join q) m ↔
      t.follow l.dropLast q.segmentNames = .ok m ∧ ∃ c, t.node? m = some (.file c) := by
  obtain ⟨c, hfile⟩ := hp.file
  obtain ⟨above, habove, ⟨hempty, hwork⟩ | hresolve⟩ := exists_parent? hp.resolve hfile
  · have hjoin : above.join q = q := by
      unfold join
      rw [if_neg (by simp [hq]), if_pos (String.isEmpty_iff.mpr hempty)]
    have hstart : t.start q = l.dropLast := by
      rw [start, if_neg (by simp [hq]), hwork]
    rw [habove, Option.getD_some, hjoin, ← hstart]
    constructor
    · rintro ⟨hm, hc⟩
      exact ⟨(resolve_eq_ok.mp hm).2, hc⟩
    · rintro ⟨hfollow, c', hc⟩
      have hne : q.text ≠ "" := by
        -- the empty text would stay in the directory
        intro hq'
        obtain rfl : q = ⟨""⟩ := congrArg Path.mk hq'
        obtain ⟨hdir, hm⟩ := follow_cons_eq_ok.mp hfollow
        obtain rfl := Except.ok.inj hm
        cases hc.symm.trans hdir
      exact ⟨resolve_eq_ok.mpr ⟨hne, hfollow⟩, c', hc⟩
  · rw [habove, Option.getD_some]
    constructor
    · rintro ⟨hm, hc⟩
      exact ⟨(resolve_join hresolve hq).mp hm, hc⟩
    · rintro ⟨hfollow, hc⟩
      exact ⟨(resolve_join hresolve hq).mpr hfollow, hc⟩

end FileTree

end StyleEngine
