import StyleEngine.Proofs.Pattern.Search

/-! # Matchers

The instructions that an expression is laid out as lead through its outcomes in their order
(`laysOut_layout`): a branch at the first of them runs as branches behind the expression do,
one for each outcome.  Together with what is known of the search this says what a matcher
finds (`find?_eq_outcomes`): a match from the leftmost place there is one from, and of those
the one that is preferred.
-/
namespace StyleEngine

namespace Pattern

/-- A branch at an instruction, where a match has come to. -/
def Cursor.branch (inst : Nat) (x : Cursor) : Branch := ⟨inst, x.place, x.slots⟩

variable {code laid laid' : Array Inst} {text : Array Char} {as bs : List Branch} {b : Branch}
  {r : Option Slots} {s : Slots} {inst mid next : Nat} {x : Cursor} {ys zs : List Cursor}
  {step more : Cursor → List Cursor}

/-! ## Runs behind one another -/

theorem Leads.cons_of_none (h : Leads code text [b] none) (hbs : Leads code text bs r) :
    Leads code text (b :: bs) r := by
  obtain ⟨n, hn⟩ := h
  obtain ⟨m, hm⟩ := hbs
  exact ⟨n + m, hn.append_of_none hm⟩

theorem Leads.cons_of_some (h : Leads code text [b] (some s)) (bs : List Branch) :
    Leads code text (b :: bs) (some s) := by
  obtain ⟨n, hn⟩ := h
  exact ⟨n, hn.append_of_some bs⟩

/-- Of some branches and others behind them, either the first ones lead to acceptance or the
others count. -/
theorem Leads.append_cases (h : Leads code text (as ++ bs) r) :
    (∃ s, r = some s ∧ Leads code text as (some s)) ∨
      Leads code text as none ∧ Leads code text bs r := by
  obtain ⟨n, hn⟩ := h
  induction as generalizing n with
  | nil => exact .inr ⟨⟨0, .exhausted⟩, n, hn⟩
  | cons a as ih =>
    cases hn with
    | accept _ _ s hacc => exact .inl ⟨s, rfl, 0, .accept a as s hacc⟩
    | descend n _ _ s hacc hnext => exact .inl ⟨s, rfl, n + 1, .descend n a as s hacc hnext⟩
    | backtrack n m _ _ _ hacc hnext hrest =>
      rcases ih m hrest with ⟨s, rfl, k, hk⟩ | ⟨⟨k, hk⟩, hbs⟩
      · exact .inl ⟨s, rfl, n + k + 1, .backtrack n k a as (some s) hacc hnext hk⟩
      · exact .inr ⟨⟨n + k + 1, .backtrack n k a as none hacc hnext hk⟩, hbs⟩

theorem Leads.of_next (hacc : b.accepted? code = none)
    (h : Leads code text (b.next code text) r) : Leads code text [b] r := by
  obtain ⟨n, hn⟩ := h
  cases r with
  | some s => exact ⟨n + 1, .descend n b [] s hacc hn⟩
  | none => exact ⟨n + 0 + 1, .backtrack n 0 b [] none hacc hn .exhausted⟩

/-! ## Instructions that serve a step -/

/-- Whether a branch at an instruction runs as branches at another one do, one from each of
some places. -/
def ServesAt (code : Array Inst) (text : Array Char) (inst : Nat) (x : Cursor)
    (ys : List Cursor) (next : Nat) : Prop :=
  ∀ r, Leads code text (ys.map (Cursor.branch next)) r → Leads code text [x.branch inst] r

/-- Whether what stands between two instructions does a step. -/
def Serves (code : Array Inst) (text : Array Char) (inst : Nat) (step : Cursor → List Cursor)
    (next : Nat) : Prop :=
  ∀ x, ServesAt code text inst x (step x) next

theorem ServesAt.of_next {i : Inst} (hinst : code[inst]? = some i) (hacc : i ≠ .accept)
    (hnext : (x.branch inst).next code text = ys.map (Cursor.branch next)) :
    ServesAt code text inst x ys next := by
  intro r hr
  refine .of_next ?_ (hnext ▸ hr)
  simp only [Branch.accepted?, Cursor.branch, hinst]
  cases i <;> simp_all

/-- Places that branches come to are gone on from in their order. -/
theorem leads_of_flatMap (h : ∀ y ∈ ys, ServesAt code text mid y (step y) next)
    (hr : Leads code text ((ys.flatMap step).map (Cursor.branch next)) r) :
    Leads code text (ys.map (Cursor.branch mid)) r := by
  induction ys with
  | nil => exact hr
  | cons y ys ih =>
    obtain ⟨hy, hys⟩ := List.forall_mem_cons.mp h
    rw [List.flatMap_cons, List.map_append] at hr
    rcases hr.append_cases with ⟨s, rfl, hs⟩ | ⟨hnone, hrest⟩
    · exact (hy _ hs).cons_of_some _
    · exact (hy _ hnone).cons_of_none (ih hys hrest)

theorem ServesAt.followedBy (h : ServesAt code text inst x ys mid)
    (hmore : ∀ y ∈ ys, ServesAt code text mid y (more y) next) :
    ServesAt code text inst x (ys.flatMap more) next :=
  fun r hr => h r (leads_of_flatMap hmore hr)

theorem Serves.followedBy (h : Serves code text inst step mid)
    (hmore : Serves code text mid more next) :
    Serves code text inst (fun x => (step x).flatMap more) next :=
  fun x => (h x).followedBy fun y _ => hmore y

theorem Serves.here (code : Array Inst) (text : Array Char) (next : Nat) :
    Serves code text next (fun x => [x]) next :=
  fun _ _ hr => hr

/-- A branching instruction leads through what its first branch leads to, and then through what
its second one does. -/
theorem ServesAt.split {first second : Nat} (hinst : code[inst]? = some (.split first second))
    (hfirst : ServesAt code text first x ys next) (hsecond : ServesAt code text second x zs next) :
    ServesAt code text inst x (ys ++ zs) next := by
  intro r hr
  refine .of_next ?_ ?_
  · simp [Branch.accepted?, Cursor.branch, hinst]
  · have hnext : (x.branch inst).next code text = [x.branch first, x.branch second] := by
      simp [Branch.next, Cursor.branch, hinst]
    rw [hnext]
    rw [List.map_append] at hr
    rcases hr.append_cases with ⟨s, rfl, hs⟩ | ⟨hnone, hrest⟩
    · exact (hfirst _ hs).cons_of_some _
    · exact (hfirst _ hnone).cons_of_none (hsecond _ hrest)

/-- A choice goes on with a body, or leaves at once, in the order that is asked for. -/
theorem ServesAt.choice {greedy : Bool} {body : Nat}
    (hinst : code[inst]? = some (choice greedy body next))
    (hbody : ServesAt code text body x ys next) :
    ServesAt code text inst x (if greedy then ys ++ [x] else x :: ys) next := by
  have hhere : ServesAt code text next x [x] next := Serves.here code text next x
  cases greedy with
  | true => exact .split hinst hbody hhere
  | false => exact .split hinst hhere hbody

/-- A body that each round of goes back to a choice is repeated as long as there are characters
left. -/
theorem ServesAt.loop {greedy : Bool} {body : Nat}
    (hinst : code[inst]? = some (Pattern.choice greedy body next))
    (hbody : Serves code text body step inst)
    (hpass : ∀ x, ∀ y ∈ step x, x.place < y.place)
    (hend : ∀ x : Cursor, text.size ≤ x.place → step x = []) (n : Nat) (x : Cursor)
    (hn : text.size - x.place ≤ n) :
    ServesAt code text inst x (upTo step greedy n x) next := by
  induction n generalizing x with
  | zero =>
    have hnil : step x = [] := hend x (by omega)
    have hround : ServesAt code text body x [] next := by
      intro r hr
      exact hbody x r (by rwa [hnil])
    have hchoice := ServesAt.choice hinst hround
    cases greedy <;> exact hchoice
  | succ n ih =>
    have hround : ServesAt code text body x ((step x).flatMap (upTo step greedy n)) next := by
      refine (hbody x).followedBy fun y hy => ih y ?_
      have hlt := hpass x y hy
      omega
    exact .choice hinst hround

/-! ## What has been laid out -/

/-- Whether instructions have only been added. -/
structure Extends (laid laid' : Array Inst) : Prop where
  size_le : laid.size ≤ laid'.size
  same : ∀ j < laid.size, laid'[j]? = laid[j]?

theorem Extends.refl (laid : Array Inst) : Extends laid laid := ⟨Nat.le_refl _, fun _ _ => rfl⟩

theorem Extends.trans {laid'' : Array Inst} (h : Extends laid laid') (h' : Extends laid' laid'') :
    Extends laid laid'' where
  size_le := Nat.le_trans h.size_le h'.size_le
  same j hj := (h'.same j (Nat.lt_of_lt_of_le hj h.size_le)).trans (h.same j hj)

theorem extends_push (laid : Array Inst) (i : Inst) : Extends laid (laid.push i) where
  size_le := by simp
  same j hj := by rw [Array.getElem?_push_lt hj, Array.getElem?_eq_getElem hj]

/-- Whether a program has what was laid out from a place on. -/
def Has (code laid : Array Inst) (start : Nat) : Prop :=
  ∀ j, start ≤ j → j < laid.size → code[j]? = laid[j]?

theorem Has.of_extends {start : Nat} (h : Has code laid' start) (hext : Extends laid laid') :
    Has code laid start :=
  fun j hj hlt => (h j hj (Nat.lt_of_lt_of_le hlt hext.size_le)).trans (hext.same j hlt)

theorem Has.mono {start start' : Nat} (h : Has code laid start) (hle : start ≤ start') :
    Has code laid start' :=
  fun j hj hlt => h j (Nat.le_trans hle hj) hlt

theorem Has.last {i : Inst} (h : Has code (laid.push i) laid.size) : code[laid.size]? = some i := by
  rw [h laid.size (Nat.le_refl _) (by simp), Array.getElem?_push_size]

/-- Whether a part adds instructions, behind which a program that has them does a step. -/
def LaysOut (text : Array Char) (part : Array Inst → Nat → Layout)
    (step : Cursor → List Cursor) : Prop :=
  ∀ laid next, Extends laid (part laid next).1 ∧
    ∀ code, Has code (part laid next).1 laid.size →
      Serves code text (part laid next).2 step next

/-- One instruction does what its branches go on with. -/
theorem laysOut_emit {inst : Nat → Inst} (hacc : ∀ next, inst next ≠ .accept)
    (hnext : ∀ code : Array Inst, ∀ i next : Nat, code[i]? = some (inst next) →
      ∀ x : Cursor, (x.branch i).next code text = (step x).map (Cursor.branch next)) :
    LaysOut text (fun laid next => emit laid (inst next)) step := by
  intro laid next
  refine ⟨extends_push laid _, fun code hhas x => ?_⟩
  exact .of_next hhas.last (hacc next) (hnext code _ next hhas.last x)

namespace LaysOut

variable {part part' : Array Inst → Nat → Layout}

theorem followedBy (h : LaysOut text part step) (h' : LaysOut text part' more) :
    LaysOut text (fun laid next => part (part' laid next).1 (part' laid next).2)
      (fun x => (step x).flatMap more) := by
  intro laid next
  obtain ⟨hext', hserves'⟩ := h' laid next
  obtain ⟨hext, hserves⟩ := h (part' laid next).1 (part' laid next).2
  refine ⟨hext'.trans hext, fun code hhas => ?_⟩
  exact (hserves code (hhas.mono hext'.size_le)).followedBy (hserves' code (hhas.of_extends hext))

theorem congr (h : LaysOut text part step) (heq : ∀ x, step x = more x) :
    LaysOut text part more :=
  funext heq ▸ h

/-- Of two parts laid out side by side the one that was laid out last comes first. -/
theorem orElse (h : LaysOut text part step) (h' : LaysOut text part' more) :
    LaysOut text
      (fun laid next =>
        emit (part (part' laid next).1 next).1
          (.split (part (part' laid next).1 next).2 (part' laid next).2))
      (fun x => step x ++ more x) := by
  intro laid next
  obtain ⟨hext', hserves'⟩ := h' laid next
  obtain ⟨hext, hserves⟩ := h (part' laid next).1 next
  refine ⟨(hext'.trans hext).trans (extends_push _ _), fun code hhas x => ?_⟩
  have hparts := hhas.of_extends (extends_push _ _)
  exact .split (hhas.mono (hext'.trans hext).size_le).last
    (hserves code (hparts.mono hext'.size_le) x) (hserves' code (hparts.of_extends hext) x)

theorem copies (h : LaysOut text part step) (n : Nat) :
    LaysOut text (Pattern.copies part n) (times step n) := by
  induction n with
  | zero => exact fun laid next => ⟨.refl laid, fun code _ => .here code text next⟩
  | succ n ih => exact h.followedBy ih

theorem optionalCopies (h : LaysOut text part step) (greedy : Bool) (n : Nat) :
    LaysOut text (fun laid next => Pattern.optionalCopies part greedy next n laid)
      (upTo step greedy n) := by
  induction n with
  | zero => exact fun laid next => ⟨.refl laid, fun code _ => .here code text next⟩
  | succ n ih =>
    intro laid next
    obtain ⟨hext, hserves⟩ := ih laid next
    obtain ⟨hext', hserves'⟩ := h (Pattern.optionalCopies part greedy next n laid).1
      (Pattern.optionalCopies part greedy next n laid).2
    refine ⟨(hext.trans hext').trans (extends_push _ _), fun code hhas x => ?_⟩
    have hpart := hhas.of_extends (extends_push _ _)
    have hround := (hserves' code (hpart.mono hext.size_le)).followedBy
      (hserves code (hpart.of_extends hext'))
    exact .choice (hhas.mono (hext.trans hext').size_le).last (hround x)

/-- A part whose rounds go back to a choice is repeated, whether it is begun with the choice or
with a round. -/
theorem loop (h : LaysOut text part step) (greedy : Bool)
    (hpass : ∀ x, ∀ y ∈ step x, x.place < y.place)
    (hend : ∀ x : Cursor, text.size ≤ x.place → step x = []) (laid : Array Inst) (next : Nat) :
    Extends laid (Pattern.loop part greedy laid next).1 ∧
      ∀ code, Has code (Pattern.loop part greedy laid next).1 laid.size →
        Serves code text laid.size (fun x => upTo step greedy (text.size - x.place) x) next ∧
        Serves code text (Pattern.loop part greedy laid next).2
          (fun x => (step x).flatMap fun y => upTo step greedy (text.size - y.place) y) next := by
  -- until the body has been laid out, an instruction that fails stands where the choice will
  obtain ⟨hext, hserves⟩ := h (laid.push .fail) laid.size
  have hsize := hext.size_le
  rw [Array.size_push] at hsize
  generalize hbody : part (laid.push .fail) laid.size = body at hext hserves hsize
  have hloop : Pattern.loop part greedy laid next =
      (body.1.setIfInBounds laid.size (choice greedy body.2 next), body.2) := by
    simp only [Pattern.loop, hbody]
  have hother (j : Nat) (hj : j ≠ laid.size) :
      (body.1.setIfInBounds laid.size (choice greedy body.2 next))[j]? = body.1[j]? :=
    Array.getElem?_setIfInBounds_ne (Ne.symm hj)
  rw [hloop]
  refine ⟨⟨by simp; omega, fun j hj => ?_⟩, fun code hhas => ?_⟩
  · rw [hother j (by omega), hext.same j (by simp; omega), Array.getElem?_push_lt hj,
      Array.getElem?_eq_getElem hj]
  · have hround : Serves code text body.2 step laid.size := by
      refine hserves code fun j hj hlt => ?_
      rw [Array.size_push] at hj
      rw [hhas j (by omega) (by simpa using hlt)]
      exact hother j (by omega)
    have hinst : code[laid.size]? = some (choice greedy body.2 next) := by
      rw [hhas laid.size (Nat.le_refl _) (by simp; omega)]
      exact Array.getElem?_setIfInBounds_self_of_lt (by omega)
    have hrepeat : Serves code text laid.size
        (fun x => upTo step greedy (text.size - x.place) x) next :=
      fun x => .loop hinst hround hpass hend _ x (Nat.le_refl _)
    exact ⟨hrepeat, hround.followedBy hrepeat⟩

end LaysOut

/-- One round more can be made in front or behind. -/
theorem times_succ (step : Cursor → List Cursor) (n : Nat) (x : Cursor) :
    times step (n + 1) x = (times step n x).flatMap step := by
  induction n generalizing x with
  | zero => simp [times]
  | succ n ih =>
    rw [times, times, List.flatMap_assoc]
    exact List.flatMap_congr fun y _ => ih y

/-- **What an expression is laid out as leads through its outcomes**, the preferred one first. -/
theorem laysOut_layout (text : Array Char) {e : Expr} (h : e.Advances) :
    LaysOut text (layout e) (e.outcomes text) := by
  induction e with
  | empty => exact fun laid next => ⟨.refl laid, fun code _ => .here code text next⟩
  | chars set =>
    refine laysOut_emit (by simp) fun code i next hinst x => ?_
    simp only [Branch.next, Cursor.branch, hinst, Expr.outcomes]
    cases text[x.place]? with
    | none => rfl
    | some c => cases hmem : set.mem c <;> simp [hmem, Cursor.pass, Cursor.branch]
  | look a =>
    refine laysOut_emit (by simp) fun code i next hinst x => ?_
    simp only [Branch.next, Cursor.branch, hinst, Expr.outcomes]
    by_cases hholds : a.holdsAt text x.place = true
    · simp [hholds, Cursor.branch]
    · simp [hholds]
  | group index e ih =>
    have hsave (slot : Nat) : LaysOut text (fun laid next => emit laid (.save slot next))
        (fun x => [x.save slot]) := by
      refine laysOut_emit (by simp) fun code i next hinst x => ?_
      simp [Branch.next, Cursor.branch, hinst, Cursor.save]
    refine (((hsave (2 * index)).followedBy (ih h)).followedBy (hsave (2 * index + 1))).congr ?_
    intro x
    simp only [List.flatMap_singleton, Expr.outcomes]
    exact List.flatMap_pure_eq_map _ _
  | seq e f ihe ihf => exact (ihe h.1).followedBy (ihf h.2)
  | alt e f ihe ihf => exact (ihe h.1).orElse (ihf h.2)
  | rounds least most greedy e ih =>
    cases most with
    | some most => exact ((ih h).copies least).followedBy ((ih h).optionalCopies greedy _)
    | none =>
      obtain ⟨hadvances, hconsumes⟩ := h
      -- a round that passed nothing would be back at its choice where it was before
      have hpass (x y : Cursor) (hy : y ∈ e.outcomes text x) : x.place < y.place := by
        have hfar := (e.staysWithin_outcomes text x y hy).1
        rwa [hconsumes] at hfar
      have hloop := (ih hadvances).loop greedy hpass
        fun x hx => Expr.outcomes_eq_nil_of_consumes hconsumes hx
      cases least with
      | zero =>
        intro laid next
        obtain ⟨hext, hserves⟩ := hloop laid next
        simp only [layout, if_pos hconsumes]
        refine ⟨hext, fun code hhas x => ?_⟩
        have hrepeat := (hserves code hhas).1 x
        simpa [Expr.outcomes, times] using hrepeat
      | succ least =>
        have hrounds : LaysOut text (loop (layout e) greedy) fun x =>
            (e.outcomes text x).flatMap fun y =>
              upTo (e.outcomes text) greedy (text.size - y.place) y :=
          fun laid next => ⟨(hloop laid next).1, fun code hhas => ((hloop laid next).2 code hhas).2⟩
        refine (((ih hadvances).copies least).followedBy hrounds).congr fun x => ?_
        rw [Expr.outcomes, times_succ, List.flatMap_assoc]

/-! ## What a matcher finds -/

/-- The branch behind an expression's outcome is accepted where the instructions end. -/
theorem leads_accept (hinst : code[0]? = some .accept) (ys : List Cursor) :
    Leads code text (ys.map (Cursor.branch 0)) (ys.head?.map fun y => (y.save 1).slots) := by
  cases ys with
  | nil => exact ⟨0, .exhausted⟩
  | cons y ys =>
    refine ⟨0, .accept _ _ _ ?_⟩
    simp [Branch.accepted?, Cursor.branch, hinst, Cursor.save]

/-- Where a match of a pattern with some groups starts. -/
def startCursor (groups i : Nat) : Cursor :=
  ⟨i, (Array.replicate (2 * groups + 2) none).setIfInBounds 0 (some i)⟩

/-- The matcher of an expression that has been read. -/
def ofExpr (e : Expr) (groups : Nat) (names : List (String × Nat)) : Pattern where
  code := (layout e #[.accept] 0).1
  start := (layout e #[.accept] 0).2
  groups := groups
  names := names

variable {pattern : String} {p : Pattern} {e : Expr} {groups : Nat} {names : List (String × Nat)}

theorem compile?_eq_some_iff (hparse : parse? pattern = some (e, groups, names)) :
    compile? pattern = some p ↔ e.cost ≤ maxCost ∧ p = ofExpr e groups names := by
  simp only [compile?, hparse]
  by_cases hcost : e.cost ≤ maxCost
  · rw [if_pos hcost, Option.some.injEq]
    exact ⟨fun h => ⟨hcost, h.symm⟩, fun h => h.2.symm⟩
  · simp [hcost]

/-- **A matcher finds the preferred match from the leftmost place.**  Of the places from `i` on the
first one counts that there is an outcome of the expression from, and of those outcomes the first
one. -/
theorem find?_eq_outcomes (hparse : parse? pattern = some (e, groups, names))
    (hcompile : compile? pattern = some p) (hadvances : e.Advances) (text : Array Char) (i : Nat) :
    p.find? text i =
      ((List.range' i (text.size + 1 - i)).findSome? fun j =>
        (e.outcomes text (startCursor groups j)).head?).map
          fun x => p.captures (x.save 1).slots := by
  obtain ⟨-, rfl⟩ := (compile?_eq_some_iff hparse).mp hcompile
  obtain ⟨hext, hserves⟩ := laysOut_layout text hadvances #[.accept] 0
  have hhas : Has (layout e #[.accept] 0).1 (layout e #[.accept] 0).1 (#[Inst.accept]).size :=
    fun _ _ _ => rfl
  have haccept : (layout e #[.accept] 0).1[0]? = some .accept := hext.same 0 (by simp)
  have hfound (j : Nat) (_ : j ≤ text.size) :
      Leads (ofExpr e groups names).code text [(ofExpr e groups names).entry j]
        (((e.outcomes text (startCursor groups j)).head?).map fun x => (x.save 1).slots) :=
    hserves _ hhas (startCursor groups j) _ (leads_accept haccept _)
  rw [find?_eq_findSome? hfound i, List.map_findSome?, List.map_findSome?]
  refine congrArg (List.findSome? · _) (funext fun j => ?_)
  simp only [Function.comp_apply, Option.map_map]
  rfl

end Pattern

end StyleEngine
