import Woodpecker.Execution.Solving
import Woodpecker.Expressions.Reads
import Woodpecker.Library.Loops
import Woodpecker.Library.Tables

/-! Queries without the constraints that do not matter to them.

Constraints matter to a query if they read a byte that it reads, or a byte of a constraint
that matters. The other constraints are left out. What satisfies the constraints that are kept
can be changed elsewhere to satisfy all of them, with the same value of the query.
-/

namespace Woodpecker.Solvers

open Expressions Library Execution List

-- Sets of bytes

/-- Bytes of arrays, which are known by their addresses: single bytes, and arrays as a
whole.
-/
structure IndependentElementSet where
  elements : Table Nat (Finset Nat)
  wholeObjects : Finset Nat

open IndependentElementSet

namespace IndependentElementSet

/-- The loop of the constructor for one read. -/
def addRead (set : IndependentElementSet) (re : ReadExpr)
    : Except Fault IndependentElementSet :=
  -- Reads of a constant array don't alias.
  if re.root.isSymbolicArray = false ∧ re.head = .null then .ok set
  else if re.root.address ∈ set.wholeObjects then .ok set
  else
    match re.index.constant? with
    | some CE => do
      let i ← CE.getZExtValue 32
      let dis := (set.elements.find? re.root.address).getD ∅
      .ok { set with elements := set.elements.assign re.root.address (insert i dis) }
    | none =>
      .ok {
        elements := set.elements.erase re.root.address
        wholeObjects := insert re.root.address set.wholeObjects }

def ofExpr (fuel : Nat) (e : Expr) : Except Fault IndependentElementSet := do
  let reads ← findReads true fuel e
  reads.foldlM addRead ⟨[], ∅⟩

def intersects (set b : IndependentElementSet) : Bool :=
  (ascending set.wholeObjects).any (fun array =>
    decide (array ∈ b.wholeObjects) || (b.elements.find? array).isSome)
  || set.elements.any fun it =>
    decide (it.1 ∈ b.wholeObjects)
    || (b.elements.find? it.1).any fun dis => (ascending it.2).any (· ∈ dis)

/-- The first loop of `add`. -/
def addWhole (state : IndependentElementSet × Bool) (array : Nat)
    : IndependentElementSet × Bool :=
  if (state.1.elements.find? array).isSome then
    ⟨⟨state.1.elements.erase array, insert array state.1.wholeObjects⟩, true⟩
  else if array ∉ state.1.wholeObjects then
    ⟨{ state.1 with wholeObjects := insert array state.1.wholeObjects }, true⟩
  else state

/-- The second loop of `add`. -/
def addElements (state : IndependentElementSet × Bool) (it : Nat × Finset Nat)
    : IndependentElementSet × Bool :=
  if it.1 ∈ state.1.wholeObjects then state
  else
    match state.1.elements.find? it.1 with
    | none => ⟨{ state.1 with elements := state.1.elements.assign it.1 it.2 }, true⟩
    | some dis =>
      if it.2 ⊆ dis then state
      else ⟨{ state.1 with elements := state.1.elements.assign it.1 (dis ∪ it.2) }, true⟩

/-- Returns true iff the set is changed by the addition. -/
def add (set b : IndependentElementSet) : IndependentElementSet × Bool :=
  b.elements.foldl addElements ((ascending b.wholeObjects).foldl addWhole (set, false))

/-- The byte of an array is in the set. -/
def Has (set : IndependentElementSet) (array i : Nat) : Prop :=
  array ∈ set.wholeObjects ∨ ∃ dis, set.elements.find? array = some dis ∧ i ∈ dis

/-- All that the one set has the other has. -/
def Within (set b : IndependentElementSet) : Prop :=
  ∀ array i, set.Has array i → b.Has array i

theorem Within.trans {set middle b : IndependentElementSet} (one : set.Within middle)
    (two : middle.Within b)
    : set.Within b :=
  fun array i has => two array i (one array i has)

variable {set b : IndependentElementSet}

/-- Sets that do not intersect have no byte in common. -/
theorem intersects_false (apart : set.intersects b = false) {array i : Nat} (has : set.Has array i)
    : ¬ b.Has array i := by
  intro hasB
  simp only [intersects, Bool.or_eq_false_iff, any_eq_false] at apart
  obtain ⟨whole, elements⟩ := apart
  rcases has with isWhole | ⟨dis, found, isIn⟩
  · have none := whole array (mem_ascending.mpr isWhole)
    rcases hasB with isWhole' | ⟨dis', found', -⟩
    · simp [isWhole'] at none
    · simp [found'] at none
  · have none := elements (array, dis) (Table.mem_of_find? found)
    rcases hasB with isWhole' | ⟨dis', found', isIn'⟩
    · simp [isWhole'] at none
    · simp only [found', Option.any_some, Bool.or_eq_true, any_eq_true, not_or] at none
      exact none.2 ⟨i, mem_ascending.mpr isIn, decide_eq_true isIn'⟩

/-- What is assigned contains what was there. -/
theorem within_assign {array : Nat} {dis : Finset Nat}
    (more : ∀ old, set.elements.find? array = some old → old ⊆ dis)
    : set.Within { set with elements := set.elements.assign array dis } := by
  intro other i has
  rcases has with isWhole | ⟨old, found, isIn⟩
  · exact .inl isWhole
  by_cases same : other = array
  · subst same
    exact .inr ⟨dis, by rw [Table.find?_assign, if_pos rfl], more old found isIn⟩
  · exact .inr ⟨old, by rw [Table.find?_assign, if_neg same, found], isIn⟩

theorem within_whole (array : Nat)
    : set.Within ⟨set.elements.erase array, insert array set.wholeObjects⟩ := by
  intro other i has
  by_cases same : other = array
  · exact .inl (same ▸ Finset.mem_insert_self _ _)
  rcases has with isWhole | ⟨dis, found, isIn⟩
  · exact .inl (Finset.mem_insert_of_mem isWhole)
  · exact .inr ⟨dis, by rw [Table.find?_erase, if_neg same, found], isIn⟩

/-- The set has every byte that the read can look at. Bytes of constant arrays are no part of
an assignment.
-/
def Covers (set : IndependentElementSet) (re : ReadExpr) : Prop :=
  re.root.isSymbolicArray = true → ∀ i : BitVec 32,
    (∀ c, re.index = .constant c → i = c.value.setWidth 32) → set.Has re.root.address i.toNat

theorem Covers.mono {re : ReadExpr} (covers : set.Covers re) (within : set.Within b)
    : b.Covers re :=
  fun isSymbolic i isIndex => within _ _ (covers isSymbolic i isIndex)

theorem addRead_returns (set : IndependentElementSet) {re : ReadExpr}
    (width : re.index.getWidth = 32)
    : ∃ after, set.addRead re = .ok after ∧ set.Within after ∧ after.Covers re := by
  have refl : set.Within set := fun _ _ has => has
  unfold addRead
  split
  next constant =>
    refine ⟨set, rfl, refl, fun isSymbolic => ?_⟩
    cases constant.1.symm.trans isSymbolic
  split
  next isWhole => exact ⟨set, rfl, refl, fun _ _ _ => .inl isWhole⟩
  rcases isC : re.index.constant? with _ | CE
  · refine ⟨_, rfl, within_whole re.root.address, fun _ _ _ => .inl ?_⟩
    exact Finset.mem_insert_self _ _
  have isIndex : re.index = .constant CE := constant?_eq_some.mp isC
  have narrow : CE.width = 32 := by
    rw [isIndex] at width
    exact width
  simp only [ConstantExpr.getZExtValue, if_pos narrow.le, ok_bind]
  refine ⟨_, rfl, within_assign fun old found => ?_, fun _ i isI => .inr ?_⟩
  · rw [found, Option.getD_some]
    exact Finset.subset_insert _ _
  · refine ⟨_, by rw [Table.find?_assign, if_pos rfl], ?_⟩
    rw [isI CE isIndex, BitVec.toNat_setWidth_of_le narrow.le]
    exact Finset.mem_insert_self _ _

/-- The set of an expression has every byte that the expression reads. -/
theorem ofExpr_yields {e : Expr} (typed : e.Typed)
    : Yields (fun fuel => ofExpr fuel e) fun set => ∀ re ∈ e.reads, set.Covers re := by
  refine (findReads_yields e).bind fun reads same => yields_const.mpr ?_
  -- The reads are covered, except for those to come.
  let Inv (rest : List ReadExpr) (now : IndependentElementSet) : Prop :=
    (∀ re ∈ rest, re.index.getWidth = 32) ∧ ∀ re ∈ reads, re ∈ rest ∨ now.Covers re
  have start : Inv reads ⟨[], ∅⟩ :=
    ⟨fun re isRead => typed.read_index re ((same re).mp isRead), fun re isRead => .inl isRead⟩
  obtain ⟨after, looped, -, covers⟩ := foldlM_ok Inv start (by
    rintro re rest now ⟨widths, covers⟩
    obtain ⟨width, others⟩ := forall_mem_cons.mp widths
    obtain ⟨after, added, within, isCovered⟩ := now.addRead_returns width
    refine ⟨after, added, others, fun other isRead => ?_⟩
    rcases covers other isRead with later | earlier
    · rcases mem_cons.mp later with same | later
      · exact .inr (same ▸ isCovered)
      · exact .inl later
    · exact .inr (earlier.mono within))
  exact ⟨after, looped, fun re isRead => (covers re ((same re).mpr isRead)).resolve_left nofun⟩

/-- Adding to a set, one item after the other. Each item is about an array, and has some of
its bytes.
-/
theorem foldl_adds {Item : Type} (array : Item → Nat) (bytes : Item → Set Nat)
    {step : IndependentElementSet × Bool → Item → IndependentElementSet × Bool}
    (adds : ∀ state item, state.1.Within (step state item).1
      ∧ (∀ i ∈ bytes item, (step state item).1.Has (array item) i)
      ∧ ((step state item).2 = false → step state item = state))
    (items : List Item) (state : IndependentElementSet × Bool)
    : state.1.Within (items.foldl step state).1
      ∧ (∀ item ∈ items, ∀ i ∈ bytes item, (items.foldl step state).1.Has (array item) i)
      ∧ ((items.foldl step state).2 = false → items.foldl step state = state) := by
  induction items generalizing state with
  | nil => exact ⟨fun _ _ has => has, nofun, fun _ => rfl⟩
  | cons item rest ih =>
    obtain ⟨within, fits, unchanged⟩ := adds state item
    obtain ⟨withinRest, fitsRest, unchangedRest⟩ := ih (step state item)
    refine ⟨within.trans withinRest, forall_mem_cons.mpr ⟨?_, fitsRest⟩, fun unmodified => ?_⟩
    · exact fun i isIn => withinRest _ i (fits i isIn)
    have sameRest := unchangedRest unmodified
    rw [foldl_cons, sameRest] at unmodified ⊢
    exact unchanged unmodified

theorem addWhole_adds (state : IndependentElementSet × Bool) (array : Nat)
    : state.1.Within (addWhole state array).1
      ∧ (∀ i ∈ Set.univ, (addWhole state array).1.Has array i)
      ∧ ((addWhole state array).2 = false → addWhole state array = state) := by
  unfold addWhole
  split
  · exact ⟨within_whole array, fun _ _ => .inl (Finset.mem_insert_self _ _), by simp⟩
  split
  · refine ⟨fun other i has => ?_, fun _ _ => .inl (Finset.mem_insert_self _ _), by simp⟩
    exact has.imp_left Finset.mem_insert_of_mem
  next isWhole =>
    exact ⟨fun _ _ has => has, fun _ _ => .inl (not_not.mp isWhole), fun _ => rfl⟩

theorem addElements_adds (state : IndependentElementSet × Bool) (it : Nat × Finset Nat)
    : state.1.Within (addElements state it).1
      ∧ (∀ i ∈ (it.2 : Set Nat), (addElements state it).1.Has it.1 i)
      ∧ ((addElements state it).2 = false → addElements state it = state) := by
  unfold addElements
  split
  next isWhole => exact ⟨fun _ _ has => has, fun _ _ => .inl isWhole, fun _ => rfl⟩
  rcases found : state.1.elements.find? it.1 with _ | dis
  · refine ⟨within_assign fun old isOld => ?_, fun i isIn => .inr ⟨it.2, ?_, isIn⟩, by simp⟩
    · cases found.symm.trans isOld
    · rw [Table.find?_assign, if_pos rfl]
  simp only
  split
  next subset =>
    exact ⟨fun _ _ has => has, fun i isIn => .inr ⟨dis, found, subset isIn⟩, fun _ => rfl⟩
  refine ⟨within_assign fun old isOld => ?_, fun i isIn => .inr ⟨dis ∪ it.2, ?_, ?_⟩, by simp⟩
  · rw [← Option.mem_unique found isOld]
    exact Finset.subset_union_left
  · rw [Table.find?_assign, if_pos rfl]
  · exact Finset.mem_union_right dis isIn

theorem add_spec (set b : IndependentElementSet)
    : set.Within (set.add b).1 ∧ b.Within (set.add b).1
      ∧ ((set.add b).2 = false → (set.add b).1 = set) := by
  obtain ⟨withinW, fitsW, unchangedW⟩ := foldl_adds id (fun _ => Set.univ) addWhole_adds
    (ascending b.wholeObjects) (set, false)
  obtain ⟨withinE, fitsE, unchangedE⟩ := foldl_adds Prod.fst
    (fun it : Nat × Finset Nat => (it.2 : Set Nat)) addElements_adds b.elements
    ((ascending b.wholeObjects).foldl addWhole (set, false))
  refine ⟨withinW.trans withinE, fun array i has => ?_, fun unmodified => ?_⟩
  · rcases has with isWhole | ⟨dis, found, isIn⟩
    · exact withinE array i (fitsW array (mem_ascending.mpr isWhole) i trivial)
    · exact fitsE (array, dis) (Table.mem_of_find? found) i isIn
  have sameE := unchangedE unmodified
  unfold add at unmodified ⊢
  rw [sameE] at unmodified ⊢
  rw [unchangedW unmodified]

end IndependentElementSet

-- The closure

/-- A pass over the worklist: the closure and the result so far, whether the closure is still
as it was, and what is kept for the next pass.
-/
structure Pass where
  eltsClosure : IndependentElementSet
  done : Bool
  result : List Expr
  newWorklist : List (Expr × IndependentElementSet)

def Pass.step (pass : Pass) (it : Expr × IndependentElementSet) : Pass :=
  if it.2.intersects pass.eltsClosure then
    let added := pass.eltsClosure.add it.2
    { pass with
      eltsClosure := added.1
      done := if added.2 then false else pass.done
      result := pass.result ++ [it.1] }
  else { pass with newWorklist := pass.newWorklist ++ [it] }

/-- Passes over the worklist, until one leaves the closure as it is. -/
def closureLoop (fuel : Nat) (eltsClosure : IndependentElementSet) (result : List Expr)
    (worklist : List (Expr × IndependentElementSet))
    : Except Fault (IndependentElementSet × List Expr) :=
  match fuel with
  | 0 => .error .outOfFuel
  | fuel + 1 =>
    let pass := worklist.foldl Pass.step ⟨eltsClosure, true, result, []⟩
    if pass.done then .ok (pass.eltsClosure, pass.result)
    else closureLoop fuel pass.eltsClosure pass.result pass.newWorklist

def getIndependentConstraints (fuel : Nat) (constraints : ConstraintManager) (expr : Expr)
    : Except Fault (IndependentElementSet × List Expr) := do
  let eltsClosure ← IndependentElementSet.ofExpr fuel expr
  let sets ← constraints.constraints.mapM (IndependentElementSet.ofExpr fuel)
  closureLoop fuel eltsClosure [] (constraints.constraints.zip sets)

/-- The items of the worklist are kept for later, or they are in the result and in the
closure.
-/
structure Selecting (items : List (Expr × IndependentElementSet))
    (eltsClosure : IndependentElementSet) (result : List Expr)
    (later : List (Expr × IndependentElementSet))
    : Prop where
  within : ∀ it ∈ items, it ∈ later ∨ it.1 ∈ result ∧ it.2.Within eltsClosure
  selected : ∀ e ∈ result, ∃ it ∈ items, it.1 = e ∧ it.2.Within eltsClosure

/-- The result is the part of the items that are in the closure, and the others have nothing
in common with it.
-/
structure Selected (items : List (Expr × IndependentElementSet))
    (eltsClosure : IndependentElementSet) (result : List Expr)
    : Prop where
  within : ∀ it ∈ items, it.2.intersects eltsClosure = false
    ∨ it.1 ∈ result ∧ it.2.Within eltsClosure
  selected : ∀ e ∈ result, ∃ it ∈ items, it.1 = e ∧ it.2.Within eltsClosure

variable {items rest : List (Expr × IndependentElementSet)} {pass : Pass}
  {eltsClosure closure : IndependentElementSet} {result : List Expr}
  {it : Expr × IndependentElementSet}

/-- An item is moved to the result. -/
theorem Selecting.add {later later' : List (Expr × IndependentElementSet)}
    (selecting : Selecting items eltsClosure result later) (isItem : it ∈ items)
    (fewer : ∀ other ∈ later, other = it ∨ other ∈ later')
    : Selecting items (eltsClosure.add it.2).1 (result ++ [it.1]) later' := by
  obtain ⟨grows, has, -⟩ := eltsClosure.add_spec it.2
  constructor
  · intro other isOther
    rcases selecting.within other isOther with isLater | ⟨isIn, within⟩
    · rcases fewer other isLater with same | isLater
      · rw [same]
        exact .inr ⟨mem_concat_self, has⟩
      · exact .inl isLater
    · exact .inr ⟨mem_append_left _ isIn, within.trans grows⟩
  · refine forall_mem_append.mpr ⟨fun e old => ?_, forall_mem_singleton.mpr ⟨it, isItem, rfl, has⟩⟩
    obtain ⟨other, isOther, same, within⟩ := selecting.selected e old
    exact ⟨other, isOther, same, within.trans grows⟩

/-- The invariant of a pass that started with a closure. -/
structure Pass.Inv (items : List (Expr × IndependentElementSet))
    (closure : IndependentElementSet) (pass : Pass)
    (rest : List (Expr × IndependentElementSet))
    : Prop where
  selecting : Selecting items pass.eltsClosure pass.result (pass.newWorklist ++ rest)
  items : ∀ it ∈ pass.newWorklist ++ rest, it ∈ items
  grows : closure.Within pass.eltsClosure
  quiet : pass.done = true → pass.eltsClosure = closure
    ∧ ∀ it ∈ pass.newWorklist, it.2.intersects closure = false

theorem Pass.Inv.step (inv : pass.Inv items closure (it :: rest))
    : (pass.step it).Inv items closure rest := by
  unfold Pass.step
  split
  next intersects =>
    obtain ⟨grows, -, unchanged⟩ := pass.eltsClosure.add_spec it.2
    refine ⟨inv.selecting.add (inv.items it ?_) fun other isLater => ?_, fun other isLater => ?_,
      inv.grows.trans grows, fun done => ?_⟩
    · exact mem_append_right _ (.head rest)
    · rcases mem_append.mp isLater with kept | isRest
      · exact .inr (mem_append_left _ kept)
      · exact (mem_cons.mp isRest).imp_right (mem_append_right _)
    · exact inv.items other (mem_append.mpr ((mem_append.mp isLater).imp_right (.tail it)))
    cases changed : (pass.eltsClosure.add it.2).2 with
    | true => simp [changed] at done
    | false =>
      simp [changed] at done
      obtain ⟨same, apart⟩ := inv.quiet done
      exact ⟨(unchanged changed).trans same, apart⟩
  next apart =>
    have moved : pass.newWorklist ++ it :: rest = pass.newWorklist ++ [it] ++ rest := by simp
    refine ⟨moved ▸ inv.selecting, moved ▸ inv.items, inv.grows, fun done => ?_⟩
    obtain ⟨same, others⟩ := inv.quiet done
    refine ⟨same, forall_mem_append.mpr ⟨others, forall_mem_singleton.mpr ?_⟩⟩
    rw [← same]
    exact Bool.eq_false_of_not_eq_true apart

/-- A whole pass, by induction on the worklist. -/
theorem Pass.Inv.foldl (inv : pass.Inv items closure rest)
    : (rest.foldl Pass.step pass).Inv items closure [] := by
  induction rest generalizing pass with
  | nil => exact inv
  | cons it rest ih => exact ih inv.step

/-- A pass that changes the closure leaves less to do. -/
theorem Pass.foldl_fewer (pass : Pass) (rest : List (Expr × IndependentElementSet))
    : (rest.foldl step pass).newWorklist.length ≤ pass.newWorklist.length + rest.length
      ∧ (pass.done = true → (rest.foldl step pass).done = false
        → (rest.foldl step pass).newWorklist.length < pass.newWorklist.length + rest.length) := by
  induction rest generalizing pass with
  | nil => exact ⟨Nat.le_refl _, fun done notDone => nomatch done.symm.trans notDone⟩
  | cons it rest ih =>
    obtain ⟨atMost, fewer⟩ := ih (pass.step it)
    rw [foldl_cons, length_cons]
    by_cases intersects : it.2.intersects pass.eltsClosure = true
    · have same : (pass.step it).newWorklist = pass.newWorklist := by
        rw [step, if_pos intersects]
      rw [same] at atMost
      exact ⟨by omega, fun _ _ => by omega⟩
    · have kept : (pass.step it).newWorklist.length = pass.newWorklist.length + 1 := by
        rw [step, if_neg intersects, length_append, length_singleton]
      have sameDone : (pass.step it).done = pass.done := by
        rw [step, if_neg intersects]
      rw [sameDone] at fewer
      exact ⟨by omega, fun done notDone => by have := fewer done notDone; omega⟩

/-- The passes end, by induction on the length of the worklist. -/
theorem closureLoop_yields {worklist : List (Expr × IndependentElementSet)}
    (selecting : Selecting items eltsClosure result worklist)
    (areItems : ∀ it ∈ worklist, it ∈ items)
    : Yields (fun fuel => closureLoop fuel eltsClosure result worklist) fun found =>
        Selected items found.1 found.2 ∧ eltsClosure.Within found.1 := by
  induction size : worklist.length using Nat.strong_induction_on
    generalizing eltsClosure result worklist with
  | _ n ih =>
    subst size
    refine Yields.of_succ ?_
    have start : Pass.Inv items eltsClosure ⟨eltsClosure, true, result, []⟩ worklist :=
      ⟨selecting, areItems, fun _ _ has => has, fun _ => ⟨rfl, nofun⟩⟩
    obtain ⟨after, areItems', grows, quiet⟩ := start.foldl
    have fewer := (Pass.foldl_fewer ⟨eltsClosure, true, result, []⟩ worklist).2 rfl
    simp only [closureLoop]
    generalize worklist.foldl Pass.step ⟨eltsClosure, true, result, []⟩ = pass at *
    rw [append_nil] at after areItems'
    cases isDone : pass.done with
    | true =>
      obtain ⟨same, apart⟩ := quiet isDone
      refine ⟨_, settles_ok _, ⟨fun it isItem => ?_, after.selected⟩, grows⟩
      refine (after.within it isItem).imp_left fun later => ?_
      rw [same]
      exact apart it later
    | false =>
      have shorter : pass.newWorklist.length < worklist.length := by
        simpa using fewer isDone
      refine (ih _ shorter after areItems' rfl).mono fun found selected => ?_
      exact ⟨selected.1, grows.trans selected.2⟩

-- Gluing assignments

open Classical in
/-- The one assignment on the bytes of the closure, and the other one elsewhere. -/
noncomputable def glue (eltsClosure : IndependentElementSet) (inside outside : Assignment)
    : Assignment :=
  fun array i => if eltsClosure.Has array.address i.toNat then inside array i else outside array i

variable {set : IndependentElementSet} {inside outside : Assignment} {re : ReadExpr} {e q : Expr}
  {w : Nat} {manager : ConstraintManager}

theorem glue_agrees_inside (covers : eltsClosure.Covers re)
    : re.Agrees (glue eltsClosure inside outside) inside := by
  intro i isIndex
  unfold Array.byte
  split
  next isSymbolic => exact if_pos (covers isSymbolic i isIndex)
  · rfl

theorem glue_agrees_outside (covers : set.Covers re) (apart : set.intersects eltsClosure = false)
    : re.Agrees (glue eltsClosure inside outside) outside := by
  intro i isIndex
  unfold Array.byte
  split
  next isSymbolic =>
    exact if_neg (intersects_false apart (covers isSymbolic i isIndex))
  · rfl

/-- What the closure stands for: it has the bytes of the query and of the required
constraints, and none of the bytes of the others.
-/
structure Separates (eltsClosure : IndependentElementSet) (required : List Expr)
    (manager : ConstraintManager) (q : Expr)
    : Prop where
  query : ∀ re ∈ q.reads, eltsClosure.Covers re
  subset : ∀ e ∈ required, e ∈ manager.constraints
  others : ∀ e ∈ manager.constraints, (e ∈ required ∧ ∀ re ∈ e.reads, eltsClosure.Covers re)
    ∨ ∃ set : IndependentElementSet, set.intersects eltsClosure = false
      ∧ ∀ re ∈ e.reads, set.Covers re

theorem getIndependentConstraints_yields (boolean : manager.Boolean) (typed : q.Typed)
    : Yields (fun fuel => getIndependentConstraints fuel manager q) fun found =>
        Separates found.1 found.2 manager q := by
  refine (ofExpr_yields typed).bind fun eltsClosure covers => ?_
  refine (yields_mapM fun e isIn => ofExpr_yields (boolean e isIn).1).bind fun sets areSets => ?_
  obtain ⟨sameLength, each⟩ := forall₂_iff_zip.mp areSets
  -- All constraints are on the worklist.
  have listed : ∀ e ∈ manager.constraints, ∃ set, (e, set) ∈ manager.constraints.zip sets := by
    intro e isIn
    obtain ⟨n, isN, rfl⟩ := getElem_of_mem isIn
    refine ⟨sets[n], mem_iff_getElem.mpr ⟨n, ?_, getElem_zip⟩⟩
    rw [length_zip, ← sameLength, min_self]
    exact isN
  have start : Selecting (manager.constraints.zip sets) eltsClosure []
      (manager.constraints.zip sets) :=
    ⟨fun it isItem => .inl isItem, nofun⟩
  refine (closureLoop_yields start fun it isItem => isItem).mono fun found selected => ?_
  obtain ⟨⟨within, required⟩, grows⟩ := selected
  refine ⟨fun re isRead => (covers re isRead).mono grows, fun e isIn => ?_, fun e isIn => ?_⟩
  · obtain ⟨it, isItem, same, -⟩ := required e isIn
    exact same ▸ (of_mem_zip isItem).1
  obtain ⟨set, isItem⟩ := listed e isIn
  rcases within _ isItem with apart | ⟨isRequired, isWithin⟩
  · exact .inr ⟨set, apart, each isItem⟩
  · exact .inl ⟨isRequired, fun re isRead => (each isItem re isRead).mono isWithin⟩

variable {required : List Expr}

/-- What follows the required constraints inside the closure and all constraints outside of it
follows all constraints.
-/
theorem Separates.glue_mem (separates : Separates eltsClosure required manager q)
    (isInside : inside ∈ assignments ⟨required⟩) (isOutside : outside ∈ assignments manager)
    : glue eltsClosure inside outside ∈ assignments manager
      ∧ q.bits (glue eltsClosure inside outside) w = q.bits inside w := by
  constructor
  · intro e isIn
    unfold Expr.Holds
    rcases separates.others e isIn with ⟨isRequired, covers⟩ | ⟨set, apart, covers⟩
    · rw [e.bits_congr 1 fun re isRead => glue_agrees_inside (covers re isRead)]
      exact isInside e isRequired
    · rw [e.bits_congr 1 fun re isRead => glue_agrees_outside (covers re isRead) apart]
      exact isOutside e isIn
  · exact q.bits_congr w fun re isRead => glue_agrees_inside (separates.query re isRead)

/-- A property of the value of the query holds under the required constraints exactly if it
holds under all constraints.
-/
theorem Separates.forall_iff (separates : Separates eltsClosure required manager q)
    (feasible : (assignments manager).Nonempty) (property : BitVec w → Prop)
    : (∀ bytes ∈ assignments ⟨required⟩, property (q.bits bytes w))
      ↔ ∀ bytes ∈ assignments manager, property (q.bits bytes w) := by
  constructor
  · exact fun all bytes isIn => all bytes fun e isRequired =>
      isIn e (separates.subset e isRequired)
  · intro all bytes isIn
    obtain ⟨outside, isOutside⟩ := feasible
    obtain ⟨isGlued, same⟩ := separates.glue_mem (w := w) isIn isOutside
    rw [← same]
    exact all _ isGlued

-- The solver

namespace IndependentSolver

variable (solver : Solver) (fuel : Nat) (constraints : ConstraintManager) (expr : Expr)

def computeValidity : Except Fault Validity := do
  let required ← getIndependentConstraints fuel constraints expr
  .ok (solver.evaluate ⟨required.2⟩ expr)

def computeTruth : Except Fault Bool := do
  let required ← getIndependentConstraints fuel constraints expr
  .ok (solver.mustBeTrue ⟨required.2⟩ expr)

def computeValue : Except Fault ConstantExpr := do
  let required ← getIndependentConstraints fuel constraints expr
  .ok (solver.getValue ⟨required.2⟩ expr)

end IndependentSolver

/-- The required constraints say of the query what all constraints say. -/
structure SameForQuery (required manager : ConstraintManager) (q : Expr) : Prop where
  subset : ∀ e ∈ required.constraints, e ∈ manager.constraints
  isTrue : (∀ bytes ∈ assignments required, q.Holds bytes)
    ↔ ∀ bytes ∈ assignments manager, q.Holds bytes
  isFalse : (∀ bytes ∈ assignments required, ¬ q.Holds bytes)
    ↔ ∀ bytes ∈ assignments manager, ¬ q.Holds bytes
  value : ∀ bytes ∈ assignments required, ∃ bytes' ∈ assignments manager,
    q.bits bytes' q.getWidth = q.bits bytes q.getWidth

theorem SameForQuery.feasible {required : ConstraintManager}
    (same : SameForQuery required manager q) (feasible : (assignments manager).Nonempty)
    : (assignments required).Nonempty := by
  obtain ⟨bytes, isIn⟩ := feasible
  exact ⟨bytes, fun e isRequired => isIn e (same.subset e isRequired)⟩

/-- The constraints that are selected for a query say the same of it, so that a correct solver
that is given only these is correct for all constraints.
-/
theorem independentSolver_correct {manager : ConstraintManager} {q : Expr} {solver : Solver}
    (boolean : manager.Boolean) (feasible : (assignments manager).Nonempty) (typed : q.Typed)
    (correct : solver.Correct)
    : (Yields (fun fuel => getIndependentConstraints fuel manager q) fun found =>
        SameForQuery ⟨found.2⟩ manager q)
      ∧ (q.Boolean →
        Yields (fun fuel => IndependentSolver.computeTruth solver fuel manager q) fun isValid =>
          isValid = true ↔ ∀ bytes ∈ assignments manager, q.Holds bytes)
      ∧ (q.Boolean →
        Yields (fun fuel => IndependentSolver.computeValidity solver fuel manager q) fun validity =>
          (validity = .True ↔ ∀ bytes ∈ assignments manager, q.Holds bytes)
          ∧ (validity = .False ↔ ∀ bytes ∈ assignments manager, ¬ q.Holds bytes))
      ∧ Yields (fun fuel => IndependentSolver.computeValue solver fuel manager q) fun value =>
          ∃ bytes ∈ assignments manager, value = ⟨q.getWidth, q.bits bytes q.getWidth⟩ := by
  have selects : Yields (fun fuel => getIndependentConstraints fuel manager q) fun found =>
      SameForQuery ⟨found.2⟩ manager q :=
    (getIndependentConstraints_yields boolean typed).mono fun found separates => {
      subset := separates.subset
      isTrue := separates.forall_iff feasible (· = 1#1)
      isFalse := separates.forall_iff feasible (¬ · = 1#1)
      value := fun bytes isIn => ⟨_, separates.glue_mem isIn feasible.choose_spec⟩ }
  refine ⟨selects, fun isBoolean => ?_, fun isBoolean => ?_, ?_⟩
  · refine selects.bind fun found same => ⟨_, settles_ok _, ?_⟩
    exact (correct.mustBeTrue (same.feasible feasible) isBoolean).trans same.isTrue
  · refine selects.bind fun found same => ⟨_, settles_ok _, ?_, ?_⟩
    · exact (correct.evaluate_true (same.feasible feasible) isBoolean).trans same.isTrue
    · exact (correct.evaluate_false (same.feasible feasible) isBoolean).trans same.isFalse
  · refine selects.bind fun found same => ⟨_, settles_ok _, ?_⟩
    obtain ⟨bytes, isIn, value⟩ := correct.getValue (same.feasible feasible) typed
    obtain ⟨bytes', isIn', sameValue⟩ := same.value bytes isIn
    exact ⟨bytes', isIn', by rw [value, sameValue]⟩

/-- Another array than the one of the input. -/
def otherByte : Expr :=
  .read ⟨2, "other", 1, [], input_sized⟩ .null (.constant ⟨32, 0#32⟩)

/-- The input is seven, and the other byte is one. -/
def bothBytes : ConstraintManager :=
  ⟨[.comparison .Eq (.constant ⟨8, 7#8⟩) inputByte,
    .comparison .Eq (.constant ⟨8, 1#8⟩) otherByte]⟩

theorem independentSolver_correct_both
    : Yields (fun fuel => IndependentSolver.computeValue perfectSolver fuel bothBytes inputByte)
        fun value => value = ⟨8, 7#8⟩ := by
  have boolean : bothBytes.Boolean := by
    simp [ConstraintManager.Boolean, bothBytes, Expr.Boolean, inputByte, otherByte, Expr.Typed,
      UpdateNode.Typed, Expr.getWidth]
  have feasible : (assignments bothBytes).Nonempty := by
    refine ⟨fun array _ => if array.address = 1 then 7#8 else 1#8, ?_⟩
    simp [assignments, ConstraintManager.Satisfies, bothBytes, inputByte, otherByte, Expr.Holds,
      Expr.bits, Expr.getWidth, UpdateNode.byte, Array.byte, Array.isSymbolicArray,
      ComparisonKind.apply]
  have value :=
    (independentSolver_correct boolean feasible inputByte_typed perfectSolver_correct).2.2.2
  refine value.mono fun value isValue => ?_
  obtain ⟨bytes, isIn, rfl⟩ := isValue
  have first : (Expr.comparison .Eq (.constant ⟨8, 7#8⟩) inputByte).Holds bytes :=
    isIn _ (.head _)
  have seven : 7#8 = inputByte.bits bytes 8 := by
    have equal : BitVec.ofBool (7#8 == inputByte.bits bytes 8) = 1#1 := first
    by_contra different
    rw [beq_eq_false_iff_ne.mpr different] at equal
    cases equal
  exact congrArg (fun x => (⟨8, x⟩ : ConstantExpr)) seven.symm

end Woodpecker.Solvers
