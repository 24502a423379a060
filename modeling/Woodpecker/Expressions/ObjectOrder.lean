import Mathlib.Data.String.Basic
import Woodpecker.Expressions.Objects
import Woodpecker.Library.Trees

/-! What the comparison of expression objects computes.

An object is read as a tree: its label has the kind, the hash value and the contents, and the
subtrees are the updates of a read and the kids. Comparison is the order of these trees;
shared objects and pairs found equal before only shorten it.
-/

namespace Woodpecker.Expressions

open Library Object LabelTree UpdateObject

-- Objects as trees

/-- What `compareContents` looks at, apart from other objects. -/
structure Contents where
  name : String
  first : Nat
  second : Nat
deriving DecidableEq

instance contentsOrd : Ord Contents where
  compare := compareLex (compareOn Contents.name)
    (compareLex (compareOn Contents.first) (compareOn Contents.second))

instance contentsTransOrd : Std.TransOrd Contents :=
  inferInstanceAs (Std.TransCmp (compareLex (compareOn Contents.name)
    (compareLex (compareOn Contents.first) (compareOn Contents.second))))

theorem Contents.compare_eq (a b : Contents)
    : compare a b = (compare a.name b.name).then
        ((compare a.first b.first).then (compare a.second b.second)) :=
  rfl

instance contentsLawfulEqOrd : Std.LawfulEqOrd Contents where
  eq_of_compare {a b} same := by
    obtain ⟨name, first, second⟩ := a
    obtain ⟨name', first', second'⟩ := b
    simpa only [Contents.compare_eq, Ordering.then_eq_eq, Std.LawfulEqOrd.compare_eq_iff_eq,
      Contents.mk.injEq] using same

structure Label where
  kind : Nat
  hash : UInt32
  contents : Contents

instance labelOrd : Ord Label where
  compare := compareLex (compareOn Label.kind)
    (compareLex (compareOn Label.hash) (compareOn Label.contents))

instance labelTransOrd : Std.TransOrd Label :=
  inferInstanceAs (Std.TransCmp (compareLex (compareOn Label.kind)
    (compareLex (compareOn Label.hash) (compareOn Label.contents))))

theorem Label.compare_eq (a b : Label)
    : compare a b = (compare a.kind b.kind).then
        ((compare a.hash b.hash).then (compare a.contents b.contents)) :=
  rfl

instance labelLawfulEqOrd : Std.LawfulEqOrd Label where
  eq_of_compare {a b} same := by
    obtain ⟨kind, hash, contents⟩ := a
    obtain ⟨kind', hash', contents'⟩ := b
    simpa only [Label.compare_eq, Ordering.then_eq_eq, Std.LawfulEqOrd.compare_eq_iff_eq,
      Label.mk.injEq] using same

def Object.contents : Object → Contents
  | .constant _ c => ⟨"", c.width, c.value.toNat⟩
  | .read _ root head _ => ⟨root.name, root.address, head.getSize⟩
  | .extract _ _ offset width => ⟨"", offset, width⟩
  | .cast _ _ _ width => ⟨"", width, 0⟩
  | _ => ⟨"", 0, 0⟩

def Object.label (object : Object) : Label where
  kind := object.getKind
  hash := object.hash
  contents := object.contents

mutual

def Object.tree : Object → LabelTree Label
  | .constant header c => .node (Object.constant header c).label []
  | .notOptimized header src => .node (Object.notOptimized header src).label [src.tree]
  | .read header root head index =>
    .node (Object.read header root head index).label (head.trees ++ [index.tree])
  | .select header cond trueExpr falseExpr =>
    .node (Object.select header cond trueExpr falseExpr).label
      [cond.tree, trueExpr.tree, falseExpr.tree]
  | .concat header left right =>
    .node (Object.concat header left right).label [left.tree, right.tree]
  | .extract header expr offset width =>
    .node (Object.extract header expr offset width).label [expr.tree]
  -- the operand is compared with the contents and as a kid
  | .not header expr => .node (Object.not header expr).label [expr.tree, expr.tree]
  | .cast header kind src width => .node (Object.cast header kind src width).label [src.tree]
  | .arithmetic header kind left right =>
    .node (Object.arithmetic header kind left right).label [left.tree, right.tree]
  | .comparison header kind left right =>
    .node (Object.comparison header kind left right).label [left.tree, right.tree]

def UpdateObject.trees : UpdateObject → List (LabelTree Label)
  | .null => []
  | .node _ index value next => index.tree :: value.tree :: next.trees

end

/-- The result that stands for an ordering. -/
def sign : Ordering → Int
  | .lt => -1
  | .eq => 0
  | .gt => 1

theorem sign_then (first second : Ordering)
    : sign (first.then second) = if sign first ≠ 0 then sign first else sign second := by
  cases first <;> simp [sign]

theorem sign_eq_zero_iff {order : Ordering} : sign order = 0 ↔ order = .eq := by
  cases order <;> simp [sign]

variable {α : Type}

/-- Comparing values that differ. -/
theorem sign_of_ne [LT α] [DecidableLT α] [Ord α] [Std.LawfulEqOrd α] {a b : α}
    (less : compare a b = .lt ↔ a < b) (differ : a ≠ b)
    : (if a < b then -1 else 1 : Int) = sign (compare a b) := by
  cases order : compare a b with
  | lt => rw [if_pos (less.mp order), sign]
  | eq => exact absurd (Std.LawfulEqOrd.eq_of_compare order) differ
  | gt =>
    have notLess : ¬ a < b := fun isLess => by cases (less.mpr isLess).symm.trans order
    rw [if_neg notLess, sign]

/-- Values that differ decide. -/
theorem sign_first [Ord α] [Std.LawfulEqOrd α] {a b : α} (differ : a ≠ b) (next : Ordering)
    : sign ((compare a b).then next) = sign (compare a b) := by
  have decided : sign (compare a b) ≠ 0 := fun zero =>
    differ (Std.LawfulEqOrd.eq_of_compare (sign_eq_zero_iff.mp zero))
  rw [sign_then, if_pos decided]

theorem compare_then [Ord α] [Std.LawfulEqOrd α] {a b : α} (same : a = b) (next : Ordering)
    : (compare a b).then next = next := by
  rw [Std.LawfulEqOrd.compare_eq_iff_eq.mpr same, Ordering.eq_then]

/-- Comparing values and then something else. -/
theorem compareValues_eq [DecidableEq α] [LT α] [DecidableLT α] [Ord α] [Std.LawfulEqOrd α]
    {a b : α} (less : compare a b = .lt ↔ a < b) (next : Int)
    : compareValues a b next = if a = b then next else sign (compare a b) := by
  unfold compareValues
  by_cases same : a = b
  · simp [same]
  · rw [if_pos same, if_neg same, sign_of_ne less same]

theorem Contents.compareValues_eq (a b : Contents) (next : Int)
    : compareValues a.name b.name (compareValues a.first b.first
        (compareValues a.second b.second next))
      = if a = b then next else sign (compare a b) := by
  obtain ⟨name, first, second⟩ := a
  obtain ⟨name', first', second'⟩ := b
  rw [Expressions.compareValues_eq compare_lt_iff_lt,
    Expressions.compareValues_eq compare_lt_iff_lt,
    Expressions.compareValues_eq compare_lt_iff_lt, Contents.compare_eq]
  by_cases sameName : name = name'
  · by_cases sameFirst : first = first'
    · by_cases sameSecond : second = second'
      · simp [sameName, sameFirst, sameSecond]
      · simp [sameName, sameFirst, sameSecond]
    · simp [sameName, sameFirst, sign_first sameFirst]
  · simp [sameName, sign_first sameName]

theorem compareNumbers_eq (first second first' second' : Nat)
    : compareValues first first' (compareValues second second' 0)
      = if Contents.mk "" first second = ⟨"", first', second'⟩ then 0
        else sign (compare (Contents.mk "" first second) ⟨"", first', second'⟩) := by
  rw [← Contents.compareValues_eq ⟨"", first, second⟩ ⟨"", first', second'⟩ 0]
  simp [compareValues]

/-- The update nodes of a read. -/
def Object.list : Object → UpdateObject
  | .read _ _ head _ => head
  | _ => .null

/-- What holds for an object whenever it holds for its kids and its update nodes holds for
every object.
-/
theorem Object.of_parts {P : Object → Prop} {Q : UpdateObject → Prop}
    (parts : ∀ object, (∀ kid ∈ object.kids, P kid) → Q object.list → P object) (null : Q .null)
    (node : ∀ header index value next, P index → P value → Q next
      → Q (.node header index value next))
    (object : Object)
    : P object := by
  refine @rec P Q ?_ ?_ ?_ ?_ ?_ ?_ ?_ ?_ ?_ ?_ null node object
  all_goals
    intros
    refine parts _ ?_ ?_ <;> clear parts node <;> simp_all [kids, list]

/-- The trees that `compareContents` looks at. -/
def Object.own : Object → List (LabelTree Label)
  | .read _ _ head _ => head.trees
  | .not _ expr => [expr.tree]
  | _ => []

theorem Object.tree_eq (object : Object)
    : object.tree = .node object.label (object.own ++ object.kids.map tree) := by
  cases object <;> rfl

theorem UpdateObject.length_trees (head : UpdateObject)
    : head.trees.length = 2 * head.getSize := by
  match head with
  | .null => rfl
  | .node _ _ _ next =>
    have rest := next.length_trees
    simp only [trees, getSize, List.length_cons, rest]
    omega

-- Comparison

/-- What the allocator keeps: the parts of an object are allocated, and addresses tell
objects apart.
-/
structure ObjectHeap.Closed (heap : ObjectHeap) : Prop where
  parts : ∀ object ∈ heap.objects, heap.HasParts object
  nodes : ∀ header index value next, UpdateObject.node header index value next ∈ heap.nodes →
    index ∈ heap.objects ∧ value ∈ heap.objects ∧ heap.HasList next
  objectAddress : ∀ a ∈ heap.objects, ∀ b ∈ heap.objects, a.address = b.address → a = b
  nodeAddress : ∀ a ∈ heap.nodes, ∀ b ∈ heap.nodes, a.address = b.address → a = b
  arrayAddress : ∀ a ∈ heap.arrays, ∀ b ∈ heap.arrays, a.address = b.address → a = b

def addressPair (a b : Object) : Nat × Nat :=
  (min a.address b.address, max a.address b.address)

/-- Pairs were found equal before. -/
def EquivsHold (heap : ObjectHeap) (equivs : ExprEquivSet) : Prop :=
  ∀ a ∈ heap.objects, ∀ b ∈ heap.objects, addressPair a b ∈ equivs → a.tree = b.tree

theorem equivsHold_nil (heap : ObjectHeap) : EquivsHold heap [] := by
  intro a _ b _ member
  cases member

/-- A result that says how two trees compare, and only adds pairs that are equal. -/
structure CompareResult (heap : ObjectHeap) (order : Ordering) (result : Int × ExprEquivSet)
    : Prop where
  value : result.1 = sign order
  equivs : EquivsHold heap result.2

/-- The comparison of an object with any other. -/
def InOrder (heap : ObjectHeap) (a : Object) : Prop :=
  ∀ b ∈ heap.objects, ∀ equivs, EquivsHold heap equivs
    → CompareResult heap (a.tree.cmp b.tree) (a.compare b equivs)

variable {heap : ObjectHeap} {equivs : ExprEquivSet}

/-- The loop over the kids, by induction on them. -/
theorem compareKids_result {kids kids' : List Object} (each : ∀ kid ∈ kids, InOrder heap kid)
    (there : ∀ kid ∈ kids', kid ∈ heap.objects) (length : kids.length = kids'.length)
    (hold : EquivsHold heap equivs)
    : CompareResult heap (cmpAll (kids.map tree) (kids'.map tree))
        (compareKids (kids.map compare) kids' equivs) := by
  induction kids generalizing kids' equivs with
  | nil =>
    obtain rfl := List.length_eq_zero_iff.mp length.symm
    exact ⟨rfl, hold⟩
  | cons kid rest ih =>
    match kids' with
    | kid' :: rest' =>
      obtain ⟨value, hold'⟩ := each kid (by simp) kid' (there kid' (by simp)) equivs hold
      simp only [List.map_cons, compareKids, cmpAll]
      split
      next decided =>
        refine ⟨?_, hold'⟩
        rw [sign_then, ← value, if_pos decided]
      next equal =>
        have rest := ih (fun other later => each other (by simp [later]))
          (fun other later => there other (by simp [later])) (Nat.succ.inj length) hold'
        refine ⟨?_, rest.equivs⟩
        rw [sign_then, ← value, if_neg equal]
        exact rest.value

variable {a b : Object}

theorem EquivsHold.insert (hold : EquivsHold heap equivs) (closed : heap.Closed)
    (hasA : a ∈ heap.objects) (hasB : b ∈ heap.objects) (same : a.tree = b.tree)
    : EquivsHold heap (addressPair a b :: equivs) := by
  intro x hasX y hasY member
  rcases List.mem_cons.mp member with pair | earlier
  · have either : x.address = a.address ∧ y.address = b.address
        ∨ x.address = b.address ∧ y.address = a.address := by
      simp [addressPair] at pair
      omega
    rcases either with ⟨first, second⟩ | ⟨first, second⟩
    · rw [closed.objectAddress x hasX a hasA first, closed.objectAddress y hasY b hasB second]
      exact same
    · rw [closed.objectAddress x hasX b hasB first, closed.objectAddress y hasY a hasA second]
      exact same.symm
  · exact hold x hasX y hasY earlier

/-- How the contents of two objects of one kind compare, and that they have as many kids. -/
structure SameKind (a b : Object) (contents : Int) : Prop where
  differ : a.contents ≠ b.contents → contents = sign (compare a.contents b.contents)
  agree : a.contents = b.contents
    → a.own.length = b.own.length ∧ contents = sign (LabelTree.cmpAll a.own b.own)
  kids : a.kids.length = b.kids.length

theorem compareObjects_result {contents : Int} (closed : heap.Closed) (hasA : a ∈ heap.objects)
    (hasB : b ∈ heap.objects) (same : a.getKind = b.getKind → SameKind a b contents)
    (each : ∀ kid ∈ a.kids, InOrder heap kid) (hold : EquivsHold heap equivs)
    : CompareResult heap (a.tree.cmp b.tree)
        (compareObjects a b equivs contents (a.kids.map compare)) := by
  have ordered : a.tree.cmp b.tree = (compare a.getKind b.getKind).then
      ((compare a.hash b.hash).then ((compare a.contents b.contents).then
        (cmpAll (a.own ++ a.kids.map tree) (b.own ++ b.kids.map tree)))) := by
    rw [a.tree_eq, b.tree_eq, LabelTree.cmp, Label.compare_eq, Ordering.then_assoc,
      Ordering.then_assoc]
    rfl
  have equal (same : a.tree = b.tree) : (0 : Int) = sign (a.tree.cmp b.tree) := by
    rw [(cmp_eq_iff a.tree b.tree).mpr same, sign]
  unfold compareObjects
  dsimp only
  split
  next shared => exact ⟨equal (congrArg tree (closed.objectAddress a hasA b hasB shared)), hold⟩
  split
  next found => exact ⟨equal (hold a hasA b hasB found), hold⟩
  split
  next differ =>
    refine ⟨?_, hold⟩
    rw [ordered, sign_first differ]
    exact sign_of_ne compare_lt_iff_lt differ
  next sameKind =>
  have sameKind := not_not.mp sameKind
  split
  next differ =>
    refine ⟨?_, hold⟩
    rw [ordered, compare_then sameKind, sign_first differ]
    exact sign_of_ne Std.compare_eq_lt differ
  next sameHash =>
  have sameHash := not_not.mp sameHash
  obtain ⟨differ, agree, length⟩ := same sameKind
  rw [ordered, compare_then sameKind, compare_then sameHash]
  by_cases sameContents : a.contents = b.contents
  · obtain ⟨sameLength, isSign⟩ := agree sameContents
    have rest := compareKids_result each (closed.parts b hasB).1 length hold
    rw [compare_then sameContents, cmpAll_append sameLength, isSign]
    split
    next decided => exact ⟨by rw [sign_then, if_pos decided], hold⟩
    next equalOwn =>
    split
    next decided =>
      refine ⟨?_, rest.equivs⟩
      rw [sign_then, if_neg equalOwn]
      exact rest.value
    next equalKids =>
      have isEqual : sign (a.tree.cmp b.tree) = 0 := by
        rw [ordered, compare_then sameKind, compare_then sameHash, compare_then sameContents,
          cmpAll_append sameLength, sign_then, if_neg equalOwn, ← rest.value]
        exact not_not.mp equalKids
      have sameTree : a.tree = b.tree :=
        (cmp_eq_iff a.tree b.tree).mp (sign_eq_zero_iff.mp isEqual)
      exact ⟨by rw [← isEqual, ordered, compare_then sameKind, compare_then sameHash,
        compare_then sameContents, cmpAll_append sameLength],
        rest.equivs.insert closed hasA hasB sameTree⟩
  · have decided : contents ≠ 0 := by
      rw [differ sameContents]
      exact fun zero =>
        sameContents (Std.LawfulEqOrd.eq_of_compare (sign_eq_zero_iff.mp zero))
    rw [if_pos decided]
    exact ⟨by rw [sign_first sameContents, differ sameContents], hold⟩

/-- The class of an object, which its kind tells. -/
def Object.shape : Object → Nat
  | .constant _ _ => 0
  | .notOptimized _ _ => 1
  | .read _ _ _ _ => 2
  | .select _ _ _ _ => 3
  | .concat _ _ _ => 4
  | .extract _ _ _ _ => 5
  | .not _ _ => 6
  | .cast _ _ _ _ => 7
  | .arithmetic _ _ _ _ => 8
  | .comparison _ _ _ _ => 9

theorem Object.shape_eq_of_kind (same : a.getKind = b.getKind)
    : a.shape = b.shape := by
  let shapeOf (kind : Nat) : Nat :=
    if kind ≤ 1 then kind else if kind ≤ 6 then kind - 1 else if kind ≤ 8 then 7
      else if kind = 16 then 6 else if kind ≤ 22 then 8 else 9
  have told (object : Object) : shapeOf object.getKind = object.shape := by
    cases object with
    | cast _ kind => cases kind <;> rfl
    | arithmetic _ kind => cases kind <;> rfl
    | comparison _ kind => cases kind <;> rfl
    | _ => rfl
  rw [← told a, ← told b, same]

/-- `compareContents`, which is called for objects of one kind. -/
def Object.compareContents : Object → Object → Int
  | .constant _ c, .constant _ cb => c.compareContents cb
  | .read _ root head _, .read _ root' head' _ =>
    compareLists root root' head head' (head.compare head')
  | .extract _ _ offset width, .extract _ _ offset' width' =>
    compareValues offset offset' (compareValues width width' 0)
  | .not _ expr, .not _ expr' =>
    if expr.compareTo expr' ≠ 0 then if expr.compareTo expr' < 0 then -1 else 1 else 0
  | .cast _ _ _ width, .cast _ _ _ width' => compareValues width width' 0
  | _, _ => 0

theorem Object.compare_eq (a b : Object) (equivs : ExprEquivSet)
    : a.compare b equivs
      = compareObjects a b equivs (a.compareContents b) (a.kids.map compare) := by
  cases a <;> first | rfl | (cases b <;> rfl)

/-- Objects without contents of their own. -/
theorem SameKind.plain (shape : a.shape = b.shape) (plain : a.shape ∈ [1, 3, 4, 8, 9])
    : SameKind a b (a.compareContents b) := by
  have same : a.contents = b.contents ∧ a.own = [] ∧ b.own = []
      ∧ a.kids.length = b.kids.length ∧ a.compareContents b = 0 := by
    cases a <;> cases b <;> simp [Object.shape] at shape plain <;> exact ⟨rfl, rfl, rfl, rfl, rfl⟩
  obtain ⟨contents, ownA, ownB, kids, zero⟩ := same
  refine ⟨fun differ => absurd contents differ, fun _ => ?_, kids⟩
  simp [ownA, ownB, zero, cmpAll, sign]

/-- Objects whose contents are numbers. -/
theorem SameKind.valued (ownA : a.own = []) (ownB : b.own = [])
    (kids : a.kids.length = b.kids.length) {contents : Int}
    (compared : contents = if a.contents = b.contents then 0
      else sign (compare a.contents b.contents))
    : SameKind a b contents where
  differ differ := by rw [compared, if_neg differ]
  agree same := by simp [ownA, ownB, cmpAll, sign, compared, same]
  kids := kids

/-- Objects of one kind, if their update nodes and kids are compared in order. -/
theorem SameKind.of_parts (kind : a.getKind = b.getKind) (lists : a.list.getSize = b.list.getSize
      → a.list.compare b.list = sign (cmpAll a.list.trees b.list.trees))
    (kids : ∀ kid ∈ a.kids, ∀ kid' ∈ b.kids, kid.compareTo kid' = sign (kid.tree.cmp kid'.tree))
    : SameKind a b (a.compareContents b) := by
  have shape := Object.shape_eq_of_kind kind
  by_cases plain : a.shape ∈ [1, 3, 4, 8, 9]
  · exact .plain shape plain
  cases a <;> cases b <;> simp [Object.shape] at shape plain
  case constant.constant _ c _ c' =>
      refine .valued (by rfl) (by rfl) (by rfl) ?_
      exact compareNumbers_eq c.width c.value.toNat c'.width c'.value.toNat
  case extract.extract _ _ offset width _ _ offset' width' =>
      refine .valued (by rfl) (by rfl) (by rfl) ?_
      exact compareNumbers_eq offset width offset' width'
  case cast.cast _ _ _ width _ _ _ width' =>
      refine .valued (by rfl) (by rfl) (by rfl) ?_
      exact compareNumbers_eq width 0 width' 0
  case read.read header root head index header' root' head' index' =>
      have compared := Contents.compareValues_eq (Object.read header root head index).contents
        (Object.read header' root' head' index').contents (head.compare head')
      refine ⟨fun differ => compared.trans (if_neg differ), fun agree => ?_, rfl⟩
      have sameSize : head.getSize = head'.getSize := congrArg Contents.second agree
      refine ⟨?_, (compared.trans (if_pos agree)).trans (lists sameSize)⟩
      simp only [Object.own, length_trees, sameSize]
  case not.not header expr header' expr' =>
      have compared := kids expr (List.mem_singleton_self _) expr' (List.mem_singleton_self _)
      refine ⟨fun differ => absurd rfl differ, fun _ => ⟨rfl, ?_⟩, rfl⟩
      rw [Object.compareContents, compared]
      simp only [Object.own, cmpAll]
      cases expr.tree.cmp expr'.tree <;> simp [sign]

theorem ObjectHeap.HasParts.list {object : Object} (has : heap.HasParts object)
    : heap.HasList object.list := by
  cases object with
  | read header root head index => exact (has.2 header root head index rfl).2
  | _ => exact .inl rfl

/-- Comparison is in order, by induction on the object and along the updates of a read. -/
theorem Object.inOrder (closed : heap.Closed) (a : Object)
    : a ∈ heap.objects → InOrder heap a := by
  refine of_parts (P := fun a => a ∈ heap.objects → InOrder heap a)
    (Q := fun head => heap.HasList head → ∀ head', heap.HasList head'
      → head.getSize = head'.getSize
      → head.compare head' = sign (cmpAll head.trees head'.trees)) ?_ ?_ ?_ a
  · intro a ofKids ofList hasA b hasB equivs hold
    have hasParts := closed.parts a hasA
    have hasParts' := closed.parts b hasB
    have inOrder (kid : Object) (isKid : kid ∈ a.kids) := ofKids kid isKid (hasParts.1 kid isKid)
    rw [compare_eq]
    refine compareObjects_result closed hasA hasB (fun same => ?_) inOrder hold
    refine .of_parts same (ofList hasParts.list b.list hasParts'.list) ?_
    intro kid isKid kid' isKid'
    exact (inOrder kid isKid kid' (hasParts'.1 kid' isKid') [] (equivsHold_nil heap)).value
  · intro _ head' _ sameSize
    cases head' with
    | null => rfl
    | node => simp [getSize] at sameSize
  · intro header index value next ofIndex ofValue ofNext hasHead head' hasHead' sameSize
    cases head' with
    | null => simp [getSize] at sameSize
    | node header' index' value' next' =>
      have member := hasHead.resolve_left (by simp)
      have member' := hasHead'.resolve_left (by simp)
      obtain ⟨hasIndex, hasValue, hasNext⟩ := closed.nodes _ _ _ _ member
      obtain ⟨hasIndex', hasValue', hasNext'⟩ := closed.nodes _ _ _ _ member'
      have first := (ofIndex hasIndex index' hasIndex' [] (equivsHold_nil heap)).value
      have second := (ofValue hasValue value' hasValue' [] (equivsHold_nil heap)).value
      have rest := ofNext hasNext next' hasNext' (Nat.succ.inj sameSize)
      rw [UpdateObject.compare, UpdateObject.trees, UpdateObject.trees, cmpAll,
        cmpAll, sign_then, sign_then, first, second, rest]
      split
      next shared =>
        have same := closed.nodeAddress _ member _ member' shared
        obtain ⟨-, rfl, rfl, rfl⟩ := node.inj same
        simp [(cmp_eq_iff _ _).mpr rfl, (cmpAll_eq_iff _ _).mpr rfl, sign]
      · rfl

end Woodpecker.Expressions
