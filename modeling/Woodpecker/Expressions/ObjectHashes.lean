import Woodpecker.Expressions.ObjectOrder

/-! Expression objects that are built by allocations: comparison is a total order, and it
takes objects for equal that represent one expression exactly if the memory under `NotExpr`
objects does not tell them apart.
-/

namespace Woodpecker.Expressions

open Library Object List

/-- `compare` is a total order on objects in which equal means one expression, and objects
for one expression have one hash value.
-/
structure ObjectHeap.Lawful (heap : ObjectHeap) : Prop where
  equal : ∀ a ∈ heap.objects, ∀ b ∈ heap.objects, a.expr = b.expr →
    a.hash = b.hash ∧ a.compareTo b = 0
  zero : ∀ a ∈ heap.objects, ∀ b ∈ heap.objects, a.compareTo b = 0 → a.expr = b.expr
  antisymm : ∀ a ∈ heap.objects, ∀ b ∈ heap.objects, b.compareTo a = - a.compareTo b
  trans : ∀ a ∈ heap.objects, ∀ b ∈ heap.objects, ∀ c ∈ heap.objects,
    a.compareTo b ≤ 0 → b.compareTo c ≤ 0 → a.compareTo c ≤ 0

/-- Whenever `NotExpr` objects are allocated for one operand, the memory for their hash
values holds the same.
-/
def SameMemory (allocations : List Allocation) : Prop :=
  ∀ header expr memory header' expr' memory',
    .alloc (.not header expr) memory ∈ allocations
    → .alloc (.not header' expr') memory' ∈ allocations
    → expr.expr = expr'.expr → memory = memory'

-- Allocations

/-- All objects were allocated with their hash values. -/
structure ObjectHeap.Allocated (getHashValue : ConstantExpr → UInt32)
    (allocations : List Allocation) (heap : ObjectHeap) : Prop extends heap.Closed where
  hashed : ∀ object ∈ heap.objects, ∃ memory, .alloc object memory ∈ allocations
    ∧ object.hash = object.computeHash getHashValue memory
  kept : ∀ object memory, .alloc object memory ∈ allocations →
    object ∈ heap.objects ∧ object.hash = object.computeHash getHashValue memory
  nodeHashed : ∀ node ∈ heap.nodes, node.hash = node.computeHash

variable {getHashValue : ConstantExpr → UInt32} {allocations : List Allocation}
  {heap after : ObjectHeap}

theorem ObjectHeap.HasList.mono {head : UpdateObject} (has : heap.HasList head)
    (nodes : heap.nodes ⊆ after.nodes)
    : after.HasList head :=
  has.imp id fun member => nodes member

theorem ObjectHeap.HasParts.mono {object : Object} (has : heap.HasParts object)
    (arrays : heap.arrays ⊆ after.arrays) (nodes : heap.nodes ⊆ after.nodes)
    (objects : heap.objects ⊆ after.objects)
    : after.HasParts object := by
  refine ⟨fun kid member => objects (has.1 kid member), ?_⟩
  intro header root head index isRead
  obtain ⟨hasRoot, hasHead⟩ := has.2 header root head index isRead
  exact ⟨arrays hasRoot, hasHead.mono nodes⟩

/-- Addresses still tell things apart when one is added at a new address. -/
theorem address_cons {α : Type} {address : α → Nat} {items : List α} {item : α}
    (apart : ∀ a ∈ items, ∀ b ∈ items, address a = address b → a = b)
    (fresh : ∀ other ∈ items, address other ≠ address item)
    : ∀ a ∈ item :: items, ∀ b ∈ item :: items, address a = address b → a = b := by
  intro a hasA b hasB same
  rcases mem_cons.mp hasA with rfl | oldA
  · rcases mem_cons.mp hasB with rfl | oldB
    · rfl
    · exact absurd same.symm (fresh b oldB)
  rcases mem_cons.mp hasB with rfl | oldB
  · exact absurd same (fresh a oldA)
  · exact apart a oldA b oldB same

/-- One allocation. -/
theorem ObjectHeap.Allocated.step {allocation : Allocation}
    (allocated : heap.Allocated getHashValue allocations)
    (step : AllocationStep getHashValue heap allocation after)
    : after.Allocated getHashValue (allocations ++ [allocation]) := by
  have kept (object : Object) (memory : UInt32)
      (earlier : .alloc object memory ∈ allocations ++ [allocation])
      : .alloc object memory ∈ allocations ∨ .alloc object memory = allocation := by
    simpa using earlier
  have hashed (object : Object) (member : object ∈ heap.objects)
      : ∃ memory, .alloc object memory ∈ allocations ++ [allocation]
        ∧ object.hash = object.computeHash getHashValue memory := by
    obtain ⟨memory, earlier, hashed⟩ := allocated.hashed object member
    exact ⟨memory, by simp [earlier], hashed⟩
  cases step with
  | array array fresh =>
    refine ⟨⟨?_, allocated.nodes, allocated.objectAddress, allocated.nodeAddress,
      address_cons allocated.arrayAddress fresh⟩, hashed, ?_, allocated.nodeHashed⟩
    · intro object member
      exact (allocated.parts object member).mono (subset_cons_self _ _)
        (Subset.refl _) (Subset.refl _)
    · intro object memory earlier
      exact allocated.kept object memory ((kept object memory earlier).resolve_right (by simp))
  | extend header index value next hasIndex hasValue hasNext nodeHashed fresh =>
    have more : heap.nodes ⊆ .node header index value next :: heap.nodes :=
      subset_cons_self _ _
    refine ⟨⟨?_, ?_, allocated.objectAddress, address_cons allocated.nodeAddress fresh,
      allocated.arrayAddress⟩, hashed, ?_, forall_mem_cons.mpr ⟨nodeHashed, allocated.nodeHashed⟩⟩
    · intro object member
      exact (allocated.parts object member).mono (Subset.refl _) more (Subset.refl _)
    · intro header' index' value' next' member
      rcases mem_cons.mp member with new | old
      · obtain ⟨rfl, rfl, rfl, rfl⟩ := UpdateObject.node.inj new
        exact ⟨hasIndex, hasValue, hasNext.mono more⟩
      · obtain ⟨oldIndex, oldValue, oldNext⟩ := allocated.nodes _ _ _ _ old
        exact ⟨oldIndex, oldValue, oldNext.mono more⟩
    · intro object memory earlier
      exact allocated.kept object memory ((kept object memory earlier).resolve_right (by simp))
  | alloc object memory hasParts newHashed fresh =>
    have more : heap.objects ⊆ object :: heap.objects := subset_cons_self _ _
    refine ⟨⟨?_, ?_, address_cons allocated.objectAddress fresh, allocated.nodeAddress,
      allocated.arrayAddress⟩, forall_mem_cons.mpr ⟨⟨memory, by simp, newHashed⟩, hashed⟩, ?_,
      allocated.nodeHashed⟩
    · exact fun other member => (forall_mem_cons.mpr ⟨hasParts, allocated.parts⟩ other member).mono
        (Subset.refl _) (Subset.refl _) more
    · intro header index value next member
      obtain ⟨hasIndex, hasValue, hasNext⟩ := allocated.nodes _ _ _ _ member
      exact ⟨more hasIndex, more hasValue, hasNext⟩
    · intro other memory' earlier
      rcases kept other memory' earlier with old | new
      · obtain ⟨member, hashed⟩ := allocated.kept other memory' old
        exact ⟨more member, hashed⟩
      · obtain ⟨rfl, rfl⟩ := Allocation.alloc.inj new
        exact ⟨by simp, newHashed⟩

theorem ObjectHeap.allocated_empty : empty.Allocated getHashValue [] := by
  constructor <;> simp [empty]
  constructor <;> simp

-- Trees and expressions

theorem CastKind.number_inj {kind kind' : CastKind} (same : kind.number = kind'.number)
    : kind = kind' := by
  cases kind <;> cases kind' <;> first | rfl | cases same

theorem ArithmeticKind.number_inj {kind kind' : ArithmeticKind} (same : kind.number = kind'.number)
    : kind = kind' := by
  cases kind <;> cases kind' <;> first | rfl | cases same

theorem ComparisonKind.number_inj {kind kind' : ComparisonKind} (same : kind.number = kind'.number)
    : kind = kind' := by
  cases kind <;> cases kind' <;> first | rfl | cases same

variable {a b : Object}

/-- Equal trees have equal labels and subtrees. -/
theorem Object.tree_inj (same : a.tree = b.tree)
    : a.getKind = b.getKind ∧ a.hash = b.hash ∧ a.contents = b.contents
      ∧ a.own ++ a.kids.map tree = b.own ++ b.kids.map tree := by
  rw [a.tree_eq, b.tree_eq] at same
  obtain ⟨label, kids⟩ := LabelTree.node.inj same
  exact ⟨congrArg Label.kind label, congrArg Label.hash label, congrArg Label.contents label, kids⟩

theorem ConstantExpr.ext_toNat {c c' : ConstantExpr} (width : c.width = c'.width)
    (value : c.value.toNat = c'.value.toNat)
    : c = c' := by
  obtain ⟨w, v⟩ := c
  obtain ⟨w', v'⟩ := c'
  obtain rfl : w = w' := width
  exact congrArg (mk w) (BitVec.eq_of_toNat_eq value)

/-- The array that a read refers to. -/
def Object.root : Object → Option Array
  | .read _ root _ _ => some root
  | _ => none

attribute [local simp] own kids list root shape contents
  getKind expr

/-- An object represents what its kind, contents and parts tell. -/
theorem Object.expr_eq_of_parts (kind : a.getKind = b.getKind) (contents : a.contents = b.contents)
    (roots : ∀ root ∈ a.root, ∀ root' ∈ b.root, root.address = root'.address → root = root')
    (updates : a.list.updates = b.list.updates) (kids : a.kids.map expr = b.kids.map expr)
    : a.expr = b.expr := by
  have shape := shape_eq_of_kind kind
  cases a <;> cases b <;> simp at shape
  case constant.constant =>
      obtain ⟨-, width, value⟩ := Contents.mk.inj contents
      exact congrArg Expr.constant (ConstantExpr.ext_toNat width value)
  case cast.cast => simp_all [CastKind.number_inj kind]
  case arithmetic.arithmetic => simp_all [ArithmeticKind.number_inj kind]
  case comparison.comparison => simp_all [ComparisonKind.number_inj kind]
  all_goals simp_all

/-- Objects for one expression have one kind and parts for the same. -/
theorem Object.expr_inj (same : a.expr = b.expr)
    : a.getKind = b.getKind ∧ a.root = b.root ∧ a.list.updates = b.list.updates
      ∧ a.kids.map expr = b.kids.map expr
      ∧ (a.list.getSize = b.list.getSize → a.contents = b.contents) := by
  cases a <;> cases b <;> simp at same
  case constant.constant =>
      obtain rfl := same
      simp
  all_goals simp [same]

theorem ObjectHeap.HasParts.root {object : Object} (has : heap.HasParts object)
    : ∀ root ∈ object.root, root ∈ heap.arrays := by
  cases object with
  | read header root head index => simpa using (has.2 header root head index rfl).1
  | _ => simp

/-- What distinguishes the members of two lists distinguishes the lists. -/
theorem map_eq_of_map_eq {α β γ : Type} {f : α → β} {g : α → γ} {items items' : List α}
    (each : ∀ item ∈ items, ∀ item' ∈ items', f item = f item' → g item = g item')
    (same : items.map f = items'.map f)
    : items.map g = items'.map g := by
  induction items generalizing items' with
  | nil =>
    obtain rfl := map_eq_nil_iff.mp same.symm
    rfl
  | cons item items ih =>
    obtain ⟨item', rest, rfl, first, others⟩ := map_eq_cons_iff.mp same.symm
    rw [map_cons, map_cons, each item (.head _) item' (.head _) first.symm,
      ih (fun k isK k' isK' => each k (.tail _ isK) k' (.tail _ isK')) others.symm]

/-- What is compared with the contents are the updates and the operand of a `NotExpr`. -/
theorem Object.own_eq_iff (kind : a.getKind = b.getKind) (kids : a.kids.map tree = b.kids.map tree)
    : a.own = b.own ↔ a.list.trees = b.list.trees := by
  have shape := shape_eq_of_kind kind
  cases a <;> cases b <;> simp at shape
  case not.not => simpa using kids
  all_goals simp

-- Hash values

theorem Object.hash_eq_of_tree (same : a.tree = b.tree) : a.hash = b.hash :=
  (tree_inj same).2.1

/-- The hash value of an object is computed from those of its parts. -/
theorem Object.computeHash_eq {memory memory' : UInt32} (same : a.expr = b.expr)
    (lists : a.list.hash = b.list.hash) (kids : a.kids.map hash = b.kids.map hash)
    (nots : ∀ header expr header' expr', a = .not header expr → b = .not header' expr'
      → expr.expr = expr'.expr → memory = memory')
    : a.computeHash getHashValue memory = b.computeHash getHashValue memory' := by
  cases a <;> cases b <;> simp at same
  case not.not => exact nots _ _ _ _ rfl rfl same
  all_goals simp_all [computeHash, Array.hash]

/-- Objects have equal trees exactly if they are for one expression, by induction on the
first. The hash values agree as they are computed from those of the parts.
-/
theorem Object.tree_eq_iff (allocated : heap.Allocated getHashValue allocations)
    (memory : SameMemory allocations) (a : Object)
    : a ∈ heap.objects → ∀ b ∈ heap.objects, (a.tree = b.tree ↔ a.expr = b.expr) := by
  refine of_parts
    (P := fun a => a ∈ heap.objects → ∀ b ∈ heap.objects, (a.tree = b.tree ↔ a.expr = b.expr))
    (Q := fun head => heap.HasList head → ∀ head', heap.HasList head'
      → (head.trees = head'.trees ↔ head.updates = head'.updates)
        ∧ (head.updates = head'.updates → head.hash = head'.hash)) ?_ ?_ ?_ a
  · intro a ofKids ofList hasA b hasB
    have hasParts := allocated.parts a hasA
    have hasParts' := allocated.parts b hasB
    obtain ⟨lists, listHash⟩ := ofList hasParts.list b.list hasParts'.list
    have kidTree (kid : Object) (isKid : kid ∈ a.kids) (kid' : Object) (isKid' : kid' ∈ b.kids)
        : kid.tree = kid'.tree ↔ kid.expr = kid'.expr :=
      ofKids kid isKid (hasParts.1 kid isKid) kid' (hasParts'.1 kid' isKid')
    refine ⟨fun same => ?_, fun same => ?_⟩
    · obtain ⟨kind, -, contents, trees⟩ := tree_inj same
      have kidCount : a.kids.length = b.kids.length := by
        have shape := shape_eq_of_kind kind
        cases a <;> cases b <;> simp at shape <;> rfl
      obtain ⟨own, kidTrees⟩ := append_inj' trees (by simpa using kidCount)
      refine expr_eq_of_parts kind contents ?_ (lists.mp ((own_eq_iff kind kidTrees).mp own)) ?_
      · intro root isRoot root' isRoot'
        exact allocated.arrayAddress root (hasParts.root root isRoot) root'
          (hasParts'.root root' isRoot')
      · exact map_eq_of_map_eq (fun kid isKid kid' isKid' =>
          (kidTree kid isKid kid' isKid').mp) kidTrees
    · obtain ⟨cell, isAllocated, hashed⟩ := allocated.hashed a hasA
      obtain ⟨cell', isAllocated', hashed'⟩ := allocated.hashed b hasB
      obtain ⟨kind, -, updates, kidExprs, sameContents⟩ := expr_inj same
      have trees : a.list.trees = b.list.trees := lists.mpr updates
      have kidTrees : a.kids.map tree = b.kids.map tree :=
        map_eq_of_map_eq (fun kid isKid kid' isKid' =>
          (kidTree kid isKid kid' isKid').mpr) kidExprs
      have kidHashes : a.kids.map hash = b.kids.map hash :=
        map_eq_of_map_eq (fun _ _ _ _ => hash_eq_of_tree) kidTrees
      have size : a.list.getSize = b.list.getSize := by
        have length := congrArg length trees
        rw [UpdateObject.length_trees, UpdateObject.length_trees] at length
        omega
      have hash : a.hash = b.hash := by
        rw [hashed, hashed']
        refine computeHash_eq same (listHash updates) kidHashes ?_
        rintro _ _ _ _ rfl rfl sameExpr
        exact memory _ _ _ _ _ _ isAllocated isAllocated' sameExpr
      rw [a.tree_eq, b.tree_eq, (own_eq_iff kind kidTrees).mpr trees, kidTrees, label,
        label, kind, hash, sameContents size]
  · intro _ head' _
    cases head' with
    | null => exact ⟨iff_of_true rfl rfl, fun _ => rfl⟩
    | node => simp [UpdateObject.trees, UpdateObject.updates]
  · intro header index value next ofIndex ofValue ofNext hasHead head' hasHead'
    cases head' with
    | null => simp [UpdateObject.trees, UpdateObject.updates]
    | node header' index' value' next' =>
      have member := hasHead.resolve_left (by simp)
      have member' := hasHead'.resolve_left (by simp)
      obtain ⟨hasIndex, hasValue, hasNext⟩ := allocated.nodes _ _ _ _ member
      obtain ⟨hasIndex', hasValue', hasNext'⟩ := allocated.nodes _ _ _ _ member'
      have first := ofIndex hasIndex index' hasIndex'
      have second := ofValue hasValue value' hasValue'
      obtain ⟨rest, restHash⟩ := ofNext hasNext next' hasNext'
      refine ⟨by simp [UpdateObject.trees, UpdateObject.updates, first, second, rest], ?_⟩
      intro same
      obtain ⟨sameIndex, sameValue, sameNext⟩ := UpdateNode.node.inj same
      rw [allocated.nodeHashed _ member, allocated.nodeHashed _ member', UpdateObject.computeHash,
        UpdateObject.computeHash, hash_eq_of_tree (first.mpr sameIndex),
        hash_eq_of_tree (second.mpr sameValue), restHash sameNext]

-- Runs

theorem ObjectHeap.Closed.compareTo_eq (closed : heap.Closed) (hasA : a ∈ heap.objects)
    (hasB : b ∈ heap.objects)
    : a.compareTo b = sign (a.tree.cmp b.tree) :=
  (a.inOrder closed hasA b hasB [] (equivsHold_nil heap)).value

theorem sign_swap (order : Ordering) : sign order.swap = - sign order := by
  cases order <;> rfl

theorem sign_le_zero_iff {order : Ordering} : sign order ≤ 0 ↔ order.isLE = true := by
  cases order <;> simp [sign]

/-- Over every sequence of allocations: `compare` is a total order in which exactly the
objects for one expression are equal, and these have one hash value, exactly if the memory
under `NotExpr` objects for one operand is the same.
-/
theorem lawful_iff_same_memory (run : Run (AllocationStep getHashValue) .empty allocations heap)
    : heap.Lawful ↔ SameMemory allocations := by
  have allocated : heap.Allocated getHashValue allocations :=
    run.history (fun allocations heap => heap.Allocated getHashValue allocations)
      ObjectHeap.allocated_empty fun allocated step => allocated.step step
  have closed := allocated.toClosed
  constructor
  · intro lawful header expr memory header' expr' memory' isAllocated isAllocated' same
    obtain ⟨hasA, hashed⟩ := allocated.kept _ _ isAllocated
    obtain ⟨hasB, hashed'⟩ := allocated.kept _ _ isAllocated'
    have sameHash := (lawful.equal _ hasA _ hasB (congrArg Expr.not same)).1
    rw [hashed, hashed'] at sameHash
    exact sameHash
  · intro memory
    refine ⟨?_, ?_, ?_, ?_⟩
    · intro a hasA b hasB same
      have sameTree := (a.tree_eq_iff allocated memory hasA b hasB).mpr same
      refine ⟨hash_eq_of_tree sameTree, ?_⟩
      rw [closed.compareTo_eq hasA hasB, sign_eq_zero_iff, LabelTree.cmp_eq_iff]
      exact sameTree
    · intro a hasA b hasB equal
      rw [closed.compareTo_eq hasA hasB, sign_eq_zero_iff, LabelTree.cmp_eq_iff] at equal
      exact (a.tree_eq_iff allocated memory hasA b hasB).mp equal
    · intro a hasA b hasB
      rw [closed.compareTo_eq hasA hasB, closed.compareTo_eq hasB hasA, ← LabelTree.cmp_swap,
        sign_swap]
    · intro a hasA b hasB c hasC first second
      rw [closed.compareTo_eq hasA hasB, sign_le_zero_iff] at first
      rw [closed.compareTo_eq hasB hasC, sign_le_zero_iff] at second
      rw [closed.compareTo_eq hasA hasC, sign_le_zero_iff]
      exact LabelTree.cmp_trans first second

/-- A constant and two negations of it. -/
def zeroObject : Object :=
  .constant ⟨0, 312⟩ ⟨8, 0#8⟩

def notObject (address : Nat) (memory : UInt32) : Object :=
  .not ⟨address, memory⟩ zeroObject

def noHash (_ : ConstantExpr) : UInt32 :=
  0

def notAllocations (memory memory' : UInt32) : List Allocation :=
  [.alloc zeroObject 0, .alloc (notObject 1 memory) memory, .alloc (notObject 2 memory') memory']

theorem notObjects_run (memory memory' : UInt32)
    : Run (AllocationStep noHash) .empty (notAllocations memory memory')
        ⟨[], [], [notObject 2 memory', notObject 1 memory, zeroObject]⟩ := by
  have first : AllocationStep noHash .empty (.alloc zeroObject 0) ⟨[], [], [zeroObject]⟩ :=
    .alloc _ _ _ ⟨by simp [zeroObject], by simp [zeroObject]⟩ rfl (by simp [ObjectHeap.empty])
  have second : AllocationStep noHash ⟨[], [], [zeroObject]⟩ (.alloc (notObject 1 memory) memory)
      ⟨[], [], [notObject 1 memory, zeroObject]⟩ :=
    .alloc _ _ _ ⟨by simp [notObject], by simp [notObject]⟩ rfl
      (by simp [notObject, zeroObject, address, header])
  have third : AllocationStep noHash ⟨[], [], [notObject 1 memory, zeroObject]⟩
      (.alloc (notObject 2 memory') memory')
      ⟨[], [], [notObject 2 memory', notObject 1 memory, zeroObject]⟩ :=
    .alloc _ _ _ ⟨by simp [notObject], by simp [notObject]⟩ rfl
      (by simp [notObject, zeroObject, address, header])
  exact ((Run.nil.snoc first).snoc second).snoc third

/-- Witness: both negations are hashed to what the memory held, which is the same. -/
theorem lawful_iff_same_memory_nots
    : ObjectHeap.Lawful ⟨[], [], [notObject 2 5, notObject 1 5, zeroObject]⟩ := by
  refine (lawful_iff_same_memory (notObjects_run 5 5)).mpr ?_
  intro header expr memory header' expr' memory' isAllocated isAllocated' _
  simp [notAllocations, zeroObject, notObject] at isAllocated isAllocated'
  rcases isAllocated with ⟨-, rfl⟩ | ⟨-, rfl⟩ <;>
    rcases isAllocated' with ⟨-, rfl⟩ | ⟨-, rfl⟩ <;> rfl

/-- Two negations of one constant, with other contents of the memory: they are one expression,
but their hash values differ and they do not compare as equal.
-/
theorem not_objects_differ
    : Run (AllocationStep noHash) .empty (notAllocations 0 1)
        ⟨[], [], [notObject 2 1, notObject 1 0, zeroObject]⟩
      ∧ (notObject 1 0).expr = (notObject 2 1).expr
      ∧ (notObject 1 0).hash ≠ (notObject 2 1).hash
      ∧ (notObject 1 0).compareTo (notObject 2 1) = -1 :=
  ⟨notObjects_run 0 1, rfl, by decide, by decide⟩

end Woodpecker.Expressions
