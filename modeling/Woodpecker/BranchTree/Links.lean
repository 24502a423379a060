import Mathlib.Data.Fintype.Basic
import Mathlib.Tactic.FinCases
import Woodpecker.BranchTree.Model
import Woodpecker.Library.ParentLinks
import Woodpecker.Library.Runs

/-! The links of the branch tree stay consistent over every history of forks and removals.
A fork moves the current state out of its parent's slot, so the slot rules and the links
between branches are one invariant.
-/

namespace Woodpecker

open Library Option

namespace BranchTree

variable {σ : Type}

/-- The state in a slot of the node behind a pointer. -/
def stateAt (tree : BranchTree σ) (ref : Nat) (slot : Fin 2) : Option σ :=
  tree.nodes[ref]?.bind (fun node => node.childStates slot)

/-- The branch in a slot of the node behind a pointer. -/
def branchAt (tree : BranchTree σ) (ref : Nat) (slot : Fin 2) : Option Nat :=
  tree.nodes[ref]?.bind (fun node => node.childBranches slot)

/-- The parent link of the node behind a pointer. -/
def parentAt (tree : BranchTree σ) (ref : Nat) : Option Nat :=
  tree.nodes[ref]?.bind BranchNode.parentBranch

/-- The instruction index of the node behind a pointer. -/
def indexAt (tree : BranchTree σ) (ref : Nat) : Option Nat :=
  tree.nodes[ref]?.map BranchNode.dynInstrIdx

/-- The links of a branch tree agree with each other. States sit in the node they point to,
no slot has two uses, and parents are allocated before their children.
-/
structure Linked (tree : BranchTree σ) : Prop where
  rootless : tree.root = none → tree.nodes = []
  rooted
    : ∀ {ref}, tree.root = some ref → ref < tree.nodes.length ∧ tree.parentAt ref = none
  onlyRoot
    : ∀ {ref}, ref < tree.nodes.length → tree.parentAt ref = none → tree.root = some ref
  down
    : ∀ {ref above},
        tree.parentAt ref = some above
        → above < ref ∧ ∃ slot, tree.branchAt above slot = some ref
  back : ∀ {ref slot below}, tree.branchAt ref slot = some below → tree.parentAt below = some ref
  oneSlot
    : ∀ {ref slot other below},
        tree.branchAt ref slot = some below → tree.branchAt ref other = some below → slot = other
  stateUp
    : ∀ {ref slot state}, tree.stateAt ref slot = some state → tree.parentBranch state = some ref
  stateDown
    : ∀ {ref state}, tree.parentBranch state = some ref → ∃ slot, tree.stateAt ref slot = some state
  oneState
    : ∀ {ref slot other state},
        tree.stateAt ref slot = some state → tree.stateAt ref other = some state → slot = other
  apart : ∀ {ref slot state}, tree.stateAt ref slot = some state → tree.branchAt ref slot = none

variable {tree : BranchTree σ} {ref : Nat}

/-- A link to a parent comes from an allocated node. -/
theorem parentAt_bound {above : Nat} (link : tree.parentAt ref = some above)
    : ref < tree.nodes.length := by
  obtain ⟨node, found, _⟩ := bind_eq_some_iff.mp link
  exact (List.getElem?_eq_some_iff.mp found).1

variable {slot : Fin 2} {state : σ}

/-- A state slot belongs to an allocated node. -/
theorem stateAt_bound (held : tree.stateAt ref slot = some state)
    : ref < tree.nodes.length := by
  obtain ⟨node, found, _⟩ := bind_eq_some_iff.mp held
  exact (List.getElem?_eq_some_iff.mp found).1

/-- A branch slot belongs to an allocated node. -/
theorem branchAt_bound {below : Nat} (held : tree.branchAt ref slot = some below)
    : ref < tree.nodes.length := by
  obtain ⟨node, found, _⟩ := bind_eq_some_iff.mp held
  exact (List.getElem?_eq_some_iff.mp found).1

variable {root : Nat}

/-- The links of a rooted tree satisfy the general rules for trees with parent links. -/
theorem Linked.treeLinks (linked : tree.Linked) (top : tree.root = some root)
    : TreeLinks tree.parentAt tree.branchAt (· < tree.nodes.length) root id where
  top := (linked.rooted top).2
  onlyTop bound none := some.inj ((linked.onlyRoot bound none).symm.trans top)
  down link := (linked.down link).2
  back := linked.back
  oneSlot := linked.oneSlot
  falls link := by
    obtain ⟨smaller, slot, held⟩ := linked.down link
    exact ⟨branchAt_bound held, smaller⟩

/-- The empty tree has no links to disagree. -/
theorem Linked.empty : (empty : BranchTree σ).Linked := by
  constructor <;> simp [BranchTree.empty, parentAt, branchAt, stateAt]

-- What the two updates change

variable [DecidableEq σ]

/-- `after` is `tree` with a new node for the fork of `cur` into `cur` and `other`. `place` is
the slot the current state left, absent for the first branch of all.
-/
structure Forked (tree after : BranchTree σ) (cur : σ) (index : Nat) (other : σ)
    (place : Option (Nat × Fin 2))
    : Prop where
  length : after.nodes.length = tree.nodes.length + 1
  root : after.root = if place = none then some tree.nodes.length else tree.root
  states
    : ∀ ref slot,
        after.stateAt ref slot
        = if ref = tree.nodes.length then ![some cur, some other] slot
          else if place = some (ref, slot) then none
          else tree.stateAt ref slot
  branches
    : ∀ ref slot,
        after.branchAt ref slot
        = if place = some (ref, slot) then some tree.nodes.length else tree.branchAt ref slot
  parents
    : ∀ ref,
        after.parentAt ref
        = if ref = tree.nodes.length then place.map Prod.fst else tree.parentAt ref
  indices
    : ∀ ref,
        after.indexAt ref
        = if ref = tree.nodes.length then some index else tree.indexAt ref
  own
    : ∀ state,
        after.parentBranch state
        = if state = cur ∨ state = other then some tree.nodes.length
          else tree.parentBranch state

/-- `after` is `tree` without the state that sat in the slot `place`. -/
structure Removed (tree after : BranchTree σ) (cur : σ) (place : Nat × Fin 2)
    : Prop where
  length : after.nodes.length = tree.nodes.length
  root : after.root = tree.root
  states
    : ∀ ref slot,
        after.stateAt ref slot = if place = (ref, slot) then none else tree.stateAt ref slot
  branches : ∀ ref slot, after.branchAt ref slot = tree.branchAt ref slot
  parents : ∀ ref, after.parentAt ref = tree.parentAt ref
  indices : ∀ ref, after.indexAt ref = tree.indexAt ref
  own
    : ∀ state,
        after.parentBranch state = if state = cur then none else tree.parentBranch state

variable {cur : σ} {leaf : Nat}

/-- An attached state is found in its slot, so neither caller's assertion fails. -/
theorem Linked.slotOf_attached (linked : tree.Linked) (attached : tree.parentBranch cur = some leaf)
    : ∃ node slot, tree.nodes[leaf]? = some node ∧ node.slotOf cur = .ok slot
        ∧ tree.stateAt leaf slot = some cur := by
  obtain ⟨slot, held⟩ := linked.stateDown attached
  obtain ⟨node, found, held⟩ := bind_eq_some_iff.mp held
  unfold BranchNode.slotOf
  by_cases first : node.childStates 0 = some cur
  · exact ⟨node, 0, found, by simp [first], by simpa [stateAt, found] using first⟩
  have second : node.childStates 1 = some cur := by
    fin_cases slot
    · exact absurd held first
    · exact held
  exact ⟨node, 1, found, by simp [first, second], by simpa [stateAt, found] using second⟩

/-- The parent fields after a fork, as one test on the state. -/
theorem setParents_apply (tree : BranchTree σ) (cur other state : σ) (ref : Nat)
    : tree.setParents cur other ref state
      = if state = cur ∨ state = other then some ref else tree.parentBranch state := by
  unfold setParents
  by_cases second : state = other
  · simp [second]
  · by_cases first : state = cur <;> simp [first, second, Function.update_apply]

/-- The first branch of all succeeds and creates the root. -/
theorem addBranch_first (linked : tree.Linked) (rootless : tree.root = none) (cur : σ) (index : Nat)
    (other : σ)
    : ∃ after, tree.addBranch cur index other = .ok after
        ∧ tree.Forked after cur index other none := by
  have noNodes := linked.rootless rootless
  refine ⟨_, by simp only [addBranch, rootless]; rfl, ?_⟩
  constructor
  case own => exact fun state => setParents_apply tree cur other state _
  case states =>
      intro ref slot
      cases ref <;> simp [noNodes, stateAt, BranchNode.ofFork]
  all_goals
    first
    | intro ref slot; cases ref <;> simp [noNodes, branchAt, BranchNode.ofFork]
    | intro ref; cases ref <;> simp [noNodes, parentAt, indexAt, BranchNode.ofFork]
    | simp [noNodes]

/-- A fork of an attached state succeeds and hangs the new node into the slot it leaves. -/
theorem addBranch_later (linked : tree.Linked) (rooted : tree.root = some root)
    (attached : tree.parentBranch cur = some leaf) (index : Nat) (other : σ)
    : ∃ after slot, tree.addBranch cur index other = .ok after
        ∧ tree.stateAt leaf slot = some cur
        ∧ tree.Forked after cur index other (some (leaf, slot)) := by
  obtain ⟨node, place, found, placeEq, held⟩ := linked.slotOf_attached attached
  have bound := stateAt_bound held
  have lookup (ref : Nat)
      : (tree.nodes.set leaf (node.setBranch place tree.nodes.length)
          ++ [.ofFork index cur other (some leaf)])[ref]?
        = if ref = tree.nodes.length then some (.ofFork index cur other (some leaf))
          else if ref = leaf then some (node.setBranch place tree.nodes.length)
          else tree.nodes[ref]? := by
    grind
  refine ⟨_, place, by simp [addBranch, rooted, attached, deref, found, placeEq]; rfl, held, ?_⟩
  constructor
  case length => simp
  case root => simp [rooted]
  case own => exact fun state => setParents_apply tree cur other state _
  all_goals
    intro ref
    try intro slot
    simp only [stateAt, branchAt, parentAt, indexAt, lookup]
    by_cases new : ref = tree.nodes.length
    · have different : leaf ≠ tree.nodes.length := by omega
      simp [new, BranchNode.ofFork, different]
    by_cases same : ref = leaf
    · subst same
      simp [new, found, BranchNode.setBranch, Function.update_apply, eq_comm]
    · simp [new, same, Ne.symm same]

/-- Removing an attached state succeeds and empties the slot it occupied. -/
theorem removeState_attached (linked : tree.Linked) (rooted : tree.root = some root)
    (attached : tree.parentBranch cur = some leaf)
    : ∃ after slot, tree.removeState cur = .ok after
        ∧ tree.stateAt leaf slot = some cur
        ∧ tree.Removed after cur (leaf, slot) := by
  obtain ⟨node, place, found, placeEq, held⟩ := linked.slotOf_attached attached
  have lookup (ref : Nat)
      : (tree.nodes.set leaf (node.clearState place))[ref]?
        = if ref = leaf then some (node.clearState place) else tree.nodes[ref]? := by
    grind
  refine ⟨_, place, by simp [removeState, rooted, attached, deref, found, placeEq]; rfl, held, ?_⟩
  constructor
  case length => simp
  case root => simp [rooted]
  case own => exact fun state => by simp [Function.update_apply]
  all_goals
    intro ref
    try intro slot
    simp only [stateAt, branchAt, parentAt, indexAt, lookup]
    by_cases same : ref = leaf
    · subst same
      simp [found, BranchNode.clearState, Function.update_apply, eq_comm]
    · simp [same, Ne.symm same]

-- The invariant over one update

omit [DecidableEq σ] in
/-- Before the first fork no state is attached. -/
theorem Linked.detached_of_rootless (linked : tree.Linked) (rootless : tree.root = none) (state : σ)
    : tree.parentBranch state = none := by
  cases own : tree.parentBranch state with
  | none => rfl
  | some ref =>
    obtain ⟨slot, held⟩ := linked.stateDown own
    have bound := stateAt_bound held
    simp [linked.rootless rootless] at bound

variable {after : BranchTree σ}

/-- A fork keeps the links consistent. The slot the current state leaves is free for the new
branch, and the new node is the largest pointer.
-/
theorem Forked.linked {other : σ} {index : Nat} {place : Option (Nat × Fin 2)}
    (forked : tree.Forked after cur index other place) (linked : tree.Linked)
    (first : place = none → tree.root = none)
    (held : ∀ ref slot, place = some (ref, slot) → tree.stateAt ref slot = some cur)
    (fresh : tree.parentBranch other = none) (different : other ≠ cur)
    : after.Linked := by
  obtain ⟨length, root, states, branches, parents, _, own⟩ := forked
  -- The bounds keep the new pointer apart from every link of the old tree.
  have parentBound := @parentAt_bound _ tree
  have stateBound := @stateAt_bound _ tree
  have unallocated (slot : Fin 2) : tree.branchAt tree.nodes.length slot = none := by
    simp [branchAt]
  have newSlot (slot : Fin 2) (state : σ) (held : ![some cur, some other] slot = some state)
      : slot = 0 ∧ state = cur ∨ slot = 1 ∧ state = other := by
    fin_cases slot
    · exact .inl ⟨rfl, (some.inj held).symm⟩
    · exact .inr ⟨rfl, (some.inj held).symm⟩
  obtain ⟨rootless, rooted, onlyRoot, down, back, oneSlot, stateUp, stateDown, oneState, apart⟩ :=
    linked
  constructor
  case stateDown =>
      intro ref state at_
      rw [own] at at_
      split at at_
      · next either =>
          have same := some.inj at_
          subst same
          rcases either with rfl | rfl
          · exact ⟨0, by simp [states]⟩
          · exact ⟨1, by simp [states]⟩
      · next neither =>
          obtain ⟨slot, old⟩ := stateDown at_
          refine ⟨slot, ?_⟩
          grind
  all_goals
    rcases place with _ | ⟨leaf, place⟩
    · grind
    · grind

/-- Removing a state keeps the links consistent: only its own slot and field change. -/
theorem Removed.linked {place : Fin 2} (removed : tree.Removed after cur (leaf, place))
    (linked : tree.Linked) (held : tree.stateAt leaf place = some cur)
    : after.Linked := by
  obtain ⟨length, root, states, branches, parents, _, own⟩ := removed
  obtain ⟨rootless, rooted, onlyRoot, down, back, oneSlot, stateUp, stateDown, oneState, apart⟩ :=
    linked
  constructor
  case stateDown =>
      intro ref state at_
      rw [own] at at_
      split at at_
      · cases at_
      obtain ⟨slot, old⟩ := stateDown at_
      refine ⟨slot, ?_⟩
      grind
  all_goals grind

end BranchTree

end Woodpecker
