import Mathlib.Data.Fin.VecNotation
import Mathlib.Data.Finset.Option
import Woodpecker.Library.Faults

/-! The tree of symbolic branches that the path slicer prunes (`BranchTree.cpp`).
Nodes are allocated and never freed, so a node pointer is a position in the allocation
order. A state is attached while its own `parentBranch` field is set.
-/

namespace Woodpecker

open Library

/-- `BranchNode`: one symbolic branch, with a state or a later branch in each slot. -/
structure BranchNode (σ : Type) where
  dynInstrIdx : Nat
  childStates : Fin 2 → Option σ
  childBranches : Fin 2 → Option Nat
  parentBranch : Option Nat

/-- `BranchTree` with the heap of its nodes. The last field is `ExecutionState::parentBranch`
of every execution state, which only the tree's own methods write.
-/
structure BranchTree (σ : Type) where
  root : Option Nat
  nodes : List (BranchNode σ)
  parentBranch : σ → Option Nat

variable {σ : Type}

/-- The tree before the first symbolic branch. -/
def BranchTree.empty : BranchTree σ where
  root := none
  nodes := []
  parentBranch := fun _ => none

/-- Reads the node behind a pointer. -/
def BranchTree.deref (tree : BranchTree σ) (ref : Nat)
    : Except Fault (BranchNode σ) :=
  match tree.nodes[ref]? with
  | some node => .ok node
  | none => .error .badPointer

/-- A state is attached while its `parentBranch` points to a node. -/
def BranchTree.Attached (tree : BranchTree σ) (state : σ) : Prop :=
  (tree.parentBranch state).isSome

instance (tree : BranchTree σ) (state : σ) : Decidable (tree.Attached state) :=
  inferInstanceAs (Decidable ((tree.parentBranch state).isSome = true))

variable [DecidableEq σ]

/-- The states in the two slots of a node itself. -/
def BranchNode.ownStates (node : BranchNode σ) : Finset σ :=
  (node.childStates 0).toFinset ∪ (node.childStates 1).toFinset

/-- `BranchTree::findChildStates`: all states in the subtree of a node. -/
def BranchTree.findChildStates (tree : BranchTree σ)
    : Nat → Nat → Except Fault (Finset σ)
  | 0, _ => .error .outOfFuel
  | fuel + 1, curNode => do
    let node ← tree.deref curNode
    let leftChildStates ← (node.childBranches 0).elim (.ok ∅) (tree.findChildStates fuel)
    let rightChildStates ← (node.childBranches 1).elim (.ok ∅) (tree.findChildStates fuel)
    return node.ownStates ∪ leftChildStates ∪ rightChildStates

/-- Adds everything below one slot of a node: the state in it, and the states of the branch
in it.
-/
def BranchTree.insertSlot (tree : BranchTree σ) (node : BranchNode σ) (slot : Fin 2)
    (newPrunedStates : Finset σ)
    : Except Fault (Finset σ) :=
  let withState := newPrunedStates ∪ (node.childStates slot).toFinset
  match node.childBranches slot with
  | some child => return withState ∪ (← tree.findChildStates tree.nodes.length child)
  | none => return withState

/-- The four tests made at a node with the wanted index: each slot that holds the current
state, or the branch the walk came from, adds what is below the other slot.
-/
def BranchTree.insertOpposite (tree : BranchTree σ) (curState : σ)
    (prevBrNode : Option Nat) (curBrNode : BranchNode σ) (newPrunedStates : Finset σ)
    : Except Fault (Finset σ) := do
  let found ← insertIf (curBrNode.childStates 0 = some curState) 1 newPrunedStates
  let found ← insertIf (curBrNode.childStates 1 = some curState) 0 found
  let found ← insertIf (curBrNode.childBranches 0 = prevBrNode ∧ prevBrNode.isSome) 1 found
  insertIf (curBrNode.childBranches 1 = prevBrNode ∧ prevBrNode.isSome) 0 found
where
  insertIf (test : Prop) [Decidable test] (slot : Fin 2) (before : Finset σ)
      : Except Fault (Finset σ) :=
    if test then tree.insertSlot curBrNode slot before else .ok before

/-- The end of a successful search: aborts when the current state would be pruned. -/
def reportPruned (curState : σ) (newPrunedStates : Finset σ)
    : Except Fault (Bool × Finset σ) :=
  if curState ∈ newPrunedStates
  then .error .abort
  else .ok (decide (0 < newPrunedStates.card), newPrunedStates)

/-- The loop of `findPrunedStates`, from a node towards the root. It returns the answer and
what is inserted into the caller's set.
-/
def BranchTree.walkUp (tree : BranchTree σ) (curState : σ) (dynInstrIdx : Nat)
    : Nat → Option Nat → Nat → Finset σ → Except Fault (Bool × Finset σ)
  | 0, _, _, _ => .error .outOfFuel
  | fuel + 1, prevBrNode, curBrNode, newPrunedStates => do
    let node ← tree.deref curBrNode
    if node.dynInstrIdx = dynInstrIdx then
      let newPrunedStates ← tree.insertOpposite curState prevBrNode node newPrunedStates
      match node.parentBranch with
      | none => reportPruned curState newPrunedStates
      | some parent =>
        let parentNode ← tree.deref parent
        -- Branches inside one external call share their index and are passed together.
        if node.dynInstrIdx ≠ parentNode.dynInstrIdx
        then reportPruned curState newPrunedStates
        else tree.walkUp curState dynInstrIdx fuel (some curBrNode) parent newPrunedStates
    else
      match node.parentBranch with
      | none => return (false, ∅)
      | some parent =>
        tree.walkUp curState dynInstrIdx fuel (some curBrNode) parent newPrunedStates

/-- `BranchTree::findPrunedStates`: the answer, and `prunedStates` after the call. -/
def BranchTree.findPrunedStates (tree : BranchTree σ) (curState : σ) (dynInstrIdx : Nat)
    (prunedStates : Finset σ)
    : Except Fault (Bool × Finset σ) :=
  match tree.root with
  | none => .ok (false, prunedStates)
  | some _ =>
    match tree.parentBranch curState with
    | none => .error .badPointer
    | some leafBranch => do
      let (answer, newPrunedStates) ←
        tree.walkUp curState dynInstrIdx tree.nodes.length none leafBranch ∅
      return (answer, prunedStates ∪ newPrunedStates)

/-- A new node whose slots hold the two states of a fork. -/
def BranchNode.ofFork (dynInstrIdx : Nat) (curState otherState : σ)
    (parentBranch : Option Nat)
    : BranchNode σ where
  dynInstrIdx
  childStates := ![some curState, some otherState]
  childBranches := fun _ => none
  parentBranch

/-- Replaces the state in a slot by a branch. -/
def BranchNode.setBranch (node : BranchNode σ) (slot : Fin 2) (child : Nat)
    : BranchNode σ :=
  { node with
    childBranches := Function.update node.childBranches slot (some child)
    childStates := Function.update node.childStates slot none }

/-- Empties a state slot. -/
def BranchNode.clearState (node : BranchNode σ) (slot : Fin 2) : BranchNode σ :=
  { node with childStates := Function.update node.childStates slot none }

/-- The slot of a node that holds a state; both callers assert that there is one. -/
def BranchNode.slotOf (node : BranchNode σ) (state : σ) : Except Fault (Fin 2) :=
  if node.childStates 0 = some state then .ok 0
  else if node.childStates 1 = some state then .ok 1
  else .error .assertion

/-- Writes the `parentBranch` field of the two states of a fork. -/
def BranchTree.setParents (tree : BranchTree σ) (curState otherState : σ) (ref : Nat)
    : σ → Option Nat :=
  Function.update (Function.update tree.parentBranch curState (some ref)) otherState (some ref)

/-- `BranchTree::addBranch`. The closing assertion, that both states now have a parent,
holds by the two writes just before it.
-/
def BranchTree.addBranch (tree : BranchTree σ) (curState : σ) (dynInstrIdx : Nat)
    (otherState : σ)
    : Except Fault (BranchTree σ) :=
  let child := tree.nodes.length
  match tree.root with
  | none =>
    .ok {
      root := some child
      nodes := tree.nodes ++ [.ofFork dynInstrIdx curState otherState none]
      parentBranch := tree.setParents curState otherState child
    }
  | some _ =>
    match tree.parentBranch curState with
    | none => .error .assertion
    | some parentNode => do
      let parent ← tree.deref parentNode
      let slot ← parent.slotOf curState
      return {
        root := tree.root
        nodes :=
          tree.nodes.set parentNode (parent.setBranch slot child)
          ++ [.ofFork dynInstrIdx curState otherState (some parentNode)]
        parentBranch := tree.setParents curState otherState child
      }

/-- `BranchTree::removeState`. Without a root nothing was ever attached. -/
def BranchTree.removeState (tree : BranchTree σ) (curState : σ)
    : Except Fault (BranchTree σ) :=
  match tree.root with
  | none => .ok tree
  | some _ =>
    match tree.parentBranch curState with
    | none => .error .assertion
    | some leafBranch => do
      let node ← tree.deref leafBranch
      let slot ← node.slotOf curState
      return {
        tree with
        nodes := tree.nodes.set leafBranch (node.clearState slot)
        parentBranch := Function.update tree.parentBranch curState none
      }

end Woodpecker
