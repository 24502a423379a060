import Woodpecker.BranchTree.Model
import Woodpecker.Library.Loops
import Woodpecker.States.ProcessTree

/-! The executor's containers of states and the calls that move states between them
(`Executor.cpp`, `Searcher.cpp`), with the path slicer in use and `MarkPrunedOnly` off.

States are addresses. A set of states is iterated in the order of the addresses. Seeds,
statistics and what a state computes are left out.
-/

namespace Woodpecker

open Library

/-- The searchers that keep the states themselves, and the random path searcher, which looks
for a state in the process tree.
-/
inductive SearcherKind where
  | dfs
  | random
  | weighted (updateWeights : Bool)
  | randomPath
deriving DecidableEq, Repr

namespace SearcherKind

/-- The weight of the current state is entered anew by some of the weighted searchers. Of
the tree of weights only the keys are kept.
-/
def updateWeight (kind : SearcherKind) (states : List Nat) (current : Option Nat)
    (removedStates : Finset Nat)
    : Except Fault Unit :=
  match kind, current with
  | .weighted true, some es =>
    if es ∉ removedStates ∧ es ∉ states then .error .assertion else .ok ()
  | _, _ => .ok ()

/-- The body of the loop over the added states. A vector takes any state at its end, and
`DiscretePDF::insert` asserts that the key is new.
-/
def addState (kind : SearcherKind) (states : List Nat) (es : Nat) : Except Fault (List Nat) :=
  match kind with
  | .dfs | .random => .ok (states ++ [es])
  | .weighted _ => if es ∈ states then .error .assertion else .ok (states ++ [es])
  | .randomPath => .ok states

/-- The body of the loop over the removed states. The depth-first searcher looks at the back
of the vector first.
-/
def removeState (kind : SearcherKind) (states : List Nat) (es : Nat)
    : Except Fault (List Nat) :=
  match kind, states.getLast? with
  | .dfs, none => .error .badPointer
  | .dfs, some back =>
    if es = back then .ok states.dropLast
    else if es ∈ states then .ok (states.erase es)
    else .error .assertion
  | .random, _ | .weighted _, _ =>
    if es ∈ states then .ok (states.erase es) else .error .assertion
  | .randomPath, _ => .ok states

def update (kind : SearcherKind) (states : List Nat) (current : Option Nat)
    (addedStates removedStates : Finset Nat)
    : Except Fault (List Nat) := do
  kind.updateWeight states current removedStates
  let states ← (ascending addedStates).foldlM kind.addState states
  (ascending removedStates).foldlM kind.removeState states

end SearcherKind

structure Searcher where
  kind : SearcherKind
  states : List Nat
deriving DecidableEq, Repr

def Searcher.update (searcher : Searcher) (current : Option Nat)
    (addedStates removedStates : Finset Nat)
    : Except Fault Searcher := do
  let states ← searcher.kind.update searcher.states current addedStates removedStates
  .ok { searcher with states }

/-- `InterleavedSearcher::update`; a single searcher is a list of one. A batching searcher
passes updates on as they are and is not told apart from its base.
-/
def updateSearchers (searchers : List Searcher) (current : Option Nat)
    (addedStates removedStates : Finset Nat)
    : Except Fault (List Searcher) :=
  searchers.mapM fun searcher => searcher.update current addedStates removedStates

/-- The trees that know the states, with the `ptreeNode` of every state. -/
structure StateTrees where
  processTree : PTree
  ptreeNode : Nat → Option Nat
  brTree : BranchTree Nat

namespace StateTrees

def create (initial : Nat) : StateTrees where
  processTree := .create
  ptreeNode := Function.update (fun _ => none) initial (some 0)
  brTree := .empty

def ptreeNodeOf (trees : StateTrees) (state : Nat) : Except Fault Nat :=
  match trees.ptreeNode state with
  | some ref => .ok ref
  | none => .error .badPointer

/-- What a fork does to the trees. The false state gets the left node. -/
def fork (trees : StateTrees) (current dynInstrIdx other trueState falseState : Nat)
    : Except Fault StateTrees := do
  let brTree ← trees.brTree.addBranch current dynInstrIdx other
  let node ← trees.ptreeNodeOf current
  let (processTree, left, right) ← trees.processTree.split node
  let ptreeNode := Function.update trees.ptreeNode falseState (some left)
  .ok { processTree, ptreeNode := Function.update ptreeNode trueState (some right), brTree }

/-- What every removal of a state does to the trees. -/
def remove (trees : StateTrees) (state : Nat) : Except Fault StateTrees := do
  let node ← trees.ptreeNodeOf state
  let processTree ← trees.processTree.remove node
  let brTree ← trees.brTree.removeState state
  .ok { trees with processTree, brTree }

end StateTrees

/-- `isPruned` is the set of states with that flag, and `allocated` the states that were
created and not deleted.
-/
structure Executor where
  searcher : List Searcher
  states : Finset Nat
  addedStates : Finset Nat
  removedStates : Finset Nat
  isPruned : Finset Nat
  allocated : Finset Nat
  trees : StateTrees

namespace Executor

/-- The executor when the main loop of `run` is entered, after the searcher was given the
initial state.
-/
def create (kinds : List SearcherKind) (initialState : Nat) : Executor where
  searcher := kinds.map fun kind => ⟨kind, if kind = .randomPath then [] else [initialState]⟩
  states := {initialState}
  addedStates := ∅
  removedStates := ∅
  isPruned := ∅
  allocated := {initialState}
  trees := .create initialState

/-- A new state as a copy of another, entered in the trees and in `addedStates`. The copy
has the flags of the original.
-/
def addState (executor : Executor) (current dynInstrIdx other trueState falseState : Nat)
    : Except Fault Executor := do
  let trees ← executor.trees.fork current dynInstrIdx other trueState falseState
  .ok { executor with
    addedStates := insert other executor.addedStates
    isPruned :=
      if current ∈ executor.isPruned then insert other executor.isPruned
      else executor.isPruned
    allocated := insert other executor.allocated
    trees }

/-- `Executor::fork` where both sides are feasible. With `RandomizeFork` the new state may
be the true one.
-/
def fork (executor : Executor) (current dynInstrIdx other : Nat) (swap : Bool)
    : Except Fault Executor :=
  if swap then executor.addState current dynInstrIdx other other current
  else executor.addState current dynInstrIdx other current other

/-- One turn of the loop of `Executor::branch`: which of the states so far is copied, the
index of its last branch, and the new state.
-/
structure Branching where
  pick : Nat
  dynInstrIdx : Nat
  other : Nat
deriving DecidableEq, Repr

/-- The loop of `Executor::branch`, with the states so far. -/
def branchLoop (executor : Executor) (result : List Nat) (state : Nat)
    : List Branching → Except Fault Executor
  | [] => .ok executor
  | branching :: rest => do
    let es := result.getD (branching.pick % result.length) state
    let executor ←
      executor.addState es branching.dynInstrIdx branching.other es branching.other
    executor.branchLoop (result ++ [branching.other]) state rest

def branch (executor : Executor) (state : Nat) (branchings : List Branching)
    : Except Fault Executor :=
  executor.branchLoop [state] state branchings

/-- `Executor::terminateState`: a state the searcher has not seen is deleted at once. -/
def terminateState (executor : Executor) (state : Nat) : Except Fault Executor :=
  if state ∈ executor.addedStates then do
    let trees ← executor.trees.remove state
    .ok { executor with
      addedStates := executor.addedStates.erase state
      allocated := executor.allocated.erase state
      trees }
  else
    .ok { executor with removedStates := insert state executor.removedStates }

/-- `Executor::terminateStateAtOnce`. The state is taken from everywhere, but not deleted. -/
def terminateStateAtOnce (executor : Executor) (state : Nat) : Except Fault Executor := do
  let searcher ← updateSearchers executor.searcher none ∅ {state}
  let trees ← executor.trees.remove state
  .ok { executor with
    searcher
    states := executor.states.erase state
    addedStates := executor.addedStates.erase state
    removedStates := executor.removedStates.erase state
    trees }

/-- The states to prune for the indices the slicer returned. -/
def prunedStates (executor : Executor) (state : Nat) (rmBrs rmCalls : Finset Nat)
    : Except Fault (Finset Nat) :=
  (ascending rmBrs ++ ascending rmCalls).foldlM
    (fun prunedStates dynInstrIdx => do
      let (_, prunedStates) ←
        executor.trees.brTree.findPrunedStates state dynInstrIdx prunedStates
      .ok prunedStates)
    ∅

def prune (executor : Executor) (prunedState : Nat) : Except Fault Executor :=
  { executor with isPruned := insert prunedState executor.isPruned }.terminateStateAtOnce
    prunedState

def slicingAndPruneStates (executor : Executor) (state : Nat) (rmBrs rmCalls : Finset Nat)
    : Except Fault Executor :=
  if state ∉ executor.isPruned then do
    let prunedStates ← executor.prunedStates state rmBrs rmCalls
    (ascending prunedStates).foldlM prune executor
  else
    .ok executor

/-- `Executor::terminateStateOnExit`. With or without an error reported by the checkers,
the states are pruned first and the state is terminated then.
-/
def terminateStateOnExit (executor : Executor) (state : Nat) (rmBrs rmCalls : Finset Nat)
    : Except Fault Executor := do
  let executor ← executor.slicingAndPruneStates state rmBrs rmCalls
  executor.terminateState state

/-- The body of the loop over `removedStates`. -/
def deleteState (executor : Executor) (es : Nat) : Except Fault Executor :=
  if es ∈ executor.states then do
    let trees ← executor.trees.remove es
    .ok { executor with
      states := executor.states.erase es
      allocated := executor.allocated.erase es
      trees }
  else .error .assertion

def updateStates (executor : Executor) (current : Option Nat) : Except Fault Executor :=
  if current.any (· ∈ executor.isPruned) then .ok executor
  else do
    let searcher ←
      updateSearchers executor.searcher current executor.addedStates executor.removedStates
    let executor ← (ascending executor.removedStates).foldlM deleteState
      { executor with
        searcher
        states := executor.states ∪ executor.addedStates
        addedStates := ∅ }
    .ok { executor with removedStates := ∅ }

end Executor

end Woodpecker
