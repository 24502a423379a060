import Mathlib.Data.List.TakeWhile
import Woodpecker.BranchTree.Histories

/-! The search for pruned states is exact. It finds the deepest branch with the wanted
index above the current state, passes the run of parents with that index, and returns what
lies on the other side of each of them.
-/

namespace Woodpecker

open Library List

namespace BranchTree

variable {σ : Type}

/-- A state lies below a slot: it sits there, or below a slot of the branch that does. -/
inductive UnderSlot (tree : BranchTree σ) : Nat → Fin 2 → σ → Prop
  | state {ref : Nat} {slot : Fin 2} {state : σ} (held : tree.stateAt ref slot = some state)
    : tree.UnderSlot ref slot state
  | branch {ref below : Nat} {slot inner : Fin 2} {state : σ}
    (link : tree.branchAt ref slot = some below) (inside : tree.UnderSlot below inner state)
    : tree.UnderSlot ref slot state

/-- The nodes of a parent chain from the deepest one with an index to the last of its
consecutive parents with the same index.
-/
def matchingRun (tree : BranchTree σ) (index : Nat) (chain : List Nat) : List Nat :=
  (chain.dropWhile (fun ref => tree.indexAt ref ≠ some index)).takeWhile
    (fun ref => tree.indexAt ref = some index)

/-- A state on the other side of a branch, seen from the current state. -/
def Opposite (tree : BranchTree σ) (cur : σ) (ref : Nat) (state : σ) : Prop :=
  ∃ slot, tree.UnderSlot ref slot cur ∧ tree.UnderSlot ref slot.rev state

variable {tree : BranchTree σ} {ref : Nat} {slot : Fin 2} {state : σ}

section

variable (linked : tree.Linked)
include linked

/-- A state below a slot is attached, and its own node is reached by descending.
Witness: each branch link has a parent link back.
-/
theorem UnderSlot.ancestor (under : tree.UnderSlot ref slot state)
    : ∃ leaf, tree.parentBranch state = some leaf
        ∧ Relation.ReflTransGen (fun below above => tree.parentAt below = some above) leaf ref := by
  induction under with
  | state held => exact ⟨_, linked.stateUp held, .refl⟩
  | branch link _ ih =>
    obtain ⟨leaf, own, path⟩ := ih
    exact ⟨leaf, own, path.tail (linked.back link)⟩

/-- Following parents leads to smaller pointers. -/
theorem Linked.ancestor_le {below above : Nat}
    (path : Relation.ReflTransGen (fun below above => tree.parentAt below = some above) below above)
    : above ≤ below := by
  induction path with
  | refl => exact Nat.le_refl _
  | tail _ link ih => exact Nat.le_trans (Nat.le_of_lt (linked.down link).1) ih

/-- Two children of one node are not ancestors of each other. -/
theorem Linked.siblings_eq {left right : Nat}
    (leftUp : tree.parentAt left = some ref) (rightUp : tree.parentAt right = some ref)
    (path : Relation.ReflTransGen (fun below above => tree.parentAt below = some above) left right)
    : left = right := by
  rcases path.cases_head with same | ⟨next, link, rest⟩
  · exact same
  have step : next = ref := Option.mem_unique link leftUp
  have bound := linked.ancestor_le rest
  have smaller := (linked.down rightUp).1
  omega

/-- A state below a branch link of a node does not sit in that node. -/
theorem UnderSlot.beyond {below : Nat} {inner : Fin 2}
    (link : tree.branchAt ref slot = some below) (inside : tree.UnderSlot below inner state)
    : tree.parentBranch state ≠ some ref := by
  intro own
  obtain ⟨leaf, leafOwn, path⟩ := inside.ancestor linked
  have same : leaf = ref := Option.mem_unique leafOwn own
  have bound := linked.ancestor_le path
  have smaller := (linked.down (linked.back link)).1
  omega

/-- Only one slot of a node leads to a given state, by cases on the two derivations. -/
theorem UnderSlot.slot_unique {left right : Fin 2}
    (hl : tree.UnderSlot ref left state) (hr : tree.UnderSlot ref right state)
    : left = right := by
  cases hl with
  | state held =>
    cases hr with
    | state other => exact linked.oneState held other
    | branch link inside => exact absurd (linked.stateUp held) (inside.beyond linked link)
  | branch link inside =>
    cases hr with
    | state held => exact absurd (linked.stateUp held) (inside.beyond linked link)
    | branch other within =>
      obtain ⟨leaf, own, path⟩ := inside.ancestor linked
      obtain ⟨leaf', own', path'⟩ := within.ancestor linked
      have same : leaf' = leaf := Option.mem_unique own' own
      subst same
      have rightUnique : Relator.RightUnique
          (fun below above => tree.parentAt below = some above) :=
        fun _ _ _ first second => Option.mem_unique first second
      -- Both children lie on the parent chain of the state's own node.
      rcases path.total_of_right_unique rightUnique path' with down | up
      · have equal := linked.siblings_eq (linked.back link) (linked.back other) down
        exact linked.oneSlot link (equal ▸ other)
      · have equal := linked.siblings_eq (linked.back other) (linked.back link) up
        exact linked.oneSlot link (equal ▸ other)

variable {cur : σ}

/-- The current state is never on its own other side. -/
theorem Opposite.ne (opposite : tree.Opposite cur ref state)
    : state ≠ cur := by
  rintro rfl
  obtain ⟨slot, here, there⟩ := opposite
  have same := here.slot_unique linked there
  fin_cases slot <;> simp at same

/-- The current state is on the other side of no node, so it is never collected. -/
theorem opposite_absent {before after : Finset σ} (absent : cur ∉ before)
    (exact_ : ∀ state, state ∈ after ↔ state ∈ before ∨ tree.Opposite cur ref state)
    : cur ∉ after := by
  rw [exact_]
  rintro (old | opposite)
  · exact absent old
  · exact opposite.ne linked rfl

end

-- The recursive collection below a slot

variable [DecidableEq σ] {node : BranchNode σ}

section

variable (found : tree.nodes[ref]? = some node)
include found

omit [DecidableEq σ] in
theorem stateAt_eq (slot : Fin 2) : tree.stateAt ref slot = node.childStates slot := by
  simp [stateAt, found]

omit [DecidableEq σ] in
theorem branchAt_eq (slot : Fin 2) : tree.branchAt ref slot = node.childBranches slot := by
  simp [branchAt, found]

/-- The states of a subtree, node by node: own slots first, then the two branches. -/
theorem exists_underSlot_iff (state : σ)
    : (∃ slot, tree.UnderSlot ref slot state)
      ↔ state ∈ node.ownStates
        ∨ (∃ below inner, node.childBranches 0 = some below ∧ tree.UnderSlot below inner state)
        ∨ ∃ below inner, node.childBranches 1 = some below ∧ tree.UnderSlot below inner state := by
  have here := stateAt_eq found
  have there := branchAt_eq found
  simp only [BranchNode.ownStates, Finset.mem_union, Option.mem_toFinset, Option.mem_def]
  constructor
  · rintro ⟨slot, under⟩
    cases under with
    | state held =>
      rw [here] at held
      fin_cases slot
      · exact Or.inl (Or.inl held)
      · exact Or.inl (Or.inr held)
    | branch link inside =>
      rw [there] at link
      fin_cases slot
      · exact Or.inr (Or.inl ⟨_, _, link, inside⟩)
      · exact Or.inr (Or.inr ⟨_, _, link, inside⟩)
  · rintro ((held | held) | ⟨below, inner, link, inside⟩ | ⟨below, inner, link, inside⟩)
    · exact ⟨0, .state ((here 0).trans held)⟩
    · exact ⟨1, .state ((here 1).trans held)⟩
    · exact ⟨0, .branch ((there 0).trans link) inside⟩
    · exact ⟨1, .branch ((there 1).trans link) inside⟩

end

/-- With a budget that covers the later allocations, the recursive search returns exactly
the states below a node. The induction is on the budget: children are allocated later.
-/
theorem findChildStates_exact (linked : tree.Linked) (fuel ref : Nat)
    (bound : ref < tree.nodes.length) (enough : tree.nodes.length ≤ fuel + ref)
    : ∃ states, tree.findChildStates fuel ref = .ok states
        ∧ ∀ state, state ∈ states ↔ ∃ slot, tree.UnderSlot ref slot state := by
  induction fuel generalizing ref with
  | zero => omega
  | succ fuel ih =>
    obtain ⟨node, found⟩ : ∃ node, tree.nodes[ref]? = some node :=
      ⟨_, getElem?_eq_getElem bound⟩
    have branch (slot : Fin 2)
        : ∃ states, (node.childBranches slot).elim (.ok ∅) (tree.findChildStates fuel) = .ok states
            ∧ ∀ state, state ∈ states
                ↔ ∃ below inner,
                    node.childBranches slot = some below ∧ tree.UnderSlot below inner state := by
      rcases link : node.childBranches slot with _ | below
      · exact ⟨∅, rfl, by simp⟩
      have up := linked.back ((branchAt_eq found slot).trans link)
      have later := (linked.down up).1
      obtain ⟨states, returned, exact_⟩ := ih below (parentAt_bound up) (by omega)
      refine ⟨states, returned, ?_⟩
      intro state
      rw [exact_]
      constructor
      · rintro ⟨inner, under⟩
        exact ⟨below, inner, rfl, under⟩
      · rintro ⟨other, inner, same, under⟩
        cases same
        exact ⟨inner, under⟩
    obtain ⟨left, leftReturned, leftExact⟩ := branch 0
    obtain ⟨right, rightReturned, rightExact⟩ := branch 1
    refine ⟨node.ownStates ∪ left ∪ right, ?_, ?_⟩
    · simp only [findChildStates, deref, found, ok_bind, leftReturned, rightReturned, pure_eq_ok]
    · intro state
      rw [exists_underSlot_iff found]
      simp only [Finset.mem_union, leftExact, rightExact, or_assoc]

/-- Adding a slot adds exactly the states below it. -/
theorem insertSlot_exact (linked : tree.Linked) (found : tree.nodes[ref]? = some node)
    (slot : Fin 2) (before : Finset σ)
    : ∃ after, tree.insertSlot node slot before = .ok after
        ∧ ∀ state, state ∈ after ↔ state ∈ before ∨ tree.UnderSlot ref slot state := by
  have here := stateAt_eq found slot
  have there := branchAt_eq found slot
  unfold insertSlot
  cases link : node.childBranches slot with
  | none =>
    refine ⟨_, rfl, ?_⟩
    intro state
    simp only [Finset.mem_union, Option.mem_toFinset, Option.mem_def, ← here]
    refine or_congr_right ⟨.state, ?_⟩
    intro under
    cases under with
    | state held => exact held
    | branch other _ => simp [there, link] at other
  | some below =>
    have up := linked.back (there.trans link)
    have bound := parentAt_bound up
    obtain ⟨states, returned, exact_⟩ :=
      findChildStates_exact linked tree.nodes.length below bound (by omega)
    refine ⟨before ∪ (node.childStates slot).toFinset ∪ states,
      by simp only [returned, ok_bind, pure_eq_ok], ?_⟩
    intro state
    simp only [Finset.mem_union, Option.mem_toFinset, Option.mem_def, ← here, exact_, or_assoc]
    refine or_congr_right ⟨?_, ?_⟩
    · rintro (held | ⟨inner, under⟩)
      · exact .state held
      · exact .branch (there.trans link) under
    · intro under
      cases under with
      | state held => exact Or.inl held
      | branch other inside =>
        have same : below = _ := Option.mem_unique link (there.symm.trans other)
        exact Or.inr ⟨_, same ▸ inside⟩

-- The walk from the current state towards the root

/-- How the walk arrives at a node: from the current state's own slot, or from the branch it
just left, which the current state lies below.
-/
def CameFrom (tree : BranchTree σ) (cur : σ) (prev : Option Nat) (ref : Nat) (slot : Fin 2)
    : Prop :=
  match prev with
  | none => tree.stateAt ref slot = some cur
  | some below => tree.branchAt ref slot = some below ∧ ∃ inner, tree.UnderSlot below inner cur

variable {prev : Option Nat} {cur : σ}

omit [DecidableEq σ] in
/-- The slot the walk came through is the one that leads to the current state. -/
theorem CameFrom.under (came : tree.CameFrom cur prev ref slot)
    : tree.UnderSlot ref slot cur := by
  cases prev with
  | none => exact .state came
  | some below =>
    obtain ⟨link, inner, under⟩ := came
    exact .branch link under

section

variable (linked : tree.Linked) (came : tree.CameFrom cur prev ref slot)
include linked came

/-- Of the four tests at a node exactly one succeeds, the one for the slot the walk came
through.
-/
theorem insertOpposite_eq (found : tree.nodes[ref]? = some node) (before : Finset σ)
    : tree.insertOpposite cur prev node before = tree.insertSlot node slot.rev before := by
  have here := stateAt_eq found
  have there := branchAt_eq found
  cases prev with
  | none =>
    have states (other : Fin 2) : node.childStates other = some cur ↔ other = slot := by
      rw [← here]
      exact ⟨fun also => linked.oneState also came, fun same => same ▸ came⟩
    rcases Fin.exists_fin_two.mp ⟨slot, rfl⟩ with rfl | rfl <;>
      simp [insertOpposite, insertOpposite.insertIf, states]
  | some below =>
    obtain ⟨link, inner, under⟩ := came
    have absent (other : Fin 2) : node.childStates other ≠ some cur := by
      intro also
      exact under.beyond linked link (linked.stateUp ((here other).trans also))
    have branches (other : Fin 2) : node.childBranches other = some below ↔ other = slot := by
      rw [← there]
      exact ⟨fun also => linked.oneSlot also link, fun same => same ▸ link⟩
    rcases Fin.exists_fin_two.mp ⟨slot, rfl⟩ with rfl | rfl <;>
      simp [insertOpposite, insertOpposite.insertIf, absent, branches]

/-- At a node with the wanted index the walk adds exactly the states on its other side. -/
theorem insertOpposite_exact (found : tree.nodes[ref]? = some node) (before : Finset σ)
    : ∃ after, tree.insertOpposite cur prev node before = .ok after
        ∧ ∀ state, state ∈ after ↔ state ∈ before ∨ tree.Opposite cur ref state := by
  obtain ⟨after, returned, exact_⟩ := insertSlot_exact linked found slot.rev before
  refine ⟨after, (insertOpposite_eq linked came found before).trans returned, ?_⟩
  intro state
  rw [exact_]
  refine or_congr_right ⟨fun under => ⟨slot, came.under, under⟩, ?_⟩
  rintro ⟨other, here, there⟩
  exact here.slot_unique linked came.under ▸ there

omit [DecidableEq σ] in
/-- Going up from a node arrives at its parent through the slot that holds the node. -/
theorem CameFrom.up {above : Nat} (link : tree.parentAt ref = some above)
    : ∃ next, tree.CameFrom cur (some ref) above next := by
  obtain ⟨_, next, held⟩ := linked.down link
  exact ⟨next, held, slot, came.under⟩

variable {chain : List Nat}

omit [DecidableEq σ] in
/-- Every node above the walk has a slot that leads to the current state, by induction on the
chain.
-/
theorem CameFrom.chain_under (above : ParentChain tree.parentAt ref chain) {node : Nat}
    (member : node ∈ chain)
    : ∃ place, tree.UnderSlot node place cur := by
  induction above generalizing prev slot with
  | top _ =>
    have same := mem_singleton.mp member
    exact ⟨slot, same ▸ came.under⟩
  | up link _ ih =>
    rcases mem_cons.mp member with same | later
    · exact ⟨slot, same ▸ came.under⟩
    · obtain ⟨next, parentCame⟩ := came.up linked link
      exact ih parentCame later

end

/-- Without the current state in the set, a finished search reports it. -/
theorem reportPruned_ok {found : Finset σ} (absent : cur ∉ found)
    : reportPruned cur found = .ok (decide found.Nonempty, found) := by
  simp [reportPruned, absent, Finset.card_pos]

omit [DecidableEq σ] in
/-- The chain above a node starts with the node. -/
theorem chain_head (above : ParentChain tree.parentAt ref chain)
    : ∃ rest, chain = ref :: rest := by
  cases above with
  | top _ => exact ⟨[], rfl⟩
  | up _ _ => exact ⟨_, rfl⟩

variable {fuel index : Nat}

/-- At a node with another index the walk goes on to the parent. -/
theorem walkUp_past {before : Finset σ} (enough : ref < fuel)
    (bound : ref < tree.nodes.length) (other : tree.indexAt ref ≠ some index)
    : tree.walkUp cur index fuel prev ref before = match tree.parentAt ref with
        | none => .ok (false, ∅)
        | some next => tree.walkUp cur index (fuel - 1) (some ref) next before := by
  obtain ⟨fuel, rfl⟩ := Nat.exists_eq_add_of_lt enough
  have found : tree.nodes[ref]? = some tree.nodes[ref] := getElem?_eq_getElem bound
  have different : tree.nodes[ref].dynInstrIdx ≠ index := by simpa [indexAt, found] using other
  simp only [walkUp, deref, found, ok_bind, if_neg different, parentAt, Option.bind_some]
  rfl

section

variable (linked : tree.Linked)
include linked

section

variable (above : ParentChain tree.parentAt ref chain) (enough : ref < fuel)
  (came : tree.CameFrom cur prev ref slot)
include above enough came

/-- Inside a run of equal indices the walk collects the other sides of the whole run, by
induction on the parent chain.
-/
theorem walkUp_inRun (matched : tree.indexAt ref = some index) {before : Finset σ}
    (absent : cur ∉ before)
    : ∃ new, tree.walkUp cur index fuel prev ref before = .ok (decide new.Nonempty, new)
        ∧ ∀ state, state ∈ new
            ↔ state ∈ before
              ∨ ∃ node ∈ chain.takeWhile (fun ref => tree.indexAt ref = some index),
                  tree.Opposite cur node state := by
  induction above generalizing fuel prev slot before with
  | @top ref last =>
    obtain ⟨fuel, rfl⟩ := Nat.exists_eq_add_of_lt enough
    obtain ⟨node, found, same⟩ := Option.map_eq_some_iff.mp matched
    have parentless : node.parentBranch = none := by simpa [parentAt, found] using last
    obtain ⟨after, returned, exact_⟩ := insertOpposite_exact linked came found before
    have afterAbsent := opposite_absent linked absent exact_
    refine ⟨after, ?_, ?_⟩
    · simp [walkUp, deref, found, ok_bind, same, returned, parentless, reportPruned_ok afterAbsent]
    · intro state
      simp [exact_, matched]
  | @up ref next rest link tail ih =>
    obtain ⟨fuel, rfl⟩ := Nat.exists_eq_add_of_lt enough
    obtain ⟨node, found, same⟩ := Option.map_eq_some_iff.mp matched
    have parentEq : node.parentBranch = some next := by simpa [parentAt, found] using link
    obtain ⟨smaller, _, held⟩ := linked.down link
    obtain ⟨parentNode, parentFound⟩ : ∃ parentNode, tree.nodes[next]? = some parentNode :=
      ⟨_, getElem?_eq_getElem (branchAt_bound held)⟩
    obtain ⟨after, returned, exact_⟩ := insertOpposite_exact linked came found before
    have afterAbsent := opposite_absent linked absent exact_
    -- The walk goes on as long as the parent has the same index.
    by_cases continues : parentNode.dynInstrIdx = index
    · have parentMatched : tree.indexAt next = some index := by
        simp [indexAt, parentFound, continues]
      obtain ⟨place, parentCame⟩ := came.up linked link
      obtain ⟨new, walked, newExact⟩ :=
        ih (by omega : next < ref + fuel) parentCame parentMatched afterAbsent
      refine ⟨new, ?_, ?_⟩
      · simp [walkUp, deref, found, ok_bind, same, returned, parentEq, parentFound, continues,
          walked]
      · intro state
        simp [newExact, exact_, matched, or_assoc]
    · have parentOther : tree.indexAt next ≠ some index := by
        simp [indexAt, parentFound, continues]
      obtain ⟨more, rfl⟩ := chain_head tail
      refine ⟨after, ?_, ?_⟩
      · simp [walkUp, deref, found, ok_bind, same, returned, parentEq, parentFound,
          Ne.symm continues, reportPruned_ok afterAbsent]
      · intro state
        simp [exact_, matched, parentOther]

/-- What the walk returns from a node: the other sides of the run of the chain above it. -/
def WalkExact (tree : BranchTree σ) (cur : σ) (index fuel : Nat) (prev : Option Nat)
    (ref : Nat) (chain : List Nat)
    : Prop :=
  ∃ new,
    tree.walkUp cur index fuel prev ref ∅ = .ok (decide new.Nonempty, new)
    ∧ ∀ state,
        state ∈ new ↔ ∃ node ∈ tree.matchingRun index chain, tree.Opposite cur node state

/-- From a node with the wanted index the run starts at once. -/
theorem walkUp_fromMatch (matched : tree.indexAt ref = some index)
    : tree.WalkExact cur index fuel prev ref chain := by
  obtain ⟨new, walked, exact_⟩ :=
    walkUp_inRun linked above enough came matched (Finset.notMem_empty cur)
  obtain ⟨rest, rfl⟩ := chain_head above
  refine ⟨new, walked, ?_⟩
  intro state
  simp [exact_, matchingRun, matched]

/-- The whole walk collects the other sides of the run that starts at the deepest match, by
induction on the part of the chain before it.
-/
theorem walkUp_exact (index : Nat) (bound : ref < tree.nodes.length)
    : tree.WalkExact cur index fuel prev ref chain := by
  induction above generalizing fuel prev slot with
  | @top ref last =>
    by_cases matched : tree.indexAt ref = some index
    · exact walkUp_fromMatch linked (.top last) enough came matched
    · refine ⟨∅, by simp [walkUp_past enough bound matched, last], ?_⟩
      intro state
      simp [matchingRun, matched]
  | @up ref next rest link tail ih =>
    by_cases matched : tree.indexAt ref = some index
    · exact walkUp_fromMatch linked (.up link tail) enough came matched
    obtain ⟨smaller, _, held⟩ := linked.down link
    obtain ⟨place, parentCame⟩ := came.up linked link
    obtain ⟨new, walked, exact_⟩ :=
      ih (by omega : next < fuel - 1) parentCame (branchAt_bound held)
    refine ⟨new, by simp [walkUp_past enough bound matched, link, walked], ?_⟩
    intro state
    simp [exact_, matchingRun, matched]

end

/-- The search for an attached state walks the chain above it and returns what the run of
matching nodes on it has on the other side.
-/
theorem Linked.findPrunedStates_walk (attached : tree.Attached cur) (index : Nat) (out : Finset σ)
    : ∃ leaf chain new slot, tree.parentBranch cur = some leaf
        ∧ ParentChain tree.parentAt leaf chain
        ∧ tree.CameFrom cur none leaf slot
        ∧ tree.findPrunedStates cur index out = .ok (decide new.Nonempty, out ∪ new)
        ∧ ∀ state,
            state ∈ new ↔ ∃ node ∈ tree.matchingRun index chain, tree.Opposite cur node state := by
  obtain ⟨leaf, own⟩ := Option.isSome_iff_exists.mp attached
  obtain ⟨slot, held⟩ := linked.stateDown own
  have bound := stateAt_bound held
  obtain ⟨root, top⟩ : ∃ root, tree.root = some root := by
    cases top : tree.root with
    | none => simp [linked.rootless top] at bound
    | some root => exact ⟨root, rfl⟩
  obtain ⟨chain, above⟩ :=
    ParentChain.exists_of_rank id (fun link => (linked.down link).1) leaf
  have came : tree.CameFrom cur none leaf slot := held
  obtain ⟨new, walked, exact_⟩ := walkUp_exact linked above bound came index bound
  exact ⟨leaf, chain, new, slot, own, above, came,
    by simp [findPrunedStates, top, own, walked], exact_⟩

/-- The search for a state the tree knows returns other states that are attached. -/
theorem Linked.findPrunedStates_attached (known : tree.root = none ∨ tree.Attached cur)
    (index : Nat) (out : Finset σ)
    : ∃ answer new, tree.findPrunedStates cur index out = .ok (answer, out ∪ new)
        ∧ ∀ state ∈ new, tree.Attached state ∧ state ≠ cur := by
  rcases known with top | attached
  · exact ⟨false, ∅, by simp [findPrunedStates, top], by simp⟩
  obtain ⟨leaf, chain, new, slot, -, -, -, returned, exact_⟩ :=
    linked.findPrunedStates_walk attached index out
  refine ⟨_, new, returned, ?_⟩
  intro state member
  obtain ⟨node, -, opposite⟩ := (exact_ state).mp member
  refine ⟨?_, opposite.ne linked⟩
  obtain ⟨place, -, there⟩ := opposite
  obtain ⟨_, own, -⟩ := there.ancestor linked
  simp [Attached, own]

end

/-- On every reachable tree the search for an attached state is exact. It adds the attached
states on the other side of the run's nodes and nothing else, answers whether there are any,
and neither aborts nor finds the state itself.
-/
theorem findPrunedStates_exact {calls : List (TreeCall σ)} {tree : BranchTree σ}
    (run : Run TreeStep empty calls tree) {cur : σ} (attached : tree.Attached cur)
    (index : Nat) (out : Finset σ)
    : ∃ leaf chain new, tree.parentBranch cur = some leaf
        ∧ ParentChain tree.parentAt leaf chain
        ∧ tree.findPrunedStates cur index out = .ok (decide new.Nonempty, out ∪ new)
        ∧ (∀ ref ∈ tree.matchingRun index chain, ∃! slot, tree.UnderSlot ref slot cur)
        ∧ (∀ state, state ∈ new
            ↔ tree.Attached state
              ∧ ∃ ref ∈ tree.matchingRun index chain,
                  ∃ slot, tree.UnderSlot ref slot cur ∧ tree.UnderSlot ref slot.rev state)
        ∧ cur ∉ new
        ∧ ((∀ ref ∈ chain, tree.indexAt ref ≠ some index) → new = ∅) := by
  have linked := run.invariant .empty Linked.step
  obtain ⟨leaf, chain, new, slot, own, above, came, returned, exact_⟩ :=
    linked.findPrunedStates_walk attached index out
  refine ⟨leaf, chain, new, own, above, returned, ?_, ?_, ?_, ?_⟩
  · intro ref member
    obtain ⟨place, under⟩ := came.chain_under linked above
      (dropWhile_subset _ (takeWhile_subset _ member))
    exact ⟨place, under, fun other also => also.slot_unique linked under⟩
  · intro state
    rw [exact_]
    constructor
    · rintro ⟨ref, member, place, here, there⟩
      obtain ⟨_, stateOwn, _⟩ := there.ancestor linked
      exact ⟨by simp [Attached, stateOwn], ref, member, place, here, there⟩
    · rintro ⟨_, ref, member, opposite⟩
      exact ⟨ref, member, opposite⟩
  · intro member
    obtain ⟨_, _, opposite⟩ := (exact_ cur).mp member
    exact opposite.ne linked rfl
  · intro unmatched
    have noRun : tree.matchingRun index chain = [] := by
      have dropped : chain.dropWhile (fun ref => tree.indexAt ref ≠ some index) = [] := by
        simpa [dropWhile_eq_nil_iff] using unmatched
      simp only [matchingRun, dropped, takeWhile_nil]
    ext state
    simp [exact_, noRun]

/-- Two forks under one index, the sibling of the first forked again: pruning at that index
finds the sibling's whole subtree, but not the removed second sibling.
-/
theorem findPrunedStates_exact_sharedIndex
    : ∃ tree : BranchTree Nat, Run TreeStep empty
            [.addBranch 0 5 1, .addBranch 0 5 2, .addBranch 1 7 3, .removeState 2] tree
        ∧ tree.findPrunedStates 0 5 ∅ = .ok (true, {1, 3})
        ∧ ∃ leaf chain new, tree.parentBranch 0 = some leaf
            ∧ ParentChain tree.parentAt leaf chain
            ∧ tree.findPrunedStates 0 5 ∅ = .ok (decide new.Nonempty, ∅ ∪ new)
            ∧ 0 ∉ new := by
  have run : Run TreeStep (empty : BranchTree Nat)
      ([] ++ [.addBranch 0 5 1] ++ [.addBranch 0 5 2] ++ [.addBranch 1 7 3]
        ++ [.removeState 2]) _ :=
    .snoc (.snoc (.snoc (.snoc .nil ⟨⟨.inl rfl, by decide, by decide⟩, rfl⟩)
      ⟨⟨.inr rfl, by decide, by decide⟩, rfl⟩) ⟨⟨.inr rfl, by decide, by decide⟩, rfl⟩) ⟨rfl, rfl⟩
  obtain ⟨leaf, chain, new, own, above, returned, _, _, absent, _⟩ :=
    @findPrunedStates_exact _ _ _ _ run 0 rfl 5 ∅
  exact ⟨_, run, by decide +kernel, leaf, chain, new, own, above, returned, absent⟩

end BranchTree

end Woodpecker
