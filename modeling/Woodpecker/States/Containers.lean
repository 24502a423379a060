import Woodpecker.BranchTree.PrunedStates
import Woodpecker.States.Model

/-! What the searcher and the two trees hold, and that entering and taking out a state
succeeds on what they hold.
-/

namespace Woodpecker

open Library Finset

/-- A list holds exactly the states of a set, each once. -/
structure Holds (states : List Nat) (set : Finset Nat) : Prop where
  nodup : states.Nodup
  mem : ∀ state, state ∈ states ↔ state ∈ set

namespace Holds

variable {states : List Nat} {set : Finset Nat} {es : Nat} {kind : SearcherKind}

section

variable (holds : Holds states set)
include holds

theorem append (new : es ∉ set)
    : Holds (states ++ [es]) (insert es set) where
  nodup := by
    rw [List.nodup_append]
    refine ⟨holds.nodup, by simp, ?_⟩
    rintro state held _ last rfl
    obtain rfl := List.mem_singleton.mp last
    exact new ((holds.mem state).mp held)
  mem state := by
    rw [List.mem_append, List.mem_singleton, mem_insert, holds.mem, or_comm]

theorem erase : Holds (states.erase es) (set.erase es) where
  nodup := holds.nodup.erase es
  mem state := by
    rw [holds.nodup.mem_erase_iff, mem_erase, holds.mem]

theorem dropLast (last : states.getLast? = some es)
    : Holds states.dropLast (set.erase es) := by
  obtain ⟨front, rfl⟩ := List.getLast?_eq_some_iff.mp last
  obtain ⟨nodup, mem⟩ := holds
  have split := List.nodup_append.mp nodup
  rw [List.dropLast_concat]
  refine ⟨split.1, ?_⟩
  intro state
  rw [mem_erase, ← mem]
  constructor
  · intro inFront
    exact ⟨split.2.2 state inFront es (by simp), by simp [inFront]⟩
  · rintro ⟨differ, either⟩
    simpa [differ] using either

variable {removedStates : Finset Nat}

/-- The weight of a current state that is held can be entered. -/
theorem updateWeight {current : Option Nat} (here : ∀ state ∈ current, state ∈ set)
    : kind.updateWeight states current removedStates = .ok () := by
  cases current with
  | none => simp [SearcherKind.updateWeight]
  | some es =>
    have present : es ∈ states := (holds.mem es).mpr (here es rfl)
    unfold SearcherKind.updateWeight
    split <;> simp_all

end

section

variable (keeps : kind ≠ .randomPath)
include keeps

/-- A new state can be added. -/
theorem addState (holds : Holds states set) (new : es ∉ set)
    : ∃ after, kind.addState states es = .ok after ∧ Holds after (insert es set) := by
  refine ⟨states ++ [es], ?_, holds.append new⟩
  have absent : es ∉ states := (not_congr (holds.mem es)).mpr new
  cases kind with
  | dfs | random => rfl
  | weighted updateWeights => simp [SearcherKind.addState, absent]
  | randomPath => exact absurd rfl keeps

/-- A state that is held can be removed. -/
theorem removeState (holds : Holds states set) (member : es ∈ set)
    : ∃ after, kind.removeState states es = .ok after ∧ Holds after (set.erase es) := by
  have listed := (holds.mem es).mpr member
  cases kind with
  | random | weighted updateWeights =>
    exact ⟨states.erase es, by simp [SearcherKind.removeState, listed], holds.erase⟩
  | randomPath => exact absurd rfl keeps
  | dfs =>
    cases last : states.getLast? with
    | none => simp [List.getLast?_eq_none_iff.mp last] at listed
    | some back =>
      by_cases same : es = back
      · subst same
        exact ⟨states.dropLast, by simp [SearcherKind.removeState, last], holds.dropLast last⟩
      · exact ⟨states.erase es, by simp [SearcherKind.removeState, last, same, listed], holds.erase⟩

/-- A state that is not held cannot be removed. -/
theorem removeState_error (absent : es ∉ states)
    : ∃ fault, kind.removeState states es = .error fault := by
  cases kind with
  | random | weighted updateWeights =>
    exact ⟨.assertion, by simp [SearcherKind.removeState, absent]⟩
  | randomPath => exact absurd rfl keeps
  | dfs =>
    cases last : states.getLast? with
    | none => exact ⟨.badPointer, by simp [SearcherKind.removeState, last]⟩
    | some back =>
      have differ : es ≠ back := by
        rintro rfl
        exact absent (List.mem_of_getLast? last)
      exact ⟨.assertion, by simp [SearcherKind.removeState, last, differ, absent]⟩

/-- The loop over the added states takes over all of them. -/
theorem addStates (holds : Holds states set) {addedStates : Finset Nat}
    (new : Disjoint addedStates set)
    : ∃ after, (ascending addedStates).foldlM kind.addState states = .ok after
        ∧ Holds after (set ∪ addedStates) := by
  -- What was added is held, what is left to add is still new, and together they are all.
  let Inv (rest vector : List Nat) : Prop := rest.Nodup ∧ ∃ held,
    Holds vector held ∧ Disjoint rest.toFinset held ∧ held ∪ rest.toFinset = set ∪ addedStates
  obtain ⟨after, looped, -, held, holds, -, done⟩ := foldlM_ok Inv
    ⟨nodup_ascending _, set, holds, by simpa, by simp⟩ (by
      rintro es rest vector ⟨nodup, held, holds, new, same⟩
      obtain ⟨fresh, nodup⟩ := List.nodup_cons.mp nodup
      rw [List.toFinset_cons, disjoint_insert_left] at new
      obtain ⟨after, taken, holds⟩ := holds.addState keeps new.1
      exact ⟨after, taken, nodup, _, holds, by simp [new.2, fresh], by simpa using same⟩)
  exact ⟨after, looped, by simpa [← done] using holds⟩

/-- The loop over the removed states takes all of them out. -/
theorem removeStates (holds : Holds states set) (held : removedStates ⊆ set)
    : ∃ after, (ascending removedStates).foldlM kind.removeState states = .ok after
        ∧ Holds after (set \ removedStates) := by
  -- What is left to remove is still held, and without it the right ones remain.
  let Inv (rest vector : List Nat) : Prop := rest.Nodup ∧ ∃ held,
    Holds vector held ∧ rest.toFinset ⊆ held ∧ held \ rest.toFinset = set \ removedStates
  obtain ⟨after, looped, -, held, holds, -, done⟩ := foldlM_ok Inv
    ⟨nodup_ascending _, set, holds, by simpa, by simp⟩ (by
      rintro es rest vector ⟨nodup, held, holds, inside, same⟩
      obtain ⟨fresh, nodup⟩ := List.nodup_cons.mp nodup
      rw [List.toFinset_cons, insert_subset_iff] at inside
      obtain ⟨after, taken, holds⟩ := holds.removeState keeps inside.1
      refine ⟨after, taken, nodup, _, holds, subset_erase.mpr ⟨inside.2, by simpa⟩, ?_⟩
      rw [← same, List.toFinset_cons, sdiff_insert, erase_sdiff_comm])
  exact ⟨after, looped, by simpa [← done] using holds⟩

/-- The loop over the removed states fails if one of them is not held. -/
theorem removeStates_error (holds : Holds states set) (removed : es ∈ removedStates)
    (absent : es ∉ set)
    : ∃ fault, (ascending removedStates).foldlM kind.removeState states = .error fault := by
  -- What is held gets less, so that the state is still missing at its turn.
  let Inv (_ vector : List Nat) : Prop := ∃ left, Holds vector left ∧ es ∉ left
  refine foldlM_error Inv (mem_ascending.mpr removed) ⟨set, holds, absent⟩ ?_
  rintro other rest vector ⟨left, holds, absent⟩
  by_cases member : other ∈ left
  · obtain ⟨after, taken, fewer⟩ := holds.removeState keeps member
    have differ : other ≠ es := by
      rintro rfl
      exact absent member
    refine .inr ⟨differ, after, taken, _, fewer, fun still => ?_⟩
    exact absent (mem_of_mem_erase still)
  · exact .inl (removeState_error keeps ((not_congr (holds.mem other)).mpr member))

end

end Holds

namespace Searcher

variable {searcher : Searcher} {searchers : List Searcher} {set : Finset Nat}
  {current : Option Nat} {addedStates removedStates : Finset Nat}

/-- A searcher has exactly the states of a set. The random path searcher keeps none. -/
def Has (searcher : Searcher) (set : Finset Nat) : Prop :=
  searcher.kind = .randomPath ∨ Holds searcher.states set

/-- The current state is held, the added ones are new and the removed ones are held. -/
structure Fits (set : Finset Nat) (current : Option Nat) (addedStates removedStates : Finset Nat)
    : Prop where
  current : ∀ state ∈ current, state ∈ set
  added : Disjoint addedStates set
  removed : removedStates ⊆ set ∪ addedStates

/-- The random path searcher takes any update. -/
theorem update_randomPath (path : searcher.kind = .randomPath)
    : searcher.update current addedStates removedStates = .ok searcher := by
  have idle (items : List Nat)
      : items.foldlM SearcherKind.randomPath.addState searcher.states = .ok searcher.states
        ∧ items.foldlM SearcherKind.randomPath.removeState searcher.states
          = .ok searcher.states := by
    induction items with
    | nil => exact ⟨rfl, rfl⟩
    | cons item rest ih => exact ih
  obtain ⟨kind, states⟩ := searcher
  obtain rfl : kind = .randomPath := path
  simp [update, SearcherKind.update, SearcherKind.updateWeight, (idle _).1, (idle _).2]

/-- A fitting update succeeds and leaves the states that the sets leave. -/
theorem update_has (has : searcher.Has set)
    (fits : searcher.kind ≠ .randomPath → Fits set current addedStates removedStates)
    : ∃ after, searcher.update current addedStates removedStates = .ok after
        ∧ after.kind = searcher.kind
        ∧ after.Has ((set ∪ addedStates) \ removedStates) := by
  by_cases path : searcher.kind = .randomPath
  · exact ⟨searcher, update_randomPath path, rfl, .inl path⟩
  have holds := has.resolve_left path
  obtain ⟨here, new, held⟩ := fits path
  have weighted : searcher.kind.updateWeight searcher.states current removedStates
      = .ok () := holds.updateWeight here
  obtain ⟨middle, added, holds⟩ := holds.addStates path new
  obtain ⟨after, removed, holds⟩ := holds.removeStates path held
  refine ⟨{ searcher with states := after }, ?_, rfl, .inr holds⟩
  simp [update, SearcherKind.update, weighted, added, removed]

/-- Removing a state that is not held fails, unless the searcher keeps no states. -/
theorem update_error {es : Nat} (keeps : searcher.kind ≠ .randomPath)
    (absent : es ∉ searcher.states)
    : ∃ fault, searcher.update none ∅ {es} = .error fault := by
  obtain ⟨fault, failed⟩ := Holds.removeState_error keeps absent
  refine ⟨fault, ?_⟩
  simp [update, SearcherKind.update, SearcherKind.updateWeight, failed,
    show ascending ∅ = [] from rfl]

end Searcher

variable {searchers : List Searcher}

open Searcher in
/-- An update of all searchers. -/
theorem updateSearchers_has {set : Finset Nat} {current : Option Nat}
    {addedStates removedStates : Finset Nat} (has : ∀ searcher ∈ searchers, searcher.Has set)
    (fits : (∃ searcher ∈ searchers, searcher.kind ≠ .randomPath)
      → Fits set current addedStates removedStates)
    : ∃ after, updateSearchers searchers current addedStates removedStates = .ok after
        ∧ after.map kind = searchers.map kind
        ∧ ∀ searcher ∈ after, searcher.Has ((set ∪ addedStates) \ removedStates) := by
  let Updated (searcher after : Searcher) : Prop :=
    after.kind = searcher.kind ∧ after.Has ((set ∪ addedStates) \ removedStates)
  have each : ∀ searcher ∈ searchers, ∃ after,
      searcher.update current addedStates removedStates = .ok after
      ∧ Updated searcher after :=
    fun searcher member => update_has (has searcher member) fun keeps =>
      fits ⟨searcher, member, keeps⟩
  obtain ⟨after, updated, all⟩ := mapM_ok Updated each
  refine ⟨after, updated, ?_⟩
  clear has fits each updated
  induction all with
  | nil => simp
  | cons first _ ih =>
    obtain ⟨kinds, rest⟩ := ih
    exact ⟨by simp [first.1, kinds], List.forall_mem_cons.mpr ⟨first.2, rest⟩⟩

namespace StateTrees

variable {trees : StateTrees} {live : Finset Nat}

/-- The trees hold exactly the live states. Each has a leaf of the process tree of its own,
and is attached to the branch tree once there has been a branch at all.
-/
structure Planted (trees : StateTrees) (live : Finset Nat) : Prop where
  branches : trees.brTree.Linked
  attached : trees.brTree.root ≠ none → ∀ state, trees.brTree.Attached state ↔ state ∈ live
  alone : trees.brTree.root = none → ∀ state ∈ live, ∀ other ∈ live, state = other
  nodes : trees.processTree.Linked
  seated : ∀ state ∈ live, ∃ ref node,
    trees.ptreeNode state = some ref
    ∧ trees.processTree.node? ref = some node
    ∧ PTree.IsLeaf node
  oneSeat : ∀ state ∈ live, ∀ other ∈ live,
    trees.ptreeNode state = trees.ptreeNode other → state = other

theorem Planted.create (initial : Nat) : (create initial).Planted {initial} where
  branches := .empty
  attached := by simp [StateTrees.create, BranchTree.empty]
  alone := by simp
  nodes := .create
  seated := by
    simp only [mem_singleton, forall_eq]
    exact ⟨0, ⟨none, none, none⟩, by simp [StateTrees.create], rfl, rfl, rfl⟩
  oneSeat := by simp

variable {state : Nat}

section

variable (planted : trees.Planted live)
include planted

/-- A live state is one the branch tree can be asked about. -/
theorem Planted.known (member : state ∈ live)
    : trees.brTree.root = none ∨ trees.brTree.Attached state := by
  by_cases top : trees.brTree.root = none
  · exact .inl top
  · exact .inr ((planted.attached top state).mpr member)

/-- A state that is not live is not attached. -/
theorem Planted.detached (absent : state ∉ live)
    : ¬ trees.brTree.Attached state := by
  by_cases top : trees.brTree.root = none
  · simp [BranchTree.Attached, planted.branches.detached_of_rootless top]
  · rwa [planted.attached top]

variable {current : Nat}

/-- The attached states after the first or a later branch. -/
theorem Planted.attached_insert {other : Nat} (member : current ∈ live)
    : trees.brTree.Attached state ∨ state = current ∨ state = other
      ↔ state ∈ insert other live := by
  rw [mem_insert]
  by_cases top : trees.brTree.root = none
  · have detached := planted.branches.detached_of_rootless top state
    have only : state ∈ live ↔ state = current := by
      constructor
      · exact fun inLive => planted.alone top state inLive current member
      · rintro rfl
        exact member
    simp [BranchTree.Attached, detached, only, or_comm]
  · rw [planted.attached top]
    constructor
    · rintro (inLive | rfl | rfl)
      · exact .inr inLive
      · exact .inr member
      · exact .inl rfl
    · rintro (rfl | inLive)
      · exact .inr (.inr rfl)
      · exact .inl inLive

/-- A fork of a live state succeeds and makes the new state live. The two states get the
new leaves, whichever way round.
-/
theorem Planted.fork {other : Nat} (member : current ∈ live)
    (fresh : other ∉ live) (dynInstrIdx : Nat) {trueState falseState : Nat}
    (sides : (trueState = current ∧ falseState = other)
      ∨ (trueState = other ∧ falseState = current))
    : ∃ after, trees.fork current dynInstrIdx other trueState falseState = .ok after
        ∧ after.Planted (insert other live)
        ∧ after.brTree.root ≠ none := by
  have differ : other ≠ current := fun same => fresh (same ▸ member)
  obtain ⟨brTree, added, branches, rooted, attached⟩ :=
    planted.branches.addBranch (planted.known member) (planted.detached fresh) differ dynInstrIdx
  obtain ⟨ref, node, seat, found, leaf⟩ := planted.seated current member
  obtain ⟨processTree, split, nodes, left, right, others⟩ := planted.nodes.split found leaf
  let ptreeNode := Function.update
    (Function.update trees.ptreeNode falseState (some trees.processTree.nodes.length))
    trueState (some (trees.processTree.nodes.length + 1))
  have seats (state : Nat)
      : ptreeNode state = if state = trueState then some (trees.processTree.nodes.length + 1)
          else if state = falseState then some trees.processTree.nodes.length
          else trees.ptreeNode state := by
    simp only [ptreeNode, Function.update_apply]
  -- Only the two sides move to the new leaves.
  have kept {state : Nat} (inLive : state ∈ insert other live) (notTrue : state ≠ trueState)
      (notFalse : state ≠ falseState)
      : state ∈ live ∧ state ≠ current := by
    rcases sides with ⟨rfl, rfl⟩ | ⟨rfl, rfl⟩
    · exact ⟨(mem_insert.mp inLive).resolve_left notFalse, notTrue⟩
    · exact ⟨(mem_insert.mp inLive).resolve_left notTrue, notFalse⟩
  have old {state seat : Nat} (inLive : state ∈ live) (at_ : trees.ptreeNode state = some seat)
      : seat < trees.processTree.nodes.length := by
    obtain ⟨place, record, placed, there, -⟩ := planted.seated state inLive
    obtain rfl := Option.mem_unique placed at_
    exact Heap.lt_of_read there
  refine ⟨⟨processTree, ptreeNode, brTree⟩, ?_, ?_, rooted⟩
  · simp [StateTrees.fork, added, ptreeNodeOf, seat, split, ptreeNode]
  refine ⟨branches, ?_, fun top => absurd top rooted, nodes, ?_, ?_⟩
  · intro _ state
    rw [attached, planted.attached_insert member]
  · intro state inLive
    simp only [seats]
    split
    · exact ⟨_, _, rfl, right, rfl, rfl⟩
    split
    · exact ⟨_, _, rfl, left, rfl, rfl⟩
    obtain ⟨wasLive, notCurrent⟩ := kept inLive ‹_› ‹_›
    obtain ⟨place, record, placed, there, isLeaf⟩ := planted.seated state wasLive
    refine ⟨place, record, placed, others ?_ there, isLeaf⟩
    rintro rfl
    exact notCurrent (planted.oneSeat state wasLive current member (placed.trans seat.symm))
  · intro state inLive state' inLive' same
    have := planted.oneSeat state
    grind

/-- A fork of a state that is not live fails once there has been a branch. -/
theorem Planted.fork_error (absent : current ∉ live)
    (rooted : trees.brTree.root ≠ none) (dynInstrIdx other trueState falseState : Nat)
    : ∃ fault, trees.fork current dynInstrIdx other trueState falseState = .error fault := by
  obtain ⟨root, top⟩ := Option.ne_none_iff_exists'.mp rooted
  have detached : trees.brTree.parentBranch current = none := by
    simpa [BranchTree.Attached] using planted.detached absent
  exact ⟨.assertion, by simp [StateTrees.fork, BranchTree.addBranch, top, detached]⟩

/-- Taking out a live state succeeds and leaves the others. -/
theorem Planted.remove (member : state ∈ live)
    : ∃ after, trees.remove state = .ok after
        ∧ after.Planted (live.erase state)
        ∧ (trees.brTree.root ≠ none → after.brTree.root ≠ none) := by
  obtain ⟨ref, node, seat, found, leaf⟩ := planted.seated state member
  obtain ⟨processTree, removed, nodes, others, -⟩ := planted.nodes.remove found leaf
  have seated : ∀ other ∈ live.erase state, ∃ place record,
      trees.ptreeNode other = some place ∧ processTree.node? place = some record
      ∧ PTree.IsLeaf record := by
    intro other inLive
    obtain ⟨differ, wasLive⟩ := mem_erase.mp inLive
    obtain ⟨place, record, placed, there, isLeaf⟩ := planted.seated other wasLive
    refine ⟨place, record, placed, (others isLeaf).mpr ⟨?_, there⟩, isLeaf⟩
    rintro rfl
    exact differ (planted.oneSeat other wasLive state member (placed.trans seat.symm))
  have oneSeat : ∀ other ∈ live.erase state, ∀ third ∈ live.erase state,
      trees.ptreeNode other = trees.ptreeNode third → other = third :=
    fun other inLive third inLive' =>
      planted.oneSeat other (mem_of_mem_erase inLive) third (mem_of_mem_erase inLive')
  rcases planted.known member with top | attachedHere
  · have unchanged : trees.brTree.removeState state = .ok trees.brTree := by
      simp [BranchTree.removeState, top]
    refine ⟨{ trees with processTree }, ?_, ?_, id⟩
    · simp [StateTrees.remove, ptreeNodeOf, seat, removed, unchanged]
    · refine ⟨planted.branches, fun rooted => absurd top rooted, ?_, nodes, seated, oneSeat⟩
      intro _ other inLive third inLive'
      exact planted.alone top other (mem_of_mem_erase inLive) third (mem_of_mem_erase inLive')
  · obtain ⟨brTree, taken, branches, rooted, attached⟩ :=
      planted.branches.removeState attachedHere
    have wasRooted : trees.brTree.root ≠ none := by
      intro top
      simp [BranchTree.Attached, planted.branches.detached_of_rootless top] at attachedHere
    refine ⟨⟨processTree, trees.ptreeNode, brTree⟩, ?_, ?_, fun _ => rooted⟩
    · simp [StateTrees.remove, ptreeNodeOf, seat, removed, taken]
    · refine ⟨branches, ?_, fun top => absurd top rooted, nodes, seated, oneSeat⟩
      intro _ other
      rw [attached, planted.attached wasRooted, mem_erase, and_comm]

end

end StateTrees

end Woodpecker
