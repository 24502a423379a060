import Woodpecker.States.Containers

/-! The life of states over whole runs of the main loop.

The calls may come in any order on any states that were not deleted. The containers stay
consistent as long as no call names a pruned state, no state is pruned before the searcher
knows it, and the loop never comes back with a pruned state while new states wait; each of
the three breaks them.
-/

namespace Woodpecker

open Library Finset List

namespace Executor

variable {executor after : Executor}

/-- A call on the containers, with the answers of the random choices and of the slicer. -/
inductive Event where
  | fork (current dynInstrIdx other : Nat) (swap : Bool)
  | branch (state : Nat) (branchings : List Branching)
  | terminateState (state : Nat)
  | terminateStateOnExit (state : Nat) (rmBrs rmCalls : Finset Nat)
  | updateStates (current : Option Nat)

def handle (executor : Executor) : Event → Except Fault Executor
  | .fork current dynInstrIdx other swap => executor.fork current dynInstrIdx other swap
  | .branch state branchings => executor.branch state branchings
  | .terminateState state => executor.terminateState state
  | .terminateStateOnExit state rmBrs rmCalls =>
    executor.terminateStateOnExit state rmBrs rmCalls
  | .updateStates current => executor.updateStates current

/-- States that are named were not deleted, and new ones have addresses of their own. The
state an iteration was about was selected from `states`, and may have been pruned since.
-/
def Legal (executor : Executor) : Event → Prop
  | .fork current _ other _ => current ∈ executor.allocated ∧ other ∉ executor.allocated
  | .branch state branchings =>
    state ∈ executor.allocated
    ∧ (branchings.map Branching.other).Nodup
    ∧ ∀ branching ∈ branchings, branching.other ∉ executor.allocated
  | .terminateState state | .terminateStateOnExit state _ _ => state ∈ executor.allocated
  | .updateStates current =>
    ∀ state ∈ current, state ∈ executor.states ∨ state ∈ executor.isPruned

/-- Some searcher keeps the states itself. -/
def Keeps (executor : Executor) : Prop :=
  ∃ searcher ∈ executor.searcher, searcher.kind ≠ .randomPath

/-- What a call has to respect. A pruned state may be branched into itself only, a new state
may be pruned only if no searcher keeps states, and a pruned current state may come back
only when no new state waits.
-/
def Careful (executor : Executor) : Event → Prop
  | .fork current _ _ _ => current ∉ executor.isPruned
  | .branch state branchings => state ∈ executor.isPruned → branchings = []
  | .terminateState state => state ∉ executor.isPruned
  | .terminateStateOnExit state rmBrs rmCalls =>
    state ∉ executor.isPruned
    ∧ ∀ pruned, executor.prunedStates state rmBrs rmCalls = .ok pruned → executor.Keeps
        → Disjoint pruned executor.addedStates
  | .updateStates current =>
    (∃ state ∈ current, state ∈ executor.isPruned) → executor.addedStates = ∅

/-- The searchers and the sets agree. -/
structure Consistent (executor : Executor) : Prop where
  searcher : ∀ searcher ∈ executor.searcher, searcher.Has executor.states
  apart : Disjoint executor.addedStates executor.states
  removed : executor.removedStates ⊆ executor.states

/-- The states in use: those the searcher has and those it is to get. -/
def live (executor : Executor) : Finset Nat :=
  executor.states ∪ executor.addedStates

structure Inv (executor : Executor) : Prop extends Consistent executor where
  planted : executor.trees.Planted executor.live
  heap : executor.allocated = executor.live ∪ executor.isPruned
  pruned : Disjoint executor.isPruned executor.live
  rooted : executor.isPruned ≠ ∅ → executor.trees.brTree.root ≠ none

theorem Inv.create (kinds : List SearcherKind) (initialState : Nat)
    : (create kinds initialState).Inv where
  searcher searcher member := by
    obtain ⟨kind, -, rfl⟩ := mem_map.mp member
    by_cases path : kind = .randomPath
    · exact .inl path
    · exact .inr ⟨by simp [path], by simp [path, Executor.create]⟩
  apart := by simp [Executor.create]
  removed := by simp [Executor.create]
  planted := by simpa [Executor.create, live] using StateTrees.Planted.create initialState
  heap := by simp [Executor.create, live]
  pruned := by simp [Executor.create]
  rooted := by simp [Executor.create]

variable {state : Nat}

section

variable (inv : executor.Inv)
include inv

/-- A state that was not deleted is live or pruned. -/
theorem Inv.live_of_unpruned (allocated : state ∈ executor.allocated)
    (unpruned : state ∉ executor.isPruned)
    : state ∈ executor.live := by
  rw [inv.heap] at allocated
  exact (mem_union.mp allocated).resolve_right unpruned

theorem Inv.not_live_of_pruned (pruned : state ∈ executor.isPruned)
    : state ∉ executor.live :=
  disjoint_left.mp inv.pruned pruned

/-- Copying a live state keeps the invariant. -/
theorem Inv.addState {current other : Nat} (member : current ∈ executor.live)
    (fresh : other ∉ executor.allocated) (dynInstrIdx : Nat) {trueState falseState : Nat}
    (sides : (trueState = current ∧ falseState = other)
      ∨ (trueState = other ∧ falseState = current))
    : ∃ after, executor.addState current dynInstrIdx other trueState falseState = .ok after
        ∧ after.Inv
        ∧ after.isPruned = executor.isPruned
        ∧ after.live = insert other executor.live
        ∧ after.allocated = insert other executor.allocated := by
  have unpruned : current ∉ executor.isPruned :=
    fun pruned => inv.not_live_of_pruned pruned member
  have unknown := fresh
  simp only [inv.heap, live, mem_union, not_or] at unknown
  have notLive : other ∉ executor.live := by simp [live, unknown]
  obtain ⟨trees, forked, planted, rooted⟩ :=
    inv.planted.fork member notLive dynInstrIdx sides
  have grown : executor.states ∪ insert other executor.addedStates
      = insert other executor.live := by
    rw [union_insert, live]
  refine ⟨{ executor with
      addedStates := insert other executor.addedStates
      allocated := insert other executor.allocated
      trees }, ?_, ?_, rfl, grown, rfl⟩
  · simp [Executor.addState, forked, unpruned]
  refine ⟨⟨inv.searcher, ?_, inv.removed⟩, ?_, ?_, ?_, fun _ => rooted⟩
  · exact disjoint_insert_left.mpr ⟨unknown.1.1, inv.apart⟩
  · rw [live, grown]
    exact planted
  · simp only [live, grown, inv.heap, insert_union]
  · rw [live, grown]
    exact disjoint_insert_right.mpr ⟨unknown.2, inv.pruned⟩

/-- Copying a pruned state fails. -/
theorem Inv.addState_error {current : Nat} (pruned : current ∈ executor.isPruned)
    (dynInstrIdx other trueState falseState : Nat)
    : ∃ fault, executor.addState current dynInstrIdx other trueState falseState = .error fault := by
  have rooted := inv.rooted (ne_empty_of_mem pruned)
  obtain ⟨fault, failed⟩ :=
    inv.planted.fork_error (inv.not_live_of_pruned pruned) rooted dynInstrIdx other trueState
      falseState
  exact ⟨fault, by simp [Executor.addState, failed]⟩

/-- The loop of `branch` keeps the invariant while the states so far are live, by induction
on the turns left.
-/
theorem Inv.branchLoop {result : List Nat} (state : Nat) {branchings : List Branching}
    (nonempty : result ≠ []) (members : ∀ es ∈ result, es ∈ executor.live)
    (nodup : (branchings.map Branching.other).Nodup)
    (fresh : ∀ branching ∈ branchings, branching.other ∉ executor.allocated)
    : ∃ after, executor.branchLoop result state branchings = .ok after ∧ after.Inv := by
  induction branchings generalizing executor result with
  | nil => exact ⟨executor, rfl, inv⟩
  | cons branching rest ih =>
    obtain ⟨distinct, nodup⟩ := nodup_cons.mp nodup
    have inside : branching.pick % result.length < result.length :=
      Nat.mod_lt _ (length_pos_iff.mpr nonempty)
    have picked : result.getD (branching.pick % result.length) state ∈ result := by
      rw [getD_eq_getElem?_getD, getElem?_eq_getElem inside, Option.getD_some]
      exact getElem_mem inside
    obtain ⟨middle, added, inv, -, live, allocated⟩ :=
      inv.addState (members _ picked) (fresh branching (by simp)) branching.dynInstrIdx
        (.inl ⟨rfl, rfl⟩)
    have grown : ∀ es ∈ result ++ [branching.other], es ∈ middle.live := by
      rw [live]
      exact forall_mem_append.mpr ⟨fun es old => mem_insert_of_mem (members es old),
        forall_mem_singleton.mpr (mem_insert_self _ _)⟩
    have still : ∀ later ∈ rest, later.other ∉ middle.allocated := by
      intro later member
      rw [allocated, mem_insert, not_or]
      refine ⟨?_, fresh later (by simp [member])⟩
      intro same
      exact distinct (mem_map.mpr ⟨later, member, same⟩)
    obtain ⟨after, looped, kept⟩ := ih inv (by simp) grown nodup still
    refine ⟨after, ?_, kept⟩
    simp only [branchLoop, added, ok_bind]
    exact looped

/-- Terminating a live state keeps the invariant. -/
theorem Inv.terminateState (member : state ∈ executor.live)
    : ∃ after, executor.terminateState state = .ok after ∧ after.Inv := by
  by_cases added : state ∈ executor.addedStates
  · obtain ⟨trees, removed, planted, rooted⟩ := inv.planted.remove member
    have notHeld : state ∉ executor.states := disjoint_left.mp inv.apart added
    have left : executor.states ∪ executor.addedStates.erase state = executor.live.erase state := by
      rw [live, erase_union_distrib, erase_eq_of_notMem notHeld]
    have unpruned : state ∉ executor.isPruned :=
      fun pruned => inv.not_live_of_pruned pruned member
    refine ⟨{ executor with
        addedStates := executor.addedStates.erase state
        allocated := executor.allocated.erase state
        trees }, ?_, ?_⟩
    · simp [Executor.terminateState, added, removed]
    refine ⟨⟨inv.searcher, ?_, inv.removed⟩, ?_, ?_, ?_, fun some => rooted (inv.rooted some)⟩
    · exact inv.apart.mono_left (erase_subset _ _)
    · rw [live, left]
      exact planted
    · rw [live, left]
      simp only [inv.heap]
      rw [erase_union_distrib, erase_eq_of_notMem unpruned]
    · rw [live, left]
      exact inv.pruned.mono_right (erase_subset _ _)
  · have held : state ∈ executor.states := (mem_union.mp member).resolve_right added
    refine ⟨{ executor with removedStates := insert state executor.removedStates },
      if_neg added, ?_⟩
    exact ⟨⟨inv.searcher, inv.apart, insert_subset held inv.removed⟩, inv.planted,
      inv.heap, inv.pruned, inv.rooted⟩

/-- Terminating a pruned state leaves it to be removed from where it no longer is. -/
theorem Inv.terminateState_pruned (pruned : state ∈ executor.isPruned)
    (returned : executor.terminateState state = .ok after)
    : ¬ after.Consistent := by
  have notLive := inv.not_live_of_pruned pruned
  simp [live] at notLive
  simp [Executor.terminateState, if_neg notLive.2] at returned
  subst returned
  intro consistent
  exact notLive.1 (consistent.removed (mem_insert_self _ _))

-- Pruned states

/-- The slicer's indices lead to live states other than the one that exits. -/
theorem Inv.prunedStates (member : state ∈ executor.live) (rmBrs rmCalls : Finset Nat)
    : ∃ pruned, executor.prunedStates state rmBrs rmCalls = .ok pruned
        ∧ ∀ other ∈ pruned, executor.trees.brTree.Attached other ∧ other ≠ state := by
  refine foldlM_ok (fun _ pruned =>
    ∀ other ∈ pruned, executor.trees.brTree.Attached other ∧ other ≠ state) (by simp) ?_
  intro dynInstrIdx rest pruned attached
  obtain ⟨answer, new, found, others⟩ :=
    inv.planted.branches.findPrunedStates_attached (inv.planted.known member) dynInstrIdx pruned
  exact ⟨pruned ∪ new, by simp [found], forall_mem_union.mpr ⟨attached, others⟩⟩

/-- Pruning a live state keeps the invariant, if every searcher that keeps states has it. -/
theorem Inv.prune (member : state ∈ executor.live)
    (known : executor.Keeps → state ∉ executor.addedStates)
    (rooted : executor.trees.brTree.root ≠ none)
    : ∃ after, executor.prune state = .ok after
        ∧ after.Inv
        ∧ after.trees.brTree.root ≠ none
        ∧ after.live = executor.live.erase state
        ∧ after.addedStates = executor.addedStates.erase state
        ∧ after.searcher.map Searcher.kind = executor.searcher.map Searcher.kind := by
  have fits (keeps : executor.Keeps) : Searcher.Fits executor.states none ∅ {state} := {
    current := by simp
    added := disjoint_empty_left _
    removed := by simpa using (mem_union.mp member).resolve_right (known keeps) }
  obtain ⟨searcher, updated, kinds, has⟩ := updateSearchers_has inv.searcher fits
  rw [union_empty, sdiff_singleton_eq_erase] at has
  obtain ⟨trees, removed, planted, kept⟩ := inv.planted.remove member
  have left : executor.states.erase state ∪ executor.addedStates.erase state
      = executor.live.erase state := by
    rw [live, erase_union_distrib]
  refine ⟨{ executor with
      searcher
      states := executor.states.erase state
      addedStates := executor.addedStates.erase state
      removedStates := executor.removedStates.erase state
      isPruned := insert state executor.isPruned
      trees }, ?_, ?_, kept rooted, left, rfl, kinds⟩
  · simp [Executor.prune, Executor.terminateStateAtOnce, updated, removed]
  refine ⟨⟨has, ?_, ?_⟩, ?_, ?_, ?_, fun _ => kept rooted⟩
  · exact inv.apart.mono (erase_subset _ _) (erase_subset _ _)
  · exact erase_subset_erase _ inv.removed
  · rw [live, left]
    exact planted
  · rw [live, left]
    simp only [inv.heap]
    ext other
    by_cases same : other = state
    · subst same
      simp [member]
    · simp [same]
  · rw [live, left, disjoint_insert_left]
    exact ⟨notMem_erase _ _, inv.pruned.mono_right (erase_subset _ _)⟩

/-- Pruning a state that a searcher should have and has not got fails. -/
theorem Inv.prune_error (keeps : executor.Keeps) (waiting : state ∈ executor.addedStates)
    : ∃ fault, executor.prune state = .error fault := by
  obtain ⟨searcher, member, kind⟩ := keeps
  have absent : state ∉ searcher.states := by
    rw [((inv.searcher searcher member).resolve_left kind).mem]
    exact disjoint_left.mp inv.apart waiting
  obtain ⟨fault, failed⟩ := Searcher.update_error kind absent
  obtain ⟨fault, failed⟩ : ∃ fault, updateSearchers _ none ∅ {state} = .error fault :=
    mapM_error member failed
  refine ⟨fault, ?_⟩
  simp [Executor.prune, Executor.terminateStateAtOnce, failed]

end

/-- The states still to be pruned after some of them: they are live, the one that exits is
not among them, and they are new if they were.
-/
structure Pruning (executor : Executor) (state : Nat) (rest : List Nat)
    (middle : Executor)
    : Prop where
  inv : middle.Inv
  nodup : rest.Nodup
  members : ∀ other ∈ rest, other ∈ middle.live ∧ other ≠ state
  rooted : rest ≠ [] → middle.trees.brTree.root ≠ none
  exiting : state ∈ middle.live
  added : ∀ other ∈ rest, other ∈ middle.addedStates ↔ other ∈ executor.addedStates
  kinds : middle.searcher.map Searcher.kind = executor.searcher.map Searcher.kind

variable {rest : List Nat} {middle : Executor}

theorem Pruning.keeps_iff (pruning : executor.Pruning state rest middle)
    : middle.Keeps ↔ executor.Keeps := by
  have through (executor : Executor)
      : executor.Keeps ↔ ∃ kind ∈ executor.searcher.map Searcher.kind, kind ≠ .randomPath := by
    simp [Keeps]
  rw [through, through, pruning.kinds]

/-- Pruning the next state, when the searchers that keep states have it. -/
theorem Pruning.next {other : Nat} (pruning : executor.Pruning state (other :: rest) middle)
    (known : executor.Keeps → other ∉ executor.addedStates)
    : ∃ after, middle.prune other = .ok after ∧ executor.Pruning state rest after := by
  have keeps := pruning.keeps_iff
  obtain ⟨inv, nodup, members, rooted, exiting, added, kinds⟩ := pruning
  obtain ⟨distinct, nodup⟩ := nodup_cons.mp nodup
  obtain ⟨member, differ⟩ := members other (by simp)
  have here : middle.Keeps → other ∉ middle.addedStates := by
    intro middleKeeps
    rw [added other (by simp)]
    exact known (keeps.mp middleKeeps)
  obtain ⟨after, pruned, inv, stillRooted, live, waiting, sameKinds⟩ :=
    inv.prune member here (rooted (by simp))
  have others {third : Nat} (later : third ∈ rest) : third ≠ other := by
    rintro rfl
    exact distinct later
  refine ⟨after, pruned, inv, nodup, ?_, fun _ => stillRooted, ?_, ?_, sameKinds.trans kinds⟩
  · intro third later
    obtain ⟨wasLive, notExiting⟩ := members third (by simp [later])
    rw [live, mem_erase]
    exact ⟨⟨others later, wasLive⟩, notExiting⟩
  · rw [live, mem_erase]
    exact ⟨differ.symm, exiting⟩
  · intro third later
    rw [waiting, mem_erase, added third (by simp [later])]
    exact and_iff_right (others later)

section

variable (inv : executor.Inv) (member : state ∈ executor.live)
include inv member

/-- Before anything is pruned. -/
theorem Inv.pruning {pruned : Finset Nat}
    (others : ∀ other ∈ pruned, executor.trees.brTree.Attached other ∧ other ≠ state)
    : executor.Pruning state (ascending pruned) executor := by
  have rooted {other : Nat} (attached : executor.trees.brTree.Attached other)
      : executor.trees.brTree.root ≠ none := by
    intro top
    simp [BranchTree.Attached, inv.planted.branches.detached_of_rootless top] at attached
  refine ⟨inv, nodup_ascending _, ?_, ?_, member, fun _ _ => Iff.rfl, rfl⟩
  · intro other listed
    obtain ⟨attached, differ⟩ := others other (mem_ascending.mp listed)
    exact ⟨(inv.planted.attached (rooted attached) other).mp attached, differ⟩
  · intro some
    obtain ⟨other, listed⟩ := exists_mem_of_ne_nil _ some
    exact rooted (others other (mem_ascending.mp listed)).1

/-- A state that exits and prunes only what the searchers know leaves the invariant. -/
theorem Inv.terminateStateOnExit {rmBrs rmCalls : Finset Nat}
    (known : ∀ pruned, executor.prunedStates state rmBrs rmCalls = .ok pruned
      → executor.Keeps → Disjoint pruned executor.addedStates)
    : ∃ after, executor.terminateStateOnExit state rmBrs rmCalls = .ok after ∧ after.Inv := by
  have unpruned : state ∉ executor.isPruned :=
    fun pruned => inv.not_live_of_pruned pruned member
  obtain ⟨pruned, found, others⟩ := inv.prunedStates member rmBrs rmCalls
  have apart := known pruned found
  let Inv (rest : List Nat) (middle : Executor) : Prop :=
    executor.Pruning state rest middle
    ∧ (executor.Keeps → ∀ other ∈ rest, other ∉ executor.addedStates)
  have loop : ∃ middle,
      (ascending pruned).foldlM Executor.prune executor = .ok middle ∧ Inv [] middle := by
    refine foldlM_ok Inv ⟨inv.pruning member others, ?_⟩ ?_
    · intro keeps other listed
      exact disjoint_left.mp (apart keeps) (mem_ascending.mp listed)
    · rintro other rest middle ⟨pruning, known⟩
      obtain ⟨after, pruned, left⟩ := pruning.next fun keeps => known keeps other (by simp)
      exact ⟨after, pruned, left, fun keeps third later => known keeps third (by simp [later])⟩
  obtain ⟨middle, looped, pruning, -⟩ := loop
  obtain ⟨after, terminated, kept⟩ := pruning.inv.terminateState pruning.exiting
  refine ⟨after, ?_, kept⟩
  simp [Executor.terminateStateOnExit, slicingAndPruneStates, unpruned, found, looped, terminated]

/-- A state that exits and prunes a new state fails, if a searcher keeps states. -/
theorem Inv.terminateStateOnExit_error {rmBrs rmCalls pruned : Finset Nat}
    (found : executor.prunedStates state rmBrs rmCalls = .ok pruned) (keeps : executor.Keeps)
    (meets : ¬ Disjoint pruned executor.addedStates)
    : ∃ fault, executor.terminateStateOnExit state rmBrs rmCalls = .error fault := by
  have unpruned : state ∉ executor.isPruned :=
    fun pruned => inv.not_live_of_pruned pruned member
  obtain ⟨again, found', others⟩ := inv.prunedStates member rmBrs rmCalls
  cases found.symm.trans found'
  obtain ⟨bad, listed, waiting⟩ := not_disjoint_iff.mp meets
  have loop : ∃ fault, (ascending pruned).foldlM Executor.prune executor = .error fault := by
    refine foldlM_error (executor.Pruning state) (mem_ascending.mpr listed)
      (inv.pruning member others) ?_
    intro other rest middle pruning
    by_cases new : other ∈ executor.addedStates
    · rw [← pruning.added other (by simp)] at new
      exact .inl (pruning.inv.prune_error (pruning.keeps_iff.mpr keeps) new)
    · refine .inr ⟨?_, pruning.next fun _ => new⟩
      rintro rfl
      exact new waiting
  obtain ⟨fault, failed⟩ := loop
  refine ⟨fault, ?_⟩
  simp [Executor.terminateStateOnExit, slicingAndPruneStates, unpruned, found, failed]

end

-- The end of an iteration

/-- The states still to be deleted after some of them. The searcher is already without all
of them.
-/
structure Deleting (executor : Executor) (searcher : List Searcher) (final : Finset Nat)
    (rest : List Nat) (middle : Executor)
    : Prop where
  nodup : rest.Nodup
  removed : ∀ es ∈ rest, es ∉ final
  states : middle.states = final ∪ rest.toFinset
  planted : middle.trees.Planted middle.states
  heap : middle.allocated = middle.states ∪ executor.isPruned
  rooted : executor.isPruned ≠ ∅ → middle.trees.brTree.root ≠ none
  fixed : middle.searcher = searcher ∧ middle.addedStates = ∅
    ∧ middle.isPruned = executor.isPruned

theorem Deleting.next {searcher : List Searcher} {final : Finset Nat} {es : Nat}
    (deleting : executor.Deleting searcher final (es :: rest) middle)
    (unpruned : es ∉ executor.isPruned)
    : ∃ after, middle.deleteState es = .ok after
        ∧ executor.Deleting searcher final rest after := by
  obtain ⟨nodup, removed, states, planted, heap, rooted, fixed⟩ := deleting
  obtain ⟨distinct, nodup⟩ := nodup_cons.mp nodup
  have held : es ∈ middle.states := by simp [states]
  obtain ⟨trees, taken, planted, kept⟩ := planted.remove held
  refine ⟨{ middle with
      states := middle.states.erase es
      allocated := middle.allocated.erase es
      trees }, ?_, nodup, ?_, ?_, planted, ?_, fun some => kept (rooted some), fixed⟩
  · simp [deleteState, held, taken]
  · exact fun other later => removed other (by simp [later])
  · simp only [states, toFinset_cons, union_insert]
    refine erase_insert ?_
    simp [removed es (by simp), distinct]
  · simp only [heap]
    rw [erase_union_distrib, erase_eq_of_notMem unpruned]

variable {current : Option Nat}

/-- A full update takes over the new states, deletes the removed ones and leaves nothing
pending.
-/
theorem Inv.updateStates (inv : executor.Inv)
    (active : ∀ state ∈ current, state ∈ executor.states ∧ state ∉ executor.isPruned)
    : ∃ after, executor.updateStates current = .ok after
        ∧ after.Inv
        ∧ after.addedStates = ∅ := by
  have proceeds : ¬ current.any (· ∈ executor.isPruned) = true := by
    cases current with
    | none => simp
    | some state => simpa using (active state rfl).2
  have fits : Searcher.Fits executor.states current executor.addedStates
      executor.removedStates := {
    current := fun state here => (active state here).1
    added := inv.apart
    removed := inv.removed.trans subset_union_left }
  obtain ⟨searcher, updated, -, has⟩ := updateSearchers_has inv.searcher fun _ => fits
  let final := (executor.states ∪ executor.addedStates) \ executor.removedStates
  -- The invariant of the deleting loop: what is left to delete is still there, unpruned.
  let Left (rest : List Nat) (middle : Executor) : Prop :=
    executor.Deleting searcher final rest middle
    ∧ ∀ es ∈ rest, es ∉ executor.isPruned
  have loop : ∃ middle, (ascending executor.removedStates).foldlM deleteState
        { executor with
          searcher
          states := executor.states ∪ executor.addedStates
          addedStates := ∅ } = .ok middle
      ∧ Left [] middle := by
    refine foldlM_ok Left ⟨⟨nodup_ascending _, ?_, ?_, inv.planted, inv.heap, inv.rooted,
      rfl, rfl, rfl⟩, ?_⟩ ?_
    · intro es listed
      simp [final, mem_ascending.mp listed]
    · ext state
      have within := @inv.removed state
      simp only [final, mem_union, mem_sdiff, mem_toFinset, mem_ascending] at within ⊢
      tauto
    · intro es listed pruned
      have held := inv.removed (mem_ascending.mp listed)
      exact inv.not_live_of_pruned pruned (mem_union_left _ held)
    · rintro es rest middle ⟨deleting, unpruned⟩
      obtain ⟨after, deleted, left⟩ := deleting.next (unpruned es (by simp))
      exact ⟨after, deleted, left, fun other later => unpruned other (by simp [later])⟩
  obtain ⟨middle, looped, deleting, -⟩ := loop
  obtain ⟨-, -, states, planted, heap, rooted, sameSearcher, noneAdded, samePruned⟩ := deleting
  have finished : middle.states = final := by simpa using states
  have live : middle.states ∪ middle.addedStates = middle.states := by
    rw [noneAdded, union_empty]
  refine ⟨{ middle with removedStates := ∅ }, ?_, ?_, noneAdded⟩
  · simp [Executor.updateStates, proceeds, updated, looped]
  refine ⟨⟨?_, by simp [noneAdded], by simp⟩, ?_, ?_, ?_, ?_⟩
  · simp only [sameSearcher, finished]
    exact has
  · rw [Executor.live, live]
    exact planted
  · rw [Executor.live, live]
    simp only [heap, samePruned]
  · rw [Executor.live, live, finished]
    simp only [samePruned]
    exact inv.pruned.mono_right sdiff_subset
  · simp only [samePruned]
    exact rooted

/-- With a pruned current state nothing is done at all. -/
theorem updateStates_pruned (pruned : ∃ state ∈ current, state ∈ executor.isPruned)
    : executor.updateStates current = .ok executor := by
  obtain ⟨state, rfl, pruned⟩ := pruned
  simp [updateStates, pruned]

/-- At the end of an iteration, which may be the last, no new state is left behind. -/
def Complete (executor : Executor) : Event → Prop
  | .updateStates _ => executor.addedStates = ∅
  | .fork .. | .branch .. | .terminateState .. | .terminateStateOnExit .. => True

/-- The outcome of a call: no assertion failed, and the containers agree. -/
def Good (outcome : Except Fault Executor) (event : Event) : Prop :=
  ∃ after, outcome = .ok after ∧ after.Consistent ∧ after.Complete event

/-- A careful call keeps the invariant, call by call. -/
theorem Inv.careful (inv : executor.Inv) {event : Event} (legal : executor.Legal event)
    (careful : executor.Careful event)
    : ∃ after, executor.handle event = .ok after ∧ after.Inv ∧ after.Complete event := by
  cases event with
  | fork current dynInstrIdx other swap =>
    have member := inv.live_of_unpruned legal.1 careful
    cases swap with
    | false =>
      obtain ⟨after, added, kept, -⟩ :=
        inv.addState member legal.2 dynInstrIdx (.inl ⟨rfl, rfl⟩)
      exact ⟨after, added, kept, trivial⟩
    | true =>
      obtain ⟨after, added, kept, -⟩ :=
        inv.addState member legal.2 dynInstrIdx (.inr ⟨rfl, rfl⟩)
      exact ⟨after, added, kept, trivial⟩
  | branch state branchings =>
    obtain ⟨allocated, nodup, fresh⟩ := legal
    by_cases pruned : state ∈ executor.isPruned
    · obtain rfl := careful pruned
      exact ⟨executor, rfl, inv, trivial⟩
    have member := inv.live_of_unpruned allocated pruned
    obtain ⟨after, looped, kept⟩ :=
      inv.branchLoop state (cons_ne_nil state []) (by simpa using member) nodup fresh
    exact ⟨after, looped, kept, trivial⟩
  | terminateState state =>
    obtain ⟨after, terminated, kept⟩ :=
      inv.terminateState (inv.live_of_unpruned legal careful)
    exact ⟨after, terminated, kept, trivial⟩
  | terminateStateOnExit state rmBrs rmCalls =>
    obtain ⟨unpruned, known⟩ := careful
    obtain ⟨after, terminated, kept⟩ :=
      inv.terminateStateOnExit (inv.live_of_unpruned legal unpruned) known
    exact ⟨after, terminated, kept, trivial⟩
  | updateStates current =>
    by_cases pruned : ∃ state ∈ current, state ∈ executor.isPruned
    · exact ⟨executor, updateStates_pruned pruned, inv, careful pruned⟩
    · apply inv.updateStates
      intro state here
      have unpruned : state ∉ executor.isPruned := fun there => pruned ⟨state, here, there⟩
      exact ⟨(legal state here).resolve_right unpruned, unpruned⟩

/-- A call that is not careful fails or leaves the containers apart, call by call. -/
theorem Inv.careless (inv : executor.Inv) {event : Event} (legal : executor.Legal event)
    (careless : ¬ executor.Careful event)
    : ¬ Good (executor.handle event) event := by
  rintro ⟨after, returned, consistent, complete⟩
  cases event with
  | fork current dynInstrIdx other swap =>
    have pruned : current ∈ executor.isPruned := not_not.mp careless
    simp only [handle, fork] at returned
    split at returned
    · obtain ⟨fault, failed⟩ := inv.addState_error pruned dynInstrIdx other other current
      cases failed.symm.trans returned
    · obtain ⟨fault, failed⟩ := inv.addState_error pruned dynInstrIdx other current other
      cases failed.symm.trans returned
  | branch state branchings =>
    simp only [Careful, Classical.not_imp] at careless
    obtain ⟨pruned, some⟩ := careless
    obtain ⟨first, rest, rfl⟩ := exists_cons_of_ne_nil some
    obtain ⟨fault, failed⟩ :=
      inv.addState_error pruned first.dynInstrIdx first.other state first.other
    simp [handle, Executor.branch, Executor.branchLoop, Nat.mod_one, failed] at returned
  | terminateState state =>
    exact inv.terminateState_pruned (not_not.mp careless) returned consistent
  | terminateStateOnExit state rmBrs rmCalls =>
    by_cases pruned : state ∈ executor.isPruned
    · have terminated : executor.terminateState state = .ok after := by
        simpa [handle, Executor.terminateStateOnExit, slicingAndPruneStates, pruned] using returned
      exact inv.terminateState_pruned pruned terminated consistent
    · simp [Careful, pruned, not_forall] at careless
      obtain ⟨found, returnedSet, keeps, meets⟩ := careless
      obtain ⟨fault, failed⟩ :=
        inv.terminateStateOnExit_error (inv.live_of_unpruned legal pruned) returnedSet keeps meets
      cases failed.symm.trans returned
  | updateStates current =>
    simp only [Careful, Classical.not_imp] at careless
    obtain ⟨pruned, waiting⟩ := careless
    cases (updateStates_pruned pruned).symm.trans returned
    exact waiting complete

-- Runs

/-- A legal call after calls that all returned. -/
def Calls (before : Except Fault Executor) (event : Event) (outcome : Except Fault Executor)
    : Prop :=
  ∃ executor, before = .ok executor ∧ executor.Legal event ∧ outcome = executor.handle event

end Executor

end Woodpecker
