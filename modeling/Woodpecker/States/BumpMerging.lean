import Woodpecker.Library.Tables
import Woodpecker.States.BaseSearcher

/-! The searcher that holds one state at each merge point, over any searcher that holds
states.

A state is taken from the base searcher when it reaches a merge point. A state that was
merged is put back, as the executor removes it with the next update only; until then the base
searcher can select it again.
-/

namespace Woodpecker

open Library Searcher Finset

/-- The program counters of the thread that was last run. -/
structure Cursor where
  pc : Nat
  prevPC : Nat

/-- A state that is merged, resumed or returned, and the states terminated by then. -/
structure StateUse where
  es : Nat
  terminated : Finset Nat

/-- The states of the executor. A terminated state is live until the next update. -/
structure ExecutorStates where
  cursors : Nat → Cursor
  live : Finset Nat
  terminated : Finset Nat
  uses : List StateUse
  selected : Option Nat

open ExecutorStates

namespace ExecutorStates

/-- The call to `klee_merge` that the state is about to make. -/
def getMergePoint (isMerge : Nat → Bool) (states : ExecutorStates) (es : Nat) : Option Nat :=
  if isMerge (states.cursors es).pc then some (states.cursors es).pc else none

def use (states : ExecutorStates) (es : Nat) : ExecutorStates :=
  { states with uses := states.uses ++ [⟨es, states.terminated⟩] }

/-- The state steps past the merge point. -/
def skip (states : ExecutorStates) (es : Nat) : ExecutorStates :=
  { states with
    cursors := Function.update states.cursors es
      { states.cursors es with pc := (states.cursors es).pc + 1 } }

/-- `Executor::terminateState` for a state that the searcher knows, which steps back. -/
def terminateState (states : ExecutorStates) (es : Nat) : ExecutorStates :=
  { states with
    cursors := Function.update states.cursors es
      { states.cursors es with pc := (states.cursors es).prevPC }
    terminated := insert es states.terminated }

/-- What the executor removes with the next update. -/
def pending (states : ExecutorStates) : Finset Nat :=
  states.live ∩ states.terminated

def update (states : ExecutorStates) (addedStates removedStates : Finset Nat)
    (cursors : Nat → Cursor)
    : ExecutorStates where
  cursors
  live := (states.live ∪ addedStates) \ removedStates
  terminated := states.terminated ∪ removedStates
  uses := states.uses
  selected := none

def start (live : Finset Nat) (cursors : Nat → Cursor) : ExecutorStates :=
  { cursors, live, terminated := ∅, uses := [], selected := none }

/-- The executor removes live states, all that were terminated among them, and adds new
ones. It passes the state that was selected last or none.
-/
structure Allows (states : ExecutorStates) (current : Option Nat)
    (addedStates removedStates : Finset Nat) : Prop where
  current : ∀ es ∈ current, states.selected = some es
  live : removedStates ⊆ states.live
  pending : states.pending ⊆ removedStates
  fresh : Disjoint addedStates (states.live ∪ states.terminated)

/-- No terminated state was merged, resumed or returned. -/
def Clean (states : ExecutorStates) : Prop :=
  ∀ use ∈ states.uses, use.es ∉ use.terminated

variable {states : ExecutorStates} {es : Nat}

theorem Clean.use (clean : states.Clean) (running : es ∉ states.terminated)
    : (states.use es).Clean :=
  List.forall_mem_append.mpr ⟨clean, List.forall_mem_singleton.mpr running⟩

theorem not_clean {terminated : Finset Nat} (used : ⟨es, terminated⟩ ∈ states.uses)
    (isTerminated : es ∈ terminated)
    : ¬ states.Clean :=
  fun clean => clean _ used isTerminated

end ExecutorStates

/-- A searcher with a base searcher and states held at merge points. -/
structure Merger (B M : Type) where
  baseSearcher : B
  statesAtMerge : M
  states : ExecutorStates

inductive Merger.Call where
  | selectState (es : Nat) (merges : Nat → Nat → Bool)
  | update (current : Option Nat) (addedStates removedStates : Finset Nat)
    (cursors : Nat → Cursor)

abbrev BumpMergingSearcher (B : Type) := Merger B (Table Nat Nat)

namespace BumpMergingSearcher

variable {B : Type} (isMerge : Nat → Bool) (searcher : BaseSearcher B)

/-- Out of base states, one is popped. -/
def popState (bump : BumpMergingSearcher B) : Except Fault (BumpMergingSearcher B) := do
  if searcher.empty bump.baseSearcher then
    match bump.statesAtMerge with
    | [] => .error .badPointer
    | (_, es) :: rest =>
      let baseSearcher ← searcher.addState bump.baseSearcher es
      .ok ⟨baseSearcher, rest, (bump.states.use es).skip es⟩
  else .ok bump

/-- What is done with the state that the base searcher selected: it is returned if it is at
no merge point, and otherwise the loop goes on.
-/
def visit (bump : BumpMergingSearcher B) (es : Nat) (merges : Nat → Nat → Bool)
    : Except Fault (BumpMergingSearcher B) := do
  match bump.states.getMergePoint isMerge es with
  | none => .ok { bump with states := { bump.states.use es with selected := some es } }
  | some mp =>
    let states := { bump.states with selected := none }
    let baseSearcher ← searcher.removeState bump.baseSearcher es none
    match bump.statesAtMerge.find? mp with
    | none => .ok ⟨baseSearcher, bump.statesAtMerge.insertNew mp es, states⟩
    | some mergeWith =>
      if merges mergeWith es then
        let baseSearcher ← searcher.addState baseSearcher es
        .ok ⟨baseSearcher, bump.statesAtMerge,
          ((states.use mergeWith).use es).terminateState es⟩
      else
        -- the bump
        let baseSearcher ← searcher.addState baseSearcher mergeWith
        .ok ⟨baseSearcher, bump.statesAtMerge.assign mp es,
          (states.use mergeWith).skip mergeWith⟩

def update (bump : BumpMergingSearcher B) (current : Option Nat)
    (addedStates removedStates : Finset Nat) (cursors : Nat → Cursor)
    : Except Fault (BumpMergingSearcher B) := do
  let baseSearcher ← searcher.update bump.baseSearcher current addedStates removedStates
  .ok ⟨baseSearcher, bump.statesAtMerge, bump.states.update addedStates removedStates cursors⟩

/-- The states held at merge points. -/
def held (statesAtMerge : Table Nat Nat) : Finset Nat :=
  (statesAtMerge.map Prod.snd).toFinset

/-- Steps of the searcher: one turn of the loop in `selectState`, or an update. While there
are live states the executor asks for one.
-/
inductive Step : Except Fault (BumpMergingSearcher B) → Merger.Call
    → Except Fault (BumpMergingSearcher B) → Prop
  | selectState (before middle : BumpMergingSearcher B) (es : Nat)
    (merges : Nat → Nat → Bool) (baseSearcher : B) (nonempty : before.states.live.Nonempty)
    (popped : before.popState searcher = .ok middle)
    (selects : searcher.selects middle.baseSearcher es baseSearcher)
    : Step (.ok before) (.selectState es merges)
        (visit isMerge searcher ⟨baseSearcher, middle.statesAtMerge, middle.states⟩ es merges)
  | popFails (before : BumpMergingSearcher B) (es : Nat) (merges : Nat → Nat → Bool)
    (fault : Fault) (nonempty : before.states.live.Nonempty)
    (failed : before.popState searcher = .error fault)
    : Step (.ok before) (.selectState es merges) (.error fault)
  | update (before : BumpMergingSearcher B) (current : Option Nat)
    (addedStates removedStates : Finset Nat) (cursors : Nat → Cursor)
    (allowed : before.states.Allows current addedStates removedStates)
    : Step (.ok before) (.update current addedStates removedStates cursors)
        (before.update searcher current addedStates removedStates cursors)

/-- Every live state is in the base searcher or held, no terminated state was used, and the
update that removes the terminated states can be made.
-/
structure Settled (bump : BumpMergingSearcher B) : Prop where
  located : ∃ set, searcher.holds bump.baseSearcher set
    ∧ bump.states.live ⊆ set ∪ held bump.statesAtMerge
  clean : bump.states.Clean
  removable : ∃ after,
    bump.update searcher none ∅ bump.states.pending bump.states.cursors = .ok after

def Sound (transition : Transition (Except Fault (BumpMergingSearcher B)) Merger.Call)
    : Prop :=
  ∃ after, transition.after = .ok after ∧ Settled searcher after

/-- The base searcher selects no state that was terminated, and no update removes a state
that is held.
-/
def CarefulCall (before : BumpMergingSearcher B) : Merger.Call → Prop
  | .selectState es _ => es ∉ before.states.terminated
  | .update _ _ removedStates _ => Disjoint removedStates (held before.statesAtMerge)

def Careful (transition : Transition (Except Fault (BumpMergingSearcher B)) Merger.Call)
    : Prop :=
  ∀ before, transition.before = .ok before → CarefulCall before transition.label

end BumpMergingSearcher

-- Where the states are

/-- The base searcher has the live states that are not held. -/
structure Placed {B : Type} (searcher : BaseSearcher B) (base : B) (held : Finset Nat)
    (states : ExecutorStates) : Prop where
  within : held ⊆ states.live
  holds : searcher.holds base (states.live \ held)
  clean : states.Clean
  selected : ∀ es ∈ states.selected, es ∈ states.live \ held

namespace Placed

variable {B : Type} {searcher : BaseSearcher B} {base : B} {held : Finset Nat}
  {states : ExecutorStates} {es : Nat} {current : Option Nat}
  {addedStates removedStates : Finset Nat}

section

variable (placed : Placed searcher base held states)
include placed

theorem located
    : ∃ set, searcher.holds base set ∧ states.live ⊆ set ∪ held := by
  refine ⟨_, placed.holds, fun es live => ?_⟩
  by_cases isHeld : es ∈ held <;> simp [live, isHeld]

/-- The base searcher can carry out an update that removes no held state. -/
theorem fits (allowed : states.Allows current addedStates removedStates) {alt : Finset Nat}
    (within : alt ⊆ removedStates) (apart : Disjoint alt held)
    : Fits (states.live \ held) current addedStates alt := by
  refine ⟨fun es isCurrent => placed.selected es (allowed.current es isCurrent), ?_, ?_⟩
  · exact disjoint_of_subset_right (sdiff_subset.trans subset_union_left) allowed.fresh
  · intro es removed
    have notHeld := disjoint_left.mp apart removed
    simp [allowed.live (within removed), notHeld]

theorem congr {after : ExecutorStates} (live : after.live = states.live)
    (selected : after.selected = states.selected) (clean : after.Clean)
    : Placed searcher base held after :=
  ⟨live ▸ placed.within, live ▸ placed.holds, clean,
    by simpa [live, selected] using placed.selected⟩

/-- A state is taken from the base searcher and held. -/
theorem park (here : es ∈ states.live \ held) {current : Option Nat}
    (isHeld : ∀ state ∈ current, state ∈ states.live \ held)
    : ∃ after, searcher.removeState base es current = .ok after
        ∧ Placed searcher after (insert es held) { states with selected := none } := by
  obtain ⟨after, removed, holds⟩ := BaseSearcher.removeState_holds placed.holds here isHeld
  refine ⟨after, removed, ?_, ?_, placed.clean, by simp⟩
  · exact insert_subset (mem_sdiff.mp here).1 placed.within
  · rwa [sdiff_insert]

end

section

variable (placed : Placed searcher base (insert es held) states) (new : es ∉ held)
include placed new

/-- A held state is given back to the base searcher. -/
theorem unpark
    : ∃ after, searcher.addState base es = .ok after ∧ Placed searcher after held states := by
  have live : es ∈ states.live := placed.within (mem_insert_self es held)
  obtain ⟨after, added, holds⟩ := BaseSearcher.addState_holds placed.holds
    (by simp : es ∉ states.live \ insert es held)
  have back : insert es (states.live \ insert es held) = states.live \ held := by
    ext other
    by_cases same : other = es
    · simp [same, live, new]
    · simp [same]
  refine ⟨after, added, (subset_insert es held).trans placed.within, ?_, placed.clean, ?_⟩
  · rwa [back] at holds
  · intro other isSelected
    have apart := placed.selected other isSelected
    rw [← back]
    exact mem_insert_of_mem apart

/-- A held state is resumed. -/
theorem resume (running : es ∉ states.terminated)
    : ∃ after, searcher.addState base es = .ok after
        ∧ Placed searcher after held ((states.use es).skip es) := by
  obtain ⟨after, added, placed'⟩ := placed.unpark new
  exact ⟨after, added, placed'.congr rfl rfl (placed.clean.use running)⟩

end

/-- Held states that are removed are let go. -/
theorem update (placed : Placed searcher base held states)
    (allowed : states.Allows current addedStates removedStates) (cursors : Nat → Cursor)
    : ∃ after, searcher.update base current addedStates (removedStates \ held) = .ok after
        ∧ Placed searcher after (held \ removedStates)
          (states.update addedStates removedStates cursors) := by
  obtain ⟨after, updated, holds⟩ := searcher.update_holds placed.holds
    (placed.fits allowed sdiff_subset sdiff_disjoint)
  have left : (states.live \ held ∪ addedStates) \ (removedStates \ held)
      = ((states.live ∪ addedStates) \ removedStates) \ (held \ removedStates) := by
    ext es
    have new : es ∈ addedStates → es ∉ held := fun added isHeld =>
      disjoint_left.mp allowed.fresh added (by simp [placed.within isHeld])
    simp only [mem_sdiff, mem_union]
    tauto
  refine ⟨after, updated, ?_, ?_, placed.clean, by simp [ExecutorStates.update]⟩
  · exact sdiff_subset_sdiff (placed.within.trans subset_union_left) (Subset.refl _)
  · rwa [left] at holds

/-- The executor may remove what was terminated at any time. -/
theorem allows_pending (states : ExecutorStates) : states.Allows none ∅ states.pending :=
  ⟨by simp, inter_subset_left, Subset.refl _, disjoint_empty_left _⟩

end Placed

namespace BumpMergingSearcher

variable {B : Type} {isMerge : Nat → Bool} {searcher : BaseSearcher B}
  {bump : BumpMergingSearcher B} {es : Nat}

/-- Each merge point holds one state, each state once. -/
structure OneEach (statesAtMerge : Table Nat Nat) : Prop where
  ordered : statesAtMerge.Ordered
  nodup : (statesAtMerge.map Prod.snd).Nodup

namespace OneEach

variable {statesAtMerge : Table Nat Nat} {mp mergeWith : Nat} {entry : Nat × Nat}

theorem rest (each : OneEach (entry :: statesAtMerge))
    : OneEach statesAtMerge ∧ held (entry :: statesAtMerge) = insert entry.2 (held statesAtMerge)
      ∧ entry.2 ∉ held statesAtMerge := by
  obtain ⟨new, nodup⟩ := List.nodup_cons.mp each.nodup
  exact ⟨⟨(List.pairwise_cons.mp each.ordered).2, nodup⟩, by simp [held], by simpa [held] using new⟩

/-- The same entries in another order. -/
theorem perm {other : Table Nat Nat} (permuted : statesAtMerge.Perm (entry :: other))
    : held statesAtMerge = insert entry.2 (held other)
      ∧ ((statesAtMerge.map Prod.snd).Nodup
        ↔ entry.2 ∉ held other ∧ (other.map Prod.snd).Nodup) := by
  have values := permuted.map Prod.snd
  refine ⟨?_, ?_⟩
  · simpa [held] using List.toFinset_eq_of_perm _ _ values
  · rw [values.nodup_iff, List.map_cons, List.nodup_cons]
    simp [held]

theorem erase (each : OneEach statesAtMerge) (found : statesAtMerge.find? mp = some mergeWith)
    : OneEach (statesAtMerge.erase mp)
      ∧ held statesAtMerge = insert mergeWith (held (statesAtMerge.erase mp))
      ∧ mergeWith ∉ held (statesAtMerge.erase mp) := by
  obtain ⟨split, nodup⟩ := perm (each.ordered.perm_erase found)
  have apart := nodup.mp each.nodup
  exact ⟨⟨each.ordered.erase mp, apart.2⟩, split, apart.1⟩

theorem assign (each : OneEach statesAtMerge)
    (others : ((statesAtMerge.erase mp).map Prod.snd).Nodup)
    (new : es ∉ held (statesAtMerge.erase mp))
    : OneEach (statesAtMerge.assign mp es)
      ∧ held (statesAtMerge.assign mp es) = insert es (held (statesAtMerge.erase mp)) := by
  obtain ⟨split, nodup⟩ := perm (each.ordered.assign_perm mp es)
  exact ⟨⟨each.ordered.assign mp es, nodup.mpr ⟨new, others⟩⟩, split⟩

theorem insertNew (each : OneEach statesAtMerge) (absent : statesAtMerge.find? mp = none)
    (new : es ∉ held statesAtMerge)
    : OneEach (statesAtMerge.insertNew mp es)
      ∧ held (statesAtMerge.insertNew mp es) = insert es (held statesAtMerge) := by
  have same : statesAtMerge.insertNew mp es = statesAtMerge.assign mp es := by
    simp [Table.insertNew_eq each.ordered, absent]
  rw [same]
  obtain ⟨split, nodup⟩ := perm (Table.assign_perm absent es)
  exact ⟨⟨each.ordered.assign mp es, nodup.mpr ⟨new, each.nodup⟩⟩, split⟩

end OneEach

/-- The states held are known to be running. -/
structure Inv (searcher : BaseSearcher B) (bump : BumpMergingSearcher B) : Prop
    extends Placed searcher bump.baseSearcher (held bump.statesAtMerge) bump.states where
  each : OneEach bump.statesAtMerge
  running : Disjoint (held bump.statesAtMerge) bump.states.terminated

theorem Inv.settled (inv : Inv searcher bump) : Settled searcher bump := by
  refine ⟨inv.located, inv.clean, ?_⟩
  have apart : Disjoint bump.states.pending (held bump.statesAtMerge) :=
    (inv.running.mono_right inter_subset_right).symm
  obtain ⟨base, updated, -⟩ := searcher.update_holds inv.holds
    (inv.fits (Placed.allows_pending _) (Subset.refl _) apart)
  exact ⟨_, by rw [update, updated]; rfl⟩

/-- Popping finds a state, and the state is running. -/
theorem Inv.popState (inv : Inv searcher bump) (nonempty : bump.states.live.Nonempty)
    : ∃ middle, bump.popState searcher = .ok middle ∧ Inv searcher middle
        ∧ middle.states.terminated = bump.states.terminated := by
  obtain ⟨base, statesAtMerge, states⟩ := bump
  unfold popState
  split
  next isEmpty =>
    have isHeld : states.live ⊆ held statesAtMerge :=
      sdiff_eq_empty_iff_subset.mp ((searcher.empty_iff inv.holds).mp isEmpty)
    match statesAtMerge with
    | [] =>
      obtain ⟨es, live⟩ := nonempty
      exact absurd (isHeld live) (by simp [held])
    | (mp, es) :: rest =>
      obtain ⟨each, split, notHeld⟩ := inv.each.rest
      have running : es ∉ states.terminated :=
        disjoint_left.mp inv.running (by simp [held])
      have placed : Placed searcher base (insert es (held rest)) states := split ▸ inv.toPlaced
      obtain ⟨after, added, placed'⟩ := placed.resume notHeld running
      refine ⟨⟨after, rest, (states.use es).skip es⟩, by simp only [added, ok_bind],
        ⟨placed', each, ?_⟩, rfl⟩
      exact inv.running.mono_left (split ▸ subset_insert _ _)
  · exact ⟨_, rfl, inv, rfl⟩

/-- A state that is running is returned, held or merged. -/
theorem Inv.visit (inv : Inv searcher bump) (here : es ∈ bump.states.live \ held bump.statesAtMerge)
    (running : es ∉ bump.states.terminated) (merges : Nat → Nat → Bool)
    : ∃ after, bump.visit isMerge searcher es merges = .ok after ∧ Inv searcher after := by
  have notHeld := (mem_sdiff.mp here).2
  unfold BumpMergingSearcher.visit
  split
  · refine ⟨_, rfl, ⟨inv.within, inv.holds, inv.clean.use running, ?_⟩, inv.each, inv.running⟩
    rintro _ ⟨rfl⟩
    exact here
  next mp _ =>
    obtain ⟨base, removed, placed⟩ := inv.park here (by simp : ∀ state ∈ (none : Option Nat), _)
    have apart : Disjoint (insert es (held bump.statesAtMerge)) bump.states.terminated :=
      disjoint_insert_left.mpr ⟨running, inv.running⟩
    simp only [removed, ok_bind]
    split
    next absent =>
      obtain ⟨each, split⟩ := inv.each.insertNew absent notHeld
      exact ⟨_, rfl, split ▸ placed, each, split ▸ apart⟩
    next mergeWith found =>
      obtain ⟨others, split, new⟩ := inv.each.erase found
      have partner : mergeWith ∉ bump.states.terminated :=
        disjoint_left.mp inv.running (by simp [split])
      by_cases merged : merges mergeWith es = true
      · obtain ⟨after, added, back⟩ := placed.unpark notHeld
        simp only [merged, if_true, added, ok_bind]
        refine ⟨_, rfl, back.congr rfl rfl ((inv.clean.use partner).use running), inv.each, ?_⟩
        exact disjoint_insert_right.mpr ⟨notHeld, inv.running⟩
      · rw [split, insert_comm] at placed
        have differ : mergeWith ≠ es := fun same => notHeld (by simp [split, same])
        have fresh : es ∉ held (bump.statesAtMerge.erase mp) := fun member =>
          notHeld (by simp [split, member])
        obtain ⟨after, added, back⟩ := placed.resume
          (by simp [differ, new] : mergeWith ∉ insert es (held (bump.statesAtMerge.erase mp)))
          partner
        simp only [merged, Bool.false_eq_true, if_false, added, ok_bind]
        obtain ⟨each, bumped⟩ := inv.each.assign others.nodup fresh
        refine ⟨_, rfl, bumped ▸ back, each, bumped ▸ ?_⟩
        exact apart.mono_left (insert_subset_insert es (split ▸ subset_insert _ _))

/-- A terminated state must be in the base searcher. -/
theorem not_settled {set : Finset Nat} (holds : searcher.holds bump.baseSearcher set)
    (pending : es ∈ bump.states.pending) (absent : es ∉ set)
    : ¬ Settled searcher bump := by
  rintro ⟨-, -, after, updated⟩
  obtain ⟨fault, failed⟩ := searcher.update_error holds (by simp : ∀ es ∈ none, es ∈ set)
    (disjoint_empty_left _) pending (by simpa using absent)
  simp [update, failed] at updated

/-- A terminated state that is selected is returned, merged or lost to the next update. -/
theorem Inv.visit_terminated (inv : Inv searcher bump)
    (here : es ∈ bump.states.live \ held bump.statesAtMerge)
    (terminated : es ∈ bump.states.terminated) (merges : Nat → Nat → Bool)
    {after : BumpMergingSearcher B} (visited : bump.visit isMerge searcher es merges = .ok after)
    : ¬ Settled searcher after := by
  obtain ⟨live, notHeld⟩ := mem_sdiff.mp here
  have pending : es ∈ bump.states.pending := mem_inter.mpr ⟨live, terminated⟩
  unfold BumpMergingSearcher.visit at visited
  split at visited
  · cases visited
    have used : ⟨es, bump.states.terminated⟩ ∈ (bump.states.use es).uses := by
      simp [use]
    exact fun settled => not_clean used terminated settled.clean
  next mp _ =>
    obtain ⟨base, removed, holds⟩ := BaseSearcher.removeState_holds inv.holds here
      (by simp : ∀ state ∈ (none : Option Nat), _)
    simp only [removed, ok_bind] at visited
    split at visited
    · cases visited
      exact not_settled holds pending (notMem_erase _ _)
    next mergeWith found =>
      obtain ⟨-, split, -⟩ := inv.each.erase found
      split at visited
      · obtain ⟨base', -, returned⟩ := bind_eq_ok.mp visited
        cases returned
        have used : ⟨es, bump.states.terminated⟩ ∈ ((bump.states.use mergeWith).use es).uses := by
          simp [use]
        exact fun settled => not_clean used terminated settled.clean
      have isHeld : mergeWith ∈ held bump.statesAtMerge := by simp [split]
      have differ : es ≠ mergeWith := fun same => notHeld (same ▸ isHeld)
      obtain ⟨base', added, holds'⟩ := BaseSearcher.addState_holds holds (by simp [isHeld] :
          mergeWith ∉ (bump.states.live \ held bump.statesAtMerge).erase es)
      simp only [added, ok_bind] at visited
      cases visited
      exact not_settled holds' pending (by simp [differ])

variable {current : Option Nat} {addedStates removedStates : Finset Nat}

/-- An update that removes no held state. -/
theorem Inv.update (inv : Inv searcher bump)
    (allowed : bump.states.Allows current addedStates removedStates)
    (careful : Disjoint removedStates (held bump.statesAtMerge)) (cursors : Nat → Cursor)
    : ∃ after, bump.update searcher current addedStates removedStates cursors = .ok after
        ∧ Inv searcher after := by
  obtain ⟨base, updated, placed⟩ := inv.toPlaced.update allowed cursors
  rw [sdiff_eq_self_of_disjoint careful] at updated
  rw [sdiff_eq_self_of_disjoint careful.symm] at placed
  refine ⟨⟨base, bump.statesAtMerge, bump.states.update addedStates removedStates cursors⟩,
    by simp only [BumpMergingSearcher.update, updated, ok_bind], placed, inv.each, ?_⟩
  exact disjoint_union_right.mpr ⟨inv.running, careful.symm⟩

/-- An update that removes a held state fails. -/
theorem Inv.update_error (inv : Inv searcher bump)
    (allowed : bump.states.Allows current addedStates removedStates)
    (careless : ¬ Disjoint removedStates (held bump.statesAtMerge)) (cursors : Nat → Cursor)
    : ∃ fault, bump.update searcher current addedStates removedStates cursors = .error fault := by
  obtain ⟨es, removed, isHeld⟩ := not_disjoint_iff.mp careless
  have live := inv.within isHeld
  have old : es ∉ addedStates := fun added =>
    disjoint_left.mp allowed.fresh added (by simp [live])
  have fits := inv.fits allowed (empty_subset _) (disjoint_empty_left _)
  obtain ⟨fault, failed⟩ := searcher.update_error inv.holds fits.current fits.added removed
    (by simp [isHeld, old])
  exact ⟨fault, by simp [BumpMergingSearcher.update, failed]⟩

/-- One step: all is well afterwards exactly if the step is careful. -/
theorem Step.sound_iff {before : BumpMergingSearcher B} {call : Merger.Call}
    {after : Except Fault (BumpMergingSearcher B)}
    (step : Step isMerge searcher (.ok before) call after) (inv : Inv searcher before)
    : (Sound searcher ⟨.ok before, call, after⟩ ↔ CarefulCall before call)
      ∧ (CarefulCall before call → ∃ bump, after = .ok bump ∧ Inv searcher bump) := by
  refine good_iff_careful (fun ⟨bump, isOk, inv⟩ => ⟨bump, isOk, inv.settled⟩) ?_
  cases step with
  | selectState _ middle es merges base nonempty popped selects =>
    obtain ⟨state, popped', inv', same⟩ := inv.popState nonempty
    obtain rfl : state = middle := Except.ok.inj (popped'.symm.trans popped)
    obtain ⟨here, holds⟩ := searcher.selects_holds inv'.holds selects
    have selected : Inv searcher ⟨base, state.statesAtMerge, state.states⟩ :=
      { inv' with holds }
    refine ⟨fun running => selected.visit here (fun member => running (same ▸ member)) merges, ?_⟩
    rintro ⟨after, visited, settled⟩ terminated
    exact selected.visit_terminated here (same.symm ▸ terminated) merges visited settled
  | popFails _ es merges fault nonempty failed =>
    obtain ⟨_, popped, -⟩ := inv.popState nonempty
    cases popped.symm.trans failed
  | update _ current addedStates removedStates cursors allowed =>
    refine ⟨fun careful => inv.update allowed careful cursors, ?_⟩
    rintro ⟨after, updated, -⟩
    by_contra careless
    obtain ⟨fault, failed⟩ := inv.update_error allowed careless cursors
    cases failed.symm.trans updated

/-- The searcher starts with all states in the base searcher. -/
def start (base : B) (live : Finset Nat) (cursors : Nat → Cursor) : BumpMergingSearcher B where
  baseSearcher := base
  statesAtMerge := []
  states := .start live cursors

variable {live : Finset Nat}

theorem Inv.start {base : B} (holds : searcher.holds base live) (cursors : Nat → Cursor)
    : Inv searcher (start base live cursors) := by
  unfold BumpMergingSearcher.start ExecutorStates.start
  refine ⟨⟨by simp [held], ?_, ?_, by simp⟩, ⟨.nil, .nil⟩, by simp⟩
  · simpa [held] using holds
  · simp [Clean]

end BumpMergingSearcher

end Woodpecker
