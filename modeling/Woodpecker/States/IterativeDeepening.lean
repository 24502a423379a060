import Mathlib.Data.Rat.Defs
import Woodpecker.States.BaseSearcher

/-! The searcher that pauses states whose steps take too long, over any searcher that holds
states.

A state that is removed while it is paused is looked up in the set of paused states but erased
through the iterator of the other set.
-/

namespace Woodpecker

open Library Searcher Finset

structure IterativeDeepeningTimeSearcher (B : Type) where
  baseSearcher : B
  time : ℚ
  pausedStates : Finset Nat
deriving DecidableEq

namespace IterativeDeepeningTimeSearcher

variable {B : Type} (searcher : BaseSearcher B)

/-- The body of the loop that takes paused states off the removed ones. It calls
`pausedStates.erase(it)` with an iterator of the set of removed states.
-/
def altState (pausedStates alt : Finset Nat) (es : Nat) : Except Fault (Finset Nat) :=
  if es ∈ pausedStates then .error .badPointer else .ok alt

def altStates (pausedStates removedStates : Finset Nat) : Except Fault (Finset Nat) :=
  (ascending removedStates).foldlM (altState pausedStates) removedStates

/-- The current state is paused if its step took too long. -/
def pause (deepening : IterativeDeepeningTimeSearcher B) (elapsed : ℚ) (current : Option Nat)
    (removedStates : Finset Nat)
    : Except Fault (IterativeDeepeningTimeSearcher B) := do
  match current with
  | none => .ok deepening
  | some es =>
    if es ∉ removedStates ∧ elapsed > deepening.time then
      let baseSearcher ← searcher.removeState deepening.baseSearcher es none
      .ok { deepening with baseSearcher, pausedStates := insert es deepening.pausedStates }
    else .ok deepening

/-- All paused states go back when no other states are left. -/
def resume (deepening : IterativeDeepeningTimeSearcher B)
    : Except Fault (IterativeDeepeningTimeSearcher B) := do
  if searcher.empty deepening.baseSearcher then
    let baseSearcher ← searcher.update deepening.baseSearcher none deepening.pausedStates ∅
    .ok { baseSearcher, time := deepening.time * 2, pausedStates := ∅ }
  else .ok deepening

def update (deepening : IterativeDeepeningTimeSearcher B) (elapsed : ℚ) (current : Option Nat)
    (addedStates removedStates : Finset Nat)
    : Except Fault (IterativeDeepeningTimeSearcher B) := do
  let alt ← altStates deepening.pausedStates removedStates
  let baseSearcher ← searcher.update deepening.baseSearcher current addedStates alt
  let deepening ← pause searcher { deepening with baseSearcher } elapsed current removedStates
  resume searcher deepening

end IterativeDeepeningTimeSearcher

namespace Deepening

variable {B : Type}

/-- The searcher with the live states and the state that was selected last. -/
structure Live (B : Type) where
  deepening : IterativeDeepeningTimeSearcher B
  live : Finset Nat
  selected : Option Nat
deriving DecidableEq

def Live.select (state : Live B) (baseSearcher : B) (es : Nat) : Live B where
  deepening :=
    { baseSearcher
      time := state.deepening.time
      pausedStates := state.deepening.pausedStates }
  live := state.live
  selected := some es

def Live.updated (state : Live B) (addedStates removedStates : Finset Nat)
    (deepening : IterativeDeepeningTimeSearcher B)
    : Live B where
  deepening
  live := (state.live ∪ addedStates) \ removedStates
  selected := none

inductive Call where
  | selectState (es : Nat)
  | update (elapsed : ℚ) (current : Option Nat) (addedStates removedStates : Finset Nat)

/-- `selectState` returns what the base searcher selects. An update is for the state that was
selected last or for none; its removed states are live and its added states are new.
-/
inductive Step (searcher : BaseSearcher B)
    : Except Fault (Live B) → Call → Except Fault (Live B) → Prop
  | selectState (before : Live B) (es : Nat) (baseSearcher : B)
    (selects : searcher.selects before.deepening.baseSearcher es baseSearcher)
    : Step searcher (.ok before) (.selectState es) (.ok (before.select baseSearcher es))
  | update (before : Live B) (elapsed : ℚ) (current : Option Nat)
    (addedStates removedStates : Finset Nat)
    (isSelected : ∀ es ∈ current, before.selected = some es)
    (live : removedStates ⊆ before.live) (fresh : Disjoint addedStates before.live)
    : Step searcher (.ok before) (.update elapsed current addedStates removedStates)
        ((before.deepening.update searcher elapsed current addedStates removedStates).map
          (before.updated addedStates removedStates))

/-- Each live state is in the base searcher or paused, and not both. -/
structure Apart (searcher : BaseSearcher B) (state : Live B) : Prop where
  paused : state.deepening.pausedStates ⊆ state.live
  holds : searcher.holds state.deepening.baseSearcher
    (state.live \ state.deepening.pausedStates)

/-- Only the current state is paused anew, and only if its step took too long. -/
def PausedLate (before after : Live B) : Call → Prop
  | .selectState _ => after.deepening.pausedStates = before.deepening.pausedStates
  | .update elapsed current _ _ => ∀ es ∈ after.deepening.pausedStates,
      es ∈ before.deepening.pausedStates ∨ current = some es ∧ elapsed > before.deepening.time

/-- A removed state is neither in the base searcher nor paused. -/
def Gone (searcher : BaseSearcher B) (after : Live B) : Call → Prop
  | .selectState _ => True
  | .update _ _ _ removedStates => ∀ es ∈ removedStates,
      es ∉ after.deepening.pausedStates
      ∧ ∀ set, searcher.holds after.deepening.baseSearcher set → es ∉ set

/-- The call returns, so that the base searcher was only asked to remove what it holds, and
all states are where they should be.
-/
def Sound (searcher : BaseSearcher B) (transition : Transition (Except Fault (Live B)) Call)
    : Prop :=
  ∃ before after, transition.before = .ok before ∧ transition.after = .ok after
    ∧ Apart searcher after ∧ PausedLate before after transition.label
    ∧ Gone searcher after transition.label

/-- No state is removed while it is paused. -/
def CarefulCall (before : Live B) : Call → Prop
  | .selectState _ => True
  | .update _ _ _ removedStates => Disjoint removedStates before.deepening.pausedStates

def Careful (transition : Transition (Except Fault (Live B)) Call) : Prop :=
  ∀ before, transition.before = .ok before → CarefulCall before transition.label

-- One call

variable {searcher : BaseSearcher B} {deepening : IterativeDeepeningTimeSearcher B}
  {pausedStates addedStates removedStates live : Finset Nat}

theorem altStates_ok (apart : Disjoint removedStates pausedStates)
    : IterativeDeepeningTimeSearcher.altStates pausedStates removedStates = .ok removedStates := by
  let Inv (rest : List Nat) (alt : Finset Nat) : Prop :=
    (∀ es ∈ rest, es ∈ removedStates) ∧ alt = removedStates
  have loop : ∃ alt, IterativeDeepeningTimeSearcher.altStates pausedStates removedStates = .ok alt
      ∧ Inv [] alt := by
    refine foldlM_ok Inv ⟨fun es => mem_ascending.mp, rfl⟩ ?_
    rintro es rest alt ⟨within, rfl⟩
    have running : es ∉ pausedStates := disjoint_left.mp apart (within es (by simp))
    exact ⟨_, if_neg running, fun other later => within other (by simp [later]), rfl⟩
  obtain ⟨alt, looped, -, rfl⟩ := loop
  exact looped

theorem altStates_error (shared : ¬ Disjoint removedStates pausedStates)
    : ∃ fault, IterativeDeepeningTimeSearcher.altStates pausedStates removedStates
        = .error fault := by
  obtain ⟨es, removed, paused⟩ := not_disjoint_iff.mp shared
  refine foldlM_error (fun _ _ => True) (mem_ascending.mpr removed) trivial ?_
  intro other rest alt _
  by_cases isPaused : other ∈ pausedStates
  · exact .inl ⟨.badPointer, if_pos isPaused⟩
  · refine .inr ⟨?_, alt, if_neg isPaused, trivial⟩
    rintro rfl
    exact isPaused paused

/-- What is kept between calls; the selected state is not paused. -/
structure Inv (searcher : BaseSearcher B) (state : Live B) : Prop extends Apart searcher state where
  selected : ∀ es ∈ state.selected, es ∈ state.live \ state.deepening.pausedStates

section

variable (paused : deepening.pausedStates ⊆ live)
  (holds : searcher.holds deepening.baseSearcher (live \ deepening.pausedStates))
include paused holds

/-- The current state is paused or not; it is in the base searcher before. -/
theorem pause_apart {current : Option Nat}
    (running : ∀ es ∈ current, es ∉ removedStates → es ∈ live \ deepening.pausedStates)
    (elapsed : ℚ)
    : ∃ after, deepening.pause searcher elapsed current removedStates = .ok after
        ∧ after.pausedStates ⊆ live
        ∧ searcher.holds after.baseSearcher (live \ after.pausedStates)
        ∧ ∀ es ∈ after.pausedStates,
            es ∈ deepening.pausedStates ∨ current = some es ∧ elapsed > deepening.time := by
  unfold IterativeDeepeningTimeSearcher.pause
  rcases current with _ | es
  · exact ⟨deepening, rfl, paused, holds, fun es => .inl⟩
  dsimp only
  split
  next late =>
    have here := running es rfl late.1
    obtain ⟨base, removed, fewer⟩ := BaseSearcher.removeState_holds holds here
      (by simp : ∀ state ∈ (none : Option Nat), state ∈ live \ deepening.pausedStates)
    refine ⟨_, by rw [removed]; rfl, ?_, ?_, ?_⟩
    · exact insert_subset (mem_sdiff.mp here).1 paused
    · rwa [sdiff_insert]
    · exact (forall_mem_insert _ _ _).mpr ⟨.inr ⟨rfl, late.2⟩, fun _ => .inl⟩
  · exact ⟨deepening, rfl, paused, holds, fun es => .inl⟩

theorem resume_apart : ∃ after, deepening.resume searcher = .ok after
        ∧ after.pausedStates ⊆ deepening.pausedStates
        ∧ searcher.holds after.baseSearcher (live \ after.pausedStates) := by
  unfold IterativeDeepeningTimeSearcher.resume
  split
  next isEmpty =>
    have empty := (searcher.empty_iff holds).mp isEmpty
    rw [empty] at holds
    obtain ⟨base, updated, more⟩ := searcher.update_holds holds
      (⟨by simp, by simp, by simp⟩ : Fits ∅ none deepening.pausedStates ∅)
    refine ⟨_, by rw [updated]; rfl, by simp, ?_⟩
    have all : live = deepening.pausedStates :=
      Subset.antisymm (sdiff_eq_empty_iff_subset.mp empty) paused
    simpa [all] using more
  · exact ⟨deepening, rfl, Subset.refl _, holds⟩

end

/-- A careful update leaves all states where they should be. -/
theorem update_apart {state : Live B} {elapsed : ℚ} {current : Option Nat}
    (inv : Inv searcher state) (isSelected : ∀ es ∈ current, state.selected = some es)
    (isLive : removedStates ⊆ state.live) (fresh : Disjoint addedStates state.live)
    (careful : Disjoint removedStates state.deepening.pausedStates)
    : ∃ after, state.deepening.update searcher elapsed current addedStates removedStates = .ok after
        ∧ Inv searcher (state.updated addedStates removedStates after)
        ∧ ∀ es ∈ after.pausedStates, es ∈ state.deepening.pausedStates
            ∨ current = some es ∧ elapsed > state.deepening.time := by
  have here (es : Nat) (isCurrent : es ∈ current)
      : es ∈ state.live \ state.deepening.pausedStates :=
    inv.selected es (isSelected es isCurrent)
  have fits : Fits (state.live \ state.deepening.pausedStates) current addedStates
      removedStates := by
    refine ⟨here, disjoint_of_subset_right sdiff_subset fresh, ?_⟩
    intro es removed
    have := disjoint_left.mp careful removed
    simp [isLive removed, this]
  obtain ⟨base, updated, holds⟩ := searcher.update_holds inv.holds fits
  have rest : (state.live \ state.deepening.pausedStates ∪ addedStates) \ removedStates
      = ((state.live ∪ addedStates) \ removedStates) \ state.deepening.pausedStates := by
    ext es
    have new : es ∈ addedStates → es ∉ state.deepening.pausedStates := fun added paused =>
      disjoint_left.mp fresh added (inv.paused paused)
    simp only [mem_sdiff, mem_union]
    tauto
  rw [rest] at holds
  have paused : state.deepening.pausedStates ⊆ (state.live ∪ addedStates) \ removedStates := by
    intro es isPaused
    have kept : es ∉ removedStates := fun removed =>
      disjoint_left.mp careful removed isPaused
    simp [inv.paused isPaused, kept]
  have running (es : Nat) (isCurrent : es ∈ current) (kept : es ∉ removedStates)
      : es ∈ ((state.live ∪ addedStates) \ removedStates) \ state.deepening.pausedStates := by
    have := mem_sdiff.mp (here es isCurrent)
    simp [this, kept]
  let next : IterativeDeepeningTimeSearcher B := { state.deepening with baseSearcher := base }
  have isPaused : next.pausedStates ⊆ (state.live ∪ addedStates) \ removedStates := paused
  obtain ⟨middle, pausedNow, within, holds', late⟩ := pause_apart isPaused holds running elapsed
  obtain ⟨after, resumed, fewer, holds''⟩ := resume_apart within holds'
  refine ⟨after, ?_, ⟨⟨fewer.trans within, holds''⟩, by simp [Live.updated]⟩, fun es isPaused => ?_⟩
  · simp only [IterativeDeepeningTimeSearcher.update, altStates_ok careful, ok_bind, updated]
    exact bind_eq_ok.mpr ⟨middle, pausedNow, resumed⟩
  · exact late es (fewer isPaused)

/-- One call: all is well afterwards exactly if the call is careful. -/
theorem Step.sound_iff {before : Live B} {call : Call} {after : Except Fault (Live B)}
    (step : Step searcher (.ok before) call after) (inv : Inv searcher before)
    : (Sound searcher ⟨.ok before, call, after⟩ ↔ CarefulCall before call)
      ∧ (CarefulCall before call → ∃ state, after = .ok state ∧ Inv searcher state) := by
  cases step with
  | selectState _ es baseSearcher selects =>
    obtain ⟨member, holds⟩ := searcher.selects_holds inv.holds selects
    have apart : Apart searcher (before.select baseSearcher es) := ⟨inv.paused, holds⟩
    refine ⟨iff_of_true ⟨before, _, rfl, rfl, apart, rfl, trivial⟩ trivial, fun _ => ?_⟩
    refine ⟨_, rfl, apart, ?_⟩
    rintro es ⟨rfl⟩
    exact member
  | update _ elapsed current addedStates removedStates isSelected live fresh =>
    by_cases careful : Disjoint removedStates before.deepening.pausedStates
    · obtain ⟨after, updated, inv', late⟩ := update_apart inv isSelected live fresh careful
      rw [updated]
      refine ⟨iff_of_true ⟨before, _, rfl, rfl, inv'.toApart, late, ?_⟩ careful,
        fun _ => ⟨_, rfl, inv'⟩⟩
      intro es removed
      refine ⟨fun paused => ?_, fun set holds member => ?_⟩
      · exact (mem_sdiff.mp (inv'.paused paused)).2 removed
      · rw [searcher.holds_unique holds inv'.holds] at member
        exact (mem_sdiff.mp (mem_sdiff.mp member).1).2 removed
    · obtain ⟨fault, failed⟩ := altStates_error careful
      refine ⟨iff_of_false ?_ careful, fun isCareful => absurd isCareful careful⟩
      rintro ⟨_, after, -, isAfter, -⟩
      simp [IterativeDeepeningTimeSearcher.update, failed, Except.map] at isAfter

-- Runs

/-- A new searcher has paused no states. -/
def Live.start (base : B) (live : Finset Nat) : Live B where
  deepening := { baseSearcher := base, time := 1, pausedStates := ∅ }
  live
  selected := none

/-- State 2 is paused, after which only state 1 can be selected. -/
def pausedTwo : Live (List Searcher) where
  deepening :=
    { baseSearcher := [⟨.dfs, [1]⟩]
      time := 1
      pausedStates := {2} }
  live := {1, 2}
  selected := some 1

theorem pausedTwo_reached
    : ∃ trace, Run (Takes (Step interleaved)) (.ok (.start twoStates {1, 2})) trace (.ok pausedTwo)
        ∧ trace.map Transition.label = [.selectState 2, .update 5 (some 2) ∅ ∅, .selectState 1]
        ∧ ∀ transition ∈ trace, Careful transition := by
  let selected : Live (List Searcher) := (Live.start twoStates {1, 2}).select twoStates 2
  have first : Step interleaved (.ok (.start twoStates {1, 2})) (.selectState 2) (.ok selected) :=
    .selectState _ _ _ ⟨rfl, _, List.mem_singleton.mpr rfl, by decide⟩
  have second : Step interleaved (.ok selected) (.update 5 (some 2) ∅ ∅) _ :=
    .update _ _ _ _ _ (by simp [selected, Live.select]) (by simp) (by simp)
  have updated : (selected.deepening.update interleaved 5 (some 2) ∅ ∅).map
      (selected.updated ∅ ∅) = .ok { pausedTwo with selected := none } := by
    decide +kernel
  rw [updated] at second
  have third : Step interleaved (.ok { pausedTwo with selected := none }) (.selectState 1)
      (.ok pausedTwo) :=
    .selectState _ _ _ ⟨rfl, _, List.mem_singleton.mpr rfl, by decide⟩
  refine ⟨_, ((Run.nil.record first).record second).record third, rfl, ?_⟩
  simp [Careful, CarefulCall]

end Deepening

end Woodpecker
