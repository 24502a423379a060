import Woodpecker.States.Containers

/-! Searchers that hold states, as other searchers use them.

A searcher is given by its calls and the set of states that it holds. An update that fits
what is held is carried out, and one that asks for the removal of another state fails. The
depth-first, random and weighted searchers and their interleavings are such searchers; the
random path searcher is not, as it holds no states.
-/

namespace Woodpecker

open Library Searcher

/-- A searcher with values in `B`. The choice of `selectState` is left open. -/
structure BaseSearcher (B : Type) where
  update : B → Option Nat → Finset Nat → Finset Nat → Except Fault B
  empty : B → Bool
  selects : B → Nat → B → Prop
  holds : B → Finset Nat → Prop
  holds_unique : ∀ {base set other}, holds base set → holds base other → set = other
  update_holds : ∀ {base set current addedStates removedStates}, holds base set
    → Fits set current addedStates removedStates
    → ∃ after, update base current addedStates removedStates = .ok after
      ∧ holds after ((set ∪ addedStates) \ removedStates)
  update_error : ∀ {base set current addedStates removedStates es}, holds base set
    → (∀ state ∈ current, state ∈ set) → Disjoint addedStates set
    → es ∈ removedStates → es ∉ set ∪ addedStates
    → ∃ fault, update base current addedStates removedStates = .error fault
  empty_iff : ∀ {base set}, holds base set → (empty base = true ↔ set = ∅)
  selects_holds : ∀ {base set es after}, holds base set → selects base es after
    → es ∈ set ∧ holds after set

namespace BaseSearcher

variable {B : Type} {searcher : BaseSearcher B} {base : B} {set : Finset Nat} {es : Nat}

def addState (searcher : BaseSearcher B) (base : B) (es : Nat) : Except Fault B :=
  searcher.update base none {es} ∅

def removeState (searcher : BaseSearcher B) (base : B) (es : Nat) (current : Option Nat)
    : Except Fault B :=
  searcher.update base current ∅ {es}

theorem addState_holds (holds : searcher.holds base set) (new : es ∉ set)
    : ∃ after, searcher.addState base es = .ok after ∧ searcher.holds after (insert es set) := by
  obtain ⟨after, added, holds⟩ := searcher.update_holds holds
    (⟨by simp, by simpa using new, by simp⟩ : Fits set none {es} ∅)
  refine ⟨after, added, ?_⟩
  rwa [Finset.sdiff_empty, Finset.union_comm, ← Finset.insert_eq] at holds

theorem removeState_holds (holds : searcher.holds base set) (member : es ∈ set)
    {current : Option Nat} (isHeld : ∀ state ∈ current, state ∈ set)
    : ∃ after, searcher.removeState base es current = .ok after
        ∧ searcher.holds after (set.erase es) := by
  obtain ⟨after, removed, holds⟩ := searcher.update_holds holds
    (⟨isHeld, by simp, by simpa using member⟩ : Fits set current ∅ {es})
  refine ⟨after, removed, ?_⟩
  rwa [Finset.union_empty, Finset.sdiff_singleton_eq_erase] at holds

end BaseSearcher

-- Interleaved searchers

/-- `InterleavedSearcher::empty`; a single searcher is a list of one. -/
def emptySearchers (searchers : List Searcher) : Bool :=
  searchers.head?.any fun searcher => searcher.states.isEmpty

/-- One or more searchers, each of which holds the states. -/
structure AllHold (searchers : List Searcher) (set : Finset Nat) : Prop where
  nonempty : searchers ≠ []
  each : ∀ searcher ∈ searchers, searcher.kind ≠ .randomPath ∧ Holds searcher.states set

variable {searchers : List Searcher} {set : Finset Nat} {current : Option Nat}
  {addedStates removedStates : Finset Nat}

theorem AllHold.update (all : AllHold searchers set)
    (fits : Fits set current addedStates removedStates)
    : ∃ after, updateSearchers searchers current addedStates removedStates = .ok after
        ∧ AllHold after ((set ∪ addedStates) \ removedStates) := by
  obtain ⟨after, updated, kinds, has⟩ := updateSearchers_has
    (fun searcher member => .inr (all.each searcher member).2) (fun _ => fits)
  refine ⟨after, updated, ?_, ?_⟩
  · rintro rfl
    exact all.nonempty (List.map_eq_nil_iff.mp kinds.symm)
  intro searcher member
  have kept : searcher.kind ∈ searchers.map kind := by
    rw [← kinds]
    exact List.mem_map_of_mem member
  obtain ⟨before, isBefore, sameKind⟩ := List.mem_map.mp kept
  have keeps : searcher.kind ≠ .randomPath := sameKind ▸ (all.each before isBefore).1
  exact ⟨keeps, (has searcher member).resolve_left keeps⟩

theorem AllHold.update_error {es : Nat} (all : AllHold searchers set)
    (here : ∀ state ∈ current, state ∈ set) (new : Disjoint addedStates set)
    (removed : es ∈ removedStates) (absent : es ∉ set ∪ addedStates)
    : ∃ fault, updateSearchers searchers current addedStates removedStates = .error fault := by
  obtain ⟨searcher, member⟩ := List.exists_mem_of_ne_nil _ all.nonempty
  obtain ⟨keeps, holds⟩ := all.each searcher member
  have failed : ∃ fault, searcher.update current addedStates removedStates = .error fault := by
    have weighted : searcher.kind.updateWeight searcher.states current removedStates
        = .ok () := holds.updateWeight here
    obtain ⟨middle, added, more⟩ := holds.addStates keeps new
    obtain ⟨fault, failed⟩ := more.removeStates_error keeps removed absent
    exact ⟨fault, by simp [Searcher.update, SearcherKind.update, weighted, added, failed]⟩
  obtain ⟨fault, failed⟩ := failed
  exact mapM_error member failed

/-- Interleaved searchers hold states if each of them does. One of them selects. -/
def interleaved : BaseSearcher (List Searcher) where
  update := updateSearchers
  empty := emptySearchers
  selects searchers es after := after = searchers ∧ ∃ searcher ∈ searchers, es ∈ searcher.states
  holds := AllHold
  holds_unique := by
    intro searchers set other all all'
    obtain ⟨first, member⟩ := List.exists_mem_of_ne_nil _ all.nonempty
    ext state
    rw [← (all.each first member).2.mem, (all'.each first member).2.mem]
  update_holds all fits := all.update fits
  update_error all here new removed absent := all.update_error here new removed absent
  empty_iff {searchers set} all := by
    obtain ⟨first, rest, rfl⟩ := List.exists_cons_of_ne_nil all.nonempty
    have holds := (all.each first (by simp)).2
    simp [emptySearchers, Option.any_some, List.isEmpty_iff, Finset.eq_empty_iff_forall_notMem,
      List.eq_nil_iff_forall_not_mem, holds.mem]
  selects_holds := by
    rintro searchers set es _ all ⟨rfl, searcher, member, listed⟩
    exact ⟨((all.each searcher member).2.mem es).mp listed, all⟩

/-- A depth-first searcher with two states. -/
def twoStates : List Searcher :=
  [⟨.dfs, [1, 2]⟩]

theorem twoStates_hold : interleaved.holds twoStates {1, 2} := by
  exact ⟨by decide, List.forall_mem_singleton.mpr ⟨by decide, by decide, by simp⟩⟩

end Woodpecker
