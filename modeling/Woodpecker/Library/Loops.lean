import Mathlib.Order.Lattice.Nat
import Woodpecker.Library.Faults

/-! Loops whose body can fault, and sets of numbers iterated in ascending order.
The rules for loops over a state carry an invariant over what is still to be done.
-/

namespace Woodpecker.Library

open List

universe u v

section Loops

variable {State : Type u} {Item : Type v} {ε : Type u}
  {step : State → Item → Except ε State} {items : List Item} {state : State}

section

variable (Inv : List Item → State → Prop)
include Inv

/-- A loop whose body succeeds under the invariant of what is left succeeds, by induction
on what is left.
-/
theorem foldlM_ok (start : Inv items state)
    (advance : ∀ {item rest state}, Inv (item :: rest) state →
      ∃ after, step state item = .ok after ∧ Inv rest after)
    : ∃ after, items.foldlM step state = .ok after ∧ Inv [] after := by
  induction items generalizing state with
  | nil => exact ⟨state, rfl, start⟩
  | cons item rest ih =>
    obtain ⟨middle, taken, left⟩ := advance start
    obtain ⟨after, looped, done⟩ := ih left
    refine ⟨after, ?_, done⟩
    rw [foldlM_cons, taken]
    exact looped

/-- A loop faults when one of its items does and the invariant survives the items before
it, by induction on what is left.
-/
theorem foldlM_error {bad : Item} (member : bad ∈ items)
    (start : Inv items state) (advance : ∀ {item rest state}, Inv (item :: rest) state →
      (∃ fault, step state item = .error fault)
      ∨ (item ≠ bad ∧ ∃ after, step state item = .ok after ∧ Inv rest after))
    : ∃ fault, items.foldlM step state = .error fault := by
  induction items generalizing state with
  | nil => cases member
  | cons item rest ih =>
    rw [foldlM_cons]
    rcases advance start with ⟨fault, failed⟩ | ⟨other, middle, taken, left⟩
    · exact ⟨fault, by rw [failed]; rfl⟩
    · rw [taken]
      exact ih (mem_of_ne_of_mem other.symm member) left

/-- What a loop ensures if it returns, by induction on what is left. -/
theorem foldlM_ensures (start : Inv items state)
    (advance : ∀ {item rest state}, Inv (item :: rest) state → Ensures (step state item) (Inv rest))
    : Ensures (items.foldlM step state) (Inv []) := by
  induction items generalizing state with
  | nil => exact .of_ok start
  | cons item rest ih =>
    exact (advance start).bind fun _ left => ih left

end

/-- A loop that adds one condition after another, each of them as it should be. -/
theorem foldlM_conjunction {Index : Type*} (Good : State → Prop) (Fits : Item → Prop)
    (P : Index → State → Prop) (Q : Index → Item → Prop) (good : Good state)
    (fits : ∀ item ∈ items, Fits item)
    (add : ∀ {state item}, Good state → Fits item → Ensures (step state item) fun after =>
      Good after ∧ ∀ i, P i after ↔ P i state ∧ Q i item)
    : Ensures (items.foldlM step state) fun after =>
        Good after ∧ ∀ i, P i after ↔ P i state ∧ ∀ item ∈ items, Q i item := by
  let Inv (rest : List Item) (now : State) : Prop :=
    Good now ∧ (∀ item ∈ rest, Fits item)
    ∧ ∀ i, (P i now ∧ ∀ item ∈ rest, Q i item) ↔ P i state ∧ ∀ item ∈ items, Q i item
  refine (foldlM_ensures Inv ⟨good, fits, fun _ => Iff.rfl⟩ ?_).mono ?_
  · rintro item rest now ⟨good, fits, same⟩
    refine (add good (fits item (by simp))).mono fun after added => ?_
    refine ⟨added.1, fun item later => fits item (by simp [later]), fun i => ?_⟩
    rw [← same i, added.2 i, forall_mem_cons, and_assoc]
  · rintro after ⟨good, -, same⟩
    exact ⟨good, fun i => by simpa using same i⟩

end Loops

section Each

variable {Item Result ε : Type u} {step : Item → Except ε Result} {items : List Item}

/-- A loop over independent items succeeds when each of them does, by induction on the
items.
-/
theorem mapM_ok (Fits : Item → Result → Prop)
    (each : ∀ item ∈ items, ∃ result, step item = .ok result ∧ Fits item result)
    : ∃ results, items.mapM step = .ok results ∧ Forall₂ Fits items results := by
  induction items with
  | nil => exact ⟨[], rfl, .nil⟩
  | cons item rest ih =>
    obtain ⟨result, taken, fits⟩ := each item (by simp)
    obtain ⟨results, looped, fit⟩ := ih fun other later => each other (by simp [later])
    refine ⟨result :: results, ?_, .cons fits fit⟩
    rw [mapM_cons, taken, ok_bind, looped]
    rfl

/-- What a loop over independent items ensures if it returns, by induction on the items. -/
theorem mapM_ensures (Fits : Item → Result → Prop)
    (each : ∀ item ∈ items, Ensures (step item) (Fits item))
    : Ensures (items.mapM step) (Forall₂ Fits items) := by
  induction items with
  | nil => exact .of_ok .nil
  | cons item rest ih =>
    rw [mapM_cons]
    refine (each item (by simp)).bind fun result fits => ?_
    refine (ih fun other later => each other (by simp [later])).bind fun results fit => ?_
    exact .of_ok (.cons fits fit)

/-- It faults when one of them does, by induction on the items. -/
theorem mapM_error {bad : Item} {fault : ε} (member : bad ∈ items)
    (failed : step bad = .error fault)
    : ∃ fault, items.mapM step = .error fault := by
  induction items with
  | nil => cases member
  | cons item rest ih =>
    rw [mapM_cons]
    rcases taken : step item with first | result
    · exact ⟨first, rfl⟩
    have later : bad ∈ rest := by
      rcases mem_cons.mp member with rfl | later
      · cases failed.symm.trans taken
      · exact later
    obtain ⟨first, looped⟩ := ih later
    exact ⟨first, by rw [ok_bind, looped]; rfl⟩

end Each

/-- The elements of a set in the order of an ordered set's iterator. -/
def ascending (set : Finset Nat) : List Nat :=
  (List.range (set.sup id + 1)).filter (· ∈ set)

@[simp]
theorem mem_ascending {set : Finset Nat} {item : Nat}
    : item ∈ ascending set ↔ item ∈ set := by
  simp only [ascending, mem_filter, mem_range, decide_eq_true_eq, and_iff_right_iff_imp]
  intro member
  have below : item ≤ set.sup id := Finset.le_sup (f := id) member
  omega

@[simp]
theorem toFinset_ascending (set : Finset Nat) : (ascending set).toFinset = set := by
  ext item
  simp [mem_ascending]

theorem nodup_ascending (set : Finset Nat) : (ascending set).Nodup :=
  nodup_range.filter _

@[simp]
theorem ascending_singleton (item : Nat) : ascending {item} = [item] := by
  apply perm_singleton.mp
  rw [perm_ext_iff_of_nodup (nodup_ascending _) (nodup_singleton _)]
  simp

end Woodpecker.Library
