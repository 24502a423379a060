import Mathlib.Data.List.Forall2
import Woodpecker.Library.Faults

/-! Computations that return, with and without a budget for their recursion.

A computation with a budget finishes if it returns one and the same value from some budget
on. That is what termination means for the program, whose recursion has no budget.
-/

namespace Woodpecker.Library

universe u v

variable {ε : Type u} {α β : Type v} {value : α}

/-- There is no fault. -/
def Returns (action : Except ε α) : Prop :=
  ∃ value, action = .ok value

theorem returns_ok (value : α) : Returns (.ok value : Except ε α) :=
  ⟨value, rfl⟩

variable {first : Except ε α} {post : α → Prop}

/-- A sequence, with a description of what is passed on. -/
theorem Returns.bind {next : α → Except ε β} (one : Returns first) (ensures : Ensures first post)
    (two : ∀ value, post value → Returns (next value))
    : Returns (first >>= next) := by
  obtain ⟨value, returned⟩ := one
  rw [returned, ok_bind]
  exact two value (ensures value returned)

/-- What is passed on is whatever the first part returns. -/
theorem Returns.bind_any {next : α → Except ε β} (one : Returns first)
    (two : ∀ value, Returns (next value))
    : Returns (first >>= next) :=
  one.bind (fun _ _ => trivial) fun value _ => two value

/-- Every large enough budget gives the value. -/
def Settles (action : Nat → Except ε α) (value : α) : Prop :=
  ∃ bound, ∀ fuel, bound ≤ fuel → action fuel = .ok value

def Finishes (action : Nat → Except ε α) : Prop :=
  ∃ value, Settles action value

variable {action : Nat → Except ε α}

theorem settles_ok (value : α) : Settles (fun _ => (.ok value : Except ε α)) value :=
  ⟨0, fun _ _ => rfl⟩

theorem Settles.finishes (settles : Settles action value) : Finishes action :=
  ⟨value, settles⟩

theorem finishes_const : Finishes (fun _ => first) ↔ Returns first := by
  constructor
  · intro finishes
    obtain ⟨value, bound, settled⟩ := finishes
    exact ⟨value, settled bound (Nat.le_refl bound)⟩
  · intro returns
    obtain ⟨value, returned⟩ := returns
    exact ⟨value, 0, fun _ _ => returned⟩

/-- What every budget ensures holds for the value. -/
theorem Settles.ensures (settles : Settles action value)
    (ensures : ∀ fuel, Ensures (action fuel) post)
    : post value := by
  obtain ⟨bound, settled⟩ := settles
  exact ensures bound value (settled bound (Nat.le_refl bound))

/-- The first call takes one from the budget. -/
theorem Settles.of_succ (settles : Settles (fun fuel => action (fuel + 1)) value)
    : Settles action value := by
  obtain ⟨bound, settled⟩ := settles
  refine ⟨bound + 1, fun fuel enough => ?_⟩
  have positive : fuel - 1 + 1 = fuel := by omega
  rw [← positive]
  exact settled (fuel - 1) (by omega)

theorem Finishes.of_succ (finishes : Finishes fun fuel => action (fuel + 1))
    : Finishes action := by
  obtain ⟨value, settles⟩ := finishes
  exact ⟨value, settles.of_succ⟩

variable {next : Nat → α → Except ε β}

/-- Both parts of a sequence have the same budget, and the larger bound is enough. -/
theorem Settles.bind {result : β} (one : Settles action value)
    (two : Settles (fun fuel => next fuel value) result)
    : Settles (fun fuel => action fuel >>= next fuel) result := by
  obtain ⟨bound, first⟩ := one
  obtain ⟨bound', second⟩ := two
  refine ⟨max bound bound', fun fuel enough => ?_⟩
  have passed : action fuel = .ok value := first fuel (by omega)
  simp only [passed, ok_bind]
  exact second fuel (by omega)

theorem Finishes.bind (one : Finishes action) (ensures : ∀ fuel, Ensures (action fuel) post)
    (two : ∀ value, post value → Finishes fun fuel => next fuel value)
    : Finishes fun fuel => action fuel >>= next fuel := by
  obtain ⟨value, settles⟩ := one
  obtain ⟨result, settles'⟩ := two value (settles.ensures ensures)
  exact ⟨result, settles.bind settles'⟩

-- Total correctness

/-- A value is settled on, and it is as described. -/
def Yields (action : Nat → Except ε α) (post : α → Prop) : Prop :=
  ∃ value, Settles action value ∧ post value

variable {post : α → Prop}

theorem yields_ok (holds : post value) : Yields (fun _ => (.ok value : Except ε α)) post :=
  ⟨value, settles_ok value, holds⟩

theorem yields_const
    : Yields (fun _ => first) post ↔ ∃ value, first = .ok value ∧ post value := by
  constructor
  · intro yields
    obtain ⟨value, ⟨bound, settled⟩, holds⟩ := yields
    exact ⟨value, settled bound (Nat.le_refl bound), holds⟩
  · intro returns
    obtain ⟨value, returned, holds⟩ := returns
    exact ⟨value, ⟨0, fun _ _ => returned⟩, holds⟩

theorem Finishes.yields (finishes : Finishes action) (ensures : ∀ fuel, Ensures (action fuel) post)
    : Yields action post := by
  obtain ⟨value, settles⟩ := finishes
  exact ⟨value, settles, settles.ensures ensures⟩

/-- There is one value that is settled on. -/
theorem Yields.and {post' : α → Prop} (one : Yields action post) (other : Yields action post')
    : Yields action fun value => post value ∧ post' value := by
  obtain ⟨value, ⟨bound, settled⟩, holds⟩ := one
  obtain ⟨value', ⟨bound', settled'⟩, holds'⟩ := other
  have same : value = value' := Except.ok.inj
    ((settled (max bound bound') (by omega)).symm.trans (settled' (max bound bound') (by omega)))
  exact ⟨value, ⟨bound, settled⟩, holds, same ▸ holds'⟩

theorem Yields.mono {weaker : α → Prop} (yields : Yields action post)
    (implies : ∀ value, post value → weaker value)
    : Yields action weaker := by
  obtain ⟨value, settles, holds⟩ := yields
  exact ⟨value, settles, implies value holds⟩

theorem Yields.of_succ (yields : Yields (fun fuel => action (fuel + 1)) post)
    : Yields action post := by
  obtain ⟨value, settles, holds⟩ := yields
  exact ⟨value, settles.of_succ, holds⟩

theorem Yields.bind {final : β → Prop} (one : Yields action post)
    (two : ∀ value, post value → Yields (fun fuel => next fuel value) final)
    : Yields (fun fuel => action fuel >>= next fuel) final := by
  obtain ⟨value, settles, holds⟩ := one
  obtain ⟨result, settles', holds'⟩ := two value holds
  exact ⟨result, settles.bind settles', holds'⟩

/-- One value after the other, by induction on the values. -/
theorem yields_mapM {each : α → β → Prop} {values : List α}
    (yields : ∀ value ∈ values, Yields (fun fuel => next fuel value) (each value))
    : Yields (fun fuel => values.mapM (next fuel)) (List.Forall₂ each values) := by
  induction values with
  | nil =>
    exact yields_ok .nil
  | cons value rest ih =>
    obtain ⟨first, others⟩ := List.forall_mem_cons.mp yields
    simp only [List.mapM_cons]
    refine first.bind fun result isResult => ?_
    refine (ih others).bind fun results areResults => yields_ok ?_
    exact .cons isResult areResults

end Woodpecker.Library
