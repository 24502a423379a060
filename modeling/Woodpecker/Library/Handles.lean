import Mathlib.Algebra.BigOperators.Group.Finset.Piecewise
import Mathlib.Data.Fintype.Basic

/-! Tables of handles, each of which refers to a target or to none, and the number of handles
that refer to one target.
-/

namespace Woodpecker.Library

open Finset

universe u v

variable {Handle : Type u} {Target : Type v} [Fintype Handle] [DecidableEq Target]

/-- How many handles refer to a target. -/
def referrers (target : Handle → Option Target) (object : Target) : Nat :=
  (Finset.univ.filter fun handle => target handle = some object).card

theorem referrers_eq_zero_iff {target : Handle → Option Target} {object : Target}
    : referrers target object = 0 ↔ ∀ handle, target handle ≠ some object := by
  simp [referrers, card_eq_zero, filter_eq_empty_iff]

/-- Letting one handle refer to something else moves one reference. -/
theorem referrers_update [DecidableEq Handle] (target : Handle → Option Target)
    (handle : Handle) (new : Option Target) (object : Target)
    : (referrers (Function.update target handle new) object : Int)
      = referrers target object + ((if new = some object then 1 else 0)
        - (if target handle = some object then 1 else 0)) := by
  have split (table : Handle → Option Target)
      : referrers table object = (if table handle = some object then 1 else 0)
          + ∑ other ∈ univ.erase handle, if table other = some object then 1 else 0 := by
    rw [referrers, card_filter]
    exact (add_sum_erase _ _ (mem_univ handle)).symm
  have others : ∑ other ∈ univ.erase handle,
        (if Function.update target handle new other = some object then 1 else 0)
      = ∑ other ∈ univ.erase handle, if target other = some object then 1 else 0 := by
    refine sum_congr rfl fun other member => ?_
    rw [Function.update_of_ne (ne_of_mem_erase member)]
  have before := split target
  have after := split (Function.update target handle new)
  rw [others, Function.update_self] at after
  have plus {p : Prop} [Decidable p] : ((if p then 1 else 0 : Nat) : Int) = if p then 1 else 0 := by
    split <;> rfl
  rw [before, after, Int.natCast_add, Int.natCast_add, plus, plus]
  omega

end Woodpecker.Library
