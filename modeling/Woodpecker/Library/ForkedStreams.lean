import Mathlib.Logic.Function.Basic

/-! A log of streams that are written to and copied. A copy starts with what its source has
at that place of the log; what is written later goes to one of the two only.
-/

namespace Woodpecker.Library

universe u

inductive Entry (α : Type u) where
  | fork (source copy : Nat)
  | data (id : Nat) (items : List α)
deriving DecidableEq, Repr

namespace ForkedStreams

variable {α : Type u}

/-- The contents of all streams after one more entry. -/
def apply (streams : Nat → List α) : Entry α → Nat → List α
  | .fork source copy => Function.update streams copy (streams source)
  | .data id items => Function.update streams id (streams id ++ items)

def contents (log : List (Entry α)) : Nat → List α :=
  log.foldl apply fun _ => []

@[simp]
theorem contents_snoc (log : List (Entry α)) (entry : Entry α)
    : contents (log ++ [entry]) = apply (contents log) entry := by
  simp [contents]

/-- Streams are numbered in the order in which they are made, from one on. Stream zero is
never written to.
-/
inductive Formed : List (Entry α) → Nat → Prop
  | nil : Formed [] 1
  | fork {log : List (Entry α)} {next source : Nat} (formed : Formed log next)
    (known : source < next)
    : Formed (log ++ [.fork source next]) (next + 1)
  | data {log : List (Entry α)} {next id : Nat} {items : List α} (formed : Formed log next)
    (positive : 0 < id) (known : id < next)
    : Formed (log ++ [.data id items]) next

/-- A stream that is not made yet is empty, and so is stream zero. -/
theorem Formed.contents_eq_nil {log : List (Entry α)} {next id : Nat}
    (formed : Formed log next) (absent : id = 0 ∨ next ≤ id)
    : contents log id = [] := by
  induction formed with
  | nil => rfl
  | @fork log next source formed known ih =>
    have differ : id ≠ next := by
      omega
    rw [contents_snoc, apply, Function.update_of_ne differ]
    exact ih (by omega)
  | @data log next written items formed positive known ih =>
    rw [contents_snoc, apply, Function.update_of_ne (by omega)]
    exact ih absent

end ForkedStreams

end Woodpecker.Library
