import Mathlib.Logic.Basic

/-! Computations that can stop on a fault, for programs with assertions and pointers.
The rewriting rules let a proof follow the successful path of a `do` block.
-/

namespace Woodpecker.Library

universe u v

/-- What can stop a call before it returns: a failed `assert`, a call to `abort`, a read
through a null or dangling pointer, or a recursion deeper than its budget.
-/
inductive Fault where
  | assertion
  | abort
  | badPointer
  | outOfFuel
deriving DecidableEq, Repr

variable {ε : Type u} {α β : Type v}

/-- A successful first part hands its value to the rest. -/
@[simp]
theorem ok_bind (value : α) (next : α → Except ε β)
    : (Except.ok value >>= next) = next value :=
  rfl

/-- A fault in the first part is the fault of the whole. -/
@[simp]
theorem error_bind (fault : ε) (next : α → Except ε β)
    : ((Except.error fault : Except ε α) >>= next) = .error fault :=
  rfl

/-- Returning a value is success. -/
@[simp]
theorem pure_eq_ok (value : α) : (pure value : Except ε α) = .ok value :=
  rfl

/-- Returning what the first part produced changes nothing, by cases on it. -/
@[simp]
theorem bind_ok (first : Except ε α) : (first >>= fun value => Except.ok value) = first := by
  cases first <;> rfl

/-- A sequence succeeds exactly when both parts do, by cases on the first part. -/
theorem bind_eq_ok {first : Except ε α} {next : α → Except ε β} {result : β}
    : (first >>= next) = .ok result
      ↔ ∃ value, first = .ok value ∧ next value = .ok result := by
  cases first with
  | error fault => simp
  | ok value => simp

-- What a computation ensures if it returns

/-- Every value the computation can return is as described. -/
def Ensures (action : Except ε α) (post : α → Prop) : Prop :=
  ∀ value, action = .ok value → post value

variable {first : Except ε α} {next : α → Except ε β} {post : α → Prop} {final : β → Prop}

theorem Ensures.of_ok {value : α} (holds : post value)
    : Ensures (.ok value : Except ε α) post := by
  rintro _ ⟨⟩
  exact holds

theorem ensures_error (fault : ε) : Ensures (.error fault : Except ε α) post := by
  rintro _ ⟨⟩

/-- A sequence, with a description of what is passed on. -/
theorem Ensures.bind (one : Ensures first post)
    (two : ∀ value, post value → Ensures (next value) final)
    : Ensures (first >>= next) final := by
  intro result returned
  obtain ⟨value, passed, returned⟩ := bind_eq_ok.mp returned
  exact two value (one value passed) result returned

theorem Ensures.mono {weaker : α → Prop} (one : Ensures first post)
    (implies : ∀ value, post value → weaker value)
    : Ensures first weaker :=
  fun value returned => implies value (one value returned)

theorem Ensures.and {also : α → Prop} (one : Ensures first post) (two : Ensures first also)
    : Ensures first fun value => post value ∧ also value :=
  fun value returned => ⟨one value returned, two value returned⟩

/-- What is passed on is whatever the first part returns. -/
theorem ensures_bind (two : ∀ value, first = .ok value → Ensures (next value) final)
    : Ensures (first >>= next) final := by
  have one : Ensures first fun value => first = .ok value := fun _ returned => returned
  exact one.bind two

end Woodpecker.Library
