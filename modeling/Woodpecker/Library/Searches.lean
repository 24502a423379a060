import Mathlib.Algebra.GroupWithZero.Nat
import Mathlib.Data.List.Basic

/-! Searches with a stack, which visit every element once.

An element is visited when it is pushed. Once the stack is empty, all that can be reached
from what was visited has been visited.
-/

namespace Woodpecker.Library

open List

universe u

variable {α : Type u} [DecidableEq α] {visited stack : List α} {x : α}

/-- Of some elements, those that were not visited before are pushed. -/
def pushNew (visited stack : List α) : List α → List α × List α
  | [] => (visited, stack)
  | x :: rest =>
    if x ∈ visited then pushNew visited stack rest
    else pushNew (x :: visited) (x :: stack) rest

theorem mem_pushNew_visited (new : List α)
    : x ∈ (pushNew visited stack new).1 ↔ x ∈ visited ∨ x ∈ new := by
  induction new generalizing visited stack with
  | nil => simp [pushNew]
  | cons y rest ih =>
    rw [pushNew]
    split
    next old =>
      rw [ih, mem_cons]
      constructor
      · exact Or.imp_right Or.inr
      · intro either
        rcases either with isOld | same | later
        · exact .inl isOld
        · exact .inl (same ▸ old)
        · exact .inr later
    · rw [ih, mem_cons, mem_cons]
      exact or_assoc.trans or_left_comm

/-- What is pushed was visited just now. -/
theorem mem_pushNew_stack (new : List α)
    : (x ∈ (pushNew visited stack new).2 → x ∈ stack ∨ x ∈ new)
      ∧ (x ∈ stack → x ∈ (pushNew visited stack new).2)
      ∧ (x ∈ new → x ∈ visited ∨ x ∈ (pushNew visited stack new).2) := by
  induction new generalizing visited stack with
  | nil => simp [pushNew]
  | cons y rest ih =>
    rw [pushNew]
    split
    next old =>
      obtain ⟨origin, kept, pushed⟩ := @ih visited stack
      refine ⟨fun isIn => (origin isIn).imp_right (.tail y), kept, fun isNew => ?_⟩
      rcases mem_cons.mp isNew with same | later
      · exact .inl (same ▸ old)
      · exact pushed later
    obtain ⟨origin, kept, pushed⟩ := @ih (y :: visited) (y :: stack)
    refine ⟨fun isIn => ?_, fun isIn => kept (.tail y isIn), fun isNew => ?_⟩
    · rcases origin isIn with isStack | later
      · rcases mem_cons.mp isStack with same | old
        · exact .inr (same ▸ .head rest)
        · exact .inl old
      · exact .inr (.tail y later)
    · rcases mem_cons.mp isNew with same | later
      · exact .inr (kept (same ▸ .head stack))
      rcases pushed later with isVisited | isStack
      · rcases mem_cons.mp isVisited with same | old
        · exact .inr (kept (same ▸ .head stack))
        · exact .inl old
      · exact .inr isStack

/-- What was visited is on the stack or done, and so it is after the top was. -/
theorem pushNew_done {top : α} {done done' : α → Prop} (new : List α)
    (before : ∀ x ∈ visited, x ∈ top :: stack ∨ done x) (isTop : done' top)
    (keeps : ∀ x, done x → done' x)
    : ∀ x ∈ (pushNew visited stack new).1, x ∈ (pushNew visited stack new).2 ∨ done' x := by
  intro x isIn
  have still (old : x ∈ visited) : x ∈ (pushNew visited stack new).2 ∨ done' x := by
    rcases before x old with isStack | isDone
    · rcases mem_cons.mp isStack with same | later
      · exact .inr (same ▸ isTop)
      · exact .inl ((mem_pushNew_stack new).2.1 later)
    · exact .inr (keeps x isDone)
  rcases (mem_pushNew_visited new).mp isIn with old | isNew
  · exact still old
  rcases (mem_pushNew_stack new).2.2 isNew with old | pushed
  · exact still old
  · exact .inl pushed

theorem pushNew_append (new more : List α)
    : pushNew visited stack (new ++ more)
      = pushNew (pushNew visited stack new).1 (pushNew visited stack new).2 more := by
  induction new generalizing visited stack with
  | nil => rfl
  | cons y rest ih =>
    rw [cons_append, pushNew, pushNew]
    split
    · exact ih
    · exact ih

theorem pushNew_of_visited {new : List α} (old : ∀ x ∈ new, x ∈ visited)
    : pushNew visited stack new = (visited, stack) := by
  induction new with
  | nil => rfl
  | cons y rest ih =>
    obtain ⟨first, others⟩ := forall_mem_cons.mp old
    rw [pushNew, if_pos first]
    exact ih others

/-- What is done or on the stack is there once, if all of it was visited. -/
theorem pushNew_nodup {done : List α} (new : List α) (known : ∀ x ∈ done ++ stack, x ∈ visited)
    (nodup : (done ++ stack).Nodup)
    : (done ++ (pushNew visited stack new).2).Nodup := by
  induction new generalizing visited stack with
  | nil => exact nodup
  | cons y rest ih =>
    rw [pushNew]
    split
    · exact ih known nodup
    next fresh =>
      have apart : y ∉ done ++ stack := fun old => fresh (known y old)
      refine ih (fun x isIn => ?_) (perm_middle.nodup_iff.mpr (nodup_cons.mpr ⟨apart, nodup⟩))
      rcases mem_cons.mp (perm_middle.mem_iff.mp isIn) with same | old
      · exact same ▸ .head visited
      · exact .tail y (known x old)

/-- The stack grows by no more than what is new. -/
theorem pushNew_size (size : α → Nat) (new : List α)
    : ((pushNew visited stack new).2.map size).sum ≤ (stack.map size).sum + (new.map size).sum := by
  induction new generalizing visited stack with
  | nil => simp [pushNew]
  | cons y rest ih =>
    rw [pushNew]
    split
    · have least := @ih visited stack
      simp only [map_cons, sum_cons]
      omega
    have least := @ih (y :: visited) (y :: stack)
    simp only [map_cons, sum_cons] at least ⊢
    omega

/-- What comes next has been visited, except for the elements of the stack. -/
structure Explored (next : α → List α) (visited stack : List α) : Prop where
  pushed : ∀ x ∈ stack, x ∈ visited
  explored : ∀ x ∈ visited, x ∈ stack ∨ ∀ y ∈ next x, y ∈ visited

variable {next : α → List α} {top : α}

/-- One more element of the stack is explored. -/
theorem Explored.pop (explored : Explored next visited (top :: stack))
    : Explored next (pushNew visited stack (next top)).1 (pushNew visited stack (next top)).2 := by
  have isVisited : ∀ x ∈ visited, x ∈ (pushNew visited stack (next top)).1 :=
    fun x old => (mem_pushNew_visited (next top)).mpr (.inl old)
  refine ⟨fun x isIn => ?_, pushNew_done (next top) explored.explored ?_ ?_⟩
  · rcases (mem_pushNew_stack (next top)).1 isIn with old | new
    · exact isVisited x (explored.pushed x (.tail top old))
    · exact (mem_pushNew_visited (next top)).mpr (.inr new)
  · exact fun y isNext => (mem_pushNew_visited (next top)).mpr (.inr isNext)
  · exact fun x done y isNext => isVisited y (done y isNext)

omit [DecidableEq α] in
theorem Explored.done (explored : Explored next visited []) (isIn : x ∈ visited)
    : ∀ y ∈ next x, y ∈ visited :=
  (explored.explored x isIn).resolve_left nofun

end Woodpecker.Library
