import Mathlib.Algebra.Group.Int.Defs
import Mathlib.Data.Multiset.Count
import Woodpecker.Library.Heaps

/-! Cells that count their holders.

The references that are held are a multiset. A cell is live exactly while it is held, and its
count is how often; the rules say what taking a reference and giving one back do to both.
-/

namespace Woodpecker.Library

open Multiset

universe u

variable {Cell : Type u}

/-- Every reference held leads to a cell, and every cell counts the references to it. -/
structure Counted (count : Cell → Int) (heap : Heap Cell) (held : Multiset Nat) : Prop where
  live : ∀ ref ∈ held, ∃ cell, heap.read ref = some cell
  counts : ∀ ref cell, heap.read ref = some cell → ref ∈ held ∧ count cell = held.count ref

namespace Counted

variable {count : Cell → Int} {heap : Heap Cell} {held : Multiset Nat} {ref : Nat}
  {cell changed : Cell}

theorem nil : Counted count [] 0 where
  live := by simp
  counts := by simp [Heap.read]

/-- Only one reference is read differently or held more or less often. -/
theorem change {heap' : Heap Cell} {held' : Multiset Nat} {value : Option Cell}
    (counted : Counted count heap held)
    (read : ∀ other, heap'.read other = if other = ref then value else heap.read other)
    (others : ∀ other, other ≠ ref → held'.count other = held.count other)
    (live : ref ∈ held' ↔ ∃ cell, value = some cell)
    (counts : ∀ cell, value = some cell → count cell = held'.count ref)
    : Counted count heap' held' := by
  have same (other : Nat) (differ : other ≠ ref) : other ∈ held' ↔ other ∈ held := by
    rw [← count_pos, others other differ, count_pos]
  constructor
  · intro other member
    rw [read]
    split
    next isRef => exact live.mp (isRef ▸ member)
    next differ => exact counted.live other ((same other differ).mp member)
  · intro other cell isFound
    rw [read] at isFound
    split at isFound
    next isRef =>
      subst isRef
      exact ⟨live.mpr ⟨cell, isFound⟩, counts cell isFound⟩
    next differ =>
      rw [same other differ, others other differ]
      exact counted.counts other cell isFound

/-- A new cell has one holder. -/
theorem push (counted : Counted count heap held) (one : count cell = 1)
    : Counted count (heap.push cell) (heap.length ::ₘ held) := by
  have new : heap.length ∉ held := by
    intro member
    obtain ⟨old, found⟩ := counted.live _ member
    exact Nat.lt_irrefl _ (Heap.lt_of_read found)
  refine counted.change (Heap.read_push heap cell) (fun _ differ => count_cons_of_ne differ held)
    (by simp) ?_
  rintro _ ⟨⟩
  simp [one, count_eq_zero_of_notMem new]

/-- One more holder of a cell. -/
theorem retain (counted : Counted count heap held) (found : heap.read ref = some cell)
    (more : count changed = count cell + 1)
    : Counted count (heap.write ref (some changed)) (ref ::ₘ held) := by
  refine counted.change (Heap.read_write (Heap.lt_of_read found) _)
    (fun _ differ => count_cons_of_ne differ held) (by simp) ?_
  rintro _ ⟨⟩
  rw [count_cons_self, more, (counted.counts ref cell found).2]
  omega

section

variable (counted : Counted count heap (ref ::ₘ held)) (found : heap.read ref = some cell)
include counted found

theorem count_held : count cell = held.count ref + 1 := by
  rw [(counted.counts ref cell found).2, count_cons_self]
  omega

/-- One holder has given the cell back. -/
theorem change_held {value : Option Cell} (live : ref ∈ held ↔ ∃ cell, value = some cell)
    (counts : ∀ cell, value = some cell → count cell = held.count ref)
    : Counted count (heap.write ref value) held :=
  counted.change (Heap.read_write (Heap.lt_of_read found) value)
    (fun _ differ => (count_cons_of_ne differ held).symm) live counts

/-- One holder less, of several. -/
theorem release (fewer : count changed = count cell - 1) (others : count changed ≠ 0)
    : Counted count (heap.write ref (some changed)) held := by
  have left := counted.count_held found
  have more : ref ∈ held := count_pos.mp (by omega)
  refine counted.change_held found (by simp [more]) ?_
  rintro _ ⟨⟩
  omega

/-- The last holder gives the cell back, which is freed. -/
theorem free (last : count cell - 1 = 0)
    : Counted count (heap.write ref none) held ∧ ref ∉ held := by
  have left := counted.count_held found
  have gone : ref ∉ held := count_eq_zero.mp (by omega)
  exact ⟨counted.change_held found (by simp [gone]) nofun, gone⟩

end

end Counted

end Woodpecker.Library
