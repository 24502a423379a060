import Mathlib.Data.List.Basic

/-! Heaps of cells that grow and are freed, and a discipline for work on one cell that makes
new cells on the way.

Work on a cell may change it and make others, and leaves all else alone. What is still open
when cells have been made is served one cell at a time, in any order.
-/

namespace Woodpecker.Library

open List

universe u

/-- Cells by the order in which they were made; a freed one is `none`. -/
abbrev Heap (Cell : Type u) := List (Option Cell)

namespace Heap

variable {Cell : Type u}

def read (heap : Heap Cell) (ref : Nat) : Option Cell :=
  heap[ref]?.join

def write (heap : Heap Cell) (ref : Nat) (cell : Option Cell) : Heap Cell :=
  heap.set ref cell

/-- A new cell; its reference is the length of the heap before. -/
def push (heap : Heap Cell) (cell : Cell) : Heap Cell :=
  heap ++ [some cell]

variable {heap : Heap Cell} {ref : Nat} {cell : Cell}

theorem lt_of_read (found : heap.read ref = some cell) : ref < heap.length := by
  by_contra beyond
  simp [read, getElem?_eq_none (Nat.le_of_not_lt beyond)] at found

theorem read_write (bound : ref < heap.length) (written : Option Cell) (other : Nat)
    : (heap.write ref written).read other = if other = ref then written else heap.read other := by
  simp only [read, write, getElem?_set]
  by_cases same : ref = other
  · subst same
    simp [bound]
  · simp [same, Ne.symm same]

@[simp]
theorem length_write (heap : Heap Cell) (ref : Nat) (written : Option Cell)
    : (heap.write ref written).length = heap.length :=
  length_set

@[simp]
theorem length_push (heap : Heap Cell) (cell : Cell)
    : (heap.push cell).length = heap.length + 1 := by
  simp [push]

theorem read_push (heap : Heap Cell) (cell : Cell) (other : Nat)
    : (heap.push cell).read other = if other = heap.length then some cell else heap.read other := by
  rcases Nat.lt_trichotomy other heap.length with old | rfl | beyond
  · simp [read, push, getElem?_append_left old, Nat.ne_of_lt old]
  · simp [read, push]
  · simp [read, push, Nat.ne_of_gt beyond, getElem?_eq_none (Nat.le_of_lt beyond),
      getElem?_eq_none (show (heap ++ [some cell]).length ≤ other by simp; omega)]

/-- Work on the cell `root`: it ends as `own` wants and every cell made ends as `new` wants,
if they are live, and no other cell changes.
-/
structure Served (live own new : Cell → Prop) (before after : Heap Cell) (root : Nat) : Prop where
  size : before.length ≤ after.length
  frame : ∀ ref < before.length, ref ≠ root → after.read ref = before.read ref
  own : ∀ cell, after.read root = some cell → live cell → own cell
  new : ∀ ref cell, before.length ≤ ref → after.read ref = some cell → live cell → new cell

variable {live own new : Cell → Prop} {before middle after : Heap Cell} {root : Nat}

/-- Doing nothing serves a cell that is as it should be. -/
theorem Served.refl (fits : ∀ cell, before.read root = some cell → live cell → own cell)
    : Served live own new before before root where
  size := Nat.le_refl _
  frame _ _ _ := rfl
  own := fits
  new _ _ beyond found := absurd (lt_of_read found) (Nat.not_lt.mpr beyond)

/-- Work on a cell followed by more work on it. -/
theorem Served.trans {first : Cell → Prop} (bound : root < before.length)
    (one : Served live first new before middle root) (two : Served live own new middle after root)
    : Served live own new before after root where
  size := Nat.le_trans one.size two.size
  frame ref old differ :=
    (two.frame ref (Nat.lt_of_lt_of_le old one.size) differ).trans (one.frame ref old differ)
  own := two.own
  new ref cell beyond found alive := by
    by_cases made : ref < middle.length
    · have differ : ref ≠ root := by omega
      rw [two.frame ref made differ] at found
      exact one.new ref cell beyond found alive
    · exact two.new ref cell (Nat.le_of_not_lt made) found alive

theorem Served.mono {weaker : Cell → Prop} (served : Served live own new before after root)
    (implies : ∀ cell, own cell → weaker cell)
    : Served live weaker new before after root :=
  { served with own := fun cell found alive => implies cell (served.own cell found alive) }

/-- Changing or freeing one cell. -/
theorem served_write {written : Option Cell} (bound : root < before.length)
    (fits : ∀ cell, written = some cell → live cell → own cell)
    : Served live own new before (before.write root written) root where
  size := by simp
  frame ref _ differ := by rw [read_write bound, if_neg differ]
  own cell found alive := by
    rw [read_write bound, if_pos rfl] at found
    exact fits cell found alive
  new ref cell beyond found := by
    have := lt_of_read found
    simp at this
    omega

-- Several cells left open

/-- Work on `root` that has left some cells of its family open: those are as `waiting`
describes them, and the other live ones are finished.
-/
structure Serving (live own new : Cell → Prop) (waiting : Nat → Cell → Prop)
    (before after : Heap Cell) (root : Nat) (open_ : List Nat)
    : Prop where
  size : before.length ≤ after.length
  frame : ∀ ref < before.length, ref ≠ root → after.read ref = before.read ref
  nodup : open_.Nodup
  family : ∀ ref ∈ open_, ref = root ∨ before.length ≤ ref
  waits : ∀ ref ∈ open_, ∃ cell, after.read ref = some cell ∧ waiting ref cell
  own : root ∉ open_ → ∀ cell, after.read root = some cell → live cell → own cell
  new : ∀ ref cell, before.length ≤ ref → ref ∉ open_ → after.read ref = some cell
    → live cell → new cell

variable {waiting : Nat → Cell → Prop} {open_ : List Nat}

/-- Before any work the root is open. -/
theorem serving_refl (found : before.read root = some cell) (waits : waiting root cell)
    : Serving live own new waiting before before root [root] where
  size := Nat.le_refl _
  frame _ _ _ := rfl
  nodup := by simp
  family := by simp
  waits ref member := by
    obtain rfl := mem_singleton.mp member
    exact ⟨cell, found, waits⟩
  own closed := absurd (mem_singleton_self _) closed
  new _ _ beyond _ found := absurd (lt_of_read found) (Nat.not_lt.mpr beyond)

/-- Changing the root leaves it open. -/
theorem serving_write (bound : root < before.length) (waits : waiting root cell)
    : Serving live own new waiting before (before.write root (some cell)) root [root] where
  size := by simp
  frame ref _ differ := by rw [read_write bound, if_neg differ]
  nodup := by simp
  family := by simp
  waits ref member := by
    obtain rfl := mem_singleton.mp member
    exact ⟨cell, by rw [read_write bound, if_pos rfl], waits⟩
  own closed := absurd (mem_singleton_self _) closed
  new ref made beyond _ found := by
    have inside := lt_of_read found
    simp at inside
    omega

section

variable (serving : Serving live own new waiting before after root open_)
include serving

/-- Making a new cell leaves it open, too. -/
theorem Serving.push (waits : waiting after.length cell)
    : Serving live own new waiting before (after.push cell) root (after.length :: open_) where
  size := by
    have := serving.size
    simp
    omega
  frame ref old differ := by
    have := serving.size
    rw [read_push, if_neg (by omega), serving.frame ref old differ]
  nodup := by
    refine nodup_cons.mpr ⟨?_, serving.nodup⟩
    intro member
    obtain ⟨_, found, -⟩ := serving.waits _ member
    exact absurd (lt_of_read found) (Nat.lt_irrefl _)
  family := forall_mem_cons.mpr ⟨.inr serving.size, serving.family⟩
  waits := by
    refine forall_mem_cons.mpr ⟨⟨cell, by rw [read_push, if_pos rfl], waits⟩, fun ref old => ?_⟩
    obtain ⟨made, found, waits⟩ := serving.waits ref old
    have inside := lt_of_read found
    exact ⟨made, by rw [read_push, if_neg (by omega), found], waits⟩
  own closed made found alive := by
    simp at closed
    rw [read_push, if_neg closed.1] at found
    exact serving.own closed.2 made found alive
  new ref made beyond closed found alive := by
    simp at closed
    rw [read_push, if_neg closed.1] at found
    exact serving.new ref made beyond closed.2 found alive

/-- The order in which cells are left open does not matter. -/
theorem Serving.perm {other : List Nat} (same : open_.Perm other)
    : Serving live own new waiting before after root other where
  size := serving.size
  frame := serving.frame
  nodup := same.nodup_iff.mp serving.nodup
  family ref member := serving.family ref (same.mem_iff.mpr member)
  waits ref member := serving.waits ref (same.mem_iff.mpr member)
  own closed := serving.own fun member => closed (same.mem_iff.mp member)
  new ref cell beyond closed :=
    serving.new ref cell beyond fun member => closed (same.mem_iff.mp member)

theorem Serving.mono {weaker : Nat → Cell → Prop}
    (implies : ∀ ref cell, ref = root ∨ before.length ≤ ref → waiting ref cell → weaker ref cell)
    : Serving live own new weaker before after root open_ := by
  refine { serving with waits := fun ref member => ?_ }
  obtain ⟨cell, found, waits⟩ := serving.waits ref member
  exact ⟨cell, found, implies ref cell (serving.family ref member) waits⟩

end

theorem Served.serving (served : Served live own new before after root)
    : Serving live own new waiting before after root [] where
  size := served.size
  frame := served.frame
  nodup := nodup_nil
  family := by simp
  waits := by simp
  own _ := served.own
  new ref cell beyond _ := served.new ref cell beyond

/-- Nothing left open. -/
theorem Serving.done (serving : Serving live own new waiting before after root [])
    : Served live own new before after root where
  size := serving.size
  frame := serving.frame
  own := serving.own (by simp)
  new ref cell beyond := serving.new ref cell beyond (by simp)

section

variable (bound : root < before.length)
  (serving : Serving live own new waiting before middle root (ref :: open_))
include bound serving

/-- Work on the next open cell, as the root or as a new cell, that leaves cells of its own
family open.
-/
theorem Serving.nest {inside : List Nat} {inner : Nat → Cell → Prop}
    (one : Serving live (fun cell => if ref = root then own cell else new cell) new inner
      middle after ref inside)
    (passes : ∀ other cell, other = ref ∨ middle.length ≤ other → inner other cell
      → waiting other cell)
    : Serving live own new waiting before after root (inside ++ open_) := by
  obtain ⟨distinct, nodup⟩ := nodup_cons.mp serving.nodup
  have family := serving.family ref (by simp)
  -- The other open cells were there before the work on `ref`, which leaves them alone.
  have old {other : Nat} (member : other ∈ open_) : other < middle.length ∧ other ≠ ref := by
    obtain ⟨cell, found, -⟩ := serving.waits other (by simp [member])
    refine ⟨lt_of_read found, ?_⟩
    rintro rfl
    exact distinct member
  have apart {other : Nat} (member : other ∈ inside) : other ∉ open_ := by
    intro also
    obtain ⟨made, differ⟩ := old also
    rcases one.family other member with same | beyond
    · exact differ same
    · omega
  refine {
    size := Nat.le_trans serving.size one.size
    frame := ?_
    nodup := nodup_append.mpr ⟨one.nodup, nodup, ?_⟩
    family := ?_
    waits := ?_
    own := ?_
    new := ?_
  }
  · intro other inBefore differ
    rw [one.frame other (Nat.lt_of_lt_of_le inBefore serving.size),
      serving.frame other inBefore differ]
    rintro rfl
    rcases family with same | made
    · exact differ same
    · omega
  · rintro other member _ also rfl
    exact apart member also
  · intro other member
    rcases mem_append.mp member with here | there
    · rcases one.family other here with rfl | beyond
      · exact family
      · exact .inr (Nat.le_trans serving.size beyond)
    · exact serving.family other (by simp [there])
  · intro other member
    rcases mem_append.mp member with here | there
    · obtain ⟨cell, found, waits⟩ := one.waits other here
      exact ⟨cell, found, passes other cell (one.family other here) waits⟩
    · rw [one.frame other (old there).1 (old there).2]
      exact serving.waits other (by simp [there])
  · intro closed cell found alive
    simp at closed
    by_cases same : ref = root
    · subst same
      simpa using one.own closed.1 cell found alive
    · rw [one.frame root (Nat.lt_of_lt_of_le bound serving.size) (Ne.symm same)] at found
      exact serving.own (by simp [closed.2, Ne.symm same]) cell found alive
  · intro other cell beyond closed found alive
    simp at closed
    by_cases same : other = ref
    · subst same
      have notRoot : other ≠ root := by omega
      simpa [notRoot] using one.own closed.1 cell found alive
    by_cases made : other < middle.length
    · rw [one.frame other made same] at found
      exact serving.new other cell beyond (by simp [closed.2, same]) found alive
    · exact one.new other cell (Nat.le_of_not_lt made) closed.1 found alive

/-- The next open cell is served, as the root or as a new cell. -/
theorem Serving.next
    (one : Served live (fun cell => if ref = root then own cell else new cell) new middle after ref)
    : Serving live own new waiting before after root open_ :=
  serving.nest bound one.serving (fun _ _ _ waits => waits)

end

end Heap

end Woodpecker.Library
