import Mathlib.Data.Finset.Basic
import Woodpecker.Library.Faults
import Woodpecker.Library.Heaps

/-! The process tree (`PTree.cpp`): a binary tree of nodes freed from the leaves up.

A node pointer is a position in the allocation order, and a freed position holds nothing.
The `condition` of a node is only printed, and its `data` only read by a searcher: both are
left out here.
-/

namespace Woodpecker

open Library Option

/-- The links of a `PTreeNode`. -/
structure PTreeNode where
  parent : Option Nat
  left : Option Nat
  right : Option Nat
deriving DecidableEq, Repr

structure PTree where
  nodes : List (Option PTreeNode)
deriving DecidableEq, Repr

namespace PTree

/-- The constructor makes the root, position 0. -/
def create : PTree where
  nodes := [some ⟨none, none, none⟩]

/-- The node behind a pointer, unless it was freed. -/
def node? (tree : PTree) (ref : Nat) : Option PTreeNode :=
  tree.nodes[ref]?.join

def deref (tree : PTree) (ref : Nat) : Except Fault PTreeNode :=
  match tree.node? ref with
  | some node => .ok node
  | none => .error .badPointer

def write (tree : PTree) (ref : Nat) (node : Option PTreeNode) : PTree where
  nodes := tree.nodes.set ref node

/-- `PTree::split`: two new children of a leaf, the left one first. -/
def split (tree : PTree) (n : Nat) : Except Fault (PTree × Nat × Nat) := do
  let node ← tree.deref n
  if node.left = none ∧ node.right = none then
    let left := tree.nodes.length
    let right := tree.nodes.length + 1
    let written := tree.write n (some { node with left := some left, right := some right })
    .ok (⟨written.nodes ++ [some ⟨some n, none, none⟩, some ⟨some n, none, none⟩]⟩,
      left, right)
  else .error .assertion

/-- A parent without the link to a child. -/
def unlink (parent : PTreeNode) (n : Nat) : Except Fault PTreeNode :=
  if parent.left = some n then .ok { parent with left := none }
  else if parent.right = some n then .ok { parent with right := none }
  else .error .assertion

/-- The loop of `PTree::remove`: frees a node, then its parent if that has become a leaf. -/
def removeUp (tree : PTree) : Nat → Nat → Except Fault PTree
  | 0, _ => .error .outOfFuel
  | fuel + 1, n => do
    let node ← tree.deref n
    let freed := tree.write n none
    match node.parent with
    | none => .ok freed
    | some p => do
      let parent ← freed.deref p
      let parent ← unlink parent n
      let unlinked := freed.write p (some parent)
      if parent.left = none ∧ parent.right = none then unlinked.removeUp fuel p
      else .ok unlinked

def remove (tree : PTree) (n : Nat) : Except Fault PTree := do
  let node ← tree.deref n
  if node.left = none ∧ node.right = none then tree.removeUp tree.nodes.length n
  else .error .assertion

variable {tree after : PTree} {ref n p : Nat} {node parent : PTreeNode}

theorem deref_of_node? (found : tree.node? ref = some node) : tree.deref ref = .ok node := by
  simp [deref, found]

theorem node?_write (bound : n < tree.nodes.length) (written : Option PTreeNode) (ref : Nat)
    : (tree.write n written).node? ref = if ref = n then written else tree.node? ref :=
  Heap.read_write bound written ref

def Child (parent : PTreeNode) (n : Nat) : Prop :=
  parent.left = some n ∨ parent.right = some n

def IsLeaf (node : PTreeNode) : Prop :=
  node.left = none ∧ node.right = none

theorem IsLeaf.not_child (leaf : IsLeaf node) : ¬ Child node n := by
  simp [Child, leaf.1, leaf.2]

/-- The link from a node to its parent. -/
def Above (tree : PTree) (n p : Nat) : Prop :=
  ∃ node, tree.node? n = some node ∧ node.parent = some p

/-- The link from a node to one of its children. -/
def Below (tree : PTree) (p n : Nat) : Prop :=
  ∃ parent, tree.node? p = some parent ∧ Child parent n

/-- Both directions of every link agree, parents are allocated before their children, and
no child is linked twice.
-/
structure Linked (tree : PTree) : Prop where
  links : ∀ {n p}, tree.Above n p ↔ tree.Below p n
  order : ∀ {n p}, tree.Above n p → p < n
  apart : ∀ {p parent n}, tree.node? p = some parent → parent.left = some n
    → parent.right ≠ some n

theorem Linked.create : PTree.create.Linked := by
  have only {n : Nat} {node : PTreeNode} (found : PTree.create.node? n = some node)
      : node = ⟨none, none, none⟩ := by
    have bound : n < 1 := Heap.lt_of_read found
    obtain rfl : n = 0 := by omega
    exact (some.inj found).symm
  have orphan {n p : Nat} : ¬ PTree.create.Above n p := by
    rintro ⟨node, found, above⟩
    simp [only found] at above
  have childless {n p : Nat} : ¬ PTree.create.Below p n := by
    rintro ⟨parent, found, child⟩
    simp [only found, Child] at child
  refine ⟨iff_of_false orphan childless, fun above => absurd above orphan, ?_⟩
  intro p parent n found left
  simp [only found] at left

-- Splitting a leaf

/-- What a tree is after a leaf was split, read pointer by pointer. -/
structure Split (tree after : PTree) (n : Nat) (inner : PTreeNode) : Prop where
  returned : tree.split n = .ok (after, tree.nodes.length, tree.nodes.length + 1)
  lookup : ∀ ref, after.node? ref
    = if ref = tree.nodes.length ∨ ref = tree.nodes.length + 1
      then some ⟨some n, none, none⟩
      else if ref = n then some inner else tree.node? ref

theorem split_leaf (found : tree.node? n = some node) (leaf : IsLeaf node)
    : ∃ after, tree.Split after n
        { node with left := some tree.nodes.length, right := some (tree.nodes.length + 1) } := by
  have bound := Heap.lt_of_read found
  let inner : PTreeNode :=
    { node with left := some tree.nodes.length, right := some (tree.nodes.length + 1) }
  let written := tree.write n (some inner)
  have size : written.nodes.length = tree.nodes.length := by simp [written, write]
  refine ⟨⟨written.nodes ++ [some ⟨some n, none, none⟩, some ⟨some n, none, none⟩]⟩, ?_, ?_⟩
  · simp [split, deref_of_node? found, leaf.1, leaf.2, written, inner]
  intro ref
  rcases Nat.lt_trichotomy ref tree.nodes.length with old | rfl | new
  · have inside := node?_write bound (some inner) ref
    simp only [node?] at inside ⊢
    rw [List.getElem?_append_left (by rw [size]; exact old), inside,
      if_neg (show ¬ (_ ∨ _) by omega)]
  · simp [node?, size]
  · have beyond : tree.nodes[ref]? = none := List.getElem?_eq_none (by omega)
    simp only [node?]
    rw [List.getElem?_append_right (by omega), size]
    by_cases next : ref = tree.nodes.length + 1
    · simp [next]
    · rw [List.getElem?_eq_none (by simp; omega), if_neg (by omega), if_neg (by omega), beyond]

/-- Splitting a leaf keeps the links consistent: the only new links are the two below it. -/
theorem Split.linked {left right : Nat} {parent : Option Nat}
    (split : tree.Split after n ⟨parent, some left, some right⟩)
    (fresh : left = tree.nodes.length ∧ right = tree.nodes.length + 1)
    (found : tree.node? n = some ⟨parent, none, none⟩) (linked : tree.Linked)
    : after.Linked := by
  obtain ⟨rfl, rfl⟩ := fresh
  have bound := Heap.lt_of_read found
  have unallocated {ref : Nat} (new : tree.nodes.length ≤ ref) : tree.node? ref = none := by
    simp [node?, List.getElem?_eq_none new]
  have above {ref p : Nat}
      : after.Above ref p
        ↔ tree.Above ref p
          ∨ (p = n ∧ (ref = tree.nodes.length ∨ ref = tree.nodes.length + 1)) := by
    simp only [Above, split.lookup]
    by_cases new : ref = tree.nodes.length ∨ ref = tree.nodes.length + 1
    · have none := unallocated (show tree.nodes.length ≤ ref by omega)
      simp [new, none, eq_comm]
    by_cases same : ref = n
    · subst same
      simp [new, found]
    · simp [new, same]
  have below {ref p : Nat}
      : after.Below p ref
        ↔ tree.Below p ref
          ∨ (p = n ∧ (ref = tree.nodes.length ∨ ref = tree.nodes.length + 1)) := by
    simp only [Below, Child, split.lookup]
    by_cases new : p = tree.nodes.length ∨ p = tree.nodes.length + 1
    · have none := unallocated (show tree.nodes.length ≤ p by omega)
      have other : p ≠ n := by omega
      simp [new, none, other]
    by_cases same : p = n
    · subst same
      simp [new, found, eq_comm]
    · simp [new, same]
  refine ⟨?_, ?_, ?_⟩
  · intro ref p
    rw [above, below, linked.links]
  · intro ref p link
    rcases above.mp link with old | ⟨rfl, new⟩
    · exact linked.order old
    · omega
  · intro p record ref held
    rw [split.lookup] at held
    split_ifs at held with new same
    · cases held
      simp
    · cases held
      rintro here there
      simp at here there
      omega
    · exact linked.apart held

/-- Splitting a leaf succeeds. Both new nodes are leaves, and every other node is as
before.
-/
theorem Linked.split (linked : tree.Linked) (found : tree.node? n = some node) (leaf : IsLeaf node)
    : ∃ after, tree.split n = .ok (after, tree.nodes.length, tree.nodes.length + 1)
        ∧ after.Linked
        ∧ after.node? tree.nodes.length = some ⟨some n, none, none⟩
        ∧ after.node? (tree.nodes.length + 1) = some ⟨some n, none, none⟩
        ∧ ∀ {ref other}, ref ≠ n → tree.node? ref = some other
            → after.node? ref = some other := by
  obtain ⟨after, split⟩ := split_leaf found leaf
  obtain ⟨parent, _, _⟩ := node
  obtain ⟨rfl, rfl⟩ := leaf
  refine ⟨after, split.returned, split.linked ⟨rfl, rfl⟩ found linked, ?_, ?_, ?_⟩
  · simp [split.lookup]
  · simp [split.lookup]
  · intro ref other differ there
    have bound := Heap.lt_of_read there
    rw [split.lookup, if_neg (by omega), if_neg differ, there]

-- Removing a leaf

/-- A node without the links to a child. -/
def without (node : PTreeNode) (n : Nat) : PTreeNode :=
  { node with left := node.left.filter (· ≠ n), right := node.right.filter (· ≠ n) }

theorem filter_ne {slot : Option Nat} (free : slot ≠ some n) : slot.filter (· ≠ n) = slot := by
  cases slot <;> simp_all

theorem without_of_not_child (other : ¬ Child node n) : without node n = node := by
  obtain ⟨notLeft, notRight⟩ := not_or.mp other
  rw [without, filter_ne notLeft, filter_ne notRight]

/-- A linked child can be unlinked, and only it goes. -/
theorem unlink_child (child : Child parent n) (apart : parent.left = some n → parent.right ≠ some n)
    : unlink parent n = .ok (without parent n) := by
  unfold unlink without
  by_cases left : parent.left = some n
  · rw [if_pos left, filter_ne (apart left)]
    simp [left, Option.filter]
  have right : parent.right = some n := child.resolve_left left
  rw [if_neg left, if_pos right, filter_ne left]
  simp [right, Option.filter]

/-- A leaf freed and unlinked from its parent, read pointer by pointer. -/
structure Freed (tree after : PTree) (n : Nat) : Prop where
  lookup : ∀ ref, after.node? ref
    = if ref = n then none else (tree.node? ref).map (without · n)

/-- Freeing a leaf keeps the links consistent: only the links at the leaf go. -/
theorem Freed.linked (freed : tree.Freed after n) (linked : tree.Linked)
    (found : tree.node? n = some node) (leaf : IsLeaf node)
    : after.Linked := by
  have above {ref q : Nat} : after.Above ref q ↔ tree.Above ref q ∧ ref ≠ n := by
    by_cases gone : ref = n <;> simp [Above, freed.lookup, gone, without]
  have below {ref q : Nat} : after.Below q ref ↔ tree.Below q ref ∧ ref ≠ n := by
    by_cases gone : q = n
    · subst gone
      simp [Below, freed.lookup, found, leaf.not_child]
    · simp [Below, Child, freed.lookup, gone, without, filter_eq_some_iff]
      grind
  refine ⟨?_, ?_, ?_⟩
  · intro ref q
    rw [above, below, linked.links]
  · intro ref q link
    exact linked.order (above.mp link).1
  · intro q record ref there
    rw [freed.lookup] at there
    split_ifs at there
    obtain ⟨record, held, rfl⟩ := map_eq_some_iff.mp there
    intro inLeft inRight
    exact linked.apart held (filter_eq_some_iff.mp inLeft).1 (filter_eq_some_iff.mp inRight).1

theorem Freed.nodes {other : PTreeNode} (freed : tree.Freed after n)
    (there : after.node? ref = some other)
    : ref ≠ n ∧ ∃ old, tree.node? ref = some old ∧ old.parent = other.parent := by
  rw [freed.lookup, ite_none_left_eq_some] at there
  obtain ⟨other, held, rfl⟩ := map_eq_some_iff.mp there.2
  exact ⟨there.1, other, held, rfl⟩

/-- A leaf was removed: the other leaves are as before, and no node is new or has another
parent.
-/
structure Removed (tree after : PTree) (n : Nat) : Prop where
  linked : after.Linked
  leaves : ∀ {ref other}, IsLeaf other
    → (after.node? ref = some other ↔ ref ≠ n ∧ tree.node? ref = some other)
  nodes : ∀ {ref other}, after.node? ref = some other
    → ref ≠ n ∧ ∃ old, tree.node? ref = some old ∧ old.parent = other.parent

section

variable (linked : tree.Linked) (found : tree.node? n = some node) (leaf : IsLeaf node)
include linked found leaf

/-- Removal from a leaf upwards succeeds and leaves the other leaves, by induction on the
budget. The parent is freed next only when the child was its last, so it was no leaf.
-/
theorem Linked.removeUp {fuel : Nat} (enough : n < fuel)
    : ∃ after, tree.removeUp fuel n = .ok after ∧ tree.Removed after n := by
  induction fuel generalizing tree n node with
  | zero => omega
  | succ fuel ih =>
    have lookup := node?_write (Heap.lt_of_read found) (none : Option PTreeNode)
    -- The links to the leaf are those of its parent.
    have same {ref : Nat} (notParent : node.parent ≠ some ref)
        : (tree.node? ref).map (without · n) = tree.node? ref := by
      cases there : tree.node? ref with
      | none => rfl
      | some other =>
        refine congrArg some (without_of_not_child fun child => notParent ?_)
        obtain ⟨_, again, up⟩ := linked.links.mpr ⟨other, there, child⟩
        obtain rfl := mem_unique found again
        exact up
    cases up : node.parent with
    | none =>
      have freed : tree.Freed (tree.write n none) n :=
        ⟨fun ref => by rw [lookup, same (by simp [up])]⟩
      refine ⟨tree.write n none, ?_, freed.linked linked found leaf, fun _ => ?_, freed.nodes⟩
      · simp [removeUp, deref_of_node? found, up]
      · rw [lookup, ite_none_left_eq_some]
    | some p =>
      obtain ⟨parent, held, child⟩ := linked.links.mp ⟨node, found, up⟩
      have smaller : p < n := linked.order ⟨node, found, up⟩
      let after := (tree.write n none).write p (some (without parent n))
      have freed : tree.Freed after n := by
        refine ⟨fun ref => ?_⟩
        rw [node?_write (by simpa [write] using Heap.lt_of_read held), lookup]
        by_cases isParent : ref = p
        · subst isParent
          rw [if_pos rfl, if_neg smaller.ne, held, map_some]
        · rw [if_neg isParent, same fun isUp => isParent (mem_unique isUp up)]
      have kept : after.Linked := freed.linked linked found leaf
      have others {ref : Nat} {other : PTreeNode} (notParent : ref ≠ p)
          : after.node? ref = some other ↔ ref ≠ n ∧ tree.node? ref = some other := by
        rw [freed.lookup, same fun isUp => notParent (mem_unique isUp up), ite_none_left_eq_some]
      have notLeaf {other : PTreeNode} (isLeaf : IsLeaf other) : tree.node? p ≠ some other := by
        intro there
        obtain rfl := mem_unique held there
        exact isLeaf.not_child child
      have readable : (tree.write n none).deref p = .ok parent := by
        apply deref_of_node?
        rw [lookup, if_neg smaller.ne, held]
      simp only [removeUp, deref_of_node? found, ok_bind, up, readable,
        unlink_child child (linked.apart held)]
      split
      next childless =>
        obtain ⟨last, looped, removed⟩ := ih kept
          (by rw [freed.lookup, if_neg smaller.ne, held]; rfl) childless (by omega)
        refine ⟨last, looped, removed.linked, fun {ref other} isLeaf => ?_, fun there => ?_⟩
        · rw [removed.leaves isLeaf]
          by_cases isParent : ref = p
          · subst isParent
            exact iff_of_false (fun other => other.1 rfl) fun old => notLeaf isLeaf old.2
          · rw [others isParent]
            exact and_iff_right isParent
        · obtain ⟨-, middle, there, same⟩ := removed.nodes there
          obtain ⟨apart, old, held, same'⟩ := freed.nodes there
          exact ⟨apart, old, held, same'.trans same⟩
      next more =>
        refine ⟨after, rfl, kept, fun {ref other} isLeaf => ?_, freed.nodes⟩
        by_cases isParent : ref = p
        · subst isParent
          refine iff_of_false (fun there => more ?_) fun old => notLeaf isLeaf old.2
          rw [freed.lookup, if_neg smaller.ne, held] at there
          cases there
          exact isLeaf
        · exact others isParent

/-- Removing a leaf succeeds and leaves the other leaves. -/
theorem Linked.remove : ∃ after, tree.remove n = .ok after ∧ tree.Removed after n := by
  obtain ⟨after, looped, removed⟩ := linked.removeUp found leaf (Heap.lt_of_read found)
  refine ⟨after, ?_, removed⟩
  simp only [PTree.remove, deref_of_node? found, ok_bind]
  exact (if_pos leaf).trans looped

end

end PTree

end Woodpecker
