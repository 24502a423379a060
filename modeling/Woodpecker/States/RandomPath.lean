import Woodpecker.Library.Budgets
import Woodpecker.Library.Runs
import Woodpecker.States.ProcessTree

/-! A state chosen by a random walk down the process tree (`RandomPathSearcher`).

The walk stops at the first node with data. It finds one because the leaves are the nodes of
the live states and every other node has a child.
-/

namespace Woodpecker

open Library PTree Function

/-- A process tree with the data of its nodes, the live states. -/
structure ProcessTree (σ : Type) where
  tree : PTree
  data : Nat → Option σ

inductive PTreeCall (σ : Type) where
  | split (n : Nat) (leftData rightData : σ)
  | remove (n : Nat)

def PTreeCall.node {σ : Type} : PTreeCall σ → Nat
  | .split n _ _ | .remove n => n

/-- The random bits at hand: `drawn` words were asked for, and `bits` bits of the last one,
`flips`, are left.
-/
structure Coins where
  drawn : Nat
  flips : BitVec 32
  bits : Nat

namespace Coins

variable (theRNG : Nat → BitVec 32)

def flip (coins : Coins) : Bool × Coins :=
  let coins := if coins.bits = 0 then ⟨coins.drawn + 1, theRNG coins.drawn, 32⟩ else coins
  let bits := coins.bits - 1
  (coins.flips.getLsbD bits, { coins with bits })

/-- The node that the walk goes to next. -/
def next (node : PTreeNode) (coins : Coins) : Option Nat × Coins :=
  match node.left, node.right with
  | none, right => (right, coins)
  | some left, none => (some left, coins)
  | some left, some right =>
    let (flip, coins) := coins.flip theRNG
    (some (if flip then left else right), coins)

end Coins

namespace ProcessTree

variable {σ : Type}

def start (root : σ) : ProcessTree σ where
  tree := .create
  data := update (fun _ => none) 0 (some root)

def handle (process : ProcessTree σ) : PTreeCall σ → Except Fault (ProcessTree σ)
  | .split n leftData rightData => do
    -- The executor clears the data of the node first.
    let data := update process.data n none
    let (tree, left, right) ← process.tree.split n
    .ok ⟨tree, update (update data left (some leftData)) right (some rightData)⟩
  | .remove n => do
    -- The other nodes that are freed have no data.
    let tree ← process.tree.remove n
    .ok ⟨tree, update process.data n none⟩

def Leaf (process : ProcessTree σ) (ref : Nat) : Prop :=
  ∃ node, process.tree.node? ref = some node ∧ IsLeaf node

/-- A call for a leaf. -/
def Step (before : ProcessTree σ) (call : PTreeCall σ) (after : ProcessTree σ) : Prop :=
  before.Leaf call.node ∧ before.handle call = .ok after

/-- The loop of `selectState`. -/
def walk (process : ProcessTree σ) (theRNG : Nat → BitVec 32)
    : Nat → Coins → Nat → Except Fault σ
  | 0, _, _ => .error .outOfFuel
  | fuel + 1, coins, n => do
    let node ← process.tree.deref n
    match process.data n with
    | some state => .ok state
    | none =>
      match coins.next theRNG node with
      | (some n, coins) => process.walk theRNG fuel coins n
      | (none, _) => .error .badPointer

def selectState (process : ProcessTree σ) (theRNG : Nat → BitVec 32) (fuel : Nat)
    : Except Fault σ :=
  process.walk theRNG fuel ⟨0, 0, 0⟩ 0

-- What the calls keep

/-- The leaves are the nodes with data, and only the root has no parent. -/
structure Inv (process : ProcessTree σ) : Prop where
  linked : process.tree.Linked
  leaf : ∀ {ref}, process.Leaf ref ↔ (process.data ref).isSome
  root : ∀ {ref node}, process.tree.node? ref = some node → node.parent = none → ref = 0

variable {process after : ProcessTree σ} {call : PTreeCall σ} {n ref : Nat}

theorem Inv.start (root : σ) : (start root).Inv := by
  have only {ref : Nat} {node : PTreeNode}
      : PTree.create.node? ref = some node ↔ ref = 0 ∧ node = ⟨none, none, none⟩ := by
    cases ref <;> simp [PTree.create, node?, eq_comm]
  refine ⟨.create, ?_, fun found _ => (only.mp found).1⟩
  intro ref
  by_cases top : ref = 0 <;> simp [Leaf, ProcessTree.start, only, top, IsLeaf]

/-- A call for a leaf succeeds. -/
theorem Inv.handle (inv : process.Inv) (isLeaf : process.Leaf call.node)
    : ∃ after, process.handle call = .ok after ∧ after.Inv := by
  cases call with
  | split n leftData rightData =>
    obtain ⟨⟨parent, _, _⟩, found, rfl, rfl⟩ : process.Leaf n := isLeaf
    obtain ⟨tree, split⟩ := split_leaf found ⟨rfl, rfl⟩
    have bound := Heap.lt_of_read found
    simp only [ProcessTree.handle, split.returned, ok_bind]
    refine ⟨_, rfl, split.linked ⟨rfl, rfl⟩ found inv.linked, ?_, ?_⟩
    · intro ref
      have old : process.Leaf ref ↔ _ := inv.leaf
      simp only [Leaf, split.lookup, update_apply] at old ⊢
      by_cases right : ref = process.tree.nodes.length + 1
      · simp [right, IsLeaf]
      by_cases left : ref = process.tree.nodes.length
      · simp [left, IsLeaf]
      by_cases same : ref = n
      · simp [same, bound.ne, (Nat.lt_succ_of_lt bound).ne, IsLeaf]
      · simpa [right, left, same] using old
    · intro ref node there top
      rw [split.lookup] at there
      split_ifs at there with new same
      · simp [← Option.some.inj there] at top
      · obtain rfl := Option.some.inj there
        exact same ▸ inv.root found top
      · exact inv.root there top
  | remove n =>
    obtain ⟨node, found, leaf⟩ : process.Leaf n := isLeaf
    obtain ⟨tree, returned, removed⟩ := inv.linked.remove found leaf
    simp only [ProcessTree.handle, returned, ok_bind]
    refine ⟨_, rfl, removed.linked, ?_, ?_⟩
    · intro ref
      have old : process.Leaf ref ↔ _ := inv.leaf
      refine (exists_congr fun other => and_congr_left removed.leaves).trans ?_
      by_cases same : ref = n
      · simp [same]
      · simpa [same, Leaf] using old
    · intro ref node there top
      obtain ⟨-, old, held, same⟩ := removed.nodes there
      exact inv.root held (same.trans top)

/-- An inner node has no data. -/
theorem Inv.inner (inv : process.Inv) {node : PTreeNode} (found : process.tree.node? n = some node)
    : process.data n = none ↔ ¬ IsLeaf node := by
  rw [← Option.not_isSome_iff_eq_none, ← inv.leaf, Leaf]
  simp [found]

end ProcessTree

-- Random bits

namespace Coins

variable {node : PTreeNode} {n : Nat}

theorem next_child (inner : ¬ IsLeaf node) (theRNG : Nat → BitVec 32) (coins : Coins)
    : ∃ n later, coins.next theRNG node = (some n, later) ∧ Child node n := by
  obtain ⟨parent, left, right⟩ := node
  rcases left with _ | left
  · cases right with
    | none => exact absurd ⟨rfl, rfl⟩ inner
    | some right => exact ⟨right, coins, rfl, .inr rfl⟩
  cases right with
  | none => exact ⟨left, coins, rfl, .inl rfl⟩
  | some right =>
    refine ⟨if (coins.flip theRNG).1 then left else right, _, rfl, ?_⟩
    split
    · exact .inl rfl
    · exact .inr rfl

/-- The bits to come. -/
def ahead (theRNG : Nat → BitVec 32) (coins : Coins) (i : Nat) : Bool :=
  if i < coins.bits then coins.flips.getLsbD (coins.bits - 1 - i)
  else (theRNG (coins.drawn + (i - coins.bits) / 32)).getLsbD (31 - (i - coins.bits) % 32)

theorem flip_ahead (theRNG : Nat → BitVec 32) (coins : Coins)
    : (coins.flip theRNG).1 = coins.ahead theRNG 0
      ∧ ∀ i, (coins.flip theRNG).2.ahead theRNG i = coins.ahead theRNG (i + 1) := by
  obtain ⟨drawn, flips, bits⟩ := coins
  cases bits with
  | zero =>
    refine ⟨by simp [flip, ahead], fun i => ?_⟩
    have word : (i + 1) / 32 = if i < 31 then 0 else 1 + (i - 31) / 32 := by split <;> omega
    have place : (i + 1) % 32 = if i < 31 then i + 1 else (i - 31) % 32 := by split <;> omega
    by_cases within : i < 31 <;> simp [flip, ahead, word, place, within, Nat.add_assoc]
  | succ bits =>
    refine ⟨by simp [flip, ahead], fun i => ?_⟩
    simp [flip, ahead, Nat.sub_sub, Nat.add_comm]

/-- Any bits can be drawn. -/
theorem exists_ahead (bits : Nat → Bool) : ∃ theRNG, ahead theRNG ⟨0, 0, 0⟩ = bits := by
  let word (i : Nat) := (List.range 32).map fun place => bits (32 * i + 31 - place)
  refine ⟨fun i => (BitVec.ofBoolListLE (word i)).setWidth 32, funext fun i => ?_⟩
  have back : 32 * (i / 32) + 31 - (31 - i % 32) = i := by omega
  have inside : 31 - i % 32 < 32 := by omega
  simp only [ahead, Nat.not_lt_zero, if_false, Nat.sub_zero]
  rw [BitVec.getLsbD_setWidth, BitVec.getLsbD_ofBoolListLE]
  simp [word, back, inside]

/-- With the right bit the walk goes to a given child. -/
theorem next_to (child : Child node n) (bits : Nat → Bool)
    : ∃ before, ∀ theRNG (coins : Coins), coins.ahead theRNG = before →
        ∃ later, coins.next theRNG node = (some n, later) ∧ later.ahead theRNG = bits := by
  obtain ⟨parent, left, right⟩ := node
  rcases left with _ | left
  · obtain rfl : right = some n := child.resolve_left nofun
    exact ⟨bits, fun theRNG coins same => ⟨coins, rfl, same⟩⟩
  rcases right with _ | right
  · obtain rfl : left = n := Option.some.inj (child.resolve_right nofun)
    exact ⟨bits, fun theRNG coins same => ⟨coins, rfl, same⟩⟩
  refine ⟨fun i => if i = 0 then left = n else bits (i - 1), fun theRNG coins same => ?_⟩
  obtain ⟨flipped, later⟩ := flip_ahead theRNG coins
  refine ⟨(coins.flip theRNG).2, ?_, funext fun i => by simp [later, same]⟩
  simp only [next, flipped, same]
  by_cases isLeft : left = n
  · simp [isLeft]
  · have isRight : right = n := by simpa [Child, isLeft] using child
    simp [isLeft, isRight]

end Coins

-- The walk

namespace ProcessTree

variable {σ : Type} {process : ProcessTree σ}

/-- Whatever the bits are, the walk ends at a leaf, by recursion down the tree. -/
theorem Inv.walk_yields (inv : process.Inv) {n : Nat} {node : PTreeNode}
    (found : process.tree.node? n = some node) (theRNG : Nat → BitVec 32) (coins : Coins)
    : Yields (process.walk theRNG · coins n) fun state =>
        ∃ ref, process.data ref = some state := by
  refine Yields.of_succ ?_
  simp only [walk, deref_of_node? found, ok_bind]
  cases data : process.data n with
  | some state => exact yields_ok ⟨n, data⟩
  | none =>
    obtain ⟨child, later, goes, isChild⟩ := coins.next_child ((inv.inner found).mp data) theRNG
    have link := inv.linked.links.mpr ⟨node, found, isChild⟩
    have order := inv.linked.order link
    obtain ⟨below, held, -⟩ := link
    have bound := Heap.lt_of_read held
    simp only [goes]
    exact inv.walk_yields held theRNG later
termination_by process.tree.nodes.length - n

/-- With some bits to come the walk returns the state from the node. -/
def Returns (process : ProcessTree σ) (state : σ) (n : Nat) : Prop :=
  ∃ bits, ∀ theRNG (coins : Coins), coins.ahead theRNG = bits
    → Settles (process.walk theRNG · coins n) state

/-- What it can return from a node it can return from the root, by recursion up the tree. -/
theorem Inv.climb (inv : process.Inv) {n : Nat} {node : PTreeNode}
    (found : process.tree.node? n = some node) {state : σ} (returns : process.Returns state n)
    : process.Returns state 0 ∧ ∃ top, process.tree.node? 0 = some top := by
  rcases up : node.parent with _ | p
  · obtain rfl := inv.root found up
    exact ⟨returns, node, found⟩
  have link : process.tree.Above n p := ⟨node, found, up⟩
  have order := inv.linked.order link
  obtain ⟨parent, held, child⟩ := inv.linked.links.mp link
  have data : process.data p = none := (inv.inner held).mpr fun leaf => leaf.not_child child
  obtain ⟨bits, settles⟩ := returns
  obtain ⟨before, next⟩ := Coins.next_to child bits
  refine inv.climb held ⟨before, fun theRNG coins same => Settles.of_succ ?_⟩
  obtain ⟨later, goes, ahead⟩ := next theRNG coins same
  simp only [walk, deref_of_node? held, ok_bind, data, goes]
  exact settles theRNG later ahead
termination_by n

/-- After any calls that split and remove leaves only, the leaves are exactly the nodes of the
live states, every other node has a child, and the next such call succeeds. While a state is
live, the walk ends at a live state whatever the random bits are, and for each live state
there are bits with which it is chosen.
-/
theorem selectState_live {σ : Type} {root : σ} {calls : List (PTreeCall σ)}
    {process : ProcessTree σ} (run : Run Step (start root) calls process)
    : (∀ ref, process.Leaf ref ↔ (process.data ref).isSome)
      ∧ (∀ ref node, process.tree.node? ref = some node → process.data ref = none →
          ∃ child, process.tree.Below ref child)
      ∧ (∀ call, process.Leaf call.node → ∃ after, process.handle call = .ok after)
      ∧ ∀ ref state, process.data ref = some state →
          (∀ theRNG, Yields (process.selectState theRNG) fun chosen =>
            ∃ other, process.data other = some chosen)
          ∧ ∃ theRNG, Settles (process.selectState theRNG) state := by
  have inv : process.Inv := by
    refine run.invariant (.start root) fun inv step => ?_
    obtain ⟨_, same, kept⟩ := inv.handle step.1
    exact Except.ok.inj (step.2.symm.trans same) ▸ kept
  refine ⟨fun _ => inv.leaf, ?_, ?_, ?_⟩
  · intro ref node found data
    obtain ⟨child, -, -, isChild⟩ :=
      Coins.next_child ((inv.inner found).mp data) (fun _ => 0) ⟨0, 0, 0⟩
    exact ⟨child, node, found, isChild⟩
  · intro call isLeaf
    obtain ⟨after, returned, -⟩ := inv.handle isLeaf
    exact ⟨after, returned⟩
  · intro ref state data
    have isLeaf : process.Leaf ref := inv.leaf.mpr (by simp [data])
    obtain ⟨node, found, -⟩ := isLeaf
    have here : process.Returns state ref := by
      refine ⟨fun _ => false, fun theRNG coins _ => Settles.of_succ ?_⟩
      simp only [walk, deref_of_node? found, ok_bind, data]
      exact settles_ok state
    obtain ⟨⟨bits, settles⟩, top, atTop⟩ := inv.climb found here
    obtain ⟨theRNG, ahead⟩ := Coins.exists_ahead bits
    exact ⟨fun theRNG => inv.walk_yields atTop theRNG _, theRNG, settles theRNG _ ahead⟩

/-- Witness: the right one of two states is left. -/
theorem selectState_live_right
    : ∃ process : ProcessTree Nat, Run Step (start 7) [.split 0 7 8, .remove 1] process
        ∧ ∃ theRNG, Settles (process.selectState theRNG) 8 := by
  have split : Step (start 7) (.split 0 7 8) _ := ⟨⟨_, rfl, rfl, rfl⟩, rfl⟩
  have run := (Run.nil.snoc split).snoc (⟨⟨_, rfl, rfl, rfl⟩, rfl⟩ : Step _ (.remove 1) _)
  exact ⟨_, run, ((selectState_live run).2.2.2 2 8 rfl).2⟩

end ProcessTree

end Woodpecker
