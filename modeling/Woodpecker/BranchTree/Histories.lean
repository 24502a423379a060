import Woodpecker.BranchTree.Links

/-! Histories of branch tree calls as the executor makes them: a fork names an attached
state, or the tree is still empty, and a new state; a removal names an attached state.
-/

namespace Woodpecker

open Library Option

variable {σ : Type} [DecidableEq σ]

/-- The two calls that change a branch tree. -/
inductive TreeCall (σ : Type) where
  | addBranch (curState : σ) (dynInstrIdx : Nat) (otherState : σ)
  | removeState (curState : σ)

/-- What a caller guarantees: the forked state is attached unless the tree is empty, the
other state is new to the tree, and only attached states are removed.
-/
def TreeCall.Allowed (tree : BranchTree σ) : TreeCall σ → Prop
  | .addBranch cur _ other =>
    (tree.root = none ∨ tree.Attached cur) ∧ ¬tree.Attached other ∧ other ≠ cur
  | .removeState cur => tree.Attached cur

/-- Performs a call. -/
def TreeCall.apply (tree : BranchTree σ) : TreeCall σ → Except Fault (BranchTree σ)
  | .addBranch cur index other => tree.addBranch cur index other
  | .removeState cur => tree.removeState cur

/-- An allowed call that returns. -/
def TreeStep (tree : BranchTree σ) (call : TreeCall σ) (after : BranchTree σ) : Prop :=
  call.Allowed tree ∧ call.apply tree = .ok after

namespace BranchTree

variable {tree : BranchTree σ}

/-- An allowed fork returns a consistent tree in which both states are attached. -/
theorem Linked.addBranch (linked : tree.Linked) {cur other : σ}
    (known : tree.root = none ∨ tree.Attached cur) (fresh : ¬tree.Attached other)
    (different : other ≠ cur) (index : Nat)
    : ∃ after, tree.addBranch cur index other = .ok after
        ∧ after.Linked
        ∧ after.root ≠ none
        ∧ ∀ state, after.Attached state ↔ tree.Attached state ∨ state = cur ∨ state = other := by
  have detached : tree.parentBranch other = none := by
    simpa only [Attached, Bool.not_eq_true, isSome_eq_false_iff, isNone_iff_eq_none] using fresh
  have attached_iff {after : BranchTree σ} {place : Option (Nat × Fin 2)}
      (forked : tree.Forked after cur index other place) (state : σ)
      : after.Attached state ↔ tree.Attached state ∨ state = cur ∨ state = other := by
    simp only [Attached, forked.own]
    split
    · next either => simp [either]
    · next neither => simp [neither]
  rcases top : tree.root with _ | root
  · obtain ⟨after, returned, forked⟩ := addBranch_first linked top cur index other
    have consistent := forked.linked linked (fun _ => top) nofun detached different
    exact ⟨after, returned, consistent, by simp [forked.root], attached_iff forked⟩
  have attached : tree.Attached cur := by simpa [top] using known
  obtain ⟨leaf, own⟩ := isSome_iff_exists.mp attached
  obtain ⟨after, slot, returned, held, forked⟩ := addBranch_later linked top own index other
  have consistent : after.Linked := by
    refine forked.linked linked nofun ?_ detached different
    rintro _ _ ⟨⟩
    exact held
  exact ⟨after, returned, consistent, by simp [forked.root, top], attached_iff forked⟩

/-- An allowed removal returns a consistent tree without the state. -/
theorem Linked.removeState (linked : tree.Linked) {cur : σ} (attached : tree.Attached cur)
    : ∃ after, tree.removeState cur = .ok after
        ∧ after.Linked
        ∧ after.root ≠ none
        ∧ ∀ state, after.Attached state ↔ tree.Attached state ∧ state ≠ cur := by
  obtain ⟨leaf, own⟩ := isSome_iff_exists.mp attached
  rcases top : tree.root with _ | root
  · simp [linked.detached_of_rootless top] at own
  obtain ⟨after, slot, returned, held, removed⟩ := removeState_attached linked top own
  refine ⟨after, returned, removed.linked linked held, by simp [removed.root, top], ?_⟩
  intro state
  simp only [Attached, removed.own]
  split
  · next same => simp [same]
  · next other => simp [other]

variable {call : TreeCall σ}

/-- Every allowed call on a consistent tree returns, by the two update lemmas. -/
theorem Linked.returns (linked : tree.Linked) (allowed : call.Allowed tree)
    : ∃ after, call.apply tree = .ok after ∧ after.Linked := by
  cases call with
  | addBranch cur index other =>
    obtain ⟨known, fresh, different⟩ := allowed
    obtain ⟨after, returned, kept, _⟩ := linked.addBranch known fresh different index
    exact ⟨after, returned, kept⟩
  | removeState cur =>
    obtain ⟨after, returned, kept, _⟩ := linked.removeState allowed
    exact ⟨after, returned, kept⟩

/-- Every step of the executor keeps the links consistent. -/
theorem Linked.step {after : BranchTree σ} (linked : tree.Linked) (step : TreeStep tree call after)
    : after.Linked := by
  obtain ⟨allowed, returned⟩ := step
  obtain ⟨result, same, kept⟩ := linked.returns allowed
  have equal : after = result := Except.ok.inj (returned.symm.trans same)
  exact equal ▸ kept

/-- After every history of allowed calls the tree is a tree: no assertion fails, attached
states and sub-branches have their own slots, both directions of each link agree, and one
path of slots leads from the root to each node.
-/
theorem histories_form_tree {calls : List (TreeCall σ)} {tree : BranchTree σ}
    (run : Run TreeStep empty calls tree)
    : (∀ call : TreeCall σ, call.Allowed tree → ∃ after, call.apply tree = .ok after)
      ∧ (∀ state, tree.Attached state
          → ∃! place : Nat × Fin 2, tree.stateAt place.1 place.2 = some state
              ∧ tree.parentBranch state = some place.1)
      ∧ (∀ ref slot state, tree.stateAt ref slot = some state → tree.parentBranch state = some ref)
      ∧ (∀ ref slot, tree.stateAt ref slot = none ∨ tree.branchAt ref slot = none)
      ∧ (∀ ref below, tree.parentAt below = some ref ↔ ∃ slot, tree.branchAt ref slot = some below)
      ∧ (tree.root = none → tree.nodes = [])
      ∧ ∀ root, tree.root = some root
          → ∀ ref, ref < tree.nodes.length
            ↔ ∃! path, descend tree.branchAt path root = some ref := by
  have linked := run.invariant .empty Linked.step
  refine ⟨?_, ?_, fun _ _ _ => linked.stateUp, ?_, ?_, linked.rootless, ?_⟩
  · intro call allowed
    obtain ⟨after, returned, _⟩ := linked.returns allowed
    exact ⟨after, returned⟩
  · intro state attached
    obtain ⟨ref, own⟩ := isSome_iff_exists.mp attached
    obtain ⟨slot, held⟩ := linked.stateDown own
    refine ⟨(ref, slot), ⟨held, own⟩, ?_⟩
    rintro ⟨ref', slot'⟩ ⟨held', own'⟩
    have sameRef : ref = ref' := mem_unique own own'
    subst sameRef
    exact congrArg (Prod.mk ref) (linked.oneState held' held)
  · intro ref slot
    cases held : tree.stateAt ref slot with
    | none => exact Or.inl rfl
    | some state => exact Or.inr (linked.apart held)
  · intro ref below
    exact ⟨fun link => (linked.down link).2, fun ⟨_, link⟩ => linked.back link⟩
  · intro root top ref
    constructor
    · exact fun bound => (linked.treeLinks top).existsUnique_path bound
    -- The last step of a path is a link, and links only lead to allocated nodes.
    · rintro ⟨path, reached, _⟩
      cases path using List.reverseRecOn with
      | nil =>
        have same : root = ref := some.inj reached
        exact same ▸ (linked.rooted top).1
      | append_singleton first slot =>
        rw [descend_append] at reached
        obtain ⟨_, _, last⟩ := bind_eq_some_iff.mp reached
        exact parentAt_bound (linked.back last)

/-- Two forks of one state and the removal of the first sibling. -/
theorem histories_form_tree_twoForks
    : ∃ tree : BranchTree Nat,
        Run TreeStep empty [.addBranch 0 5 1, .addBranch 0 6 2, .removeState 1] tree
        ∧ tree.nodes.length = 2
        ∧ ∃! path, descend tree.branchAt path 0 = some 1 := by
  have run : Run TreeStep (empty : BranchTree Nat)
      ([] ++ [.addBranch 0 5 1] ++ [.addBranch 0 6 2] ++ [.removeState 1]) _ :=
    .snoc (.snoc (.snoc .nil ⟨⟨.inl rfl, by decide, by decide⟩, rfl⟩)
      ⟨⟨.inr rfl, by decide, by decide⟩, rfl⟩) ⟨rfl, rfl⟩
  have shape := (histories_form_tree run).2.2.2.2.2.2
  exact ⟨_, run, rfl, (shape 0 rfl 1).mp (by decide)⟩

end BranchTree

end Woodpecker
