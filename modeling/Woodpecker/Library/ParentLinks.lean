import Mathlib.Data.List.Induction

/-! Structures whose elements point to a parent and whose parents point back through slots.
Every parent has a smaller rank than its child, so following parents ends. The chain of
parents above an element and the path of slots down to it are then unique.
-/

namespace Woodpecker.Library

universe u v

variable {α : Type u} {ι : Type v}

/-- `ParentChain parent bottom chain` lists `bottom`, its parent, and so on to the top. -/
inductive ParentChain (parent : α → Option α) : α → List α → Prop
  | top {bottom : α} (last : parent bottom = none) : ParentChain parent bottom [bottom]
  | up {bottom next : α} {chain : List α} (link : parent bottom = some next)
    (above : ParentChain parent next chain)
    : ParentChain parent bottom (bottom :: chain)

/-- Follows a path of slots downwards. -/
def descend (child : α → ι → Option α) : List ι → α → Option α
  | [], element => some element
  | slot :: path, element => (child element slot).bind (descend child path)

variable {parent : α → Option α} {child : α → ι → Option α} {rank : α → Nat}

/-- Following parents of falling rank ends, by induction on the rank. -/
theorem ParentChain.exists_of_rank (rank : α → Nat)
    (falls : ∀ {element above}, parent element = some above → rank above < rank element)
    (bottom : α)
    : ∃ chain, ParentChain parent bottom chain := by
  induction bound : rank bottom using Nat.strongRecOn generalizing bottom with
  | _ _ ih =>
    cases link : parent bottom with
    | none => exact ⟨[bottom], .top link⟩
    | some next =>
      obtain ⟨chain, above⟩ := ih (rank next) (bound ▸ falls link) next rfl
      exact ⟨bottom :: chain, .up link above⟩

/-- Descending along one more slot at the end of a path. -/
theorem descend_append (path : List ι) (slot : ι) (element : α)
    : descend child (path ++ [slot]) element
      = (descend child path element).bind (fun reached => child reached slot) := by
  induction path generalizing element with
  | nil => cases found : child element slot <;> simp [descend, found]
  | cons head rest ih => cases found : child element head <;> simp [descend, found, ih]

/-- Parent and child links agree, each link uses one slot, and every valid element except
the root has a parent of smaller rank: the elements form a tree.
-/
structure TreeLinks (parent : α → Option α) (child : α → ι → Option α)
    (valid : α → Prop) (root : α) (rank : α → Nat)
    : Prop where
  top : parent root = none
  onlyTop : ∀ {element}, valid element → parent element = none → element = root
  down : ∀ {element above}, parent element = some above → ∃ slot, child above slot = some element
  back : ∀ {element slot below}, child element slot = some below → parent below = some element
  oneSlot
    : ∀ {element slot other below},
        child element slot = some below → child element other = some below → slot = other
  falls : ∀ {element above}, parent element = some above → valid above ∧ rank above < rank element

/-- A path that ends at an element with a parent passes through that parent last.
Witness: the back link of the last slot.
-/
theorem TreeLinks.path_last {valid : α → Prop} {root : α}
    (links : TreeLinks parent child valid root rank) {path : List ι} {element above : α}
    (reached : descend child path root = some element) (link : parent element = some above)
    : ∃ first slot, path = first ++ [slot]
        ∧ descend child first root = some above
        ∧ child above slot = some element := by
  cases path using List.reverseRecOn with
  | nil =>
    have same : root = element := Option.some.inj reached
    rw [← same, links.top] at link
    cases link
  | append_singleton first slot =>
    rw [descend_append] at reached
    obtain ⟨middle, found, last⟩ := Option.bind_eq_some_iff.mp reached
    have same := Option.some.inj ((links.back last).symm.trans link)
    subst same
    exact ⟨first, slot, rfl, found, last⟩

/-- Every valid element is reached from the root along exactly one path of slots, by
induction on its rank.
-/
theorem TreeLinks.existsUnique_path {valid : α → Prop} {root : α}
    (links : TreeLinks parent child valid root rank) {element : α} (known : valid element)
    : ∃! path, descend child path root = some element := by
  induction bound : rank element using Nat.strongRecOn generalizing element with
  | _ _ ih =>
    cases link : parent element with
    | none =>
      have same := links.onlyTop known link
      subst same
      refine ⟨[], rfl, ?_⟩
      intro path reached
      cases path using List.reverseRecOn with
      | nil => rfl
      | append_singleton first slot =>
        rw [descend_append] at reached
        obtain ⟨middle, _, last⟩ := Option.bind_eq_some_iff.mp reached
        simp [links.back last] at link
    | some above =>
      obtain ⟨aboveKnown, smaller⟩ := links.falls link
      obtain ⟨first, reached, only⟩ := ih (rank above) (bound ▸ smaller) aboveKnown rfl
      obtain ⟨slot, last⟩ := links.down link
      refine ⟨first ++ [slot], by simp [descend_append, reached, last], ?_⟩
      intro path other
      obtain ⟨start, final, rfl, startReached, finalLink⟩ := links.path_last other link
      rw [only start startReached, links.oneSlot finalLink last]

end Woodpecker.Library
