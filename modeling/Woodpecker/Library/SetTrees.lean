import Woodpecker.Library.Budgets

/-! Maps whose keys are sets, kept as trees.

A set is the path of its elements in ascending order. Whatever order that is, an entry that is
found for a subset or for a superset was inserted for one. The property that is asked of a
value is itself computed, within a budget.
-/

namespace Woodpecker.Library

universe u w

mutual

/-- A node that may be the end of a set, with the nodes below it. -/
inductive SetTree (K : Type u) (V : Type) where
  | node (value : Option V) (children : SetForest K V)

/-- The children of a node, in ascending order. -/
inductive SetForest (K : Type u) (V : Type) where
  | nil
  | cons (key : K) (child : SetTree K V) (rest : SetForest K V)

end

variable {K : Type u} {V : Type}

def SetTree.empty : SetTree K V :=
  .node none .nil

/-- The tree of one entry. -/
def SetTree.single : List K → V → SetTree K V
  | [], value => .node (some value) .nil
  | elt :: set, value => .node none (.cons elt (SetTree.single set value) .nil)

section Operations

variable {ε : Type w} [DecidableEq K] (less : K → K → Bool) (p : V → Except ε Bool)

mutual

def SetTree.insert (tree : SetTree K V) (set : List K) (value : V) : SetTree K V :=
  match tree, set with
  | .node _ children, [] => .node (some value) children
  | .node old children, elt :: set => .node old (children.insert elt set value)

/-- The child for the element is made if there is none. -/
def SetForest.insert (children : SetForest K V) (elt : K) (set : List K) (value : V)
    : SetForest K V :=
  match children with
  | .nil => .cons elt (.single set value) .nil
  | .cons key child rest =>
    if key = elt then .cons key (child.insert set value) rest
    else if less elt key then .cons elt (.single set value) (.cons key child rest)
    else .cons key child (rest.insert elt set value)

end

mutual

def SetTree.lookup (tree : SetTree K V) (set : List K) : Option V :=
  match tree, set with
  | .node value _, [] => value
  | .node _ children, elt :: set => children.lookup elt set

def SetForest.lookup (children : SetForest K V) (elt : K) (set : List K) : Option V :=
  match children with
  | .nil => none
  | .cons key child rest => if key = elt then child.lookup set else rest.lookup elt set

end

/-- The value at a node, if it has the property. -/
def accepted (value : Option V) : Except ε (Option V) :=
  match value with
  | none => .ok none
  | some value => do if ← p value then .ok (some value) else .ok none

/-- The second search is made where the first one finds nothing. -/
def searchThen (first second : Except ε (Option V)) : Except ε (Option V) := do
  match ← first with
  | some found => .ok (some found)
  | none => second

mutual

/-- The value of a subset that has the property. -/
def SetTree.findSubset (tree : SetTree K V) (set : List K) : Except ε (Option V) :=
  match tree with
  | .node value children =>
    searchThen (accepted p value) (if set = [] then .ok none else children.findSubset set)

/-- The elements and the children are gone through side by side. Elements below the child are
left behind, as children below the element are.
-/
def SetForest.findSubset (children : SetForest K V) (set : List K) : Except ε (Option V) :=
  match children with
  | .nil => .ok none
  | .cons key child rest =>
    match set.dropWhile (less · key) with
    | [] => .ok none
    | elt :: set =>
      if elt = key then
        searchThen (child.findSubset set) (if set = [] then .ok none else rest.findSubset set)
      else rest.findSubset (elt :: set)

end

mutual

/-- The value of a superset that has the property. The next element is looked for below every
child, and then as a child.
-/
def SetTree.findSuperset (tree : SetTree K V) (set : List K) : Except ε (Option V) :=
  match tree, set with
  | .node value children, [] => searchThen (accepted p value) (children.findBelow [])
  | .node _ children, elt :: set =>
    searchThen (children.findBelow (elt :: set)) (children.findAt elt set)

def SetForest.findBelow (children : SetForest K V) (set : List K) : Except ε (Option V) :=
  match children with
  | .nil => .ok none
  | .cons _ child rest => searchThen (child.findSuperset set) (rest.findBelow set)

def SetForest.findAt (children : SetForest K V) (elt : K) (set : List K) : Except ε (Option V) :=
  match children with
  | .nil => .ok none
  | .cons key child rest => if key = elt then child.findSuperset set else rest.findAt elt set

end

end Operations

-- Entries

mutual

/-- The tree has the entry. -/
def SetTree.Has (tree : SetTree K V) (path : List K) (value : V) : Prop :=
  match tree, path with
  | .node here _, [] => here = some value
  | .node _ children, elt :: path => children.Has elt path value

def SetForest.Has (children : SetForest K V) (elt : K) (path : List K) (value : V) : Prop :=
  match children with
  | .nil => False
  | .cons key child rest => key = elt ∧ child.Has path value ∨ rest.Has elt path value

end

variable {value found : V}

theorem SetTree.empty_has {path : List K} : ¬ empty.Has path value := by
  cases path with
  | nil => exact nofun
  | cons elt path => exact id

theorem SetTree.single_has {set path : List K} (has : (single set value).Has path found)
    : path = set ∧ found = value := by
  induction set generalizing path with
  | nil =>
    cases path with
    | nil => exact ⟨rfl, (Option.some.inj has).symm⟩
    | cons elt path => cases has
  | cons elt set ih =>
    cases path with
    | nil => cases has
    | cons elt' path =>
      rcases has with ⟨rfl, has⟩ | has
      · obtain ⟨rfl, same⟩ := ih has
        exact ⟨rfl, same⟩
      · cases has

variable [DecidableEq K] {less : K → K → Bool}

mutual

/-- An insertion adds no other entry. -/
theorem SetTree.insert_has {tree : SetTree K V} {set path : List K}
    (has : (tree.insert less set value).Has path found)
    : tree.Has path found ∨ path = set ∧ found = value := by
  obtain ⟨here, children⟩ := tree
  rcases set with _ | ⟨elt, set⟩
  · cases path with
    | nil => exact .inr ⟨rfl, (Option.some.inj has).symm⟩
    | cons elt path => exact .inl has
  cases path with
  | nil => exact .inl has
  | cons elt' path =>
    have inserted : (children.insert less elt set value).Has elt' path found := has
    rcases SetForest.insert_has inserted with old | ⟨rfl, rfl, same⟩
    · exact .inl old
    · exact .inr ⟨rfl, same⟩
termination_by structural tree

theorem SetForest.insert_has {children : SetForest K V} {elt elt' : K} {set path : List K}
    (has : (children.insert less elt set value).Has elt' path found)
    : children.Has elt' path found ∨ elt' = elt ∧ path = set ∧ found = value := by
  rcases children with _ | ⟨key, child, rest⟩
  · rcases has with ⟨rfl, has⟩ | has
    · exact .inr ⟨rfl, SetTree.single_has has⟩
    · cases has
  rw [SetForest.insert] at has
  split at has
  next isKey =>
    rcases has with ⟨rfl, has⟩ | has
    · exact (SetTree.insert_has has).imp (fun old => .inl ⟨rfl, old⟩) fun new => ⟨isKey, new⟩
    · exact .inl (.inr has)
  split at has
  · rcases has with ⟨rfl, has⟩ | has
    · exact .inr ⟨rfl, SetTree.single_has has⟩
    · exact .inl has
  rcases has with has | has
  · exact .inl (.inl has)
  · exact (SetForest.insert_has has).imp_left .inr
termination_by structural children

end

mutual

theorem SetTree.lookup_has {tree : SetTree K V} {set : List K}
    (looked : tree.lookup set = some found)
    : tree.Has set found := by
  obtain ⟨here, children⟩ := tree
  cases set with
  | nil => exact looked
  | cons elt set =>
    have below : children.lookup elt set = some found := looked
    exact SetForest.lookup_has below
termination_by structural tree

theorem SetForest.lookup_has {children : SetForest K V} {elt : K} {set : List K}
    (looked : children.lookup elt set = some found)
    : children.Has elt set found := by
  cases children with
  | nil => cases looked
  | cons key child rest =>
    rw [SetForest.lookup] at looked
    split at looked
    next isKey => exact .inl ⟨isKey, SetTree.lookup_has looked⟩
    · exact .inr (SetForest.lookup_has looked)
termination_by structural children

end

-- Searches

section Searches

variable {ε : Type w} {p : Nat → V → Except ε Bool} {good : V → Prop}

/-- A value is found only if it is a good one. -/
def Finds (good : V → Prop) (search : Nat → Except ε (Option V)) : Prop :=
  Yields search fun result => ∀ found ∈ result, good found

theorem finds_none : Finds good fun _ => (.ok none : Except ε (Option V)) :=
  yields_ok nofun

theorem Finds.searchThen {first second : Nat → Except ε (Option V)} (one : Finds good first)
    (two : Finds good second)
    : Finds good fun fuel => searchThen (first fuel) (second fuel) := by
  refine Yields.bind one fun result isGood => ?_
  cases result with
  | none => exact two
  | some found => exact yields_ok isGood

/-- The property of the value can be computed, and where it holds the value is good. -/
def Tests (p : Nat → V → Except ε Bool) (good : V → Prop) (value : V) : Prop :=
  Yields (fun fuel => p fuel value) fun holds => holds = true → good value

theorem finds_accepted {value : Option V} (tests : ∀ found ∈ value, Tests p good found)
    : Finds good fun fuel => accepted (p fuel) value := by
  rcases value with _ | found
  · exact finds_none
  refine Yields.bind (tests found rfl) fun holds isGood => ?_
  cases holds with
  | true =>
    refine yields_ok fun value isFound => ?_
    cases isFound
    exact isGood rfl
  | false => exact finds_none

mutual

/-- What is found for a subset is the value of one, with the property. -/
theorem SetTree.findSubset_finds {tree : SetTree K V} {set : List K}
    (tests : ∀ path value, tree.Has path value → path ⊆ set → Tests p good value)
    : Finds good fun fuel => tree.findSubset less (p fuel) set := by
  obtain ⟨here, children⟩ := tree
  simp only [SetTree.findSubset]
  refine Finds.searchThen (finds_accepted fun found isHere =>
    tests [] found isHere (List.nil_subset _)) ?_
  split
  · exact finds_none
  · exact SetForest.findSubset_finds fun elt path => tests (elt :: path)
termination_by structural tree

theorem SetForest.findSubset_finds {children : SetForest K V} {set : List K}
    (tests : ∀ elt path value, children.Has elt path value → elt :: path ⊆ set
      → Tests p good value)
    : Finds good fun fuel => children.findSubset less (p fuel) set := by
  rcases children with _ | ⟨key, child, rest⟩
  · exact finds_none
  have dropped : set.dropWhile (less · key) ⊆ set := (List.dropWhile_sublist _).subset
  simp only [SetForest.findSubset]
  split
  · exact finds_none
  next elt more isDropped =>
    rw [isDropped] at dropped
    obtain ⟨isElt, areMore⟩ := List.cons_subset.mp dropped
    -- Of what is left of the set, what is left of the children has a subset.
    have later {left : List K} (isLeft : left ⊆ set)
        : Finds good fun fuel => rest.findSubset less (p fuel) left :=
      SetForest.findSubset_finds fun elt path value has subset =>
        tests elt path value (.inr has) (List.Subset.trans subset isLeft)
    split
    next isKey =>
      refine Finds.searchThen (SetTree.findSubset_finds fun path value has subset => ?_) ?_
      · refine tests elt path value (.inl ⟨isKey.symm, has⟩) ?_
        exact List.cons_subset.mpr ⟨isElt, List.Subset.trans subset areMore⟩
      split
      · exact finds_none
      · exact later areMore
    · exact later dropped
termination_by structural children

end

mutual

/-- What is found for a superset is the value of one, with the property. -/
theorem SetTree.findSuperset_finds {tree : SetTree K V} {set : List K}
    (tests : ∀ path value, tree.Has path value → set ⊆ path → Tests p good value)
    : Finds good fun fuel => tree.findSuperset (p fuel) set := by
  obtain ⟨here, children⟩ := tree
  have below : Finds good fun fuel => children.findBelow (p fuel) set :=
    SetForest.findBelow_finds fun elt path value has superset =>
      tests (elt :: path) value has (List.subset_cons_of_subset elt superset)
  cases set with
  | nil =>
    have here := finds_accepted fun found isHere => tests [] found isHere (List.nil_subset _)
    exact Finds.searchThen here below
  | cons elt set =>
    refine Finds.searchThen below (SetForest.findAt_finds fun path value has superset => ?_)
    exact tests (elt :: path) value has (List.cons_subset_cons elt superset)
termination_by structural tree

theorem SetForest.findBelow_finds {children : SetForest K V} {set : List K}
    (tests : ∀ elt path value, children.Has elt path value → set ⊆ path → Tests p good value)
    : Finds good fun fuel => children.findBelow (p fuel) set := by
  cases children with
  | nil => exact finds_none
  | cons key child rest =>
    refine Finds.searchThen ?_ ?_
    · exact SetTree.findSuperset_finds fun path value has =>
        tests key path value (.inl ⟨rfl, has⟩)
    · exact SetForest.findBelow_finds fun elt path value has =>
        tests elt path value (.inr has)
termination_by structural children

theorem SetForest.findAt_finds {children : SetForest K V} {elt : K} {set : List K}
    (tests : ∀ path value, children.Has elt path value → set ⊆ path → Tests p good value)
    : Finds good fun fuel => children.findAt (p fuel) elt set := by
  rcases children with _ | ⟨key, child, rest⟩
  · exact finds_none
  simp only [SetForest.findAt]
  split
  next isKey =>
    exact SetTree.findSuperset_finds fun path value has =>
      tests path value (.inl ⟨isKey, has⟩)
  · exact SetForest.findAt_finds fun path value has => tests path value (.inr has)
termination_by structural children

end

end Searches

end Woodpecker.Library
