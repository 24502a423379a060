import Mathlib.Data.Set.Basic

/-! Sets that are split into parts, one part after the other. -/

namespace Woodpecker.Library

universe u

variable {α : Type u} {whole first rest : Set α} {parts : List (Set α)}

/-- The parts have elements, exclude each other, and have all elements together. -/
structure Partition (whole : Set α) (parts : List (Set α)) : Prop where
  nonempty : ∀ part ∈ parts, part.Nonempty
  exclusive : parts.Pairwise fun part other => ∀ a ∈ part, a ∉ other
  covers : ∀ a, a ∈ whole ↔ ∃ part ∈ parts, a ∈ part

theorem partition_single (nonempty : whole.Nonempty) : Partition whole [whole] where
  nonempty part member := List.mem_singleton.mp member ▸ nonempty
  exclusive := List.pairwise_singleton _ _
  covers a := by simp

theorem Partition.part_subset (partition : Partition whole parts) {part : Set α}
    (member : part ∈ parts)
    : part ⊆ whole :=
  fun a isIn => (partition.covers a).mpr ⟨part, member, isIn⟩

/-- A part comes before a partition of the rest. -/
theorem Partition.cons (partition : Partition rest parts) (nonempty : first.Nonempty)
    (apart : ∀ a ∈ first, a ∉ rest) (all : whole = first ∪ rest)
    : Partition whole (first :: parts) where
  nonempty := List.forall_mem_cons.mpr ⟨nonempty, partition.nonempty⟩
  exclusive := by
    refine List.pairwise_cons.mpr ⟨fun part member a isFirst isIn => ?_, partition.exclusive⟩
    exact apart a isFirst (partition.part_subset member isIn)
  covers a := by
    simp [all, partition.covers, exists_eq_or_imp]

/-- What passes a test comes before a partition of what does not. -/
theorem Partition.cons_test {test : α → Prop} (partition : Partition { a ∈ whole | ¬ test a } parts)
    (nonempty : { a ∈ whole | test a }.Nonempty)
    : Partition whole ({ a ∈ whole | test a } :: parts) := by
  refine partition.cons nonempty ?_ ?_
  · intro a passes fails
    exact fails.2 passes.2
  · ext a
    by_cases passes : test a
    · simp [passes]
    · simp [passes]

/-- A part is split in its turn. -/
theorem Partition.replace {part : Set α} {before after : List (Set α)}
    (partition : Partition whole (before ++ part :: after)) (split : Partition part parts)
    : Partition whole (before ++ parts ++ after) := by
  have subset := @split.part_subset
  obtain ⟨nonempty, exclusive, covers⟩ := partition
  obtain ⟨nonempty', exclusive', covers'⟩ := split
  constructor <;> grind

/-- The classes of a function, one for each of its values. -/
theorem partition_classes {κ : Type u} {f : α → κ} {keys : List κ} (nodup : keys.Nodup)
    (values : ∀ key, key ∈ keys ↔ ∃ a ∈ whole, f a = key)
    : Partition whole (keys.map fun key => { a ∈ whole | f a = key }) where
  nonempty part member := by
    obtain ⟨key, isKey, rfl⟩ := List.mem_map.mp member
    exact (values key).mp isKey
  exclusive := by
    refine List.pairwise_map.mpr (nodup.imp fun different a one other => ?_)
    exact different (one.2.symm.trans other.2)
  covers a := by
    constructor
    · intro isIn
      exact ⟨_, List.mem_map_of_mem ((values (f a)).mpr ⟨a, isIn, rfl⟩), isIn, rfl⟩
    · intro isIn
      obtain ⟨part, member, isPart⟩ := isIn
      obtain ⟨key, isKey, rfl⟩ := List.mem_map.mp member
      exact isPart.1

end Woodpecker.Library
