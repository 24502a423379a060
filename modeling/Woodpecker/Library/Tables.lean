import Mathlib.Data.List.Forall2

/-! Finite maps as lists of entries in the order of their keys, the order in which an
ordered map is iterated.
-/

namespace Woodpecker.Library

open List

universe u v

abbrev Table (Key : Type u) (Value : Type v) := List (Key × Value)

namespace Table

variable {Key : Type u} {Value : Type v} [DecidableEq Key] [LT Key] [DecidableLT Key]

def find? (table : Table Key Value) (key : Key) : Option Value :=
  List.lookup key table

/-- Enter a key that is not there yet; a key that is there keeps its value. -/
def insertNew (table : Table Key Value) (key : Key) (value : Value) : Table Key Value :=
  match table with
  | [] => [(key, value)]
  | (other, kept) :: rest =>
    if key = other then (other, kept) :: rest
    else if key < other then (key, value) :: (other, kept) :: rest
    else (other, kept) :: insertNew rest key value

/-- Enter a key or replace its value. -/
def assign (table : Table Key Value) (key : Key) (value : Value) : Table Key Value :=
  match table with
  | [] => [(key, value)]
  | (other, kept) :: rest =>
    if key = other then (key, value) :: rest
    else if key < other then (key, value) :: (other, kept) :: rest
    else (other, kept) :: assign rest key value

def erase (table : Table Key Value) (key : Key) : Table Key Value :=
  List.filter (fun entry => entry.1 ≠ key) table

omit [LT Key] [DecidableLT Key] in
theorem find?_cons (entry : Key × Value) (table : Table Key Value) (key : Key)
    : find? (entry :: table) key = if key = entry.1 then some entry.2 else table.find? key := by
  obtain ⟨first, value⟩ := entry
  by_cases same : key = first
  · simp [find?, same]
  · simp [find?, lookup_cons, same, beq_false_of_ne same]

variable {table : Table Key Value} {key : Key}

omit [LT Key] [DecidableLT Key] in
/-- What is found is there, by induction on the table. -/
theorem mem_of_find? {value : Value} (found : table.find? key = some value)
    : (key, value) ∈ table := by
  induction table with
  | nil => cases found
  | cons entry rest ih =>
    rw [find?_cons] at found
    split at found
    next same =>
      cases found
      subst same
      exact mem_cons_self
    · exact mem_cons_of_mem _ (ih found)

omit [LT Key] [DecidableLT Key] in
theorem find?_eq_none_of_notMem (absent : key ∉ table.map Prod.fst)
    : table.find? key = none := by
  rw [Option.eq_none_iff_forall_ne_some]
  intro value found
  exact absent (mem_map.mpr ⟨_, mem_of_find? found, rfl⟩)

omit [LT Key] [DecidableLT Key] in
/-- Looking up in two tables with the same keys, by induction on them. -/
theorem find?_forall₂ {Other : Type*} (R : Key → Value → Other → Prop) {other : Table Key Other}
    (entries : Forall₂ (fun one two => two.1 = one.1 ∧ R one.1 one.2 two.2) table other)
    {value : Value} (found : table.find? key = some value)
    : ∃ image, other.find? key = some image ∧ R key value image := by
  induction entries with
  | nil => cases found
  | cons first _ ih =>
    rw [find?_cons] at found ⊢
    rw [first.1]
    split at found
    next same =>
      cases found
      subst same
      exact ⟨_, if_pos rfl, first.2⟩
    next differ =>
      rw [if_neg differ]
      exact ih found

/-- Looking up after an assignment. -/
theorem find?_assign (table : Table Key Value) (key : Key) (value : Value) (other : Key)
    : (table.assign key value).find? other
      = if other = key then some value else table.find? other := by
  induction table with
  | nil => simp only [assign, find?_cons]
  | cons entry rest ih =>
    simp only [assign]
    split
    next here =>
      subst here
      simp only [find?_cons]
      split <;> rfl
    next elsewhere =>
      split
      · simp only [find?_cons]
      · simp only [find?_cons, ih]
        by_cases same : other = key
        · subst same
          simp [elsewhere]
        · simp [same]

/-- The keys after an entry is made. -/
theorem isSome_find?_insertNew (table : Table Key Value) (key : Key) (value : Value) (other : Key)
    : ((table.insertNew key value).find? other).isSome
      ↔ other = key ∨ (table.find? other).isSome := by
  induction table with
  | nil =>
    simp only [insertNew, find?_cons]
    by_cases same : other = key <;> simp [same, find?]
  | cons entry rest ih =>
    simp only [insertNew]
    split
    next here =>
      subst here
      simp only [find?_cons]
      by_cases same : other = entry.1 <;> simp [same]
    next elsewhere =>
      split
      · simp only [find?_cons]
        by_cases same : other = key <;> simp [same]
      · simp only [find?_cons]
        by_cases first : other = entry.1
        · simp [first]
        · simp [first, ih]

/-- Looking up after an entry is made for a new key. -/
theorem find?_insertNew (absent : table.find? key = none) (value : Value) (other : Key)
    : (table.insertNew key value).find? other
      = if other = key then some value else table.find? other := by
  induction table with
  | nil => simp only [insertNew, find?_cons]
  | cons entry rest ih =>
    rw [find?_cons] at absent
    split at absent
    · cases absent
    next elsewhere =>
      simp only [insertNew, if_neg elsewhere]
      split
      · simp only [find?_cons]
      · simp only [find?_cons, ih absent]
        by_cases same : other = key
        · subst same
          simp [elsewhere]
        · simp [same]

/-- An assignment to a new key adds one entry. -/
theorem assign_perm (absent : table.find? key = none) (value : Value)
    : (table.assign key value).Perm ((key, value) :: table) := by
  induction table with
  | nil => exact .refl _
  | cons entry rest ih =>
    rw [find?_cons] at absent
    split at absent
    · cases absent
    next elsewhere =>
      simp only [assign, if_neg elsewhere]
      split
      · exact .refl _
      · exact ((ih absent).cons entry).trans (.swap _ _ _)

omit [LT Key] [DecidableLT Key] in
/-- Looking up after an entry is erased. -/
theorem find?_erase (table : Table Key Value) (key other : Key)
    : (table.erase key).find? other = if other = key then none else table.find? other := by
  induction table with
  | nil => simp [erase, find?]
  | cons entry rest ih =>
    unfold erase at ih ⊢
    by_cases erased : entry.1 = key
    · subst erased
      by_cases same : other = entry.1
      · simpa [same] using ih
      · simpa [find?_cons, same] using ih
    · by_cases first : other = entry.1
      · subst first
        simp [erased, find?_cons]
      · simpa [erased, find?_cons, first] using ih

/-- Erasing a key that was just assigned. -/
theorem erase_assign (table : Table Key Value) (key : Key) (value : Value)
    : (table.assign key value).erase key = table.erase key := by
  induction table with
  | nil => simp [assign, erase]
  | cons entry rest ih =>
    simp only [assign]
    split
    next here => simp [erase, here]
    next elsewhere =>
      split
      · simp [erase]
      · unfold erase at ih ⊢
        rw [filter_cons_of_pos (by simpa using Ne.symm elsewhere),
          filter_cons_of_pos (by simpa using Ne.symm elsewhere), ih]

/-- Keys in strictly ascending order. -/
def Ordered (table : Table Key Value) : Prop :=
  table.Pairwise fun first second => first.1 < second.1

section Order

variable [IsStrictTotalOrder Key (· < ·)] {table : Table Key Value} {key : Key} {value : Value}

section

variable (ordered : table.Ordered)
include ordered

omit [DecidableLT Key] in
/-- In an ordered table every entry can be looked up. -/
theorem find?_eq_some_iff
    : table.find? key = some value ↔ (key, value) ∈ table := by
  induction table with
  | nil => simp [find?]
  | cons entry rest ih =>
    obtain ⟨first, kept⟩ := entry
    obtain ⟨smaller, restOrdered⟩ := pairwise_cons.mp ordered
    rw [find?_cons, mem_cons, Prod.mk.injEq]
    by_cases same : key = first
    · subst same
      have absent : (key, value) ∉ rest := fun member => irrefl key (smaller _ member)
      simp [absent, eq_comm]
    · simp [same, ih restOrdered]

omit [DecidableLT Key] in
/-- A key before all those of a table is not in it. -/
theorem find?_eq_none_of_lt (smaller : ∀ entry ∈ table, key < entry.1)
    : table.find? key = none := by
  rw [Option.eq_none_iff_forall_ne_some]
  intro value found
  have member := (find?_eq_some_iff ordered).mp found
  exact irrefl key (smaller (key, value) member)

/-- The entries after an assignment. -/
theorem mem_assign_iff {entry : Key × Value}
    : entry ∈ table.assign key value
      ↔ entry = (key, value) ∨ (entry ∈ table ∧ entry.1 ≠ key) := by
  induction table with
  | nil => simp [assign]
  | cons head rest ih =>
    obtain ⟨first, kept⟩ := head
    obtain ⟨smaller, restOrdered⟩ := pairwise_cons.mp ordered
    simp only [assign]
    split
    next here =>
      subst here
      have apart : entry ∈ rest → entry.1 ≠ key := fun member same =>
        irrefl key (same ▸ smaller entry member)
      grind
    next elsewhere =>
      split
      next before =>
        have apart : entry ∈ rest → entry.1 ≠ key := fun member same =>
          irrefl key (trans_of (· < ·) before (same ▸ smaller entry member))
        grind
      · simp only [mem_cons, ih restOrdered]
        grind

theorem Ordered.assign (key : Key) (value : Value)
    : (table.assign key value).Ordered := by
  induction table with
  | nil => simp [Table.assign, Ordered]
  | cons head rest ih =>
    obtain ⟨first, kept⟩ := head
    obtain ⟨smaller, restOrdered⟩ := pairwise_cons.mp ordered
    simp only [Table.assign]
    split
    next here =>
      subst here
      exact pairwise_cons.mpr ⟨smaller, restOrdered⟩
    next elsewhere =>
      split
      next before =>
        refine pairwise_cons.mpr ⟨forall_mem_cons.mpr ⟨before, fun entry later => ?_⟩, ordered⟩
        exact trans_of (· < ·) before (smaller entry later)
      next notBefore =>
        have after : first < key := by
          rcases trichotomous_of (· < ·) first key with less | same | greater
          · exact less
          · exact absurd same.symm elsewhere
          · exact absurd greater notBefore
        refine pairwise_cons.mpr ⟨?_, ih restOrdered⟩
        intro entry member
        rcases (mem_assign_iff restOrdered).mp member with same | ⟨later, -⟩
        · subst same
          exact after
        · exact smaller entry later

/-- An entry is made where its key belongs, unless the key is there. -/
theorem insertNew_eq (key : Key) (value : Value)
    : table.insertNew key value = table.assign key ((table.find? key).getD value) := by
  induction table with
  | nil => rfl
  | cons head rest ih =>
    obtain ⟨smaller, restOrdered⟩ := pairwise_cons.mp ordered
    simp only [insertNew, assign, find?_cons]
    split
    next here => simp [here]
    next elsewhere =>
      split
      next before =>
        have absent := find?_eq_none_of_lt restOrdered fun entry member =>
          trans_of (· < ·) before (smaller entry member)
        simp [absent]
      · rw [ih restOrdered]

omit [DecidableLT Key] [IsStrictTotalOrder Key (· < ·)] in
theorem Ordered.erase (key : Key) : (table.erase key).Ordered :=
  Pairwise.filter _ ordered

omit [DecidableLT Key] in
/-- Erasing a key takes its entry away. -/
theorem Ordered.perm_erase (found : table.find? key = some value)
    : table.Perm ((key, value) :: table.erase key) := by
  induction table with
  | nil => cases found
  | cons entry rest ih =>
    obtain ⟨smaller, restOrdered⟩ := pairwise_cons.mp ordered
    rw [find?_cons] at found
    split at found
    next same =>
      subst same
      cases found
      have others : Table.erase (entry :: rest) entry.1 = rest := by
        rw [Table.erase, filter_cons_of_neg (by simp), filter_eq_self]
        intro other member
        have differ : other.1 ≠ entry.1 := fun same =>
          irrefl entry.1 (same ▸ smaller other member)
        simpa using differ
      rw [others]
    next differ =>
      have kept : Table.erase (entry :: rest) key = entry :: Table.erase rest key := by
        simp [Table.erase, Ne.symm differ]
      rw [kept]
      exact ((ih restOrdered found).cons entry).trans (.swap _ _ _)

/-- An assignment replaces the entry of its key. -/
theorem Ordered.assign_perm (key : Key) (value : Value)
    : (table.assign key value).Perm ((key, value) :: table.erase key) := by
  have found : (table.assign key value).find? key = some value := by simp [find?_assign]
  rw [← erase_assign table key value]
  exact (ordered.assign key value).perm_erase found

omit [DecidableLT Key] in
/-- A key has at most one entry. -/
theorem Ordered.countP_key (key : Key)
    : table.countP (fun entry => entry.1 = key) = if (table.find? key).isSome then 1 else 0 := by
  induction table with
  | nil => simp [find?]
  | cons entry rest ih =>
    obtain ⟨smaller, restOrdered⟩ := pairwise_cons.mp ordered
    rw [countP_cons, ih restOrdered, find?_cons]
    by_cases same : key = entry.1
    · subst same
      have absent := find?_eq_none_of_lt restOrdered smaller
      simp [absent]
    · simp [same, Ne.symm same]

end

omit [DecidableEq Key] [DecidableLT Key] in
/-- Before an entry are those with smaller keys. -/
theorem Ordered.mem_before_iff {before after : Table Key Value} {entry other : Key × Value}
    (ordered : (before ++ entry :: after : Table Key Value).Ordered)
    (member : other ∈ before ++ entry :: after)
    : other ∈ before ↔ other.1 < entry.1 := by
  obtain ⟨-, later, smaller⟩ := pairwise_append.mp ordered
  constructor
  · intro early
    exact smaller other early entry (by simp)
  · intro less
    rcases mem_append.mp member with early | late
    · exact early
    rcases mem_cons.mp late with same | beyond
    · exact absurd (same ▸ less) (irrefl_of (· < ·) entry.1)
    · have greater := (pairwise_cons.mp later).1 other beyond
      exact absurd (trans_of (· < ·) less greater) (irrefl_of (· < ·) other.1)

end Order

end Table

instance uint64StrictTotalOrder : IsStrictTotalOrder UInt64 (· < ·) where
  irrefl := UInt64.lt_irrefl
  trans _ _ _ := UInt64.lt_trans
  trichotomous _ _ notLess notGreater :=
    UInt64.le_antisymm (UInt64.not_lt.mp notGreater) (UInt64.not_lt.mp notLess)

end Woodpecker.Library
