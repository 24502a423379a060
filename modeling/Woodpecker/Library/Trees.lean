import Mathlib.Order.Compare

/-! Finite ordered trees with labels, compared by their labels and then by their subtrees from
left to right. If the labels are totally ordered, so are the trees.
-/

namespace Woodpecker.Library

universe u

inductive LabelTree (Label : Type u) where
  | node (label : Label) (kids : List (LabelTree Label))

namespace LabelTree

variable {Label : Type u} [Ord Label]

mutual

def cmp : LabelTree Label → LabelTree Label → Ordering
  | .node label kids, .node label' kids' => (compare label label').then (cmpAll kids kids')

def cmpAll : List (LabelTree Label) → List (LabelTree Label) → Ordering
  | [], [] => .eq
  | [], _ :: _ => .lt
  | _ :: _, [] => .gt
  | kid :: kids, kid' :: kids' => (kid.cmp kid').then (cmpAll kids kids')

end

/-- Lists that are compared one part after the other. -/
theorem cmpAll_append {some more rest rest' : List (LabelTree Label)}
    (length : some.length = more.length)
    : cmpAll (some ++ rest) (more ++ rest') = (cmpAll some more).then (cmpAll rest rest') := by
  induction some generalizing more with
  | nil =>
    obtain rfl := List.length_eq_zero_iff.mp length.symm
    rfl
  | cons tree some ih =>
    match more with
    | tree' :: more =>
      simp [cmpAll, ih (Nat.succ.inj length), Ordering.then_assoc]

mutual

theorem cmp_swap [Std.OrientedOrd Label] (one two : LabelTree Label)
    : (one.cmp two).swap = two.cmp one := by
  obtain ⟨label, kids⟩ := one
  obtain ⟨label', kids'⟩ := two
  rw [cmp, cmp, Ordering.swap_then, cmpAll_swap kids kids', ← Std.OrientedOrd.eq_swap]

theorem cmpAll_swap [Std.OrientedOrd Label] (some more : List (LabelTree Label))
    : (cmpAll some more).swap = cmpAll more some := by
  match some, more with
  | [], [] => rfl
  | [], _ :: _ => rfl
  | _ :: _, [] => rfl
  | kid :: kids, kid' :: kids' =>
    rw [cmpAll, cmpAll, Ordering.swap_then, cmp_swap kid kid', cmpAll_swap kids kids']

end

mutual

theorem cmp_eq_iff [Std.LawfulEqOrd Label] (one two : LabelTree Label)
    : one.cmp two = .eq ↔ one = two := by
  obtain ⟨label, kids⟩ := one
  obtain ⟨label', kids'⟩ := two
  rw [cmp, Ordering.then_eq_eq, cmpAll_eq_iff kids kids', Std.LawfulEqOrd.compare_eq_iff_eq,
    node.injEq]

theorem cmpAll_eq_iff [Std.LawfulEqOrd Label] (some more : List (LabelTree Label))
    : cmpAll some more = .eq ↔ some = more := by
  match some, more with
  | [], [] => simp [cmpAll]
  | [], _ :: _ => simp [cmpAll]
  | _ :: _, [] => simp [cmpAll]
  | kid :: kids, kid' :: kids' =>
    rw [cmpAll, Ordering.then_eq_eq, cmp_eq_iff kid kid', cmpAll_eq_iff kids kids', List.cons.injEq]

end

mutual

/-- Lexicographic orders are transitive, by induction on the first tree. -/
theorem cmp_trans [Std.TransOrd Label] [Std.LawfulEqOrd Label] {one two three : LabelTree Label}
    (first : (one.cmp two).isLE = true) (second : (two.cmp three).isLE = true)
    : (one.cmp three).isLE = true := by
  obtain ⟨label, kids⟩ := one
  obtain ⟨label', kids'⟩ := two
  obtain ⟨label'', kids''⟩ := three
  rw [cmp, Ordering.isLE_then_iff_or] at *
  rcases first with less | ⟨same, kidsFirst⟩
  · rcases second with less' | ⟨same', -⟩
    · exact .inl (Std.TransCmp.lt_trans less less')
    · rw [Std.LawfulEqOrd.compare_eq_iff_eq] at same'
      exact .inl (same' ▸ less)
  · rw [Std.LawfulEqOrd.compare_eq_iff_eq] at same
    subst same
    rcases second with less | ⟨same', kidsSecond⟩
    · exact .inl less
    · exact .inr ⟨same', cmpAll_trans kidsFirst kidsSecond⟩

theorem cmpAll_trans [Std.TransOrd Label] [Std.LawfulEqOrd Label]
    {one two three : List (LabelTree Label)}
    (first : (cmpAll one two).isLE = true) (second : (cmpAll two three).isLE = true)
    : (cmpAll one three).isLE = true := by
  match one, two, three with
  | [], _, [] => rfl
  | [], _, _ :: _ => rfl
  | _ :: _, [], _ => simp [cmpAll] at first
  | _ :: _, _ :: _, [] => simp [cmpAll] at second
  | kid :: kids, kid' :: kids', kid'' :: kids'' =>
    rw [cmpAll, Ordering.isLE_then_iff_or] at *
    rcases first with less | ⟨same, kidsFirst⟩
    · rcases second with less' | ⟨same', -⟩
      · have bounded : (kid.cmp kid'').isLE = true :=
          cmp_trans (by simp [less] : (kid.cmp kid').isLE = true) (by simp [less'])
        have differ : kid.cmp kid'' ≠ .eq := by
          intro same
          rw [cmp_eq_iff] at same
          rw [← same, ← cmp_swap kid kid', less] at less'
          cases less'
        exact .inl (Ordering.isLE_iff_eq_lt_or_eq_eq.mp bounded |>.resolve_right differ)
      · rw [cmp_eq_iff] at same'
        exact .inl (same' ▸ less)
    · rw [cmp_eq_iff] at same
      subst same
      rcases second with less | ⟨same', kidsSecond⟩
      · exact .inl less
      · exact .inr ⟨same', cmpAll_trans kidsFirst kidsSecond⟩

end

end LabelTree

end Woodpecker.Library
