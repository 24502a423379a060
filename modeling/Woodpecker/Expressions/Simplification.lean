import Woodpecker.Expressions.Constraints
import Woodpecker.Expressions.Weights

/-! Simplifying expressions and adding constraints come to an end.

A visitor visits again what it has rebuilt, and a constraint that is rewritten is added
again. Both end, since what changes gets lighter. All that has to be known for this is one
assignment that satisfies the constraints: it rules out the assertions on the way.
-/

namespace Woodpecker.Expressions

open Library ConstraintManager List Expr ExprVisitor

variable {options : Options} {bytes : Assignment} {e e' : Expr}

-- Visits

/-- An expression that can be evaluated under the assignment and rebuilt there. -/
structure Expr.Usable (options : Options) (bytes : Assignment) (e : Expr) : Prop where
  typed : e.Typed
  bounded : options.ConstArrayOpt = true → e.InBounds bytes
  proper : e.Proper bytes

theorem Expr.Usable.denotes (usable : e.Usable options bytes)
    : Denotes options bytes e (e.bits bytes e.getWidth) :=
  ⟨usable.typed, rfl, usable.bounded, rfl⟩

theorem Denotes.usable {w : Nat} {v : BitVec w} (isV : Denotes options bytes e v)
    (proper : e.Proper bytes)
    : e.Usable options bytes :=
  ⟨isV.typed, isV.bounded, proper⟩

theorem Replaces.usable (replaces : Replaces options bytes e e') (usable : e.Usable options bytes)
    : e'.Usable options bytes :=
  (replaces.keeps.denotes usable.denotes).usable replaces.proper

theorem Expr.kid_lighter {kid : Expr} (isKid : kid ∈ e.kids) : kid.weight < e.weight := by
  cases e with
  | arithmetic kind left right | comparison kind left right =>
    have positive := kind.weight_pos
    grind [kids, weight]
  | _ => grind [kids, weight]

/-- The kids of an expression are usable, and lighter. -/
theorem Expr.Usable.kids (usable : e.Usable options bytes)
    : ∀ kid ∈ e.kids, kid.Usable options bytes ∧ kid.weight < e.weight := by
  suffices all : ∀ kid ∈ e.kids, kid.Usable options bytes from
    fun kid isKid => ⟨all kid isKid, kid_lighter isKid⟩
  have isV := usable.denotes
  have proper := usable.proper
  cases e with
  | constant c => exact nofun
  | notOptimized src =>
    exact forall_mem_singleton.mpr ((denotes_notOptimized.mp isV).usable proper)
  | read root head index =>
    obtain ⟨-, i, isI, -, -⟩ := denotes_read.mp isV
    exact forall_mem_singleton.mpr (isI.usable proper.2)
  | select cond trueExpr falseExpr =>
    obtain ⟨b, x, y, isB, isX, isY, -⟩ := denotes_select.mp isV
    simp [kids, isB.usable proper.1, isX.usable proper.2.1, isY.usable proper.2.2]
  | concat left right =>
    obtain ⟨x, y, -, isX, isY, -⟩ := isV.of_concat
    simp [kids, isX.usable proper.1, isY.usable proper.2.1]
  | extract expr offset width =>
    obtain ⟨x, -, -, isX, -⟩ := isV.of_extract
    exact forall_mem_singleton.mpr (isX.usable proper.1)
  | not expr =>
    obtain ⟨x, isX, -⟩ := denotes_not.mp isV
    exact forall_mem_singleton.mpr (isX.usable proper)
  | cast kind src width =>
    obtain ⟨x, -, -, isX, -⟩ := isV.of_cast
    exact forall_mem_singleton.mpr (isX.usable proper.1)
  | arithmetic kind left right =>
    obtain ⟨x, y, isX, isY, -⟩ := denotes_arithmetic.mp isV
    simp [kids, isX.usable proper.1, isY.usable proper.2.1]
  | comparison kind left right =>
    obtain ⟨k, x, y, isX, isY, -⟩ := denotes_comparison.mp isV
    simp [kids, isX.usable proper.1, isY.usable proper.2]

/-- Every result on record replaces its expression. -/
def Visited.Recorded (options : Options) (bytes : Assignment) (visited : Visited) : Prop :=
  ∀ e res, (e, res) ∈ visited → e.Usable options bytes → Replaces options bytes e res

theorem recorded_nil : Visited.Recorded options bytes [] :=
  nofun

/-- What a visitor replaces, where that is not a constant already. -/
structure ExprVisitor.Replacing (options : Options) (bytes : Assignment) (visitor : ExprVisitor)
    : Prop where
  before : ∀ e e', e.constant? = none → e.Usable options bytes → visitor.visitExpr e = some e'
    → Replaces options bytes e e'
  after : ∀ e e', e.constant? = none → e.Usable options bytes
    → visitor.visitExprPost e = some e' → Replaces options bytes e e'

/-- What a visit returns. -/
def VisitsTo (options : Options) (bytes : Assignment) (e : Expr) (result : Expr × Visited)
    : Prop :=
  Replaces options bytes e result.1 ∧ result.2.Recorded options bytes

section Visit

variable {visitor : ExprVisitor} {visited : Visited}

/-- The loop over the kids, by induction on them, where visits of each of them return. -/
theorem visitKids_yields (kids : List Expr) (recorded : visited.Recorded options bytes)
    (visits : ∀ kid ∈ kids, ∀ visited : Visited, visited.Recorded options bytes
      → Yields (fun fuel => visitor.visit options fuel visited kid) (VisitsTo options bytes kid))
    : Yields (fun fuel => visitKids (visitor.visit options fuel) visited kids)
        fun result => Forall₂ (Replaces options bytes) kids result.1
          ∧ result.2.Recorded options bytes := by
  induction kids generalizing visited with
  | nil => exact yields_ok ⟨.nil, recorded⟩
  | cons kid rest ih =>
    obtain ⟨first, others⟩ := forall_mem_cons.mp visits
    simp only [visitKids]
    refine (first visited recorded).bind fun one visitsOne => ?_
    refine (ih visitsOne.2 others).bind fun more visitsMore => ?_
    exact yields_ok ⟨.cons visitsOne.1 visitsMore.1, visitsMore.2⟩

/-- A visit returns, by induction on the weight: the kids are lighter, and so is what is
rebuilt from kids that have changed.
-/
theorem visit_yields (replacing : visitor.Replacing options bytes) (e : Expr)
    (usable : e.Usable options bytes) (visited : Visited)
    (recorded : visited.Recorded options bytes)
    : Yields (fun fuel => visitor.visit options fuel visited e) (VisitsTo options bytes e) := by
  refine Yields.of_succ ?_
  simp only [visit]
  split
  · exact yields_ok ⟨.refl usable.proper, recorded⟩
  next res _ found =>
    obtain ⟨before, after, rfl, -⟩ := lookup_eq_some_iff.mp found
    exact yields_ok ⟨recorded e res (by simp) usable, recorded⟩
  next other _ =>
    suffices actual : Yields (fun fuel => visitor.visitActual (visitor.visit options fuel)
        options fuel visited e) (VisitsTo options bytes e) by
      refine actual.bind fun result visits => ?_
      exact yields_ok ⟨visits.1, Visited.forall_insert visits.2 fun _ => visits.1⟩
    unfold visitActual
    split
    next argument found =>
      exact yields_ok ⟨replacing.before e argument other usable found, recorded⟩
    refine (visitKids_yields e.kids recorded fun kid member visited recorded =>
      visit_yields replacing kid (usable.kids kid member).1 visited recorded).bind
      fun kids isKids => ?_
    obtain ⟨kids, visited⟩ := kids
    -- The rebuilt expression may be visited once more before it is replaced as a whole.
    have rebuilt : Yields (fun fuel => visitor.rebuildChanged (visitor.visit options fuel)
        options fuel visited e kids) (VisitsTo options bytes e) := by
      unfold rebuildChanged
      by_cases changed : kids ≠ e.kids
      · simp only [if_pos changed]
        refine (rebuild_yields usable.denotes usable.proper other isKids.1 changed).bind
          fun made isMade => ?_
        by_cases again : visitor.recursive = true
        · simp only [if_pos again]
          refine (visit_yields replacing made (isMade.1.usable usable) visited
            isKids.2).mono fun result visits => ?_
          exact ⟨isMade.1.trans visits.1, visits.2⟩
        · simp only [if_neg again]
          exact yields_ok ⟨isMade.1, isKids.2⟩
      · simp only [if_neg changed]
        exact yields_ok ⟨.refl usable.proper, isKids.2⟩
    refine rebuilt.bind fun result visits => ?_
    obtain ⟨made, visited⟩ := result
    have usableM := visits.1.usable usable
    simp only
    split
    next argument other found =>
      exact yields_ok ⟨visits.1.trans (replacing.after made argument other usableM found), visits.2⟩
    · exact yields_ok visits
termination_by e.weight
decreasing_by
  · exact (usable.kids kid member).2
  · exact isMade.2

end Visit

-- Constraints

/-- A condition that is true under the assignment. -/
def Held (options : Options) (bytes : Assignment) (c : Expr) : Prop :=
  Denotes options bytes c 1#1 ∧ c.Proper bytes

theorem Held.usable (held : Held options bytes e) : e.Usable options bytes :=
  held.1.usable held.2

theorem Replaces.held (replaces : Replaces options bytes e e') (held : Held options bytes e)
    : Held options bytes e' :=
  ⟨replaces.keeps.denotes held.1, replaces.proper⟩

theorem ExprReplaceVisitor.replacing {left right : Expr}
    (held : Held options bytes (.comparison .Eq left right)) (isC : left.constant?.isSome)
    : (ExprReplaceVisitor right left).Replacing options bytes := by
  have replaced (e e' : Expr) (other : e.constant? = none) (_ : e.Usable options bytes)
      (found : (if e = right then some left else none) = some e')
      : Replaces options bytes e e' := by
    obtain ⟨rfl, same⟩ := Option.ite_none_right_eq_some.mp found
    cases same
    obtain ⟨c, rfl⟩ := eq_constant_of_isSome isC
    exact ⟨(equality_keeps held.1).mono fun _ => rfl, held.2.1, .inr (one_lt_weight other)⟩
  exact ⟨replaced, replaced⟩

variable {manager : ConstraintManager}

theorem ExprReplaceVisitor2.replacing (held : ∀ c ∈ manager.constraints, Held options bytes c)
    : (ExprReplaceVisitor2 (manager.constraints.map equality)).Replacing options bytes := by
  refine ⟨fun e e' _ _ (found : none = some e') => ?_, fun e e' other usable found => ?_⟩
  · cases found
  obtain ⟨before, after, entries, -⟩ := lookup_eq_some_iff.mp found
  have entry : (e, e') ∈ manager.constraints.map equality := by
    rw [entries]
    simp
  obtain ⟨c, member, same⟩ := mem_map.mp entry
  have isTrue := held c member
  have keeps : Keeps options bytes True (equality c).1 (equality c).2 :=
    equality_replaces isTrue.1.boolean fun _ => isTrue.1
  rw [same] at keeps
  -- What a constraint lets one replace is replaced by a constant.
  have constant : ∃ k, e' = .constant k ∧ (constant k).Proper bytes := by
    have right : (equality c).2 = e' := by rw [same]
    rw [← right]
    unfold equality
    split
    next left right =>
      split
      next isC =>
        obtain ⟨k, rfl⟩ := eq_constant_of_isSome isC
        exact ⟨k, rfl, isTrue.2.1⟩
      · exact ⟨_, rfl, proper_bool bytes _⟩
    · exact ⟨_, rfl, proper_bool bytes _⟩
  obtain ⟨k, rfl, proper⟩ := constant
  exact ⟨keeps, proper, .inr (one_lt_weight other)⟩

/-- Simplifying returns, and what it returns can replace the expression. -/
theorem simplifyExpr_yields (held : ∀ c ∈ manager.constraints, Held options bytes c)
    (usable : e.Usable options bytes)
    : Yields (fun fuel => manager.simplifyExpr options fuel e) (Replaces options bytes e) := by
  unfold simplifyExpr
  split
  · exact yields_ok (.refl usable.proper)
  · refine (visit_yields (ExprReplaceVisitor2.replacing held) e usable [] recorded_nil).bind
      fun result visits => ?_
    exact yields_ok visits.1

def totalWeight (conditions : List Expr) : Nat :=
  (conditions.map Expr.weight).sum

theorem totalWeight_cons (conditions : List Expr)
    : totalWeight (e :: conditions) = e.weight + totalWeight conditions :=
  rfl

/-- What adding conditions leads to: all conditions are true, and the total weight is not
larger.
-/
def AddsTo (options : Options) (bytes : Assignment) (limit : Nat) (after : ConstraintManager)
    : Prop :=
  (∀ c ∈ after.constraints, Held options bytes c) ∧ totalWeight after.constraints ≤ limit

theorem addsTo_push_back (held : ∀ c ∈ manager.constraints, Held options bytes c)
    (new : Held options bytes e)
    : AddsTo options bytes (totalWeight manager.constraints + e.weight) (manager.push_back e) :=
  ⟨forall_mem_append.mpr ⟨held, forall_mem_singleton.mpr new⟩,
    by simp [totalWeight, push_back]⟩

/-- The loop over the old constraints, by induction on them, where additions within the
weight of all constraints return.
-/
theorem rewriteLoop_yields {visitor : ExprVisitor} (replacing : visitor.Replacing options bytes)
    {limit : Nat} (adds : ∀ (manager : ConstraintManager) (e : Expr),
      (∀ c ∈ manager.constraints, Held options bytes c) → Held options bytes e
      → totalWeight manager.constraints + e.weight ≤ limit
      → Yields (fun fuel => manager.addConstraintInternal options fuel e)
          (AddsTo options bytes (totalWeight manager.constraints + e.weight)))
    (old : List Expr) {visited : Visited} (recorded : visited.Recorded options bytes)
    (changed : Bool) (held : ∀ c ∈ manager.constraints, Held options bytes c)
    (heldOld : ∀ ce ∈ old, Held options bytes ce)
    (fits : totalWeight manager.constraints + totalWeight old ≤ limit)
    : Yields (fun fuel => manager.rewriteLoop visitor options fuel
          (addConstraintInternal options fuel) visited changed old) fun result =>
        AddsTo options bytes (totalWeight manager.constraints + totalWeight old) result.1 := by
  induction old generalizing manager visited changed with
  | nil => exact yields_ok ⟨held, Nat.le_add_right _ _⟩
  | cons ce old ih =>
    obtain ⟨first, others⟩ := forall_mem_cons.mp heldOld
    rw [totalWeight_cons] at fits ⊢
    simp only [rewriteLoop]
    refine (visit_yields replacing ce first.usable visited recorded).bind fun result visits => ?_
    obtain ⟨e, visited⟩ := result
    have lighter : e.weight ≤ ce.weight := visits.1.lighter.le
    by_cases isNew : e ≠ ce
    · simp only [if_pos isNew]
      refine (adds manager e held (visits.1.held first) (by omega)).bind fun middle one => ?_
      have light := one.2
      refine (ih visits.2 true one.1 others (by omega)).mono fun result rest => ?_
      exact ⟨rest.1, rest.2.trans (by omega)⟩
    · simp only [if_neg isNew]
      have pushed := addsTo_push_back held first
      have light := pushed.2
      refine (ih visits.2 changed pushed.1 others (by omega)).mono fun result rest => ?_
      exact ⟨rest.1, rest.2.trans (by omega)⟩

/-- Adding a condition returns, by induction on the weight of the constraints and of the
condition together: each half of a conjunction is lighter, and so are the old constraints
without the new equality.
-/
theorem addConstraintInternal_yields (manager : ConstraintManager) (e : Expr)
    (held : ∀ c ∈ manager.constraints, Held options bytes c) (new : Held options bytes e)
    : Yields (fun fuel => manager.addConstraintInternal options fuel e)
        (AddsTo options bytes (totalWeight manager.constraints + e.weight)) := by
  induction size : totalWeight manager.constraints + e.weight using Nat.strong_induction_on
    generalizing manager e with
  | _ n ih =>
    subst size
    have pushed := addsTo_push_back held new
    refine Yields.of_succ ?_
    simp only [addConstraintInternal]
    split
    next CE =>
      obtain rfl := new.1.constant
      simp only [ConstantExpr.isTrue_eq, ok_bind]
      exact yields_ok ⟨held, Nat.le_add_right _ _⟩
    next left right =>
      obtain ⟨x, y, isX, isY, both⟩ := denotes_arithmetic.mp new.1
      have conjunction : ∀ x y : BitVec 1, x &&& y = 1#1 → x = 1#1 ∧ y = 1#1 := by decide
      obtain ⟨rfl, rfl⟩ := conjunction x y both.symm
      have parts : (arithmetic .And left right).weight = left.weight + right.weight + 1 :=
        rfl
      refine (ih _ (by omega) manager left held ⟨isX, new.2.1⟩ rfl).bind fun middle one => ?_
      have light := one.2
      refine (ih _ (by omega) middle right one.1 ⟨isY, new.2.2.1⟩ rfl).mono
        fun after two => ⟨two.1, two.2.trans (by omega)⟩
    next left right =>
      split
      next isC =>
        have positive := (comparison .Eq left right).weight_pos
        have light : totalWeight [] + totalWeight manager.constraints
            ≤ totalWeight manager.constraints := (Nat.zero_add _).le
        refine (rewriteLoop_yields (ExprReplaceVisitor.replacing new isC)
          (fun manager' e' held' new' fits => ih _ (by omega) manager' e' held' new' rfl)
          manager.constraints recorded_nil false (forall_mem_nil _) held light).bind
          fun result rewritten => ?_
        have after := addsTo_push_back rewritten.1 new
        have lighter := rewritten.2.trans light
        exact yields_ok ⟨after.1, after.2.trans (by omega)⟩
      · exact yields_ok pushed
    · exact yields_ok pushed

-- What is added

/-- The reads of the conditions are in bounds, where equalities with them are rewritten on
that assumption.
-/
def Bounded (options : Options) (bytes : Assignment) (conditions : List Expr) : Prop :=
  options.ConstArrayOpt = true → ∀ c ∈ conditions, c.InBounds bytes

theorem Expr.Boolean.denotes_bounded (boolean : e.Boolean)
    (bounded : options.ConstArrayOpt = true → e.InBounds bytes)
    : Denotes options bytes e (e.bits bytes 1) :=
  ⟨boolean.1, boolean.2, bounded, rfl⟩

/-- The byte of the input is seven. -/
def inputIsSeven : ConstraintManager :=
  ⟨[.comparison .Eq (.constant ⟨8, 7#8⟩) inputByte]⟩

/-- A condition that the constraint decides. -/
def sumIsSmall : Expr :=
  .comparison .Ult (.arithmetic .Add inputByte inputByte) (.constant ⟨8, 20#8⟩)

/-- The square of a byte, as a number of 128 bits. -/
def wideSquare : Expr :=
  .arithmetic .Mul (.cast .ZExt inputByte 128) (.cast .ZExt inputByte 128)

def squareIsKnown : ConstraintManager :=
  ⟨[.comparison .Eq (.constant ⟨128, 49#128⟩) wideSquare]⟩

def squareIsSmall : Expr :=
  .comparison .Ult (.arithmetic .Add wideSquare (.cast .ZExt inputByte 128))
    (.constant ⟨128, 200#128⟩)

end Woodpecker.Expressions
