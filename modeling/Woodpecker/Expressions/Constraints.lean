import Woodpecker.Expressions.Visitor

/-! The constraints of a path and how one is added.

An equality with a constant that is added rewrites the constraints before it, and each one
that changes is added anew. The assignments that satisfy the constraints afterwards are
those that satisfied them before and satisfy the new one.
-/

namespace Woodpecker.Expressions

open Library List

structure ConstraintManager where
  constraints : List Expr

open ConstraintManager

namespace ConstraintManager

def push_back (manager : ConstraintManager) (e : Expr) : ConstraintManager :=
  ⟨manager.constraints ++ [e]⟩

/-- The loop of `rewriteConstraints` over the constraints that are still old, with the
function that adds a changed one.
-/
def rewriteLoop (visitor : ExprVisitor) (options : Options) (fuel : Nat)
    (add : ConstraintManager → Expr → Except Fault ConstraintManager)
    (manager : ConstraintManager) (visited : Visited) (changed : Bool)
    : List Expr → Except Fault (ConstraintManager × Bool)
  | [] => .ok (manager, changed)
  | ce :: old => do
    let (e, visited) ← visitor.visit options fuel visited ce
    if e ≠ ce then
      let manager ← add manager e
      rewriteLoop visitor options fuel add manager visited true old
    else rewriteLoop visitor options fuel add (manager.push_back ce) visited changed old

def rewriteConstraints (visitor : ExprVisitor) (options : Options) (fuel : Nat)
    (add : ConstraintManager → Expr → Except Fault ConstraintManager)
    (manager : ConstraintManager)
    : Except Fault (ConstraintManager × Bool) :=
  rewriteLoop visitor options fuel add ⟨[]⟩ [] false manager.constraints

/-- What a constraint lets one replace. -/
def equality (e : Expr) : Expr × Expr :=
  match e with
  | .comparison .Eq left right =>
    if left.constant?.isSome then (right, left)
    else (.comparison .Eq left right, .constant (.alloc 1 1))
  | e => (e, .constant (.alloc 1 1))

/-- The first entry for an expression counts, as it does when entries are inserted in a
map.
-/
def simplifyExpr (options : Options) (fuel : Nat) (manager : ConstraintManager) (e : Expr)
    : Except Fault Expr :=
  if e.constant?.isSome then .ok e
  else do
    let equalities := manager.constraints.map equality
    let (simplified, _) ← (ExprReplaceVisitor2 equalities).visit options fuel [] e
    .ok simplified

def addConstraintInternal (options : Options) (fuel : Nat) (manager : ConstraintManager)
    (e : Expr)
    : Except Fault ConstraintManager :=
  match fuel with
  | 0 => .error .outOfFuel
  | fuel + 1 =>
    match e with
    | .constant CE => do
      -- attempt to add invalid (false) constraint
      if ← CE.isTrue then .ok manager else .error .assertion
    | .arithmetic .And left right => do
      let manager ← addConstraintInternal options fuel manager left
      addConstraintInternal options fuel manager right
    | .comparison .Eq left right =>
      if left.constant?.isSome then do
        let (manager, _) ← manager.rewriteConstraints (ExprReplaceVisitor right left) options
          fuel (addConstraintInternal options fuel)
        .ok (manager.push_back (.comparison .Eq left right))
      else .ok (manager.push_back (.comparison .Eq left right))
    | e => .ok (manager.push_back e)

def addConstraint (options : Options) (fuel : Nat) (manager : ConstraintManager) (e : Expr)
    : Except Fault ConstraintManager := do
  let e ← manager.simplifyExpr options fuel e
  manager.addConstraintInternal options fuel e

end ConstraintManager

-- Satisfying assignments

/-- A well typed expression of one bit. -/
def Expr.Boolean (e : Expr) : Prop :=
  e.Typed ∧ e.getWidth = 1

def Expr.Holds (bytes : Assignment) (e : Expr) : Prop :=
  e.bits bytes 1 = 1#1

def ConstraintManager.Boolean (manager : ConstraintManager) : Prop :=
  ∀ e ∈ manager.constraints, e.Boolean

def ConstraintManager.Satisfies (bytes : Assignment) (manager : ConstraintManager) : Prop :=
  ∀ e ∈ manager.constraints, e.Holds bytes

variable {options : Options} {bytes : Assignment} {known : Prop} {visitor : ExprVisitor}
  {manager : ConstraintManager} {e e' : Expr} {b : BitVec 1}

theorem Denotes.boolean (denotes : Denotes options bytes e b) : e.Boolean :=
  ⟨denotes.typed, denotes.width⟩

theorem Denotes.holds_iff (denotes : Denotes options bytes e b)
    : e.Holds bytes ↔ b = 1#1 := by
  rw [Expr.Holds, denotes.bits]

theorem oneBit_and : ∀ x y : BitVec 1, x &&& y = 1#1 ↔ x = 1#1 ∧ y = 1#1 := by
  decide

theorem oneBit_or : ∀ x y : BitVec 1, x ||| y = 1#1 ↔ x = 1#1 ∨ y = 1#1 := by
  decide

/-- Without the option there are no bounds to keep. -/
theorem Expr.Boolean.denotes (boolean : e.Boolean) (off : options.ConstArrayOpt = false)
    (bytes : Assignment)
    : Denotes options bytes e (e.bits bytes 1) :=
  ⟨boolean.1, boolean.2, by simp [off], rfl⟩

-- Rewriting the constraints

/-- One of the conditions is false under the assignment. -/
def SomeFalse (options : Options) (bytes : Assignment) (conditions : List Expr) : Prop :=
  ∃ c ∈ conditions, Denotes options bytes c 0#1

/-- All conditions are true under the assignment. -/
def AllTrue (options : Options) (bytes : Assignment) (conditions : List Expr) : Prop :=
  ∀ c ∈ conditions, Denotes options bytes c 1#1

/-- The conditions that a manager may have. They are well typed, which is seen from an
assignment under which they have values. Where `live`, they are true under it.
-/
def Admits (options : Options) (origin : Assignment) (live : Prop) (c : Expr) : Prop :=
  ∃ b : BitVec 1, Denotes options origin c b ∧ (live → b = 1#1)

variable {origin : Assignment} {live : Prop}

theorem Admits.boolean (admits : Admits options origin live e) : e.Boolean := by
  obtain ⟨b, isB, -⟩ := admits
  exact isB.boolean

theorem Keeps.admits (keeps : Keeps options origin live e e')
    (admits : Admits options origin live e)
    : Admits options origin live e' := by
  obtain ⟨b, isB, isTrue⟩ := admits
  obtain ⟨b', isB', same⟩ := keeps isB
  exact ⟨b', isB', fun holds => (same holds).trans (isTrue holds)⟩

theorem admits_push_back (admits : ∀ c ∈ manager.constraints, Admits options origin live c)
    (new : Admits options origin live e)
    : ∀ c ∈ (manager.push_back e).constraints, Admits options origin live c :=
  forall_mem_append.mpr ⟨admits, forall_mem_singleton.mpr new⟩

/-- The conditions after stand for those before: nothing is forgotten, and nothing made up. -/
structure Added (options : Options) (origin : Assignment) (live : Prop) (bytes : Assignment)
    (before after : List Expr)
    : Prop where
  admits : ∀ c ∈ after, Admits options origin live c
  false_of : SomeFalse options bytes before → SomeFalse options bytes after
  true_of : AllTrue options bytes before → AllTrue options bytes after

theorem Added.refl {before : List Expr} (admits : ∀ c ∈ before, Admits options origin live c)
    : Added options origin live bytes before before :=
  ⟨admits, id, id⟩

/-- A constraint added as it should be. -/
def Adds (options : Options) (origin : Assignment) (live : Prop) (bytes : Assignment)
    (add : ConstraintManager → Expr → Except Fault ConstraintManager)
    : Prop :=
  ∀ (manager : ConstraintManager) (e : Expr),
    (∀ c ∈ manager.constraints, Admits options origin live c) → Admits options origin live e
    → Ensures (add manager e) fun after =>
        Added options origin live bytes (manager.constraints ++ [e]) after.constraints

variable {before middle more after : List Expr}

theorem someFalse_append
    : SomeFalse options bytes (before ++ more)
      ↔ SomeFalse options bytes before ∨ SomeFalse options bytes more := by
  simp [SomeFalse, or_and_right, exists_or]

theorem allTrue_append
    : AllTrue options bytes (before ++ more)
      ↔ AllTrue options bytes before ∧ AllTrue options bytes more :=
  forall_mem_append

theorem someFalse_singleton : SomeFalse options bytes [e] ↔ Denotes options bytes e 0#1 := by
  simp [SomeFalse]

theorem allTrue_singleton : AllTrue options bytes [e] ↔ Denotes options bytes e 1#1 := by
  simp [AllTrue]

/-- More conditions are added to those that were. -/
theorem Added.trans (one : Added options origin live bytes before middle)
    (two : Added options origin live bytes (middle ++ more) after)
    : Added options origin live bytes (before ++ more) after where
  admits := two.admits
  false_of isFalse := two.false_of
    (someFalse_append.mpr ((someFalse_append.mp isFalse).imp_left one.false_of))
  true_of isTrue := two.true_of
    (allTrue_append.mpr ((allTrue_append.mp isTrue).imp_left one.true_of))

/-- Other conditions with the same meaning come before. -/
theorem Added.of_before {other : List Expr} (added : Added options origin live bytes before after)
    (false_of : SomeFalse options bytes other → SomeFalse options bytes before)
    (true_of : AllTrue options bytes other → AllTrue options bytes before)
    : Added options origin live bytes other after :=
  ⟨added.admits, fun isFalse => added.false_of (false_of isFalse),
    fun isTrue => added.true_of (true_of isTrue)⟩

/-- A condition can stand in for another that has the same values. -/
theorem Added.replace (keeps : Keeps options bytes True e e')
    (added : Added options origin live bytes (before ++ [e']) after)
    : Added options origin live bytes (before ++ [e]) after := by
  refine added.of_before (fun isFalse => ?_) fun isTrue => ?_
  · rw [someFalse_append, someFalse_singleton] at isFalse ⊢
    exact isFalse.imp_right keeps.denotes
  · rw [allTrue_append, allTrue_singleton] at isTrue ⊢
    exact isTrue.imp_right keeps.denotes

variable {left right : Expr}

/-- Two conditions stand for their conjunction. -/
theorem Added.conjunction
    (added : Added options origin live bytes (before ++ [left] ++ [right]) after)
    : Added options origin live bytes (before ++ [.arithmetic .And left right]) after := by
  have cases : ∀ x y : BitVec 1, (x &&& y = 1#1 → x = 1#1 ∧ y = 1#1)
      ∧ (x &&& y = 0#1 → x = 0#1 ∨ y = 0#1) := by decide
  refine added.of_before (fun isFalse => ?_) fun isTrue => ?_
  · rw [someFalse_append, someFalse_singleton] at isFalse ⊢
    rw [someFalse_append, someFalse_singleton]
    rcases isFalse with old | new
    · exact .inl (.inl old)
    obtain ⟨x, y, isX, isY, zero⟩ := denotes_arithmetic.mp new
    rcases (cases x y).2 zero.symm with rfl | rfl
    · exact .inl (.inr isX)
    · exact .inr isY
  · rw [allTrue_append, allTrue_singleton] at isTrue ⊢
    rw [allTrue_append, allTrue_singleton]
    obtain ⟨x, y, isX, isY, one⟩ := denotes_arithmetic.mp isTrue.2
    obtain ⟨rfl, rfl⟩ := (cases x y).1 one.symm
    exact ⟨⟨isTrue.1, isX⟩, isY⟩

variable {add : ConstraintManager → Expr → Except Fault ConstraintManager}

section

variable (sure : options.ConstArrayOpt = true → live) (replaces : visitor.Keeps options origin live)
  (replaces' : known → visitor.Keeps options bytes True) (fuel : Nat)
  (adds : Adds options origin live bytes add)
include sure replaces replaces' fuel adds

/-- The loop over the old constraints, by induction on them. What is made of them under the
assignment is only known where replacements keep values.
-/
theorem rewriteLoop_ensures (old : List Expr) {visited : Visited}
    (kept : visited.Keeps options origin live) (kept' : known → visited.Keeps options bytes True)
    (changed : Bool) (admits : ∀ c ∈ manager.constraints, Admits options origin live c)
    (admitted : ∀ ce ∈ old, Admits options origin live ce)
    : Ensures (manager.rewriteLoop visitor options fuel add visited changed old) fun result =>
        (∀ c ∈ result.1.constraints, Admits options origin live c)
        ∧ (known → Added options origin live bytes (manager.constraints ++ old)
            result.1.constraints) := by
  induction old generalizing manager visited changed with
  | nil =>
    refine .of_ok ⟨admits, fun _ => ?_⟩
    rw [append_nil]
    exact .refl admits
  | cons ce old ih =>
    obtain ⟨first, others⟩ := forall_mem_cons.mp admitted
    have visits : Ensures (visitor.visit options fuel visited ce) fun result =>
        (Keeps options origin live ce result.1 ∧ result.2.Keeps options origin live)
        ∧ (known → Keeps options bytes True ce result.1
          ∧ result.2.Keeps options bytes True) := by
      intro result returned
      refine ⟨visit_keeps sure replaces fuel visited ce kept result returned, fun holds => ?_⟩
      exact visit_keeps (fun _ => trivial) (replaces' holds) fuel visited ce (kept' holds)
        result returned
    refine visits.bind fun result stands => ?_
    obtain ⟨e, visited⟩ := result
    obtain ⟨atOrigin, atBytes⟩ := stands
    simp only
    split
    · refine (adds manager e admits (atOrigin.1.admits first)).bind fun added one => ?_
      refine (ih atOrigin.2 (fun holds => (atBytes holds).2) true one.admits others).mono
        fun result rest => ⟨rest.1, fun holds => ?_⟩
      rw [append_cons]
      exact (one.replace (atBytes holds).1).trans (rest.2 holds)
    have pushed := admits_push_back admits first
    refine (ih atOrigin.2 (fun holds => (atBytes holds).2) changed pushed others).mono
      fun result rest => ⟨rest.1, fun holds => ?_⟩
    rw [append_cons]
    exact rest.2 holds

theorem rewriteConstraints_ensures
    (admits : ∀ c ∈ manager.constraints, Admits options origin live c)
    : Ensures (manager.rewriteConstraints visitor options fuel add) fun result =>
        (∀ c ∈ result.1.constraints, Admits options origin live c)
        ∧ (known → Added options origin live bytes manager.constraints result.1.constraints) := by
  have empty {bytes : Assignment} {known : Prop} : Visited.Keeps options bytes known [] := by
    intro e res entry
    cases entry
  have nothing : ∀ c ∈ (mk []).constraints, Admits options origin live c := by
    intro c member
    cases member
  exact rewriteLoop_ensures sure replaces replaces' fuel adds manager.constraints empty
    (fun _ => empty) false nothing admits

end

/-- Where the two expressions have one value, one can replace the other. -/
theorem ExprReplaceVisitor.keeps {src dst : Expr} (keeps : Keeps options bytes known src dst)
    : (ExprReplaceVisitor src dst).Keeps options bytes known := by
  have replaced (e e' : Expr) (found : (if e = src then some dst else none) = some e')
      : Keeps options bytes known e e' := by
    split at found
    next same =>
      cases found
      subst same
      exact keeps
    · cases found
  exact ⟨replaced, replaced⟩

/-- The two sides of an equality of an expression with a constant. -/
theorem equality_keeps (denotes : Denotes options bytes (.comparison .Eq left right) b)
    : Keeps options bytes (b = 1#1) right left := by
  obtain ⟨k, x, y, isX, isY, rfl⟩ := denotes_comparison.mp denotes
  intro w v isV
  obtain rfl : k = w := isY.width.symm.trans isV.width
  refine ⟨x, isX, fun holds => ?_⟩
  rw [isV.unique isY]
  have same : ∀ b : Bool, BitVec.ofBool b = 1#1 → b = true := by decide
  exact beq_iff_eq.mp (same _ holds)

/-- An equality with a constant either is known to be false, or its constant can replace the
other side, which then need not have a value.
-/
theorem equality_false_or_keeps (bytes : Assignment)
    (boolean : (Expr.comparison .Eq left right).Boolean) (isC : left.constant?.isSome)
    : Denotes options bytes (.comparison .Eq left right) 0#1
      ∨ Keeps options bytes True right left := by
  obtain ⟨c, rfl⟩ := eq_constant_of_isSome isC
  obtain ⟨⟨-, -, same⟩, -⟩ := boolean
  by_cases hasValue : ∃ v : BitVec c.width, Denotes options bytes right v
  · obtain ⟨v, isV⟩ := hasValue
    have isE : Denotes options bytes (.comparison .Eq (.constant c) right)
        (BitVec.ofBool (ComparisonKind.Eq.apply c.value v)) :=
      denotes_comparison.mpr ⟨c.width, c.value, v, denotes_constant options bytes c, isV, rfl⟩
    by_cases equal : c.value = v
    · right
      refine (equality_keeps isE).mono fun _ => ?_
      simp [ComparisonKind.apply, equal]
    · left
      have no : ComparisonKind.Eq.apply c.value v = false := beq_eq_false_iff_ne.mpr equal
      rwa [no] at isE
  · right
    intro w v isV
    have width : c.width = w := same.symm.trans isV.width
    subst width
    exact absurd ⟨v, isV⟩ hasValue

/-- Adding a constraint that is simplified already, by induction on the budget. -/
theorem addConstraintInternal_adds (sure : options.ConstArrayOpt = true → live)
    (origin bytes : Assignment) (fuel : Nat)
    : Adds options origin live bytes (addConstraintInternal options fuel) := by
  induction fuel with
  | zero =>
    intro manager e _ _
    exact ensures_error _
  | succ fuel ih =>
    intro manager e admits new
    have boolean := new.boolean
    have pushed : Added options origin live bytes (manager.constraints ++ [e])
        (manager.push_back e).constraints := .refl (admits_push_back admits new)
    obtain ⟨b, isE, isTrue⟩ := new
    unfold addConstraintInternal
    split
    next CE =>
      obtain rfl := isE.constant
      rw [ConstantExpr.isTrue_eq, ok_bind]
      split
      next yes =>
        obtain rfl : b = 1#1 := beq_iff_eq.mp yes
        refine .of_ok ⟨admits, fun isFalse => ?_, fun isTrue => (allTrue_append.mp isTrue).1⟩
        rw [someFalse_append, someFalse_singleton] at isFalse
        exact isFalse.resolve_right fun no => nomatch no.constant
      · exact ensures_error _
    next left right =>
      obtain ⟨x, y, isX, isY, both⟩ := denotes_arithmetic.mp isE
      have conjunction : ∀ x y : BitVec 1, x &&& y = 1#1 ↔ x = 1#1 ∧ y = 1#1 := by decide
      have parts (holds : live) : x = 1#1 ∧ y = 1#1 :=
        (conjunction x y).mp (both.symm.trans (isTrue holds))
      refine (ih manager left admits ⟨x, isX, fun holds => (parts holds).1⟩).bind
        fun middle one => ?_
      refine (ih middle right one.admits ⟨y, isY, fun holds => (parts holds).2⟩).mono
        fun after two => ?_
      exact (one.trans two).conjunction
    next left right =>
      split
      next isC =>
        have atOrigin : Keeps options origin live right left :=
          (equality_keeps isE).mono isTrue
        refine (rewriteConstraints_ensures sure
          (ExprReplaceVisitor.keeps atOrigin) ExprReplaceVisitor.keeps fuel ih admits).bind
          fun result rewritten => ?_
        have after := admits_push_back rewritten.1 ⟨b, isE, isTrue⟩
        refine .of_ok ?_
        rcases equality_false_or_keeps bytes boolean isC with no | keeps
        · -- The equality itself stays as a constraint that is false.
          refine ⟨after, fun _ => ?_, fun isTrue => ?_⟩
          · exact someFalse_append.mpr (.inr (someFalse_singleton.mpr no))
          · have yes := allTrue_singleton.mp (allTrue_append.mp isTrue).2
            exact absurd (no.unique yes) (by decide)
        · exact (rewritten.2 keeps).trans (.refl after)
      · exact .of_ok pushed
    · exact .of_ok pushed

-- Simplifying under the constraints

/-- What a constraint lets one replace, where the constraint is true. -/
theorem equality_replaces (boolean : e.Boolean) (isTrue : known → Denotes options bytes e 1#1)
    : Keeps options bytes known (equality e).1 (equality e).2 := by
  have yes : Keeps options bytes known e (.constant (.alloc 1 1)) := by
    intro w v isV
    obtain rfl : w = 1 := isV.width.symm.trans boolean.2
    exact ⟨1#1, denotes_constant options bytes _, fun holds => (isTrue holds).unique isV⟩
  unfold equality
  split
  next left right =>
    split
    next isC =>
      obtain ⟨c, rfl⟩ := eq_constant_of_isSome isC
      obtain ⟨⟨-, -, same⟩, -⟩ := boolean
      intro w v isV
      have width : c.width = w := same.symm.trans isV.width
      subst width
      refine ⟨c.value, denotes_constant options bytes c, fun holds => ?_⟩
      obtain ⟨v', isV', equal⟩ := equality_keeps (isTrue holds) isV
      rw [← equal rfl]
      exact (denotes_constant options bytes c).unique isV'
    · exact yes
  · exact yes

/-- Simplifying an expression under the constraints. -/
theorem simplifyExpr_ensures (sure : options.ConstArrayOpt = true → known) (fuel : Nat)
    (boolean : manager.Boolean) (isTrue : known → AllTrue options bytes manager.constraints)
    (e : Expr)
    : Ensures (manager.simplifyExpr options fuel e) (Keeps options bytes known e) := by
  unfold simplifyExpr
  split
  · exact .of_ok (.refl e)
  have replaces : (ExprReplaceVisitor2 (manager.constraints.map equality)).Keeps
      options bytes known := by
    refine ⟨fun e e' (found : none = some e') => ?_, fun e e' found => ?_⟩
    · cases found
    obtain ⟨before, after, entries, -⟩ := lookup_eq_some_iff.mp found
    have entry : (e, e') ∈ manager.constraints.map equality := by
      rw [entries]
      simp
    obtain ⟨c, member, same⟩ := mem_map.mp entry
    have keeps := equality_replaces (boolean c member) fun holds => isTrue holds c member
    rwa [same] at keeps
  have empty : Visited.Keeps options bytes known [] := by
    intro e res entry
    cases entry
  refine (visit_keeps sure replaces fuel [] e empty).bind fun result stands => ?_
  exact .of_ok stands.1

/-- Adding a constraint, where those there are have values. -/
theorem addConstraint_added (sure : options.ConstArrayOpt = true → live) (fuel : Nat)
    (admits : ∀ c ∈ manager.constraints, Admits options origin live c)
    (new : Admits options origin live e)
    (valued : ∀ c ∈ manager.constraints, ∃ b : BitVec 1, Denotes options bytes c b)
    : Ensures (manager.addConstraint options fuel e) fun after =>
        Added options origin live bytes (manager.constraints ++ [e]) after.constraints := by
  have boolean : manager.Boolean := fun c member => (admits c member).boolean
  have trueAtOrigin (holds : live) : AllTrue options origin manager.constraints := by
    intro c member
    obtain ⟨b, isB, isTrue⟩ := admits c member
    rwa [isTrue holds] at isB
  have cases : AllTrue options bytes manager.constraints
      ∨ SomeFalse options bytes manager.constraints := by
    by_cases isTrue : AllTrue options bytes manager.constraints
    · exact .inl isTrue
    right
    simp only [AllTrue, not_forall] at isTrue
    obtain ⟨c, member, not⟩ := isTrue
    obtain ⟨b, isB⟩ := valued c member
    rcases bit_cases b with rfl | rfl
    · exact absurd isB not
    · exact ⟨c, member, isB⟩
  refine ensures_bind fun simplified returned => ?_
  have atOrigin := simplifyExpr_ensures sure fuel boolean trueAtOrigin e simplified returned
  refine (addConstraintInternal_adds sure origin bytes fuel manager simplified admits
    (atOrigin.admits new)).mono fun after added => ?_
  rcases cases with isTrue | isFalse
  · have keeps : Keeps options bytes True e simplified :=
      simplifyExpr_ensures (fun _ => trivial) fuel boolean (fun _ => isTrue) e simplified returned
    exact added.replace keeps
  · refine ⟨added.admits, fun _ => ?_, fun isTrue => ?_⟩
    · exact added.false_of (someFalse_append.mpr (.inl isFalse))
    obtain ⟨c, member, no⟩ := isFalse
    have yes := (allTrue_append.mp isTrue).1 c member
    exact absurd (no.unique yes) (by decide)

/-- Where the conditions before have values, those after are satisfied together with them. -/
theorem Added.satisfies_iff {after : ConstraintManager}
    (added : Added options origin live bytes (manager.constraints ++ [e]) after.constraints)
    (valued : ∀ c ∈ manager.constraints ++ [e], Denotes options bytes c (c.bits bytes 1))
    : after.Satisfies bytes ↔ manager.Satisfies bytes ∧ e.Holds bytes := by
  have before : manager.Satisfies bytes ∧ e.Holds bytes
      ↔ ∀ c ∈ manager.constraints ++ [e], c.Holds bytes := by
    rw [forall_mem_append, forall_mem_singleton]
    rfl
  rw [before]
  constructor
  · intro satisfied c member
    by_contra fails
    rcases bit_cases (c.bits bytes 1) with one | zero
    · exact fails one
    · obtain ⟨c', member', no⟩ := added.false_of ⟨c, member, zero ▸ valued c member⟩
      exact absurd (no.holds_iff.mp (satisfied c' member')) (by decide)
  · intro holds c member
    refine (added.true_of ?_ c member).holds_iff.mpr rfl
    intro c member
    exact holds c member ▸ valued c member

/-- Without the option, well typed conditions have values under every assignment. -/
theorem addConstraint_adds (bytes : Assignment) (off : options.ConstArrayOpt = false)
    (fuel : Nat) (manager : ConstraintManager) (e : Expr) (boolean : manager.Boolean)
    (new : e.Boolean)
    : Ensures (manager.addConstraint options fuel e) fun after =>
        after.Boolean
        ∧ (after.Satisfies bytes ↔ manager.Satisfies bytes ∧ e.Holds bytes) := by
  have admits (c : Expr) (isB : c.Boolean) : Admits options bytes False c :=
    ⟨_, isB.denotes off bytes, False.elim⟩
  have booleans : ∀ c ∈ manager.constraints ++ [e], c.Boolean :=
    forall_mem_append.mpr ⟨boolean, forall_mem_singleton.mpr new⟩
  refine (addConstraint_added (by simp [off]) fuel (fun c member => admits c (boolean c member))
    (admits e new) fun c member => ⟨_, (boolean c member).denotes off bytes⟩).mono
    fun after added => ⟨fun c member => (added.admits c member).boolean, ?_⟩
  exact added.satisfies_iff fun c member => (booleans c member).denotes off bytes

end Woodpecker.Expressions
