import Woodpecker.Execution.PathStreams
import Woodpecker.Expressions.Constraints
import Woodpecker.Expressions.Operations

/-! What the solver answers along a path.

A path is the set of the assignments that satisfy its constraints. Expressions are described
by their values on the path: conditions by the assignments for which they hold. The solver
itself is given; what is asked of it goes through the timing solver.
-/

namespace Woodpecker.Execution

open Expressions Library

-- Paths

/-- The assignments that follow the path. -/
def assignments (manager : ConstraintManager) : Set Assignment :=
  { bytes | manager.Satisfies bytes }

variable {options : Options} {manager : ConstraintManager} {e l r : Expr} {w : Nat}
  {value x y : Assignment → BitVec w} {test test' : Assignment → Prop} {bytes : Assignment}

/-- The expression has the value on the whole path. -/
def HasValue (options : Options) (manager : ConstraintManager) (e : Expr)
    (value : Assignment → BitVec w)
    : Prop :=
  ∀ bytes ∈ assignments manager, Denotes options bytes e (value bytes)

/-- The condition holds on the path where the test does. -/
def Decides (options : Options) (manager : ConstraintManager) (e : Expr)
    (test : Assignment → Prop)
    : Prop :=
  ∀ bytes ∈ assignments manager,
    ∃ b : BitVec 1, Denotes options bytes e b ∧ (b = 1#1 ↔ test bytes)

theorem hasValue_constant (options : Options) (manager : ConstraintManager) (c : ConstantExpr)
    : HasValue options manager (.constant c) fun _ => c.value :=
  fun bytes _ => denotes_constant options bytes c

variable {part : ConstraintManager}

/-- What holds on a path holds on a part of it. -/
theorem HasValue.mono (hasValue : HasValue options manager e value)
    (subset : assignments part ⊆ assignments manager)
    : HasValue options part e value :=
  fun bytes isIn => hasValue bytes (subset isIn)

section

variable (decides : Decides options manager e test)
include decides

theorem Decides.mono (subset : assignments part ⊆ assignments manager)
    : Decides options part e test :=
  fun bytes isIn => decides bytes (subset isIn)

theorem Decides.congr (same : ∀ bytes ∈ assignments manager, test bytes ↔ test' bytes)
    : Decides options manager e test' := by
  intro bytes isIn
  obtain ⟨b, denotes, holds⟩ := decides bytes isIn
  exact ⟨b, denotes, holds.trans (same bytes isIn)⟩

theorem Decides.holds_iff (isIn : bytes ∈ assignments manager)
    : e.Holds bytes ↔ test bytes := by
  obtain ⟨b, denotes, holds⟩ := decides bytes isIn
  exact denotes.holds_iff.trans holds

theorem Decides.boolean (feasible : (assignments manager).Nonempty)
    : e.Boolean := by
  obtain ⟨bytes, isIn⟩ := feasible
  obtain ⟨b, denotes, -⟩ := decides bytes isIn
  exact denotes.boolean

/-- The value of a condition. -/
theorem Decides.hasValue
    : HasValue options manager e fun bytes => e.bits bytes 1 := by
  intro bytes isIn
  obtain ⟨b, denotes, -⟩ := decides bytes isIn
  exact ⟨denotes.typed, denotes.width, denotes.bounded, rfl⟩

end

theorem HasValue.decides {value : Assignment → BitVec 1}
    (hasValue : HasValue options manager e value)
    (holds : ∀ bytes ∈ assignments manager, value bytes = 1#1 ↔ test bytes)
    : Decides options manager e test :=
  fun bytes isIn => ⟨value bytes, hasValue bytes isIn, holds bytes isIn⟩

-- Expressions made along a path

section

variable (feasible : (assignments manager).Nonempty)
include feasible

/-- A constructor that finishes on one assignment of the path finishes, and what it makes it
makes for all of them.
-/
theorem yields_hasValue {action : Nat → Except Fault Expr}
    (finishes : ∀ bytes ∈ assignments manager, Finishes action)
    (makes : ∀ bytes ∈ assignments manager, ∀ fuel, Makes options bytes (action fuel) (value bytes))
    : Yields action fun e => HasValue options manager e value := by
  obtain ⟨bytes, isIn⟩ := feasible
  refine (finishes bytes isIn).yields fun fuel e made bytes isIn => ?_
  exact makes bytes isIn fuel e made

theorem builds_hasValue {made : Except Fault Expr}
    (builds : ∀ bytes ∈ assignments manager, Builds options bytes made (value bytes))
    : Yields (fun _ => made) fun e => HasValue options manager e value :=
  yields_hasValue feasible (fun bytes isIn => finishes_const.mpr (builds bytes isIn).returns)
    fun bytes isIn _ => (builds bytes isIn).makes

theorem builds_decides {made : Except Fault Expr} {value : Assignment → BitVec 1}
    (builds : ∀ bytes ∈ assignments manager, Builds options bytes made (value bytes))
    (holds : ∀ bytes ∈ assignments manager, value bytes = 1#1 ↔ test bytes)
    : Yields (fun _ => made) fun e => Decides options manager e test :=
  (builds_hasValue feasible builds).mono fun _ hasValue => hasValue.decides holds

theorem sub_yields (left : HasValue options manager l x) (right : HasValue options manager r y)
    (narrow : w ≤ 64)
    : Yields (fun fuel => SubExpr.create options fuel l r) fun e =>
        HasValue options manager e fun bytes => x bytes - y bytes := by
  refine yields_hasValue feasible (fun bytes isIn => ?_) fun bytes isIn fuel => ?_
  · exact (sums_finish narrow l r (left bytes isIn) (right bytes isIn)).2
  · exact (sums_make options bytes fuel).2 (left bytes isIn) (right bytes isIn)

theorem comparison_yields (kind : ComparisonKind)
    (left : HasValue options manager l x) (right : HasValue options manager r y)
    : Yields (fun _ => kind.create options l r) fun e =>
        Decides options manager e fun bytes => kind.apply (x bytes) (y bytes) = true := by
  refine builds_decides feasible (fun bytes isIn =>
    kind.create_builds (left bytes isIn) (right bytes isIn)) fun bytes _ => ?_
  cases kind.apply (x bytes) (y bytes) <;> decide

theorem eq_yields (left : HasValue options manager l x) (right : HasValue options manager r y)
    : Yields (fun _ => EqExpr.create options l r) fun e =>
        Decides options manager e fun bytes => x bytes = y bytes :=
  (comparison_yields feasible .Eq left right).mono fun _ decides =>
    decides.congr fun _ _ => beq_iff_eq

theorem isZero_yields (decides : Decides options manager e test)
    : Yields (fun _ => e.createIsZero options) fun negated =>
        Decides options manager negated fun bytes => ¬ test bytes := by
  refine builds_decides feasible (fun bytes isIn =>
    Expr.createIsZero_builds (decides.hasValue bytes isIn)) fun bytes isIn => ?_
  rw [← decides.holds_iff isIn, Expr.Holds]
  generalize e.bits bytes 1 = b
  revert b
  decide

theorem and_yields (left : Decides options manager l test) (right : Decides options manager r test')
    : Yields (fun _ => AndExpr.create l r) fun e =>
        Decides options manager e fun bytes => test bytes ∧ test' bytes := by
  refine builds_decides feasible (fun bytes isIn =>
    AndExpr.create_builds (left.hasValue bytes isIn) (right.hasValue bytes isIn))
    fun bytes isIn => ?_
  rw [oneBit_and]
  exact and_congr (left.holds_iff isIn) (right.holds_iff isIn)

theorem or_yields (left : Decides options manager l test) (right : Decides options manager r test')
    : Yields (fun _ => OrExpr.create l r) fun e =>
        Decides options manager e fun bytes => test bytes ∨ test' bytes := by
  refine builds_decides feasible (fun bytes isIn =>
    OrExpr.create_builds (left.hasValue bytes isIn) (right.hasValue bytes isIn))
    fun bytes isIn => ?_
  rw [oneBit_or]
  exact or_congr (left.holds_iff isIn) (right.holds_iff isIn)

end

-- The solver

/-- A solver that answers every query. -/
structure Solver where
  evaluate : ConstraintManager → Expr → Validity
  mustBeTrue : ConstraintManager → Expr → Bool
  getValue : ConstraintManager → Expr → ConstantExpr

/-- A sound and complete solver, for queries under constraints that can be satisfied. -/
structure Solver.Correct (solver : Solver) : Prop where
  evaluate_true : ∀ {manager e}, (assignments manager).Nonempty → e.Boolean
    → (solver.evaluate manager e = .True ↔ ∀ bytes ∈ assignments manager, e.Holds bytes)
  evaluate_false : ∀ {manager e}, (assignments manager).Nonempty → e.Boolean
    → (solver.evaluate manager e = .False ↔ ∀ bytes ∈ assignments manager, ¬ e.Holds bytes)
  mustBeTrue : ∀ {manager e}, (assignments manager).Nonempty → e.Boolean
    → (solver.mustBeTrue manager e = true ↔ ∀ bytes ∈ assignments manager, e.Holds bytes)
  getValue : ∀ {manager e}, (assignments manager).Nonempty → e.Typed
    → ∃ bytes ∈ assignments manager,
        solver.getValue manager e = ⟨e.getWidth, e.bits bytes e.getWidth⟩

open Classical in
/-- The solver that looks at all assignments, with the choice of an example. -/
noncomputable def solverBy (choose : Set Assignment → Assignment) : Solver where
  evaluate manager e :=
    if ∀ bytes ∈ assignments manager, e.Holds bytes then .True
    else if ∀ bytes ∈ assignments manager, ¬ e.Holds bytes then .False
    else .Unknown
  mustBeTrue manager e := decide (∀ bytes ∈ assignments manager, e.Holds bytes)
  getValue manager e := ⟨e.getWidth, e.bits (choose (assignments manager)) e.getWidth⟩

theorem solverBy_correct {choose : Set Assignment → Assignment}
    (chooses : ∀ paths : Set Assignment, paths.Nonempty → choose paths ∈ paths)
    : (solverBy choose).Correct where
  evaluate_true := by
    intro manager e feasible boolean
    simp only [solverBy]
    split
    next all => exact iff_of_true rfl all
    next some =>
      refine iff_of_false (fun isTrue => ?_) some
      split at isTrue <;> cases isTrue
  evaluate_false := by
    intro manager e feasible boolean
    obtain ⟨bytes, isIn⟩ := feasible
    simp only [solverBy]
    split
    next all => exact iff_of_false nofun fun never => never bytes isIn (all bytes isIn)
    next some =>
      split
      next never => exact iff_of_true rfl never
      next both => exact iff_of_false nofun both
  mustBeTrue := by
    intro manager e feasible boolean
    simp [solverBy]
  getValue := by
    intro manager e feasible typed
    exact ⟨_, chooses _ feasible, rfl⟩

/-- A solver that is correct. -/
noncomputable def perfectSolver : Solver :=
  solverBy fun paths => Classical.epsilon (· ∈ paths)

theorem perfectSolver_correct : perfectSolver.Correct :=
  solverBy_correct fun _ nonempty => Classical.epsilon_spec nonempty

open Classical in
/-- A correct solver that has its own first example. -/
noncomputable def solverPreferring (bytes : Assignment) : Solver :=
  solverBy fun paths => if bytes ∈ paths then bytes else Classical.epsilon (· ∈ paths)

theorem solverPreferring_correct (bytes : Assignment) : (solverPreferring bytes).Correct := by
  refine solverBy_correct fun paths nonempty => ?_
  by_cases isIn : bytes ∈ paths
  · rw [if_pos isIn]
    exact isIn
  · rw [if_neg isIn]
    exact Classical.epsilon_spec nonempty

namespace TimingSolver

variable (solver : Solver) (options : Options) (manager : ConstraintManager) (expr : Expr)

def evaluate : Except Fault Validity :=
  match expr.constant? with
  -- Fast path, to avoid timer and OS overhead.
  | some CE => do if ← CE.isTrue then .ok .True else .ok .False
  | none => .ok (solver.evaluate manager expr)

def mustBeTrue : Except Fault Bool :=
  match expr.constant? with
  | some CE => CE.isTrue
  | none => .ok (solver.mustBeTrue manager expr)

def mustBeFalse : Except Fault Bool := do
  mustBeTrue solver manager (← expr.createIsZero options)

def mayBeTrue : Except Fault Bool := do
  let res ← mustBeFalse solver options manager expr
  .ok (!res)

def getValue : ConstantExpr :=
  match expr.constant? with
  | some CE => CE
  | none => solver.getValue manager expr

end TimingSolver

variable {solver : Solver}

/-- A constant condition is decided once for the whole path. -/
theorem Decides.isTrue {c : ConstantExpr} (decides : Decides options manager (.constant c) test)
    (feasible : (assignments manager).Nonempty)
    : ∃ b, c.isTrue = .ok b ∧ ∀ bytes ∈ assignments manager, b = true ↔ test bytes := by
  obtain ⟨bytes, isIn⟩ := feasible
  obtain ⟨b, denotes, -⟩ := decides bytes isIn
  obtain rfl := denotes.constant
  refine ⟨b == 1#1, ConstantExpr.isTrue_eq b, fun bytes' isIn' => ?_⟩
  obtain ⟨b', denotes', holds⟩ := decides bytes' isIn'
  cases denotes'.constant
  rw [beq_iff_eq, holds]

section

variable (correct : solver.Correct) (feasible : (assignments manager).Nonempty)
  (decides : Decides options manager e test)
include correct feasible decides

theorem evaluate_yields
    : Yields (fun _ => TimingSolver.evaluate solver manager e) fun res =>
        (res = .True ↔ ∀ bytes ∈ assignments manager, test bytes)
        ∧ (res = .False ↔ ∀ bytes ∈ assignments manager, ¬ test bytes) := by
  unfold TimingSolver.evaluate
  split
  next CE isC =>
    obtain rfl := constant?_eq_some.mp isC
    obtain ⟨b, isTrue, same⟩ := decides.isTrue feasible
    obtain ⟨bytes, isIn⟩ := feasible
    simp only [isTrue, ok_bind]
    cases b with
    | true =>
      refine yields_ok ⟨?_, ?_⟩
      · exact iff_of_true rfl fun bytes isIn => (same bytes isIn).mp rfl
      · exact iff_of_false nofun fun none => none bytes isIn ((same bytes isIn).mp rfl)
    | false =>
      refine yields_ok ⟨?_, ?_⟩
      · exact iff_of_false nofun fun all => nomatch (same bytes isIn).mpr (all bytes isIn)
      · exact iff_of_true rfl fun bytes isIn holds => nomatch (same bytes isIn).mpr holds
  refine yields_ok ⟨?_, ?_⟩
  · rw [correct.evaluate_true feasible (decides.boolean feasible)]
    exact forall₂_congr fun bytes isIn => decides.holds_iff isIn
  · rw [correct.evaluate_false feasible (decides.boolean feasible)]
    exact forall₂_congr fun bytes isIn => not_congr (decides.holds_iff isIn)

theorem mustBeTrue_yields
    : Yields (fun _ => TimingSolver.mustBeTrue solver manager e) fun res =>
        res = true ↔ ∀ bytes ∈ assignments manager, test bytes := by
  unfold TimingSolver.mustBeTrue
  split
  next CE isC =>
    obtain rfl := constant?_eq_some.mp isC
    obtain ⟨b, isTrue, same⟩ := decides.isTrue feasible
    obtain ⟨bytes, isIn⟩ := feasible
    rw [isTrue]
    refine yields_ok ⟨fun holds bytes isIn => (same bytes isIn).mp holds, fun all => ?_⟩
    exact (same bytes isIn).mpr (all bytes isIn)
  · refine yields_ok ?_
    rw [correct.mustBeTrue feasible (decides.boolean feasible)]
    exact forall₂_congr fun bytes isIn => decides.holds_iff isIn

theorem mayBeTrue_yields
    : Yields (fun _ => TimingSolver.mayBeTrue solver options manager e) fun res =>
        res = true ↔ ∃ bytes ∈ assignments manager, test bytes := by
  unfold TimingSolver.mayBeTrue TimingSolver.mustBeFalse
  simp only [bind_assoc]
  refine (isZero_yields feasible decides).bind fun negated isNot => ?_
  refine (mustBeTrue_yields correct feasible isNot).bind fun res none => yields_ok ?_
  rw [Bool.not_eq_eq_eq_not, Bool.not_true, ← Bool.not_eq_true, none]
  push Not
  rfl

end

/-- The value of an assignment of the path. -/
theorem getValue_spec (correct : solver.Correct) (feasible : (assignments manager).Nonempty)
    (hasValue : HasValue options manager e value)
    : ∃ bytes ∈ assignments manager, TimingSolver.getValue solver manager e = ⟨w, value bytes⟩ := by
  unfold TimingSolver.getValue
  obtain ⟨bytes, isIn⟩ := feasible
  split
  next CE isC =>
    obtain rfl := constant?_eq_some.mp isC
    exact ⟨bytes, isIn, (hasValue bytes isIn).constant⟩
  obtain ⟨bytes', isIn', found⟩ := correct.getValue ⟨bytes, isIn⟩ (hasValue bytes isIn).typed
  refine ⟨bytes', isIn', ?_⟩
  obtain ⟨-, rfl, -, bits⟩ := hasValue bytes' isIn'
  rw [found, bits]

theorem solverPreferring_getValue (isIn : bytes ∈ assignments manager)
    (hasValue : HasValue options manager e value)
    : TimingSolver.getValue (solverPreferring bytes) manager e = ⟨w, value bytes⟩ := by
  unfold TimingSolver.getValue
  split
  next CE isC =>
    obtain rfl := constant?_eq_some.mp isC
    exact (hasValue bytes isIn).constant
  obtain ⟨-, rfl, -, bits⟩ := hasValue bytes isIn
  rw [← bits]
  exact congrArg (fun chosen => (⟨e.getWidth, e.bits chosen e.getWidth⟩ : ConstantExpr))
    (if_pos isIn)

end Woodpecker.Execution
