import Woodpecker.Expressions.Totality

/-! The constructors with a budget finish: addition and subtraction, concatenation and
extraction.

Where a sum has a constant operand, the recursion follows the other operand downwards. Any
other sum first makes a smaller one and then adds a constant to whatever that gave. An
extraction finishes on smaller expressions only, as the pieces that a concatenation merges
again are pieces of one part of it.
-/

namespace Woodpecker.Expressions

open Library

variable {options : Options} {bytes : Assignment} {w m n : Nat} {e l r : Expr}

-- Sums and differences

section Sums

variable {x y : BitVec w}

/-- The steps for a constant operand, with the constructors at the budget. -/
def PartialsFinish (options : Options) (c : ConstantExpr) (r : Expr) : Prop :=
  (Finishes fun fuel => AddExpr_createPartialR options (AddExpr.create options fuel)
      (SubExpr.create options fuel) c r)
  ∧ Finishes fun fuel => SubExpr_createPartialR options (AddExpr.create options fuel)
      (SubExpr.create options fuel) c r

/-- Two constants are folded. -/
theorem AddExpr.create_constants (x y : BitVec w)
    : Settles (fun fuel => AddExpr.create options fuel (.constant ⟨w, x⟩) (.constant ⟨w, y⟩))
        (.constant ⟨w, x + y⟩) := by
  refine Settles.of_succ ⟨0, fun fuel _ => ?_⟩
  simp [AddExpr.create, bcreateR, Expr.getWidth, Expr.constant?, ConstantExpr.arithmetic,
    ArithmeticKind.apply]

theorem SubExpr.create_constants (x y : BitVec w)
    : Settles (fun fuel => SubExpr.create options fuel (.constant ⟨w, x⟩) (.constant ⟨w, y⟩))
        (.constant ⟨w, x - y⟩) := by
  refine Settles.of_succ ⟨0, fun fuel _ => ?_⟩
  simp [SubExpr.create, bcreateR, Expr.getWidth, Expr.constant?, ConstantExpr.arithmetic,
    ArithmeticKind.apply]

theorem AddExpr.create_finishes (left : Denotes options bytes l x)
    (right : Denotes options bytes r y) (one : l.constant? = none → PartialsFinish options ⟨w, y⟩ l)
    (oneR : PartialsFinish options ⟨w, x⟩ r)
    (neither : l.constant? = none → r.constant? = none → Finishes fun fuel =>
      AddExpr_create (AddExpr.create options fuel) (SubExpr.create options fuel) l r)
    : Finishes fun fuel => AddExpr.create options fuel l r := by
  refine Finishes.of_succ ?_
  simp only [AddExpr.create]
  refine bcreateR_finishes left right (arithmetic_returns (by trivial)) ?_ ?_ neither
  · intro cr notL isR
    obtain rfl := isR.constant
    exact (one notL).1
  · intro cl isL
    obtain rfl := isL.constant
    exact oneR.1

/-- A constant on the right is negated and added. -/
theorem SubExpr.create_finishes (left : Denotes options bytes l x)
    (right : Denotes options bytes r y)
    (one : l.constant? = none → PartialsFinish options ⟨w, -y⟩ l)
    (oneR : PartialsFinish options ⟨w, x⟩ r)
    (neither : l.constant? = none → r.constant? = none → Finishes fun fuel =>
      SubExpr_create options (AddExpr.create options fuel) (SubExpr.create options fuel) l r)
    : Finishes fun fuel => SubExpr.create options fuel l r := by
  refine Finishes.of_succ ?_
  simp only [SubExpr.create]
  refine bcreateR_finishes left right (arithmetic_returns (by trivial)) ?_ ?_ neither
  · intro cr notL isR
    obtain rfl := isR.constant
    have negated : (ConstantExpr.alloc 0 w).arithmetic .Sub ⟨w, y⟩ = .ok ⟨w, -y⟩ := by
      change Except.ok (⟨w, 0#w - y.setWidth w⟩ : ConstantExpr) = _
      rw [BitVec.setWidth_eq, BitVec.zero_sub]
    simp only [SubExpr_createPartial, negated, ok_bind]
    exact (one notL).1
  · intro cl isL
    obtain rfl := isL.constant
    exact oneR.2

/-- The recursion is on the operand that is not constant: where it is a sum or a difference
with a constant of its own, the constants are folded and its other operand is next.
-/
theorem partials_finish (narrow : w ≤ 64) (x : BitVec w) (r : Expr) {y : BitVec w}
    (right : Denotes options bytes r y)
    : PartialsFinish options ⟨w, x⟩ r := by
  have left : Denotes options bytes (.constant ⟨w, x⟩) x := denotes_constant options bytes _
  by_cases bool : w = 1
  · have exclusive := XorExpr_createPartialR_returns left right narrow
    simp only [PartialsFinish, AddExpr_createPartialR, SubExpr_createPartialR, if_pos bool]
    exact ⟨finishes_const.mpr exclusive, finishes_const.mpr exclusive⟩
  obtain ⟨zero, isZero⟩ := ConstantExpr.isZero_returns (c := ⟨w, x⟩) narrow
  simp only [PartialsFinish, AddExpr_createPartialR, SubExpr_createPartialR, if_neg bool,
    isZero, ok_bind]
  cases r with
  | arithmetic kind a c =>
    obtain ⟨p, q, isP, isQ, rfl⟩ := denotes_arithmetic.mp right
    cases a with
    | constant k =>
      obtain rfl := isP.constant
      -- Both constructors finish on a folded constant and the other operand.
      have folded (v : BitVec w) : Denotes options bytes (.constant ⟨w, v⟩) v :=
        denotes_constant options bytes _
      have adds (v : BitVec w)
          : Finishes fun fuel => AddExpr.create options fuel (.constant ⟨w, v⟩) c :=
        AddExpr.create_finishes (folded v) isQ nofun (partials_finish narrow v c isQ) nofun
      have subs (v : BitVec w)
          : Finishes fun fuel => SubExpr.create options fuel (.constant ⟨w, v⟩) c :=
        SubExpr.create_finishes (folded v) isQ nofun (partials_finish narrow v c isQ) nofun
      obtain ⟨sum, addsSum⟩ := adds (x + p)
      obtain ⟨difference, subsSum⟩ := subs (x + p)
      obtain ⟨sum', addsDifference⟩ := adds (x - p)
      obtain ⟨difference', subsDifference⟩ := subs (x - p)
      cases kind
      case Add =>
        refine ⟨?_, ((SubExpr.create_constants x p).bind subsDifference).finishes⟩
        cases zero with
        | true => exact (settles_ok _).finishes
        | false => exact ((AddExpr.create_constants x p).bind addsSum).finishes
      case Sub =>
        refine ⟨?_, ((SubExpr.create_constants x p).bind addsDifference).finishes⟩
        cases zero with
        | true => exact (settles_ok _).finishes
        | false => exact ((AddExpr.create_constants x p).bind subsSum).finishes
      all_goals
        refine ⟨?_, (settles_ok _).finishes⟩
        cases zero <;> exact (settles_ok _).finishes
    | _ =>
      cases kind <;> cases zero
      all_goals exact ⟨(settles_ok _).finishes, (settles_ok _).finishes⟩
  | _ =>
    cases zero
    all_goals exact ⟨(settles_ok _).finishes, (settles_ok _).finishes⟩
termination_by structural r

/-- A sum, and a difference on either side, of a constant with what is made first. -/
theorem constant_sums_finish (narrow : w ≤ 64) {k : ConstantExpr} {first : Nat → Except Fault Expr}
    (constant : Denotes options bytes (.constant k) x) (finishes : Finishes first)
    (makes : ∀ fuel, Makes options bytes (first fuel) y)
    : (Finishes fun fuel => do AddExpr.create options fuel (.constant k) (← first fuel))
      ∧ (Finishes fun fuel => do SubExpr.create options fuel (.constant k) (← first fuel))
      ∧ (Finishes fun fuel => do SubExpr.create options fuel (← first fuel) (.constant k)) := by
  obtain rfl := constant.constant
  have partials (v : BitVec w) {e : Expr} (isE : Denotes options bytes e y)
      : PartialsFinish options ⟨w, v⟩ e :=
    partials_finish narrow v e isE
  refine ⟨?_, ?_, ?_⟩ <;> refine finishes.bind makes fun e isE => ?_
  · exact AddExpr.create_finishes constant isE nofun (partials x isE) nofun
  · exact SubExpr.create_finishes constant isE nofun (partials x isE) nofun
  · exact SubExpr.create_finishes isE constant (fun _ => partials (-x) isE)
      (partials_finish narrow y _ constant) nofun

/-- Both constructors together. The first of the two calls for a sum or difference with a
constant of its own has operands of smaller size; the second has a constant operand.
-/
theorem sums_finish (narrow : w ≤ 64) (l r : Expr) {x y : BitVec w}
    (left : Denotes options bytes l x) (right : Denotes options bytes r y)
    : (Finishes fun fuel => AddExpr.create options fuel l r)
      ∧ Finishes fun fuel => SubExpr.create options fuel l r := by
  have makes := sums_make options bytes
  constructor
  · suffices general : Finishes fun fuel =>
        AddExpr_create (AddExpr.create options fuel) (SubExpr.create options fuel) l r from
      AddExpr.create_finishes left right (fun _ => partials_finish narrow y l left)
        (partials_finish narrow x r right) fun _ _ => general
    unfold AddExpr_create
    split
    · exact (settles_ok _).finishes
    split
    next k a _ =>
      obtain ⟨p, q, isP, isQ, rfl⟩ := denotes_arithmetic.mp left
      exact (constant_sums_finish narrow isP (sums_finish narrow a r isQ right).1
        fun fuel => (makes fuel).1 isQ right).1
    next k a _ =>
      obtain ⟨p, q, isP, isQ, rfl⟩ := denotes_arithmetic.mp left
      exact (constant_sums_finish narrow isP (sums_finish narrow r a right isQ).2
        fun fuel => (makes fuel).2 right isQ).1
    next k b _ _ =>
      obtain ⟨p, q, isP, isQ, rfl⟩ := denotes_arithmetic.mp right
      exact (constant_sums_finish narrow isP (sums_finish narrow l b left isQ).1
        fun fuel => (makes fuel).1 left isQ).1
    next k b _ _ =>
      obtain ⟨p, q, isP, isQ, rfl⟩ := denotes_arithmetic.mp right
      exact (constant_sums_finish narrow isP (sums_finish narrow l b left isQ).2
        fun fuel => (makes fuel).2 left isQ).1
    · exact (settles_ok _).finishes
  · suffices general : Finishes fun fuel =>
        SubExpr_create options (AddExpr.create options fuel) (SubExpr.create options fuel) l r from
      SubExpr.create_finishes left right (fun _ => partials_finish narrow (-y) l left)
        (partials_finish narrow x r right) fun _ _ => general
    unfold SubExpr_create
    split
    · exact (settles_ok _).finishes
    split
    · exact (settles_ok _).finishes
    split
    next k a _ _ =>
      obtain ⟨p, q, isP, isQ, rfl⟩ := denotes_arithmetic.mp left
      exact (constant_sums_finish narrow isP (sums_finish narrow a r isQ right).2
        fun fuel => (makes fuel).2 isQ right).1
    next k a _ _ =>
      obtain ⟨p, q, isP, isQ, rfl⟩ := denotes_arithmetic.mp left
      exact (constant_sums_finish narrow isP (sums_finish narrow a r isQ right).1
        fun fuel => (makes fuel).1 isQ right).2.1
    next k b _ _ _ =>
      obtain ⟨p, q, isP, isQ, rfl⟩ := denotes_arithmetic.mp right
      exact (constant_sums_finish narrow isP (sums_finish narrow l b left isQ).2
        fun fuel => (makes fuel).2 left isQ).2.2
    next k b _ _ _ =>
      obtain ⟨p, q, isP, isQ, rfl⟩ := denotes_arithmetic.mp right
      exact (constant_sums_finish narrow isP (sums_finish narrow l b left isQ).1
        fun fuel => (makes fuel).1 left isQ).2.2
    · exact (settles_ok _).finishes
termination_by sizeOf l + sizeOf r

end Sums

-- Concatenation and extraction

/-- Something is made, and where it is an extraction, one from a small expression. -/
def SettlesSmall (small : Expr → Prop) (action : Nat → Except Fault Expr) : Prop :=
  ∃ made, Settles action made ∧ ∀ inner off w, made = .extract inner off w → small inner

/-- Every extraction from the expression finishes, and where it gives an extraction again,
that is from no larger expression.
-/
def Extractable (options : Options) (e : Expr) : Prop :=
  ∀ off w, 0 < w → off + w ≤ e.getWidth →
    ∃ made, Settles (fun fuel => ExtractExpr.create options fuel e off w) made
      ∧ ∀ inner off' w', made = .extract inner off' w' → sizeOf inner ≤ sizeOf e

/-- A concatenation finishes if the extractions from what its left side is extracted from
do. It gives an extraction only by merging two.
-/
theorem ConcatExpr.create_settles {x : BitVec m} {y : BitVec n}
    (left : Denotes options bytes l x) (right : Denotes options bytes r y) (positive : 0 < m)
    (pieces : ∀ e off w, l = .extract e off w → Extractable options e)
    : SettlesSmall (fun inner => ∃ e off w, l = .extract e off w ∧ sizeOf inner ≤ sizeOf e)
        fun fuel => create options fuel l r := by
  refine Yields.of_succ ?_
  simp only [ConcatExpr.create]
  unfold ConcatExpr_create
  split
  · exact yields_ok fun _ _ _ is => by cases is
  next e leftOffset leftWidth e' rightOffset rightWidth =>
    split
    next contiguous =>
      obtain ⟨-, meet⟩ := contiguous
      obtain ⟨-, rfl, inside, -, -⟩ := left.of_extract
      have merged := pieces e leftOffset leftWidth rfl rightOffset (leftWidth + rightWidth)
        (by omega) (by omega)
      exact Yields.mono merged fun _ small inner off w is =>
        ⟨e, _, _, rfl, small inner off w is⟩
    · exact yields_ok fun _ _ _ is => by cases is
  · exact yields_ok fun _ _ _ is => by cases is

/-- The extractions that one from a concatenation needs are from smaller expressions. -/
theorem extractable_of_smaller {x : BitVec m} (denotes : Denotes options bytes e x)
    (smaller : ∀ part {k : Nat} (v : BitVec k), sizeOf part < sizeOf e
      → Denotes options bytes part v → Extractable options part)
    : Extractable options e := by
  intro off w positive inside
  refine Yields.of_succ ?_
  simp only [ExtractExpr.create]
  unfold ExtractExpr_create
  simp only [if_neg (not_not.mpr (And.intro positive inside))]
  split
  · refine yields_ok fun inner off' w' is => ?_
    rw [is]
    simp
    omega
  split
  · exact yields_ok fun _ _ _ is => by cases is
  next l r _ =>
    obtain ⟨a, b, -, isA, isB, -⟩ := denotes.of_concat
    have width : (Expr.concat l r).getWidth = l.getWidth + r.getWidth := rfl
    have size : sizeOf (Expr.concat l r) = 1 + sizeOf l + sizeOf r := by simp
    have fromL := smaller l a (by omega) isA
    have fromR := smaller r b (by omega) isB
    split
    · have piece := fromL (off - r.getWidth) w positive (by omega)
      exact Yields.mono piece fun _ small _ _ _ is => (small _ _ _ is).trans (by omega)
    split
    next below =>
      have piece := fromR off w positive below
      exact Yields.mono piece fun _ small _ _ _ is => (small _ _ _ is).trans (by omega)
    obtain ⟨high, settlesH, smallH⟩ := fromL 0 (w + off - r.getWidth) (by omega) (by omega)
    obtain ⟨low, settlesL, -⟩ := fromR off (r.getWidth - off) (by omega) (by omega)
    have isHigh := settlesH.ensures fun fuel => (pieces_make options bytes fuel).2 _ _ isA
    have isLow := settlesL.ensures fun fuel => (pieces_make options bytes fuel).2 _ _ isB
    have pieces (e off w) (is : high = .extract e off w) : Extractable options e := by
      have small := smallH e off w is
      subst is
      obtain ⟨z, -, -, isZ, -⟩ := isHigh.of_extract
      exact smaller e z (by omega) isZ
    obtain ⟨made, settles, small⟩ :=
      ConcatExpr.create_settles isHigh isLow (by omega) pieces
    refine ⟨made, settlesH.bind (settlesL.bind settles), fun inner off' w' is => ?_⟩
    obtain ⟨e, off, w, isHigh, smaller⟩ := small inner off' w' is
    exact (smaller.trans (smallH e off w isHigh)).trans (by omega)
  · refine yields_ok fun inner off' w' is => ?_
    cases is
    exact le_rfl

theorem ExtractExpr.create_extractable (e : Expr) {m : Nat} {x : BitVec m}
    (denotes : Denotes options bytes e x)
    : Extractable options e :=
  extractable_of_smaller denotes fun part _ _ _ isPart => create_extractable part isPart
termination_by sizeOf e

theorem ExtractExpr.create_finishes {x : BitVec m} (denotes : Denotes options bytes e x) {off : Nat}
    (positive : 0 < w) (inside : off + w ≤ m)
    : Finishes fun fuel => create options fuel e off w := by
  rw [← denotes.width] at inside
  obtain ⟨made, settles, -⟩ := create_extractable e denotes off w positive inside
  exact settles.finishes

theorem ConcatExpr.create_finishes {x : BitVec m} {y : BitVec n}
    (left : Denotes options bytes l x) (right : Denotes options bytes r y) (positive : 0 < m)
    : Finishes fun fuel => create options fuel l r := by
  have pieces (e off w) (is : l = .extract e off w) : Extractable options e := by
    subst is
    obtain ⟨z, -, -, isZ, -⟩ := left.of_extract
    exact ExtractExpr.create_extractable e isZ
  obtain ⟨made, settles, -⟩ := create_settles left right positive pieces
  exact settles.finishes

end Woodpecker.Expressions
