import Woodpecker.Expressions.Termination

/-! Each constructor computes its operator.

A call of a constructor terminates, whatever rewriting it does, and the expression that it
returns has the width of the operator and the value that the operator has on bit vectors.
-/

namespace Woodpecker.Expressions

open Library

/-- The operators on bit vectors. -/
def ArithmeticKind.plain {w : Nat} (kind : ArithmeticKind) (x y : BitVec w) : BitVec w :=
  match kind with
  | .Add => x + y
  | .Sub => x - y
  | .Mul => x * y
  | .UDiv => x / y
  | .SDiv => x.sdiv y
  | .URem => x % y
  | .SRem => x.srem y
  | .And => x &&& y
  | .Or => x ||| y
  | .Xor => x ^^^ y
  | .Shl => x <<< y
  | .LShr => x >>> y
  | .AShr => x.sshiftRight' y

theorem ArithmeticKind.apply_eq_plain {w : Nat} {kind : ArithmeticKind} (x : BitVec w)
    {y : BitVec w} (defined : kind.Defined y)
    : kind.apply x y = kind.plain x y := by
  cases kind
  case UDiv | SDiv | URem | SRem => exact if_neg defined
  all_goals rfl

/-- The special cases of the constructor test a constant operand for zero, one or all ones. -/
def ArithmeticKind.TestsConstants : ArithmeticKind → Prop
  | .Add | .Sub | .Mul | .And | .Or | .Xor => True
  | _ => False

/-- A constructor with its operands. -/
inductive Operation where
  | arithmetic (kind : ArithmeticKind) (left right : Expr)
  | comparison (kind : ComparisonKind) (left right : Expr)
  | not (expr : Expr)
  | select (cond trueExpr falseExpr : Expr)
  | concat (left right : Expr)
  | extract (expr : Expr) (offset width : Nat)
  | zext (expr : Expr) (width : Nat)
  | sext (expr : Expr) (width : Nat)
  | read (root : Array) (head : UpdateNode) (index : Expr)

namespace Operation

@[simp]
def operands : Operation → List Expr
  | .arithmetic _ left right | .comparison _ left right | .concat left right => [left, right]
  | .not expr | .extract expr _ _ | .zext expr _ | .sext expr _ => [expr]
  | .select cond trueExpr falseExpr => [cond, trueExpr, falseExpr]
  | .read _ _ index => [index]

/-- The call of the constructor. -/
def create (options : Options) (fuel : Nat) : Operation → Except Fault Expr
  | .arithmetic kind left right => kind.create options fuel left right
  | .comparison kind left right => kind.create options left right
  | .not expr => NotExpr.create expr
  | .select cond trueExpr falseExpr => SelectExpr.create options cond trueExpr falseExpr
  | .concat left right => ConcatExpr.create options fuel left right
  | .extract expr offset width => ExtractExpr.create options fuel expr offset width
  | .zext expr width => ZExtExpr.create options fuel expr width
  | .sext expr width => SExtExpr.create options fuel expr width
  | .read root head index => ReadExpr.create options root head index

def width : Operation → Nat
  | .arithmetic _ left _ => left.getWidth
  | .comparison _ _ _ => 1
  | .not expr => expr.getWidth
  | .select _ trueExpr _ => trueExpr.getWidth
  | .concat left right => left.getWidth + right.getWidth
  | .extract _ _ width => width
  | .zext _ width => width
  | .sext _ width => width
  | .read _ _ _ => 8

/-- The operator, applied to the values of the operands. -/
def value (bytes : Assignment) : (op : Operation) → BitVec op.width
  | .arithmetic kind left right =>
    kind.plain (left.bits bytes left.getWidth) (right.bits bytes left.getWidth)
  | .comparison kind left right =>
    BitVec.ofBool (kind.apply (left.bits bytes left.getWidth) (right.bits bytes left.getWidth))
  | .not expr => ~~~ expr.bits bytes expr.getWidth
  | .select cond trueExpr falseExpr =>
    if cond.bits bytes 1 = 1#1 then trueExpr.bits bytes trueExpr.getWidth
    else falseExpr.bits bytes trueExpr.getWidth
  | .concat left right => left.bits bytes left.getWidth ++ right.bits bytes right.getWidth
  | .extract expr offset width => (expr.bits bytes expr.getWidth).extractLsb' offset width
  | .zext expr width => (expr.bits bytes expr.getWidth).setWidth width
  | .sext expr width => (expr.bits bytes expr.getWidth).signExtend width
  | .read root head index => head.byte bytes root (index.bits bytes 32)

/-- The widths that the operator asks for. -/
def Fits : Operation → Prop
  | .arithmetic _ left right | .comparison _ left right => right.getWidth = left.getWidth
  | .not _ | .concat _ _ => True
  | .select cond trueExpr falseExpr =>
    cond.getWidth = 1 ∧ falseExpr.getWidth = trueExpr.getWidth
  | .extract expr offset width => 0 < width ∧ offset + width ≤ expr.getWidth
  | .zext _ width | .sext _ width => 0 < width
  | .read _ head index => head.Typed ∧ index.getWidth = 32

/-- Well typed operands of 1 to 64 bits that fit the operator. -/
structure Typed (op : Operation) : Prop where
  operands : ∀ e ∈ op.operands, e.Typed ∧ 1 ≤ e.getWidth ∧ e.getWidth ≤ 64
  fits : op.Fits

/-- Well typed operands of any width that fit the operator. -/
structure WellTyped (op : Operation) : Prop where
  operands : ∀ e ∈ op.operands, e.Typed ∧ 1 ≤ e.getWidth
  fits : op.Fits

/-- The divisor is not zero, the amount of a shift is small enough, or the read is in
bounds.
-/
def OperatorDefined (bytes : Assignment) : Operation → Prop
  | .arithmetic kind left right => kind.Defined (right.bits bytes left.getWidth)
  | .read root head index => (Expr.read root head index).InBounds bytes
  | _ => True

structure Defined (bytes : Assignment) (op : Operation) : Prop where
  operands : ∀ e ∈ op.operands, e.InBounds bytes
  operator : op.OperatorDefined bytes

/-- The constructor terminates, and what it returns has the width and the value of the
operator.
-/
def Evaluates (options : Options) (bytes : Assignment) (op : Operation) : Prop :=
  ∃ e, Settles (fun fuel => op.create options fuel) e ∧ e.Typed ∧ e.getWidth = op.width
    ∧ e.bits bytes op.width = op.value bytes

/-- The constructor looks at a constant operand through the accessors for 64 bits. -/
def TestsConstants : Operation → Prop
  | .arithmetic kind _ _ => kind.TestsConstants
  | _ => False

variable {options : Options} {bytes : Assignment} {op : Operation} {e : Expr}

theorem WellTyped.denotes (typed : op.WellTyped) (defined : op.Defined bytes)
    (member : e ∈ op.operands) {w : Nat} (width : e.getWidth = w)
    : Denotes options bytes e (e.bits bytes w) where
  typed := (typed.operands e member).1
  width := width
  bounded _ := defined.operands e member
  bits := rfl

theorem Typed.wellTyped (typed : op.Typed) : op.WellTyped where
  operands e member := ⟨(typed.operands e member).1, (typed.operands e member).2.1⟩
  fits := typed.fits

end Operation

variable {options : Options} {bytes : Assignment} {w : Nat} {l r : Expr} {x y : BitVec w}

/-- Sums and differences have a budget, the other operators need none. -/
theorem ArithmeticKind.create_finishes (kind : ArithmeticKind) (left : Denotes options bytes l x)
    (right : Denotes options bytes r y) (narrow : kind.TestsConstants → w ≤ 64)
    (divides : ∀ cr, r = .constant cr → kind.Divides y)
    : Finishes fun fuel => kind.create options fuel l r := by
  cases kind with
  | Add => exact (sums_finish (narrow trivial) l r left right).1
  | Sub => exact (sums_finish (narrow trivial) l r left right).2
  | Mul => exact finishes_const.mpr (MulExpr.create_returns left right (narrow trivial))
  | And => exact finishes_const.mpr (AndExpr.create_returns left right (narrow trivial))
  | Or => exact finishes_const.mpr (OrExpr.create_returns left right (narrow trivial))
  | Xor => exact finishes_const.mpr (XorExpr.create_returns left right (narrow trivial))
  | Shl | LShr =>
    exact finishes_const.mpr (arithmetic_unlessBool_returns left right divides
      (then_isZero_returns left right))
  | UDiv | SDiv | AShr | URem | SRem =>
    exact finishes_const.mpr (arithmetic_unlessBool_returns left right divides
      fun _ => returns_ok _)

theorem finishes_denotes {action : Nat → Except Fault Expr} {v : BitVec w}
    (finishes : Finishes action) (makes : ∀ fuel, Makes options bytes (action fuel) v)
    : ∃ e, Settles action e ∧ e.Typed ∧ e.getWidth = w ∧ e.bits bytes w = v := by
  obtain ⟨e, settles⟩ := finishes
  have denotes := settles.ensures makes
  exact ⟨e, settles, denotes.typed, denotes.width, denotes.bits⟩

/-- An extension of an expression that is as wide or wider is the expression itself or an
extraction.
-/
theorem extension_finishes (denotes : Denotes options bytes l x) {n : Nat} (positive : 0 < n)
    {wider : Except Fault Expr} (returns : Returns wider)
    : Finishes fun fuel =>
        if n = l.getWidth then .ok l
        else if n < l.getWidth then ExtractExpr.create options fuel l 0 n
        else wider := by
  split
  · exact (settles_ok _).finishes
  split
  next narrower =>
    rw [denotes.width] at narrower
    exact ExtractExpr.create_finishes denotes positive (by omega)
  · exact finishes_const.mpr returns

theorem ZExtExpr.create_finishes (denotes : Denotes options bytes l x) {n : Nat} (positive : 0 < n)
    : Finishes fun fuel => create options fuel l n := by
  refine extension_finishes denotes positive ?_
  split <;> exact returns_ok _

theorem SExtExpr.create_finishes (denotes : Denotes options bytes l x) {n : Nat} (positive : 0 < n)
    : Finishes fun fuel => create options fuel l n := by
  refine extension_finishes denotes positive ?_
  split <;> exact returns_ok _

/-- A constructor that tests no constants, or none of more than 64 bits, computes its
operator, by cases on the operator.
-/
theorem Operation.WellTyped.evaluates (options : Options) {op : Operation} (typed : op.WellTyped)
    {bytes : Assignment} (defined : op.Defined bytes) (narrow : op.TestsConstants → op.width ≤ 64)
    : op.Evaluates options bytes := by
  have denotes {e : Expr} (member : e ∈ op.operands) {w : Nat} (width : e.getWidth = w)
      : Denotes options bytes e (e.bits bytes w) := typed.denotes defined member width
  cases op with
  | arithmetic kind l r =>
    have left := denotes (e := l) (by simp) rfl
    have right := denotes (e := r) (by simp) typed.fits
    have makes (fuel : Nat) : Makes options bytes (kind.create options fuel l r)
        (kind.plain (l.bits bytes l.getWidth) (r.bits bytes l.getWidth)) := by
      rw [← kind.apply_eq_plain _ defined.operator]
      exact kind.create_makes options bytes fuel left right
    have divides : kind.Divides (r.bits bytes l.getWidth) :=
      ArithmeticKind.Defined.divides defined.operator
    exact finishes_denotes (kind.create_finishes left right narrow fun _ _ => divides) makes
  | comparison kind l r =>
    have left := denotes (e := l) (by simp) rfl
    have right := denotes (e := r) (by simp) typed.fits
    have built := kind.create_builds left right
    exact finishes_denotes (finishes_const.mpr built.returns) fun _ => built.makes
  | not expr =>
    have whole := denotes (e := expr) (by simp) rfl
    exact finishes_denotes (finishes_const.mpr (NotExpr.create_returns expr))
      fun _ => NotExpr.create_makes whole
  | select c t f =>
    have cond := denotes (e := c) (by simp) typed.fits.1
    have yes := denotes (e := t) (by simp) rfl
    have no := denotes (e := f) (by simp) typed.fits.2
    have built := SelectExpr.create_builds cond yes no
    exact finishes_denotes (finishes_const.mpr built.returns) fun _ => built.makes
  | concat l r =>
    have left := denotes (e := l) (by simp) rfl
    have right := denotes (e := r) (by simp) rfl
    have positive := (typed.operands l (by simp)).2
    exact finishes_denotes (ConcatExpr.create_finishes left right positive)
      fun fuel => (pieces_make options bytes fuel).1 left right
  | extract expr offset width =>
    have whole := denotes (e := expr) (by simp) rfl
    exact finishes_denotes (ExtractExpr.create_finishes whole typed.fits.1 typed.fits.2)
      fun fuel => (pieces_make options bytes fuel).2 offset width whole
  | zext expr width =>
    have whole := denotes (e := expr) (by simp) rfl
    exact finishes_denotes (ZExtExpr.create_finishes whole typed.fits)
      fun fuel => extension_makes (·.ZExt width) fuel whole rfl
  | sext expr width =>
    have whole := denotes (e := expr) (by simp) rfl
    exact finishes_denotes (SExtExpr.create_finishes whole typed.fits)
      fun fuel => extension_makes (·.SExt width) fuel whole rfl
  | read root head index =>
    have position := denotes (e := index) (by simp) typed.fits.2
    have bounds : (Expr.read root head index).InBounds bytes := defined.operator
    have valid : head.Valid options bytes := ⟨typed.fits.1, fun _ => bounds.1⟩
    have built := ReadExpr.create_builds valid position fun _ => bounds.2.2
    exact finishes_denotes (finishes_const.mpr built.returns) fun _ => built.makes

/-- Every constructor terminates, and what it returns has the width and the value of its
operator.
-/
theorem create_evaluates (options : Options) {op : Operation} (typed : op.Typed)
    {bytes : Assignment} (defined : op.Defined bytes)
    : ∃ e, Settles (fun fuel => op.create options fuel) e ∧ e.Typed ∧ e.getWidth = op.width
        ∧ e.bits bytes op.width = op.value bytes := by
  refine typed.wellTyped.evaluates options defined fun tests => ?_
  cases op with
  | arithmetic kind l r => exact (typed.operands l (by simp)).2.2
  | _ => exact tests.elim

theorem same_of_decide {l r : Expr} (same : decide (l = r) = true) : l = r :=
  of_decide_eq_true same

/-- Every expression is compared with every other. -/
def comparesAll : Options where
  ConstArrayOpt := true
  equal l r := l = r
  same_of_equal := @same_of_decide

theorem input_sized
    : ([] : List (BitVec 8)) = [] ∨ ([] : List (BitVec 8)).length = (1 : UInt32).toNat :=
  .inl rfl

/-- The byte of an array of one byte. -/
def inputByte : Expr :=
  .read ⟨1, "input", 1, [], input_sized⟩ .null (.constant ⟨32, 0#32⟩)

@[simp]
theorem inputByte_typed : inputByte.Typed := by
  simp [inputByte, Expr.Typed, UpdateNode.Typed, Expr.getWidth]

@[simp]
theorem inputByte_width : inputByte.getWidth = 8 :=
  rfl

@[simp]
theorem inputByte_inBounds (bytes : Assignment) : inputByte.InBounds bytes := by
  simp [inputByte, Expr.InBounds, UpdateNode.InBounds, Array.isSymbolicArray]

/-- A sum with a constant to move outwards. -/
def nestedSum : Operation :=
  .arithmetic .Add (.arithmetic .Add (.constant ⟨8, 5#8⟩) inputByte) inputByte

def sevens : Assignment :=
  fun _ _ => 7#8

theorem create_evaluates_nested
    : ∃ e, Settles (fun fuel => nestedSum.create comparesAll fuel) e ∧ e.Typed ∧ e.getWidth = 8
        ∧ e.bits sevens 8 = 19#8 := by
  have typed : nestedSum.Typed := ⟨by simp [nestedSum, Expr.Typed, Expr.getWidth], rfl⟩
  have defined : nestedSum.Defined sevens := ⟨by simp [nestedSum, Expr.InBounds], trivial⟩
  exact create_evaluates comparesAll typed defined

-- Operands of more than 64 bits

/-- A constructor that tests constants accepts no constant of more than 64 bits on the right
of an operand that is not constant.
-/
theorem ArithmeticKind.create_asserts (options : Options) {kind : ArithmeticKind}
    (tests : kind.TestsConstants) (wide : 64 < w) (symbolic : l.constant? = none)
    (width : l.getWidth = w) (y : BitVec w) (fuel : Nat)
    : kind.create options (fuel + 1) l (.constant ⟨w, y⟩) = .error .assertion := by
  have bool : w ≠ 1 := by omega
  -- No test of a constant accepts one of more than 64 bits.
  have fails (z : BitVec w)
      : ConstantExpr.isZero ⟨w, z⟩ = .error .assertion
        ∧ ConstantExpr.isOne ⟨w, z⟩ = .error .assertion
        ∧ ConstantExpr.isAllOnes ⟨w, z⟩ = .error .assertion := by
    simp [ConstantExpr.isZero, ConstantExpr.isOne, ConstantExpr.isAllOnes,
      ConstantExpr.getZExtValue, ConstantExpr.maxValueOfNBits, Nat.not_le.mpr wide]
  have isConstant : (Expr.constant ⟨w, y⟩).constant? = some ⟨w, y⟩ := rfl
  have partially {fold createPartial createPartialR create}
      : bcreateR fold createPartial createPartialR create l (.constant ⟨w, y⟩)
        = createPartial l ⟨w, y⟩ := by
    simp [bcreateR, width, Expr.getWidth, symbolic, isConstant]
  have adds {add sub} (z : BitVec w)
      : AddExpr_createPartial options add sub l ⟨w, z⟩ = .error .assertion := by
    simp [AddExpr_createPartial, AddExpr_createPartialR, bool, fails]
  cases kind <;> try exact tests.elim
  case Add => exact partially.trans (adds y)
  case Sub => exact partially.trans (adds _)
  case Mul =>
    refine partially.trans ?_
    simp [MulExpr_createPartial, MulExpr_createPartialR, bool, fails]
  case And =>
    refine partially.trans ?_
    simp [AndExpr_createPartial, fails]
  case Or =>
    refine partially.trans ?_
    simp [OrExpr_createPartial, fails]
  case Xor =>
    refine partially.trans ?_
    simp [XorExpr_createPartial, XorExpr_createPartialR, fails]

theorem Operation.not_evaluates {op : Operation}
    (asserts : ∀ fuel, op.create options (fuel + 1) = .error .assertion)
    : ¬ op.Evaluates options bytes := by
  rintro ⟨e, ⟨enough, settles⟩, -⟩
  cases (settles _ (Nat.le_succ _)).symm.trans (asserts enough)

/-- One is added to a byte extended to 128 bits. -/
def wideSum : Operation :=
  .arithmetic .Add (.cast .ZExt inputByte 128) (.constant ⟨128, 1#128⟩)

end Woodpecker.Expressions
