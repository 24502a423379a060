import Woodpecker.Expressions.Basic
import Woodpecker.Library.Budgets

/-! Constants, and the constructors that fold them: `AndExpr::create` and `OrExpr::create`.

The constructors of the operators share their first steps. They assert that the operands
have one width, fold two constants, and leave the rest to functions for one constant operand
and for none. The tests of constants assert that these have at most 64 bits.
-/

namespace Woodpecker.Expressions

open Library BitVec ConstantExpr

namespace ConstantExpr

def alloc (v w : Nat) : ConstantExpr :=
  ⟨w, BitVec.ofNat w v⟩

/-- The value has to fit the width. -/
def create (v w : Nat) : Except Fault ConstantExpr :=
  if v < 2 ^ w then .ok (alloc v w) else .error .assertion

def getZExtValue (c : ConstantExpr) (bits : Nat) : Except Fault Nat :=
  if c.width ≤ bits then .ok c.value.toNat else .error .assertion

def isZero (c : ConstantExpr) : Except Fault Bool := do
  let value ← c.getZExtValue 64
  .ok (value == 0)

def isOne (c : ConstantExpr) : Except Fault Bool := do
  let value ← c.getZExtValue 64
  .ok (value == 1)

def isTrue (c : ConstantExpr) : Except Fault Bool := do
  let value ← c.getZExtValue 1
  .ok (value == 1)

def isFalse (c : ConstantExpr) : Except Fault Bool := do
  let value ← c.getZExtValue 1
  .ok (value == 0)

/-- Beyond 64 bits the shift that makes the mask is undefined. -/
def maxValueOfNBits (bits : Nat) : Except Fault Nat :=
  if bits ≤ 64 then .ok (2 ^ bits - 1) else .error .assertion

def isAllOnes (c : ConstantExpr) : Except Fault Bool := do
  let value ← c.getZExtValue c.width
  let mask ← maxValueOfNBits c.width
  .ok (value == mask)

/-- The functions `Add` to `AShr`. Division asserts that the divisor is not zero. -/
def arithmetic (kind : ArithmeticKind) (l r : ConstantExpr) : Except Fault ConstantExpr :=
  let rhs := r.value.setWidth l.width
  match kind with
  | .UDiv | .SDiv | .URem | .SRem =>
    if rhs = 0#_ then .error .assertion else .ok ⟨l.width, kind.apply l.value rhs⟩
  | _ => .ok ⟨l.width, kind.apply l.value rhs⟩

/-- The functions `Eq` to `Sge`. -/
def comparison (kind : ComparisonKind) (l r : ConstantExpr) : Except Fault ConstantExpr :=
  .ok ⟨1, BitVec.ofBool (kind.apply l.value (r.value.setWidth l.width))⟩

def Concat (l r : ConstantExpr) : ConstantExpr :=
  ⟨l.width + r.width,
    l.value.setWidth (l.width + r.width) <<< r.width ||| r.value.setWidth (l.width + r.width)⟩

def Extract (c : ConstantExpr) (offset w : Nat) : ConstantExpr :=
  ⟨w, (c.value.sshiftRight offset).setWidth w⟩

def ZExt (c : ConstantExpr) (w : Nat) : ConstantExpr :=
  ⟨w, c.value.setWidth w⟩

def SExt (c : ConstantExpr) (w : Nat) : ConstantExpr :=
  ⟨w, c.value.signExtend w⟩

def Not (c : ConstantExpr) : ConstantExpr :=
  ⟨c.width, ~~~ c.value⟩

theorem create_zero (w : Nat) : create 0 w = .ok ⟨w, 0#w⟩ := by
  simp [create, alloc]

end ConstantExpr

/-- The constant an expression is, as `dyn_cast<ConstantExpr>` finds it. -/
def Expr.constant? : Expr → Option ConstantExpr
  | .constant c => some c
  | _ => none

/-- The steps of `BCREATE_R` and `CMPCREATE_T`. -/
def bcreateR (fold : ConstantExpr → ConstantExpr → Except Fault ConstantExpr)
    (createPartial : Expr → ConstantExpr → Except Fault Expr)
    (createPartialR : ConstantExpr → Expr → Except Fault Expr)
    (create : Expr → Expr → Except Fault Expr) (l r : Expr)
    : Except Fault Expr :=
  if l.getWidth ≠ r.getWidth then .error .assertion
  else
    match l.constant?, r.constant? with
    | some cl, some cr => do .ok (.constant (← fold cl cr))
    | some cl, none => createPartialR cl r
    | none, some cr => createPartial l cr
    | none, none => create l r

/-- The steps of `BCREATE` and `CMPCREATE`. -/
def bcreate (fold : ConstantExpr → ConstantExpr → Except Fault ConstantExpr)
    (create : Expr → Expr → Except Fault Expr) (l r : Expr)
    : Except Fault Expr :=
  if l.getWidth ≠ r.getWidth then .error .assertion
  else
    match l.constant?, r.constant? with
    | some cl, some cr => do .ok (.constant (← fold cl cr))
    | _, _ => create l r

/-- `create` of two constants. -/
def bcreateConstants (kind : ArithmeticKind) (cl cr : ConstantExpr) : Except Fault ConstantExpr :=
  if cl.width ≠ cr.width then .error .assertion else cl.arithmetic kind cr

def AndExpr_createPartial (l : Expr) (cr : ConstantExpr) : Except Fault Expr := do
  if ← cr.isAllOnes then .ok l
  else if ← cr.isZero then .ok (.constant cr)
  else .ok (.arithmetic .And l (.constant cr))

def AndExpr_createPartialR (cl : ConstantExpr) (r : Expr) : Except Fault Expr :=
  AndExpr_createPartial r cl

def AndExpr_create (l r : Expr) : Except Fault Expr :=
  .ok (.arithmetic .And l r)

def AndExpr.create : Expr → Expr → Except Fault Expr :=
  bcreateR (ConstantExpr.arithmetic .And) AndExpr_createPartial AndExpr_createPartialR
    AndExpr_create

def OrExpr_createPartial (l : Expr) (cr : ConstantExpr) : Except Fault Expr := do
  if ← cr.isAllOnes then .ok (.constant cr)
  else if ← cr.isZero then .ok l
  else .ok (.arithmetic .Or l (.constant cr))

def OrExpr_createPartialR (cl : ConstantExpr) (r : Expr) : Except Fault Expr :=
  OrExpr_createPartial r cl

def OrExpr_create (l r : Expr) : Except Fault Expr :=
  .ok (.arithmetic .Or l r)

def OrExpr.create : Expr → Expr → Except Fault Expr :=
  bcreateR (ConstantExpr.arithmetic .Or) OrExpr_createPartial OrExpr_createPartialR
    OrExpr_create

-- What the operations on constants return

namespace ConstantExpr

variable {w : Nat} {x : BitVec w} {c : ConstantExpr}

theorem getZExtValue_ensures (bits : Nat)
    : Ensures (c.getZExtValue bits) fun value => value = c.value.toNat := by
  unfold getZExtValue
  split
  · exact .of_ok rfl
  · exact ensures_error _

theorem isZero_ensures : Ensures (isZero ⟨w, x⟩) fun b => b = true ↔ x = 0#w :=
  (getZExtValue_ensures 64).bind fun value known => .of_ok (by
    rw [beq_iff_eq, known, ← toNat_inj]
    simp)

theorem isOne_ensures : Ensures (isOne ⟨w, x⟩) fun b => b = true → x = BitVec.ofNat w 1 :=
  (getZExtValue_ensures 64).bind fun value known => .of_ok fun one => by
    rw [beq_iff_eq, known] at one
    rw [← one]
    simp

theorem isAllOnes_ensures : Ensures (isAllOnes ⟨w, x⟩) fun b => b = true → x = allOnes w := by
  refine (getZExtValue_ensures w).bind fun value known => ensures_bind fun mask masked => .of_ok ?_
  intro full
  unfold maxValueOfNBits at masked
  split at masked
  · cases masked
    rw [beq_iff_eq, known] at full
    rw [← toNat_inj, toNat_allOnes]
    exact full
  · cases masked

/-- The test of a one-bit constant never faults. -/
theorem isTrue_eq (b : BitVec 1) : isTrue ⟨1, b⟩ = .ok (b == 1#1) := by
  revert b
  decide

theorem isFalse_eq (b : BitVec 1) : isFalse ⟨1, b⟩ = .ok (b == 0#1) := by
  revert b
  decide

end ConstantExpr

variable {options : Options} {bytes : Assignment} {w n : Nat} {x y : BitVec w} {z : BitVec n}
  {e l r : Expr} {cl cr : ConstantExpr}

/-- If a constructor returns, the expression has the value. -/
abbrev Makes (options : Options) (bytes : Assignment) (made : Except Fault Expr) (v : BitVec n)
    : Prop :=
  Ensures made fun e => Denotes options bytes e v

theorem constant?_eq_some {c : ConstantExpr} : e.constant? = some c ↔ e = .constant c := by
  cases e <;> simp [Expr.constant?]

theorem eq_constant_of_isSome (isC : e.constant?.isSome) : ∃ c, e = .constant c := by
  obtain ⟨c, isC⟩ := Option.isSome_iff_exists.mp isC
  exact ⟨c, constant?_eq_some.mp isC⟩

theorem arithmetic_makes {kind : ArithmeticKind} (left : Denotes options bytes (.constant cl) x)
    (right : Denotes options bytes (.constant cr) y)
    : Ensures (cl.arithmetic kind cr) fun c =>
        Denotes options bytes (.constant c) (kind.apply x y) := by
  obtain rfl := left.constant
  obtain rfl := right.constant
  have folded : Denotes options bytes (.constant ⟨w, kind.apply x (y.setWidth w)⟩)
      (kind.apply x y) := by
    simpa using denotes_constant options bytes ⟨w, kind.apply x y⟩
  unfold arithmetic
  cases kind
  case UDiv | SDiv | URem | SRem =>
    simp only
    split
    · exact ensures_error _
    · exact .of_ok folded
  all_goals exact .of_ok folded

theorem comparison_makes {kind : ComparisonKind} (left : Denotes options bytes (.constant cl) x)
    (right : Denotes options bytes (.constant cr) y)
    : Ensures (cl.comparison kind cr) fun c =>
        Denotes options bytes (.constant c) (ofBool (kind.apply x y)) := by
  obtain rfl := left.constant
  obtain rfl := right.constant
  refine .of_ok ?_
  simpa using denotes_constant options bytes ⟨1, ofBool (kind.apply x y)⟩

theorem makes_arithmetic {kind : ArithmeticKind} (left : Denotes options bytes l x)
    (right : Denotes options bytes r y)
    : Makes options bytes (.ok (.arithmetic kind l r)) (kind.apply x y) :=
  .of_ok (denotes_arithmetic.mpr ⟨x, y, left, right, rfl⟩)

theorem makes_comparison {kind : ComparisonKind} (left : Denotes options bytes l x)
    (right : Denotes options bytes r y)
    : Makes options bytes (.ok (.comparison kind l r)) (ofBool (kind.apply x y)) :=
  .of_ok (denotes_comparison.mpr ⟨w, x, y, left, right, rfl⟩)

section

variable {fold : ConstantExpr → ConstantExpr → Except Fault ConstantExpr}
  {create : Expr → Expr → Except Fault Expr}
  (left : Denotes options bytes l x) (right : Denotes options bytes r y)
  (both : ∀ {cl cr}, Denotes options bytes (.constant cl) x
    → Denotes options bytes (.constant cr) y
    → Ensures (fold cl cr) fun c => Denotes options bytes (.constant c) z)
include left right both

/-- The four cases of a constructor that treats one constant operand apart. -/
theorem bcreateR_makes {createPartial : Expr → ConstantExpr → Except Fault Expr}
    {createPartialR : ConstantExpr → Expr → Except Fault Expr}
    (one : ∀ {cr}, Denotes options bytes (.constant cr) y
      → Makes options bytes (createPartial l cr) z)
    (oneR : ∀ {cl}, Denotes options bytes (.constant cl) x
      → Makes options bytes (createPartialR cl r) z)
    (neither : Makes options bytes (create l r) z)
    : Makes options bytes (bcreateR fold createPartial createPartialR create l r) z := by
  unfold bcreateR
  split
  · exact ensures_error _
  split
  next cl cr isL isR =>
    rw [constant?_eq_some.mp isL] at left
    rw [constant?_eq_some.mp isR] at right
    exact (both left right).bind fun _ folded => .of_ok folded
  next cl isL _ => exact oneR (constant?_eq_some.mp isL ▸ left)
  next cr _ isR => exact one (constant?_eq_some.mp isR ▸ right)
  · exact neither

theorem bcreate_makes (general : Makes options bytes (create l r) z)
    : Makes options bytes (bcreate fold create l r) z := by
  unfold bcreate
  split
  · exact ensures_error _
  split
  next cl cr isL isR =>
    rw [constant?_eq_some.mp isL] at left
    rw [constant?_eq_some.mp isR] at right
    exact (both left right).bind fun _ folded => .of_ok folded
  · exact general

end

/-- Two tests decide between three expressions. -/
theorem ensures_tests {post : Expr → Prop} {first second : Except Fault Bool} {a b c : Expr}
    (isA : post a) (isB : post b) (isC : post c)
    : Ensures (do if ← first then .ok a else if ← second then .ok b else .ok c) post := by
  refine ensures_bind fun holds _ => ?_
  split
  · exact .of_ok isA
  refine ensures_bind fun holds _ => ?_
  split
  · exact .of_ok isB
  · exact .of_ok isC

-- Conjunction and disjunction

section

variable (left : Denotes options bytes l x)
include left

theorem AndExpr_createPartial_makes (right : Denotes options bytes (.constant cr) y)
    : Makes options bytes (AndExpr_createPartial l cr) (x &&& y) := by
  obtain rfl := right.constant
  refine isAllOnes_ensures.bind fun full known => ?_
  split
  next ones =>
    rw [known ones, and_allOnes]
    exact .of_ok left
  refine isZero_ensures.bind fun zero known => ?_
  split
  next none =>
    rw [known.mp none] at right ⊢
    rw [and_zero]
    exact .of_ok right
  · exact makes_arithmetic left right

theorem AndExpr.create_makes (right : Denotes options bytes r y)
    : Makes options bytes (AndExpr.create l r) (x &&& y) := by
  refine bcreateR_makes left right arithmetic_makes (AndExpr_createPartial_makes left) ?_
    (makes_arithmetic left right)
  rw [ArithmeticKind.apply, BitVec.and_comm]
  exact AndExpr_createPartial_makes right

theorem OrExpr_createPartial_makes (right : Denotes options bytes (.constant cr) y)
    : Makes options bytes (OrExpr_createPartial l cr) (x ||| y) := by
  obtain rfl := right.constant
  refine isAllOnes_ensures.bind fun full known => ?_
  split
  next ones =>
    rw [known ones] at right ⊢
    rw [or_allOnes]
    exact .of_ok right
  refine isZero_ensures.bind fun zero known => ?_
  split
  next none =>
    rw [known.mp none, or_zero]
    exact .of_ok left
  · exact makes_arithmetic left right

theorem OrExpr.create_makes (right : Denotes options bytes r y)
    : Makes options bytes (OrExpr.create l r) (x ||| y) := by
  refine bcreateR_makes left right arithmetic_makes (OrExpr_createPartial_makes left) ?_
    (makes_arithmetic left right)
  rw [ArithmeticKind.apply, BitVec.or_comm]
  exact OrExpr_createPartial_makes right

end

-- When they return

namespace ConstantExpr

variable {c : ConstantExpr}

theorem getZExtValue_returns {bits : Nat} (narrow : c.width ≤ bits)
    : Returns (c.getZExtValue bits) := by
  rw [getZExtValue, if_pos narrow]
  exact returns_ok _

theorem isZero_returns (narrow : c.width ≤ 64) : Returns c.isZero :=
  (getZExtValue_returns narrow).bind_any fun _ => returns_ok _

theorem isOne_returns (narrow : c.width ≤ 64) : Returns c.isOne :=
  (getZExtValue_returns narrow).bind_any fun _ => returns_ok _

theorem isAllOnes_returns (narrow : c.width ≤ 64) : Returns c.isAllOnes := by
  refine (getZExtValue_returns le_rfl).bind_any fun _ => ?_
  rw [maxValueOfNBits, if_pos narrow]
  exact returns_ok _

end ConstantExpr

/-- A divisor is not zero. This is what the constructors need; shifts by any amount return. -/
def ArithmeticKind.Divides {w : Nat} (kind : ArithmeticKind) (y : BitVec w) : Prop :=
  match kind with
  | .UDiv | .SDiv | .URem | .SRem => y ≠ 0#w
  | _ => True

variable {kind : ArithmeticKind}

theorem arithmetic_returns (divides : kind.Divides y)
    (left : Denotes options bytes (.constant cl) x)
    (right : Denotes options bytes (.constant cr) y)
    : Returns (cl.arithmetic kind cr) := by
  obtain rfl := left.constant
  obtain rfl := right.constant
  unfold arithmetic
  cases kind
  case UDiv | SDiv | URem | SRem =>
    have nonzero : y.setWidth w ≠ 0#w := by
      rw [BitVec.setWidth_eq]
      exact divides
    simp only [if_neg nonzero]
    exact returns_ok _
  all_goals exact returns_ok _

/-- The operands of an operator have one width. -/
theorem Denotes.same_width (left : Denotes options bytes l x) (right : Denotes options bytes r y)
    : l.getWidth = r.getWidth :=
  left.width.trans right.width.symm

variable {fold : ConstantExpr → ConstantExpr → Except Fault ConstantExpr}

section

variable {create : Expr → Expr → Except Fault Expr} (left : Denotes options bytes l x)
  (right : Denotes options bytes r y) (both : ∀ {cl cr}, Denotes options bytes (.constant cl) x
    → Denotes options bytes (.constant cr) y → Returns (fold cl cr))
include left right both

/-- The four cases of a constructor that treats one constant operand apart. -/
theorem bcreateR_finishes {createPartial : Nat → Expr → ConstantExpr → Except Fault Expr}
    {createPartialR : Nat → ConstantExpr → Expr → Except Fault Expr}
    {create : Nat → Expr → Expr → Except Fault Expr}
    (one : ∀ {cr}, l.constant? = none → Denotes options bytes (.constant cr) y
      → Finishes fun fuel => createPartial fuel l cr)
    (oneR : ∀ {cl}, Denotes options bytes (.constant cl) x
      → Finishes fun fuel => createPartialR fuel cl r)
    (neither : l.constant? = none → r.constant? = none → Finishes fun fuel => create fuel l r)
    : Finishes fun fuel =>
        bcreateR fold (createPartial fuel) (createPartialR fuel) (create fuel) l r := by
  unfold bcreateR
  simp only [left.same_width right, ne_eq, not_true_eq_false, if_false]
  rcases isL : l.constant? with _ | cl
  · cases isR : r.constant? with
    | none => exact neither isL isR
    | some cr => exact one isL (constant?_eq_some.mp isR ▸ right)
  rw [constant?_eq_some.mp isL] at left
  cases isR : r.constant? with
  | none => exact oneR left
  | some cr =>
    have folded := both left (constant?_eq_some.mp isR ▸ right)
    exact finishes_const.mpr (folded.bind_any fun _ => returns_ok _)

theorem bcreateR_returns {createPartial : Expr → ConstantExpr → Except Fault Expr}
    {createPartialR : ConstantExpr → Expr → Except Fault Expr}
    (one : ∀ {cr}, Denotes options bytes (.constant cr) y → Returns (createPartial l cr))
    (oneR : ∀ {cl}, Denotes options bytes (.constant cl) x → Returns (createPartialR cl r))
    (neither : Returns (create l r))
    : Returns (bcreateR fold createPartial createPartialR create l r) :=
  finishes_const.mp (bcreateR_finishes left right both
    (fun _ isR => finishes_const.mpr (one isR)) (fun isL => finishes_const.mpr (oneR isL))
    fun _ _ => finishes_const.mpr neither)

end

theorem bcreate_returns {create : Expr → Expr → Except Fault Expr} (same : l.getWidth = r.getWidth)
    (both : ∀ cl cr, l = .constant cl → r = .constant cr → Returns (fold cl cr))
    (general : Returns (create l r))
    : Returns (bcreate fold create l r) := by
  unfold bcreate
  rw [if_neg (not_not.mpr same)]
  split
  next cl cr isL isR =>
    have folded := both cl cr (constant?_eq_some.mp isL) (constant?_eq_some.mp isR)
    exact folded.bind_any fun _ => returns_ok _
  · exact general

/-- Two tests decide between three expressions. -/
theorem returns_tests {first second : Except Fault Bool} {a b c : Expr} (one : Returns first)
    (two : Returns second)
    : Returns (do if ← first then .ok a else if ← second then .ok b else .ok c) := by
  refine one.bind_any fun holds => ?_
  split
  · exact returns_ok _
  refine two.bind_any fun holds => ?_
  split <;> exact returns_ok _

-- Conjunction and disjunction

theorem AndExpr_createPartial_returns (l : Expr) (narrow : cr.width ≤ 64)
    : Returns (AndExpr_createPartial l cr) :=
  returns_tests (isAllOnes_returns narrow) (isZero_returns narrow)

theorem OrExpr_createPartial_returns (l : Expr) (narrow : cr.width ≤ 64)
    : Returns (OrExpr_createPartial l cr) :=
  returns_tests (isAllOnes_returns narrow) (isZero_returns narrow)

section

variable (left : Denotes options bytes l x) (right : Denotes options bytes r y) (narrow : w ≤ 64)
include left right narrow

theorem AndExpr.create_returns : Returns (create l r) :=
  bcreateR_returns left right (arithmetic_returns (by trivial))
    (fun isR => AndExpr_createPartial_returns l (isR.width.trans_le narrow))
    (fun isL => AndExpr_createPartial_returns r (isL.width.trans_le narrow)) (returns_ok _)

theorem OrExpr.create_returns : Returns (create l r) :=
  bcreateR_returns left right (arithmetic_returns (by trivial))
    (fun isR => OrExpr_createPartial_returns l (isR.width.trans_le narrow))
    (fun isL => OrExpr_createPartial_returns r (isL.width.trans_le narrow)) (returns_ok _)

end

-- Returning what is to be made

/-- A constructor returns an expression that has the value. -/
def Builds (options : Options) (bytes : Assignment) (made : Except Fault Expr) (v : BitVec n)
    : Prop :=
  ∃ e, made = .ok e ∧ Denotes options bytes e v

variable {made : Except Fault Expr}

theorem Builds.of_ok (denotes : Denotes options bytes e z) : Builds options bytes (.ok e) z :=
  ⟨e, rfl, denotes⟩

theorem Makes.builds (makes : Makes options bytes made z) (returns : Returns made)
    : Builds options bytes made z := by
  obtain ⟨e, rfl⟩ := returns
  exact .of_ok (makes e rfl)

section

variable (builds : Builds options bytes made z)
include builds

theorem Builds.makes : Makes options bytes made z := by
  obtain ⟨e, rfl, denotes⟩ := builds
  exact .of_ok denotes

theorem Builds.returns : Returns made := by
  obtain ⟨e, rfl, -⟩ := builds
  exact returns_ok e

theorem Builds.bind {next : Expr → Except Fault Expr}
    (rest : ∀ e, Denotes options bytes e z → Builds options bytes (next e) x)
    : Builds options bytes (made >>= next) x := by
  obtain ⟨e, rfl, denotes⟩ := builds
  exact rest e denotes

end

section

variable {x y : BitVec 1} (left : Denotes options bytes l x) (right : Denotes options bytes r y)
include left right

theorem AndExpr.create_builds : Builds options bytes (create l r) (x &&& y) :=
  (create_makes left right).builds (create_returns left right (by decide))

theorem OrExpr.create_builds : Builds options bytes (create l r) (x ||| y) :=
  (create_makes left right).builds (create_returns left right (by decide))

end

end Woodpecker.Expressions
