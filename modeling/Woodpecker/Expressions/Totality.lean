import Woodpecker.Expressions.Rebuild

/-! The other constructors without a budget return on well typed operands of at most 64 bits.

Only the tests of constants are left to look at: they assert widths, and division asserts its
divisor.
-/

namespace Woodpecker.Expressions

open Library ConstantExpr

/-- The divisor is not zero, and the amount of a shift is smaller than the width. -/
def ArithmeticKind.Defined {w : Nat} (kind : ArithmeticKind) (y : BitVec w) : Prop :=
  match kind with
  | .UDiv | .SDiv | .URem | .SRem => y ≠ 0#w
  | .Shl | .LShr | .AShr => y.toNat < w
  | _ => True

variable {w : Nat} {kind : ArithmeticKind}

theorem ArithmeticKind.Defined.divides {y : BitVec w} (defined : kind.Defined y)
    : kind.Divides y := by
  cases kind
  case UDiv | SDiv | URem | SRem => exact defined
  all_goals trivial

variable {options : Options} {bytes : Assignment} {w n : Nat} {x y : BitVec w}
  {e l r : Expr} {cl cr : ConstantExpr}

theorem XorExpr_createPartialR_returns (left : Denotes options bytes (.constant cl) x)
    (right : Denotes options bytes r y) (narrow : w ≤ 64)
    : Returns (XorExpr_createPartialR options cl r) := by
  refine (isZero_returns (left.width.trans_le narrow)).bind_any fun zero => ?_
  cases zero with
  | true => exact returns_ok _
  | false =>
    rw [if_neg Bool.false_ne_true]
    split
    next one =>
      obtain rfl : w = 1 := left.width.symm.trans one
      exact (EqExpr_createPartialR_builds _ r (denotes_constant options bytes ⟨1, 0#1⟩)
        right).returns
    · exact returns_ok _

theorem XorExpr.create_returns (left : Denotes options bytes l x)
    (right : Denotes options bytes r y) (narrow : w ≤ 64)
    : Returns (create options l r) :=
  bcreateR_returns left right (arithmetic_returns (by trivial))
    (XorExpr_createPartialR_returns · left narrow) (XorExpr_createPartialR_returns · right narrow)
    (returns_ok _)

-- The other operators

theorem MulExpr_createPartialR_returns (r : Expr) (narrow : cl.width ≤ 64)
    : Returns (MulExpr_createPartialR cl r) := by
  unfold MulExpr_createPartialR
  split
  · exact AndExpr_createPartial_returns r narrow
  · exact returns_tests (isOne_returns narrow) (isZero_returns narrow)

theorem MulExpr.create_returns (left : Denotes options bytes l x)
    (right : Denotes options bytes r y) (narrow : w ≤ 64)
    : Returns (create l r) := by
  refine bcreateR_returns left right (arithmetic_returns (by trivial))
    (fun isR => MulExpr_createPartialR_returns l (isR.width.trans_le narrow))
    (fun isL => MulExpr_createPartialR_returns r (isL.width.trans_le narrow)) ?_
  unfold MulExpr_create
  split <;> exact returns_ok _

variable {oneBit : Expr → Expr → Except Fault Expr}

theorem createUnlessBool_returns {alloc : Expr → Expr → Expr}
    (bool : l.getWidth = 1 → Returns (oneBit l r))
    : Returns (createUnlessBool oneBit alloc l r) := by
  unfold createUnlessBool
  split
  next one => exact bool one
  · exact returns_ok _

section

variable (left : Denotes options bytes l x) (right : Denotes options bytes r y)
include left right

theorem arithmetic_unlessBool_returns (divides : ∀ cr, r = .constant cr → kind.Divides y)
    (bool : w = 1 → Returns (oneBit l r))
    : Returns (bcreate (arithmetic kind) (createUnlessBool oneBit (.arithmetic kind)) l r) := by
  refine bcreate_returns (left.same_width right) ?_ (createUnlessBool_returns fun one => ?_)
  · rintro cl cr rfl rfl
    exact arithmetic_returns (divides cr rfl) left right
  · exact bool (left.width.symm.trans one)

theorem then_isZero_returns (one : w = 1)
    : Returns (do AndExpr.create l (← r.createIsZero options)) := by
  subst one
  exact ((Expr.createIsZero_builds right).bind fun _ zero =>
    AndExpr.create_builds left zero).returns

end

theorem NotExpr.create_returns (e : Expr) : Returns (create e) := by
  unfold create
  split <;> exact returns_ok _

theorem ReadExpr.create_returns {head : UpdateNode} {index : Expr} {i : BitVec 32}
    (root : Array) (valid : head.Valid options bytes) (isI : Denotes options bytes index i)
    : Returns (create options root head index) := by
  obtain ⟨known, found, -⟩ := knownUpdate_returns root isI head valid
  rw [create, found, ok_bind]
  cases known <;> exact returns_ok _

end Woodpecker.Expressions
