import Woodpecker.Execution.Resolution

/-! Addresses of elements at constant indices, as constant expressions and as instructions
compute them.

An instruction adds the field offsets and the signed indices times the sizes of the elements. A
constant expression widens an index without its sign and keeps 32 bits of a size.
-/

namespace Woodpecker.Execution

open Expressions Library BitVec

/-- A type that `gep_type_iterator` stops at, with its operand: the layout of a struct and the
number of a field, or the store size of the elements and their evaluated index.
-/
inductive IndexedType where
  | struct (getElementOffset : Nat → Nat) (ci : Nat)
  | sequential (elementSize : Nat) (index : ConstantExpr)

/-- `addend` in `evalConstantExpr`, with an `unsigned` size. -/
def IndexedType.evalAddend (pointerWidth : Nat) : IndexedType → Except Fault ConstantExpr
  | .struct getElementOffset ci => .ok (.alloc (getElementOffset (ci % 2 ^ 32)) pointerWidth)
  | .sequential elementSize index =>
    (index.ZExt pointerWidth).arithmetic .Mul (.alloc (elementSize % 2 ^ 32) pointerWidth)

/-- `addend` in `computeOffsets`. -/
def IndexedType.computeAddend (pointerWidth : Nat) : IndexedType → Except Fault ConstantExpr
  | .struct getElementOffset ci => .ok (.alloc (getElementOffset (ci % 2 ^ 32)) pointerWidth)
  | .sequential elementSize index =>
    (index.SExt pointerWidth).arithmetic .Mul (.alloc elementSize pointerWidth)

/-- The case of `evalConstantExpr` for a `GetElementPtr`. -/
def evalGetElementPtr (context : Context) (op1 : ConstantExpr) (types : List IndexedType)
    : Except Fault ConstantExpr :=
  types.foldlM (fun base ii => do base.arithmetic .Add (← ii.evalAddend context.pointerWidth))
    (op1.ZExt context.pointerWidth)

/-- `kgepi->offset`. All operands are constants, so `kgepi->indices` stays empty. -/
def computeOffsets (context : Context) (types : List IndexedType) : Except Fault Nat := do
  let constantOffset ← types.foldlM (fun (constantOffset : ConstantExpr) ii => do
    constantOffset.arithmetic .Add (← ii.computeAddend context.pointerWidth))
    (.alloc 0 context.pointerWidth)
  constantOffset.getZExtValue 64

/-- The `GetElementPtr` instruction. -/
def executeGetElementPtr (context : Context) (options : Options) (fuel : Nat) (base : Expr)
    (types : List IndexedType)
    : Except Fault Expr := do
  let offset ← computeOffsets context types
  if offset ≠ 0 then
    AddExpr.create options fuel base (.constant (.alloc offset context.pointerWidth))
  else .ok base

/-- What a type should add to an address. -/
def IndexedType.offset (w : Nat) : IndexedType → BitVec w
  | .struct getElementOffset ci => BitVec.ofNat w (getElementOffset (ci % 2 ^ 32))
  | .sequential elementSize index => index.value.signExtend w * BitVec.ofNat w elementSize

/-- What a constant expression adds beyond that: for a negative index the modulus of its width
times the size, less what the upper part of the size is worth.
-/
def IndexedType.excess (w : Nat) : IndexedType → BitVec w
  | .struct _ _ => 0#w
  | .sequential elementSize index =>
    (if index.value.msb then BitVec.ofNat w (2 ^ index.width) * BitVec.ofNat w elementSize else 0#w)
    - index.value.setWidth w * BitVec.ofNat w (2 ^ 32 * (elementSize / 2 ^ 32))

variable {w : Nat}

theorem arithmetic_add_mul (x y : BitVec w)
    : ConstantExpr.arithmetic .Add ⟨w, x⟩ ⟨w, y⟩ = .ok ⟨w, x + y⟩
      ∧ ConstantExpr.arithmetic .Mul ⟨w, x⟩ ⟨w, y⟩ = .ok ⟨w, x * y⟩ := by
  simp [ConstantExpr.arithmetic, ArithmeticKind.apply]

/-- A loop that adds, by induction on the types. -/
theorem foldlM_add (types : List IndexedType) {addend : IndexedType → Except Fault ConstantExpr}
    {value : IndexedType → BitVec w} (adds : ∀ ii, addend ii = .ok ⟨w, value ii⟩) (x : BitVec w)
    : types.foldlM (fun (base : ConstantExpr) ii => do base.arithmetic .Add (← addend ii)) ⟨w, x⟩
      = .ok ⟨w, x + (types.map value).sum⟩ := by
  induction types generalizing x with
  | nil => simp
  | cons ii rest ih =>
    rw [List.foldlM_cons, adds, ok_bind, (arithmetic_add_mul _ _).1, ok_bind, ih, List.map_cons,
      List.sum_cons, BitVec.add_assoc]

/-- Widening without the sign adds the modulus of the width to a negative index. -/
theorem setWidth_eq_signExtend_add {v : Nat} (index : BitVec v)
    : index.setWidth w
      = index.signExtend w + if index.msb then BitVec.ofNat w (2 ^ v) else 0#w := by
  have widened : index.setWidth w = BitVec.ofInt w index.toNat := by
    rw [ofInt_natCast, ofNat_toNat]
  rw [widened, signExtend, toInt_eq_msb_cond]
  split
  · rw [← ofInt_natCast, ← ofInt_add]
    simp
  · simp

theorem IndexedType.computeAddend_eq (w : Nat) (ii : IndexedType)
    : ii.computeAddend w = .ok ⟨w, ii.offset w⟩ := by
  cases ii with
  | struct getElementOffset ci => rfl
  | sequential elementSize index => exact (arithmetic_add_mul _ _).2

theorem IndexedType.evalAddend_eq (w : Nat) (ii : IndexedType)
    : ii.evalAddend w = .ok ⟨w, ii.offset w + ii.excess w⟩ := by
  cases ii with
  | struct getElementOffset ci => simp [evalAddend, offset, excess, ConstantExpr.alloc]
  | sequential elementSize index =>
    refine (arithmetic_add_mul _ _).2.trans ?_
    have size := congrArg (BitVec.ofNat w) (Nat.div_add_mod elementSize (2 ^ 32)).symm
    rw [ofNat_add] at size
    congr 2
    simp only [offset, excess, setWidth_eq_signExtend_add index.value, size]
    split <;> grind

theorem sum_offset_add_excess (types : List IndexedType)
    : (types.map fun ii => ii.offset w + ii.excess w).sum
      = (types.map (IndexedType.offset w)).sum + (types.map (IndexedType.excess w)).sum := by
  induction types with
  | nil => simp
  | cons ii rest ih =>
    simp only [List.map_cons, List.sum_cons, ih]
    grind

section

variable {context : Context} (options : Options) (fuel : Nat) (base : BitVec context.pointerWidth)
  (types : List IndexedType)

theorem executeGetElementPtr_eq
    : executeGetElementPtr context options (fuel + 1) (.constant ⟨_, base⟩) types
      = .ok (.constant ⟨_, base + (types.map (IndexedType.offset _)).sum⟩) := by
  have looped := foldlM_add types (IndexedType.computeAddend_eq context.pointerWidth) 0#_
  rw [BitVec.zero_add] at looped
  rw [executeGetElementPtr, computeOffsets, ConstantExpr.alloc, looped]
  generalize (types.map (IndexedType.offset context.pointerWidth)).sum = offset
  simp only [ok_bind, ConstantExpr.getZExtValue, if_pos context.wide.2]
  split
  · simp [AddExpr.create, bcreateR, Expr.getWidth, Expr.constant?, ConstantExpr.alloc,
      (arithmetic_add_mul _ _).1]
  next zero =>
    have none : offset = 0#_ := eq_of_toNat_eq (not_not.mp zero)
    rw [none, BitVec.add_zero]

/-- Both ways compute the base plus the field offsets plus each signed index times its size
exactly where the excesses cancel out.
-/
theorem getElementPtr_agree_iff
    : executeGetElementPtr context options (fuel + 1) (.constant ⟨_, base⟩) types
        = .ok (.constant ⟨_, base + (types.map (IndexedType.offset _)).sum⟩)
      ∧ evalGetElementPtr context ⟨_, base⟩ types
        = .ok ⟨_, base + (types.map (IndexedType.offset _)).sum⟩
      ↔ (types.map (IndexedType.excess context.pointerWidth)).sum = 0#_ := by
  have looped := foldlM_add types (IndexedType.evalAddend_eq context.pointerWidth)
    (base.setWidth context.pointerWidth)
  rw [and_iff_right (executeGetElementPtr_eq options fuel base types), evalGetElementPtr,
    ConstantExpr.ZExt, looped, sum_offset_add_excess]
  simp

end

/-- The element before the base, at an index of 32 bits on a machine of 64. -/
theorem evalGetElementPtr_loses_sign
    : (∀ options, executeGetElementPtr wideContext options 1 (.constant ⟨64, 0x1000#64⟩)
          [.sequential 4 ⟨32, -1#32⟩]
        = .ok (.constant ⟨64, 0xFFC#64⟩))
      ∧ evalGetElementPtr wideContext ⟨64, 0x1000#64⟩ [.sequential 4 ⟨32, -1#32⟩]
        = .ok ⟨64, 0x400000FFC#64⟩ :=
  ⟨fun _ => rfl, rfl⟩

end Woodpecker.Execution
