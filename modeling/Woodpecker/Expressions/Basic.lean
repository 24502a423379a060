import Mathlib.Data.BitVec
import Woodpecker.Library.Faults

/-! Expressions over bit vectors and what they stand for.

An expression reads the bytes of arrays; an assignment of bytes to the arrays gives it a
value of its width. What an expression denotes is the conjunction the constructors keep:
it is well typed, it has a width, and it has a value under the assignment.
-/

namespace Woodpecker.Expressions

open Library

-- Syntax

/-- A constant of a fixed width. -/
structure ConstantExpr where
  width : Nat
  value : BitVec width
deriving DecidableEq, Repr

/-- An array of bytes. A constant array has all its initial values, a symbolic one none.
Arrays of one name are told apart by their addresses.
-/
structure Array where
  address : Nat
  name : String
  size : UInt32
  constantValues : List (BitVec 8)
  sized : constantValues = [] ∨ constantValues.length = size.toNat
deriving DecidableEq, Repr

def Array.isSymbolicArray (array : Array) : Bool :=
  array.constantValues.isEmpty

inductive CastKind where
  | ZExt
  | SExt
deriving DecidableEq, Repr

inductive ArithmeticKind where
  | Add
  | Sub
  | Mul
  | UDiv
  | SDiv
  | URem
  | SRem
  | And
  | Or
  | Xor
  | Shl
  | LShr
  | AShr
deriving DecidableEq, Repr

inductive ComparisonKind where
  | Eq
  | Ne
  | Ult
  | Ule
  | Ugt
  | Uge
  | Slt
  | Sle
  | Sgt
  | Sge
deriving DecidableEq, Repr

mutual

/-- The classes of expressions, as their `alloc` functions build them. -/
inductive Expr where
  | constant (c : ConstantExpr)
  | notOptimized (src : Expr)
  | read (root : Array) (head : UpdateNode) (index : Expr)
  | select (cond trueExpr falseExpr : Expr)
  | concat (left right : Expr)
  | extract (expr : Expr) (offset width : Nat)
  | not (expr : Expr)
  | cast (kind : CastKind) (src : Expr) (width : Nat)
  | arithmetic (kind : ArithmeticKind) (left right : Expr)
  | comparison (kind : ComparisonKind) (left right : Expr)
deriving DecidableEq, Repr

/-- The byte updates of an array, the most recent first. -/
inductive UpdateNode where
  | null
  | node (index value : Expr) (next : UpdateNode)
deriving DecidableEq, Repr

end

def Expr.getWidth : Expr → Nat
  | .constant c => c.width
  | .notOptimized src => src.getWidth
  | .read _ _ _ => 8
  | .select _ trueExpr _ => trueExpr.getWidth
  | .concat left right => left.getWidth + right.getWidth
  | .extract _ _ width => width
  | .not expr => expr.getWidth
  | .cast _ _ width => width
  | .arithmetic _ left _ => left.getWidth
  | .comparison _ _ _ => 1

-- Values

/-- The initial contents of the symbolic arrays. -/
abbrev Assignment := Array → BitVec 32 → BitVec 8

/-- The initial byte of an array. -/
def Array.byte (array : Array) (bytes : Assignment) (index : BitVec 32) : BitVec 8 :=
  if array.isSymbolicArray then bytes array index else array.constantValues.getD index.toNat 0

/-- The operators on bit vectors. Division by zero has no meaning; the values here are the
ones for which division by a one-bit operand needs no case of its own.
-/
def ArithmeticKind.apply {w : Nat} (kind : ArithmeticKind) (x y : BitVec w) : BitVec w :=
  match kind with
  | .Add => x + y
  | .Sub => x - y
  | .Mul => x * y
  | .UDiv => if y = 0#w then x else x / y
  | .SDiv => if y = 0#w then x else x.sdiv y
  | .URem => if y = 0#w then 0#w else x % y
  | .SRem => if y = 0#w then 0#w else x.srem y
  | .And => x &&& y
  | .Or => x ||| y
  | .Xor => x ^^^ y
  | .Shl => x <<< y
  | .LShr => x >>> y
  | .AShr => x.sshiftRight' y

def ComparisonKind.apply {w : Nat} (kind : ComparisonKind) (x y : BitVec w) : Bool :=
  match kind with
  | .Eq => x == y
  | .Ne => x != y
  | .Ult => x.ult y
  | .Ule => x.ule y
  | .Ugt => y.ult x
  | .Uge => y.ule x
  | .Slt => x.slt y
  | .Sle => x.sle y
  | .Sgt => y.slt x
  | .Sge => y.sle x

def CastKind.apply {w : Nat} (kind : CastKind) (x : BitVec w) (width : Nat) : BitVec width :=
  match kind with
  | .ZExt => x.setWidth width
  | .SExt => x.signExtend width

mutual

/-- The value of an expression where its context takes it to have width `w`. For a well
typed expression that is its own width.
-/
def Expr.bits (bytes : Assignment) : Expr → (w : Nat) → BitVec w
  | .constant c, w => c.value.setWidth w
  | .notOptimized src, w => src.bits bytes w
  | .read root head index, w => (head.byte bytes root (index.bits bytes 32)).setWidth w
  | .select cond trueExpr falseExpr, w =>
    if cond.bits bytes 1 = 1#1 then trueExpr.bits bytes w else falseExpr.bits bytes w
  | .concat left right, w =>
    (left.bits bytes left.getWidth ++ right.bits bytes right.getWidth).setWidth w
  | .extract expr offset width, w =>
    ((expr.bits bytes expr.getWidth).extractLsb' offset width).setWidth w
  | .not expr, w => ~~~ expr.bits bytes w
  | .cast kind src width, w => (kind.apply (src.bits bytes src.getWidth) width).setWidth w
  | .arithmetic kind left right, w => kind.apply (left.bits bytes w) (right.bits bytes w)
  | .comparison kind left right, w =>
    (BitVec.ofBool (kind.apply (left.bits bytes left.getWidth)
      (right.bits bytes left.getWidth))).setWidth w

/-- The byte of an updated array: the value of the most recent update at the index, or the
initial byte.
-/
def UpdateNode.byte (bytes : Assignment) (root : Array) : UpdateNode → BitVec 32 → BitVec 8
  | .null, i => root.byte bytes i
  | .node index value next, i =>
    if index.bits bytes 32 = i then value.bits bytes 8 else next.byte bytes root i

end

attribute [local simp] Expr.bits Expr.getWidth

/-- Two expressions of one width and, under the assignment, one value. -/
def Expr.Same (bytes : Assignment) (e e' : Expr) : Prop :=
  e'.getWidth = e.getWidth ∧ e'.bits bytes e.getWidth = e.bits bytes e.getWidth

mutual

/-- The widths of the operands fit together, as the assertions of the constructors want. -/
def Expr.Typed : Expr → Prop
  | .constant _ => True
  | .notOptimized src => src.Typed
  | .read _ head index => head.Typed ∧ index.Typed ∧ index.getWidth = 32
  | .select cond trueExpr falseExpr =>
    cond.Typed ∧ cond.getWidth = 1 ∧ trueExpr.Typed ∧ falseExpr.Typed
    ∧ falseExpr.getWidth = trueExpr.getWidth
  | .concat left right => left.Typed ∧ right.Typed
  | .extract expr offset width => expr.Typed ∧ offset + width ≤ expr.getWidth
  | .not expr => expr.Typed
  | .cast _ src width => src.Typed ∧ src.getWidth < width
  | .arithmetic _ left right => left.Typed ∧ right.Typed ∧ right.getWidth = left.getWidth
  | .comparison _ left right => left.Typed ∧ right.Typed ∧ right.getWidth = left.getWidth

def UpdateNode.Typed : UpdateNode → Prop
  | .null => True
  | .node index value next =>
    index.Typed ∧ index.getWidth = 32 ∧ value.Typed ∧ value.getWidth = 8 ∧ next.Typed

end

mutual

/-- The reads of constant arrays without updates are within the array. -/
def Expr.InBounds (bytes : Assignment) : Expr → Prop
  | .constant _ => True
  | .notOptimized src => src.InBounds bytes
  | .read root head index =>
    head.InBounds bytes ∧ index.InBounds bytes
    ∧ (head = .null → root.isSymbolicArray = false →
        (index.bits bytes 32).toNat < root.constantValues.length)
  | .select cond trueExpr falseExpr =>
    cond.InBounds bytes ∧ trueExpr.InBounds bytes ∧ falseExpr.InBounds bytes
  | .concat left right => left.InBounds bytes ∧ right.InBounds bytes
  | .extract expr _ _ => expr.InBounds bytes
  | .not expr => expr.InBounds bytes
  | .cast _ src _ => src.InBounds bytes
  | .arithmetic _ left right => left.InBounds bytes ∧ right.InBounds bytes
  | .comparison _ left right => left.InBounds bytes ∧ right.InBounds bytes

def UpdateNode.InBounds (bytes : Assignment) : UpdateNode → Prop
  | .null => True
  | .node index value next =>
    index.InBounds bytes ∧ value.InBounds bytes ∧ next.InBounds bytes

end

-- Denotations

/-- What the constructors depend on besides their operands: a command line option, and the
comparison of expressions. Expressions that compare as equal are the same. The converse
can fail, since expressions are also told apart by their hash values.
-/
structure Options where
  ConstArrayOpt : Bool
  equal : Expr → Expr → Bool
  same_of_equal : ∀ {l r : Expr}, equal l r = true → l = r

/-- A well typed expression with its width and value. Reads have to be in bounds only where
equalities with them are rewritten on that assumption.
-/
structure Denotes (options : Options) (bytes : Assignment) (e : Expr) {w : Nat} (v : BitVec w)
    : Prop where
  typed : e.Typed
  width : e.getWidth = w
  bounded : options.ConstArrayOpt = true → e.InBounds bytes
  bits : e.bits bytes w = v

variable {options : Options} {bytes : Assignment} {w m n : Nat} {e l r : Expr} {v x y : BitVec w}

theorem denotes_constant (options : Options) (bytes : Assignment) (c : ConstantExpr)
    : Denotes options bytes (.constant c) c.value where
  typed := trivial
  width := rfl
  bounded _ := trivial
  bits := by simp

theorem Denotes.constant {c : ConstantExpr} (denotes : Denotes options bytes (.constant c) v)
    : c = ⟨w, v⟩ := by
  obtain ⟨-, rfl, -, rfl⟩ := denotes
  simp

/-- One expression has one value. -/
theorem Denotes.unique (one : Denotes options bytes e x) (two : Denotes options bytes e y)
    : x = y :=
  one.bits.symm.trans two.bits

theorem Denotes.same {e' : Expr} (one : Denotes options bytes e v)
    (two : Denotes options bytes e' v)
    : e.Same bytes e' := by
  obtain ⟨-, rfl, -, rfl⟩ := one
  exact ⟨two.width, two.bits⟩

/-- What a read finds depends on the initial bytes of the array only. -/
theorem UpdateNode.byte_congr {root root' : Array}
    (same : ∀ i, root.byte bytes i = root'.byte bytes i) (head : UpdateNode) (i : BitVec 32)
    : head.byte bytes root i = head.byte bytes root' i := by
  cases head with
  | null => exact same i
  | node index value next =>
    rw [byte, byte, byte_congr same next i]
termination_by structural head

theorem denotes_arithmetic {kind : ArithmeticKind}
    : Denotes options bytes (.arithmetic kind l r) v
      ↔ ∃ x y : BitVec w, Denotes options bytes l x ∧ Denotes options bytes r y
        ∧ v = kind.apply x y := by
  constructor
  · rintro ⟨⟨typedL, typedR, same⟩, rfl, bounded, rfl⟩
    exact ⟨_, _, ⟨typedL, rfl, fun on => (bounded on).1, rfl⟩,
      ⟨typedR, same, fun on => (bounded on).2, rfl⟩, by simp⟩
  · rintro ⟨x, y, left, right, rfl⟩
    exact {
      typed := ⟨left.typed, right.typed, right.width.trans left.width.symm⟩
      width := left.width
      bounded := fun on => ⟨left.bounded on, right.bounded on⟩
      bits := by rw [Expr.bits, left.bits, right.bits] }

theorem denotes_comparison {kind : ComparisonKind} {b : BitVec 1}
    : Denotes options bytes (.comparison kind l r) b
      ↔ ∃ (w : Nat) (x y : BitVec w), Denotes options bytes l x ∧ Denotes options bytes r y
        ∧ b = BitVec.ofBool (kind.apply x y) := by
  constructor
  · rintro ⟨⟨typedL, typedR, same⟩, -, bounded, rfl⟩
    exact ⟨_, _, _, ⟨typedL, rfl, fun on => (bounded on).1, rfl⟩,
      ⟨typedR, same, fun on => (bounded on).2, rfl⟩, by simp⟩
  · rintro ⟨w, x, y, left, right, rfl⟩
    obtain ⟨typedL, rfl, boundedL, rfl⟩ := left
    exact {
      typed := ⟨typedL, right.typed, right.width⟩
      width := rfl
      bounded := fun on => ⟨boundedL on, right.bounded on⟩
      bits := by simp [right.bits] }

theorem denotes_notOptimized
    : Denotes options bytes (.notOptimized e) v ↔ Denotes options bytes e v := by
  constructor
  · rintro ⟨typed, rfl, bounded, rfl⟩
    exact ⟨typed, rfl, bounded, by simp⟩
  · rintro ⟨typed, rfl, bounded, rfl⟩
    exact ⟨typed, rfl, bounded, by simp⟩

theorem denotes_not
    : Denotes options bytes (.not e) v ↔ ∃ x : BitVec w, Denotes options bytes e x ∧ v = ~~~ x := by
  constructor
  · rintro ⟨typed, rfl, bounded, rfl⟩
    exact ⟨_, ⟨typed, rfl, bounded, rfl⟩, by simp⟩
  · rintro ⟨x, ⟨typed, rfl, bounded, rfl⟩, rfl⟩
    exact ⟨typed, rfl, bounded, by simp⟩

theorem denotes_select {c t f : Expr}
    : Denotes options bytes (.select c t f) v
      ↔ ∃ (b : BitVec 1) (x y : BitVec w), Denotes options bytes c b ∧ Denotes options bytes t x
        ∧ Denotes options bytes f y ∧ v = if b = 1#1 then x else y := by
  constructor
  · rintro ⟨⟨typedC, bool, typedT, typedF, same⟩, rfl, bounded, rfl⟩
    exact ⟨_, _, _, ⟨typedC, bool, fun on => (bounded on).1, rfl⟩,
      ⟨typedT, rfl, fun on => (bounded on).2.1, rfl⟩,
      ⟨typedF, same, fun on => (bounded on).2.2, rfl⟩, by simp⟩
  · rintro ⟨b, x, y, cond, yes, no, rfl⟩
    exact {
      typed := ⟨cond.typed, cond.width, yes.typed, no.typed, no.width.trans yes.width.symm⟩
      width := yes.width
      bounded := fun on => ⟨cond.bounded on, yes.bounded on, no.bounded on⟩
      bits := by rw [Expr.bits, cond.bits, yes.bits, no.bits] }

theorem Denotes.concat {x : BitVec m} {y : BitVec n} (left : Denotes options bytes l x)
    (right : Denotes options bytes r y)
    : Denotes options bytes (.concat l r) (x ++ y) := by
  obtain ⟨typedL, rfl, boundedL, rfl⟩ := left
  obtain ⟨typedR, rfl, boundedR, rfl⟩ := right
  exact ⟨⟨typedL, typedR⟩, rfl, fun on => ⟨boundedL on, boundedR on⟩, by simp⟩

theorem Denotes.of_concat (denotes : Denotes options bytes (.concat l r) v)
    : ∃ (x : BitVec l.getWidth) (y : BitVec r.getWidth), l.getWidth + r.getWidth = w
      ∧ Denotes options bytes l x ∧ Denotes options bytes r y ∧ v = (x ++ y).setWidth w := by
  obtain ⟨⟨typedL, typedR⟩, same, bounded, rfl⟩ := denotes
  exact ⟨_, _, same, ⟨typedL, rfl, fun on => (bounded on).1, rfl⟩,
    ⟨typedR, rfl, fun on => (bounded on).2, rfl⟩, by rw [Expr.bits]⟩

theorem Denotes.extract {offset : Nat} {x : BitVec m} (whole : Denotes options bytes e x)
    (inside : offset + n ≤ m)
    : Denotes options bytes (.extract e offset n) (x.extractLsb' offset n) := by
  obtain ⟨typed, rfl, bounded, rfl⟩ := whole
  exact ⟨⟨typed, inside⟩, rfl, bounded, by simp⟩

theorem Denotes.of_extract {offset : Nat} (denotes : Denotes options bytes (.extract e offset n) v)
    : ∃ x : BitVec e.getWidth, n = w ∧ offset + n ≤ e.getWidth ∧ Denotes options bytes e x
      ∧ v = x.extractLsb' offset w := by
  obtain ⟨⟨typed, inside⟩, rfl, bounded, rfl⟩ := denotes
  exact ⟨_, rfl, inside, ⟨typed, rfl, bounded, rfl⟩, by simp⟩

theorem Denotes.cast {kind : CastKind} {x : BitVec m} (src : Denotes options bytes e x)
    (wider : m < n)
    : Denotes options bytes (.cast kind e n) (kind.apply x n) := by
  obtain ⟨typed, rfl, bounded, rfl⟩ := src
  exact ⟨⟨typed, wider⟩, rfl, bounded, by simp⟩

theorem Denotes.of_cast {kind : CastKind} (denotes : Denotes options bytes (.cast kind e n) v)
    : ∃ x : BitVec e.getWidth, n = w ∧ e.getWidth < w ∧ Denotes options bytes e x
      ∧ v = kind.apply x w := by
  obtain ⟨⟨typed, wider⟩, rfl, bounded, rfl⟩ := denotes
  exact ⟨_, rfl, wider, ⟨typed, rfl, bounded, rfl⟩, by simp⟩

/-- A list of updates whose expressions are well typed, and in bounds where that matters. -/
structure UpdateNode.Valid (options : Options) (bytes : Assignment) (head : UpdateNode)
    : Prop where
  typed : head.Typed
  bounded : options.ConstArrayOpt = true → head.InBounds bytes

theorem UpdateNode.Valid.of_node {index value : Expr} {next : UpdateNode}
    (valid : (node index value next).Valid options bytes)
    : (∃ i : BitVec 32, Denotes options bytes index i)
      ∧ (∃ v : BitVec 8, Denotes options bytes value v) ∧ next.Valid options bytes := by
  obtain ⟨⟨typedI, widthI, typedV, widthV, typedN⟩, bounded⟩ := valid
  exact ⟨⟨_, typedI, widthI, fun on => (bounded on).1, rfl⟩,
    ⟨_, typedV, widthV, fun on => (bounded on).2.1, rfl⟩, typedN, fun on => (bounded on).2.2⟩

theorem denotes_read {root : Array} {head : UpdateNode} {index : Expr} {v : BitVec 8}
    : Denotes options bytes (.read root head index) v
      ↔ head.Valid options bytes ∧ ∃ i : BitVec 32, Denotes options bytes index i
        ∧ v = head.byte bytes root i
        ∧ (options.ConstArrayOpt = true → head = .null → root.isSymbolicArray = false →
            i.toNat < root.constantValues.length) := by
  constructor
  · rintro ⟨⟨typedH, typedI, width⟩, -, bounded, rfl⟩
    exact ⟨⟨typedH, fun on => (bounded on).1⟩, _,
      ⟨typedI, width, fun on => (bounded on).2.1, rfl⟩, by simp,
      fun on => (bounded on).2.2⟩
  · rintro ⟨valid, i, index, rfl, within⟩
    exact {
      typed := ⟨valid.typed, index.typed, index.width⟩
      width := rfl
      bounded := fun on => ⟨valid.bounded on, index.bounded on, by
        rw [index.bits]
        exact within on⟩
      bits := by simp [index.bits] }

end Woodpecker.Expressions
