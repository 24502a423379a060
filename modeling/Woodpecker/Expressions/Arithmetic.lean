import Woodpecker.Expressions.Equality

/-! The constructors of the arithmetic operators and of the order comparisons.

Addition and subtraction gather the constants of their operands and call each other; the
depth of their recursion is bounded by a budget. Each of the functions they consist of is
given the two constructors as they are with less budget.
-/

namespace Woodpecker.Expressions

open Library ConstantExpr BitVec

-- Addition and subtraction

section AddSub

variable (options : Options) (add sub : Expr → Expr → Except Fault Expr)

def AddExpr_createPartialR (cl : ConstantExpr) (r : Expr) : Except Fault Expr := do
  if cl.width = 1 then XorExpr_createPartialR options cl r
  else if ← cl.isZero then .ok r
  else
    match r with
    | .arithmetic .Add (.constant k) c => do
      -- A + (B+c) == (A+B) + c
      add (← add (.constant cl) (.constant k)) c
    | .arithmetic .Sub (.constant k) c => do
      -- A + (B-c) == (A+B) - c
      sub (← add (.constant cl) (.constant k)) c
    | r => .ok (.arithmetic .Add (.constant cl) r)

def AddExpr_createPartial (l : Expr) (cr : ConstantExpr) : Except Fault Expr :=
  AddExpr_createPartialR options add sub cr l

def AddExpr_create (l r : Expr) : Except Fault Expr :=
  if l.getWidth = 1 then XorExpr_create l r
  else
    match l, r with
    | .arithmetic .Add (.constant k) a, b => do
      -- (k+a)+b = k+(a+b)
      add (.constant k) (← add a b)
    | .arithmetic .Sub (.constant k) a, b => do
      -- (k-a)+b = k+(b-a)
      add (.constant k) (← sub b a)
    | a, .arithmetic .Add (.constant k) b => do
      -- a + (k+b) = k+(a+b)
      add (.constant k) (← add a b)
    | a, .arithmetic .Sub (.constant k) b => do
      -- a + (k-b) = k+(a-b)
      add (.constant k) (← sub a b)
    | l, r => .ok (.arithmetic .Add l r)

def SubExpr_createPartialR (cl : ConstantExpr) (r : Expr) : Except Fault Expr :=
  if cl.width = 1 then XorExpr_createPartialR options cl r
  else
    match r with
    | .arithmetic .Add (.constant k) c => do
      -- A - (B+c) == (A-B) - c
      sub (← sub (.constant cl) (.constant k)) c
    | .arithmetic .Sub (.constant k) c => do
      -- A - (B-c) == (A-B) + c
      add (← sub (.constant cl) (.constant k)) c
    | r => .ok (.arithmetic .Sub (.constant cl) r)

def SubExpr_createPartial (l : Expr) (cr : ConstantExpr) : Except Fault Expr := do
  -- l - c => l + (-c)
  let negated ← (ConstantExpr.alloc 0 cr.width).arithmetic .Sub cr
  AddExpr_createPartial options add sub l negated

def SubExpr_create (l r : Expr) : Except Fault Expr :=
  if l.getWidth = 1 then XorExpr_create l r
  else if options.equal l r then .ok (.constant (.alloc 0 l.getWidth))
  else
    match l, r with
    | .arithmetic .Add (.constant k) a, b => do
      -- (k+a)-b = k+(a-b)
      add (.constant k) (← sub a b)
    | .arithmetic .Sub (.constant k) a, b => do
      -- (k-a)-b = k-(a+b)
      sub (.constant k) (← add a b)
    | a, .arithmetic .Add (.constant k) b => do
      -- a - (k+b) = (a-b) - k
      sub (← sub a b) (.constant k)
    | a, .arithmetic .Sub (.constant k) b => do
      -- a - (k-b) = (a+b) - k
      sub (← add a b) (.constant k)
    | l, r => .ok (.arithmetic .Sub l r)

end AddSub

mutual

def AddExpr.create (options : Options) (fuel : Nat) (l r : Expr) : Except Fault Expr :=
  match fuel with
  | 0 => .error .outOfFuel
  | fuel + 1 =>
    let add := AddExpr.create options fuel
    let sub := SubExpr.create options fuel
    bcreateR (ConstantExpr.arithmetic .Add) (AddExpr_createPartial options add sub)
      (AddExpr_createPartialR options add sub) (AddExpr_create add sub) l r

def SubExpr.create (options : Options) (fuel : Nat) (l r : Expr) : Except Fault Expr :=
  match fuel with
  | 0 => .error .outOfFuel
  | fuel + 1 =>
    let add := AddExpr.create options fuel
    let sub := SubExpr.create options fuel
    bcreateR (ConstantExpr.arithmetic .Sub) (SubExpr_createPartial options add sub)
      (SubExpr_createPartialR options add sub) (SubExpr_create options add sub) l r

end

-- The other operators

section Others

variable (options : Options)

def MulExpr_createPartialR (cl : ConstantExpr) (r : Expr) : Except Fault Expr := do
  if cl.width = 1 then AndExpr_createPartialR cl r
  else if ← cl.isOne then .ok r
  else if ← cl.isZero then .ok (.constant cl)
  else .ok (.arithmetic .Mul (.constant cl) r)

def MulExpr_createPartial (l : Expr) (cr : ConstantExpr) : Except Fault Expr :=
  MulExpr_createPartialR cr l

def MulExpr_create (l r : Expr) : Except Fault Expr :=
  if l.getWidth = 1 then .ok (.arithmetic .And l r) else .ok (.arithmetic .Mul l r)

def MulExpr.create : Expr → Expr → Except Fault Expr :=
  bcreateR (ConstantExpr.arithmetic .Mul) MulExpr_createPartial MulExpr_createPartialR
    MulExpr_create

/-- A constructor with a form of its own for one-bit operands and none for others. -/
def createUnlessBool (oneBit : Expr → Expr → Except Fault Expr)
    (alloc : Expr → Expr → Expr) (l r : Expr)
    : Except Fault Expr :=
  if l.getWidth = 1 then oneBit l r else .ok (alloc l r)

def UDivExpr_create : Expr → Expr → Except Fault Expr :=
  createUnlessBool (fun l _ => .ok l) (.arithmetic .UDiv)

def UDivExpr.create : Expr → Expr → Except Fault Expr :=
  bcreate (ConstantExpr.arithmetic .UDiv) UDivExpr_create

def SDivExpr_create : Expr → Expr → Except Fault Expr :=
  createUnlessBool (fun l _ => .ok l) (.arithmetic .SDiv)

def SDivExpr.create : Expr → Expr → Except Fault Expr :=
  bcreate (ConstantExpr.arithmetic .SDiv) SDivExpr_create

def URemExpr_create : Expr → Expr → Except Fault Expr :=
  createUnlessBool (fun _ _ => do .ok (.constant (← ConstantExpr.create 0 1)))
    (.arithmetic .URem)

def URemExpr.create : Expr → Expr → Except Fault Expr :=
  bcreate (ConstantExpr.arithmetic .URem) URemExpr_create

def SRemExpr_create : Expr → Expr → Except Fault Expr :=
  createUnlessBool (fun _ _ => do .ok (.constant (← ConstantExpr.create 0 1)))
    (.arithmetic .SRem)

def SRemExpr.create : Expr → Expr → Except Fault Expr :=
  bcreate (ConstantExpr.arithmetic .SRem) SRemExpr_create

def ShlExpr_create : Expr → Expr → Except Fault Expr :=
  -- l & !r
  createUnlessBool (fun l r => do AndExpr.create l (← r.createIsZero options))
    (.arithmetic .Shl)

def ShlExpr.create : Expr → Expr → Except Fault Expr :=
  bcreate (ConstantExpr.arithmetic .Shl) (ShlExpr_create options)

def LShrExpr_create : Expr → Expr → Except Fault Expr :=
  -- l & !r
  createUnlessBool (fun l r => do AndExpr.create l (← r.createIsZero options))
    (.arithmetic .LShr)

def LShrExpr.create : Expr → Expr → Except Fault Expr :=
  bcreate (ConstantExpr.arithmetic .LShr) (LShrExpr_create options)

def AShrExpr_create : Expr → Expr → Except Fault Expr :=
  createUnlessBool (fun l _ => .ok l) (.arithmetic .AShr)

def AShrExpr.create : Expr → Expr → Except Fault Expr :=
  bcreate (ConstantExpr.arithmetic .AShr) AShrExpr_create

def UltExpr_create : Expr → Expr → Except Fault Expr :=
  -- !l && r
  createUnlessBool (fun l r => do AndExpr.create (← l.createIsZero options) r)
    (.comparison .Ult)

def UltExpr.create : Expr → Expr → Except Fault Expr :=
  bcreate (ConstantExpr.comparison .Ult) (UltExpr_create options)

def UleExpr_create : Expr → Expr → Except Fault Expr :=
  -- !(l && !r)
  createUnlessBool (fun l r => do OrExpr.create (← l.createIsZero options) r)
    (.comparison .Ule)

def UleExpr.create : Expr → Expr → Except Fault Expr :=
  bcreate (ConstantExpr.comparison .Ule) (UleExpr_create options)

def SltExpr_create : Expr → Expr → Except Fault Expr :=
  -- l && !r
  createUnlessBool (fun l r => do AndExpr.create l (← r.createIsZero options))
    (.comparison .Slt)

def SltExpr.create : Expr → Expr → Except Fault Expr :=
  bcreate (ConstantExpr.comparison .Slt) (SltExpr_create options)

def SleExpr_create : Expr → Expr → Except Fault Expr :=
  -- !(!l && r)
  createUnlessBool (fun l r => do OrExpr.create l (← r.createIsZero options))
    (.comparison .Sle)

def SleExpr.create : Expr → Expr → Except Fault Expr :=
  bcreate (ConstantExpr.comparison .Sle) (SleExpr_create options)

def UgtExpr.create (l r : Expr) : Except Fault Expr :=
  UltExpr.create options r l

def UgeExpr.create (l r : Expr) : Except Fault Expr :=
  UleExpr.create options r l

def SgtExpr.create (l r : Expr) : Except Fault Expr :=
  SltExpr.create options r l

def SgeExpr.create (l r : Expr) : Except Fault Expr :=
  SleExpr.create options r l

end Others

-- Sums and differences

attribute [local grind] ArithmeticKind.apply

variable {options : Options} {bytes : Assignment} {w : Nat} {x y : BitVec w}
  {e l r : Expr} {cl cr : ConstantExpr}

/-- A constructor of an operator, on operands of any width. -/
def Constructs (options : Options) (bytes : Assignment)
    (create : Expr → Expr → Except Fault Expr) (kind : ArithmeticKind)
    : Prop :=
  ∀ {w : Nat} {x y : BitVec w} {l r : Expr}, Denotes options bytes l x
    → Denotes options bytes r y → Makes options bytes (create l r) (kind.apply x y)

section AddSub

variable {add sub : Expr → Expr → Except Fault Expr}

/-- One-bit sums and differences are exclusive or. -/
theorem oneBit_sums (x y : BitVec 1) : x + y = x ^^^ y ∧ x - y = x ^^^ y := by
  revert x y
  decide

variable {create : Expr → Expr → Except Fault Expr} {kind : ArithmeticKind}
  {made : Except Fault Expr}

/-- A value reached by two calls, the first of which makes an operand of the second. -/
theorem Makes.then_left {v : BitVec w} (constructs : Constructs options bytes create kind)
    (first : Makes options bytes made x) (right : Denotes options bytes r y)
    (value : kind.apply x y = v)
    : Makes options bytes (made >>= fun l => create l r) v := by
  subst value
  exact first.bind fun _ left => constructs left right

theorem Makes.then_right {v : BitVec w} (constructs : Constructs options bytes create kind)
    (left : Denotes options bytes l x) (second : Makes options bytes made y)
    (value : kind.apply x y = v)
    : Makes options bytes (made >>= fun r => create l r) v := by
  subst value
  exact second.bind fun _ right => constructs left right

variable (adds : Constructs options bytes add .Add) (subs : Constructs options bytes sub .Sub)
include adds subs

theorem AddExpr_createPartialR_makes (left : Denotes options bytes (.constant cl) x)
    (right : Denotes options bytes r y)
    : Makes options bytes (AddExpr_createPartialR options add sub cl r) (x + y) := by
  obtain rfl := left.constant
  unfold AddExpr_createPartialR
  split
  next one =>
    obtain rfl : w = 1 := one
    rw [(oneBit_sums x y).1]
    exact XorExpr_createPartialR_makes left right
  refine isZero_ensures.bind fun zero known => ?_
  split
  next none =>
    rw [known.mp none, BitVec.zero_add]
    exact .of_ok right
  split
  next k c =>
    obtain ⟨a, b, isA, isB, rfl⟩ := denotes_arithmetic.mp right
    exact Makes.then_left adds (adds left isA) isB (by grind)
  next k c =>
    obtain ⟨a, b, isA, isB, rfl⟩ := denotes_arithmetic.mp right
    exact Makes.then_left subs (adds left isA) isB (by grind)
  · exact makes_arithmetic left right

theorem AddExpr_create_makes (left : Denotes options bytes l x) (right : Denotes options bytes r y)
    : Makes options bytes (AddExpr_create add sub l r) (x + y) := by
  unfold AddExpr_create
  split
  next one =>
    obtain rfl : w = 1 := left.width.symm.trans one
    rw [(oneBit_sums x y).1]
    exact XorExpr_create_makes left right
  split
  next k a _ =>
    obtain ⟨p, q, isP, isQ, rfl⟩ := denotes_arithmetic.mp left
    exact Makes.then_right adds isP (adds isQ right) (by grind)
  next k a _ =>
    obtain ⟨p, q, isP, isQ, rfl⟩ := denotes_arithmetic.mp left
    exact Makes.then_right adds isP (subs right isQ) (by grind)
  next k b _ _ =>
    obtain ⟨p, q, isP, isQ, rfl⟩ := denotes_arithmetic.mp right
    exact Makes.then_right adds isP (adds left isQ) (by grind)
  next k b _ _ =>
    obtain ⟨p, q, isP, isQ, rfl⟩ := denotes_arithmetic.mp right
    exact Makes.then_right adds isP (subs left isQ) (by grind)
  · exact makes_arithmetic left right

theorem SubExpr_createPartialR_makes (left : Denotes options bytes (.constant cl) x)
    (right : Denotes options bytes r y)
    : Makes options bytes (SubExpr_createPartialR options add sub cl r) (x - y) := by
  obtain rfl := left.constant
  unfold SubExpr_createPartialR
  split
  next one =>
    obtain rfl : w = 1 := one
    rw [(oneBit_sums x y).2]
    exact XorExpr_createPartialR_makes left right
  split
  next k c =>
    obtain ⟨a, b, isA, isB, rfl⟩ := denotes_arithmetic.mp right
    exact Makes.then_left subs (subs left isA) isB (by grind)
  next k c =>
    obtain ⟨a, b, isA, isB, rfl⟩ := denotes_arithmetic.mp right
    exact Makes.then_left adds (subs left isA) isB (by grind)
  · exact makes_arithmetic left right

theorem SubExpr_createPartial_makes (left : Denotes options bytes l x)
    (right : Denotes options bytes (.constant cr) y)
    : Makes options bytes (SubExpr_createPartial options add sub l cr) (x - y) := by
  obtain rfl := right.constant
  have zero : Denotes options bytes (.constant (.alloc 0 w)) 0#w :=
    denotes_constant options bytes ⟨w, 0#w⟩
  refine (arithmetic_makes zero right).bind fun c isC => ?_
  have value : x - y = ArithmeticKind.Sub.apply 0#w y + x := by grind
  rw [value]
  exact AddExpr_createPartialR_makes adds subs isC left

theorem SubExpr_create_makes (left : Denotes options bytes l x) (right : Denotes options bytes r y)
    : Makes options bytes (SubExpr_create options add sub l r) (x - y) := by
  unfold SubExpr_create
  split
  next one =>
    obtain rfl : w = 1 := left.width.symm.trans one
    rw [(oneBit_sums x y).2]
    exact XorExpr_create_makes left right
  split
  next same =>
    obtain rfl := options.same_of_equal same
    rw [left.unique right, sub_self, left.width]
    exact .of_ok (denotes_constant options bytes ⟨w, 0#w⟩)
  split
  next k a _ _ =>
    obtain ⟨p, q, isP, isQ, rfl⟩ := denotes_arithmetic.mp left
    exact Makes.then_right adds isP (subs isQ right) (by grind)
  next k a _ _ =>
    obtain ⟨p, q, isP, isQ, rfl⟩ := denotes_arithmetic.mp left
    exact Makes.then_right subs isP (adds isQ right) (by grind)
  next k b _ _ _ =>
    obtain ⟨p, q, isP, isQ, rfl⟩ := denotes_arithmetic.mp right
    exact Makes.then_left subs (subs left isQ) isP (by grind)
  next k b _ _ _ =>
    obtain ⟨p, q, isP, isQ, rfl⟩ := denotes_arithmetic.mp right
    exact Makes.then_left subs (adds left isQ) isP (by grind)
  · exact makes_arithmetic left right

end AddSub

/-- Both constructors together, by induction on the budget. -/
theorem sums_make (options : Options) (bytes : Assignment) (fuel : Nat)
    : Constructs options bytes (AddExpr.create options fuel) .Add
      ∧ Constructs options bytes (SubExpr.create options fuel) .Sub := by
  induction fuel with
  | zero =>
    constructor
    · intro _ _ _ _ _ _ _
      exact ensures_error _
    · intro _ _ _ _ _ _ _
      exact ensures_error _
  | succ fuel ih =>
    obtain ⟨adds, subs⟩ := ih
    constructor
    · intro w x y l r left right
      refine bcreateR_makes left right arithmetic_makes ?_
        (AddExpr_createPartialR_makes adds subs · right) (AddExpr_create_makes adds subs left right)
      rw [ArithmeticKind.apply, add_comm]
      exact (AddExpr_createPartialR_makes adds subs · left)
    · intro w x y l r left right
      exact bcreateR_makes left right arithmetic_makes (SubExpr_createPartial_makes adds subs left)
        (SubExpr_createPartialR_makes adds subs · right) (SubExpr_create_makes adds subs left right)

-- Values of the other operators

theorem MulExpr_createPartialR_makes (left : Denotes options bytes (.constant cl) x)
    (right : Denotes options bytes r y)
    : Makes options bytes (MulExpr_createPartialR cl r) (x * y) := by
  obtain rfl := left.constant
  unfold MulExpr_createPartialR
  split
  next one =>
    obtain rfl : w = 1 := one
    have both : ∀ x y : BitVec 1, x * y = y &&& x := by decide
    rw [both]
    exact AndExpr_createPartial_makes right left
  refine isOne_ensures.bind fun unit known => ?_
  split
  next one =>
    rw [known one, BitVec.one_mul]
    exact .of_ok right
  refine isZero_ensures.bind fun zero known => ?_
  split
  next none =>
    rw [known.mp none] at left ⊢
    rw [BitVec.zero_mul]
    exact .of_ok left
  · exact makes_arithmetic left right

theorem MulExpr_create_makes (left : Denotes options bytes l x) (right : Denotes options bytes r y)
    : Makes options bytes (MulExpr_create l r) (x * y) := by
  unfold MulExpr_create
  split
  next one =>
    obtain rfl : w = 1 := left.width.symm.trans one
    have both : ∀ x y : BitVec 1, x * y = x &&& y := by decide
    exact .of_ok (denotes_arithmetic.mpr ⟨x, y, left, right, both x y⟩)
  · exact makes_arithmetic left right

theorem MulExpr.create_makes (options : Options) (bytes : Assignment)
    : Constructs options bytes MulExpr.create .Mul := by
  intro w x y l r left right
  refine bcreateR_makes left right arithmetic_makes ?_ (MulExpr_createPartialR_makes · right)
    (MulExpr_create_makes left right)
  rw [ArithmeticKind.apply, mul_comm]
  exact (MulExpr_createPartialR_makes · left)

variable {oneBit : Expr → Expr → Except Fault Expr}

/-- An operator of one-bit operands is made on its own. -/
theorem arithmetic_unlessBool_makes {kind : ArithmeticKind}
    (bool : ∀ {x y : BitVec 1} {l r : Expr}, Denotes options bytes l x
      → Denotes options bytes r y → Makes options bytes (oneBit l r) (kind.apply x y))
    : Constructs options bytes
        (bcreate (arithmetic kind) (createUnlessBool oneBit (.arithmetic kind)))
        kind := by
  intro w x y l r left right
  refine bcreate_makes left right arithmetic_makes ?_
  unfold createUnlessBool
  split
  next one =>
    obtain rfl : w = 1 := left.width.symm.trans one
    exact bool left right
  · exact makes_arithmetic left right

/-- A constructor of a comparison, on operands of any width. -/
def Compares (options : Options) (bytes : Assignment)
    (create : Expr → Expr → Except Fault Expr) (kind : ComparisonKind)
    : Prop :=
  ∀ {w : Nat} {x y : BitVec w} {l r : Expr}, Denotes options bytes l x
    → Denotes options bytes r y
    → Makes options bytes (create l r) (BitVec.ofBool (kind.apply x y))

/-- A comparison of one-bit operands is made as the function of them that it is. -/
theorem comparison_unlessBool_builds {kind : ComparisonKind} (f : BitVec 1 → BitVec 1 → BitVec 1)
    (value : ∀ x y : BitVec 1, ofBool (kind.apply x y) = f x y)
    (bool : ∀ {x y : BitVec 1} {l r : Expr}, Denotes options bytes l x
      → Denotes options bytes r y → Builds options bytes (oneBit l r) (f x y))
    (left : Denotes options bytes l x) (right : Denotes options bytes r y)
    : Builds options bytes
        (bcreate (comparison kind) (createUnlessBool oneBit (.comparison kind)) l r)
        (ofBool (kind.apply x y)) := by
  unfold bcreate createUnlessBool
  rw [if_neg (not_not.mpr (left.same_width right))]
  split
  next cl cr isL isR =>
    rw [constant?_eq_some.mp isL] at left
    rw [constant?_eq_some.mp isR] at right
    exact .of_ok (comparison_makes left right _ rfl)
  split
  next one =>
    obtain rfl : w = 1 := left.width.symm.trans one
    rw [value]
    exact bool left right
  · exact .of_ok (makes_comparison left right _ rfl)

/-- The operators that leave the left operand. -/
theorem left_unlessBool_makes {kind : ArithmeticKind} (same : ∀ x y : BitVec 1, kind.apply x y = x)
    : Constructs options bytes (bcreate (arithmetic kind)
        (createUnlessBool (fun l _ => .ok l) (.arithmetic kind))) kind := by
  refine arithmetic_unlessBool_makes fun {x y} _ _ left _ => ?_
  rw [same]
  exact .of_ok left

/-- The operators that give zero. -/
theorem zero_unlessBool_makes {kind : ArithmeticKind}
    (none : ∀ x y : BitVec 1, kind.apply x y = 0#1)
    : Constructs options bytes (bcreate (arithmetic kind)
        (createUnlessBool (fun _ _ => do .ok (.constant (← create 0 1)))
          (.arithmetic kind))) kind := by
  refine arithmetic_unlessBool_makes fun {x y} _ _ _ _ => ?_
  rw [none, create_zero]
  exact .of_ok (denotes_constant options bytes ⟨1, 0#1⟩)

/-- The shifts by the right operand. -/
theorem shift_unlessBool_makes {kind : ArithmeticKind}
    (value : ∀ x y : BitVec 1, kind.apply x y = x &&& ofBool (y == 0#1))
    : Constructs options bytes (bcreate (arithmetic kind)
        (createUnlessBool (fun l r => do AndExpr.create l (← r.createIsZero options))
          (.arithmetic kind))) kind := by
  refine arithmetic_unlessBool_makes fun {x y} _ _ left right => ?_
  rw [value]
  exact ((Expr.createIsZero_builds right).bind fun _ zero => AndExpr.create_builds left zero).makes

variable (options : Options) (bytes : Assignment)

theorem UDivExpr.create_makes : Constructs options bytes create .UDiv :=
  left_unlessBool_makes (by decide)

theorem SDivExpr.create_makes : Constructs options bytes create .SDiv :=
  left_unlessBool_makes (by decide)

theorem URemExpr.create_makes : Constructs options bytes create .URem :=
  zero_unlessBool_makes (by decide)

theorem SRemExpr.create_makes : Constructs options bytes create .SRem :=
  zero_unlessBool_makes (by decide)

theorem ShlExpr.create_makes : Constructs options bytes (ShlExpr.create options) .Shl :=
  shift_unlessBool_makes (by decide)

theorem LShrExpr.create_makes : Constructs options bytes (LShrExpr.create options) .LShr :=
  shift_unlessBool_makes (by decide)

theorem AShrExpr.create_makes : Constructs options bytes create .AShr :=
  left_unlessBool_makes (by decide)

variable {options : Options} {bytes : Assignment}

section

variable (left : Denotes options bytes l x) (right : Denotes options bytes r y)
include left right

theorem UltExpr.create_builds
    : Builds options bytes (create options l r) (ofBool (ComparisonKind.Ult.apply x y)) := by
  refine comparison_unlessBool_builds (fun x y => ofBool (x == 0#1) &&& y) (by decide)
    (fun left right => ?_) left right
  exact (Expr.createIsZero_builds left).bind fun _ zero => AndExpr.create_builds zero right

theorem UleExpr.create_builds
    : Builds options bytes (create options l r) (ofBool (ComparisonKind.Ule.apply x y)) := by
  refine comparison_unlessBool_builds (fun x y => ofBool (x == 0#1) ||| y) (by decide)
    (fun left right => ?_) left right
  exact (Expr.createIsZero_builds left).bind fun _ zero => OrExpr.create_builds zero right

theorem SltExpr.create_builds
    : Builds options bytes (create options l r) (ofBool (ComparisonKind.Slt.apply x y)) := by
  refine comparison_unlessBool_builds (fun x y => x &&& ofBool (y == 0#1)) (by decide)
    (fun left right => ?_) left right
  exact (Expr.createIsZero_builds right).bind fun _ zero => AndExpr.create_builds left zero

theorem SleExpr.create_builds
    : Builds options bytes (create options l r) (ofBool (ComparisonKind.Sle.apply x y)) := by
  refine comparison_unlessBool_builds (fun x y => x ||| ofBool (y == 0#1)) (by decide)
    (fun left right => ?_) left right
  exact (Expr.createIsZero_builds right).bind fun _ zero => OrExpr.create_builds left zero

end

end Woodpecker.Expressions
