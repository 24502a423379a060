import Woodpecker.Expressions.Operations

/-! A weight of expressions that no constructor adds to.

The constructors rewrite what they are given, and can make new nodes of other kinds. Still,
what one of them makes weighs no more than the node that it stands for. The weights say how
much each kind can turn into: an equality with a constant, for one, goes into both sides of
a disjunction, so a disjunction weighs more than a conjunction.
-/

namespace Woodpecker.Expressions

open Library ConstantExpr

-- Weights

/-- A conjunction is what other operators turn into. -/
def ArithmeticKind.weight : ArithmeticKind → Nat
  | .And => 1
  | _ => 3

/-- An equality is what other comparisons turn into. -/
def ComparisonKind.weight : ComparisonKind → Nat
  | .Eq => 1
  | _ => 5

mutual

/-- An equality with a read can become a hundred equalities with its index. -/
def Expr.weight : Expr → Nat
  | .constant _ => 1
  | .notOptimized src => src.weight + 1
  | .read _ head index => 1000 * (head.weight + index.weight + 1)
  | .select cond trueExpr falseExpr => cond.weight + trueExpr.weight + falseExpr.weight + 5
  | .concat left right => left.weight + right.weight + 1
  | .extract expr _ _ => 2 * expr.weight + 1
  | .not expr => expr.weight + 1
  | .cast _ src _ => 2 * src.weight + 2
  | .arithmetic kind left right => left.weight + right.weight + kind.weight
  | .comparison kind left right => left.weight + right.weight + kind.weight

def UpdateNode.weight : UpdateNode → Nat
  | .null => 0
  | .node index value next => index.weight + value.weight + next.weight

end

mutual

/-- The widths are from 1 to 64, and under the assignment no division is by zero. -/
def Expr.Proper (bytes : Assignment) : Expr → Prop
  | .constant c => 0 < c.width ∧ c.width ≤ 64
  | .notOptimized src => src.Proper bytes
  | .read _ head index => head.Proper bytes ∧ index.Proper bytes
  | .select cond trueExpr falseExpr =>
    cond.Proper bytes ∧ trueExpr.Proper bytes ∧ falseExpr.Proper bytes
  | .concat left right =>
    left.Proper bytes ∧ right.Proper bytes ∧ left.getWidth + right.getWidth ≤ 64
  | .extract expr _ width => expr.Proper bytes ∧ 0 < width ∧ width ≤ 64
  | .not expr => expr.Proper bytes
  | .cast _ src width => src.Proper bytes ∧ 0 < width ∧ width ≤ 64
  | .arithmetic kind left right =>
    left.Proper bytes ∧ right.Proper bytes ∧ kind.Defined (right.bits bytes left.getWidth)
  | .comparison _ left right => left.Proper bytes ∧ right.Proper bytes

def UpdateNode.Proper (bytes : Assignment) : UpdateNode → Prop
  | .null => True
  | .node index value next => index.Proper bytes ∧ value.Proper bytes ∧ next.Proper bytes

end

attribute [local grind] Expr.kids Expr.weight UpdateNode.weight ArithmeticKind.weight
  ComparisonKind.weight

variable {options : Options} {bytes : Assignment} {e l r : Expr} {c cl cr : ConstantExpr}
  {m n : Nat}

theorem ArithmeticKind.weight_pos (kind : ArithmeticKind) : 0 < kind.weight := by
  cases kind <;> decide

theorem ComparisonKind.weight_pos (kind : ComparisonKind) : 0 < kind.weight := by
  cases kind <;> decide

theorem Expr.weight_pos (e : Expr) : 0 < e.weight := by
  cases e with
  | arithmetic kind | comparison kind => exact Nat.add_pos_right _ kind.weight_pos
  | _ => simp [weight]

/-- Only constants have the least weight. -/
theorem Expr.one_lt_weight (other : e.constant? = none) : 1 < e.weight := by
  cases e with
  | constant c => exact nomatch other
  | notOptimized src | not src | extract src _ _ =>
    have := src.weight_pos
    grind
  | arithmetic _ left right | comparison _ left right | concat left right =>
    have := left.weight_pos
    have := right.weight_pos
    grind
  | read | select | cast => grind

theorem bool_width : 0 < 1 ∧ 1 ≤ 64 := by
  decide

/-- By recursion along the operand that has the width. -/
theorem Expr.Proper.width (e : Expr) (proper : e.Proper bytes)
    : 0 < e.getWidth ∧ e.getWidth ≤ 64 := by
  cases e with
  | constant c => exact proper
  | notOptimized src => exact width src proper
  | read root head index => exact ⟨Nat.succ_pos 7, (by decide : 8 ≤ 64)⟩
  | select cond trueExpr falseExpr => exact width trueExpr proper.2.1
  | concat left right =>
    have positive := (width left proper.1).1
    exact ⟨Nat.add_pos_left positive _, proper.2.2⟩
  | extract expr offset width => exact proper.2
  | not expr => exact width expr proper
  | cast kind src width => exact proper.2
  | arithmetic kind left right => exact width left proper.1
  | comparison kind left right => exact bool_width
termination_by structural e

theorem proper_bool (bytes : Assignment) (b : BitVec 1)
    : (Expr.constant ⟨1, b⟩).Proper bytes :=
  bool_width

theorem proper_constant (proper : (Expr.constant cl).Proper bytes) (same : c.width = cl.width)
    : (Expr.constant c).Proper bytes := by
  obtain ⟨positive, narrow⟩ := proper
  exact ⟨same ▸ positive, same ▸ narrow⟩

/-- What is made is proper, and has at most the weight. -/
def Light (bytes : Assignment) (n : Nat) (e : Expr) : Prop :=
  e.Proper bytes ∧ e.weight ≤ n

theorem Light.mono (light : Light bytes m e) (le : m ≤ n) : Light bytes n e :=
  ⟨light.1, light.2.trans le⟩

theorem Expr.Proper.light (proper : e.Proper bytes) (le : e.weight ≤ n) : Light bytes n e :=
  ⟨proper, le⟩

theorem light_constant (width : 0 < c.width ∧ c.width ≤ 64) (le : 1 ≤ n)
    : Light bytes n (.constant c) :=
  ⟨width, le⟩

theorem light_bool {b : BitVec 1} (le : 1 ≤ n) : Light bytes n (.constant ⟨1, b⟩) :=
  light_constant bool_width le

variable {kind : ArithmeticKind}

/-- A new node of an operator that is not a division. -/
theorem light_arithmetic (left : l.Proper bytes) (right : r.Proper bytes)
    (defined : kind.Defined (r.bits bytes l.getWidth)) (le : l.weight + r.weight + kind.weight ≤ n)
    : Light bytes n (.arithmetic kind l r) :=
  ⟨⟨left, right, defined⟩, le⟩

/-- A computation that makes light expressions. -/
abbrev MakesLight (bytes : Assignment) (made : Except Fault Expr) (n : Nat) : Prop :=
  Ensures made (Light bytes n)

variable {made : Except Fault Expr}

theorem MakesLight.mono (light : MakesLight bytes made m) (le : m ≤ n)
    : MakesLight bytes made n :=
  Ensures.mono light fun _ isLight => Light.mono isLight le

/-- A constructor whose node adds this to the weights of its operands. -/
def CreatesLight (bytes : Assignment) (k : Nat) (create : Expr → Expr → Except Fault Expr) : Prop :=
  ∀ {l r : Expr}, l.Proper bytes → r.Proper bytes
    → MakesLight bytes (create l r) (l.weight + r.weight + k)

/-- The same of a function for one constant operand. -/
def CreatesPartialLight (bytes : Assignment) (k : Nat)
    (createPartialR : ConstantExpr → Expr → Except Fault Expr)
    : Prop :=
  ∀ {c : ConstantExpr} {e : Expr}, (Expr.constant c).Proper bytes → e.Proper bytes
    → MakesLight bytes (createPartialR c e) (e.weight + k)

section

variable {create : Expr → Expr → Except Fault Expr} {k : Nat}
  (second : CreatesLight bytes k create) (first : MakesLight bytes made m)
include second first

/-- What the first of two calls makes is an operand of the second. -/
theorem CreatesLight.then_left (right : r.Proper bytes) (le : m + r.weight + k ≤ n)
    : MakesLight bytes (made >>= fun l => create l r) n := by
  refine first.bind fun l isL => (second isL.1 right).mono ?_
  have light := isL.2
  omega

theorem CreatesLight.then_right (left : l.Proper bytes) (le : l.weight + m + k ≤ n)
    : MakesLight bytes (made >>= fun r => create l r) n := by
  refine first.bind fun r isR => (second left isR.1).mono ?_
  have light := isR.2
  omega

end

-- The steps that constructors share

theorem arithmetic_width
    : Ensures (cl.arithmetic kind cr) fun c => c.width = cl.width := by
  unfold arithmetic
  cases kind
  case UDiv | SDiv | URem | SRem =>
    simp only
    split
    · exact ensures_error _
    · exact .of_ok rfl
  all_goals exact .of_ok rfl

theorem bcreateConstants_width
    : Ensures (bcreateConstants kind cl cr) fun c => c.width = cl.width := by
  unfold bcreateConstants
  split
  · exact ensures_error _
  · exact arithmetic_width

variable {fold : ConstantExpr → ConstantExpr → Except Fault ConstantExpr}
  {create : Expr → Expr → Except Fault Expr} {k : Nat}

section

variable (folds : ∀ cl cr, l = .constant cl → r = .constant cr
    → Ensures (fold cl cr) fun c => 0 < c.width ∧ c.width ≤ 64)
  (general : MakesLight bytes (create l r) (l.weight + r.weight + k))
include folds general

/-- `BCREATE_R`: two constants are folded, and the functions for one constant and for none
make light expressions.
-/
theorem bcreateR_light {createPartial : Expr → ConstantExpr → Except Fault Expr}
    {createPartialR : ConstantExpr → Expr → Except Fault Expr}
    (partialL : ∀ cr, r = .constant cr → MakesLight bytes (createPartial l cr) (l.weight + (1 + k)))
    (partialR : ∀ cl, l = .constant cl
      → MakesLight bytes (createPartialR cl r) (r.weight + (1 + k)))
    : MakesLight bytes (bcreateR fold createPartial createPartialR create l r)
        (l.weight + r.weight + k) := by
  have positive := l.weight_pos
  unfold bcreateR
  split
  · exact ensures_error _
  split
  next cl cr isL isR =>
    refine (folds cl cr (constant?_eq_some.mp isL) (constant?_eq_some.mp isR)).bind
      fun c width => ?_
    exact .of_ok (light_constant width (by omega))
  next cl isL _ =>
    obtain rfl := constant?_eq_some.mp isL
    exact (partialR cl rfl).mono (by grind)
  next cr _ isR =>
    obtain rfl := constant?_eq_some.mp isR
    exact (partialL cr rfl).mono (by grind)
  · exact general

theorem bcreate_light
    : MakesLight bytes (bcreate fold create l r) (l.weight + r.weight + k) := by
  have positive := l.weight_pos
  unfold bcreate
  split
  · exact ensures_error _
  split
  next cl cr isL isR =>
    refine (folds cl cr (constant?_eq_some.mp isL) (constant?_eq_some.mp isR)).bind
      fun c width => ?_
    exact .of_ok (light_constant width (by omega))
  · exact general

/-- The function for one constant is the same on both sides. -/
theorem bcreateR_light_comm {createPartialR : ConstantExpr → Expr → Except Fault Expr}
    (left : l.Proper bytes) (right : r.Proper bytes)
    (one : CreatesPartialLight bytes (1 + k) createPartialR)
    : MakesLight bytes (bcreateR fold (fun e c => createPartialR c e) createPartialR create l r)
        (l.weight + r.weight + k) := by
  refine bcreateR_light folds general ?_ ?_
  · rintro cr rfl
    exact one right left
  · rintro cl rfl
    exact one left right

end

/-- Folded constants are as wide as the first. -/
theorem arithmetic_folds (kind : ArithmeticKind) (left : l.Proper bytes) (cl cr : ConstantExpr)
    (isL : l = .constant cl) (_ : r = .constant cr)
    : Ensures (cl.arithmetic kind cr) fun c => 0 < c.width ∧ c.width ≤ 64 := by
  subst isL
  exact arithmetic_width.mono fun c same => same ▸ left

-- Conjunctions, disjunctions and equalities

theorem AndExpr_createPartial_light
    : CreatesPartialLight bytes 2 fun c e => AndExpr_createPartial e c :=
  fun right left =>
    ensures_tests (left.light (by omega)) (light_constant right (by omega))
      (light_arithmetic left right trivial (le_refl _))

theorem AndExpr.create_light : CreatesLight bytes 1 AndExpr.create := by
  intro l r left right
  refine bcreateR_light_comm (arithmetic_folds .And left) ?_ left right AndExpr_createPartial_light
  exact .of_ok (light_arithmetic left right trivial (le_refl _))

theorem OrExpr_createPartial_light
    : CreatesPartialLight bytes 4 fun c e => OrExpr_createPartial e c :=
  fun right left =>
    ensures_tests (light_constant right (by omega)) (left.light (by omega))
      (light_arithmetic left right trivial (le_refl _))

theorem OrExpr.create_light : CreatesLight bytes 3 OrExpr.create := by
  intro l r left right
  refine bcreateR_light_comm (arithmetic_folds .Or left) ?_ left right OrExpr_createPartial_light
  exact .of_ok (light_arithmetic left right trivial (le_refl _))

theorem EqExpr_create_light (options : Options) : CreatesLight bytes 1 (EqExpr_create options) := by
  intro l r left right
  unfold EqExpr_create
  split
  · exact .of_ok (light_bool (by omega))
  · exact .of_ok ⟨⟨left, right⟩, le_refl _⟩

theorem eqConstant_light {descended : Except Fault Expr} (le : 1 ≤ n)
    (light : MakesLight bytes descended n)
    : MakesLight bytes (eqConstant e cr descended) n := by
  unfold eqConstant
  split
  · exact .of_ok (light_bool le)
  · exact light

variable {index : Expr}

/-- The disjunction over the positions at which an array has a value, by induction on the
rest of the array. Each position adds one equality with the index.
-/
theorem TryConstArrayOpt_light {rd res : Expr} {indexIs : Nat → Except Fault Expr}
    (constant : (Expr.constant cl).Proper bytes) (read : rd.Proper bytes)
    (light : ∀ i, MakesLight bytes (indexIs i) (index.weight + 2))
    (heavy : 100 * (index.weight + 5) ≤ rd.weight) (values : List (BitVec 8)) {i numMatches : Nat}
    (isRes : Light bytes (1 + numMatches * (index.weight + 5)) res) (few : numMatches ≤ 100)
    : MakesLight bytes (TryConstArrayOpt options cl rd indexIs values i numMatches res)
        (rd.weight + 2) := by
  induction values generalizing i numMatches res with
  | nil =>
    have bound := Nat.mul_le_mul_right (index.weight + 5) few
    exact .of_ok (isRes.mono (by omega))
  | cons value rest ih =>
    rw [TryConstArrayOpt]
    split
    · split
      · exact (EqExpr_create_light options constant read).mono (by grind)
      next fewer =>
        refine (light i).bind fun mayBe isMayBe => ?_
        refine (OrExpr.create_light isRes.1 isMayBe.1).bind fun res' isRes' => ?_
        refine ih (isRes'.mono ?_) (by omega)
        have one := isRes.2
        have two := isMayBe.2
        rw [Nat.add_mul]
        omega
    · exact ih isRes few

/-- By induction on how the equality is made. -/
theorem EqMade.light (isMade : EqMade options cl r made) (left : (Expr.constant cl).Proper bytes)
    (right : r.Proper bytes)
    : MakesLight bytes made (r.weight + 2) := by
  induction isMade with
  | general cl r => exact (EqExpr_create_light options left right).mono (by grind)
  | itself r => exact .of_ok (right.light (by omega))
  | negation right' => exact .of_ok (right.2.light (by grind))
  | disjunction _ _ ihL ihR =>
    have lightL := ihL right.1.width right.1
    have lightR := ihR right.2.1.width right.2.1
    refine (eqConstant_light (by omega) lightL).bind fun notL isNotL => ?_
    have light := isNotL.2
    exact AndExpr.create_light.then_right (eqConstant_light (by omega) lightR) isNotL.1 (by grind)
  | extension _ ih =>
    split
    · exact (eqConstant_light (by omega) (ih right.1.width right.1)).mono (by grind)
    · exact .of_ok (light_bool (by omega))
  | sum _ ih =>
    refine bcreateConstants_width.bind fun c width => ?_
    exact (ih c (proper_constant left width) right.2.1).mono (by grind)
  | difference _ ih =>
    refine bcreateConstants_width.bind fun c width => ?_
    exact (ih c (proper_constant right.1 width) right.2.1).mono (by grind)
  | element _ _ _ ih =>
    exact TryConstArrayOpt_light left right
      (fun i => eqConstant_light (by omega) (ih i right.2.width right.2)) (by grind) _
      (light_bool (by omega)) (by omega)

theorem EqExpr_createPartialR_light
    : CreatesPartialLight bytes 2 (EqExpr_createPartialR options) :=
  fun left right => (EqExpr_createPartialR_made _ _).light left right

theorem EqExpr.create_light : CreatesLight bytes 1 (EqExpr.create options) := fun left right =>
  bcreateR_light_comm (fun _ _ _ _ => .of_ok bool_width) (EqExpr_create_light options left right)
    left right EqExpr_createPartialR_light

theorem Expr.createIsZero_light (proper : e.Proper bytes)
    : MakesLight bytes (e.createIsZero options) (e.weight + 2) := by
  unfold createIsZero
  rw [create_zero, ok_bind]
  exact EqExpr.create_light proper proper.width

theorem XorExpr_createPartialR_light
    : CreatesPartialLight bytes 4 (XorExpr_createPartialR options) := by
  intro cl r left right
  refine ensures_bind fun zero _ => ?_
  split
  · exact .of_ok (right.light (by omega))
  split
  · exact (EqExpr_createPartialR_light (proper_bool bytes 0#1) right).mono (by omega)
  · exact .of_ok (light_arithmetic left right trivial (by grind))

theorem XorExpr.create_light : CreatesLight bytes 3 (XorExpr.create options) := by
  intro l r left right
  refine bcreateR_light_comm (arithmetic_folds .Xor left) ?_ left right XorExpr_createPartialR_light
  exact .of_ok (light_arithmetic left right trivial (le_refl _))

-- Sums and the other operators

section Sums

variable {add sub : Expr → Expr → Except Fault Expr} (adds : CreatesLight bytes 3 add)
  (subs : CreatesLight bytes 3 sub)

include adds subs

theorem AddExpr_createPartialR_light
    : CreatesPartialLight bytes 4 (AddExpr_createPartialR options add sub) := by
  intro cl r left right
  unfold AddExpr_createPartialR
  split
  · exact XorExpr_createPartialR_light left right
  refine ensures_bind fun zero _ => ?_
  split
  · exact .of_ok (right.light (by omega))
  split
  next k c => exact adds.then_left (adds left right.1) right.2.1 (by grind)
  next k c => exact subs.then_left (adds left right.1) right.2.1 (by grind)
  · exact .of_ok (light_arithmetic left right trivial (by grind))

theorem AddExpr_create_light : CreatesLight bytes 3 (AddExpr_create add sub) := by
  intro l r left right
  unfold AddExpr_create
  split
  · exact .of_ok (light_arithmetic left right trivial (le_refl _))
  split
  next k a b => exact adds.then_right (adds left.2.1 right) left.1 (by grind)
  next k a b => exact adds.then_right (subs right left.2.1) left.1 (by grind)
  next k b _ _ => exact adds.then_right (adds left right.2.1) right.1 (by grind)
  next k b _ _ => exact adds.then_right (subs left right.2.1) right.1 (by grind)
  · exact .of_ok (light_arithmetic left right trivial (le_refl _))

theorem SubExpr_createPartialR_light
    : CreatesPartialLight bytes 4 (SubExpr_createPartialR options add sub) := by
  intro cl r left right
  unfold SubExpr_createPartialR
  split
  · exact XorExpr_createPartialR_light left right
  split
  next k c => exact subs.then_left (subs left right.1) right.2.1 (by grind)
  next k c => exact adds.then_left (subs left right.1) right.2.1 (by grind)
  · exact .of_ok (light_arithmetic left right trivial (by grind))

theorem SubExpr_create_light : CreatesLight bytes 3 (SubExpr_create options add sub) := by
  intro l r left right
  unfold SubExpr_create
  split
  · exact .of_ok (light_arithmetic left right trivial (le_refl _))
  split
  · exact .of_ok (light_constant left.width (by omega))
  split
  next k a b _ _ => exact adds.then_right (subs left.2.1 right) left.1 (by grind)
  next k a b _ _ => exact subs.then_right (adds left.2.1 right) left.1 (by grind)
  next k b _ _ _ _ => exact subs.then_left (subs left right.2.1) right.1 (by grind)
  next k b _ _ _ _ => exact subs.then_left (adds left right.2.1) right.1 (by grind)
  · exact .of_ok (light_arithmetic left right trivial (le_refl _))

end Sums

/-- Both constructors together, by induction on the budget. -/
theorem sums_light (options : Options) (bytes : Assignment) (fuel : Nat)
    : CreatesLight bytes 3 (AddExpr.create options fuel)
      ∧ CreatesLight bytes 3 (SubExpr.create options fuel) := by
  induction fuel with
  | zero =>
    constructor
    · intro _ _ _ _
      exact ensures_error _
    · intro _ _ _ _
      exact ensures_error _
  | succ fuel ih =>
    obtain ⟨adds, subs⟩ := ih
    constructor
    · intro l r left right
      exact bcreateR_light_comm (arithmetic_folds .Add left)
        (AddExpr_create_light adds subs left right) left right
        (AddExpr_createPartialR_light adds subs)
    · intro l r left right
      refine bcreateR_light (arithmetic_folds .Sub left)
        (SubExpr_create_light adds subs left right) ?_ ?_
      · rintro cr rfl
        refine arithmetic_width.bind fun negated width => ?_
        exact AddExpr_createPartialR_light adds subs (proper_constant right width) left
      · rintro cl rfl
        exact SubExpr_createPartialR_light adds subs left right

theorem MulExpr_createPartialR_light
    : CreatesPartialLight bytes 4 MulExpr_createPartialR := by
  intro cl r left right
  unfold MulExpr_createPartialR
  split
  · exact (AndExpr_createPartial_light left right).mono (by omega)
  · exact ensures_tests (right.light (by omega)) (light_constant left (by omega))
      (light_arithmetic left right trivial (by grind))

theorem MulExpr.create_light : CreatesLight bytes 3 MulExpr.create := by
  intro l r left right
  refine bcreateR_light_comm (arithmetic_folds .Mul left) ?_ left right MulExpr_createPartialR_light
  unfold MulExpr_create
  split <;> exact .of_ok (light_arithmetic left right trivial (by grind))

variable {oneBit : Expr → Expr → Except Fault Expr}

theorem createUnlessBool_light {alloc : Expr → Expr → Expr} (one : MakesLight bytes (oneBit l r) n)
    (wide : Light bytes n (alloc l r))
    : MakesLight bytes (createUnlessBool oneBit alloc l r) n := by
  unfold createUnlessBool
  split
  · exact one
  · exact .of_ok wide

section

variable (left : l.Proper bytes) (right : r.Proper bytes)
include left right

/-- `l & !r`, as one-bit shifts and comparisons are written. -/
theorem and_isZero_light
    : MakesLight bytes (do AndExpr.create l (← r.createIsZero options)) (l.weight + r.weight + 3) :=
  AndExpr.create_light.then_right (Expr.createIsZero_light right) left (by omega)

theorem isZero_and_light
    : MakesLight bytes (do AndExpr.create (← l.createIsZero options) r) (l.weight + r.weight + 3) :=
  AndExpr.create_light.then_left (Expr.createIsZero_light left) right (by omega)

theorem isZero_or_light
    : MakesLight bytes (do OrExpr.create (← l.createIsZero options) r) (l.weight + r.weight + 5) :=
  OrExpr.create_light.then_left (Expr.createIsZero_light left) right (by omega)

/-- The operators that have a form of their own for one-bit operands only. -/
theorem arithmetic_unlessBool_light (defined : kind.Defined (r.bits bytes l.getWidth))
    (le : kind.weight ≤ 3) (one : MakesLight bytes (oneBit l r) (l.weight + r.weight + 3))
    : MakesLight bytes (bcreate (arithmetic kind) (createUnlessBool oneBit (.arithmetic kind)) l r)
        (l.weight + r.weight + 3) := by
  refine bcreate_light (arithmetic_folds kind left) ?_
  exact createUnlessBool_light one (light_arithmetic left right defined (by omega))

theorem comparison_unlessBool_light {kind : ComparisonKind} (le : kind.weight ≤ 5)
    (one : MakesLight bytes (oneBit l r) (l.weight + r.weight + 5))
    : MakesLight bytes (bcreate (comparison kind) (createUnlessBool oneBit (.comparison kind)) l r)
        (l.weight + r.weight + 5) := by
  refine bcreate_light (fun _ _ _ _ => .of_ok bool_width) ?_
  exact createUnlessBool_light one ⟨⟨left, right⟩, by grind⟩

end

theorem ArithmeticKind.create_light (kind : ArithmeticKind) (fuel : Nat) (left : l.Proper bytes)
    (right : r.Proper bytes) (defined : kind.Defined (r.bits bytes l.getWidth))
    : MakesLight bytes (kind.create options fuel l r) (l.weight + r.weight + kind.weight) := by
  have sameAsLeft : MakesLight bytes (.ok l) (l.weight + r.weight + 3) :=
    .of_ok (left.light (by omega))
  have zero : MakesLight bytes (do .ok (.constant (← ConstantExpr.create 0 1)))
      (l.weight + r.weight + 3) := by
    exact .of_ok (light_bool (by omega))
  cases kind with
  | Add => exact (sums_light options bytes fuel).1 left right
  | Sub => exact (sums_light options bytes fuel).2 left right
  | Mul => exact MulExpr.create_light left right
  | And => exact AndExpr.create_light left right
  | Or => exact OrExpr.create_light left right
  | Xor => exact XorExpr.create_light left right
  | Shl | LShr =>
    exact arithmetic_unlessBool_light left right defined (by decide) (and_isZero_light left right)
  | UDiv | SDiv | AShr =>
    exact arithmetic_unlessBool_light left right defined (by decide) sameAsLeft
  | URem | SRem => exact arithmetic_unlessBool_light left right defined (by decide) zero

theorem ComparisonKind.create_light (kind : ComparisonKind) (left : l.Proper bytes)
    (right : r.Proper bytes)
    : MakesLight bytes (kind.create options l r) (l.weight + r.weight + kind.weight) := by
  have ult : CreatesLight bytes 5 (UltExpr.create options) := fun left right =>
    comparison_unlessBool_light left right (by decide)
      ((isZero_and_light left right).mono (by omega))
  have ule : CreatesLight bytes 5 (UleExpr.create options) := fun left right =>
    comparison_unlessBool_light left right (by decide) (isZero_or_light left right)
  have slt : CreatesLight bytes 5 (SltExpr.create options) := fun left right =>
    comparison_unlessBool_light left right (by decide)
      ((and_isZero_light left right).mono (by omega))
  have sle : CreatesLight bytes 5 (SleExpr.create options) := fun left right =>
    comparison_unlessBool_light left right (by decide)
      (OrExpr.create_light.then_right (Expr.createIsZero_light right) left (by omega))
  have swapped : r.weight + l.weight + 5 = l.weight + r.weight + 5 := by omega
  cases kind with
  | Eq => exact EqExpr.create_light left right
  | Ne =>
    exact EqExpr.create_light.then_right (EqExpr.create_light left right) (proper_bool bytes 0#1)
      (by grind)
  | Ult => exact ult left right
  | Ule => exact ule left right
  | Ugt => exact swapped ▸ ult right left
  | Uge => exact swapped ▸ ule right left
  | Slt => exact slt left right
  | Sle => exact sle left right
  | Sgt => exact swapped ▸ slt right left
  | Sge => exact swapped ▸ sle right left

-- Concatenation, extraction and the rest

/-- What the constructor of extractions makes, with its width. -/
def ExtractsLight (bytes : Assignment) (extract : Expr → Nat → Nat → Except Fault Expr) : Prop :=
  ∀ {e : Expr} (off w : Nat), e.Proper bytes
    → Ensures (extract e off w) fun made =>
        Light bytes (2 * e.weight + 1) made ∧ made.getWidth = w

def ConcatsLight (bytes : Assignment) (concat : Expr → Expr → Except Fault Expr) : Prop :=
  ∀ {l r : Expr}, l.Proper bytes → r.Proper bytes → l.getWidth + r.getWidth ≤ 64
    → Ensures (concat l r) fun made =>
        Light bytes (l.weight + r.weight + 1) made ∧ made.getWidth = l.getWidth + r.getWidth

section Pieces

variable {concat : Expr → Expr → Except Fault Expr} {extract : Expr → Nat → Nat → Except Fault Expr}

theorem ConcatExpr_create_light (extracts : ExtractsLight bytes extract)
    : ConcatsLight bytes (ConcatExpr_create options extract) := by
  intro l r left right narrow
  unfold ConcatExpr_create
  split
  next lCE rCE => exact .of_ok ⟨light_constant ⟨Nat.add_pos_left left.1 _, narrow⟩ (by omega), rfl⟩
  next e leftOffset leftWidth e' rightOffset rightWidth =>
    split
    · refine (extracts rightOffset (leftWidth + rightWidth) left.1).mono fun made isMade => ?_
      exact ⟨isMade.1.mono (by grind), isMade.2⟩
    · exact .of_ok ⟨⟨⟨left, right, narrow⟩, le_refl _⟩, rfl⟩
  · exact .of_ok ⟨⟨⟨left, right, narrow⟩, le_refl _⟩, rfl⟩

theorem ExtractExpr_create_light (concats : ConcatsLight bytes concat)
    (extracts : ExtractsLight bytes extract)
    : ExtractsLight bytes (ExtractExpr_create concat extract) := by
  intro e off w proper
  have narrow := proper.width.2
  unfold ExtractExpr_create
  simp only
  split
  · exact ensures_error _
  next valid =>
    obtain ⟨positive, inside⟩ := not_not.mp valid
    have width : 0 < w ∧ w ≤ 64 := ⟨positive, by omega⟩
    split
    next full => exact .of_ok ⟨proper.light (by omega), full.symm⟩
    split
    next CE => exact .of_ok ⟨light_constant width (by omega), rfl⟩
    next left right _ =>
      split
      · refine (extracts (off - right.getWidth) w proper.1).mono fun made isMade => ?_
        exact ⟨isMade.1.mono (by grind), isMade.2⟩
      split
      · refine (extracts off w proper.2.1).mono fun made isMade => ?_
        exact ⟨isMade.1.mono (by grind), isMade.2⟩
      refine (extracts 0 (w + off - right.getWidth) proper.1).bind fun high isHigh => ?_
      refine (extracts off (right.getWidth - off) proper.2.1).bind fun low isLow => ?_
      have sum : high.getWidth + low.getWidth = w := by
        omega
      refine (concats isHigh.1.1 isLow.1.1 (by omega)).mono fun made isMade => ?_
      have one := isHigh.1.2
      have two := isLow.1.2
      exact ⟨isMade.1.mono (by grind), isMade.2.trans sum⟩
    · exact .of_ok ⟨⟨⟨proper, width⟩, le_refl _⟩, rfl⟩

end Pieces

/-- Both constructors together, by induction on the budget. -/
theorem pieces_light (options : Options) (bytes : Assignment) (fuel : Nat)
    : ConcatsLight bytes (ConcatExpr.create options fuel)
      ∧ ExtractsLight bytes (ExtractExpr.create options fuel) := by
  induction fuel with
  | zero =>
    constructor
    · intro _ _ _ _ _
      exact ensures_error _
    · intro _ _ _ _
      exact ensures_error _
  | succ fuel ih =>
    obtain ⟨concats, extracts⟩ := ih
    constructor
    · intro _ _ left right narrow
      exact ConcatExpr_create_light extracts left right narrow
    · intro _ off w proper
      exact ExtractExpr_create_light concats extracts off w proper

theorem NotExpr.create_light (proper : e.Proper bytes)
    : MakesLight bytes (NotExpr.create e) (e.weight + 1) := by
  unfold create
  split
  next CE isC =>
    rw [constant?_eq_some.mp isC] at proper
    exact .of_ok (light_constant proper (by omega))
  · exact .of_ok ⟨proper, le_refl _⟩

variable {w : Nat}

/-- `ZExtExpr::create` and `SExtExpr::create`, which differ in what they do to constants. -/
theorem extension_light {kind : CastKind} (extend : ConstantExpr → ConstantExpr) (fuel : Nat)
    (proper : e.Proper bytes) (width : 0 < w ∧ w ≤ 64) (extends_ : ∀ c, (extend c).width = w)
    : MakesLight bytes (if w = e.getWidth then .ok e
        else if w < e.getWidth then ExtractExpr.create options fuel e 0 w
        else
          match e.constant? with
          | some CE => .ok (.constant (extend CE))
          | none => .ok (.cast kind e w))
        (2 * e.weight + 2) := by
  split
  · exact .of_ok (proper.light (by omega))
  split
  · refine ((pieces_light options bytes fuel).2 0 w proper).mono fun made isMade => ?_
    exact isMade.1.mono (by omega)
  split
  next CE _ => exact .of_ok (light_constant ((extends_ CE).symm ▸ width) (by omega))
  · exact .of_ok ⟨⟨proper, width⟩, le_refl _⟩

theorem SelectExpr.create_light {c t f : Expr} (cond : c.Proper bytes) (yes : t.Proper bytes)
    (no : f.Proper bytes)
    : MakesLight bytes (SelectExpr.create options c t f) (c.weight + t.weight + f.weight + 5) := by
  have general : Light bytes (c.weight + t.weight + f.weight + 5) (.select c t f) :=
    ⟨⟨cond, yes, no⟩, le_refl _⟩
  unfold create
  split
  · exact ensures_error _
  split
  · exact ensures_error _
  split
  next CE _ =>
    refine ensures_bind fun holds _ => ?_
    split
    · exact .of_ok (yes.light (by omega))
    · exact .of_ok (no.light (by omega))
  split
  · exact .of_ok (yes.light (by omega))
  split
  · split
    next CE isT =>
      refine ensures_bind fun holds _ => ?_
      split
      · exact (OrExpr.create_light cond no).mono (by omega)
      · exact (isZero_and_light cond no).mono (by omega)
    next CE _ isF =>
      refine ensures_bind fun holds _ => ?_
      split
      · exact (isZero_or_light cond yes).mono (by omega)
      · exact (AndExpr.create_light cond yes).mono (by omega)
    · exact .of_ok general
  · exact .of_ok general

/-- An update that is found is one of those that the read weighs. -/
theorem ReadExpr.knownUpdate_light (head : UpdateNode) (proper : head.Proper bytes)
    : Ensures (knownUpdate options index head) fun known =>
        ∀ value, known = some value → Light bytes head.weight value := by
  cases head with
  | null =>
    refine .of_ok fun value isIt => ?_
    cases isIt
  | node at_ value next =>
    refine ensures_bind fun same _ => ?_
    split
    next CE =>
      refine ensures_bind fun found _ => ?_
      split
      · refine .of_ok fun value' isIt => ?_
        cases isIt
        exact proper.2.1.light (by grind)
      refine (knownUpdate_light next proper.2.2).mono fun known light value isIt => ?_
      exact (light value isIt).mono (by grind)
    · refine .of_ok fun value isIt => ?_
      cases isIt
termination_by structural head

theorem ReadExpr.create_light {head : UpdateNode} (root : Array) (updates : head.Proper bytes)
    (proper : index.Proper bytes)
    : MakesLight bytes (ReadExpr.create options root head index)
        (1000 * (head.weight + index.weight + 1)) := by
  refine (knownUpdate_light head updates).bind fun known light => ?_
  split
  next value => exact .of_ok ((light value rfl).mono (by omega))
  · exact .of_ok ⟨⟨updates, proper⟩, le_refl _⟩

-- Rebuilding

/-- Something lighter has taken the place of an expression, if it has changed. -/
def Lighter (e e' : Expr) : Prop :=
  e' = e ∨ e'.weight < e.weight

theorem Lighter.le (lighter : Lighter e l) : l.weight ≤ e.weight := by
  rcases lighter with same | less
  · rw [same]
  · exact less.le

theorem Lighter.lt (lighter : Lighter e l) (changed : l ≠ e) : l.weight < e.weight :=
  lighter.resolve_left changed

theorem Lighter.trans (one : Lighter e l) (two : Lighter l r) : Lighter e r := by
  rcases two with rfl | less
  · exact one
  · exact .inr (less.trans_le one.le)

/-- How a kid stands for another under an assignment: it is proper, has the same value, and
is lighter if it has changed.
-/
structure Replaces (options : Options) (bytes : Assignment) (e e' : Expr) : Prop where
  keeps : Keeps options bytes True e e'
  proper : e'.Proper bytes
  lighter : Lighter e e'

theorem Replaces.refl (proper : e.Proper bytes) : Replaces options bytes e e :=
  ⟨.refl e, proper, .inl rfl⟩

theorem Replaces.trans (one : Replaces options bytes e l) (two : Replaces options bytes l r)
    : Replaces options bytes e r :=
  ⟨one.keeps.trans two.keeps, two.proper, one.lighter.trans two.lighter⟩

/-- Kids of which one has changed are lighter together, by induction on the kids. -/
theorem lighter_kids {kids kids' : List Expr}
    (replaces : List.Forall₂ (Replaces options bytes) kids kids') (changed : kids' ≠ kids)
    : (kids'.map Expr.weight).sum < (kids.map Expr.weight).sum := by
  induction replaces with
  | nil => exact absurd rfl changed
  | @cons e e' kids kids' isE _ ih =>
    have le := isE.lighter.le
    simp only [List.map_cons, List.sum_cons]
    by_cases same : kids' = kids
    · have less := isE.lighter.lt fun same' => changed (by rw [same, same'])
      rw [same]
      omega
    · have less := ih same
      omega

/-- What an expression has to be like to be rebuilt with the kids: no piece is of no bits,
arithmetic is on at most 64 bits, and nothing is divided by the constant zero.
-/
def Expr.Shaped (kids : List Expr) : Expr → Prop
  | .concat left _ => 0 < left.getWidth
  | .extract _ _ width => 0 < width
  | .cast _ _ width => 0 < width
  | .arithmetic kind left _ =>
    left.getWidth ≤ 64 ∧ ∀ l c, kids = [l, .constant c] → kind.Divides c.value
  | _ => True

variable {v : BitVec w}

/-- Where one kid has changed, what is rebuilt is lighter, by cases on the class. -/
theorem rebuild_lighter (fuel : Nat) (e : Expr) (kids : List Expr) (isV : Denotes options bytes e v)
    (proper : e.Proper bytes) (replaces : List.Forall₂ (Replaces options bytes) e.kids kids)
    (changed : kids ≠ e.kids)
    : Ensures (e.rebuild options fuel kids) fun e' => e'.Proper bytes ∧ e'.weight < e.weight := by
  have of_light {made : Except Fault Expr} {n : Nat} (light : MakesLight bytes made n)
      (less : n < e.weight)
      : Ensures made fun e' => e'.Proper bytes ∧ e'.weight < e.weight :=
    Ensures.mono light fun e' isLight => ⟨isLight.1, isLight.2.trans_lt less⟩
  have less := lighter_kids replaces changed
  cases e with
  | constant c => exact ensures_error _
  | notOptimized src =>
    obtain ⟨a, rfl, isA⟩ := forall₂_one replaces
    exact .of_ok ⟨isA.proper, by grind⟩
  | read root head index =>
    obtain ⟨a, rfl, isA⟩ := forall₂_one replaces
    exact of_light (ReadExpr.create_light root proper.1 isA.proper) (by grind)
  | select cond trueExpr falseExpr =>
    obtain ⟨c, t, f, rfl, isC, isT, isF⟩ := forall₂_three replaces
    exact of_light (SelectExpr.create_light isC.proper isT.proper isF.proper) (by grind)
  | concat left right =>
    obtain ⟨l, r, rfl, isL, isR⟩ := forall₂_two replaces
    obtain ⟨x, y, -, isX, isY, -⟩ := isV.of_concat
    have widthL := (isL.keeps.denotes isX).width
    have widthR := (isR.keeps.denotes isY).width
    have narrow : l.getWidth + r.getWidth ≤ 64 := by
      rw [widthL, widthR]
      exact proper.2.2
    exact of_light (((pieces_light options bytes fuel).1 isL.proper isR.proper narrow).mono
      fun made isMade => isMade.1) (by grind)
  | extract expr offset width =>
    obtain ⟨a, rfl, isA⟩ := forall₂_one replaces
    exact of_light (((pieces_light options bytes fuel).2 offset width isA.proper).mono
      fun made isMade => isMade.1) (by grind)
  | not expr =>
    obtain ⟨a, rfl, isA⟩ := forall₂_one replaces
    exact of_light (NotExpr.create_light isA.proper) (by grind)
  | cast kind src width =>
    obtain ⟨a, rfl, isA⟩ := forall₂_one replaces
    have smaller : 2 * a.weight + 2 < (Expr.cast kind src width).weight := by grind
    cases kind with
    | ZExt =>
      exact of_light (extension_light (·.ZExt width) fuel isA.proper proper.2 fun _ => rfl) smaller
    | SExt =>
      exact of_light (extension_light (·.SExt width) fuel isA.proper proper.2 fun _ => rfl) smaller
  | arithmetic kind left right =>
    obtain ⟨l, r, rfl, isL, isR⟩ := forall₂_two replaces
    obtain ⟨x, y, isX, isY, -⟩ := denotes_arithmetic.mp isV
    have defined : kind.Defined (r.bits bytes l.getWidth) := by
      have before := proper.2.2
      rw [isX.width, isY.bits] at before
      rwa [(isL.keeps.denotes isX).width, (isR.keeps.denotes isY).bits]
    exact of_light (kind.create_light fuel isL.proper isR.proper defined) (by grind)
  | comparison kind left right =>
    obtain ⟨l, r, rfl, isL, isR⟩ := forall₂_two replaces
    exact of_light (kind.create_light isL.proper isR.proper) (by grind)

variable {e : Expr} {kids : List Expr}

/-- Rebuilding finishes, by cases on the class. -/
theorem rebuild_finishes (isV : Denotes options bytes e v) (other : e.constant? = none)
    (shaped : e.Shaped kids) (kept : List.Forall₂ (Keeps options bytes True) e.kids kids)
    : Finishes fun fuel => e.rebuild options fuel kids := by
  cases e with
  | constant c => exact nomatch other
  | notOptimized src =>
    obtain ⟨a, rfl, isA⟩ := forall₂_one kept
    exact (settles_ok _).finishes
  | read root head index =>
    obtain ⟨a, rfl, isA⟩ := forall₂_one kept
    obtain rfl : w = 8 := isV.width.symm
    obtain ⟨valid, i, isI, -, -⟩ := denotes_read.mp isV
    exact finishes_const.mpr (ReadExpr.create_returns root valid (isA.denotes isI))
  | select cond trueExpr falseExpr =>
    obtain ⟨c, t, f, rfl, isC, isT, isF⟩ := forall₂_three kept
    obtain ⟨b, x, y, isB, isX, isY, -⟩ := denotes_select.mp isV
    exact finishes_const.mpr (SelectExpr.create_builds (isC.denotes isB)
      (isT.denotes isX) (isF.denotes isY)).returns
  | concat left right =>
    obtain ⟨l, r, rfl, isL, isR⟩ := forall₂_two kept
    obtain ⟨x, y, -, isX, isY, -⟩ := isV.of_concat
    exact ConcatExpr.create_finishes (isL.denotes isX) (isR.denotes isY) shaped
  | extract expr offset width =>
    obtain ⟨a, rfl, isA⟩ := forall₂_one kept
    obtain ⟨x, rfl, inside, isX, -⟩ := isV.of_extract
    exact ExtractExpr.create_finishes (isA.denotes isX) shaped inside
  | not expr =>
    obtain ⟨a, rfl, isA⟩ := forall₂_one kept
    exact finishes_const.mpr (NotExpr.create_returns a)
  | cast kind src width =>
    obtain ⟨a, rfl, isA⟩ := forall₂_one kept
    obtain ⟨x, rfl, -, isX, -⟩ := isV.of_cast
    have isX' := isA.denotes isX
    cases kind with
    | ZExt => exact ZExtExpr.create_finishes isX' shaped
    | SExt => exact SExtExpr.create_finishes isX' shaped
  | arithmetic kind left right =>
    obtain ⟨l, r, rfl, isL, isR⟩ := forall₂_two kept
    obtain ⟨x, y, isX, isY, -⟩ := denotes_arithmetic.mp isV
    have narrow : w ≤ 64 := isX.width ▸ shaped.1
    refine kind.create_finishes (isL.denotes isX) (isR.denotes isY) (fun _ => narrow)
      fun cr isC => ?_
    have isY' := isR.denotes isY
    subst isC
    have divides := shaped.2 l cr rfl
    rwa [isY'.constant] at divides
  | comparison kind left right =>
    obtain ⟨l, r, rfl, isL, isR⟩ := forall₂_two kept
    obtain rfl : w = 1 := isV.width.symm
    obtain ⟨k, x, y, isX, isY, -⟩ := denotes_comparison.mp isV
    exact finishes_const.mpr (kind.create_builds (isL.denotes isX) (isR.denotes isY)).returns

theorem Expr.Proper.shaped (proper : e.Proper bytes) (isV : Denotes options bytes e v)
    (kept : List.Forall₂ (Keeps options bytes True) e.kids kids)
    : e.Shaped kids := by
  cases e with
  | constant | notOptimized | read | select | not | comparison => trivial
  | concat left right => exact proper.1.width.1
  | extract expr offset width => exact proper.2.1
  | cast kind src width => exact proper.2.1
  | arithmetic kind left right =>
    refine ⟨proper.1.width.2, fun l c isKids => ?_⟩
    obtain ⟨l', r', same, isL, isR⟩ := forall₂_two kept
    obtain ⟨x, y, isX, isY, -⟩ := denotes_arithmetic.mp isV
    have isY' := isR.denotes isY
    cases same.symm.trans isKids
    have defined := proper.2.2.divides
    rw [isX.width, isY.bits] at defined
    rwa [isY'.constant]

/-- A rebuilt expression replaces the one that it is rebuilt from. -/
theorem rebuild_yields (isV : Denotes options bytes e v) (proper : e.Proper bytes)
    (other : e.constant? = none) (replaces : List.Forall₂ (Replaces options bytes) e.kids kids)
    (changed : kids ≠ e.kids)
    : Yields (fun fuel => e.rebuild options fuel kids) fun e' =>
        Replaces options bytes e e' ∧ e'.weight < e.weight := by
  have kept : List.Forall₂ (Keeps options bytes True) e.kids kids :=
    replaces.imp fun _ _ isIt => isIt.keeps
  refine (rebuild_finishes isV other (proper.shaped isV kept) kept).yields fun fuel e' made => ?_
  have keeps := rebuild_keeps (fun _ => trivial) fuel e kids kept e' made
  obtain ⟨properE', less⟩ := rebuild_lighter fuel e kids isV proper replaces changed e' made
  exact ⟨⟨keeps, properE', .inr less⟩, less⟩

end Woodpecker.Expressions
