import Woodpecker.Expressions.Reads
import Woodpecker.Expressions.Visitor
import Woodpecker.Expressions.Weights

/-! Evaluating expressions where the initial bytes of arrays are known.

Evaluation rebuilds an expression from the bottom up. What it returns has the value of the
expression, and it is a constant unless a divisor is zero on the way, or the expression must
not be optimized.
-/

namespace Woodpecker.Expressions

open Library UpdateNode List Expr

-- Model

/-- What evaluators differ in: the initial value of a byte. -/
structure ExprEvaluator where
  getInitialValue : Array → Nat → Expr

def ArithmeticKind.isDivision : ArithmeticKind → Bool
  | .UDiv | .SDiv | .URem | .SRem => true
  | _ => false

variable {kind : ArithmeticKind} {w : Nat} {y : BitVec w}

theorem ArithmeticKind.divides_iff (division : kind.isDivision = true)
    : kind.Divides y ↔ y ≠ 0#w := by
  cases kind with
  | UDiv | SDiv | URem | SRem => exact Iff.rfl
  | _ => cases division

namespace ExprEvaluator

section Steps

variable (evaluator : ExprEvaluator) (options : Options) (fuel : Nat)
  (visit : Visited → Expr → Except Fault (Expr × Visited))

def evalRead (root : Array) (index : Nat) (visited : Visited)
    : UpdateNode → Except Fault (Expr × Visited)
  | .null =>
    if root.isSymbolicArray = false ∧ index < root.size.toNat then
      .ok (.constant ⟨8, root.constantValues.getD index 0⟩, visited)
    else .ok (evaluator.getInitialValue root index, visited)
  | .node at_ value next => do
    let (ui, visited) ← visit visited at_
    match ui.constant? with
    | some CE => do
      let i ← CE.getZExtValue 64
      if i = index then visit visited value else evalRead root index visited next
    | none => do
      -- update index is unknown, so may or may not be index
      let e ← ReadExpr.create options root (.node at_ value next)
        (.constant (ConstantExpr.alloc index 32))
      .ok (e, visited)

/-- An expression is rebuilt where a kid has changed. -/
def doChildren (visited : Visited) (e : Expr) : Except Fault (Expr × Visited) := do
  let (kids, visited) ← ExprVisitor.visitKids visit visited e.kids
  if kids ≠ e.kids then do
    let e ← e.rebuild options fuel kids
    .ok (e, visited)
  else .ok (e, visited)

def visitRead (visited : Visited) (root : Array) (head : UpdateNode) (index : Expr)
    : Except Fault (Expr × Visited) := do
  let (v, visited) ← visit visited index
  match v.constant? with
  | some CE => do
    let i ← CE.getZExtValue 64
    evalRead evaluator options visit root (i % 2 ^ 32) visited head
  | none => doChildren options fuel visit visited (.read root head index)

/-- A divisor that is zero is ignored, and the original expression is used. -/
def ignoreZero (right kid : Expr) : Except Fault Expr :=
  match kid.constant? with
  | some CE => do if ← CE.isZero then .ok right else .ok kid
  | none => .ok kid

def protectedDivOperation (visited : Visited) (kind : ArithmeticKind) (left right : Expr)
    : Except Fault (Expr × Visited) := do
  let (l, visited) ← visit visited left
  let (kid, visited) ← visit visited right
  let r ← ignoreZero right kid
  if l ≠ left ∨ r ≠ right then do
    let e ← (Expr.arithmetic kind left right).rebuild options fuel [l, r]
    .ok (e, visited)
  else .ok (.arithmetic kind left right, visited)

def visitActual (visited : Visited) (e : Expr) : Except Fault (Expr × Visited) :=
  match e with
  | .read root head index => visitRead evaluator options fuel visit visited root head index
  | e =>
    -- Evaluate all constant expressions here, in case they weren't folded in construction.
    if e.kids.all (fun kid => kid.constant?.isSome) then do
      let e ← e.rebuild options fuel e.kids
      .ok (e, visited)
    else
      match e with
      | .arithmetic kind left right =>
        if kind.isDivision then
          protectedDivOperation options fuel visit visited kind left right
        else doChildren options fuel visit visited (.arithmetic kind left right)
      | e => doChildren options fuel visit visited e

end Steps

def visit (evaluator : ExprEvaluator) (options : Options) (fuel : Nat) (visited : Visited)
    (e : Expr)
    : Except Fault (Expr × Visited) :=
  match fuel with
  | 0 => .error .outOfFuel
  | fuel + 1 =>
    match e.constant?, List.lookup e visited with
    | some _, _ => .ok (e, visited)
    | none, some res => .ok (res, visited)
    | none, none => do
      let (res, visited) ←
        visitActual evaluator options fuel (evaluator.visit options fuel) visited e
      .ok (res, Visited.insert visited e res)

end ExprEvaluator

-- Constants

/-- What is made is a constant. -/
def MakesConstant (made : Except Fault Expr) : Prop :=
  Ensures made fun e => ∃ c, e = .constant c

theorem makesConstant_ok (c : ConstantExpr) : MakesConstant (.ok (.constant c)) :=
  .of_ok ⟨c, rfl⟩

variable {options : Options} {bytes : Assignment}
  {fold : ConstantExpr → ConstantExpr → Except Fault ConstantExpr}
  {create : Expr → Expr → Except Fault Expr}

theorem bcreateR_constants {createPartial : Expr → ConstantExpr → Except Fault Expr}
    {createPartialR : ConstantExpr → Expr → Except Fault Expr} (cl cr : ConstantExpr)
    : MakesConstant (bcreateR fold createPartial createPartialR create (.constant cl)
        (.constant cr)) := by
  unfold bcreateR
  split
  · exact ensures_error _
  · exact ensures_bind fun c _ => makesConstant_ok c

theorem bcreate_constants (cl cr : ConstantExpr)
    : MakesConstant (bcreate fold create (.constant cl) (.constant cr)) := by
  unfold bcreate
  split
  · exact ensures_error _
  · exact ensures_bind fun c _ => makesConstant_ok c

theorem ArithmeticKind.create_constants (kind : ArithmeticKind) (fuel : Nat) (cl cr : ConstantExpr)
    : MakesConstant (kind.create options fuel (.constant cl) (.constant cr)) := by
  cases kind with
  | Add | Sub =>
    cases fuel with
    | zero => exact ensures_error _
    | succ fuel =>
      simp only [create, AddExpr.create, SubExpr.create]
      exact bcreateR_constants cl cr
  | Mul | And | Or | Xor =>
    unfold create
    exact bcreateR_constants cl cr
  | UDiv | SDiv | URem | SRem | Shl | LShr | AShr =>
    unfold create
    exact bcreate_constants cl cr

theorem EqExpr.create_constants (cl cr : ConstantExpr)
    : MakesConstant (EqExpr.create options (.constant cl) (.constant cr)) :=
  bcreateR_constants cl cr

theorem ComparisonKind.create_constants (kind : ComparisonKind) (cl cr : ConstantExpr)
    : MakesConstant (kind.create options (.constant cl) (.constant cr)) := by
  cases kind with
  | Eq => exact EqExpr.create_constants cl cr
  | Ne =>
    refine ensures_bind fun no _ => ?_
    refine Ensures.bind (EqExpr.create_constants cl cr) fun same isConstant => ?_
    obtain ⟨c, rfl⟩ := isConstant
    exact EqExpr.create_constants no c
  | Ult | Ule | Slt | Sle =>
    unfold create
    exact bcreate_constants cl cr
  | Ugt | Uge | Sgt | Sge =>
    simp only [create, UgtExpr.create, UgeExpr.create, SgtExpr.create, SgeExpr.create]
    exact bcreate_constants cr cl

theorem ExtractExpr.create_constants (fuel : Nat) (c : ConstantExpr) (off w : Nat)
    : MakesConstant (ExtractExpr.create options fuel (.constant c) off w) := by
  cases fuel with
  | zero => exact ensures_error _
  | succ fuel =>
    simp only [create, ExtractExpr_create]
    split
    · exact ensures_error _
    split
    · exact makesConstant_ok c
    · exact makesConstant_ok _

theorem ConcatExpr.create_constants (fuel : Nat) (cl cr : ConstantExpr)
    : MakesConstant (ConcatExpr.create options fuel (.constant cl) (.constant cr)) := by
  cases fuel with
  | zero => exact ensures_error _
  | succ fuel =>
    simp only [create, ConcatExpr_create]
    exact makesConstant_ok _

theorem extension_constants (fuel : Nat) (c extended : ConstantExpr) (w : Nat)
    : MakesConstant (if w = c.width then .ok (.constant c)
        else if w < c.width then ExtractExpr.create options fuel (.constant c) 0 w
        else .ok (.constant extended)) := by
  split
  · exact makesConstant_ok c
  split
  · exact ExtractExpr.create_constants fuel c 0 w
  · exact makesConstant_ok extended

/-- What is rebuilt from constants is a constant, except where nothing must be optimized and
for reads.
-/
theorem rebuild_constants (fuel : Nat) {e : Expr} {kids : List Expr}
    (constants : ∀ kid ∈ kids, ∃ c, kid = .constant c)
    (optimized : ∀ src, e ≠ .notOptimized src)
    (other : ∀ root head index, e ≠ .read root head index)
    : MakesConstant (e.rebuild options fuel kids) := by
  unfold rebuild
  split
  · exact absurd rfl (optimized _)
  · exact absurd rfl (other _ _ _)
  · simp at constants
    obtain ⟨⟨c, rfl⟩, ⟨t, rfl⟩, f, rfl⟩ := constants
    unfold SelectExpr.create
    split
    · exact ensures_error _
    split
    · exact ensures_error _
    refine ensures_bind fun isTrue _ => ?_
    cases isTrue with
    | true => exact makesConstant_ok t
    | false => exact makesConstant_ok f
  · simp at constants
    obtain ⟨⟨l, rfl⟩, r, rfl⟩ := constants
    exact ConcatExpr.create_constants fuel l r
  · obtain ⟨c, rfl⟩ := constants _ (.head _)
    exact ExtractExpr.create_constants fuel c _ _
  · obtain ⟨c, rfl⟩ := constants _ (.head _)
    exact makesConstant_ok c.Not
  · obtain ⟨c, rfl⟩ := constants _ (.head _)
    exact extension_constants fuel c _ _
  · obtain ⟨c, rfl⟩ := constants _ (.head _)
    exact extension_constants fuel c _ _
  next kind _ _ _ _ =>
    simp at constants
    obtain ⟨⟨l, rfl⟩, r, rfl⟩ := constants
    exact kind.create_constants fuel l r
  next kind _ _ _ _ =>
    simp at constants
    obtain ⟨⟨l, rfl⟩, r, rfl⟩ := constants
    exact kind.create_constants l r
  · exact ensures_error _

-- What a visit returns

/-- The expression can be rebuilt at every place. -/
def Expr.Regular (e : Expr) : Prop :=
  e.Everywhere fun x => x.Shaped x.kids

/-- Nothing here keeps an expression from being evaluated to a constant. -/
def Expr.Folds (bytes : Assignment) : Expr → Prop
  | .notOptimized _ => False
  | .arithmetic kind left right => kind.Divides (right.bits bytes left.getWidth)
  | _ => True

def Expr.Evaluable (bytes : Assignment) (e : Expr) : Prop :=
  e.Everywhere (Expr.Folds bytes)

/-- The expression can be rebuilt from constants; only a divisor is tested for zero. -/
def Expr.Foldable : Expr → Prop
  | .arithmetic kind left _ => kind.isDivision = true → left.getWidth ≤ 64
  | e => e.Shaped e.kids

/-- The expression can be rebuilt from the kids, or from the constants that they are. -/
def Expr.Rebuilds (bytes : Assignment) (concrete : Prop) (kids : List Expr) (e : Expr) : Prop :=
  e.Shaped kids ∨ concrete ∧ e.Evaluable bytes ∧ e.Foldable

/-- The value of an expression, and, where the initial values are concrete, a constant if
nothing is against it.
-/
structure EvaluatesTo (options : Options) (bytes : Assignment) (concrete : Prop) (e e' : Expr)
    : Prop where
  keeps : Keeps options bytes True e e'
  constant : concrete → e.Evaluable bytes → ∃ c, e' = .constant c

def Visited.Evaluated (options : Options) (bytes : Assignment) (concrete : Prop)
    (visited : Visited)
    : Prop :=
  ∀ e res, (e, res) ∈ visited → EvaluatesTo options bytes concrete e res

/-- The initial values are those of the assignment, where they are asked for: a constant array
has its own values.
-/
structure ExprEvaluator.Initial (options : Options) (bytes : Assignment) (concrete : Prop)
    (evaluator : ExprEvaluator)
    : Prop where
  value : ∀ root i, i < 2 ^ 32 → root.isSymbolicArray = true ∨ root.size.toNat ≤ i
    → Denotes options bytes (evaluator.getInitialValue root i)
      (root.byte bytes (BitVec.ofNat 32 i))
  constant : concrete → ∀ root i, ∃ c, evaluator.getInitialValue root i = .constant c

/-- A well typed expression whose reads are in bounds where that matters. -/
structure Expr.Valid (options : Options) (bytes : Assignment) (e : Expr) : Prop where
  typed : e.Typed
  bounded : options.ConstArrayOpt = true → e.InBounds bytes

variable {e e' : Expr} {concrete : Prop} {visited : Visited} {evaluator : ExprEvaluator}

theorem Expr.Valid.denotes (valid : e.Valid options bytes)
    : Denotes options bytes e (e.bits bytes e.getWidth) :=
  ⟨valid.typed, rfl, valid.bounded, rfl⟩

theorem Denotes.valid {v : BitVec w} (isV : Denotes options bytes e v)
    : e.Valid options bytes :=
  ⟨isV.typed, isV.bounded⟩

theorem UpdateNode.Valid.exprs {head : UpdateNode} (valid : head.Valid options bytes)
    : ∀ x ∈ head.exprs, x.Valid options bytes := by
  cases head with
  | null => exact nofun
  | node index value next =>
    obtain ⟨⟨i, isI⟩, ⟨v, isV⟩, rest⟩ := valid.of_node
    exact forall_mem_cons.mpr ⟨isI.valid, forall_mem_cons.mpr ⟨isV.valid, exprs rest⟩⟩
termination_by structural head

theorem Expr.Valid.part (valid : e.Valid options bytes)
    : ∀ part ∈ e.parts, part.Valid options bytes := by
  obtain ⟨typed, bounded⟩ := valid
  cases e with
  | constant c => exact nofun
  | read root head index =>
    refine forall_mem_cons.mpr ⟨⟨typed.2.1, fun on => (bounded on).2.1⟩, ?_⟩
    exact Valid.exprs ⟨typed.1, fun on => (bounded on).1⟩
  | select cond trueExpr falseExpr =>
    obtain ⟨typedC, -, typedT, typedF, -⟩ := typed
    refine forall_mem_cons.mpr ⟨⟨typedC, fun on => (bounded on).1⟩, ?_⟩
    refine forall_mem_cons.mpr ⟨⟨typedT, fun on => (bounded on).2.1⟩, ?_⟩
    exact forall_mem_singleton.mpr ⟨typedF, fun on => (bounded on).2.2⟩
  | notOptimized src | not expr =>
    exact forall_mem_singleton.mpr ⟨typed, bounded⟩
  | extract expr _ _ | cast _ expr _ =>
    exact forall_mem_singleton.mpr ⟨typed.1, bounded⟩
  | concat left right =>
    refine forall_mem_cons.mpr ⟨⟨typed.1, fun on => (bounded on).1⟩, ?_⟩
    exact forall_mem_singleton.mpr ⟨typed.2, fun on => (bounded on).2⟩
  | arithmetic _ left right | comparison _ left right =>
    refine forall_mem_cons.mpr ⟨⟨typed.1, fun on => (bounded on).1⟩, ?_⟩
    exact forall_mem_singleton.mpr ⟨typed.2.1, fun on => (bounded on).2⟩

/-- Visits of the expression return. -/
def ExprEvaluator.Visits (options : Options) (bytes : Assignment) (concrete : Prop)
    (evaluator : ExprEvaluator) (e : Expr)
    : Prop :=
  ∀ visited : Visited, visited.Evaluated options bytes concrete
    → Yields (fun fuel => evaluator.visit options fuel visited e) fun result =>
        EvaluatesTo options bytes concrete e result.1
        ∧ result.2.Evaluated options bytes concrete

/-- A visit of the expression returns what stands for it. -/
def Evaluates (options : Options) (bytes : Assignment) (concrete : Prop) (e : Expr)
    (run : Nat → Except Fault (Expr × Visited))
    : Prop :=
  Yields run fun result =>
    EvaluatesTo options bytes concrete e result.1 ∧ result.2.Evaluated options bytes concrete

namespace ExprEvaluator

/-- A constant that an expression was evaluated to has its value. -/
theorem evaluated_constant {w : Nat} {v : BitVec w}
    (evaluates : EvaluatesTo options bytes concrete e e') (isV : Denotes options bytes e v)
    {c : ConstantExpr} (isC : e'.constant? = some c)
    : c = ⟨w, v⟩ := by
  obtain rfl := constant?_eq_some.mp isC
  exact (evaluates.keeps.denotes isV).constant

theorem getZExtValue_index (i : BitVec 32)
    : (⟨32, i⟩ : ConstantExpr).getZExtValue 64 = .ok i.toNat :=
  rfl

/-- The updates are gone through up to the first one at the index, by induction on them. -/
theorem evalRead_yields (initial : evaluator.Initial options bytes concrete) (root : Array)
    (i : BitVec 32) (head : UpdateNode) (valid : head.Valid options bytes)
    (visits : ∀ x ∈ head.exprs, evaluator.Visits options bytes concrete x) (visited : Visited)
    (evaluated : visited.Evaluated options bytes concrete)
    : Yields (fun fuel => evalRead evaluator options (evaluator.visit options fuel) root i.toNat
          visited head) fun result =>
        Denotes options bytes result.1 (head.byte bytes root i)
        ∧ (concrete → (∀ x ∈ head.exprs, x.Evaluable bytes) → ∃ c, result.1 = .constant c)
        ∧ result.2.Evaluated options bytes concrete := by
  cases head with
  | null =>
    simp only [evalRead]
    split
    next known =>
      obtain ⟨isConstant, -⟩ := known
      refine yields_ok ⟨?_, fun _ _ => ⟨_, rfl⟩, evaluated⟩
      have byte : null.byte bytes root i = root.constantValues.getD i.toNat 0 := by
        rw [byte, Array.byte, isConstant]
        rfl
      rw [byte]
      exact denotes_constant options bytes _
    next unknown =>
      refine yields_ok ⟨?_, fun isConcrete _ => initial.constant isConcrete root _, evaluated⟩
      have asked : root.isSymbolicArray = true ∨ root.size.toNat ≤ i.toNat := by
        rw [not_and_or, Bool.not_eq_false] at unknown
        exact unknown.imp_right Nat.le_of_not_lt
      have value := initial.value root i.toNat i.isLt asked
      rwa [BitVec.ofNat_toNat, BitVec.setWidth_eq] at value
  | node at_ value next =>
    obtain ⟨⟨j, isJ⟩, ⟨v, isV⟩, validNext⟩ := valid.of_node
    obtain ⟨visitsAt, rest⟩ := forall_mem_cons.mp visits
    obtain ⟨visitsValue, visitsNext⟩ := forall_mem_cons.mp rest
    refine (visitsAt visited evaluated).bind fun found isFound => ?_
    obtain ⟨ui, visited⟩ := found
    obtain ⟨evaluatesAt, evaluated⟩ := isFound
    simp only
    split
    next CE isC =>
      obtain rfl := evaluated_constant evaluatesAt isJ isC
      simp only [getZExtValue_index, ok_bind]
      split
      next same =>
        obtain rfl := BitVec.eq_of_toNat_eq same
        refine (visitsValue visited evaluated).mono fun result isResult => ?_
        refine ⟨?_, fun isConcrete evaluable => ?_, isResult.2⟩
        · have byte : (node at_ value next).byte bytes root j = v := by
            rw [byte, isJ.bits, isV.bits, if_pos rfl]
          rw [byte]
          exact isResult.1.keeps.denotes isV
        · exact isResult.1.constant isConcrete (evaluable value (by simp [exprs]))
      next different =>
        refine (evalRead_yields initial root i next validNext visitsNext visited evaluated).mono
          fun result isResult => ?_
        obtain ⟨isByte, constant, evaluated⟩ := isResult
        refine ⟨?_, fun isConcrete evaluable => constant isConcrete fun x isIn => ?_, evaluated⟩
        · have byte : (node at_ value next).byte bytes root i = next.byte bytes root i := by
            rw [byte, isJ.bits, if_neg fun same => different (by rw [same])]
          rwa [byte]
        · exact evaluable x (by simp [exprs, isIn])
    next notConstant =>
      have index : Denotes options bytes (.constant (ConstantExpr.alloc i.toNat 32)) i := by
        have alloc : ConstantExpr.alloc i.toNat 32 = ⟨32, i⟩ := by
          rw [ConstantExpr.alloc, BitVec.ofNat_toNat, BitVec.setWidth_eq]
        rw [alloc]
        exact denotes_constant options bytes ⟨32, i⟩
      have builds : Builds options bytes (ReadExpr.create options root _ _) (byte bytes root _ i) :=
        ReadExpr.create_builds valid index (by simp)
      obtain ⟨made, returned, isByte⟩ := builds
      simp only [returned, ok_bind]
      refine yields_ok ⟨isByte, fun isConcrete evaluable => ?_, evaluated⟩
      obtain ⟨c, rfl⟩ := evaluatesAt.constant isConcrete (evaluable at_ (.head _))
      cases notConstant
termination_by structural head

/-- The kids are visited one after the other, by induction on them. -/
theorem visitKids_yields (kids : List Expr)
    (visits : ∀ kid ∈ kids, evaluator.Visits options bytes concrete kid) (visited : Visited)
    (evaluated : visited.Evaluated options bytes concrete)
    : Yields (fun fuel => ExprVisitor.visitKids (evaluator.visit options fuel) visited kids)
        fun result => Forall₂ (EvaluatesTo options bytes concrete) kids result.1
          ∧ result.2.Evaluated options bytes concrete := by
  induction kids generalizing visited with
  | nil => exact yields_ok ⟨.nil, evaluated⟩
  | cons kid rest ih =>
    obtain ⟨first, others⟩ := forall_mem_cons.mp visits
    simp only [ExprVisitor.visitKids]
    refine (first visited evaluated).bind fun one visitsOne => ?_
    refine (ih others one.2 visitsOne.2).bind fun more visitsMore => ?_
    exact yields_ok ⟨.cons visitsOne.1 visitsMore.1, visitsMore.2⟩

theorem kids_parts {kid : Expr} (isKid : kid ∈ e.kids) : kid ∈ e.parts := by
  cases e with
  | read root head index => exact mem_cons.mpr (.inl (mem_singleton.mp isKid))
  | _ => exact isKid

/-- The kids that an expression is evaluated with are evaluated to constants. -/
theorem evaluated_constants {kids kids' : List Expr} (isConcrete : concrete)
    (evaluates : Forall₂ (EvaluatesTo options bytes concrete) kids kids')
    (evaluable : ∀ kid ∈ kids, kid.Evaluable bytes)
    : ∀ kid ∈ kids', ∃ c, kid = .constant c := by
  induction evaluates with
  | nil => exact nofun
  | cons first _ ih =>
    obtain ⟨here, rest⟩ := forall_mem_cons.mp evaluable
    exact forall_mem_cons.mpr ⟨first.constant isConcrete here, ih rest⟩

theorem bcreateR_folds {createPartial : Expr → ConstantExpr → Except Fault Expr}
    {createPartialR : ConstantExpr → Expr → Except Fault Expr} {cl cr : ConstantExpr}
    (same : (Expr.constant cl).getWidth = (Expr.constant cr).getWidth)
    (folds : Returns (fold cl cr))
    : Finishes fun _ =>
        bcreateR fold createPartial createPartialR create (.constant cl) (.constant cr) := by
  unfold bcreateR
  rw [if_neg (not_not.mpr same)]
  exact finishes_const.mpr (folds.bind_any fun c => returns_ok _)

/-- Constants of any width are folded. -/
theorem create_folds (kind : ArithmeticKind) {w : Nat} {x y : BitVec w} (divides : kind.Divides y)
    : Finishes fun fuel => kind.create options fuel (.constant ⟨w, x⟩) (.constant ⟨w, y⟩) := by
  have left := denotes_constant options default ⟨w, x⟩
  have right := denotes_constant options default ⟨w, y⟩
  cases kind with
  | Add => exact (AddExpr.create_constants x y).finishes
  | Sub => exact (SubExpr.create_constants x y).finishes
  | Mul | And | Or | Xor =>
    unfold ArithmeticKind.create
    exact bcreateR_folds rfl (arithmetic_returns divides left right)
  | _ => exact ArithmeticKind.create_finishes _ left right nofun fun _ _ => divides

theorem rebuild_folds {kids : List Expr} (valid : e.Valid options bytes)
    (notConstant : e.constant? = none) (folds : e.Folds bytes) (foldable : e.Foldable)
    (keeps : Forall₂ (Keeps options bytes True) e.kids kids)
    (constants : ∀ kid ∈ kids, ∃ c, kid = .constant c)
    : Finishes fun fuel => e.rebuild options fuel kids := by
  cases e with
  | arithmetic kind left right =>
    obtain ⟨x, y, isX, isY, -⟩ := denotes_arithmetic.mp valid.denotes
    obtain ⟨l, r, rfl, isL, isR⟩ := forall₂_two keeps
    simp at constants
    obtain ⟨⟨cl, rfl⟩, cr, rfl⟩ := constants
    rw [(isL.denotes isX).constant, (isR.denotes isY).constant]
    refine create_folds kind ?_
    rw [← isY.bits]
    exact folds
  | _ => exact rebuild_finishes valid.denotes notConstant foldable keeps

/-- An expression is rebuilt from kids that stand for its own. -/
theorem rebuild_evaluates {kids : List Expr} (valid : e.Valid options bytes)
    (notConstant : e.constant? = none) (rebuilds : e.Rebuilds bytes concrete kids)
    (keeps : Forall₂ (Keeps options bytes True) e.kids kids)
    (constants : concrete → e.Evaluable bytes → (∀ kid ∈ kids, ∃ c, kid = .constant c)
      ∧ ∀ root head index, e ≠ .read root head index)
    : Yields (fun fuel => e.rebuild options fuel kids) (EvaluatesTo options bytes concrete e) := by
  have finishes : Finishes fun fuel => e.rebuild options fuel kids := by
    rcases rebuilds with shaped | ⟨isConcrete, evaluable, foldable⟩
    · exact rebuild_finishes valid.denotes notConstant shaped keeps
    · exact rebuild_folds valid notConstant evaluable.here foldable keeps
        (constants isConcrete evaluable).1
  refine finishes.yields fun fuel made returned => ?_
  refine ⟨rebuild_keeps (fun _ => trivial) fuel e kids keeps made returned,
    fun isConcrete evaluable => ?_⟩
  obtain ⟨areConstants, notRead⟩ := constants isConcrete evaluable
  refine rebuild_constants fuel areConstants (fun src isNot => ?_) notRead made returned
  subst isNot
  exact evaluable.here

/-- Not all kids are constants already, and the expression is no read. -/
def Unfolded (e : Expr) : Prop :=
  (∃ kid ∈ e.kids, ∀ c, kid ≠ .constant c) ∧ ∀ root head index, e ≠ .read root head index

/-- A divisor stands for the original one, and is not the constant zero. -/
theorem ignoreZero_returns {right kid : Expr} {w : Nat} {y : BitVec w} (narrow : w ≤ 64)
    (isY : Denotes options bytes right y) (evaluates : EvaluatesTo options bytes concrete right kid)
    : ∃ r, ignoreZero right kid = .ok r ∧ Keeps options bytes True right r
      ∧ (r = right ∨ r = kid ∧ ∀ c, kid = .constant c → c.value ≠ 0#(c.width))
      ∧ (y ≠ 0#w → r = kid) := by
  unfold ignoreZero
  split
  next CE isC =>
    obtain rfl := evaluated_constant evaluates isY isC
    obtain rfl := constant?_eq_some.mp isC
    obtain ⟨zero, returned⟩ := ConstantExpr.isZero_returns (c := ⟨w, y⟩) narrow
    have isZero := ConstantExpr.isZero_ensures zero returned
    simp only [returned, ok_bind]
    cases zero with
    | true =>
      exact ⟨right, rfl, .refl right, .inl rfl, fun nonzero => absurd (isZero.mp rfl) nonzero⟩
    | false =>
      refine ⟨_, rfl, evaluates.keeps, .inr ⟨rfl, fun c isC => ?_⟩, fun _ => rfl⟩
      cases isC
      exact fun isZ => nomatch isZero.mpr isZ
  next notConstant =>
    refine ⟨kid, rfl, evaluates.keeps, .inr ⟨rfl, fun c isC => ?_⟩, fun _ => rfl⟩
    subst isC
    cases notConstant

section

variable (evaluated : visited.Evaluated options bytes concrete)
include evaluated

theorem doChildren_yields (valid : e.Valid options bytes) (notConstant : e.constant? = none)
    (rebuilds : ∀ kids, e.Rebuilds bytes concrete kids)
    (visits : ∀ part ∈ e.parts, evaluator.Visits options bytes concrete part)
    (unfolded : concrete → e.Evaluable bytes → Unfolded e)
    : Evaluates options bytes concrete e fun fuel =>
        doChildren options fuel (evaluator.visit options fuel) visited e := by
  unfold doChildren
  refine (visitKids_yields e.kids (fun kid isKid => visits kid (kids_parts isKid)) visited
    evaluated).bind fun found isFound => ?_
  obtain ⟨kids, visited⟩ := found
  obtain ⟨evaluates, evaluated⟩ := isFound
  have constants (isConcrete : concrete) (evaluable : e.Evaluable bytes)
      : ∀ kid ∈ kids, ∃ c, kid = .constant c :=
    evaluated_constants isConcrete evaluates fun kid isKid => evaluable.part (kids_parts isKid)
  by_cases changed : kids ≠ e.kids
  · simp only [if_pos changed]
    refine (rebuild_evaluates valid notConstant (rebuilds kids)
      (evaluates.imp fun _ _ isIt => isIt.keeps) fun isConcrete evaluable => ?_).bind
      fun made isMade => yields_ok ⟨isMade, evaluated⟩
    exact ⟨constants isConcrete evaluable, (unfolded isConcrete evaluable).2⟩
  · simp only [if_neg changed]
    refine yields_ok ⟨⟨.refl e, fun isConcrete evaluable => ?_⟩, evaluated⟩
    obtain ⟨⟨kid, isKid, other⟩, -⟩ := unfolded isConcrete evaluable
    rw [← not_not.mp changed] at isKid
    obtain ⟨c, isC⟩ := constants isConcrete evaluable kid isKid
    exact absurd isC (other c)

theorem visitRead_yields (initial : evaluator.Initial options bytes concrete) {root : Array}
    {head : UpdateNode} {index : Expr} (valid : (read root head index).Valid options bytes)
    (visits : ∀ part ∈ (read root head index).parts, evaluator.Visits options bytes concrete part)
    : Evaluates options bytes concrete (.read root head index) fun fuel =>
        visitRead evaluator options fuel (evaluator.visit options fuel) visited root head
          index := by
  obtain ⟨visitsIndex, visitsHead⟩ := forall_mem_cons.mp visits
  obtain ⟨validHead, i, isI, -, -⟩ := denotes_read.mp valid.denotes
  unfold visitRead
  refine (visitsIndex visited evaluated).bind fun found isFound => ?_
  obtain ⟨v, visited⟩ := found
  obtain ⟨evaluates, evaluated⟩ := isFound
  simp only
  split
  next CE isC =>
    obtain rfl := evaluated_constant evaluates isI isC
    simp only [getZExtValue_index, ok_bind, Nat.mod_eq_of_lt i.isLt]
    refine (evalRead_yields initial root i head validHead visitsHead visited evaluated).mono
      fun result isResult => ?_
    obtain ⟨isByte, constant, evaluated⟩ := isResult
    refine ⟨⟨fun w x isX => ?_, fun isConcrete evaluable => constant isConcrete fun x isIn => ?_⟩,
      evaluated⟩
    · obtain rfl : w = 8 := isX.width.symm
      obtain ⟨-, j, isJ, rfl, -⟩ := denotes_read.mp isX
      rw [isJ.unique isI]
      exact ⟨_, isByte, fun _ => rfl⟩
    · exact evaluable.part (.tail index isIn)
  next notConstant =>
    refine doChildren_yields evaluated valid rfl (fun _ => .inl trivial) visits
      fun isConcrete evaluable => ?_
    obtain ⟨c, rfl⟩ := evaluates.constant isConcrete (evaluable.part (.head _))
    cases notConstant

theorem protectedDivOperation_yields {kind : ArithmeticKind} {left right : Expr}
    (division : kind.isDivision = true) (valid : (arithmetic kind left right).Valid options bytes)
    (shaped : (arithmetic kind left right).Shaped [left, right])
    (visits : ∀ part ∈ (arithmetic kind left right).parts,
      evaluator.Visits options bytes concrete part)
    (unfolded : Unfolded (.arithmetic kind left right))
    : Evaluates options bytes concrete (.arithmetic kind left right) fun fuel =>
        protectedDivOperation options fuel (evaluator.visit options fuel) visited kind left
          right := by
  obtain ⟨x, y, isX, isY, -⟩ := denotes_arithmetic.mp valid.denotes
  unfold protectedDivOperation
  refine (visits left (.head _) visited evaluated).bind fun found isFound => ?_
  obtain ⟨l, visited⟩ := found
  obtain ⟨evaluatesL, evaluated⟩ := isFound
  refine (visits right (.tail _ (.head _)) visited evaluated).bind fun found isFound => ?_
  obtain ⟨evaluatesR, evaluated⟩ := isFound
  obtain ⟨r, returned, keepsR, choice, chosen⟩ := ignoreZero_returns shaped.1 isY evaluatesR
  simp only [returned, ok_bind]
  have constants (isConcrete : concrete) (evaluable : (arithmetic kind left right).Evaluable bytes)
      : ∀ part ∈ [l, r], ∃ c, part = .constant c := by
    have folds : kind.Divides (right.bits bytes (arithmetic kind left right).getWidth) :=
      evaluable.here
    rw [isY.bits] at folds
    rw [chosen ((kind.divides_iff division).mp folds)]
    refine forall_mem_cons.mpr ⟨?_, forall_mem_singleton.mpr ?_⟩
    · exact evaluatesL.constant isConcrete (evaluable.part (.head _))
    · exact evaluatesR.constant isConcrete (evaluable.part (.tail _ (.head _)))
  by_cases changed : l ≠ left ∨ r ≠ right
  · simp only [if_pos changed]
    have shaped' : (arithmetic kind left right).Shaped [l, r] := by
      refine ⟨shaped.1, fun l' c isKids => ?_⟩
      cases isKids
      rcases choice with same | ⟨same, nonzero⟩
      · exact shaped.2 left c (by rw [same])
      · exact (kind.divides_iff division).mpr (nonzero c same.symm)
    refine (rebuild_evaluates valid rfl (.inl shaped') (.cons evaluatesL.keeps (.cons keepsR .nil))
      fun isConcrete evaluable => ?_).bind fun made isMade => yields_ok ⟨isMade, evaluated⟩
    exact ⟨constants isConcrete evaluable, nofun⟩
  · simp only [if_neg changed]
    refine yields_ok ⟨⟨.refl _, fun isConcrete evaluable => ?_⟩, evaluated⟩
    obtain ⟨sameL, sameR⟩ := not_or.mp changed
    obtain ⟨⟨part, isPart, other⟩, -⟩ := unfolded
    have isConstant := constants isConcrete evaluable
    rw [not_not.mp sameL, not_not.mp sameR] at isConstant
    obtain ⟨c, isC⟩ := isConstant part isPart
    exact absurd isC (other c)

/-- What is not a read is rebuilt, at once if all its kids are constants. -/
theorem visitFolded_yields (valid : e.Valid options bytes) (notConstant : e.constant? = none)
    (notRead : ∀ root head index, e ≠ .read root head index)
    (rebuilds : e.Rebuilds bytes concrete e.kids)
    (visits : ∀ part ∈ e.parts, evaluator.Visits options bytes concrete part)
    : Evaluates options bytes concrete e fun fuel =>
        visitActual evaluator options fuel (evaluator.visit options fuel) visited e := by
  unfold visitActual
  split
  next root head index => exact absurd rfl (notRead root head index)
  by_cases folded : e.kids.all (fun kid => kid.constant?.isSome) = true
  · simp only [if_pos folded]
    refine (rebuild_evaluates valid notConstant rebuilds (forall₂_same.mpr fun _ _ => .refl _)
      fun _ _ => ⟨fun kid isKid => ?_, notRead⟩).bind
      fun made isMade => yields_ok ⟨isMade, evaluated⟩
    exact eq_constant_of_isSome (all_eq_true.mp folded kid isKid)
  · have unfolded : Unfolded e := by
      obtain ⟨kid, isKid, other⟩ := all_eq_false.mp (Bool.eq_false_of_not_eq_true folded)
      refine ⟨⟨kid, isKid, fun c isC => other ?_⟩, notRead⟩
      rw [isC]
      rfl
    simp only [if_neg folded]
    split
    next kind left right _ =>
      split
      next division =>
        refine protectedDivOperation_yields evaluated division valid ?_ visits unfolded
        rcases rebuilds with shaped | ⟨-, evaluable, foldable⟩
        · exact shaped
        · refine ⟨foldable division, fun l c isKids => ?_⟩
          cases isKids
          obtain ⟨-, y, -, isY, -⟩ := denotes_arithmetic.mp valid.denotes
          rw [isY.constant, ← isY.bits]
          exact evaluable.here
      next other =>
        refine doChildren_yields evaluated valid rfl (fun kids => rebuilds.imp_left fun shaped =>
          ⟨shaped.1, fun _ _ _ => ?_⟩) visits fun _ _ => unfolded
        cases kind with
        | UDiv | SDiv | URem | SRem => exact absurd rfl other
        | _ => trivial
    next notArithmetic =>
      refine doChildren_yields evaluated valid notConstant (fun kids => rebuilds.imp_left
        fun shaped => ?_) visits fun _ _ => unfolded
      cases e with
      | arithmetic kind left right => exact absurd rfl (notArithmetic kind left right)
      | _ => exact shaped

end

/-- A visit returns, by induction on the size of the expression. -/
theorem visit_yields (initial : evaluator.Initial options bytes concrete) (e : Expr)
    (valid : e.Valid options bytes)
    (regular : e.Regular ∨ concrete ∧ e.Evaluable bytes ∧ e.Everywhere Foldable)
    : evaluator.Visits options bytes concrete e := by
  intro visited evaluated
  refine Yields.of_succ ?_
  simp only [ExprEvaluator.visit]
  split
  next c isC =>
    obtain rfl := constant?_eq_some.mp isC
    exact yields_ok ⟨⟨.refl _, fun _ _ => ⟨c, rfl⟩⟩, evaluated⟩
  next res _ found =>
    obtain ⟨before, after, rfl, -⟩ := lookup_eq_some_iff.mp found
    exact yields_ok ⟨evaluated e res (by simp), evaluated⟩
  next notConstant _ =>
    have visits (part : Expr) (isPart : part ∈ e.parts)
        : evaluator.Visits options bytes concrete part :=
      visit_yields initial part (valid.part part isPart) (regular.imp (fun regular =>
        regular.part isPart) fun folds => ⟨folds.1, folds.2.1.part isPart, folds.2.2.part isPart⟩)
    suffices actual : Evaluates options bytes concrete e fun fuel =>
        visitActual evaluator options fuel (evaluator.visit options fuel) visited e by
      refine actual.bind fun result isResult => ?_
      exact yields_ok ⟨isResult.1, Visited.forall_insert isResult.2 isResult.1⟩
    by_cases isRead : ∃ root head index, e = .read root head index
    · obtain ⟨root, head, index, rfl⟩ := isRead
      exact visitRead_yields evaluated initial valid visits
    · push Not at isRead
      exact visitFolded_yields evaluated valid notConstant isRead (regular.imp (fun regular =>
        regular.here) fun folds => ⟨folds.1, folds.2.1, folds.2.2.here⟩) visits
termination_by sizeOf e
decreasing_by exact part_size isPart

/-- What must not be optimized stays so. -/
theorem visit_notOptimized (fuel : Nat) (src : Expr)
    : Ensures (evaluator.visit options fuel [] (.notOptimized src)) fun result =>
        ∃ src', result.1 = .notOptimized src' := by
  cases fuel with
  | zero => exact ensures_error _
  | succ fuel =>
    simp only [ExprEvaluator.visit, constant?, lookup_nil]
    refine Ensures.bind ?_ fun result isNot => .of_ok isNot
    simp only [visitActual, doChildren]
    split
    · exact ensures_bind fun made returned => .of_ok ⟨src, (Except.ok.inj returned).symm⟩
    refine ensures_bind fun found returned => ?_
    obtain ⟨kids, visited⟩ := found
    split
    · rcases kids with _ | ⟨kid, _ | _⟩
      · exact ensures_error _
      · exact .of_ok ⟨kid, rfl⟩
      · exact ensures_error _
    · exact .of_ok ⟨src, rfl⟩

end ExprEvaluator

end Woodpecker.Expressions
