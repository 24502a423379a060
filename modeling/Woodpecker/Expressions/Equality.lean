import Woodpecker.Expressions.Constants

/-! Equality, negation and exclusive or: `EqExpr::create`, `Expr::createIsZero`,
`NeExpr::create` and `XorExpr::create`.

An equality with a constant is pushed through the other operand as far as it goes. The
recursion is on that operand, so a call of `EqExpr::create` inside it is spelled out: the
other operand is folded if it is constant, and descended into if it is not.
-/

namespace Woodpecker.Expressions

open Library ConstantExpr BitVec ArithmeticKind

def EqExpr_create (options : Options) (l r : Expr) : Except Fault Expr :=
  if options.equal l r then .ok (.constant (.alloc 1 1)) else .ok (.comparison .Eq l r)

/-- `EqExpr::create(e, cr)`, with what it makes of an `e` that is not constant. -/
def eqConstant (e : Expr) (cr : ConstantExpr) (descended : Except Fault Expr)
    : Except Fault Expr :=
  match e.constant? with
  | some cl => do .ok (.constant (← cl.comparison .Eq cr))
  | none => descended

/-- The loop of `TryConstArrayOpt` over the values of the array from `i` on. -/
def TryConstArrayOpt (options : Options) (cl : ConstantExpr) (rd : Expr)
    (indexIs : Nat → Except Fault Expr) (values : List (BitVec 8)) (i numMatches : Nat)
    (res : Expr)
    : Except Fault Expr :=
  match values with
  | [] => .ok res
  | value :: rest =>
    if cl = ⟨8, value⟩ then
      -- Arbitrary maximum on the size of the disjunction.
      if numMatches + 1 > 100 then EqExpr_create options (.constant cl) rd
      else do
        let mayBe ← indexIs i
        let res ← OrExpr.create res mayBe
        TryConstArrayOpt options cl rd indexIs rest (i + 1) (numMatches + 1) res
    else TryConstArrayOpt options cl rd indexIs rest (i + 1) numMatches res

def EqExpr_createPartialR (options : Options) (cl : ConstantExpr) (r : Expr)
    : Except Fault Expr :=
  if cl.width = 1 then do
    if ← cl.isTrue then .ok r
    else
      match r with
      | .comparison .Eq left right =>
        -- 0 == (0 == A) => A
        if left = .constant ⟨1, 0#1⟩ then .ok right
        else EqExpr_create options (.constant cl) (.comparison .Eq left right)
      | .arithmetic .Or left right => do
        -- not(or(a,b)) => and(not a, not b)
        let zeroL : ConstantExpr := ⟨left.getWidth, 0#_⟩
        let notL ← eqConstant left zeroL (EqExpr_createPartialR options zeroL left)
        let zeroR : ConstantExpr := ⟨right.getWidth, 0#_⟩
        let notR ← eqConstant right zeroR (EqExpr_createPartialR options zeroR right)
        AndExpr.create notL notR
      | _ => EqExpr_create options (.constant cl) r
  else
    match r with
    | .cast .SExt src _ =>
      let trunc := cl.ZExt src.getWidth
      -- pathological check, make sure it is possible to sext to this value *from any value*
      if cl = trunc.SExt cl.width then
        eqConstant src trunc (EqExpr_createPartialR options trunc src)
      else .ok (.constant ⟨1, 0#1⟩)
    | .cast .ZExt src _ =>
      let trunc := cl.ZExt src.getWidth
      if cl = trunc.ZExt cl.width then
        eqConstant src trunc (EqExpr_createPartialR options trunc src)
      else .ok (.constant ⟨1, 0#1⟩)
    | .arithmetic .Add left right =>
      match left with
      | .constant k => do
        -- c0 = c1 + b => c0 - c1 = b
        let c ← bcreateConstants .Sub cl k
        EqExpr_createPartialR options c right
      | _ => EqExpr_create options (.constant cl) (.arithmetic .Add left right)
    | .arithmetic .Sub left right =>
      match left with
      | .constant k => do
        -- c0 = c1 - b => c1 - c0 = b
        let c ← bcreateConstants .Sub k cl
        EqExpr_createPartialR options c right
      | _ => EqExpr_create options (.constant cl) (.arithmetic .Sub left right)
    | .read root head index =>
      if options.ConstArrayOpt && !root.isSymbolicArray && head = .null then
        TryConstArrayOpt options cl (.read root head index)
          (fun i =>
            let position := ConstantExpr.alloc i index.getWidth
            eqConstant index position (EqExpr_createPartialR options position index))
          root.constantValues 0 0 (.constant ⟨1, 0#1⟩)
      else EqExpr_create options (.constant cl) (.read root head index)
    | _ => EqExpr_create options (.constant cl) r

def EqExpr_createPartial (options : Options) (l : Expr) (cr : ConstantExpr)
    : Except Fault Expr :=
  EqExpr_createPartialR options cr l

def EqExpr.create (options : Options) : Expr → Expr → Except Fault Expr :=
  bcreateR (ConstantExpr.comparison .Eq) (EqExpr_createPartial options)
    (EqExpr_createPartialR options) (EqExpr_create options)

def Expr.createIsZero (options : Options) (e : Expr) : Except Fault Expr := do
  let zero ← ConstantExpr.create 0 e.getWidth
  EqExpr.create options e (.constant zero)

def NeExpr.create (options : Options) (l r : Expr) : Except Fault Expr := do
  let no ← ConstantExpr.create 0 1
  let same ← EqExpr.create options l r
  EqExpr.create options (.constant no) same

def XorExpr_createPartialR (options : Options) (cl : ConstantExpr) (r : Expr)
    : Except Fault Expr := do
  if ← cl.isZero then .ok r
  else if cl.width = 1 then EqExpr_createPartial options r (← ConstantExpr.create 0 1)
  else .ok (.arithmetic .Xor (.constant cl) r)

def XorExpr_createPartial (options : Options) (l : Expr) (cr : ConstantExpr)
    : Except Fault Expr :=
  XorExpr_createPartialR options cr l

def XorExpr_create (l r : Expr) : Except Fault Expr :=
  .ok (.arithmetic .Xor l r)

def XorExpr.create (options : Options) : Expr → Expr → Except Fault Expr :=
  bcreateR (ConstantExpr.arithmetic .Xor) (XorExpr_createPartial options)
    (XorExpr_createPartialR options) XorExpr_create

-- Values

variable {options : Options} {bytes : Assignment} {w : Nat} {x y : BitVec w}
  {e l r : Expr} {cl cr : ConstantExpr}

theorem EqExpr_create_builds (left : Denotes options bytes l x) (right : Denotes options bytes r y)
    : Builds options bytes (EqExpr_create options l r) (ofBool (x == y)) := by
  unfold EqExpr_create
  split
  next same =>
    obtain rfl := options.same_of_equal same
    rw [left.unique right, beq_self_eq_true]
    exact .of_ok (denotes_constant options bytes _)
  · exact .of_ok (makes_comparison left right _ rfl)

theorem eqConstant_builds {descended : Except Fault Expr}
    (left : Denotes options bytes e y) (right : Denotes options bytes (.constant cr) x)
    (rest : Builds options bytes descended (ofBool (x == y)))
    : Builds options bytes (eqConstant e cr descended) (ofBool (x == y)) := by
  unfold eqConstant
  split
  next cl isL =>
    rw [constant?_eq_some.mp isL] at left
    rw [Bool.beq_comm]
    exact .of_ok (comparison_makes left right _ rfl)
  · exact rest

/-- After the positions before `i` the disjunction says that the index is one of them and
that its value is the constant.
-/
theorem TryConstArrayOpt_builds {c byte : BitVec 8} {rd : Expr} {index : BitVec 32}
    {indexIs : Nat → Except Fault Expr} {all : List (BitVec 8)}
    (read : Denotes options bytes rd byte) (found : all[index.toNat]? = some byte)
    (small : all.length < 2 ^ 32)
    (is : ∀ i, Builds options bytes (indexIs i) (BitVec.ofBool (BitVec.ofNat 32 i == index)))
    (values : List (BitVec 8)) (i numMatches : Nat) (res : Expr) (left : all.drop i = values)
    (so_far : Denotes options bytes res (ofBool (decide (index.toNat < i) && c == byte)))
    : Builds options bytes (TryConstArrayOpt options ⟨8, c⟩ rd indexIs values i numMatches res)
        (ofBool (c == byte)) := by
  induction values generalizing i numMatches res with
  | nil =>
    have past : index.toNat < i := by
      have short := List.drop_eq_nil_iff.mp left
      have inside := (List.getElem?_eq_some_iff.mp found).1
      omega
    simp [past, Bool.true_and] at so_far
    exact .of_ok so_far
  | cons value rest ih =>
    have here : all[i]? = some value := by
      rw [← List.head?_drop, left, List.head?_cons]
    have after : all.drop (i + 1) = rest := by
      rw [← List.drop_drop, left, List.drop_one, List.tail_cons]
    have bound : i < 2 ^ 32 := by
      have inside := (List.getElem?_eq_some_iff.mp here).1
      omega
    -- Only at the index itself does the new position matter, and there it holds the byte.
    have at_index (same : index.toNat = i) : byte = value := by
      rw [same, here] at found
      exact (Option.some.inj found).symm
    rw [TryConstArrayOpt]
    split
    next hit =>
      obtain rfl : c = value := by
        cases hit
        rfl
      split
      · exact EqExpr_create_builds (denotes_constant options bytes _) read
      refine (is i).bind fun mayBe maybe => ?_
      refine (OrExpr.create_builds so_far maybe).bind fun next either => ?_
      refine ih _ _ _ after ?_
      have same : ofBool (decide (index.toNat < i + 1) && c == byte)
          = ofBool (decide (index.toNat < i) && c == byte)
            ||| BitVec.ofBool (BitVec.ofNat 32 i == index) := by
        have reached : (BitVec.ofNat 32 i == index) = decide (index.toNat = i) := by
          rw [Bool.beq_eq_decide_eq, decide_eq_decide, ← toNat_inj,
            toNat_ofNat, Nat.mod_eq_of_lt bound, eq_comm]
        rw [reached, ofBool_or_ofBool]
        congr 1
        by_cases first : index.toNat = i
        · simp [first, at_index first]
        · have earlier : index.toNat < i + 1 ↔ index.toNat < i := by omega
          simp [first, earlier]
      rw [same]
      exact either
    next miss =>
      refine ih _ _ _ after ?_
      have same : (decide (index.toNat < i + 1) && c == byte)
          = (decide (index.toNat < i) && c == byte) := by
        by_cases first : index.toNat = i
        · have differ : (c == byte) = false := by
            rw [at_index first, beq_eq_false_iff_ne]
            rintro rfl
            exact miss rfl
          rw [differ, Bool.and_false, Bool.and_false]
        · have earlier : index.toNat < i + 1 ↔ index.toNat < i := by omega
          simp only [earlier]
      rw [same]
      exact so_far

theorem setWidth_signExtend {k : Nat} (narrow : k ≤ w) (s : BitVec k)
    : (s.signExtend w).setWidth k = s := by
  ext i bound
  grind

/-- Equality with an extended operand, where truncation undoes the extension. -/
theorem beq_extended {k : Nat} {extend : BitVec k → BitVec w}
    (undone : ∀ s, (extend s).setWidth k = s) (x : BitVec w) (s : BitVec k)
    : (x == extend s) = if x = extend (x.setWidth k) then x.setWidth k == s else false := by
  by_cases same : x = extend s
  · subst same
    simp [undone]
  rw [beq_eq_false_iff_ne.mpr same]
  split
  next back =>
    refine (beq_eq_false_iff_ne.mpr ?_).symm
    rintro rfl
    exact same back
  · rfl

theorem Array.length_lt (root : Array) (constant : root.isSymbolicArray = false)
    : root.constantValues.length < 2 ^ 32 := by
  rcases root.sized with none | size
  · simp [Array.isSymbolicArray, none] at constant
  · rw [size]
    exact root.size.toNat_lt

/-- The rewriting of an equality with an extended operand. -/
theorem eq_extended_builds {k : Nat} {extend : BitVec k → BitVec w} {s : BitVec k}
    {rest : Except Fault Expr} (undone : ∀ s, (extend s).setWidth k = s)
    (narrowed : Builds options bytes rest (ofBool (x.setWidth k == s)))
    : Builds options bytes (if (⟨w, x⟩ : ConstantExpr) = ⟨w, extend (x.setWidth k)⟩ then rest
        else .ok (.constant ⟨1, 0#1⟩))
        (ofBool (x == extend s)) := by
  rw [beq_extended undone]
  split
  next same =>
    rw [if_pos (by simpa using same)]
    exact narrowed
  next differ =>
    rw [if_neg (by simpa using differ)]
    exact .of_ok (denotes_constant options bytes ⟨1, 0#1⟩)

theorem Denotes.alloc {v : BitVec w} (isV : Denotes options bytes e v) (n : Nat)
    : Denotes options bytes (.constant (.alloc n e.getWidth)) (BitVec.ofNat w n) := by
  rw [isV.width]
  exact denotes_constant options bytes _

theorem bcreateConstants_returns (left : Denotes options bytes (.constant cl) x)
    (right : Denotes options bytes (.constant cr) y)
    : ∃ c, bcreateConstants .Sub cl cr = .ok c
        ∧ Denotes options bytes (.constant c) (Sub.apply x y) := by
  obtain rfl := left.constant
  obtain rfl := right.constant
  have folded : bcreateConstants .Sub ⟨w, x⟩ ⟨w, y⟩ = .ok ⟨w, Sub.apply x y⟩ := by
    simp [bcreateConstants, arithmetic]
  exact ⟨_, folded, denotes_constant options bytes ⟨w, Sub.apply x y⟩⟩

/-- The ways in which an equality of a constant and an operand is made. -/
inductive EqMade (options : Options) : ConstantExpr → Expr → Except Fault Expr → Prop
  | general (cl : ConstantExpr) (r : Expr)
    : EqMade options cl r (EqExpr_create options (.constant cl) r)
  | itself (r : Expr) : EqMade options ⟨1, 1#1⟩ r (.ok r)
  | negation (right : Expr)
    : EqMade options ⟨1, 0#1⟩ (.comparison .Eq (.constant ⟨1, 0#1⟩) right) (.ok right)
  | disjunction {left right : Expr} {madeL madeR : Except Fault Expr}
    (isL : EqMade options ⟨left.getWidth, 0#_⟩ left madeL)
    (isR : EqMade options ⟨right.getWidth, 0#_⟩ right madeR)
    : EqMade options ⟨1, 0#1⟩ (.arithmetic .Or left right) (do
        let notL ← eqConstant left ⟨left.getWidth, 0#_⟩ madeL
        let notR ← eqConstant right ⟨right.getWidth, 0#_⟩ madeR
        AndExpr.create notL notR)
  | extension {kind : CastKind} {cl : ConstantExpr} {src : Expr} {width : Nat}
    {made : Except Fault Expr} (isSrc : EqMade options (cl.ZExt src.getWidth) src made)
    : EqMade options cl (.cast kind src width)
        (if cl = ⟨cl.width, kind.apply (cl.value.setWidth src.getWidth) cl.width⟩ then
          eqConstant src (cl.ZExt src.getWidth) made
        else .ok (.constant ⟨1, 0#1⟩))
  | sum {cl k : ConstantExpr} {right : Expr} {made : ConstantExpr → Except Fault Expr}
    (isR : ∀ c, EqMade options c right (made c))
    : EqMade options cl (.arithmetic .Add (.constant k) right)
        (bcreateConstants .Sub cl k >>= made)
  | difference {cl k : ConstantExpr} {right : Expr} {made : ConstantExpr → Except Fault Expr}
    (isR : ∀ c, EqMade options c right (made c))
    : EqMade options cl (.arithmetic .Sub (.constant k) right)
        (bcreateConstants .Sub k cl >>= made)
  | element {cl : ConstantExpr} {root : Array} {index : Expr} {made : Nat → Except Fault Expr}
    (on : options.ConstArrayOpt = true) (constant : root.isSymbolicArray = false)
    (isI : ∀ i, EqMade options (.alloc i index.getWidth) index (made i))
    : EqMade options cl (.read root .null index)
        (TryConstArrayOpt options cl (.read root .null index)
          (fun i => eqConstant index (.alloc i index.getWidth) (made i))
          root.constantValues 0 0 (.constant ⟨1, 0#1⟩))

/-- The recursion is on the operand that is not constant, as in the constructor. -/
theorem EqExpr_createPartialR_made (cl : ConstantExpr) (r : Expr)
    : EqMade options cl r (EqExpr_createPartialR options cl r) := by
  have general : EqMade options cl r (EqExpr_create options (.constant cl) r) := .general cl r
  have oneBit {zero wide : Except Fault Expr} (isZero : cl = ⟨1, 0#1⟩ → EqMade options cl r zero)
      (isWide : EqMade options cl r wide)
      : EqMade options cl r
          (if cl.width = 1 then do if ← cl.isTrue then .ok r else zero else wide) := by
    obtain ⟨w, x⟩ := cl
    split
    next one =>
      obtain rfl : w = 1 := one
      have either : ∀ x : BitVec 1, x = 1#1 ∨ x = 0#1 := by decide
      rcases either x with rfl | rfl
      · exact .itself r
      · exact isZero rfl
    · exact isWide
  unfold EqExpr_createPartialR
  cases r with
  | constant _ | notOptimized _ | select _ _ _ | concat _ _ | extract _ _ _ | not _ =>
    exact oneBit (fun _ => general) general
  | comparison kind l r' =>
    cases kind
    case Eq =>
      refine oneBit (fun none => ?_) general
      simp only
      split
      next isZero =>
        subst none isZero
        exact .negation r'
      · exact general
    all_goals exact oneBit (fun _ => general) general
  | arithmetic kind l r' =>
    cases kind
    case Or =>
      refine oneBit (fun none => ?_) general
      subst none
      exact .disjunction (EqExpr_createPartialR_made _ l) (EqExpr_createPartialR_made _ r')
    case Add =>
      refine oneBit (fun _ => general) ?_
      simp only
      split
      next k => exact .sum fun c => EqExpr_createPartialR_made c r'
      · exact general
    case Sub =>
      refine oneBit (fun _ => general) ?_
      simp only
      split
      next k => exact .difference fun c => EqExpr_createPartialR_made c r'
      · exact general
    all_goals exact oneBit (fun _ => general) general
  | cast kind src width =>
    have made := @EqMade.extension options kind cl src width _
      (EqExpr_createPartialR_made (cl.ZExt src.getWidth) src)
    cases kind <;> exact oneBit (fun _ => general) made
  | read root head index =>
    refine oneBit (fun _ => general) ?_
    simp only
    split
    next optimised =>
      simp [Bool.not_eq_eq_eq_not] at optimised
      obtain ⟨⟨on, constant⟩, rfl⟩ := optimised
      exact .element on constant fun i => EqExpr_createPartialR_made _ index
    · exact general
termination_by structural r

/-- By induction on how the equality is made. -/
theorem EqMade.builds {made : Except Fault Expr} (isMade : EqMade options cl r made) {w : Nat}
    {x y : BitVec w} (left : Denotes options bytes (.constant cl) x)
    (right : Denotes options bytes r y)
    : Builds options bytes made (BitVec.ofBool (x == y)) := by
  induction isMade generalizing w x y with
  | general cl r => exact EqExpr_create_builds left right
  | itself r =>
    cases left.constant
    have itself : ∀ y : BitVec 1, y = BitVec.ofBool (1#1 == y) := by decide
    rw [← itself]
    exact .of_ok right
  | negation right' =>
    cases left.constant
    obtain ⟨k, a, b, isA, isB, rfl⟩ := denotes_comparison.mp right
    cases isA.constant
    have twice : ∀ b : BitVec 1, BitVec.ofBool (0#1 == BitVec.ofBool (0#1 == b)) = b := by
      decide
    rw [ComparisonKind.apply, twice]
    exact .of_ok isB
  | disjunction _ _ ihL ihR =>
    cases left.constant
    obtain ⟨a, b, isA, isB, rfl⟩ := denotes_arithmetic.mp right
    have deMorgan : ∀ a b : BitVec 1, BitVec.ofBool (0#1 == (a ||| b))
        = BitVec.ofBool (0#1 == a) &&& BitVec.ofBool (0#1 == b) := by
      decide
    rw [apply, deMorgan]
    have zeroA := isA.alloc 0
    have zeroB := isB.alloc 0
    refine (eqConstant_builds isA zeroA (ihL zeroA isA)).bind fun notL isNotL => ?_
    refine (eqConstant_builds isB zeroB (ihR zeroB isB)).bind fun notR isNotR => ?_
    exact AndExpr.create_builds isNotL isNotR
  | @extension kind cl src width made _ ih =>
    obtain rfl := left.constant
    obtain ⟨s, rfl, wider, isS, rfl⟩ := right.of_cast
    have trunc := denotes_constant options bytes (ZExt ⟨width, x⟩ src.getWidth)
    have undone (s : BitVec src.getWidth) : (kind.apply s width).setWidth src.getWidth = s := by
      cases kind
      case ZExt => simp [CastKind.apply, Nat.le_of_lt wider]
      case SExt => exact setWidth_signExtend (Nat.le_of_lt wider) s
    exact eq_extended_builds undone (eqConstant_builds isS trunc (ih trunc isS))
  | sum _ ih =>
    obtain ⟨a, b, isA, isB, rfl⟩ := denotes_arithmetic.mp right
    have moved : (x == Add.apply a b) = (Sub.apply x a == b) := by
      simp only [apply]
      grind
    obtain ⟨c, folded, isC⟩ := bcreateConstants_returns left isA
    rw [moved, folded]
    exact ih c isC isB
  | difference _ ih =>
    obtain ⟨a, b, isA, isB, rfl⟩ := denotes_arithmetic.mp right
    have moved : (x == Sub.apply a b) = (Sub.apply a x == b) := by
      simp only [apply]
      grind
    obtain ⟨c, folded, isC⟩ := bcreateConstants_returns isA left
    rw [moved, folded]
    exact ih c isC isB
  | @element cl root index made on constant _ ih =>
    obtain rfl := left.constant
    obtain rfl : w = 8 := right.width.symm
    obtain ⟨-, i, isI, byte, within⟩ := denotes_read.mp right
    have inside := within on rfl constant
    have found : root.constantValues[i.toNat]? = some y := by
      rw [byte, UpdateNode.byte, Array.byte, constant, List.getElem?_eq_getElem inside]
      simp [inside]
    refine TryConstArrayOpt_builds right found (root.length_lt constant) (fun n => ?_) _ 0 0 _
      rfl (denotes_constant options bytes _)
    have position := isI.alloc n
    exact eqConstant_builds isI position (ih n position isI)

theorem EqExpr_createPartialR_builds (cl : ConstantExpr) (r : Expr) {w : Nat} {x y : BitVec w}
    (left : Denotes options bytes (.constant cl) x) (right : Denotes options bytes r y)
    : Builds options bytes (EqExpr_createPartialR options cl r) (ofBool (x == y)) :=
  (EqExpr_createPartialR_made cl r).builds left right

section

variable (left : Denotes options bytes l x) (right : Denotes options bytes r y)
include left right

theorem EqExpr.create_builds : Builds options bytes (create options l r) (ofBool (x == y)) := by
  have one {c : ConstantExpr} (isC : Denotes options bytes (.constant c) y) :=
    EqExpr_createPartialR_builds c l isC left
  have oneR {c : ConstantExpr} (isC : Denotes options bytes (.constant c) x) :=
    EqExpr_createPartialR_builds c r isC right
  have neither := EqExpr_create_builds left right
  refine Makes.builds (bcreateR_makes left right comparison_makes ?_ (fun isC => (oneR isC).makes)
    neither.makes) (bcreateR_returns left right (fun _ _ => returns_ok _)
      (fun isC => (one isC).returns) (fun isC => (oneR isC).returns) neither.returns)
  rw [ComparisonKind.apply, Bool.beq_comm]
  exact fun isC => (one isC).makes

theorem NeExpr.create_builds : Builds options bytes (create options l r) (ofBool (x != y)) := by
  unfold create
  refine (EqExpr.create_builds left right).bind fun same isSame => ?_
  have negated : ∀ b : Bool, ofBool (0#1 == ofBool b) = ofBool (!b) := by
    decide
  rw [bne, ← negated]
  exact EqExpr.create_builds (denotes_constant options bytes ⟨1, 0#1⟩) isSame

end

theorem Expr.createIsZero_builds (denotes : Denotes options bytes e x)
    : Builds options bytes (e.createIsZero options) (ofBool (x == 0#w)) := by
  unfold createIsZero
  rw [create_zero, ok_bind, denotes.width]
  exact EqExpr.create_builds denotes (denotes_constant options bytes ⟨w, 0#w⟩)

theorem XorExpr_createPartialR_makes (left : Denotes options bytes (.constant cl) x)
    (right : Denotes options bytes r y)
    : Makes options bytes (XorExpr_createPartialR options cl r) (x ^^^ y) := by
  obtain rfl := left.constant
  refine isZero_ensures.bind fun zero known => ?_
  split
  next none =>
    rw [known.mp none, zero_xor]
    exact .of_ok right
  next some =>
    rw [known] at some
    split
    next one =>
      obtain rfl : w = 1 := one
      have flipped : ∀ x y : BitVec 1, x ≠ 0#1 → x ^^^ y = ofBool (0#1 == y) := by
        decide
      rw [flipped x y some]
      exact (EqExpr_createPartialR_builds _ r (denotes_constant options bytes ⟨1, 0#1⟩) right).makes
    · exact makes_arithmetic left right

theorem XorExpr_create_makes (left : Denotes options bytes l x) (right : Denotes options bytes r y)
    : Makes options bytes (XorExpr_create l r) (x ^^^ y) :=
  makes_arithmetic left right

theorem XorExpr.create_makes (left : Denotes options bytes l x) (right : Denotes options bytes r y)
    : Makes options bytes (XorExpr.create options l r) (x ^^^ y) := by
  refine bcreateR_makes left right arithmetic_makes ?_ (XorExpr_createPartialR_makes · right)
    (XorExpr_create_makes left right)
  rw [apply, BitVec.xor_comm]
  exact (XorExpr_createPartialR_makes · left)

end Woodpecker.Expressions
