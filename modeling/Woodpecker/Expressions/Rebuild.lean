import Woodpecker.Expressions.Arithmetic

/-! The constructors that take expressions apart and put them together, and `rebuild`.

Concatenation and extraction call each other within a budget, as addition and subtraction
do. An expression rebuilt from kids that keep their values keeps its own value.
-/

namespace Woodpecker.Expressions

open Library ConstantExpr BitVec

section ConcatExtract

variable (options : Options) (concat : Expr → Expr → Except Fault Expr)
  (extract : Expr → Nat → Nat → Except Fault Expr)

def ConcatExpr_create (l r : Expr) : Except Fault Expr :=
  match l, r with
  | .constant lCE, .constant rCE => .ok (.constant (lCE.Concat rCE))
  | .extract left leftOffset leftWidth, .extract right rightOffset rightWidth =>
    -- Merge contiguous Extracts
    if options.equal left right ∧ rightOffset + rightWidth = leftOffset then
      extract left rightOffset (leftWidth + rightWidth)
    else
      .ok (.concat (.extract left leftOffset leftWidth) (.extract right rightOffset rightWidth))
  | l, r => .ok (.concat l r)

def ExtractExpr_create (expr : Expr) (off w : Nat) : Except Fault Expr :=
  let kw := expr.getWidth
  if ¬ (w > 0 ∧ off + w ≤ kw) then .error .assertion
  else if w = kw then .ok expr
  else
    match expr with
    | .constant CE => .ok (.constant (CE.Extract off w))
    | .concat left right =>
      -- if the extract skips the right side of the concat
      if right.getWidth ≤ off then extract left (off - right.getWidth) w
      -- if the extract skips the left side of the concat
      else if off + w ≤ right.getWidth then extract right off w
      else do
        -- E(C(x,y)) = C(E(x), E(y))
        let high ← extract left 0 (w + off - right.getWidth)
        let low ← extract right off (right.getWidth - off)
        concat high low
    | expr => .ok (.extract expr off w)

end ConcatExtract

mutual

def ConcatExpr.create (options : Options) (fuel : Nat) (l r : Expr) : Except Fault Expr :=
  match fuel with
  | 0 => .error .outOfFuel
  | fuel + 1 => ConcatExpr_create options (ExtractExpr.create options fuel) l r

def ExtractExpr.create (options : Options) (fuel : Nat) (expr : Expr) (off w : Nat)
    : Except Fault Expr :=
  match fuel with
  | 0 => .error .outOfFuel
  | fuel + 1 =>
    ExtractExpr_create (ConcatExpr.create options fuel) (ExtractExpr.create options fuel)
      expr off w

end

def NotExpr.create (e : Expr) : Except Fault Expr :=
  match e.constant? with
  | some CE => .ok (.constant CE.Not)
  | none => .ok (.not e)

def NotOptimizedExpr.create (src : Expr) : Except Fault Expr :=
  .ok (.notOptimized src)

def ZExtExpr.create (options : Options) (fuel : Nat) (e : Expr) (w : Nat)
    : Except Fault Expr :=
  let kBits := e.getWidth
  if w = kBits then .ok e
  else if w < kBits then ExtractExpr.create options fuel e 0 w
  else
    match e.constant? with
    | some CE => .ok (.constant (CE.ZExt w))
    | none => .ok (.cast .ZExt e w)

def SExtExpr.create (options : Options) (fuel : Nat) (e : Expr) (w : Nat)
    : Except Fault Expr :=
  let kBits := e.getWidth
  if w = kBits then .ok e
  else if w < kBits then ExtractExpr.create options fuel e 0 w
  else
    match e.constant? with
    | some CE => .ok (.constant (CE.SExt w))
    | none => .ok (.cast .SExt e w)

def SelectExpr.create (options : Options) (c t f : Expr) : Except Fault Expr :=
  if c.getWidth ≠ 1 then .error .assertion
  else if t.getWidth ≠ f.getWidth then .error .assertion
  else
    match c.constant? with
    | some CE => do if ← CE.isTrue then .ok t else .ok f
    | none =>
      if options.equal t f then .ok t
      else if t.getWidth = 1 then
        -- c ? t : f  <=> (c and t) or (not c and f)
        match t.constant?, f.constant? with
        | some CE, _ => do
          if ← CE.isTrue then OrExpr.create c f
          else AndExpr.create (← c.createIsZero options) f
        | none, some CE => do
          if ← CE.isTrue then OrExpr.create (← c.createIsZero options) t
          else AndExpr.create c t
        | none, none => .ok (.select c t f)
      else .ok (.select c t f)

/-- The value of the update that a read is known to find: later updates are known to be at
other indices.
-/
def ReadExpr.knownUpdate (options : Options) (index : Expr)
    : UpdateNode → Except Fault (Option Expr)
  | .null => .ok none
  | .node at_ value next => do
    match ← EqExpr.create options index at_ with
    | .constant CE =>
      if ← CE.isTrue then .ok (some value) else ReadExpr.knownUpdate options index next
    | _ => .ok none

def ReadExpr.create (options : Options) (root : Array) (head : UpdateNode) (index : Expr)
    : Except Fault Expr := do
  match ← ReadExpr.knownUpdate options index head with
  | some value => .ok value
  | none => .ok (.read root head index)

def Expr.kids : Expr → List Expr
  | .constant _ => []
  | .notOptimized src => [src]
  | .read _ _ index => [index]
  | .select cond trueExpr falseExpr => [cond, trueExpr, falseExpr]
  | .concat left right => [left, right]
  | .extract expr _ _ => [expr]
  | .not expr => [expr]
  | .cast _ src _ => [src]
  | .arithmetic _ left right => [left, right]
  | .comparison _ left right => [left, right]

def ArithmeticKind.create (options : Options) (fuel : Nat) (kind : ArithmeticKind)
    : Expr → Expr → Except Fault Expr :=
  match kind with
  | .Add => AddExpr.create options fuel
  | .Sub => SubExpr.create options fuel
  | .Mul => MulExpr.create
  | .UDiv => UDivExpr.create
  | .SDiv => SDivExpr.create
  | .URem => URemExpr.create
  | .SRem => SRemExpr.create
  | .And => AndExpr.create
  | .Or => OrExpr.create
  | .Xor => XorExpr.create options
  | .Shl => ShlExpr.create options
  | .LShr => LShrExpr.create options
  | .AShr => AShrExpr.create

def ComparisonKind.create (options : Options) (kind : ComparisonKind)
    : Expr → Expr → Except Fault Expr :=
  match kind with
  | .Eq => EqExpr.create options
  | .Ne => NeExpr.create options
  | .Ult => UltExpr.create options
  | .Ule => UleExpr.create options
  | .Ugt => UgtExpr.create options
  | .Uge => UgeExpr.create options
  | .Slt => SltExpr.create options
  | .Sle => SleExpr.create options
  | .Sgt => SgtExpr.create options
  | .Sge => SgeExpr.create options

/-- A copy of the expression with other kids. There are as many as it has itself. -/
def Expr.rebuild (options : Options) (fuel : Nat) (e : Expr) (kids : List Expr)
    : Except Fault Expr :=
  match e, kids with
  | .notOptimized _, [src] => NotOptimizedExpr.create src
  | .read root head _, [index] => ReadExpr.create options root head index
  | .select _ _ _, [cond, trueExpr, falseExpr] =>
    SelectExpr.create options cond trueExpr falseExpr
  | .concat _ _, [left, right] => ConcatExpr.create options fuel left right
  | .extract _ offset width, [expr] => ExtractExpr.create options fuel expr offset width
  | .not _, [expr] => NotExpr.create expr
  | .cast .ZExt _ width, [src] => ZExtExpr.create options fuel src width
  | .cast .SExt _ width, [src] => SExtExpr.create options fuel src width
  | .arithmetic kind _ _, [left, right] => kind.create options fuel left right
  | .comparison kind _ _, [left, right] => kind.create options left right
  | _, _ => .error .assertion

-- Concatenation and extraction

variable {options : Options} {bytes : Assignment} {w m n : Nat} {e l r : Expr} {x : BitVec m}

/-- A value of the same width, written at another name for it. -/
theorem Denotes.resize (denotes : Denotes options bytes e x) (same : m = w)
    : Denotes options bytes e (x.setWidth w) := by
  subst same
  simpa using denotes

theorem concat_constants (x : BitVec m) (y : BitVec n)
    : x.setWidth (m + n) <<< n ||| y.setWidth (m + n) = x ++ y := by
  ext i bound
  grind

theorem extract_constant {off : Nat} (x : BitVec m) (inside : off + w ≤ m)
    : (x.sshiftRight off).setWidth w = x.extractLsb' off w := by
  ext i bound
  grind

/-- An extraction from both sides of a concatenation. -/
theorem extract_across {off : Nat} (x : BitVec m) (y : BitVec n) (low : off < n)
    (high : n < off + w)
    : (x.extractLsb' 0 (w + off - n) ++ y.extractLsb' off (n - off)).setWidth w
      = (x ++ y).extractLsb' off w := by
  ext i bound
  simp only [getElem_setWidth, getLsbD_append, getElem_extractLsb', getLsbD_extractLsb']
  by_cases right : off + i < n
  · have inside : i < n - off := by omega
    simp [right, inside]
  have outside : ¬ i < n - off := by omega
  have shifted : i - (n - off) = off + i - n := by omega
  have within : off + i - n < w + off - n := by omega
  simp [right, outside, shifted, within]

def Concatenates (options : Options) (bytes : Assignment)
    (concat : Expr → Expr → Except Fault Expr)
    : Prop :=
  ∀ {m n : Nat} {x : BitVec m} {y : BitVec n} {l r : Expr}, Denotes options bytes l x
    → Denotes options bytes r y → Makes options bytes (concat l r) (x ++ y)

def Extracts (options : Options) (bytes : Assignment)
    (extract : Expr → Nat → Nat → Except Fault Expr)
    : Prop :=
  ∀ {m : Nat} {x : BitVec m} {e : Expr} (off w : Nat), Denotes options bytes e x
    → Makes options bytes (extract e off w) (x.extractLsb' off w)

section ConcatExtract

variable {concat : Expr → Expr → Except Fault Expr} {extract : Expr → Nat → Nat → Except Fault Expr}

theorem ConcatExpr_create_makes (extracts : Extracts options bytes extract)
    {x : BitVec m} {y : BitVec n} (left : Denotes options bytes l x)
    (right : Denotes options bytes r y)
    : Makes options bytes (ConcatExpr_create options extract l r) (x ++ y) := by
  unfold ConcatExpr_create
  split
  next lCE rCE =>
    obtain rfl := left.constant
    obtain rfl := right.constant
    rw [← concat_constants]
    exact .of_ok (denotes_constant options bytes (Concat ⟨m, x⟩ ⟨n, y⟩))
  next expr leftOffset leftWidth expr' rightOffset rightWidth =>
    split
    next contiguous =>
      obtain ⟨equal, meet⟩ := contiguous
      obtain rfl := options.same_of_equal equal
      obtain ⟨whole, rfl, -, isWhole, rfl⟩ := left.of_extract
      obtain ⟨again, rfl, -, isAgain, rfl⟩ := right.of_extract
      rw [isAgain.unique isWhole, extractLsb'_append_extractLsb'_eq_extractLsb' meet.symm]
      exact extracts _ _ isWhole
    · exact .of_ok (left.concat right)
  · exact .of_ok (left.concat right)

theorem ExtractExpr_create_makes (concats : Concatenates options bytes concat)
    (extracts : Extracts options bytes extract) {x : BitVec m} (off w : Nat)
    (whole : Denotes options bytes e x)
    : Makes options bytes (ExtractExpr_create concat extract e off w) (x.extractLsb' off w) := by
  unfold ExtractExpr_create
  have width := whole.width
  simp only [width]
  split
  · exact ensures_error _
  next valid =>
    obtain ⟨-, inside⟩ := not_not.mp valid
    split
    next full =>
      obtain rfl : off = 0 := by omega
      subst full
      rw [extractLsb'_eq_self]
      exact .of_ok whole
    split
    next CE =>
      obtain rfl := whole.constant
      rw [← extract_constant x inside]
      exact .of_ok (denotes_constant options bytes (Extract ⟨m, x⟩ off w))
    next left right =>
      obtain ⟨a, b, rfl, isA, isB, rfl⟩ := whole.of_concat
      rw [setWidth_eq]
      split
      next above =>
        rw [extractLsb'_append_eq_of_le above]
        exact extracts _ _ isA
      split
      next below =>
        rw [extractLsb'_append_eq_of_add_le below]
        exact extracts _ _ isB
      rw [← extract_across a b (by omega) (by omega)]
      refine (extracts _ _ isA).bind fun high isHigh => ?_
      refine (extracts _ _ isB).bind fun low isLow => ?_
      exact (concats isHigh isLow).mono fun _ made => made.resize (by omega)
    · exact .of_ok (whole.extract inside)

end ConcatExtract

/-- Both constructors together, by induction on the budget. -/
theorem pieces_make (options : Options) (bytes : Assignment) (fuel : Nat)
    : Concatenates options bytes (ConcatExpr.create options fuel)
      ∧ Extracts options bytes (ExtractExpr.create options fuel) := by
  induction fuel with
  | zero =>
    constructor
    · intro _ _ _ _ _ _ _ _
      exact ensures_error _
    · intro _ _ _ _ _ _
      rw [ExtractExpr.create]
      exact ensures_error _
  | succ fuel ih =>
    obtain ⟨concats, extracts⟩ := ih
    constructor
    · intro _ _ _ _ _ _ left right
      rw [ConcatExpr.create]
      exact ConcatExpr_create_makes extracts left right
    · intro _ _ _ off w whole
      rw [ExtractExpr.create]
      exact ExtractExpr_create_makes concats extracts off w whole

-- The other constructors

theorem NotExpr.create_makes {x : BitVec w} (denotes : Denotes options bytes e x)
    : Makes options bytes (create e) (~~~ x) := by
  unfold create
  split
  next CE isC =>
    rw [constant?_eq_some.mp isC] at denotes
    obtain rfl := denotes.constant
    exact .of_ok (denotes_constant options bytes (Not ⟨w, x⟩))
  · exact .of_ok (denotes_not.mpr ⟨x, denotes, rfl⟩)

/-- `ZExtExpr::create` and `SExtExpr::create`, which differ in what they do to constants. -/
theorem extension_makes {kind : CastKind} (extend : ConstantExpr → ConstantExpr) (fuel : Nat)
    (denotes : Denotes options bytes e x) (extends_ : extend ⟨m, x⟩ = ⟨w, kind.apply x w⟩)
    : Makes options bytes (if w = e.getWidth then .ok e
        else if w < e.getWidth then ExtractExpr.create options fuel e 0 w
        else
          match e.constant? with
          | some CE => .ok (.constant (extend CE))
          | none => .ok (.cast kind e w))
        (kind.apply x w) := by
  have low (narrow : w ≤ m) : kind.apply x w = x.setWidth w := by
    cases kind with
    | ZExt => rfl
    | SExt => exact signExtend_eq_setWidth_of_le x narrow
  simp only [denotes.width]
  split
  next same =>
    rw [low same.le]
    exact .of_ok (denotes.resize same.symm)
  split
  next narrower =>
    have piece : x.setWidth w = x.extractLsb' 0 w := by
      ext i bound
      simp
    rw [low narrower.le, piece]
    exact (pieces_make options bytes fuel).2 0 w denotes
  split
  next CE isC =>
    rw [constant?_eq_some.mp isC] at denotes
    rw [denotes.constant, extends_]
    exact .of_ok (denotes_constant options bytes ⟨w, kind.apply x w⟩)
  · have wider : m < w := by omega
    exact .of_ok (denotes.cast wider)

/-- A choice between one-bit values, one of which is known, is a conjunction or a
disjunction.
-/
theorem select_oneBit (b x y : BitVec 1)
    : (if b = 1#1 then 1#1 else y) = b ||| y
      ∧ (if b = 1#1 then 0#1 else y) = ofBool (b == 0#1) &&& y
      ∧ (if b = 1#1 then x else 1#1) = ofBool (b == 0#1) ||| x
      ∧ (if b = 1#1 then x else 0#1) = b &&& x := by
  revert b x y
  decide

theorem bit_cases (b : BitVec 1) : b = 1#1 ∨ b = 0#1 := by
  revert b
  decide

theorem SelectExpr.create_builds {c t f : Expr} {b : BitVec 1} {x y : BitVec w}
    (cond : Denotes options bytes c b) (yes : Denotes options bytes t x)
    (no : Denotes options bytes f y)
    : Builds options bytes (create options c t f) (if b = 1#1 then x else y) := by
  have general : Builds options bytes (.ok (.select c t f)) (if b = 1#1 then x else y) :=
    .of_ok (denotes_select.mpr ⟨b, x, y, cond, yes, no, rfl⟩)
  unfold create
  simp only [cond.width, yes.width, no.width, ne_eq, not_true_eq_false, if_false]
  split
  next CE isC =>
    rw [constant?_eq_some.mp isC] at cond
    obtain rfl := cond.constant
    rw [isTrue_eq, ok_bind]
    simp only [beq_iff_eq]
    split
    · exact .of_ok yes
    · exact .of_ok no
  split
  next same =>
    obtain rfl := options.same_of_equal same
    rw [yes.unique no, ite_self]
    exact .of_ok no
  split
  next one =>
    subst one
    obtain ⟨trueT, falseT, trueF, falseF⟩ := select_oneBit b x y
    split
    next CE isT =>
      rw [constant?_eq_some.mp isT] at yes
      obtain rfl := yes.constant
      rcases bit_cases x with rfl | rfl
      · rw [trueT]
        exact OrExpr.create_builds cond no
      · rw [falseT]
        exact (Expr.createIsZero_builds cond).bind fun _ zero => AndExpr.create_builds zero no
    next CE _ isF =>
      rw [constant?_eq_some.mp isF] at no
      obtain rfl := no.constant
      rcases bit_cases y with rfl | rfl
      · rw [trueF]
        exact (Expr.createIsZero_builds cond).bind fun _ zero => OrExpr.create_builds zero yes
      · rw [falseF]
        exact AndExpr.create_builds cond yes
    · exact general
  · exact general

variable {index : Expr}

/-- The update found is the one that the read finds, by recursion over the updates. -/
theorem ReadExpr.knownUpdate_returns {i : BitVec 32} (root : Array)
    (isI : Denotes options bytes index i) (head : UpdateNode) (valid : head.Valid options bytes)
    : ∃ known, knownUpdate options index head = .ok known
        ∧ ∀ value, known = some value → Denotes options bytes value (head.byte bytes root i) := by
  cases head with
  | null =>
    exact ⟨none, rfl, nofun⟩
  | node at_ value next =>
    obtain ⟨⟨j, isJ⟩, ⟨v, isV⟩, rest⟩ := valid.of_node
    obtain ⟨same, compared, isSame⟩ := EqExpr.create_builds isI isJ
    rw [knownUpdate, compared, ok_bind, UpdateNode.byte, isJ.bits, isV.bits]
    split
    next CE =>
      obtain rfl := isSame.constant
      rw [isTrue_eq, ok_bind]
      have known : ∀ b : Bool, (ofBool b == 1#1) = b := by decide
      rw [known]
      by_cases here : i = j
      · rw [if_pos (beq_iff_eq.mpr here), if_pos here.symm]
        refine ⟨_, rfl, ?_⟩
        rintro _ ⟨⟩
        exact isV
      · rw [if_neg (by simpa using here), if_neg (Ne.symm here)]
        exact knownUpdate_returns root isI next rest
    · exact ⟨none, rfl, nofun⟩
termination_by structural head

variable {head : UpdateNode}

theorem ReadExpr.create_builds {root : Array} {i : BitVec 32} (valid : head.Valid options bytes)
    (isI : Denotes options bytes index i)
    (within : options.ConstArrayOpt = true → head = .null → root.isSymbolicArray = false →
      i.toNat < root.constantValues.length)
    : Builds options bytes (create options root head index) (head.byte bytes root i) := by
  obtain ⟨known, found, holds⟩ := knownUpdate_returns root isI head valid
  rw [create, found, ok_bind]
  split
  next value => exact .of_ok (holds value rfl)
  · exact .of_ok (denotes_read.mpr ⟨valid, i, isI, rfl, within⟩)

theorem ArithmeticKind.create_makes (options : Options) (bytes : Assignment) (fuel : Nat)
    (kind : ArithmeticKind)
    : Constructs options bytes (kind.create options fuel) kind := by
  cases kind with
  | Add => exact (sums_make options bytes fuel).1
  | Sub => exact (sums_make options bytes fuel).2
  | Mul => exact MulExpr.create_makes options bytes
  | UDiv => exact UDivExpr.create_makes options bytes
  | SDiv => exact SDivExpr.create_makes options bytes
  | URem => exact URemExpr.create_makes options bytes
  | SRem => exact SRemExpr.create_makes options bytes
  | And => exact AndExpr.create_makes
  | Or => exact OrExpr.create_makes
  | Xor => exact XorExpr.create_makes
  | Shl => exact ShlExpr.create_makes options bytes
  | LShr => exact LShrExpr.create_makes options bytes
  | AShr => exact AShrExpr.create_makes options bytes

theorem ComparisonKind.create_builds (kind : ComparisonKind) {x y : BitVec w}
    (left : Denotes options bytes l x) (right : Denotes options bytes r y)
    : Builds options bytes (kind.create options l r) (ofBool (kind.apply x y)) := by
  cases kind with
  | Eq => exact EqExpr.create_builds left right
  | Ne => exact NeExpr.create_builds left right
  | Ult => exact UltExpr.create_builds left right
  | Ule => exact UleExpr.create_builds left right
  | Ugt => exact UltExpr.create_builds right left
  | Uge => exact UleExpr.create_builds right left
  | Slt => exact SltExpr.create_builds left right
  | Sle => exact SleExpr.create_builds left right
  | Sgt => exact SltExpr.create_builds right left
  | Sge => exact SleExpr.create_builds right left

theorem ComparisonKind.create_makes (options : Options) (bytes : Assignment) (kind : ComparisonKind)
    : Compares options bytes (kind.create options) kind :=
  fun left right => (kind.create_builds left right).makes

-- Rebuilding

/-- The second expression can stand for the first: it is well typed and as wide if the first
is, and where `known` holds it has the same value.
-/
def Keeps (options : Options) (bytes : Assignment) (known : Prop) (e e' : Expr) : Prop :=
  ∀ ⦃w : Nat⦄ ⦃v : BitVec w⦄, Denotes options bytes e v
    → ∃ v' : BitVec w, Denotes options bytes e' v' ∧ (known → v' = v)

variable {known : Prop}

theorem Keeps.refl (e : Expr) : Keeps options bytes known e e :=
  fun _ _ denotes => ⟨_, denotes, fun _ => rfl⟩

theorem Keeps.trans {e e' e'' : Expr} (one : Keeps options bytes known e e')
    (two : Keeps options bytes known e' e'')
    : Keeps options bytes known e e'' := by
  intro w v denotes
  obtain ⟨v', denotes', same⟩ := one denotes
  obtain ⟨v'', denotes'', again⟩ := two denotes'
  exact ⟨v'', denotes'', fun holds => (again holds).trans (same holds)⟩

/-- What is certain to stand for an expression has its value. -/
theorem Keeps.denotes {e e' : Expr} {v : BitVec w} (keeps : Keeps options bytes True e e')
    (isV : Denotes options bytes e v)
    : Denotes options bytes e' v := by
  obtain ⟨v', isV', same⟩ := keeps isV
  rwa [same trivial] at isV'

theorem Keeps.mono {e e' : Expr} {known' : Prop} (keeps : Keeps options bytes known e e')
    (implies : known' → known)
    : Keeps options bytes known' e e' := by
  intro w v isV
  obtain ⟨v', isV', same⟩ := keeps isV
  exact ⟨v', isV', fun holds => same (implies holds)⟩

variable {R : Expr → Expr → Prop} {kids : List Expr}

theorem forall₂_one {a : Expr} (kept : List.Forall₂ R [a] kids)
    : ∃ a', kids = [a'] ∧ R a a' := by
  cases kept with
  | cons first rest =>
    cases rest
    exact ⟨_, rfl, first⟩

theorem forall₂_two {a b : Expr} (kept : List.Forall₂ R [a, b] kids)
    : ∃ a' b', kids = [a', b'] ∧ R a a' ∧ R b b' := by
  cases kept with
  | cons first rest =>
    obtain ⟨b', rfl, second⟩ := forall₂_one rest
    exact ⟨_, b', rfl, first, second⟩

theorem forall₂_three {a b c : Expr} (kept : List.Forall₂ R [a, b, c] kids)
    : ∃ a' b' c', kids = [a', b', c'] ∧ R a a' ∧ R b b' ∧ R c c' := by
  cases kept with
  | cons first rest =>
    obtain ⟨b', c', rfl, second, third⟩ := forall₂_two rest
    exact ⟨_, b', c', rfl, first, second, third⟩

/-- An expression rebuilt from kids that stand for its own, by cases on its class. Where
bounds matter, the kids have to have the same values.
-/
theorem rebuild_keeps (sure : options.ConstArrayOpt = true → known) (fuel : Nat) (e : Expr)
    (kids : List Expr) (kept : List.Forall₂ (Keeps options bytes known) e.kids kids)
    : Ensures (e.rebuild options fuel kids) (Keeps options bytes known e) := by
  -- What is made has the value that the kids determine.
  have of_makes {made : Except Fault Expr}
      (makes : ∀ {w : Nat} {v : BitVec w}, Denotes options bytes e v
        → ∃ v' : BitVec w, Makes options bytes made v' ∧ (known → v' = v))
      : Ensures made (Keeps options bytes known e) := by
    intro e' returned w v denotes
    obtain ⟨v', made, same⟩ := makes denotes
    exact ⟨v', made e' returned, same⟩
  cases e with
  | constant c => exact ensures_error _
  | notOptimized src =>
    obtain ⟨a, rfl, keepsA⟩ := forall₂_one kept
    refine of_makes fun denotes => ?_
    obtain ⟨v', isV', same⟩ := keepsA (denotes_notOptimized.mp denotes)
    exact ⟨v', .of_ok (denotes_notOptimized.mpr isV'), same⟩
  | read root head index =>
    obtain ⟨a, rfl, keepsA⟩ := forall₂_one kept
    refine of_makes fun {w v} denotes => ?_
    obtain rfl : w = 8 := denotes.width.symm
    obtain ⟨valid, i, isI, rfl, within⟩ := denotes_read.mp denotes
    obtain ⟨i', isI', same⟩ := keepsA isI
    have inside : options.ConstArrayOpt = true → head = .null → root.isSymbolicArray = false →
        i'.toNat < root.constantValues.length := by
      intro on
      rw [same (sure on)]
      exact within on
    refine ⟨_, (ReadExpr.create_builds valid isI' inside).makes, fun holds => ?_⟩
    rw [same holds]
  | select cond trueExpr falseExpr =>
    obtain ⟨c, t, f, rfl, keepsC, keepsT, keepsF⟩ := forall₂_three kept
    refine of_makes fun denotes => ?_
    obtain ⟨b, x, y, isB, isX, isY, rfl⟩ := denotes_select.mp denotes
    obtain ⟨b', isB', sameB⟩ := keepsC isB
    obtain ⟨x', isX', sameX⟩ := keepsT isX
    obtain ⟨y', isY', sameY⟩ := keepsF isY
    refine ⟨_, (SelectExpr.create_builds isB' isX' isY').makes, fun holds => ?_⟩
    rw [sameB holds, sameX holds, sameY holds]
  | concat left right =>
    obtain ⟨l, r, rfl, keepsL, keepsR⟩ := forall₂_two kept
    refine of_makes fun denotes => ?_
    obtain ⟨x, y, rfl, isX, isY, rfl⟩ := denotes.of_concat
    obtain ⟨x', isX', sameX⟩ := keepsL isX
    obtain ⟨y', isY', sameY⟩ := keepsR isY
    refine ⟨_, (pieces_make options bytes fuel).1 isX' isY', fun holds => ?_⟩
    rw [sameX holds, sameY holds, setWidth_eq]
  | extract expr offset width =>
    obtain ⟨a, rfl, keepsA⟩ := forall₂_one kept
    refine of_makes fun denotes => ?_
    obtain ⟨x, rfl, -, isX, rfl⟩ := denotes.of_extract
    obtain ⟨x', isX', same⟩ := keepsA isX
    refine ⟨_, (pieces_make options bytes fuel).2 offset width isX', fun holds => ?_⟩
    rw [same holds]
  | not expr =>
    obtain ⟨a, rfl, keepsA⟩ := forall₂_one kept
    refine of_makes fun denotes => ?_
    obtain ⟨x, isX, rfl⟩ := denotes_not.mp denotes
    obtain ⟨x', isX', same⟩ := keepsA isX
    exact ⟨_, NotExpr.create_makes isX', fun holds => by rw [same holds]⟩
  | cast kind src width =>
    obtain ⟨a, rfl, keepsA⟩ := forall₂_one kept
    refine of_makes fun denotes => ?_
    obtain ⟨x, rfl, -, isX, rfl⟩ := denotes.of_cast
    obtain ⟨x', isX', same⟩ := keepsA isX
    cases kind with
    | ZExt => exact ⟨_, extension_makes (·.ZExt _) fuel isX' rfl, fun holds => by rw [same holds]⟩
    | SExt => exact ⟨_, extension_makes (·.SExt _) fuel isX' rfl, fun holds => by rw [same holds]⟩
  | arithmetic kind left right =>
    obtain ⟨l, r, rfl, keepsL, keepsR⟩ := forall₂_two kept
    refine of_makes fun denotes => ?_
    obtain ⟨x, y, isX, isY, rfl⟩ := denotes_arithmetic.mp denotes
    obtain ⟨x', isX', sameX⟩ := keepsL isX
    obtain ⟨y', isY', sameY⟩ := keepsR isY
    refine ⟨_, kind.create_makes options bytes fuel isX' isY', fun holds => ?_⟩
    rw [sameX holds, sameY holds]
  | comparison kind left right =>
    obtain ⟨l, r, rfl, keepsL, keepsR⟩ := forall₂_two kept
    refine of_makes fun {w v} denotes => ?_
    obtain rfl : w = 1 := denotes.width.symm
    obtain ⟨k, x, y, isX, isY, rfl⟩ := denotes_comparison.mp denotes
    obtain ⟨x', isX', sameX⟩ := keepsL isX
    obtain ⟨y', isY', sameY⟩ := keepsR isY
    refine ⟨_, kind.create_makes options bytes isX' isY', fun holds => ?_⟩
    rw [sameX holds, sameY holds]

end Woodpecker.Expressions
