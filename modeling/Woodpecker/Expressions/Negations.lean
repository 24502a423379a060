import Woodpecker.Expressions.Reads
import Woodpecker.Expressions.Weights

/-! What the negation of an expression is made of.

A negation takes the expression apart and puts equalities with constants and conjunctions
around its parts. A property that these have, and that holds everywhere in the expression,
holds everywhere in the negation.
-/

namespace Woodpecker.Expressions

open Library Expr

variable {options : Options} {bytes : Assignment} {property : Expr → Prop} {e l r : Expr}
  {cr : ConstantExpr}

theorem everywhere_iff
    : e.Everywhere property ↔ property e ∧ ∀ part ∈ e.parts, part.Everywhere property := by
  constructor
  · exact fun all => ⟨all.here, fun part isPart => all.part isPart⟩
  · intro both x isIn
    rcases mem_subexprs.mp isIn with rfl | ⟨part, isPart, inPart⟩
    · exact both.1
    · exact both.2 part isPart x inPart

/-- The reads are those of the subexpressions, by induction on the size. -/
theorem mem_reads_iff {e : Expr} {re : ReadExpr}
    : re ∈ e.reads ↔ ∃ x ∈ e.subexprs, re ∈ x.own := by
  rw [mem_reads]
  constructor
  · intro isRead
    rcases isRead with own | ⟨part, isPart, inPart⟩
    · exact ⟨e, mem_subexprs.mpr (.inl rfl), own⟩
    · obtain ⟨x, isIn, own⟩ := mem_reads_iff.mp inPart
      exact ⟨x, mem_subexprs.mpr (.inr ⟨part, isPart, isIn⟩), own⟩
  · intro isRead
    obtain ⟨x, isIn, own⟩ := isRead
    rcases mem_subexprs.mp isIn with rfl | ⟨part, isPart, inPart⟩
    · exact .inl own
    · exact .inr ⟨part, isPart, mem_reads_iff.mpr ⟨x, inPart, own⟩⟩
termination_by sizeOf e
decreasing_by all_goals exact part_size isPart

theorem within_iff
    : e.Within bytes ↔ e.Everywhere fun x => ∀ re ∈ x.own,
        (re.index.bits bytes 32).toNat < re.root.size.toNat := by
  constructor
  · exact fun within x isIn re own => within re (mem_reads_iff.mpr ⟨x, isIn, own⟩)
  · intro all re isRead
    obtain ⟨x, isIn, own⟩ := mem_reads_iff.mp isRead
    exact all x isIn re own

/-- The property holds of what a negation adds. -/
structure Expr.Negates (property : Expr → Prop) : Prop where
  constant : ∀ c, property (.constant c)
  equality : ∀ l r, property (.comparison .Eq l r)
  conjunction : ∀ l r, l.getWidth = 1 → property (.arithmetic .And l r)

/-- What is made has the property everywhere. -/
def MakesEverywhere (property : Expr → Prop) (made : Except Fault Expr) : Prop :=
  Ensures made fun e => e.Everywhere property

variable (negates : Negates property)

include negates

theorem everywhere_constant (c : ConstantExpr) : (constant c).Everywhere property :=
  everywhere_iff.mpr ⟨negates.constant c, nofun⟩

section

variable (left : l.Everywhere property)
include left

theorem everywhere_conjunction (right : r.Everywhere property) (bool : l.getWidth = 1)
    : (arithmetic .And l r).Everywhere property := by
  refine everywhere_iff.mpr ⟨negates.conjunction l r bool, List.forall_mem_cons.mpr ⟨left, ?_⟩⟩
  exact List.forall_mem_singleton.mpr right

theorem AndExpr_createPartial_everywhere (bool : l.getWidth = 1)
    : MakesEverywhere property (AndExpr_createPartial l cr) :=
  ensures_tests left (everywhere_constant negates cr)
    (everywhere_conjunction negates left (everywhere_constant negates cr) bool)

theorem AndExpr.create_everywhere (right : r.Everywhere property)
    (boolL : l.getWidth = 1) (boolR : r.getWidth = 1)
    : MakesEverywhere property (create l r) := by
  unfold create bcreateR
  split
  · exact ensures_error _
  split
  · exact ensures_bind fun c _ => .of_ok (everywhere_constant negates c)
  · exact AndExpr_createPartial_everywhere negates right boolR
  · exact AndExpr_createPartial_everywhere negates left boolL
  · exact .of_ok (everywhere_conjunction negates left right boolL)

theorem EqExpr_create_everywhere (right : r.Everywhere property)
    : MakesEverywhere property (EqExpr_create options l r) := by
  unfold EqExpr_create
  split
  · exact .of_ok (everywhere_constant negates _)
  · refine .of_ok (everywhere_iff.mpr ⟨negates.equality l r, List.forall_mem_cons.mpr ⟨left, ?_⟩⟩)
    exact List.forall_mem_singleton.mpr right

end

theorem eqConstant_everywhere {descended : Except Fault Expr}
    (rest : MakesEverywhere property descended)
    : MakesEverywhere property (eqConstant e cr descended) := by
  unfold eqConstant
  split
  · exact ensures_bind fun c _ => .of_ok (everywhere_constant negates c)
  · exact rest

/-- By induction on how the equality is made. The widths are needed for the conjunctions. -/
theorem EqMade.everywhere {made : Except Fault Expr} (isMade : EqMade options cr r made)
    (off : options.ConstArrayOpt = false) (typed : r.Typed) (width : r.getWidth = cr.width)
    (all : r.Everywhere property)
    : MakesEverywhere property made := by
  induction isMade with
  | general cl r => exact EqExpr_create_everywhere negates (everywhere_constant negates cl) all
  | itself r => exact .of_ok all
  | negation right' => exact .of_ok (all.part (.tail _ (.head _)))
  | disjunction isL isR ihL ihR =>
    -- A negated operand has one bit, under any assignment.
    have isBool {x : Expr} {made : Except Fault Expr} (typedX : x.Typed)
        (isX : EqMade options ⟨x.getWidth, 0#_⟩ x made)
        : Ensures (eqConstant x ⟨x.getWidth, 0#_⟩ made) fun e => e.getWidth = 1 := by
      have value : Denotes options (fun _ _ => 0#8) x (x.bits (fun _ _ => 0#8) x.getWidth) :=
        ⟨typedX, rfl, by simp [off], rfl⟩
      have zero := denotes_constant options (fun _ _ => 0#8) ⟨x.getWidth, 0#_⟩
      exact (eqConstant_builds value zero (isX.builds zero value)).makes.mono fun e isE => isE.width
    have notL := ihL typed.1 rfl (all.part (.head _))
    have notR := ihR typed.2.1 rfl (all.part (.tail _ (.head _)))
    refine Ensures.bind (Ensures.and (eqConstant_everywhere negates notL) (isBool typed.1 isL))
      fun notL isNotL => ?_
    refine Ensures.bind (Ensures.and (eqConstant_everywhere negates notR) (isBool typed.2.1 isR))
      fun notR isNotR => ?_
    exact AndExpr.create_everywhere negates isNotL.1 isNotR.1 isNotL.2 isNotR.2
  | extension _ ih =>
    split
    · exact eqConstant_everywhere negates (ih typed.1 rfl (all.part (.head _)))
    · exact .of_ok (everywhere_constant negates _)
  | sum _ ih =>
    refine Ensures.bind bcreateConstants_width fun c widthC => ?_
    exact ih c typed.2.1 ((typed.2.2.trans width).trans widthC.symm) (all.part (.tail _ (.head _)))
  | difference _ ih =>
    refine Ensures.bind bcreateConstants_width fun c widthC => ?_
    exact ih c typed.2.1 (typed.2.2.trans widthC.symm) (all.part (.tail _ (.head _)))
  | element on => simp [off] at on

theorem Expr.createIsZero_everywhere (off : options.ConstArrayOpt = false) (typed : e.Typed)
    (all : e.Everywhere property)
    : MakesEverywhere property (e.createIsZero options) := by
  unfold createIsZero EqExpr.create bcreateR
  rw [ConstantExpr.create_zero, ok_bind]
  split
  · exact ensures_error _
  split
  · exact ensures_bind fun c _ => .of_ok (everywhere_constant negates c)
  next other _ isSome => cases isSome
  next cr _ isC =>
    cases isC
    exact (EqExpr_createPartialR_made _ e).everywhere negates off typed rfl all
  next other => cases other

end Woodpecker.Expressions
