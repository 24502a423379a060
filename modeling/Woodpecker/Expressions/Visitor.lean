import Woodpecker.Expressions.Rebuild

/-! Visitors that replace parts of an expression.

A visitor remembers what it made of each expression. Whatever it replaces, what it makes of
an expression can stand for it, if that holds of every single replacement.
-/

namespace Woodpecker.Expressions

open Library

/-- What visitors differ in: the replacements before and after the children are visited, if
any, and whether a rebuilt expression is visited again.
-/
structure ExprVisitor where
  visitExpr : Expr → Option Expr
  visitExprPost : Expr → Option Expr
  recursive : Bool

def ExprReplaceVisitor (src dst : Expr) : ExprVisitor where
  visitExpr e := if e = src then some dst else none
  visitExprPost e := if e = src then some dst else none
  recursive := false

def ExprReplaceVisitor2 (replacements : List (Expr × Expr)) : ExprVisitor where
  visitExpr _ := none
  visitExprPost e := replacements.lookup e
  recursive := true

/-- The results so far. An entry is made once. -/
abbrev Visited := List (Expr × Expr)

def Visited.insert (visited : Visited) (e res : Expr) : Visited :=
  if (List.lookup e visited).isSome then visited else (e, res) :: visited

namespace ExprVisitor

section Steps

variable (visit : Visited → Expr → Except Fault (Expr × Visited))

def visitKids (visited : Visited) : List Expr → Except Fault (List Expr × Visited)
  | [] => .ok ([], visited)
  | kid :: rest => do
    let (kid, visited) ← visit visited kid
    let (rest, visited) ← visitKids visited rest
    .ok (kid :: rest, visited)

/-- Rebuilding where a kid has changed. -/
def rebuildChanged (visitor : ExprVisitor) (options : Options) (fuel : Nat)
    (visited : Visited) (e : Expr) (kids : List Expr)
    : Except Fault (Expr × Visited) :=
  if kids ≠ e.kids then do
    let rebuilt ← e.rebuild options fuel kids
    if visitor.recursive then visit visited rebuilt else .ok (rebuilt, visited)
  else .ok (e, visited)

def visitActual (visitor : ExprVisitor) (options : Options) (fuel : Nat) (visited : Visited)
    (e : Expr)
    : Except Fault (Expr × Visited) :=
  match visitor.visitExpr e with
  | some argument => .ok (argument, visited)
  | none => do
    let (kids, visited) ← visitKids visit visited e.kids
    let (e, visited) ← rebuildChanged visit visitor options fuel visited e kids
    match e.constant?, visitor.visitExprPost e with
    | none, some argument => .ok (argument, visited)
    | _, _ => .ok (e, visited)

end Steps

def visit (visitor : ExprVisitor) (options : Options) (fuel : Nat) (visited : Visited)
    (e : Expr)
    : Except Fault (Expr × Visited) :=
  match fuel with
  | 0 => .error .outOfFuel
  | fuel + 1 =>
    match e.constant?, List.lookup e visited with
    | some _, _ => .ok (e, visited)
    | none, some res => .ok (res, visited)
    | none, none => do
      let (res, visited) ←
        visitActual (visitor.visit options fuel) visitor options fuel visited e
      .ok (res, Visited.insert visited e res)

end ExprVisitor

-- What a visit keeps

variable {options : Options} {bytes : Assignment} {known : Prop} {visitor : ExprVisitor}

/-- Every result on record can stand for its expression. -/
def Visited.Keeps (options : Options) (bytes : Assignment) (known : Prop) (visited : Visited)
    : Prop :=
  ∀ e res, (e, res) ∈ visited → Expressions.Keeps options bytes known e res

/-- Every replacement can stand for what it replaces. -/
structure ExprVisitor.Keeps (options : Options) (bytes : Assignment) (known : Prop)
    (visitor : ExprVisitor)
    : Prop where
  before : ∀ e e', visitor.visitExpr e = some e' → Expressions.Keeps options bytes known e e'
  after : ∀ e e', visitor.visitExprPost e = some e' → Expressions.Keeps options bytes known e e'

/-- What holds of the results on record and of a new one. -/
theorem Visited.forall_insert {visited : Visited} {property : Expr → Expr → Prop}
    (recorded : ∀ e res, (e, res) ∈ visited → property e res) {e res : Expr} (new : property e res)
    (e' res' : Expr) (entry : (e', res') ∈ visited.insert e res)
    : property e' res' := by
  unfold Visited.insert at entry
  split at entry
  · exact recorded e' res' entry
  rcases List.mem_cons.mp entry with same | old
  · cases same
    exact new
  · exact recorded e' res' old

theorem Visited.Keeps.lookup {visited : Visited} (kept : visited.Keeps options bytes known)
    {e res : Expr} (found : List.lookup e visited = some res)
    : Expressions.Keeps options bytes known e res := by
  obtain ⟨before, after, rfl, -⟩ := List.lookup_eq_some_iff.mp found
  exact kept e res (by simp)

/-- A visit as it should be: its result stands for the expression, and so do the results on
record.
-/
def Visits (options : Options) (bytes : Assignment) (known : Prop)
    (visit : Visited → Expr → Except Fault (Expr × Visited))
    : Prop :=
  ∀ visited e, Visited.Keeps options bytes known visited
    → Ensures (visit visited e) fun result =>
        Keeps options bytes known e result.1 ∧ Visited.Keeps options bytes known result.2

section Steps

variable {visit : Visited → Expr → Except Fault (Expr × Visited)} {visited : Visited}
  (visits : Visits options bytes known visit)
include visits

/-- The loop over the kids, by induction on them. -/
theorem visitKids_keeps (kids : List Expr) (kept : visited.Keeps options bytes known)
    : Ensures (ExprVisitor.visitKids visit visited kids) fun result =>
        List.Forall₂ (Keeps options bytes known) kids result.1
        ∧ result.2.Keeps options bytes known := by
  induction kids generalizing visited with
  | nil => exact .of_ok ⟨.nil, kept⟩
  | cons kid rest ih =>
    refine (visits visited kid kept).bind fun first one => ?_
    refine (ih one.2).bind fun others two => ?_
    exact .of_ok ⟨.cons one.1 two.1, two.2⟩

theorem rebuildChanged_keeps (sure : options.ConstArrayOpt = true → known) (fuel : Nat) {e : Expr}
    {kids : List Expr} (kept : visited.Keeps options bytes known)
    (keeps : List.Forall₂ (Keeps options bytes known) e.kids kids)
    : Ensures (visitor.rebuildChanged visit options fuel visited e kids) fun result =>
        Keeps options bytes known e result.1 ∧ result.2.Keeps options bytes known := by
  unfold ExprVisitor.rebuildChanged
  split
  · refine (rebuild_keeps sure fuel e kids keeps).bind fun rebuilt stands => ?_
    split
    · exact (visits visited rebuilt kept).mono fun result again =>
        ⟨stands.trans again.1, again.2⟩
    · exact .of_ok ⟨stands, kept⟩
  · exact .of_ok ⟨.refl e, kept⟩

theorem visitActual_keeps (sure : options.ConstArrayOpt = true → known)
    (replaces : visitor.Keeps options bytes known) (fuel : Nat) (e : Expr)
    (kept : visited.Keeps options bytes known)
    : Ensures (visitor.visitActual visit options fuel visited e) fun result =>
        Keeps options bytes known e result.1 ∧ result.2.Keeps options bytes known := by
  unfold ExprVisitor.visitActual
  split
  next argument found => exact .of_ok ⟨replaces.before e argument found, kept⟩
  refine (visitKids_keeps visits e.kids kept).bind fun kids one => ?_
  refine (rebuildChanged_keeps visits sure fuel one.2 one.1).bind fun rebuilt two => ?_
  obtain ⟨made, visited⟩ := rebuilt
  simp only
  split
  next argument _ found => exact .of_ok ⟨two.1.trans (replaces.after made argument found), two.2⟩
  · exact .of_ok two

end Steps

/-- Visits keep values, by induction on the budget. -/
theorem visit_keeps (sure : options.ConstArrayOpt = true → known)
    (replaces : visitor.Keeps options bytes known) (fuel : Nat)
    : Visits options bytes known (visitor.visit options fuel) := by
  induction fuel with
  | zero =>
    intro visited e _
    exact ensures_error _
  | succ fuel ih =>
    intro visited e kept
    rw [ExprVisitor.visit]
    split
    · exact .of_ok ⟨.refl e, kept⟩
    next res _ found => exact .of_ok ⟨kept.lookup found, kept⟩
    · refine (visitActual_keeps ih sure replaces fuel e kept).bind fun result made => ?_
      exact .of_ok ⟨made.1, Visited.forall_insert made.2 made.1⟩

end Woodpecker.Expressions
