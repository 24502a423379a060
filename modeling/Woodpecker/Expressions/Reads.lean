import Mathlib.Algebra.Order.BigOperators.Group.List
import Mathlib.Algebra.Order.Ring.Nat
import Woodpecker.Expressions.Rebuild
import Woodpecker.Library.Searches

/-! The reads of an expression, which are all that its value depends on. -/

namespace Woodpecker.Expressions

open Library Expr UpdateNode List

-- Model

/-- A read expression: the root and the head of its updates, and the index. -/
structure ReadExpr where
  root : Array
  head : UpdateNode
  index : Expr
deriving DecidableEq, Repr

/-- The indices and values of an update list. -/
def UpdateNode.exprs : UpdateNode → List Expr
  | .null => []
  | .node index value next => index :: value :: next.exprs

/-- Expressions without the constants, which are never pushed. -/
def symbolic (exprs : List Expr) : List Expr :=
  exprs.filter fun e => e.constant? = none

/-- The loop of `findReads`, with the stack, the visited expressions, the heads of update
lists that were gone through, and the results so far.
-/
def findReadsLoop (visitUpdates : Bool) (fuel : Nat) (visited stack : List Expr)
    (updates : List UpdateNode) (results : List ReadExpr)
    : Except Fault (List ReadExpr) :=
  match fuel, stack with
  | 0, _ => .error .outOfFuel
  | _ + 1, [] => .ok results
  | fuel + 1, .read root head index :: stack =>
    let pushed := pushNew visited stack (symbolic [index])
    if visitUpdates = true ∧ head ∉ updates then
      let pushed := pushNew pushed.1 pushed.2 (symbolic head.exprs)
      findReadsLoop visitUpdates fuel pushed.1 pushed.2 (head :: updates)
        (results ++ [⟨root, head, index⟩])
    else
      findReadsLoop visitUpdates fuel pushed.1 pushed.2 updates
        (results ++ [⟨root, head, index⟩])
  | fuel + 1, top :: stack =>
    let pushed := pushNew visited stack (symbolic top.kids)
    findReadsLoop visitUpdates fuel pushed.1 pushed.2 updates results

def findReads (visitUpdates : Bool) (fuel : Nat) (e : Expr) : Except Fault (List ReadExpr) :=
  findReadsLoop visitUpdates fuel (symbolic [e]) (symbolic [e]) [] []

-- Reads

mutual

/-- All reads of an expression, also those in update lists. -/
def Expr.reads : Expr → List ReadExpr
  | .constant _ => []
  | .notOptimized src => src.reads
  | .read root head index => ⟨root, head, index⟩ :: (index.reads ++ head.reads)
  | .select cond trueExpr falseExpr => cond.reads ++ trueExpr.reads ++ falseExpr.reads
  | .concat left right => left.reads ++ right.reads
  | .extract expr _ _ => expr.reads
  | .not expr => expr.reads
  | .cast _ src _ => src.reads
  | .arithmetic _ left right => left.reads ++ right.reads
  | .comparison _ left right => left.reads ++ right.reads

def UpdateNode.reads : UpdateNode → List ReadExpr
  | .null => []
  | .node index value next => index.reads ++ value.reads ++ next.reads

end

/-- The parts of an expression that it is searched for reads in. -/
def Expr.parts : Expr → List Expr
  | .read _ head index => index :: head.exprs
  | e => e.kids

/-- The read that an expression is. -/
def Expr.own : Expr → List ReadExpr
  | .read root head index => [⟨root, head, index⟩]
  | _ => []

theorem UpdateNode.mem_reads {head : UpdateNode} {re : ReadExpr}
    : re ∈ head.reads ↔ ∃ part ∈ head.exprs, re ∈ part.reads := by
  cases head with
  | null => simp [reads, exprs]
  | node index value next =>
    rw [reads, exprs, mem_append, mem_append, mem_reads]
    simp [or_assoc]
termination_by structural head

theorem Expr.mem_reads {e : Expr} {re : ReadExpr}
    : re ∈ e.reads ↔ re ∈ e.own ∨ ∃ part ∈ e.parts, re ∈ part.reads := by
  cases e with
  | read root head index =>
    rw [reads, own, parts, mem_cons, mem_append, UpdateNode.mem_reads]
    simp
  | _ => simp [reads, own, parts, kids]

mutual

/-- The expression itself and all expressions within it, also those in update lists. -/
def Expr.subexprs : Expr → List Expr
  | .constant c => [.constant c]
  | .notOptimized src => .notOptimized src :: src.subexprs
  | .read root head index => .read root head index :: (index.subexprs ++ head.subexprs)
  | .select cond trueExpr falseExpr =>
    .select cond trueExpr falseExpr
      :: (cond.subexprs ++ trueExpr.subexprs ++ falseExpr.subexprs)
  | .concat left right => .concat left right :: (left.subexprs ++ right.subexprs)
  | .extract expr offset width => .extract expr offset width :: expr.subexprs
  | .not expr => .not expr :: expr.subexprs
  | .cast kind src width => .cast kind src width :: src.subexprs
  | .arithmetic kind left right =>
    .arithmetic kind left right :: (left.subexprs ++ right.subexprs)
  | .comparison kind left right =>
    .comparison kind left right :: (left.subexprs ++ right.subexprs)

def UpdateNode.subexprs : UpdateNode → List Expr
  | .null => []
  | .node index value next => index.subexprs ++ value.subexprs ++ next.subexprs

end

/-- The property holds of the expression and of all within it. -/
def Expr.Everywhere (property : Expr → Prop) (e : Expr) : Prop :=
  ∀ x ∈ e.subexprs, property x

theorem UpdateNode.mem_subexprs {head : UpdateNode} {x : Expr}
    : x ∈ head.subexprs ↔ ∃ part ∈ head.exprs, x ∈ part.subexprs := by
  cases head with
  | null => simp [subexprs, exprs]
  | node index value next =>
    rw [subexprs, exprs, mem_append, mem_append, mem_subexprs]
    simp [or_assoc]
termination_by structural head

theorem Expr.mem_subexprs {e x : Expr}
    : x ∈ e.subexprs ↔ x = e ∨ ∃ part ∈ e.parts, x ∈ part.subexprs := by
  cases e with
  | read root head index =>
    rw [subexprs, parts, mem_cons, mem_append, UpdateNode.mem_subexprs]
    simp
  | _ => simp [subexprs, parts, kids]

theorem Expr.Everywhere.here {property : Expr → Prop} {e : Expr} (all : e.Everywhere property)
    : property e :=
  all e (mem_subexprs.mpr (.inl rfl))

theorem Expr.Everywhere.part {property : Expr → Prop} {e part : Expr}
    (all : e.Everywhere property) (isPart : part ∈ e.parts)
    : part.Everywhere property :=
  fun x isIn => all x (mem_subexprs.mpr (.inr ⟨part, isPart, isIn⟩))

theorem UpdateNode.exprs_size (head : UpdateNode)
    : (head.exprs.map sizeOf).sum < sizeOf head := by
  cases head with
  | null => simp [exprs]
  | node index value next =>
    have less := exprs_size next
    simp only [exprs, map_cons, sum_cons, node.sizeOf_spec]
    omega
termination_by structural head

theorem Expr.parts_size (e : Expr) : (e.parts.map sizeOf).sum < sizeOf e := by
  cases e with
  | read root head index =>
    have less := head.exprs_size
    simp only [parts, map_cons, sum_cons, read.sizeOf_spec]
    omega
  | _ =>
    simp only [parts, kids, map_cons, map_nil, sum_cons, sum_nil,
      constant.sizeOf_spec, notOptimized.sizeOf_spec, select.sizeOf_spec,
      concat.sizeOf_spec, extract.sizeOf_spec, not.sizeOf_spec,
      cast.sizeOf_spec, arithmetic.sizeOf_spec, comparison.sizeOf_spec]
    omega

theorem Expr.part_size {e part : Expr} (isPart : part ∈ e.parts) : sizeOf part < sizeOf e := by
  have least := single_le_sum (fun _ _ => Nat.zero_le _) _ (mem_map_of_mem (f := sizeOf) isPart)
  exact Nat.lt_of_le_of_lt least e.parts_size

theorem mem_symbolic {exprs : List Expr} {e : Expr}
    : e ∈ symbolic exprs ↔ e ∈ exprs ∧ e.constant? = none := by
  simp [symbolic]

-- The search

/-- What is searched after an expression: its kids, and the expressions in the update list of
a read, if updates are visited.
-/
def Expr.nexts (visitUpdates : Bool) (e : Expr) : List Expr :=
  if visitUpdates then e.parts else e.kids

def Expr.Reaches (visitUpdates : Bool) : Expr → Expr → Prop :=
  Relation.ReflTransGen fun x y => y ∈ x.nexts visitUpdates

def ReadExpr.expr (re : ReadExpr) : Expr :=
  .read re.root re.head re.index

section Search

variable {visitUpdates : Bool} {e top : Expr} {visited stack : List Expr}
  {updates updates' : List UpdateNode} {results : List ReadExpr}

theorem nexts_sublist : (e.nexts visitUpdates).Sublist e.parts := by
  cases visitUpdates with
  | true => exact .refl _
  | false =>
    cases e with
    | read root head index => exact (nil_sublist _).cons_cons index
    | _ => exact .refl _

/-- Nothing is searched after a constant. -/
theorem nexts_symbolic {x : Expr} (isNext : x ∈ e.nexts visitUpdates) : e.constant? = none := by
  cases e with
  | constant c => cases nexts_sublist.subset isNext
  | _ => rfl

/-- The reads of an expression are those that it reaches. -/
theorem mem_reads_of_reaches {re : ReadExpr} (reaches : e.Reaches true re.expr)
    : re ∈ e.reads := by
  induction reaches using Relation.ReflTransGen.head_induction_on with
  | refl => exact .head _
  | head isNext _ ih => exact mem_reads.mpr (.inr ⟨_, isNext, ih⟩)

theorem reaches_of_mem_reads {e : Expr} {re : ReadExpr} (isRead : re ∈ e.reads)
    : e.Reaches true re.expr := by
  rcases mem_reads.mp isRead with own | ⟨part, isPart, inPart⟩
  · cases e with
    | read root head index =>
      obtain rfl := mem_singleton.mp own
      exact .refl
    | _ => cases own
  · have smaller : sizeOf part < sizeOf e := part_size isPart
    exact .head isPart (reaches_of_mem_reads inPart)
termination_by sizeOf e

/-- The invariant of the search for the reads of `e`. -/
structure Searching (visitUpdates : Bool) (e : Expr) (visited stack : List Expr)
    (updates : List UpdateNode) (results : List ReadExpr)
    : Prop where
  explored : Explored (fun x => symbolic (x.nexts visitUpdates)) visited stack
  start : ∀ x ∈ symbolic [e], x ∈ visited
  found : ∀ x ∈ visited, x ∈ stack ∨ ∀ re ∈ x.own, re ∈ results
  updates : ∀ head ∈ updates, ∀ x ∈ symbolic head.exprs, x ∈ visited
  within : ∀ x ∈ visited, e.Reaches visitUpdates x
  listed : ∀ re ∈ results, re.expr ∈ visited
  once : (results.map ReadExpr.expr ++ stack).Nodup

theorem searching_start (visitUpdates : Bool) (e : Expr)
    : Searching visitUpdates e (symbolic [e]) (symbolic [e]) [] [] where
  explored := ⟨fun _ isIn => isIn, fun _ isIn => .inl isIn⟩
  start _ isIn := isIn
  found _ isIn := .inl isIn
  updates := nofun
  within x isIn := by
    obtain rfl := mem_singleton.mp (mem_symbolic.mp isIn).1
    exact .refl
  listed := nofun
  once := Nodup.filter _ (nodup_singleton e)

theorem own_sublist (top : Expr) : (top.own.map ReadExpr.expr).Sublist [top] := by
  cases top with
  | read root head index => exact .refl _
  | _ => exact nil_sublist _

/-- The top is searched, and its own read is a result. -/
theorem Searching.pop (searching : Searching visitUpdates e visited (top :: stack) updates results)
    (heads : ∀ head ∈ updates', head ∈ updates ∨ ∀ x ∈ head.exprs, x ∈ top.nexts visitUpdates)
    : Searching visitUpdates e (pushNew visited stack (symbolic (top.nexts visitUpdates))).1
        (pushNew visited stack (symbolic (top.nexts visitUpdates))).2 updates'
        (results ++ top.own) := by
  have isVisited : ∀ x ∈ visited,
      x ∈ (pushNew visited stack (symbolic (top.nexts visitUpdates))).1 :=
    fun x old => (mem_pushNew_visited _).mpr (.inl old)
  have isTop : top ∈ visited := searching.explored.pushed top (.head stack)
  have listed : ∀ re ∈ results ++ top.own, re.expr ∈ visited := by
    refine forall_mem_append.mpr ⟨searching.listed, fun re isOwn => ?_⟩
    have same := (own_sublist top).subset (mem_map_of_mem isOwn)
    exact mem_singleton.mp same ▸ isTop
  refine ⟨searching.explored.pop, fun x isIn => isVisited x (searching.start x isIn), ?_, ?_, ?_,
    fun re isResult => isVisited _ (listed re isResult), ?_⟩
  · refine pushNew_done _ searching.found ?_ ?_
    · exact fun re isOwn => mem_append_right _ isOwn
    · exact fun x done re isOwn => mem_append_left _ (done re isOwn)
  · intro head isHead x isIn
    rcases heads head isHead with old | isNext
    · exact isVisited x (searching.updates head old x isIn)
    · obtain ⟨isExpr, isSymbolic⟩ := mem_symbolic.mp isIn
      exact (mem_pushNew_visited _).mpr (.inr (mem_symbolic.mpr ⟨isNext x isExpr, isSymbolic⟩))
  · intro x isIn
    rcases (mem_pushNew_visited _).mp isIn with old | new
    · exact searching.within x old
    · exact (searching.within top isTop).tail (mem_symbolic.mp new).1
  · refine pushNew_nodup _ (forall_mem_append.mpr ⟨forall_mem_map.mpr listed, ?_⟩) ?_
    · exact fun x isIn => searching.explored.pushed x (.tail top isIn)
    · have fewer := (own_sublist top).append (Sublist.refl stack)
      rw [map_append, append_assoc]
      exact (fewer.append_left _).nodup searching.once

/-- The stack gets smaller. -/
theorem pushNew_next_size
    : ((pushNew visited stack (symbolic (top.nexts visitUpdates))).2.map sizeOf).sum
      < ((top :: stack).map sizeOf).sum := by
  have pushed : ((pushNew visited stack (symbolic (top.nexts visitUpdates))).2.map sizeOf).sum
      ≤ (stack.map sizeOf).sum + ((symbolic (top.nexts visitUpdates)).map sizeOf).sum :=
    pushNew_size sizeOf _
  have fewer : ((symbolic (top.nexts visitUpdates)).map sizeOf).sum ≤ (top.parts.map sizeOf).sum :=
    ((filter_sublist.trans nexts_sublist).map sizeOf).sum_le_sum fun _ _ => Nat.zero_le _
  have parts := top.parts_size
  rw [map_cons, sum_cons]
  omega

/-- All that is reached has been visited, by induction on the path. -/
theorem Searching.complete (searching : Searching visitUpdates e visited [] updates results)
    {x : Expr} (reaches : e.Reaches visitUpdates x) (isSymbolic : x.constant? = none)
    : x ∈ visited := by
  induction reaches with
  | refl => exact searching.start e (mem_symbolic.mpr ⟨.head [], isSymbolic⟩)
  | tail _ isNext ih =>
    exact searching.explored.done (ih (nexts_symbolic isNext)) _
      (mem_symbolic.mpr ⟨isNext, isSymbolic⟩)

/-- The update list of a read is gone through, or it was before. -/
theorem findReadsLoop_pop (visitUpdates : Bool) (top : Expr) (stack : List Expr)
    (results : List ReadExpr)
    (seen : ∀ head ∈ updates, ∀ x ∈ symbolic head.exprs, x ∈ visited)
    : ∃ updates', (∀ head ∈ updates', head ∈ updates ∨ ∀ x ∈ head.exprs, x ∈ top.nexts visitUpdates)
        ∧ ∀ fuel, findReadsLoop visitUpdates (fuel + 1) visited (top :: stack) updates results
          = findReadsLoop visitUpdates fuel
              (pushNew visited stack (symbolic (top.nexts visitUpdates))).1
              (pushNew visited stack (symbolic (top.nexts visitUpdates))).2 updates'
              (results ++ top.own) := by
  cases top with
  | read root head index =>
    cases visitUpdates with
    | false => exact ⟨updates, fun _ old => .inl old, fun fuel => rfl⟩
    | true =>
      have both : pushNew visited stack (symbolic ((read root head index).nexts true))
          = pushNew (pushNew visited stack (symbolic [index])).1
              (pushNew visited stack (symbolic [index])).2 (symbolic head.exprs) := by
        rw [← pushNew_append, symbolic, symbolic, symbolic, ← filter_append]
        rfl
      rw [both]
      by_cases new : head ∉ updates
      · refine ⟨head :: updates, fun other isOther => ?_, fun fuel => ?_⟩
        · rcases mem_cons.mp isOther with same | old
          · exact .inr fun x isIn => same ▸ .tail index isIn
          · exact .inl old
        · rw [findReadsLoop, if_pos ⟨rfl, new⟩]
          rfl
      · refine ⟨updates, fun _ old => .inl old, fun fuel => ?_⟩
        have visitedAll : ∀ x ∈ symbolic head.exprs,
            x ∈ (pushNew visited stack (symbolic [index])).1 := fun x isIn =>
          (mem_pushNew_visited _).mpr (.inl (seen head (not_not.mp new) x isIn))
        rw [findReadsLoop, if_neg fun both => new both.2, pushNew_of_visited visitedAll]
        rfl
  | _ =>
    refine ⟨updates, fun _ old => .inl old, fun fuel => ?_⟩
    change _ = findReadsLoop visitUpdates fuel _ _ updates (results ++ [])
    rw [append_nil]
    cases visitUpdates <;> rfl

/-- The search ends, by induction on the size of the stack. -/
theorem findReadsLoop_yields (searching : Searching visitUpdates e visited stack updates results)
    : Yields (fun fuel => findReadsLoop visitUpdates fuel visited stack updates results)
        fun reads => reads.Nodup ∧ ∀ re, re ∈ reads ↔ e.Reaches visitUpdates re.expr := by
  induction size : (stack.map sizeOf).sum using Nat.strong_induction_on
    generalizing visited stack updates results with
  | _ n ih =>
    subst size
    refine Yields.of_succ ?_
    cases stack with
    | nil =>
      refine yields_ok ⟨?_, fun re => ⟨fun isRead => ?_, fun reaches => ?_⟩⟩
      · have once := searching.once
        rw [append_nil] at once
        exact once.of_map _
      · exact searching.within _ (searching.listed re isRead)
      · have isVisited := searching.complete reaches rfl
        exact (searching.found _ isVisited).resolve_left nofun re (.head [])
    | cons top stack =>
      obtain ⟨updates', heads, step⟩ := findReadsLoop_pop visitUpdates top stack results
        searching.updates
      simp only [step]
      exact ih _ pushNew_next_size (searching.pop heads) rfl

theorem findReads_yields (e : Expr)
    : Yields (fun fuel => findReads true fuel e) fun reads => ∀ re, re ∈ reads ↔ re ∈ e.reads :=
  (findReadsLoop_yields (searching_start true e)).mono fun _ all re =>
    (all.2 re).trans ⟨mem_reads_of_reaches, reaches_of_mem_reads⟩

end Search

-- What a value depends on

/-- Two assignments have the same initial byte where a read looks. -/
def ReadExpr.AgreesAt (bytes bytes' : Assignment) (re : ReadExpr) : Prop :=
  re.root.byte bytes (re.index.bits bytes 32) = re.root.byte bytes' (re.index.bits bytes 32)

variable {bytes bytes' : Assignment}

mutual

/-- Assignments that agree on what an expression reads give it the same value. -/
theorem Expr.bits_congr_at (e : Expr) (w : Nat) (agree : ∀ re ∈ e.reads, re.AgreesAt bytes bytes')
    : e.bits bytes w = e.bits bytes' w := by
  cases e with
  | constant c => rfl
  | notOptimized src => exact src.bits_congr_at w agree
  | read root head index =>
    obtain ⟨here, rest⟩ := forall_mem_cons.mp agree
    obtain ⟨inIndex, inHead⟩ := forall_mem_append.mp rest
    have sameIndex := index.bits_congr_at 32 inIndex
    have sameByte := head.byte_congr_at root (index.bits bytes 32) inHead here
    rw [bits, bits, sameByte, sameIndex]
  | select cond trueExpr falseExpr =>
    obtain ⟨both, inFalse⟩ := forall_mem_append.mp agree
    obtain ⟨inCond, inTrue⟩ := forall_mem_append.mp both
    rw [bits, bits, cond.bits_congr_at 1 inCond, trueExpr.bits_congr_at w inTrue,
      falseExpr.bits_congr_at w inFalse]
  | extract expr _ _ | not expr | cast _ expr _ => rw [bits, bits, expr.bits_congr_at _ agree]
  | concat left right | arithmetic _ left right | comparison _ left right =>
    obtain ⟨inLeft, inRight⟩ := forall_mem_append.mp agree
    rw [bits, bits, left.bits_congr_at _ inLeft, right.bits_congr_at _ inRight]
termination_by structural e

theorem UpdateNode.byte_congr_at (head : UpdateNode) (root : Array) (i : BitVec 32)
    (agree : ∀ re ∈ head.reads, re.AgreesAt bytes bytes')
    (initial : root.byte bytes i = root.byte bytes' i)
    : head.byte bytes root i = head.byte bytes' root i := by
  cases head with
  | null => exact initial
  | node index value next =>
    obtain ⟨both, inNext⟩ := forall_mem_append.mp agree
    obtain ⟨inIndex, inValue⟩ := forall_mem_append.mp both
    rw [byte, byte, index.bits_congr_at 32 inIndex,
      value.bits_congr_at 8 inValue, next.byte_congr_at root i inNext initial]
termination_by structural head

end

/-- Two assignments have the same initial bytes where a read can look. -/
def ReadExpr.Agrees (bytes bytes' : Assignment) (re : ReadExpr) : Prop :=
  ∀ i, (∀ c, re.index = .constant c → i = c.value.setWidth 32)
    → re.root.byte bytes i = re.root.byte bytes' i

/-- Assignments that agree on the reads of an expression give it the same value. -/
theorem Expr.bits_congr (e : Expr) (w : Nat) (agree : ∀ re ∈ e.reads, re.Agrees bytes bytes')
    : e.bits bytes w = e.bits bytes' w := by
  refine e.bits_congr_at w fun re isRead => agree re isRead _ fun c isC => ?_
  rw [isC]
  rfl

/-- Every read of the expression is within its array. -/
def Expr.Within (bytes : Assignment) (e : Expr) : Prop :=
  ∀ re ∈ e.reads, (re.index.bits bytes 32).toNat < re.root.size.toNat

mutual

/-- The index of a read of a well typed expression. -/
theorem Expr.Typed.read_index {e : Expr} (typed : e.Typed)
    : ∀ re ∈ e.reads, re.index.getWidth = 32 := by
  cases e with
  | constant c => exact nofun
  | notOptimized src => exact Expr.Typed.read_index (e := src) typed
  | read root head index =>
    refine forall_mem_cons.mpr ⟨typed.2.2, forall_mem_append.mpr ?_⟩
    exact ⟨Expr.Typed.read_index typed.2.1, UpdateNode.Typed.read_index typed.1⟩
  | select cond trueExpr falseExpr =>
    obtain ⟨inCond, -, inTrue, inFalse, -⟩ := typed
    refine forall_mem_append.mpr ⟨forall_mem_append.mpr ⟨?_, ?_⟩, ?_⟩
    · exact inCond.read_index
    · exact inTrue.read_index
    · exact inFalse.read_index
  | concat left right =>
    exact forall_mem_append.mpr ⟨typed.1.read_index, typed.2.read_index⟩
  | extract expr offset width => exact Expr.Typed.read_index (e := expr) typed.1
  | not expr => exact Expr.Typed.read_index (e := expr) typed
  | cast kind src width => exact Expr.Typed.read_index (e := src) typed.1
  | arithmetic kind left right | comparison kind left right =>
    exact forall_mem_append.mpr ⟨typed.1.read_index, typed.2.1.read_index⟩

theorem UpdateNode.Typed.read_index {head : UpdateNode} (typed : head.Typed)
    : ∀ re ∈ head.reads, re.index.getWidth = 32 := by
  cases head with
  | null => exact nofun
  | node index value next =>
    obtain ⟨inIndex, -, inValue, -, inNext⟩ := typed
    refine forall_mem_append.mpr ⟨forall_mem_append.mpr ⟨?_, ?_⟩, ?_⟩
    · exact inIndex.read_index
    · exact inValue.read_index
    · exact inNext.read_index

end

-- Symbolic arrays

/-- The expressions that were visited, and the arrays that were found. -/
structure SymbolicObjectFinder where
  visited : List Expr
  objects : List Array

namespace SymbolicObjectFinder

/-- An expression is visited once. -/
def once (finder : SymbolicObjectFinder) (e : Expr)
    (visitActual : SymbolicObjectFinder → SymbolicObjectFinder)
    : SymbolicObjectFinder :=
  if e ∈ finder.visited then finder
  else { visitActual finder with visited := e :: (visitActual finder).visited }

def insert (finder : SymbolicObjectFinder) (root : Array) : SymbolicObjectFinder :=
  if root.isSymbolicArray = true ∧ root ∉ finder.objects then
    { finder with objects := finder.objects ++ [root] }
  else finder

mutual

def visit (finder : SymbolicObjectFinder) (e : Expr) : SymbolicObjectFinder :=
  match e with
  | .constant _ => finder
  | .notOptimized src => finder.once (.notOptimized src) fun finder => finder.visit src
  | .read root head index =>
    finder.once (.read root head index) fun finder =>
      ((finder.visitUpdates head).insert root).visit index
  | .select cond trueExpr falseExpr =>
    finder.once (.select cond trueExpr falseExpr) fun finder =>
      ((finder.visit cond).visit trueExpr).visit falseExpr
  | .concat left right =>
    finder.once (.concat left right) fun finder => (finder.visit left).visit right
  | .extract expr offset width =>
    finder.once (.extract expr offset width) fun finder => finder.visit expr
  | .not expr => finder.once (.not expr) fun finder => finder.visit expr
  | .cast kind src width => finder.once (.cast kind src width) fun finder => finder.visit src
  | .arithmetic kind left right =>
    finder.once (.arithmetic kind left right) fun finder => (finder.visit left).visit right
  | .comparison kind left right =>
    finder.once (.comparison kind left right) fun finder => (finder.visit left).visit right
termination_by structural e

def visitUpdates (finder : SymbolicObjectFinder) (head : UpdateNode) : SymbolicObjectFinder :=
  match head with
  | .null => finder
  | .node index value next => ((finder.visit index).visit value).visitUpdates next
termination_by structural head

end

end SymbolicObjectFinder

def findSymbolicObjects (exprs : List Expr) : List Array :=
  (exprs.foldl SymbolicObjectFinder.visit ⟨[], []⟩).objects

namespace SymbolicObjectFinder

/-- The symbolic arrays of the reads have been found. -/
def Has (finder : SymbolicObjectFinder) (reads : List ReadExpr) : Prop :=
  ∀ re ∈ reads, re.root.isSymbolicArray = true → re.root ∈ finder.objects

/-- What was visited has been searched, and what had been found before still is. -/
structure Searched (finder after : SymbolicObjectFinder) : Prop where
  visited : ∀ e ∈ after.visited, after.Has e.reads
  objects : ∀ root ∈ finder.objects, root ∈ after.objects

variable {finder middle after : SymbolicObjectFinder} {e : Expr} {reads more : List ReadExpr}
  {next later : SymbolicObjectFinder → SymbolicObjectFinder}

theorem Has.mono (has : finder.Has reads) (searched : Searched finder after) : after.Has reads :=
  fun re isRead isSymbolic => searched.objects _ (has re isRead isSymbolic)

theorem Searched.trans (one : Searched finder middle) (two : Searched middle after)
    : Searched finder after :=
  ⟨two.visited, fun root isIn => two.objects root (one.objects root isIn)⟩

theorem Searched.ready (searched : Searched finder after) : Searched after after :=
  ⟨searched.visited, fun _ isIn => isIn⟩

/-- A part of a visit finds the arrays of the reads. -/
def Searches (next : SymbolicObjectFinder → SymbolicObjectFinder) (reads : List ReadExpr)
    : Prop :=
  ∀ finder, Searched finder finder → Searched finder (next finder) ∧ (next finder).Has reads

/-- One part after the other. -/
theorem Searches.append (one : Searches next reads) (two : Searches later more)
    : Searches (fun finder => later (next finder)) (reads ++ more) := by
  intro finder ready
  obtain ⟨inOne, hasOne⟩ := one finder ready
  obtain ⟨inTwo, hasTwo⟩ := two (next finder) inOne.ready
  exact ⟨inOne.trans inTwo, forall_mem_append.mpr ⟨hasOne.mono inTwo, hasTwo⟩⟩

theorem Searches.once (searches : Searches next e.reads)
    : Searches (fun finder => finder.once e next) e.reads := by
  intro finder ready
  simp only [SymbolicObjectFinder.once]
  split
  next isVisited => exact ⟨ready, ready.visited e isVisited⟩
  · obtain ⟨⟨visited, objects⟩, has⟩ := searches finder ready
    exact ⟨⟨forall_mem_cons.mpr ⟨has, visited⟩, objects⟩, has⟩

/-- The array of a read is found before its index is visited. -/
theorem Searches.insert {root : Array} {head : UpdateNode} {index : Expr}
    (inHead : Searches next head.reads) (inIndex : Searches later index.reads)
    : Searches (fun finder => later ((next finder).insert root)) (read root head index).reads := by
  intro finder ready
  obtain ⟨⟨visited, objects⟩, has⟩ := inHead finder ready
  have inserted : Searched (next finder) ((next finder).insert root)
      ∧ (root.isSymbolicArray = true → root ∈ ((next finder).insert root).objects) := by
    unfold SymbolicObjectFinder.insert
    split
    · refine ⟨⟨fun e isIn re isRead isSymbolic => ?_, fun _ => mem_append_left _⟩, fun _ => ?_⟩
      · exact mem_append_left _ (visited e isIn re isRead isSymbolic)
      · exact mem_concat_self
    next known =>
      refine ⟨⟨visited, fun _ isIn => isIn⟩, fun isSymbolic => not_not.mp fun new => ?_⟩
      exact known ⟨isSymbolic, new⟩
  obtain ⟨searched, hasIndex⟩ := inIndex _ inserted.1.ready
  have before : Searched finder (next finder) := ⟨visited, objects⟩
  refine ⟨(before.trans inserted.1).trans searched, forall_mem_cons.mpr ⟨?_, ?_⟩⟩
  · exact fun isSymbolic => searched.objects root (inserted.2 isSymbolic)
  · exact forall_mem_append.mpr ⟨hasIndex, has.mono (inserted.1.trans searched)⟩

mutual

/-- A visit finds the arrays of all reads, by recursion over the expression. -/
theorem visit_searches (e : Expr) : Searches (fun finder => finder.visit e) e.reads := by
  cases e with
  | constant c => exact fun finder ready => ⟨ready, nofun⟩
  | notOptimized src => exact Searches.once (e := .notOptimized src) (visit_searches src)
  | read root head index =>
    exact Searches.once ((visitUpdates_searches head).insert (visit_searches index))
  | select cond trueExpr falseExpr =>
    refine Searches.once (e := .select cond trueExpr falseExpr) ?_
    exact ((visit_searches cond).append (visit_searches trueExpr)).append (visit_searches falseExpr)
  | concat left right =>
    exact Searches.once (e := .concat left right)
      ((visit_searches left).append (visit_searches right))
  | extract expr offset width =>
    exact Searches.once (e := .extract expr offset width) (visit_searches expr)
  | not expr => exact Searches.once (e := .not expr) (visit_searches expr)
  | cast kind src width => exact Searches.once (e := .cast kind src width) (visit_searches src)
  | arithmetic kind left right =>
    exact Searches.once (e := .arithmetic kind left right)
      ((visit_searches left).append (visit_searches right))
  | comparison kind left right =>
    exact Searches.once (e := .comparison kind left right)
      ((visit_searches left).append (visit_searches right))
termination_by structural e

theorem visitUpdates_searches (head : UpdateNode)
    : Searches (fun finder => finder.visitUpdates head) head.reads := by
  cases head with
  | null => exact fun finder ready => ⟨ready, nofun⟩
  | node index value next =>
    exact ((visit_searches index).append (visit_searches value)).append (visitUpdates_searches next)
termination_by structural head

end

/-- All expressions are searched, by induction on their list. -/
theorem foldl_searches (exprs : List Expr)
    : Searches (fun finder => exprs.foldl visit finder) (exprs.flatMap Expr.reads) := by
  induction exprs with
  | nil => exact fun finder ready => ⟨ready, nofun⟩
  | cons e rest ih => exact (visit_searches e).append ih

end SymbolicObjectFinder

theorem mem_findSymbolicObjects {exprs : List Expr} {e : Expr} (isIn : e ∈ exprs) {re : ReadExpr}
    (isRead : re ∈ e.reads) (isSymbolic : re.root.isSymbolicArray = true)
    : re.root ∈ findSymbolicObjects exprs := by
  have start : SymbolicObjectFinder.Searched ⟨[], []⟩ ⟨[], []⟩ := ⟨nofun, fun _ isIn => isIn⟩
  refine (SymbolicObjectFinder.foldl_searches exprs _ start).2 re ?_ isSymbolic
  exact mem_flatMap.mpr ⟨e, isIn, isRead⟩

end Woodpecker.Expressions
