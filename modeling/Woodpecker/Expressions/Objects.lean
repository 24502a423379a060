import Woodpecker.Expressions.Basic
import Woodpecker.Library.Runs

/-! Expressions as the objects that represent them: each with its address and the hash value
that was stored when it was allocated.

Comparison goes by address, kind and hash value before it looks at the contents. The hash
function of `NotExpr` assigns to a local variable of the member's name, so the member keeps
what the memory held before.
-/

namespace Woodpecker.Expressions

open Library

-- Objects

structure Header where
  address : Nat
  hashValue : UInt32
deriving DecidableEq, Repr

mutual

inductive Object where
  | constant (header : Header) (c : ConstantExpr)
  | notOptimized (header : Header) (src : Object)
  | read (header : Header) (root : Array) (head : UpdateObject) (index : Object)
  | select (header : Header) (cond trueExpr falseExpr : Object)
  | concat (header : Header) (left right : Object)
  | extract (header : Header) (expr : Object) (offset width : Nat)
  | not (header : Header) (expr : Object)
  | cast (header : Header) (kind : CastKind) (src : Object) (width : Nat)
  | arithmetic (header : Header) (kind : ArithmeticKind) (left right : Object)
  | comparison (header : Header) (kind : ComparisonKind) (left right : Object)
deriving DecidableEq, Repr

/-- The update nodes of an array; a null pointer ends their list. -/
inductive UpdateObject where
  | null
  | node (header : Header) (index value : Object) (next : UpdateObject)
deriving DecidableEq, Repr

end

mutual

/-- The expression that an object represents. -/
def Object.expr : Object → Expr
  | .constant _ c => .constant c
  | .notOptimized _ src => .notOptimized src.expr
  | .read _ root head index => .read root head.updates index.expr
  | .select _ cond trueExpr falseExpr => .select cond.expr trueExpr.expr falseExpr.expr
  | .concat _ left right => .concat left.expr right.expr
  | .extract _ expr offset width => .extract expr.expr offset width
  | .not _ expr => .not expr.expr
  | .cast _ kind src width => .cast kind src.expr width
  | .arithmetic _ kind left right => .arithmetic kind left.expr right.expr
  | .comparison _ kind left right => .comparison kind left.expr right.expr

def UpdateObject.updates : UpdateObject → UpdateNode
  | .null => .null
  | .node _ index value next => .node index.expr value.expr next.updates

end

def CastKind.number : CastKind → Nat
  | .ZExt => 7
  | .SExt => 8

def ArithmeticKind.number : ArithmeticKind → Nat
  | .Add => 9
  | .Sub => 10
  | .Mul => 11
  | .UDiv => 12
  | .SDiv => 13
  | .URem => 14
  | .SRem => 15
  | .And => 17
  | .Or => 18
  | .Xor => 19
  | .Shl => 20
  | .LShr => 21
  | .AShr => 22

def ComparisonKind.number : ComparisonKind → Nat
  | .Eq => 23
  | .Ne => 24
  | .Ult => 25
  | .Ule => 26
  | .Ugt => 27
  | .Uge => 28
  | .Slt => 29
  | .Sle => 30
  | .Sgt => 31
  | .Sge => 32

namespace Object

def header : Object → Header
  | .constant header _ => header
  | .notOptimized header _ => header
  | .read header _ _ _ => header
  | .select header _ _ _ => header
  | .concat header _ _ => header
  | .extract header _ _ _ => header
  | .not header _ => header
  | .cast header _ _ _ => header
  | .arithmetic header _ _ _ => header
  | .comparison header _ _ _ => header

def address (object : Object) : Nat :=
  object.header.address

def hash (object : Object) : UInt32 :=
  object.header.hashValue

def getKind : Object → Nat
  | .constant _ _ => 0
  | .notOptimized _ _ => 1
  | .read _ _ _ _ => 3
  | .select _ _ _ _ => 4
  | .concat _ _ _ => 5
  | .extract _ _ _ _ => 6
  | .not _ _ => 16
  | .cast _ kind _ _ => kind.number
  | .arithmetic _ kind _ _ => kind.number
  | .comparison _ kind _ _ => kind.number

/-- The kids that `getKid` returns. -/
def kids : Object → List Object
  | .constant _ _ => []
  | .notOptimized _ src => [src]
  | .read _ _ _ index => [index]
  | .select _ cond trueExpr falseExpr => [cond, trueExpr, falseExpr]
  | .concat _ left right => [left, right]
  | .extract _ expr _ _ => [expr]
  | .not _ expr => [expr]
  | .cast _ _ src _ => [src]
  | .arithmetic _ _ left right => [left, right]
  | .comparison _ _ left right => [left, right]

end Object

-- Hash values

def MAGIC_HASH_CONSTANT : UInt32 := 39

/-- `UpdateNode::hash`, which is stored with the node. -/
def UpdateObject.hash : UpdateObject → UInt32
  | .null => 0
  | .node header _ _ _ => header.hashValue

/-- `UpdateNode::computeHash`. -/
def UpdateObject.computeHash : UpdateObject → UInt32
  | .null => 0
  | .node _ index value next => index.hash ^^^ value.hash ^^^ next.hash

/-- `UpdateList::hash`. -/
def Array.hash (root : Array) (head : UpdateObject) : UInt32 :=
  root.name.toList.foldl (fun res c => res * MAGIC_HASH_CONSTANT + c.val) 0 ^^^ head.hash

/-- The hash value of an object after `computeHash`. The hash of a constant's bits is taken
from outside; `memory` is what the member `hashValue` was before.
-/
def Object.computeHash (getHashValue : ConstantExpr → UInt32) (memory : UInt32)
    (object : Object) : UInt32 :=
  match object with
  | .constant _ c => getHashValue c ^^^ (.ofNat c.width * MAGIC_HASH_CONSTANT)
  | .cast _ _ src width =>
    (.ofNat width * MAGIC_HASH_CONSTANT) ^^^ (src.hash * MAGIC_HASH_CONSTANT)
  | .extract _ expr offset width =>
    (.ofNat offset * MAGIC_HASH_CONSTANT) ^^^ (.ofNat width * MAGIC_HASH_CONSTANT)
      ^^^ (expr.hash * MAGIC_HASH_CONSTANT)
  | .read _ root head index => (index.hash * MAGIC_HASH_CONSTANT) ^^^ root.hash head
  -- the result goes to a local variable
  | .not _ _ => memory
  | object => object.kids.foldl (fun res kid => (res <<< 1) ^^^ (kid.hash * MAGIC_HASH_CONSTANT))
      (.ofNat object.getKind * MAGIC_HASH_CONSTANT)

-- Comparison

/-- Pairs of addresses, the smaller one first. -/
abbrev ExprEquivSet := List (Nat × Nat)

/-- The comparison of two numbers or strings that are not equal. -/
def compareValues {α : Type} [DecidableEq α] [LT α] [DecidableLT α] (a b : α) (next : Int) : Int :=
  if a ≠ b then if a < b then -1 else 1 else next

/-- The loop over the kids of `Expr::compare`, given how each of them compares. -/
def compareKids (compares : List (Object → ExprEquivSet → Int × ExprEquivSet))
    (kids : List Object) (equivs : ExprEquivSet) : Int × ExprEquivSet :=
  match compares, kids with
  | compare :: compares, kid :: kids =>
    let (res, equivs) := compare kid equivs
    if res ≠ 0 then (res, equivs) else compareKids compares kids equivs
  | _, _ => (0, equivs)

/-- `Expr::compare`, given how the contents and the kids of `a` compare. -/
def compareObjects (a b : Object) (equivs : ExprEquivSet) (contents : Int)
    (compares : List (Object → ExprEquivSet → Int × ExprEquivSet)) : Int × ExprEquivSet :=
  let pair := (min a.address b.address, max a.address b.address)
  if a.address = b.address then (0, equivs)
  else if pair ∈ equivs then (0, equivs)
  else if a.getKind ≠ b.getKind then (if a.getKind < b.getKind then -1 else 1, equivs)
  else if a.hash ≠ b.hash then (if a.hash < b.hash then -1 else 1, equivs)
  else if contents ≠ 0 then (contents, equivs)
  else
    let (res, equivs) := compareKids compares b.kids equivs
    if res ≠ 0 then (res, equivs) else (0, pair :: equivs)

def UpdateObject.getSize : UpdateObject → Nat
  | .null => 0
  | .node _ _ _ next => next.getSize + 1

/-- `ConstantExpr::compareContents`. -/
def ConstantExpr.compareContents (c cb : ConstantExpr) : Int :=
  compareValues c.width cb.width (compareValues c.value.toNat cb.value.toNat 0)

/-- `UpdateList::compare`, given how the nodes compare. -/
def compareLists (root root' : Array) (head head' : UpdateObject) (nodes : Int) : Int :=
  compareValues root.name root'.name
    (compareValues root.address root'.address
      (compareValues head.getSize head'.getSize nodes))

mutual

def Object.compare : Object → Object → ExprEquivSet → Int × ExprEquivSet
  | .constant header c, b, equivs =>
    let contents := match b with
      | .constant _ cb => c.compareContents cb
      | _ => 0
    compareObjects (.constant header c) b equivs contents []
  | .notOptimized header src, b, equivs =>
    compareObjects (.notOptimized header src) b equivs 0 [src.compare]
  | .read header root head index, b, equivs =>
    let contents := match b with
      | .read _ root' head' _ => compareLists root root' head head' (head.compare head')
      | _ => 0
    compareObjects (.read header root head index) b equivs contents [index.compare]
  | .select header cond trueExpr falseExpr, b, equivs =>
    compareObjects (.select header cond trueExpr falseExpr) b equivs 0
      [cond.compare, trueExpr.compare, falseExpr.compare]
  | .concat header left right, b, equivs =>
    compareObjects (.concat header left right) b equivs 0 [left.compare, right.compare]
  | .extract header expr offset width, b, equivs =>
    let contents := match b with
      | .extract _ _ offset' width' =>
        compareValues offset offset' (compareValues width width' 0)
      | _ => 0
    compareObjects (.extract header expr offset width) b equivs contents [expr.compare]
  | .not header expr, b, equivs =>
    let contents : Int := match b with
      | .not _ expr' =>
        if (expr.compare expr' []).1 ≠ 0 then
          if (expr.compare expr' []).1 < 0 then -1 else 1
        else 0
      | _ => 0
    compareObjects (.not header expr) b equivs contents [expr.compare]
  | .cast header kind src width, b, equivs =>
    let contents := match b with
      | .cast _ _ _ width' => compareValues width width' 0
      | _ => 0
    compareObjects (.cast header kind src width) b equivs contents [src.compare]
  | .arithmetic header kind left right, b, equivs =>
    compareObjects (.arithmetic header kind left right) b equivs 0
      [left.compare, right.compare]
  | .comparison header kind left right, b, equivs =>
    compareObjects (.comparison header kind left right) b equivs 0
      [left.compare, right.compare]

/-- The loop of `UpdateList::compare`, which ends where the lists are shared. -/
def UpdateObject.compare : UpdateObject → UpdateObject → Int
  | .node header index value next, .node header' index' value' next' =>
    if header.address = header'.address then 0
    else if (index.compare index' []).1 ≠ 0 then (index.compare index' []).1
    else if (value.compare value' []).1 ≠ 0 then (value.compare value' []).1
    else next.compare next'
  | _, _ => 0

end

/-- `compare` of two references. -/
def Object.compareTo (a b : Object) : Int :=
  (a.compare b []).1

-- Allocation

structure ObjectHeap where
  arrays : List Array
  nodes : List UpdateObject
  objects : List Object

def ObjectHeap.empty : ObjectHeap where
  arrays := []
  nodes := []
  objects := []

inductive Allocation where
  | array (array : Array)
  | extend (node : UpdateObject)
  | alloc (object : Object) (memory : UInt32)

def UpdateObject.address : UpdateObject → Nat
  | .null => 0
  | .node header _ _ _ => header.address

/-- An update list is empty or has an allocated node for its head. -/
def ObjectHeap.HasList (heap : ObjectHeap) (head : UpdateObject) : Prop :=
  head = .null ∨ head ∈ heap.nodes

/-- The objects, nodes and arrays that an object refers to. -/
def ObjectHeap.HasParts (heap : ObjectHeap) (object : Object) : Prop :=
  (∀ kid ∈ object.kids, kid ∈ heap.objects)
  ∧ ∀ header root head index, object = .read header root head index →
      root ∈ heap.arrays ∧ heap.HasList head

/-- Steps that allocate an object, a node of an update list or an array, at an address where
there is no other. An object is hashed right after its allocation.
-/
inductive AllocationStep (getHashValue : ConstantExpr → UInt32)
    : ObjectHeap → Allocation → ObjectHeap → Prop
  | array (heap : ObjectHeap) (array : Array)
    (fresh : ∀ other ∈ heap.arrays, other.address ≠ array.address)
    : AllocationStep getHashValue heap (.array array)
        { heap with arrays := array :: heap.arrays }
  | extend (heap : ObjectHeap) (header : Header) (index value : Object) (next : UpdateObject)
    (hasIndex : index ∈ heap.objects) (hasValue : value ∈ heap.objects)
    (hasNext : heap.HasList next)
    (hashed : header.hashValue = (UpdateObject.node header index value next).computeHash)
    (fresh : ∀ other ∈ heap.nodes, other.address ≠ header.address)
    : AllocationStep getHashValue heap (.extend (.node header index value next))
        { heap with nodes := .node header index value next :: heap.nodes }
  | alloc (heap : ObjectHeap) (object : Object) (memory : UInt32)
    (hasParts : heap.HasParts object)
    (hashed : object.hash = object.computeHash getHashValue memory)
    (fresh : ∀ other ∈ heap.objects, other.address ≠ object.address)
    : AllocationStep getHashValue heap (.alloc object memory)
        { heap with objects := object :: heap.objects }

end Woodpecker.Expressions
