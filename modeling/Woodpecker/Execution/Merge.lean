import Woodpecker.Execution.ObjectState
import Woodpecker.Expressions.Constraints
import Woodpecker.Library.Heaps
import Woodpecker.Library.Loops
import Woodpecker.Library.Tables
import Woodpecker.Pthread.Model

/-! Merging two execution states.

Two states that are at the same place with the same objects are merged into one whose values
are selected by the part of the path condition in which the two differ. What is compared
first decides the answer; blocked threads, locks and local checkers are not compared.
-/

namespace Woodpecker.Execution

open Expressions Library

-- States

/-- Memory objects are ordered by their addresses. -/
instance memoryObjectLT : LT MemoryObject :=
  ⟨fun a b => a.address < b.address⟩

instance memoryObjectDecidableLT : DecidableLT MemoryObject :=
  fun a b => inferInstanceAs (Decidable (a.address < b.address))

/-- The object states are cells of a heap that the states share. -/
structure AddressSpace where
  cowKey : Nat
  objects : Table MemoryObject Nat

/-- What a pointer to a function stands for. -/
structure KFunction where
  id : Nat
  numRegisters : Nat
deriving DecidableEq, Repr

/-- A register that has not been set holds a null reference. -/
structure StackFrame where
  caller : Nat
  kf : KFunction
  locals : List (Option Expr)
  sized : locals.length = kf.numRegisters

structure ThreadState where
  pc : Nat
  stack : List StackFrame

structure ExecutionState (Checkers : Type) where
  threads : Table Int ThreadState
  blockedThreads : Finset Int
  lastTid : Int
  mutexes : UInt64 → Option Pthread.MutexInfo
  conds : UInt64 → Option Pthread.CondInfo
  localCheckers : Checkers
  constraints : ConstraintManager
  addressSpace : AddressSpace
  symbolics : List (MemoryObject × Expressions.Array)

/-- What a merge takes from its surroundings: the options, the byte order of the target, a
budget for recursions, and the order in which a set of expressions is iterated. That order
goes by kind and hash.
-/
structure Setting where
  options : Options
  isLittleEndian : Bool
  fuel : Nat
  arrange : List Expr → List Expr
  mem_arrange : ∀ exprs e, e ∈ arrange exprs ↔ e ∈ exprs

-- Address spaces

def deref (heap : Heap ObjectState) (ref : Nat) : Except Fault ObjectState :=
  match heap.read ref with
  | some os => .ok os
  | none => .error .badPointer

namespace AddressSpace

def findObject (space : AddressSpace) (mo : MemoryObject) : Option Nat :=
  space.objects.find? mo

/-- The object state itself if the address space owns it, and a copy otherwise. -/
def getWriteable (space : AddressSpace) (heap : Heap ObjectState) (mo : MemoryObject)
    (ref : Nat)
    : Except Fault (Heap ObjectState × AddressSpace × Nat) := do
  let os ← deref heap ref
  if os.readOnly then .error .assertion
  else if space.cowKey = os.copyOnWriteOwner then .ok (heap, space, ref)
  else
    let n := { os with copyOnWriteOwner := space.cowKey }
    .ok (heap.push n, { space with objects := space.objects.assign mo heap.length }, heap.length)

end AddressSpace

-- Merging

namespace ExecutionState

variable {Checkers : Type}

/-- The comparison of two stacks. -/
def sameStacks : List StackFrame → List StackFrame → Bool
  | [], [] => true
  | itA :: restA, itB :: restB =>
    itA.caller = itB.caller && itA.kf = itB.kf && sameStacks restA restB
  | _, _ => false

/-- The comparison of a thread with the one of the same id in the other state. -/
def sameThread (b : ExecutionState Checkers) (tid : Int) (thr : ThreadState) : Bool :=
  match b.threads.find? tid with
  | none => false
  | some b_thr => thr.pc = b_thr.pc && sameStacks thr.stack b_thr.stack

/-- The objects whose states differ, or `none` if the states have different objects. -/
def mutated : Table MemoryObject Nat → Table MemoryObject Nat → Option (List MemoryObject)
  | [], [] => some []
  | (mo, ai) :: restA, (mo', bi) :: restB =>
    if mo ≠ mo' then none
    else (mutated restA restB).map fun rest => if ai ≠ bi then mo :: rest else rest
  | _, _ => none

def conjunction (suffix : List Expr) : Except Fault Expr :=
  suffix.foldlM AndExpr.create (.constant (.alloc 1 1))

section Parts

variable (setting : Setting) (inA : Expr)

def mergeLocals : List (Option Expr) → List (Option Expr)
    → Except Fault (List (Option Expr))
  | some av :: restA, some bv :: restB => do
    let merged ← SelectExpr.create setting.options inA av bv
    let rest ← mergeLocals restA restB
    .ok (some merged :: rest)
  | av :: restA, _ :: restB => do
    -- if one is null then by implication (we are at same pc) we cannot reuse this local
    let rest ← mergeLocals restA restB
    .ok (av :: rest)
  | locals, _ => .ok locals

theorem length_mergeLocals (localsA localsB : List (Option Expr))
    : Ensures (mergeLocals setting inA localsA localsB) fun merged =>
        merged.length = localsA.length := by
  fun_induction mergeLocals with
  | case1 av restA bv restB ih =>
    refine ensures_bind fun merged _ => ?_
    exact ih.bind fun rest same => .of_ok (congrArg (· + 1) same)
  | case2 av restA bv restB _ ih =>
    exact ih.bind fun rest same => .of_ok (congrArg (· + 1) same)
  | case3 => exact .of_ok rfl

def mergeFrame (af bf : StackFrame) : Except Fault StackFrame :=
  match returned : mergeLocals setting inA af.locals bf.locals with
  | .error fault => .error fault
  | .ok locals =>
    .ok { af with
      locals := locals
      sized := (length_mergeLocals setting inA _ _ locals returned).trans af.sized }

def mergeStack : List StackFrame → List StackFrame → Except Fault (List StackFrame)
  | af :: restA, bf :: restB => do
    let frame ← mergeFrame setting inA af bf
    let rest ← mergeStack restA restB
    .ok (frame :: rest)
  | stack, _ => .ok stack

def mergeThread (b : ExecutionState Checkers) (entry : Int × ThreadState)
    : Except Fault (Int × ThreadState) :=
  match b.threads.find? entry.1 with
  | none => .error .badPointer
  | some b_thr => do
    let stack ← mergeStack setting inA entry.2.stack b_thr.stack
    .ok (entry.1, { entry.2 with stack := stack })

/-- The loop over the bytes of an object, with the references of the two object states. -/
def mergeBytes (wos : ObjectState) (wref : Nat) (otherOS : ObjectState) (other : Nat)
    (size : UInt32)
    : Except Fault ObjectState :=
  (List.range size.toNat).foldlM (fun wos i => do
    let av ← wos.read8 setting.options wref i
    let bv ← otherOS.read8 setting.options other i
    let merged ← SelectExpr.create setting.options inA av bv
    wos.write setting.options setting.isLittleEndian setting.fuel i merged) wos

def mergeObject (b : ExecutionState Checkers) (memory : Heap ObjectState × AddressSpace)
    (mo : MemoryObject)
    : Except Fault (Heap ObjectState × AddressSpace) :=
  let (heap, addressSpace) := memory
  match addressSpace.findObject mo, b.addressSpace.findObject mo with
  | some ref, some other => do
    let os ← deref heap ref
    -- objects mutated but not writable in merging state
    if os.readOnly then .error .assertion
    else
      let otherOS ← deref heap other
      let (heap, addressSpace, wref) ← addressSpace.getWriteable heap mo ref
      let wos ← deref heap wref
      let wos ← mergeBytes setting inA wos wref otherOS other mo.size
      .ok (heap.write wref (some wos), addressSpace)
  | _, _ => .error .assertion

end Parts

/-- What is done once the comparisons have passed. -/
def mergeInto (setting : Setting) (heap : Heap ObjectState) (a b : ExecutionState Checkers)
    (mutated : List MemoryObject)
    : Except Fault (Heap ObjectState × ExecutionState Checkers) := do
  let aConstraints := setting.arrange a.constraints.constraints
  let bConstraints := setting.arrange b.constraints.constraints
  let commonConstraints := aConstraints.filter (· ∈ bConstraints)
  let aSuffix := aConstraints.filter (· ∉ commonConstraints)
  let bSuffix := bConstraints.filter (· ∉ commonConstraints)
  let inA ← conjunction aSuffix
  let inB ← conjunction bSuffix
  let threads ← a.threads.mapM (mergeThread setting inA b)
  let (heap, addressSpace) ← mutated.foldlM (mergeObject setting inA b) (heap, a.addressSpace)
  let constraints ← commonConstraints.foldlM
    (ConstraintManager.addConstraint setting.options setting.fuel) ⟨[]⟩
  let either ← OrExpr.create inA inB
  let constraints ← constraints.addConstraint setting.options setting.fuel either
  .ok (heap, { a with
    threads := threads
    addressSpace := addressSpace
    constraints := constraints })

def merge (setting : Setting) (heap : Heap ObjectState) (a b : ExecutionState Checkers)
    : Except Fault (Bool × Heap ObjectState × ExecutionState Checkers) :=
  if a.symbolics ≠ b.symbolics then .ok (false, heap, a)
  else if a.threads.length ≠ b.threads.length then .ok (false, heap, a)
  else if !a.threads.all (fun entry => b.sameThread entry.1 entry.2) then .ok (false, heap, a)
  else
    match mutated a.addressSpace.objects b.addressSpace.objects with
    | none => .ok (false, heap, a)
    | some mutated => do
      let (heap, a) ← mergeInto setting heap a b mutated
      .ok (true, heap, a)

-- What decides the answer

/-- Two calls of one function from one place. -/
def SameCall (af bf : StackFrame) : Prop :=
  af.caller = bf.caller ∧ af.kf = bf.kf

/-- What the merge compares: the symbolic objects, the ids of the threads with the place
each is at and its calls, and the objects that exist.
-/
structure Comparable (a b : ExecutionState Checkers) : Prop where
  symbolics : a.symbolics = b.symbolics
  threads : a.threads.length = b.threads.length
  places : ∀ entry ∈ a.threads, ∃ b_thr, b.threads.find? entry.1 = some b_thr
    ∧ entry.2.pc = b_thr.pc ∧ List.Forall₂ SameCall entry.2.stack b_thr.stack
  objects : a.addressSpace.objects.map Prod.fst = b.addressSpace.objects.map Prod.fst

/-- The components that are neither compared nor rebuilt. -/
structure Agree (a b : ExecutionState Checkers) : Prop where
  blockedThreads : a.blockedThreads = b.blockedThreads
  lastTid : a.lastTid = b.lastTid
  mutexes : a.mutexes = b.mutexes
  conds : a.conds = b.conds
  localCheckers : a.localCheckers = b.localCheckers

theorem sameStacks_iff (stackA stackB : List StackFrame)
    : sameStacks stackA stackB = true ↔ List.Forall₂ SameCall stackA stackB := by
  fun_induction sameStacks with
  | case1 => simp
  | case2 itA restA itB restB ih =>
    simp [ih, List.forall₂_cons, SameCall]
  | case3 stackA stackB notNil notCons =>
    refine ⟨fun no => absurd no (by decide), fun same => ?_⟩
    cases same with
    | nil => exact absurd rfl (notNil rfl)
    | cons _ _ => exact (notCons _ _ _ _ rfl rfl).elim

theorem sameThread_iff {b : ExecutionState Checkers} {tid : Int} {thr : ThreadState}
    : b.sameThread tid thr = true
      ↔ ∃ b_thr, b.threads.find? tid = some b_thr
        ∧ thr.pc = b_thr.pc ∧ List.Forall₂ SameCall thr.stack b_thr.stack := by
  unfold sameThread
  cases b.threads.find? tid with
  | none => simp
  | some b_thr => simp [sameStacks_iff]

theorem isSome_mutated_iff (objectsA objectsB : Table MemoryObject Nat)
    : (mutated objectsA objectsB).isSome
      ↔ objectsA.map Prod.fst = objectsB.map Prod.fst := by
  fun_induction mutated with
  | case1 => simp
  | case2 mo ai restA mo' bi restB differ => simp [differ]
  | case3 mo ai restA mo' bi restB same ih =>
    rw [Option.isSome_map, ih]
    simp [not_not.mp same]
  | case4 objectsA objectsB notNil notCons =>
    refine ⟨fun no => absurd no (by decide), fun same => ?_⟩
    cases objectsA with
    | nil => exact (notNil rfl (List.map_eq_nil_iff.mp same.symm)).elim
    | cons entryA restA =>
      cases objectsB with
      | nil => cases same
      | cons entryB restB => exact (notCons _ _ _ _ _ _ rfl rfl).elim

/-- The answer depends on what is compared only. -/
theorem merge_answer (setting : Setting) (heap : Heap ObjectState) (a b : ExecutionState Checkers)
    : Ensures (merge setting heap a b) fun result => result.1 = true ↔ Comparable a b := by
  have no {heap : Heap ObjectState} {a' : ExecutionState Checkers} (differ : ¬ Comparable a b)
      : Ensures (.ok (false, heap, a') : Except Fault _) fun result =>
          result.1 = true ↔ Comparable a b :=
    .of_ok (by simp [differ])
  unfold merge
  split
  next differ => exact no fun same => differ same.symbolics
  next symbolics =>
    split
    next differ => exact no fun same => differ same.threads
    next threads =>
      split
      next differ =>
        refine no fun same => ?_
        simp only [Bool.not_eq_true', List.all_eq_false, sameThread_iff] at differ
        obtain ⟨entry, member, elsewhere⟩ := differ
        exact elsewhere (same.places entry member)
      next places =>
        have objects := isSome_mutated_iff a.addressSpace.objects b.addressSpace.objects
        split
        next none =>
          rw [none] at objects
          exact no fun same => absurd (objects.mpr same.objects) (by decide)
        next mutated some =>
          rw [some] at objects
          refine ensures_bind fun memory _ => .of_ok (iff_of_true rfl ?_)
          simp only [Bool.not_eq_true', Bool.not_eq_false, List.all_eq_true, sameThread_iff]
            at places
          exact {
            symbolics := not_not.mp symbolics
            threads := not_not.mp threads
            places := places
            objects := objects.mp rfl }

-- The two sides of a branch

namespace Branch

def setting : Setting where
  options := { ConstArrayOpt := false, equal := fun l r => l = r, same_of_equal := by simp }
  isLittleEndian := true
  fuel := 20
  arrange exprs := exprs
  mem_arrange _ _ := Iff.rfl

/-- A byte of input. -/
def input : Expressions.Array where
  address := 1
  name := "input"
  size := 1
  constantValues := []
  sized := .inl rfl

/-- The condition of the branch: the byte is zero. -/
def condition : Expr :=
  .comparison .Eq (.constant ⟨8, 0#8⟩) (.read input .null (.constant ⟨32, 0#32⟩))

def negation : Expr :=
  .comparison .Eq (.constant ⟨1, 0#1⟩) condition

def object : MemoryObject where
  id := 1
  address := 4096
  size := 1

/-- The object of a side, which holds one byte. -/
def contents (owner : Nat) (byte : BitVec 8) : ObjectState where
  copyOnWriteOwner := owner
  object := object
  concreteStore := [byte]
  concreteMask := none
  flushMask := none
  knownSymbolics := none
  root := none
  head := .null
  size := 1
  readOnly := false

/-- The first side has copied the object when it wrote to it. -/
def heap : Heap ObjectState :=
  [some (contents 0 0#8), some (contents 1 5#8)]

def frame (register : Expr) : StackFrame where
  caller := 0
  kf := ⟨1, 1⟩
  locals := [some register]
  sized := rfl

/-- A side with its register, its cell of the heap and its path condition. -/
def side (key ref : Nat) (register path : Expr) : ExecutionState Unit where
  threads := [(0, { pc := 7, stack := [frame register] })]
  blockedThreads := ∅
  lastTid := 0
  mutexes _ := none
  conds _ := none
  localCheckers := ()
  constraints := ⟨[path]⟩
  addressSpace := ⟨key, [(object, ref)]⟩
  symbolics := [(object, input)]

def yes : ExecutionState Unit :=
  side 1 1 (.constant ⟨32, 1#32⟩) condition

def no : ExecutionState Unit :=
  side 2 0 (.constant ⟨32, 2#32⟩) negation

/-- The first side, holding a lock that it has taken since the branch. -/
def locked : ExecutionState Unit :=
  { yes with mutexes := fun mutex =>
      if mutex = 8192 then some { acquired := true, waiters := [], owner := 0 } else none }

theorem merge_yes_no : ∃ heap' m, merge setting heap yes no = .ok (true, heap', m) :=
  ⟨_, _, rfl⟩

theorem merge_locked_no : ∃ heap' m, merge setting heap locked no = .ok (true, heap', m) :=
  ⟨_, _, rfl⟩

theorem not_agree_locked_no : ¬ Agree locked no := by
  intro same
  have held := congrFun same.mutexes 8192
  simp [locked, no, side] at held

end Branch

/-- Two states whose other components differ are merged as soon as they are comparable. -/
theorem agree_of_merge_iff {setting : Setting} {heap heap' : Heap ObjectState}
    {a b m : ExecutionState Checkers} {answer : Bool}
    (returned : merge setting heap a b = .ok (answer, heap', m))
    : (answer = true → Agree a b) ↔ (Comparable a b → Agree a b) := by
  have decided : answer = true ↔ Comparable a b := merge_answer setting heap a b _ returned
  rw [decided]

/-- A lock that only one side has taken does not keep the sides from being merged. -/
theorem merge_locked_not_agree
    : ∃ heap' m, merge Branch.setting Branch.heap Branch.locked Branch.no = .ok (true, heap', m)
      ∧ ¬ Agree Branch.locked Branch.no := by
  obtain ⟨heap', m, returned⟩ := Branch.merge_locked_no
  exact ⟨heap', m, returned, Branch.not_agree_locked_no⟩

theorem agree_of_merge_iff_locked
    : ∃ heap' m, merge Branch.setting Branch.heap Branch.locked Branch.no = .ok (true, heap', m)
      ∧ ((true = true → Agree Branch.locked Branch.no)
        ↔ (Comparable Branch.locked Branch.no → Agree Branch.locked Branch.no)) := by
  obtain ⟨heap', m, returned⟩ := Branch.merge_locked_no
  exact ⟨heap', m, returned, agree_of_merge_iff returned⟩

end ExecutionState

end Woodpecker.Execution
