import Mathlib.Algebra.Group.Nat.Defs
import Woodpecker.Library.Faults

/-! What a checker sees of the program: calls, returns, and the answers of memory and solver.

An event carries the expressions passed and, when the executor calls out to native code, the
array of concrete words. Everything a checker asks the executor is an answer of `Memory`, so
a statement about all memories covers every program, address space and solver.
-/

namespace Woodpecker.Checkers

/-- A bit mask: the last bit for an error, the next for an important event, then the parts
of the call the checker needs.
-/
abbrev Result := UInt64

def OK : Result := 0x0
def ERROR : Result := 0x1
def IMPORTANT : Result := 0x2
def NEED_RET : Result := 0x4
def NEED_ARG0 : Result := 0x8
def NEED_ARG1 : Result := 0x10

/-- `1 << (index + NEED_ARG_BEGIN)` -/
def needArg (index : Nat) : Result :=
  UInt64.ofNat (2 ^ (index + 3))

/-- The test for the error bit. -/
def IsError (result : Result) : Prop :=
  result &&& ERROR ≠ 0

instance (result : Result) : Decidable (IsError result) :=
  inferInstanceAs (Decidable (_ ≠ _))

theorem isError_or_iff {first second : Result}
    : IsError (first ||| second) ↔ IsError first ∨ IsError second := by
  have distributed : (first ||| second) &&& ERROR = first &&& ERROR ||| second &&& ERROR := by
    apply UInt64.toBitVec_inj.mp
    simp only [UInt64.toBitVec_and, UInt64.toBitVec_or, BitVec.and_or_distrib_right]
  rw [IsError, distributed, Ne, UInt64.or_eq_zero_iff, IsError, IsError]
  exact Classical.not_and_iff_not_or_not

/-- The bit of an argument that is asked for is not the error bit. -/
theorem isError_or_needArg {index : Nat} (narrow : index ≤ 3)
    : IsError (ERROR ||| needArg index) ∧ ¬ IsError (IMPORTANT ||| needArg index) := by
  obtain rfl | rfl | rfl | rfl : index = 0 ∨ index = 1 ∨ index = 2 ∨ index = 3 := by omega
  all_goals decide

inductive Expr where
  | constant (value : UInt64)
  | symbolic (name : Nat)
deriving DecidableEq, Repr

/-- A `ref<Expr>`: expressions are compared by content, but some tables are keyed by the
address of the node.
-/
structure ExprRef where
  node : Nat
  expr : Expr
deriving DecidableEq, Repr

/-- `(uint64_t)-1` -/
def minusOne : UInt64 :=
  0xFFFFFFFFFFFFFFFF

def getIntFromExp (ref : ExprRef) : UInt64 :=
  match ref.expr with
  | .constant value => value
  | .symbolic _ => minusOne

/-- What the address space knows of an object: its name, and the descriptor stored in it
if it is read as a stream and that field is constant.
-/
structure MemoryObject where
  name : String
  filedes : Option Int
deriving DecidableEq, Repr

/-- The answers a checker gets from the executor. `string` and `fileno` read native memory,
`resolveOne`, `charPtr` and `pointee` the address space; `mustBeEqual` is the solver, which
may fail, and `precedes` the order in which sets of expressions are iterated.
-/
structure Memory where
  string : UInt64 → String
  fileno : UInt64 → Int
  resolveOne : UInt64 → Option MemoryObject
  charPtr : ExprRef → String
  pointee : ExprRef → UInt64
  mustBeEqual : Expr → Expr → Option Bool
  precedes : Expr → Expr → Bool

/-- A memory in which nothing is found. -/
def Memory.silent : Memory where
  string := fun _ => ""
  fileno := fun _ => 0
  resolveOne := fun _ => none
  charPtr := fun _ => ""
  pointee := fun _ => 0
  mustBeEqual := fun _ _ => none
  precedes := fun _ _ => false

/-- The allocation site of a record, as `toString(false)` renders it. -/
structure AllocInfo where
  text : String
deriving DecidableEq, Repr

namespace AllocInfo

/-- The hash of a text, over its bytes before the first zero; `char` is signed. -/
def hash (text : String) : UInt64 :=
  (text.toUTF8.toList.takeWhile (· ≠ 0)).foldl
    (fun hash byte => hash * 131 + byte.toInt8.toInt64.toUInt64) 0

/-- The place of a path end: the call stack of the last thread, if there is one. -/
def gatherPlaceInfo (callStack : Option String) : String × UInt64 :=
  let place_info := callStack.getD ""
  (place_info, hash place_info)

/-- The texts of a multimap that have one hash are searched; a text that is not found is
entered.
-/
def isReported (record : List (UInt64 × String)) (place_info : String) (place_hash : UInt64)
    (case_info : String)
    : List (UInt64 × String) × Bool :=
  let case_hash := place_hash + hash case_info
  let global_info := place_info ++ case_info
  if (case_hash, global_info) ∈ record then (record, true)
  else (record ++ [(case_hash, global_info)], false)

end AllocInfo

/-- The arguments of `onCall`. In `args`, word 0 is the value returned by the native
function and word 2 its first argument.
-/
structure Call where
  funcname : String
  arguments : Nat → ExprRef
  args : Option (Nat → UInt64)
  site : AllocInfo
  thread : Int

/-- The arguments of `onRet`. The target of the call may not be known; the operand of the
call with number `n` is `getCallingArgument(caller, n)`, counted from 1.
-/
structure Return where
  funcname : Option String
  getCallingArgument : Nat → ExprRef
  result : ExprRef
  site : AllocInfo
  thread : Int

inductive FileState where
  | closed
  | clean
  | accessed
  | libBuffered
  | osBuffered
deriving DecidableEq, Repr

/-- The record of a file. The allocation site is set by one checker only. -/
structure FileObject where
  filename : String
  fp : UInt64
  fd : UInt64
  state : FileState
  alloc_info : Option AllocInfo
deriving DecidableEq, Repr

/-- The constructor; a record starts closed. -/
def FileObject.create (filename : String) (fp fd : UInt64) : FileObject :=
  { filename, fp, fd, state := .closed, alloc_info := none }

def FileObject.setState (file : FileObject) (state : FileState) : FileObject :=
  { file with state }

end Woodpecker.Checkers
