import Mathlib.Algebra.Group.Nat.Defs
import Mathlib.Data.Finset.Basic
import Mathlib.Data.List.Sort
import Mathlib.Logic.Function.Basic
import Woodpecker.Library.Faults

/-! The pthread emulation: argument decoding, mutexes, condition variables, thread creation
and the round-robin choice of the next thread.

A thread is known here by its id. Program counters, stacks and memory take no part in the
emulation and are left out. Thread ids are unbounded integers.
-/

namespace Woodpecker.Pthread

open Library

structure MutexInfo where
  acquired : Bool
  waiters : List Int
  owner : Int
deriving DecidableEq, Repr

/-- The constructor sets `acquired` only, so `owner` starts as whatever was in memory. -/
def MutexInfo.create (uninit : Int) : MutexInfo :=
  { acquired := false, waiters := [], owner := uninit }

structure CondInfo where
  waiters : List Int
  binded : UInt64
deriving DecidableEq, Repr

/-- `CondInfo()` has no constructor of its own and is value-initialised. -/
def CondInfo.create : CondInfo :=
  { waiters := [], binded := 0 }

/-- The part of an execution state the emulation uses. The keys of the `threads` map are
listed in the order in which the map is iterated.
-/
structure ExecutionState where
  threads : List Int
  blockedThreads : Finset Int
  lastTid : Int
  maxThreadNumber : Int
  mutexes : UInt64 → Option MutexInfo
  conds : UInt64 → Option CondInfo

/-- What the emulated functions bind to the result register: zero or an `errno` value. -/
inductive ReturnCode where
  | success
  | eperm
  | ebusy
  | einval
  | edeadlk
deriving DecidableEq, Repr

namespace ExecutionState

def setMutex (state : ExecutionState) (mutex : UInt64) (info : Option MutexInfo)
    : ExecutionState :=
  { state with mutexes := Function.update state.mutexes mutex info }

def setCond (state : ExecutionState) (cond : UInt64) (info : Option CondInfo)
    : ExecutionState :=
  { state with conds := Function.update state.conds cond info }

/-- `state.mutexes[mutex]` on a map: an absent key is entered with a new value. -/
def mutexEntry (state : ExecutionState) (uninit : Int) (mutex : UInt64) : MutexInfo :=
  (state.mutexes mutex).getD (MutexInfo.create uninit)

end ExecutionState

/-- An argument after `toUnique`: a constant of some bit width, or still symbolic. -/
inductive Argument where
  | constant (width value : Nat)
  | symbolic
deriving DecidableEq, Repr

/-- A constant pointer on a 64-bit target. -/
def Argument.pointer (address : UInt64) : Argument :=
  .constant 64 address.toNat

/-- The words `ConstantExpr::toMemory` writes; only `fp80` fills two. -/
def toMemory (width value : Nat) : Except Fault (List UInt64) :=
  if width ∈ [1, 8, 16, 32, 64] then
    .ok [UInt64.ofNat (value % 2 ^ width)]
  else if width = 80 then
    .ok [UInt64.ofNat (value % 2 ^ 64), UInt64.ofNat (value / 2 ^ 64 % 2 ^ 64)]
  else
    .error .assertion

/-- The words of all arguments, `none` as soon as one of them is symbolic. -/
def argumentWords : List Argument → Except Fault (Option (List UInt64))
  | [] => .ok (some [])
  | .symbolic :: _ => .ok none
  | .constant width value :: rest => do
    let head ← toMemory width value
    let tail ← argumentWords rest
    .ok (tail.map (head ++ ·))

/-- Two words are reserved for each argument and for the result, but an argument only
moves `wordIndex` on by the words it fills. `none` is the null pointer.
-/
def getRealArgs (arguments : List Argument) : Except Fault (Option (List UInt64)) := do
  let words ← argumentWords arguments
  .ok (words.map fun filled =>
    [0, 0] ++ filled ++ List.replicate (2 * arguments.length - filled.length) 0)

/-- `args[index]`, a fault through the null pointer or past the end. -/
def readWord (args : Option (List UInt64)) (index : Nat) : Except Fault UInt64 :=
  match args.bind (·[index]?) with
  | some word => .ok word
  | none => .error .badPointer

def getMutexArg (arguments : List Argument) : Except Fault UInt64 := do
  let args ← getRealArgs arguments
  readWord args 2

def getCondArg (arguments : List Argument) : Except Fault UInt64 := do
  let args ← getRealArgs arguments
  readWord args 2

def getCondArgWithMutex (arguments : List Argument) : Except Fault (UInt64 × UInt64) := do
  let args ← getRealArgs arguments
  let cond ← readWord args 2
  let mutex ← readWord args 4
  .ok (cond, mutex)

-- Mutexes

-- The handlers stand here with their argument decoded; `handle` below puts the two together.

/-- `m_info` is a reference to the entry at `mutex`, so every change is stored there. -/
def doMutexLock (state : ExecutionState) (tid : Int) (mutex : UInt64) (m_info : MutexInfo)
    : ExecutionState :=
  if m_info.acquired then
    { state.setMutex mutex (some { m_info with waiters := m_info.waiters ++ [tid] }) with
      blockedThreads := insert tid state.blockedThreads }
  else
    state.setMutex mutex (some { m_info with acquired := true, owner := tid })

def doMutexUnlock (state : ExecutionState) (mutex : UInt64) (m_info : MutexInfo)
    : ExecutionState :=
  match m_info.waiters with
  | tid :: waiters =>
    { state.setMutex mutex (some { m_info with waiters := waiters, owner := tid }) with
      blockedThreads := state.blockedThreads.erase tid }
  | [] => state.setMutex mutex (some { m_info with acquired := false })

def handlePthreadMutexInit (uninit : Int) (state : ExecutionState) (mutex : UInt64)
    : ExecutionState × ReturnCode :=
  match state.mutexes mutex with
  | some _ => (state, .ebusy)
  | none => (state.setMutex mutex (some (MutexInfo.create uninit)), .success)

def handlePthreadMutexDestroy (state : ExecutionState) (mutex : UInt64)
    : ExecutionState × ReturnCode :=
  match state.mutexes mutex with
  | some m_info =>
    if m_info.acquired then (state, .ebusy) else (state.setMutex mutex none, .success)
  | none => (state, .einval)

def handlePthreadMutexLock (state : ExecutionState) (tid : Int) (mutex : UInt64)
    : ExecutionState × ReturnCode :=
  match state.mutexes mutex with
  | some m_info =>
    if m_info.acquired ∧ m_info.owner = tid then
      (state, .edeadlk)
    else
      (doMutexLock state tid mutex m_info, .success)
  | none => (state, .einval)

def handlePthreadMutexUnlock (state : ExecutionState) (tid : Int) (mutex : UInt64)
    : ExecutionState × ReturnCode :=
  match state.mutexes mutex with
  | some m_info =>
    if m_info.acquired then
      if m_info.owner ≠ tid then
        (state, .eperm)
      else
        (doMutexUnlock state mutex m_info, .success)
    else
      (state, .eperm)
  | none => (state, .einval)

def handlePthreadMutexTrylock (state : ExecutionState) (tid : Int) (mutex : UInt64)
    : ExecutionState × ReturnCode :=
  match state.mutexes mutex with
  | some m_info =>
    if m_info.acquired then
      (state, .ebusy)
    else
      (doMutexLock state tid mutex m_info, .success)
  | none => (state, .einval)

-- Condition variables

def handlePthreadCondInit (state : ExecutionState) (cond : UInt64)
    : ExecutionState × ReturnCode :=
  match state.conds cond with
  | some _ => (state, .ebusy)
  | none => (state.setCond cond (some CondInfo.create), .success)

def handlePthreadCondDestroy (state : ExecutionState) (cond : UInt64)
    : ExecutionState × ReturnCode :=
  match state.conds cond with
  | some ci =>
    if ci.waiters ≠ [] then (state, .ebusy) else (state.setCond cond none, .success)
  | none => (state, .einval)

/-- The value of the C expression `!mi.owner`. -/
def negated (owner : Int) : Int :=
  if owner = 0 then 1 else 0

/-- The owner test is `!mi.owner == thr.id`, in which the negation binds first. The caller
is queued on the condition variable and is not entered in `blockedThreads`.
-/
def handlePthreadCondWait (state : ExecutionState) (tid : Int) (cond mutex : UInt64)
    : ExecutionState × ReturnCode :=
  match state.conds cond, state.mutexes mutex with
  | some ci, some mi =>
    if mi.acquired = false ∨ negated mi.owner = tid then
      (state, .eperm)
    else if ci.binded ≠ 0 ∧ ci.binded ≠ mutex then
      (state, .einval)
    else
      ((doMutexUnlock state mutex mi).setCond cond
        (some { waiters := ci.waiters ++ [tid], binded := mutex }), .success)
  | _, _ => (state, .einval)

/-- One waiter leaves the queue and asks for the mutex bound to the condition variable. -/
def wakeWaiter (uninit : Int) (state : ExecutionState) (cond : UInt64) (ci : CondInfo)
    (tid : Int) (waiters : List Int)
    : ExecutionState :=
  doMutexLock (state.setCond cond (some { ci with waiters := waiters })) tid ci.binded
    (state.mutexEntry uninit ci.binded)

def handlePthreadCondSignal (uninit : Int) (state : ExecutionState) (cond : UInt64)
    : ExecutionState × ReturnCode :=
  match state.conds cond with
  | some ci =>
    match ci.waiters with
    | tid :: waiters => (wakeWaiter uninit state cond ci tid waiters, .success)
    | [] => (state, .success)
  | none => (state, .einval)

/-- The loop of `pthread_cond_broadcast` over the queue that is left. -/
def wakeAll (uninit : Int) (cond : UInt64) (ci : CondInfo)
    : List Int → ExecutionState → ExecutionState
  | [], state => state
  | tid :: waiters, state =>
    wakeAll uninit cond ci waiters (wakeWaiter uninit state cond ci tid waiters)

def handlePthreadCondBroadcast (uninit : Int) (state : ExecutionState) (cond : UInt64)
    : ExecutionState × ReturnCode :=
  match state.conds cond with
  | some ci => (wakeAll uninit cond ci ci.waiters state, .success)
  | none => (state, .einval)

/-- The mutex and condition functions in the table of special functions. -/
inductive PthreadFunction where
  | mutexInit
  | mutexDestroy
  | mutexLock
  | mutexUnlock
  | mutexTrylock
  | condInit
  | condDestroy
  | condWait
  | condSignal
  | condBroadcast
deriving DecidableEq, Repr

def PthreadFunction.name : PthreadFunction → String
  | .mutexInit => "pthread_mutex_init"
  | .mutexDestroy => "pthread_mutex_destroy"
  | .mutexLock => "pthread_mutex_lock"
  | .mutexUnlock => "pthread_mutex_unlock"
  | .mutexTrylock => "pthread_mutex_trylock"
  | .condInit => "pthread_cond_init"
  | .condDestroy => "pthread_cond_destroy"
  | .condWait => "pthread_cond_wait"
  | .condSignal => "pthread_cond_signal"
  | .condBroadcast => "pthread_cond_broadcast"

/-- The handler of a function: it decodes the arguments and then acts on the state.
`uninit` is the content of the memory a new `MutexInfo` takes.
-/
def handle (uninit : Int) (state : ExecutionState) (tid : Int) (function : PthreadFunction)
    (arguments : List Argument)
    : Except Fault (ExecutionState × ReturnCode) :=
  match function with
  | .mutexInit => do .ok (handlePthreadMutexInit uninit state (← getMutexArg arguments))
  | .mutexDestroy => do .ok (handlePthreadMutexDestroy state (← getMutexArg arguments))
  | .mutexLock => do .ok (handlePthreadMutexLock state tid (← getMutexArg arguments))
  | .mutexUnlock => do .ok (handlePthreadMutexUnlock state tid (← getMutexArg arguments))
  | .mutexTrylock => do .ok (handlePthreadMutexTrylock state tid (← getMutexArg arguments))
  | .condInit => do .ok (handlePthreadCondInit state (← getCondArg arguments))
  | .condDestroy => do .ok (handlePthreadCondDestroy state (← getCondArg arguments))
  | .condWait => do
    let (cond, mutex) ← getCondArgWithMutex arguments
    .ok (handlePthreadCondWait state tid cond mutex)
  | .condSignal => do .ok (handlePthreadCondSignal uninit state (← getCondArg arguments))
  | .condBroadcast => do
    .ok (handlePthreadCondBroadcast uninit state (← getCondArg arguments))

/-- `threads.insert` leaves a key that is already there alone. -/
def insertThread (threads : List Int) (tid : Int) : List Int :=
  if tid ∈ threads then threads else threads.orderedInsert (· ≤ ·) tid

def createThread (state : ExecutionState) : ExecutionState :=
  let tid := state.maxThreadNumber + 1
  { state with
    maxThreadNumber := tid
    threads := insertThread state.threads tid
    lastTid := if state.lastTid < 0 then tid else state.lastTid }

/-- A new program: one thread, no mutex and no condition variable. -/
def ExecutionState.fresh : ExecutionState :=
  createThread
    { threads := []
      blockedThreads := ∅
      lastTid := -1
      maxThreadNumber := -1
      mutexes := fun _ => none
      conds := fun _ => none }

/-- The start routine is given by its number of parameters, `none` when the pointer to it
is not constant. Nothing is bound to the result register.
-/
def handlePthreadCreate (state : ExecutionState) (argSize : Option Nat)
    : Except Fault ExecutionState :=
  match argSize with
  | none => .error .badPointer
  | some 1 => .ok (createThread state)
  | some _ => .error .assertion

def getThread (state : ExecutionState) (tid : Int) : Option Int :=
  if tid ∈ state.threads then some tid else none

/-- An instruction of the program, as far as the emulation is concerned. -/
inductive Instruction where
  | pthreadCall (function : PthreadFunction) (arguments : List Argument)
  | pthreadCreate (argSize : Option Nat)
  | other
deriving DecidableEq, Repr

def executeInstruction (uninit : Int) (state : ExecutionState) (tid : Int)
    : Instruction → Except Fault (ExecutionState × Option ReturnCode)
  | .pthreadCall function arguments => do
    let (after, code) ← handle uninit state tid function arguments
    .ok (after, some code)
  | .pthreadCreate argSize => do
    let after ← handlePthreadCreate state argSize
    .ok (after, none)
  | .other => .ok (state, none)

/-- The two candidates of the round-robin loop; `-1` stands for none. -/
structure Candidates where
  min_tid : Int
  next_tid : Int

def considerThread (state : ExecutionState) (found : Candidates) (tid : Int)
    : Candidates :=
  if tid ∈ state.blockedThreads then
    found
  else
    { next_tid :=
        if tid > state.lastTid ∧ (found.next_tid = -1 ∨ found.next_tid > tid) then tid
        else found.next_tid
      min_tid :=
        if found.min_tid = -1 ∨ found.min_tid > tid then tid else found.min_tid }

/-- The thread the loop of `runNextInstruction` settles on. -/
def nextTid (state : ExecutionState) : Int :=
  let found := state.threads.foldl (considerThread state) { min_tid := -1, next_tid := -1 }
  if found.next_tid = -1 then found.min_tid else found.next_tid

def runNextInstruction (uninit : Int) (state : ExecutionState) (instruction : Instruction)
    : Except Fault (ExecutionState × Option ReturnCode) :=
  match getThread state (nextTid state) with
  | none => .error .badPointer
  | some tid => do
    let (after, code) ← executeInstruction uninit state tid instruction
    .ok ({ after with lastTid := tid }, code)

end Woodpecker.Pthread
