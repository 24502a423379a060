import Woodpecker.Library.LockQueues
import Woodpecker.Pthread.Model

/-! What one emulated mutex call can do, and what holds after any interleaving of them.

The mutex table is read as a table of locks with queues. Every successful lock or unlock is
a step of that table and every other mutex call leaves it alone, so the facts about such
tables carry over; the separate set of blocked threads agrees with the queues throughout.
-/

namespace Woodpecker.Pthread

open Library

@[simp]
theorem toMemory_pointer (address : UInt64) : toMemory 64 address.toNat = .ok [address] := by
  simp [toMemory]

namespace ExecutionState

/-- The queue of a mutex, empty for one that is not initialised. -/
def waitersAt (state : ExecutionState) (mutex : UInt64) : List Int :=
  (state.mutexes mutex).elim [] MutexInfo.waiters

/-- The `owner` field counts only while the mutex is acquired. -/
def ownerAt (state : ExecutionState) (mutex : UInt64) : Option Int :=
  (state.mutexes mutex).bind fun info => if info.acquired then some info.owner else none

def lockTable (state : ExecutionState) : LockTable UInt64 Int where
  owner := state.ownerAt
  queue := state.waitersAt

variable {state : ExecutionState} {mutex : UInt64} {info : MutexInfo}

theorem waitersAt_eq (found : state.mutexes mutex = some info)
    : state.waitersAt mutex = info.waiters := by
  simp [waitersAt, found]

theorem ownerAt_eq (found : state.mutexes mutex = some info)
    : state.ownerAt mutex = if info.acquired then some info.owner else none := by
  simp [ownerAt, found]

theorem waitersAt_setMutex (state : ExecutionState) (mutex : UInt64)
    (info : Option MutexInfo)
    : (state.setMutex mutex info).waitersAt
      = Function.update state.waitersAt mutex (info.elim [] MutexInfo.waiters) := by
  funext other
  rcases eq_or_ne other mutex with rfl | elsewhere
  · simp [waitersAt, setMutex]
  · simp [waitersAt, setMutex, elsewhere]

theorem ownerAt_setMutex (state : ExecutionState) (mutex : UInt64)
    (info : Option MutexInfo)
    : (state.setMutex mutex info).ownerAt
      = Function.update state.ownerAt mutex
          (info.bind fun info => if info.acquired then some info.owner else none) := by
  funext other
  rcases eq_or_ne other mutex with rfl | elsewhere
  · simp [ownerAt, setMutex]
  · simp [ownerAt, setMutex, elsewhere]

/-- The table of a state with one entry replaced. -/
theorem lockTable_setMutex (state : ExecutionState) (mutex : UInt64)
    (info : Option MutexInfo)
    : (state.setMutex mutex info).lockTable
      = { owner := Function.update state.ownerAt mutex
            (info.bind fun info => if info.acquired then some info.owner else none)
          queue := Function.update state.waitersAt mutex
            (info.elim [] MutexInfo.waiters) } := by
  simp only [lockTable, waitersAt_setMutex, ownerAt_setMutex]

end ExecutionState

def PthreadFunction.IsMutex : PthreadFunction → Prop
  | .mutexInit | .mutexDestroy | .mutexLock | .mutexUnlock | .mutexTrylock => True
  | .condInit | .condDestroy | .condWait | .condSignal | .condBroadcast => False

/-- Everything a mutex function called by `tid` on `mutex` can do to the state `before`. -/
inductive MutexEffect (tid : Int) (mutex : UInt64) (before : ExecutionState)
    : PthreadFunction → ExecutionState → ReturnCode → Prop
  | refused {function : PthreadFunction} {code : ReturnCode} (failed : code ≠ .success)
    (notOwner : function = .mutexUnlock → before.ownerAt mutex ≠ some tid)
    (uncontended : function = .mutexLock →
      ∀ owner, before.ownerAt mutex = some owner → owner = tid)
    : MutexEffect tid mutex before function before code
  | created (uninit : Int) (absent : before.mutexes mutex = none)
    : MutexEffect tid mutex before .mutexInit
        (before.setMutex mutex (some (MutexInfo.create uninit))) .success
  | destroyed {info : MutexInfo} (found : before.mutexes mutex = some info)
    (free : info.acquired = false)
    : MutexEffect tid mutex before .mutexDestroy (before.setMutex mutex none) .success
  | taken {function : PthreadFunction} {info : MutexInfo}
    (locks : function = .mutexLock ∨ function = .mutexTrylock)
    (found : before.mutexes mutex = some info) (free : info.acquired = false)
    : MutexEffect tid mutex before function
        (before.setMutex mutex (some { info with acquired := true, owner := tid })) .success
  | queued {info : MutexInfo} (found : before.mutexes mutex = some info)
    (held : info.acquired = true) (other : info.owner ≠ tid)
    : MutexEffect tid mutex before .mutexLock
        { before.setMutex mutex (some { info with waiters := info.waiters ++ [tid] }) with
          blockedThreads := insert tid before.blockedThreads } .success
  | handed {info : MutexInfo} {first : Int} {rest : List Int}
    (found : before.mutexes mutex = some info) (held : info.acquired = true)
    (own : info.owner = tid) (waiting : info.waiters = first :: rest)
    : MutexEffect tid mutex before .mutexUnlock
        { before.setMutex mutex (some { info with waiters := rest, owner := first }) with
          blockedThreads := before.blockedThreads.erase first } .success
  | freed {info : MutexInfo} (found : before.mutexes mutex = some info)
    (held : info.acquired = true) (own : info.owner = tid) (idle : info.waiters = [])
    : MutexEffect tid mutex before .mutexUnlock
        (before.setMutex mutex (some { info with acquired := false })) .success

section Effects

variable {uninit tid : Int} {state after : ExecutionState} {mutex : UInt64}
  {code : ReturnCode}

theorem handlePthreadMutexInit_effect
    (returned : handlePthreadMutexInit uninit state mutex = (after, code))
    : MutexEffect tid mutex state .mutexInit after code := by
  unfold handlePthreadMutexInit at returned
  split at returned <;> cases returned
  · exact .refused (by simp) (by simp) (by simp)
  · exact .created uninit ‹_›

theorem handlePthreadMutexDestroy_effect
    (returned : handlePthreadMutexDestroy state mutex = (after, code))
    : MutexEffect tid mutex state .mutexDestroy after code := by
  unfold handlePthreadMutexDestroy at returned
  split at returned
  · rename_i info found
    split at returned <;> rename_i held <;> cases returned
    · exact .refused (by simp) (by simp) (by simp)
    · exact .destroyed found (by simpa using held)
  · cases returned
    exact .refused (by simp) (by simp) (by simp)

theorem handlePthreadMutexLock_effect
    (returned : handlePthreadMutexLock state tid mutex = (after, code))
    : MutexEffect tid mutex state .mutexLock after code := by
  unfold handlePthreadMutexLock doMutexLock at returned
  split at returned
  · rename_i info found
    split at returned
    · rename_i own
      cases returned
      exact .refused (by simp) (by simp) (by simp [ExecutionState.ownerAt_eq found, own])
    · rename_i contended
      split at returned <;> rename_i held <;> cases returned
      · exact .queued found held (fun own => contended ⟨held, own⟩)
      · exact .taken (.inl rfl) found (by simpa using held)
  · rename_i absent
    cases returned
    exact .refused (by simp) (by simp) (by simp [ExecutionState.ownerAt, absent])

theorem handlePthreadMutexTrylock_effect
    (returned : handlePthreadMutexTrylock state tid mutex = (after, code))
    : MutexEffect tid mutex state .mutexTrylock after code := by
  unfold handlePthreadMutexTrylock at returned
  split at returned
  · rename_i info found
    split at returned <;> rename_i held <;> cases returned
    · exact .refused (by simp) (by simp) (by simp)
    · rw [doMutexLock, if_neg held]
      exact .taken (.inr rfl) found (by simpa using held)
  · cases returned
    exact .refused (by simp) (by simp) (by simp)

theorem handlePthreadMutexUnlock_effect
    (returned : handlePthreadMutexUnlock state tid mutex = (after, code))
    : MutexEffect tid mutex state .mutexUnlock after code := by
  unfold handlePthreadMutexUnlock doMutexUnlock at returned
  split at returned
  · rename_i info found
    have owner := ExecutionState.ownerAt_eq found
    split at returned <;> rename_i held
    · split at returned <;> rename_i own
      · cases returned
        exact .refused (by simp) (by simp [owner, held, own]) (by simp)
      · rw [not_not] at own
        split at returned <;> rename_i waiting <;>
          cases returned
        · exact .handed found held own waiting
        · exact .freed found held own waiting
    · cases returned
      exact .refused (by simp) (by simp [owner, held]) (by simp)
  · rename_i absent
    cases returned
    exact .refused (by simp) (by simp [ExecutionState.ownerAt, absent]) (by simp)

/-- A mutex function that returns has decoded one mutex and done one of the effects to it,
by cases on the function.
-/
theorem handle_mutex {function : PthreadFunction} {arguments : List Argument}
    (isMutex : function.IsMutex)
    (returned : handle uninit state tid function arguments = .ok (after, code))
    : ∃ mutex, getMutexArg arguments = .ok mutex
      ∧ MutexEffect tid mutex state function after code := by
  rcases decoded : getMutexArg arguments with fault | mutex
  · cases function <;> simp_all [handle, PthreadFunction.IsMutex]
  refine ⟨mutex, rfl, ?_⟩
  cases function <;> simp only [PthreadFunction.IsMutex] at isMutex <;>
    simp [handle, decoded, ok_bind] at returned
  case mutexInit => exact handlePthreadMutexInit_effect returned
  case mutexDestroy => exact handlePthreadMutexDestroy_effect returned
  case mutexLock => exact handlePthreadMutexLock_effect returned
  case mutexUnlock => exact handlePthreadMutexUnlock_effect returned
  case mutexTrylock => exact handlePthreadMutexTrylock_effect returned

end Effects

/-- One executed instruction: who ran it, and what it bound to its result register. -/
structure Event where
  tid : Int
  instruction : Instruction
  code : Option ReturnCode
deriving DecidableEq, Repr

/-- A thread that is not blocked executes an instruction. -/
def ThreadStep (state : ExecutionState) (event : Event) (after : ExecutionState) : Prop :=
  event.tid ∉ state.blockedThreads
  ∧ ∃ uninit, executeInstruction uninit state event.tid event.instruction
      = .ok (after, event.code)

/-- The instruction is a call of one of the mutex functions. -/
def Instruction.IsMutexCall (instruction : Instruction) : Prop :=
  ∃ function arguments, instruction = .pthreadCall function arguments ∧ function.IsMutex

def MutexStep (state : ExecutionState) (event : Event) (after : ExecutionState) : Prop :=
  event.instruction.IsMutexCall ∧ ThreadStep state event after

/-- The event is a call of `function` on `mutex`. -/
def Event.Calls (event : Event) (function : PthreadFunction) (mutex : UInt64) : Prop :=
  ∃ arguments, event.instruction = .pthreadCall function arguments
    ∧ getMutexArg arguments = .ok mutex

/-- What the caller learns about a lock: a lock or trylock that returned zero asked for it,
an unlock that returned zero released it.
-/
def Event.lockAction (event : Event) : Option (LockAction UInt64 Int) :=
  match event.instruction, event.code with
  | .pthreadCall .mutexLock arguments, some .success
  | .pthreadCall .mutexTrylock arguments, some .success =>
    (getMutexArg arguments).toOption.map (.ask event.tid)
  | .pthreadCall .mutexUnlock arguments, some .success =>
    (getMutexArg arguments).toOption.map (.release event.tid)
  | _, _ => none

/-- The successful requests and releases of a history, in order. -/
def lockActions (history : List Event) : List (LockAction UInt64 Int) :=
  history.filterMap Event.lockAction

variable {event : Event}

theorem executeInstruction_create {uninit tid : Int} {argSize : Option Nat}
    {state after : ExecutionState} {code : Option ReturnCode}
    (executed : executeInstruction uninit state tid (.pthreadCreate argSize) = .ok (after, code))
    : after = createThread state := by
  obtain ⟨created, returned, result⟩ := bind_eq_ok.mp executed
  cases result
  unfold handlePthreadCreate at returned
  split at returned <;> cases returned
  rfl

/-- A mutex step is one effect of the called function. -/
theorem MutexStep.effect {state after : ExecutionState} (step : MutexStep state event after)
    : ∃ function mutex code, event.Calls function mutex ∧ event.code = some code
      ∧ MutexEffect event.tid mutex state function after code := by
  obtain ⟨⟨function, arguments, called, isMutex⟩, -, uninit, executed⟩ := step
  rw [called, executeInstruction] at executed
  obtain ⟨⟨reached, code⟩, returned, result⟩ := bind_eq_ok.mp executed
  obtain ⟨rfl, bound⟩ := Prod.mk.inj (Except.ok.inj result)
  obtain ⟨mutex, decoded, effect⟩ := handle_mutex isMutex returned
  exact ⟨function, mutex, code, ⟨arguments, called, decoded⟩, bound.symm, effect⟩

variable {function : PthreadFunction} {mutex : UInt64}

/-- The function and the mutex of a call are determined by the event. -/
theorem Event.Calls.unique {other : PthreadFunction} {mutex2 : UInt64}
    (first : event.Calls function mutex) (second : event.Calls other mutex2)
    : function = other ∧ mutex = mutex2 := by
  obtain ⟨arguments, called, decoded⟩ := first
  obtain ⟨arguments2, called2, decoded2⟩ := second
  obtain ⟨rfl, rfl⟩ := Instruction.pthreadCall.inj (called.symm.trans called2)
  exact ⟨rfl, Except.ok.inj (decoded.symm.trans decoded2)⟩

theorem Event.lockAction_ask (called : event.Calls function mutex)
    (locks : function = .mutexLock ∨ function = .mutexTrylock)
    (granted : event.code = some .success)
    : event.lockAction = some (.ask event.tid mutex) := by
  obtain ⟨arguments, called, decoded⟩ := called
  rcases locks with rfl | rfl <;>
    simp [lockAction, called, granted, decoded, Except.toOption]

theorem Event.lockAction_release (called : event.Calls .mutexUnlock mutex)
    (granted : event.code = some .success)
    : event.lockAction = some (.release event.tid mutex) := by
  obtain ⟨arguments, called, decoded⟩ := called
  simp [lockAction, called, granted, decoded, Except.toOption]

theorem Event.lockAction_none (called : event.Calls function mutex)
    (quiet : event.code ≠ some .success ∨ function = .mutexInit ∨ function = .mutexDestroy)
    : event.lockAction = none := by
  obtain ⟨arguments, called, -⟩ := called
  rcases quiet with refused | rfl | rfl
  · unfold lockAction
    split <;> simp_all
  · simp [lockAction, called]
  · simp [lockAction, called]

end Woodpecker.Pthread
