import Woodpecker.Pthread.Mutexes

/-! Condition variables: what POSIX asks of `pthread_cond_wait` and `pthread_cond_signal`,
and the interleavings in which the emulation lives up to it.

`getCondArgWithMutex` takes the mutex from word 4, but a 64-bit condition variable fills
word 2 only and the mutex stands in word 3. Word 4 is zero, so every wait works on the
mutex at address 0, whatever the program passed.
-/

namespace Woodpecker.Pthread

open Library

variable {uninit tid : Int} {state after finish : ExecutionState} {event : Event}
  {mutex cond attr : UInt64}

@[simp]
theorem Argument.pointer_inj {first second : UInt64}
    : pointer first = .pointer second ↔ first = second := by
  simp [pointer, UInt64.toNat_inj]

/-- The call passes constant pointers, to initialised objects unless it initialises one. -/
def Instruction.OnInitialised (state : ExecutionState) : Instruction → Prop
  | .pthreadCall .mutexInit arguments =>
    ∃ mutex attr, arguments = [.pointer mutex, .pointer attr]
  | .pthreadCall .condInit arguments =>
    ∃ cond attr, arguments = [.pointer cond, .pointer attr]
  | .pthreadCall .mutexDestroy arguments
  | .pthreadCall .mutexLock arguments
  | .pthreadCall .mutexUnlock arguments
  | .pthreadCall .mutexTrylock arguments =>
    ∃ mutex, arguments = [.pointer mutex] ∧ state.mutexes mutex ≠ none
  | .pthreadCall .condDestroy arguments
  | .pthreadCall .condSignal arguments
  | .pthreadCall .condBroadcast arguments =>
    ∃ cond, arguments = [.pointer cond] ∧ state.conds cond ≠ none
  | .pthreadCall .condWait arguments =>
    ∃ cond mutex, arguments = [.pointer cond, .pointer mutex]
      ∧ state.conds cond ≠ none ∧ state.mutexes mutex ≠ none
  | .pthreadCreate _ | .other => True

def CondStep (state : ExecutionState) (event : Event) (after : ExecutionState) : Prop :=
  event.instruction.OnInitialised state ∧ ThreadStep state event after

def Event.Waits (event : Event) (cond mutex : UInt64) : Prop :=
  event.instruction = .pthreadCall .condWait [.pointer cond, .pointer mutex]

def Event.Signals (event : Event) (cond : UInt64) : Prop :=
  event.instruction = .pthreadCall .condSignal [.pointer cond]

def Event.Broadcasts (event : Event) (cond : UInt64) : Prop :=
  event.instruction = .pthreadCall .condBroadcast [.pointer cond]

/-- The queue of a condition variable. -/
def ExecutionState.sleepersAt (state : ExecutionState) (cond : UInt64) : List Int :=
  (state.conds cond).elim [] CondInfo.waiters

/-- A signal or broadcast takes the thread off the queue of the condition variable. -/
def Selects (transition : Transition ExecutionState Event) (cond : UInt64) (tid : Int)
    : Prop :=
  (transition.label.Signals cond ∨ transition.label.Broadcasts cond)
  ∧ tid ∈ transition.before.sleepersAt cond
  ∧ tid ∉ transition.after.sleepersAt cond

/-- How many steps had been taken when the thread took its last one. -/
def lastStep (past : List (Transition ExecutionState Event)) (tid : Int) : Nat :=
  past.length - past.reverse.findIdx (·.label.tid = tid)

/-- What the program may rely on along a trace. -/
structure CondContract (trace : List (Transition ExecutionState Event)) : Prop where
  ownerWaits : ∀ step ∈ trace, ∀ cond mutex, step.label.Waits cond mutex →
    step.before.ownerAt mutex = some step.label.tid →
    step.label.code = some .success
      ∧ step.after.ownerAt mutex ≠ some step.label.tid
      ∧ step.label.tid ∈ step.after.blockedThreads
  othersRefused : ∀ step ∈ trace, ∀ cond mutex, step.label.Waits cond mutex →
    step.before.ownerAt mutex ≠ some step.label.tid →
    step.label.code = some .eperm ∧ step.after = step.before
  suspended : ∀ past waits between next rest cond mutex,
    trace = past ++ waits :: (between ++ next :: rest) →
    waits.label.Waits cond mutex → waits.label.code = some .success →
    next.label.tid = waits.label.tid →
    (∀ step ∈ between, step.label.tid ≠ waits.label.tid) →
    (∃ step ∈ between, Selects step cond waits.label.tid)
      ∧ next.before.ownerAt mutex = some waits.label.tid
  signalled : ∀ past step rest cond, trace = past ++ step :: rest →
    step.label.Signals cond →
    step.after.sleepersAt cond = (step.before.sleepersAt cond).tail
      ∧ ∀ first ∈ (step.before.sleepersAt cond).head?,
          ∀ other ∈ (step.before.sleepersAt cond).tail,
            lastStep past first < lastStep past other

/-- The waits the emulation answers as it should: the caller does not own the mutex it
passes, and the mutex at address 0 is initialised and is free, or its owner and the caller
happen to satisfy the inverted owner test.
-/
def WaitRefused (step : Transition ExecutionState Event) : Prop :=
  ∀ cond mutex, step.label.Waits cond mutex →
    step.before.ownerAt mutex ≠ some step.label.tid
    ∧ ∃ info, step.before.mutexes 0 = some info
        ∧ (info.acquired = false ∨ negated info.owner = step.label.tid)

/-- A wait blocks nobody. -/
theorem handlePthreadCondWait_blocked
    : (handlePthreadCondWait state tid cond mutex).1.blockedThreads ⊆ state.blockedThreads := by
  unfold handlePthreadCondWait doMutexUnlock
  split
  · split
    · exact fun _ member => member
    split
    · exact fun _ member => member
    split
    · exact fun _ member => Finset.mem_of_mem_erase member
    · exact fun _ member => member
  · exact fun _ member => member

/-- A wait on an initialised condition variable is refused exactly when the mutex is
initialised and free or the inverted owner test holds.
-/
theorem handlePthreadCondWait_refused_iff (found : state.conds cond ≠ none)
    : (handlePthreadCondWait state tid cond mutex).2 = .eperm
      ↔ ∃ info, state.mutexes mutex = some info
          ∧ (info.acquired = false ∨ negated info.owner = tid) := by
  obtain ⟨ci, found⟩ := Option.ne_none_iff_exists'.mp found
  unfold handlePthreadCondWait
  rw [found]
  cases entry : state.mutexes mutex with
  | none => simp
  | some mi =>
    by_cases refused : mi.acquired = false ∨ negated mi.owner = tid
    · simp [refused]
    · by_cases bound : ci.binded ≠ 0 ∧ ci.binded ≠ mutex <;> simp [refused, bound]

/-- A refused wait changes nothing. -/
theorem handlePthreadCondWait_of_refused
    (refused : (handlePthreadCondWait state tid cond mutex).2 = .eperm)
    : (handlePthreadCondWait state tid cond mutex).1 = state := by
  unfold handlePthreadCondWait at *
  split at * <;> simp_all
  split at * <;> simp_all
  split at * <;> simp_all

/-- A wait of the program is a wait on the mutex at address 0. -/
theorem CondStep.wait (step : CondStep state event after) (waits : event.Waits cond mutex)
    : state.conds cond ≠ none
      ∧ after = (handlePthreadCondWait state event.tid cond 0).1
      ∧ event.code = some (handlePthreadCondWait state event.tid cond 0).2 := by
  obtain ⟨initialised, -, uninit, executed⟩ := step
  rw [waits] at initialised executed
  obtain ⟨cond, mutex, same, found, -⟩ := initialised
  obtain ⟨rfl, -⟩ := by simpa using same
  simp [executeInstruction, handle, getCondArgWithMutex, getRealArgs, argumentWords,
    Argument.pointer, readWord, ok_bind] at executed
  exact ⟨found, executed.1.symm, executed.2.symm⟩

-- Nobody sleeps

/-- No thread stands in the queue of a condition variable. -/
def Sleepless (state : ExecutionState) : Prop :=
  ∀ cond, state.sleepersAt cond = []

theorem Sleepless.of_conds (sleepless : Sleepless state) (same : after.conds = state.conds)
    : Sleepless after := by
  intro cond
  rw [ExecutionState.sleepersAt, same]
  exact sleepless cond

theorem Sleepless.setCond {entry : Option CondInfo} (sleepless : Sleepless state)
    (empty : entry.elim [] CondInfo.waiters = [])
    : Sleepless (state.setCond cond entry) := by
  intro other
  rw [ExecutionState.sleepersAt, ExecutionState.setCond]
  rcases eq_or_ne other cond with rfl | elsewhere
  · simpa using empty
  · refine Eq.trans ?_ (sleepless other)
    simp [ExecutionState.sleepersAt, elsewhere]

variable {function : PthreadFunction} {code : ReturnCode}

/-- Mutex calls do not touch the condition variables. -/
theorem MutexEffect.conds (effect : MutexEffect tid mutex state function after code)
    : after.conds = state.conds := by
  cases effect <;> rfl

theorem Sleepless.waiters {ci : CondInfo} (sleepless : Sleepless state)
    (found : state.conds cond = some ci)
    : ci.waiters = [] := by
  simpa [ExecutionState.sleepersAt, found] using sleepless cond

/-- A function on condition variables makes no sleeper, unless it is a wait that is not
refused; a signal or broadcast finds nobody to wake. By cases on the function.
-/
theorem Sleepless.handle {arguments : List Argument} (sleepless : Sleepless state)
    (returned : handle uninit state tid function arguments = .ok (after, code))
    (refused : function = .condWait → code = .eperm)
    : Sleepless after := by
  by_cases isMutex : function.IsMutex
  · obtain ⟨mutex, -, effect⟩ := handle_mutex isMutex returned
    exact sleepless.of_conds effect.conds
  cases function <;> simp only [PthreadFunction.IsMutex, not_true] at isMutex <;>
    simp only [handle, bind_eq_ok, Except.ok.injEq] at returned <;>
    obtain ⟨decoded, -, returned⟩ := returned
  case condInit =>
      unfold handlePthreadCondInit at returned
      split at returned <;> cases returned
      · exact sleepless
      · exact sleepless.setCond rfl
  case condDestroy =>
      unfold handlePthreadCondDestroy at returned
      split at returned
      · split at returned <;> cases returned
        · exact sleepless
        · exact sleepless.setCond rfl
      · cases returned
        exact sleepless
  case condWait =>
      have same := handlePthreadCondWait_of_refused
        ((congrArg Prod.snd returned).trans (refused rfl))
      rw [returned] at same
      obtain rfl : after = state := same
      exact sleepless
  case condSignal =>
      unfold handlePthreadCondSignal at returned
      split at returned
      · rename_i found
        rw [sleepless.waiters found] at returned
        cases returned
        exact sleepless
      · cases returned
        exact sleepless
  case condBroadcast =>
      unfold handlePthreadCondBroadcast at returned
      split at returned
      · rename_i found
        rw [sleepless.waiters found] at returned
        cases returned
        exact sleepless
      · cases returned
        exact sleepless

theorem Sleepless.step (sleepless : Sleepless state) (step : CondStep state event after)
    (refused : ∀ cond mutex, event.Waits cond mutex → event.code = some .eperm)
    : Sleepless after := by
  obtain ⟨initialised, -, uninit, executed⟩ := step
  cases called : event.instruction with
  | other =>
    obtain ⟨rfl, -⟩ := Prod.mk.inj (Except.ok.inj (called ▸ executed))
    exact sleepless
  | pthreadCreate argSize =>
    obtain rfl := executeInstruction_create (called ▸ executed)
    exact sleepless.of_conds rfl
  | pthreadCall function arguments =>
    rw [called] at executed initialised
    obtain ⟨⟨reached, code⟩, returned, result⟩ := bind_eq_ok.mp executed
    obtain ⟨rfl, bound⟩ := Prod.mk.inj (Except.ok.inj result)
    refine sleepless.handle returned ?_
    rintro rfl
    obtain ⟨cond, mutex, rfl, -⟩ := initialised
    exact Option.some.inj (bound.trans (refused cond mutex called))

-- Which traces keep the contract

section

variable (step : CondStep state event after) (waits : event.Waits cond mutex)
include step waits

/-- A wait is refused exactly when its step meets the condition and its caller does not own
the mutex.
-/
theorem CondStep.refused_iff
    : event.code = some .eperm
      ↔ ∃ info, state.mutexes 0 = some info
          ∧ (info.acquired = false ∨ negated info.owner = event.tid) := by
  obtain ⟨found, -, code⟩ := step.wait waits
  rw [code, Option.some.injEq, handlePthreadCondWait_refused_iff found]

end

/-- Along a trace whose waits are all refused nobody ever sleeps. -/
theorem sleepless_of_run {trace : List (Transition ExecutionState Event)}
    (run : Run (Takes CondStep) .fresh trace finish) (refused : ∀ step ∈ trace, WaitRefused step)
    : ∀ step ∈ trace, Sleepless step.before ∧ Sleepless step.after := by
  have awake : Sleepless .fresh := fun _ => rfl
  refine (run.along awake ?_).2
  intro step member sleepless
  have taken := run.takes step member
  refine sleepless.step taken ?_
  intro cond mutex waits
  exact (taken.refused_iff waits).mpr (refused step member cond mutex waits).2

/-- A trace keeps the contract exactly when every wait in it is one of those the emulation
refuses as it should. The owner of a mutex is never suspended by a wait, and where all
waits are refused the queues of the condition variables stay empty.
-/
theorem condContract_iff {trace : List (Transition ExecutionState Event)}
    (run : Run (Takes CondStep) .fresh trace finish)
    : CondContract trace ↔ ∀ step ∈ trace, WaitRefused step := by
  have steps := run.takes
  constructor
  · intro contract step member cond mutex waits
    have taken := steps step member
    have notOwner : step.before.ownerAt mutex ≠ some step.label.tid := by
      intro owner
      obtain ⟨-, -, blocked⟩ := contract.ownerWaits step member cond mutex waits owner
      rw [(taken.wait waits).2.1] at blocked
      exact taken.2.1 (handlePthreadCondWait_blocked blocked)
    obtain ⟨refused, -⟩ := contract.othersRefused step member cond mutex waits notOwner
    exact ⟨notOwner, (taken.refused_iff waits).mp refused⟩
  · intro refused
    have sleepless := sleepless_of_run run refused
    have answered : ∀ step ∈ trace, ∀ cond mutex, step.label.Waits cond mutex →
        step.label.code = some .eperm := by
      intro step member cond mutex waits
      exact ((steps step member).refused_iff waits).mpr (refused step member cond mutex waits).2
    refine ⟨?_, ?_, ?_, ?_⟩
    · intro step member cond mutex waits owner
      exact absurd owner (refused step member cond mutex waits).1
    · intro step member cond mutex waits _
      have code := answered step member cond mutex waits
      obtain ⟨-, same, answer⟩ := (steps step member).wait waits
      exact ⟨code, same.trans (handlePthreadCondWait_of_refused (Option.mem_unique answer code))⟩
    · intro past waiting between next rest cond mutex split waits granted
      have code := answered waiting (by simp [split]) cond mutex waits
      exact nomatch granted.symm.trans code
    · intro past step rest cond split _
      obtain ⟨before, after⟩ := sleepless step (by simp [split])
      rw [before cond, after cond]
      simp

/-- Witness: the mutex at address 0 is initialised and free, so a wait on a mutex the
caller does not own is refused and the contract is kept.
-/
theorem condContract_iff_refused
    : ∃ trace finish, Run (Takes CondStep) .fresh trace finish
        ∧ (∃ step ∈ trace, step.label.Waits 16 8 ∧ step.label.code = some .eperm)
        ∧ CondContract trace := by
  let call (function : PthreadFunction) (first second : UInt64) (code : ReturnCode) : Event :=
    ⟨0, .pthreadCall function [.pointer first, .pointer second], some code⟩
  have zero : CondStep .fresh (call .mutexInit 0 0 .success) _ := ⟨⟨0, 0, rfl⟩, by decide, 0, rfl⟩
  have mutex := (Run.nil.record zero).record
    (show CondStep _ (call .mutexInit 8 0 .success) _ from ⟨⟨8, 0, rfl⟩, by decide, 0, rfl⟩)
  have cond := mutex.record
    (show CondStep _ (call .condInit 16 0 .success) _ from ⟨⟨16, 0, rfl⟩, by decide, 0, rfl⟩)
  have run := cond.record (show CondStep _ (call .condWait 16 8 .eperm) _ from
    ⟨⟨16, 8, rfl, by decide, by decide⟩, by decide, 0, rfl⟩)
  refine ⟨_, _, run, ⟨_, List.mem_concat_self, rfl, rfl⟩, (condContract_iff run).mpr ?_⟩
  intro step member cond mutex waits
  simp at member
  rcases member with rfl | rfl | rfl | rfl
  · exact nomatch waits
  · exact nomatch waits
  · exact nomatch waits
  · refine ⟨?_, _, rfl, .inl rfl⟩
    obtain ⟨-, rfl⟩ : (16 : UInt64) = cond ∧ (8 : UInt64) = mutex := by
      simpa [Event.Waits, call] using waits
    exact nofun

/-- The owner of a mutex waits with it: the call returns `EINVAL`, keeps the mutex and does
not suspend the caller.
-/
theorem owner_waits_in_vain
    : ∃ trace finish, Run (Takes CondStep) .fresh trace finish
        ∧ ¬ CondContract trace
        ∧ ∃ step ∈ trace, step.label.Waits 16 8
            ∧ step.before.ownerAt 8 = some step.label.tid
            ∧ step.label.code = some .einval
            ∧ step.after.ownerAt 8 = some step.label.tid
            ∧ step.label.tid ∉ step.after.blockedThreads := by
  let call (function : PthreadFunction) (arguments : List Argument) (code : ReturnCode)
      : Event :=
    ⟨0, .pthreadCall function arguments, some code⟩
  have mutex : CondStep .fresh (call .mutexInit [.pointer 8, .pointer 0] .success) _ :=
    ⟨⟨8, 0, rfl⟩, by decide, 0, rfl⟩
  have cond := (Run.nil.record mutex).record
    (show CondStep _ (call .condInit [.pointer 16, .pointer 0] .success) _ from
      ⟨⟨16, 0, rfl⟩, by decide, 0, rfl⟩)
  have lock := cond.record (show CondStep _ (call .mutexLock [.pointer 8] .success) _ from
    ⟨⟨8, rfl, by decide⟩, by decide, 0, rfl⟩)
  have run := lock.record (show CondStep _ (call .condWait [.pointer 16, .pointer 8] .einval) _ from
    ⟨⟨16, 8, rfl, by decide, by decide⟩, by decide, 0, rfl⟩)
  refine ⟨_, _, run, ?_, _, List.mem_concat_self, rfl, rfl, rfl, rfl, by decide⟩
  intro contract
  obtain ⟨granted, -⟩ := contract.ownerWaits _ List.mem_concat_self 16 8 rfl rfl
  exact nomatch granted

end Woodpecker.Pthread
