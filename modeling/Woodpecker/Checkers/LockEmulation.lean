import Woodpecker.Checkers.Lock
import Woodpecker.Pthread.Mutexes

/-! The lock checker beside the mutex emulation, fed with the calls the emulation grants.

The checker keeps one bit per mutex where the emulation keeps an owner and a queue, and it
does not look at trylock. As long as it has reported no error, that bit is the number of
outstanding acquisitions less the successful trylocks, which decides each later verdict.
-/

namespace Woodpecker.Checkers

open Library Pthread LockChecker ExecutionState Finset Function

/-- The function and mutex of a mutex call. -/
def called (event : Event) : Option (PthreadFunction × UInt64) :=
  match event.instruction with
  | .pthreadCall function arguments =>
    (getMutexArg arguments).toOption.map (function, ·)
  | _ => none

/-- Successful trylocks on each mutex since it was initialised. -/
def countTrylocks (counts : UInt64 → Nat) (event : Event) : UInt64 → Nat :=
  match called event with
  | some (.mutexInit, mutex) => Function.update counts mutex 0
  | some (.mutexTrylock, mutex) => Function.update counts mutex (counts mutex + 1)
  | _ => counts

/-- The checker is handed the decoded words of the emulated call. -/
def Delivers (event : Event) (call : Call) : Prop :=
  ∃ function arguments words args,
    event.instruction = .pthreadCall function arguments
    ∧ getRealArgs arguments = .ok (some words)
    ∧ call.funcname = function.name
    ∧ call.args = some args
    ∧ ∀ index word, words[index]? = some word → args index = word

/-- The emulation, the checker, and a count of trylocks that neither of them keeps. -/
structure Monitored where
  state : ExecutionState
  checker : LockChecker
  trylocks : UInt64 → Nat

structure Observation where
  event : Event
  call : Call
  verdict : Result

/-- A mutex call that returns zero, seen by the checker. -/
structure MonitoredStep (before : Monitored) (seen : Observation) (after : Monitored)
    : Prop where
  executed : MutexStep before.state seen.event after.state
  granted : seen.event.code = some .success
  delivered : Delivers seen.event seen.call
  checked : before.checker.onCall seen.call = (after.checker, seen.verdict)
  counted : after.trylocks = countTrylocks before.trylocks seen.event

/-- The owner of a mutex and its waiters. -/
def outstanding (state : ExecutionState) (mutex : UInt64) : Nat :=
  (state.ownerAt mutex).toList.length + (state.waitersAt mutex).length

/-- A lock finds only acquisitions made by trylock, none if trylock is not used, and an
unlock finds one that was not made by trylock.
-/
structure Balanced (step : Transition Monitored Observation) : Prop where
  lock : ∀ mutex, step.label.event.Calls .mutexLock mutex →
    outstanding step.before.state mutex = step.before.trylocks mutex
  unlock : ∀ mutex, step.label.event.Calls .mutexUnlock mutex →
    step.before.trylocks mutex < outstanding step.before.state mutex

variable {checker : LockChecker} {call : Call} {state after : ExecutionState} {event : Event}
  {function : PthreadFunction} {mutex : UInt64} {tid : Int}

/-- The part of the checker that a function of the emulation reaches. -/
def LockChecker.onFunction (checker : LockChecker) (mutex : UInt64)
    : PthreadFunction → LockChecker × Result
  | .mutexInit => checker.onInit mutex
  | .mutexLock => checker.onLock mutex
  | .mutexUnlock => checker.onUnlock mutex
  | .mutexDestroy => checker.onDestroy mutex
  | _ => (checker, OK)

/-- The words delivered determine which part of `onCall` runs. -/
theorem Delivers.onCall (delivered : Delivers event call) (calls : event.Calls function mutex)
    : checker.onCall call = checker.onFunction mutex function := by
  obtain ⟨function, arguments, words, args, called, decoded, name, concrete, same⟩ := delivered
  obtain ⟨arguments, again, argument⟩ := calls
  obtain ⟨rfl, rfl⟩ := Instruction.pthreadCall.inj (called.symm.trans again)
  have word : args 2 = mutex := by
    rw [getMutexArg, decoded, ok_bind, readWord] at argument
    refine same 2 mutex ?_
    cases found : words[2]? with
    | none => simp [found] at argument
    | some word => simpa [found] using argument
  unfold onCall
  rw [concrete, name]
  cases function <;> simp [PthreadFunction.name, onFunction, word]

theorem called_of_calls (calls : event.Calls function mutex)
    : called event = some (function, mutex) := by
  obtain ⟨arguments, again, decoded⟩ := calls
  simp [called, again, decoded, Except.toOption]

/-- A change of one entry changes the count of that mutex only. -/
theorem outstanding_setMutex (state : ExecutionState) (mutex : UInt64) (info : Option MutexInfo)
    : outstanding (state.setMutex mutex info) = update (outstanding state) mutex
          (info.elim 0 fun info => info.acquired.toNat + info.waiters.length) := by
  funext other
  simp only [outstanding, ownerAt_setMutex, waitersAt_setMutex, update_apply]
  split
  · cases info with
    | none => rfl
    | some info => cases held : info.acquired <;> simp [held]
  · rfl

theorem outstanding_eq {info : MutexInfo} (found : state.mutexes mutex = some info)
    : outstanding state mutex = info.acquired.toNat + info.waiters.length := by
  rw [outstanding, ownerAt_eq found, waitersAt_eq found]
  cases held : info.acquired <;> simp

-- What the checker knows

/-- The checker knows the initialised mutexes, and its bit for a mutex is the number of
outstanding acquisitions less the trylocks.
-/
structure Tracks (monitored : Monitored) : Prop where
  known : ∀ mutex,
    mutex ∈ monitored.checker.init_locks ↔ monitored.state.mutexes mutex ≠ none
  within : monitored.checker.locked_locks ⊆ monitored.checker.init_locks
  idle : ∀ mutex info, monitored.state.mutexes mutex = some info → info.acquired = false →
    info.waiters = []
  count : ∀ mutex,
    outstanding monitored.state mutex
      = monitored.trylocks mutex
        + if mutex ∈ monitored.checker.locked_locks then 1 else 0

/-- Locked mutexes stay initialised ones whatever the checker is told, by cases on the
branch of `onCall`.
-/
theorem LockChecker.onCall_within (within : checker.locked_locks ⊆ checker.init_locks) (call : Call)
    : (checker.onCall call).1.locked_locks ⊆ (checker.onCall call).1.init_locks := by
  unfold onCall
  split
  · exact within
  simp only [onInit, onLock, onUnlock, onDestroy]
  split
  · split
    · exact within
    · exact within.trans (subset_insert ..)
  split
  · split
    · exact within
    split
    · exact within
    · rename_i known _
      exact insert_subset (not_not.mp known) within
  split
  · split
    · exact within
    split
    · exact within
    · exact (erase_subset ..).trans within
  split
  · split
    · exact within
    split
    · exact within
    · rename_i unlocked _
      exact fun other locked => mem_erase.mpr
        ⟨fun same => unlocked (same ▸ locked), within locked⟩
  · exact within

theorem balanced_iff {before after : Monitored} {seen : Observation}
    (calls : seen.event.Calls function mutex)
    : Balanced ⟨before, seen, after⟩
      ↔ (function = .mutexLock → outstanding before.state mutex = before.trylocks mutex)
        ∧ (function = .mutexUnlock → before.trylocks mutex < outstanding before.state mutex) := by
  constructor
  · rintro ⟨lock, unlock⟩
    refine ⟨?_, ?_⟩
    · rintro rfl
      exact lock mutex calls
    · rintro rfl
      exact unlock mutex calls
  · rintro ⟨lock, unlock⟩
    refine ⟨?_, ?_⟩ <;> intro other again <;> obtain ⟨rfl, rfl⟩ := calls.unique again
    · exact lock rfl
    · exact unlock rfl

/-- How a granted call changes the number of acquisitions. -/
def CountChange (state after : ExecutionState) (mutex : UInt64) : PthreadFunction → Prop
  | .mutexInit =>
    state.mutexes mutex = none ∧ after.mutexes mutex ≠ none
    ∧ outstanding after mutex = 0
  | .mutexDestroy =>
    state.mutexes mutex ≠ none ∧ after.mutexes mutex = none
    ∧ outstanding state mutex = 0 ∧ outstanding after mutex = 0
  | .mutexUnlock =>
    state.mutexes mutex ≠ none ∧ after.mutexes mutex ≠ none
    ∧ outstanding state mutex = outstanding after mutex + 1
  | .mutexLock | .mutexTrylock =>
    state.mutexes mutex ≠ none ∧ after.mutexes mutex ≠ none
    ∧ outstanding after mutex = outstanding state mutex + 1
  | _ => False

/-- A granted lock or trylock adds one acquisition, an unlock takes one away, and
initialisation and destruction happen at zero. By cases on the effect.
-/
theorem granted_outstanding
    (idle : ∀ info, state.mutexes mutex = some info → info.acquired = false → info.waiters = [])
    (effect : MutexEffect tid mutex state function after .success)
    : (∀ other, other ≠ mutex → after.mutexes other = state.mutexes other
          ∧ outstanding after other = outstanding state other)
      ∧ (∀ info, after.mutexes mutex = some info → info.acquired = false → info.waiters = [])
      ∧ CountChange state after mutex function := by
  have elsewhere : ∀ info other, other ≠ mutex →
      (state.setMutex mutex info).mutexes other = state.mutexes other
      ∧ outstanding (state.setMutex mutex info) other = outstanding state other := by
    intro info other different
    rw [outstanding_setMutex]
    simp [setMutex, different]
  have there : ∀ info, (state.setMutex mutex info).mutexes mutex = info := by
    simp [setMutex]
  have stillHeld (held : MutexInfo) (isHeld : held.acquired = true) : ∀ info,
      (state.setMutex mutex (some held)).mutexes mutex = some info → info.acquired = false
        → info.waiters = [] := by
    simp [there, isHeld]
  cases effect with
  | refused failed => exact absurd rfl failed
  | created uninit absent =>
    refine ⟨elsewhere _, ?_, absent, ?_, ?_⟩
    · simp [there, MutexInfo.create]
    · simp [there]
    · simp [outstanding_setMutex, MutexInfo.create]
  | destroyed found free =>
    refine ⟨elsewhere _, ?_, ?_, there _, ?_, ?_⟩
    · simp [there]
    · simp [found]
    · simp [outstanding_eq found, free, idle _ found free]
    · simp [outstanding_setMutex]
  | taken locks found free =>
    refine ⟨elsewhere _, ?_, ?_⟩
    · simp [there]
    rcases locks with rfl | rfl <;>
      simp [CountChange, there, found, outstanding_setMutex, outstanding_eq found, free,
        Nat.add_comm]
  | queued found held other =>
    refine ⟨elsewhere _, stillHeld _ held, by simp [found], ?_, ?_⟩
    · exact ((there _).trans_ne (Option.some_ne_none _))
    · refine (congrFun (outstanding_setMutex state mutex _) mutex).trans ?_
      simp [outstanding_eq found, Nat.add_assoc]
  | handed found held own waiting =>
    -- The head of the queue becomes the owner, so one acquisition is gone.
    refine ⟨elsewhere _, stillHeld _ held, by simp [found], ?_, ?_⟩
    · exact ((there _).trans_ne (Option.some_ne_none _))
    · refine Eq.trans ?_
        (congrArg (· + 1) (congrFun (outstanding_setMutex state mutex _) mutex).symm)
      simp [outstanding_eq found, waiting, Nat.add_assoc]
  | freed found held own empty =>
    refine ⟨elsewhere _, ?_, by simp [found], ?_, ?_⟩
    · simp [there, empty]
    · simp [there]
    · simp [outstanding_setMutex, outstanding_eq found, held, empty]

/-- While the checker tracks the emulation, a granted call is flagged exactly when it is not
balanced, and otherwise the checker still tracks the emulation. By cases on the function.
-/
theorem Tracks.step {before after : Monitored} {seen : Observation} (tracks : Tracks before)
    (step : MonitoredStep before seen after)
    : (¬ IsError seen.verdict ↔ Balanced ⟨before, seen, after⟩)
      ∧ (¬ IsError seen.verdict → Tracks after) := by
  obtain ⟨executed, granted, delivered, checked, counted⟩ := step
  obtain ⟨function, mutex, code, calls, bound, effect⟩ := executed.effect
  obtain rfl := Option.mem_unique bound granted
  obtain ⟨known, within, idle, count⟩ := tracks
  obtain ⟨elsewhere, stillIdle, changed⟩ := granted_outstanding (idle mutex) effect
  rw [balanced_iff calls]
  rw [delivered.onCall calls] at checked
  rw [countTrylocks, called_of_calls calls] at counted
  obtain ⟨state, checker, trylocks⟩ := before
  obtain ⟨reached, checkerAfter, trylocksAfter⟩ := after
  obtain ⟨event, call, verdict⟩ := seen
  simp only at *
  have important : ¬ IsError (IMPORTANT ||| NEED_ARG0) := by decide
  have error : IsError (ERROR ||| NEED_ARG0) := by decide
  have bit := count mutex
  cases function with
  | mutexInit =>
    obtain ⟨absent, present, zero⟩ := changed
    have fresh : mutex ∉ checker.init_locks := fun member => (known mutex).mp member absent
    simp only [onFunction, onInit, if_neg fresh] at checked
    cases checked
    refine ⟨by simp [important], fun _ => ⟨?_, ?_, ?_, ?_⟩⟩ <;>
      simp only [counted, update_apply, subset_iff, mem_insert] <;>
      grind
  | mutexDestroy =>
    obtain ⟨present, absent, zero, zeroAfter⟩ := changed
    have member : mutex ∈ checker.init_locks := (known mutex).mpr present
    have unlocked : mutex ∉ checker.locked_locks := by grind
    simp only [onFunction, onDestroy, if_neg unlocked, if_neg (not_not.mpr member)] at checked
    cases checked
    refine ⟨by simp [important], fun _ => ⟨?_, ?_, ?_, ?_⟩⟩ <;>
      simp only [counted, subset_iff, mem_erase] <;> grind
  | mutexLock | mutexUnlock =>
    obtain ⟨present, presentAfter, moved⟩ := changed
    have member : mutex ∈ checker.init_locks := (known mutex).mpr present
    simp only [onFunction, onLock, onUnlock, if_neg (not_not.mpr member)] at checked
    split at checked <;> rename_i locked <;> cases checked
    · refine ⟨?_, fun accepted => absurd error accepted⟩
      simp [error, bit, locked]
    · try rw [not_not] at locked
      refine ⟨by simp [important, bit, locked], fun _ => ⟨?_, ?_, ?_, ?_⟩⟩ <;>
        simp only [counted, subset_iff, mem_insert, mem_erase] <;> grind
  | mutexTrylock =>
    -- The checker does not listen to trylock, so only the counts move.
    obtain ⟨present, presentAfter, more⟩ := changed
    cases checked
    have silent : ¬ IsError OK := by decide
    refine ⟨by simp [silent], fun _ => ⟨?_, within, ?_, ?_⟩⟩ <;>
      simp only [counted, update_apply] <;> grind
  | condInit | condDestroy | condWait | condSignal | condBroadcast => exact changed.elim

/-- Over every interleaving of granted mutex calls the checker's locked mutexes are among
its initialised ones, and it reports no error exactly when every step is balanced. By
induction on the run; after the first error both sides stay false.
-/
theorem lockChecker_accepts_iff {start : ExecutionState} {finish : Monitored}
    {trace : List (Transition Monitored Observation)}
    (noMutexes : ∀ mutex, start.mutexes mutex = none)
    (run : Run (Takes MonitoredStep) ⟨start, .create, fun _ => 0⟩ trace finish)
    : finish.checker.locked_locks ⊆ finish.checker.init_locks
      ∧ ((∀ step ∈ trace, ¬ IsError step.label.verdict)
          ↔ ∀ step ∈ trace, Balanced step) := by
  suffices kept : finish.checker.locked_locks ⊆ finish.checker.init_locks
      ∧ ((∀ step ∈ trace, ¬ IsError step.label.verdict)
          ↔ ∀ step ∈ trace, Balanced step)
      ∧ ((∀ step ∈ trace, ¬ IsError step.label.verdict) → Tracks finish) from
    ⟨kept.1, kept.2.1⟩
  refine run.history
    (fun past monitored => monitored.checker.locked_locks ⊆ monitored.checker.init_locks
      ∧ ((∀ step ∈ past, ¬ IsError step.label.verdict) ↔ ∀ step ∈ past, Balanced step)
      ∧ ((∀ step ∈ past, ¬ IsError step.label.verdict) → Tracks monitored)) ?_ ?_
  · refine ⟨by simp [create], by simp, fun _ => ⟨?_, ?_, ?_, ?_⟩⟩ <;>
      simp [create, noMutexes, outstanding, ownerAt, waitersAt]
  rintro past _ ⟨before, seen, after⟩ _ ⟨within, accepts, tracks⟩ ⟨rfl, rfl, step⟩
  have stays := onCall_within within seen.call
  rw [step.checked] at stays
  simp only [List.mem_append, List.mem_singleton, or_imp, forall_and, forall_eq]
  refine ⟨stays, ?_, ?_⟩
  · rw [← accepts]
    exact and_congr_right fun quiet => ((tracks quiet).step step).1
  · rintro ⟨quiet, accepted⟩
    exact ((tracks quiet).step step).2 accepted

/-- The checker's view of a call of `function` with one constant pointer. -/
def pointerCall (function : PthreadFunction) (mutex : UInt64) : Call where
  funcname := function.name
  arguments _ := ⟨0, .constant mutex⟩
  args := some fun index => [0, 0, mutex, 0].getD index 0
  site := ⟨""⟩
  thread := 0

/-- Both machines after such a call. -/
def callPointer (before : Monitored) (tid : Int) (function : PthreadFunction) (mutex : UInt64)
    : Monitored where
  state :=
    match handle 0 before.state tid function [.pointer mutex] with
    | .ok (after, _) => after
    | .error _ => before.state
  checker := (before.checker.onCall (pointerCall function mutex)).1
  trylocks :=
    countTrylocks before.trylocks ⟨tid, .pthreadCall function [.pointer mutex], some .success⟩

/-- What is observed of such a call when it is granted. -/
def observePointer (before : Monitored) (tid : Int) (function : PthreadFunction)
    (mutex : UInt64)
    : Observation where
  event := ⟨tid, .pthreadCall function [.pointer mutex], some .success⟩
  call := pointerCall function mutex
  verdict := (before.checker.onCall (pointerCall function mutex)).2

/-- A granted call with one constant pointer is a step of both machines. -/
theorem monitoredStep_pointer (before : Monitored) (tid : Int) (function : PthreadFunction)
    (mutex : UInt64) (isMutex : function.IsMutex) (free : tid ∉ before.state.blockedThreads)
    (granted : (handle 0 before.state tid function [.pointer mutex]).map Prod.snd = .ok .success)
    : MonitoredStep before (observePointer before tid function mutex)
        (callPointer before tid function mutex) := by
  have words : getRealArgs [.pointer mutex] = .ok (some [0, 0, mutex, 0]) := by
    simp [getRealArgs, argumentWords, Argument.pointer]
  refine ⟨⟨⟨function, _, rfl, isMutex⟩, free, 0, ?_⟩, rfl, ?_, rfl, rfl⟩
  · cases returned : handle 0 before.state tid function [.pointer mutex] with
    | error fault => simp [returned, Except.map] at granted
    | ok result =>
      obtain ⟨after, code⟩ := result
      obtain rfl : code = .success := by simpa [returned, Except.map] using granted
      simp [observePointer, callPointer, executeInstruction, returned]
  · refine ⟨function, _, _, _, rfl, words, rfl, rfl, ?_⟩
    intro index word found
    simp [List.getD, found]

/-- Witness: one thread initialises, locks and unlocks a mutex. -/
theorem lockChecker_accepts_iff_uncontended
    : ∃ trace finish, Run (Takes MonitoredStep) ⟨.fresh, .create, fun _ => 0⟩ trace finish
        ∧ trace.map (·.label.verdict)
          = [IMPORTANT ||| NEED_ARG0, IMPORTANT ||| NEED_ARG0, IMPORTANT ||| NEED_ARG0]
        ∧ ∀ step ∈ trace, Balanced step := by
  let start : Monitored := ⟨.fresh, .create, fun _ => 0⟩
  have init := monitoredStep_pointer start 0 .mutexInit 8 trivial (by decide) rfl
  have lock := (Run.nil.record init).record
    (monitoredStep_pointer _ 0 .mutexLock 8 trivial (by decide) rfl)
  have run := lock.record (monitoredStep_pointer _ 0 .mutexUnlock 8 trivial (by decide) rfl)
  refine ⟨_, _, run, rfl, (lockChecker_accepts_iff (fun _ => rfl) run).2.mp ?_⟩
  simp only [List.nil_append, List.cons_append, List.forall_mem_cons]
  exact ⟨by decide, by decide, by decide, by simp⟩

/-- Two granted calls that the checker calls errors: the lock of a second thread, which the
emulation queues, and the unlock after a trylock, which the checker has not seen.
-/
theorem granted_calls_flagged
    : (∃ trace finish, Run (Takes MonitoredStep) ⟨.fresh, .create, fun _ => 0⟩ trace finish
        ∧ ∃ step ∈ trace, step.label.event.Calls .mutexLock 8
            ∧ step.label.event.code = some .success
            ∧ step.after.state.blockedThreads = {1}
            ∧ IsError step.label.verdict)
      ∧ ∃ trace finish, Run (Takes MonitoredStep) ⟨.fresh, .create, fun _ => 0⟩ trace finish
        ∧ ∃ step ∈ trace, step.label.event.Calls .mutexUnlock 8
            ∧ step.before.state.ownerAt 8 = some step.label.event.tid
            ∧ step.label.event.code = some .success
            ∧ IsError step.label.verdict := by
  let start : Monitored := ⟨.fresh, .create, fun _ => 0⟩
  have init := monitoredStep_pointer start 0 .mutexInit 8 trivial (by decide) rfl
  constructor
  · have lock := (Run.nil.record init).record
      (monitoredStep_pointer _ 0 .mutexLock 8 trivial (by decide) rfl)
    have contend := lock.record (monitoredStep_pointer _ 1 .mutexLock 8 trivial (by decide) rfl)
    exact ⟨_, _, contend, _, List.mem_concat_self, ⟨_, rfl, rfl⟩, rfl, rfl, by decide⟩
  · have trylock := (Run.nil.record init).record
      (monitoredStep_pointer _ 0 .mutexTrylock 8 trivial (by decide) rfl)
    have unlock := trylock.record
      (monitoredStep_pointer _ 0 .mutexUnlock 8 trivial (by decide) rfl)
    exact ⟨_, _, unlock, _, List.mem_concat_self, ⟨_, rfl, rfl⟩, rfl, rfl, by decide⟩

end Woodpecker.Checkers
