import Woodpecker.Pthread.Mutexes

/-! Mutual exclusion and first-in first-out hand-over of the emulated mutexes, over every
interleaving of mutex calls by threads that are not blocked.

The interleaving may start in any state without mutexes that a program can bring about. In
such a state nobody is blocked, because every blocked thread stands in the queue of some
mutex; that fact survives condition variables too.
-/

namespace Woodpecker.Pthread

open Library ExecutionState LockTable

variable {uninit tid : Int} {state after start finish : ExecutionState} {mutex cond : UInt64}
  {info : MutexInfo} {event : Event} {history past : List Event}

-- Blocked threads stand in a queue

/-- Every blocked thread waits for some mutex, and only acquired mutexes have waiters. -/
structure Queued (state : ExecutionState) : Prop where
  blocked : ∀ tid ∈ state.blockedThreads, ∃ mutex, tid ∈ state.waitersAt mutex
  acquired : ∀ mutex, state.waitersAt mutex ≠ [] → state.ownerAt mutex ≠ none

/-- `info` is what the mutex table says about `mutex`, a new entry for an absent key. -/
structure Reads (state : ExecutionState) (mutex : UInt64) (info : MutexInfo) : Prop where
  waiters : state.waitersAt mutex = info.waiters
  owner : state.ownerAt mutex = if info.acquired then some info.owner else none

theorem Reads.of_found (found : state.mutexes mutex = some info) : Reads state mutex info :=
  ⟨waitersAt_eq found, ownerAt_eq found⟩

theorem Reads.mutexEntry : Reads state mutex (state.mutexEntry uninit mutex) := by
  cases found : state.mutexes mutex with
  | some info => simpa [ExecutionState.mutexEntry, found] using Reads.of_found found
  | none =>
    constructor <;>
      simp [ExecutionState.mutexEntry, ExecutionState.waitersAt, ExecutionState.ownerAt,
        found, MutexInfo.create]

/-- Condition variables play no part in it. -/
theorem Queued.setCond {entry : Option CondInfo} (queued : Queued state)
    : Queued (state.setCond cond entry) :=
  ⟨queued.blocked, queued.acquired⟩

theorem Reads.setCond {entry : Option CondInfo} (reads : Reads state mutex info)
    : Reads (state.setCond cond entry) mutex info :=
  ⟨reads.waiters, reads.owner⟩

variable {waiters : List Int}

/-- A change of one entry keeps the queues when an entry with waiters stays acquired and
the blocked threads that stood in the old queue stand in the new one.
-/
theorem Queued.update {owner : Option Int} (queued : Queued state)
    (newWaiters : after.waitersAt = Function.update state.waitersAt mutex waiters)
    (newOwner : after.ownerAt = Function.update state.ownerAt mutex owner)
    (acquired : waiters ≠ [] → owner ≠ none)
    (blocked : ∀ tid ∈ after.blockedThreads, tid ∉ waiters →
      tid ∈ state.blockedThreads ∧ tid ∉ state.waitersAt mutex)
    : Queued after := by
  constructor
  · intro tid member
    rw [newWaiters]
    by_cases waits : tid ∈ waiters
    · exact ⟨mutex, by simpa using waits⟩
    obtain ⟨before, elsewhere⟩ := blocked tid member waits
    obtain ⟨other, queuedThere⟩ := queued.blocked tid before
    refine ⟨other, ?_⟩
    grind
  · intro other
    have := queued.acquired other
    rw [newWaiters, newOwner, Function.update_apply, Function.update_apply]
    grind

variable {entry : Option MutexInfo}

section

variable (queued : Queued state)
include queued

/-- Entering or removing a mutex that nobody has acquired keeps the queues. -/
theorem Queued.setIdle (idle : state.ownerAt mutex = none)
    (empty : entry.elim [] MutexInfo.waiters = [])
    : Queued (state.setMutex mutex entry) := by
  have unwaited : state.waitersAt mutex = [] := by
    by_contra waiting
    exact queued.acquired mutex waiting idle
  refine queued.update (state.waitersAt_setMutex mutex entry)
    (state.ownerAt_setMutex mutex entry) (absurd empty) ?_
  intro tid member _
  exact ⟨member, by simp [unwaited]⟩

theorem Queued.doMutexLock (reads : Reads state mutex info)
    : Queued (doMutexLock state tid mutex info) := by
  unfold Pthread.doMutexLock
  split <;> rename_i held
  · refine queued.update (state.waitersAt_setMutex mutex _)
      (state.ownerAt_setMutex mutex _) (by simp [held]) ?_
    intro tid member elsewhere
    rw [reads.waiters]
    grind
  · refine queued.update (state.waitersAt_setMutex mutex _)
      (state.ownerAt_setMutex mutex _) (by simp) ?_
    intro tid member elsewhere
    rw [reads.waiters]
    exact ⟨member, elsewhere⟩

theorem Queued.doMutexUnlock (reads : Reads state mutex info)
    : Queued (doMutexUnlock state mutex info) := by
  have owned := queued.acquired mutex
  rw [reads.waiters, reads.owner] at owned
  unfold Pthread.doMutexUnlock
  split <;> rename_i waiting
  · refine queued.update (state.waitersAt_setMutex mutex _)
      (state.ownerAt_setMutex mutex _) (fun _ => by simpa [waiting] using owned) ?_
    intro tid member elsewhere
    rw [reads.waiters, waiting]
    grind
  · refine queued.update (state.waitersAt_setMutex mutex _)
      (state.ownerAt_setMutex mutex _) (by simp [waiting]) ?_
    intro tid member elsewhere
    rw [reads.waiters]
    exact ⟨member, elsewhere⟩

theorem Queued.wakeWaiter {ci : CondInfo}
    : Queued (wakeWaiter uninit state cond ci tid waiters) :=
  queued.setCond.doMutexLock Reads.mutexEntry.setCond

/-- The broadcast loop, by induction on the queue that is left. -/
theorem Queued.wakeAll {ci : CondInfo}
    : Queued (wakeAll uninit cond ci waiters state) := by
  induction waiters generalizing state with
  | nil => exact queued
  | cons tid waiters ih => exact ih queued.wakeWaiter

theorem Queued.handlePthreadMutexInit
    : Queued (handlePthreadMutexInit uninit state mutex).1 := by
  unfold Pthread.handlePthreadMutexInit
  split
  · exact queued
  · rename_i absent
    exact queued.setIdle (by simp [ownerAt, absent]) rfl

theorem Queued.handlePthreadMutexDestroy
    : Queued (handlePthreadMutexDestroy state mutex).1 := by
  unfold Pthread.handlePthreadMutexDestroy
  split
  · rename_i found
    split <;> rename_i held
    · exact queued
    · exact queued.setIdle (by simp [ownerAt_eq found, held]) rfl
  · exact queued

theorem Queued.handlePthreadMutexLock
    : Queued (handlePthreadMutexLock state tid mutex).1 := by
  unfold Pthread.handlePthreadMutexLock
  split
  · rename_i found
    split
    · exact queued
    · exact queued.doMutexLock (.of_found found)
  · exact queued

theorem Queued.handlePthreadMutexUnlock
    : Queued (handlePthreadMutexUnlock state tid mutex).1 := by
  unfold Pthread.handlePthreadMutexUnlock
  split
  · rename_i found
    split
    · split
      · exact queued
      · exact queued.doMutexUnlock (.of_found found)
    · exact queued
  · exact queued

theorem Queued.handlePthreadMutexTrylock
    : Queued (handlePthreadMutexTrylock state tid mutex).1 := by
  unfold Pthread.handlePthreadMutexTrylock
  split
  · rename_i found
    split
    · exact queued
    · exact queued.doMutexLock (.of_found found)
  · exact queued

theorem Queued.handlePthreadCondInit
    : Queued (handlePthreadCondInit state cond).1 := by
  unfold Pthread.handlePthreadCondInit
  split
  · exact queued
  · exact queued.setCond

theorem Queued.handlePthreadCondDestroy
    : Queued (handlePthreadCondDestroy state cond).1 := by
  unfold Pthread.handlePthreadCondDestroy
  split
  · split
    · exact queued
    · exact queued.setCond
  · exact queued

theorem Queued.handlePthreadCondWait
    : Queued (handlePthreadCondWait state tid cond mutex).1 := by
  unfold Pthread.handlePthreadCondWait
  split
  · rename_i found
    split
    · exact queued
    split
    · exact queued
    · exact (queued.doMutexUnlock (.of_found found)).setCond
  · exact queued

theorem Queued.handlePthreadCondSignal
    : Queued (handlePthreadCondSignal uninit state cond).1 := by
  unfold Pthread.handlePthreadCondSignal
  split
  · split
    · exact queued.wakeWaiter
    · exact queued
  · exact queued

theorem Queued.handlePthreadCondBroadcast
    : Queued (handlePthreadCondBroadcast uninit state cond).1 := by
  unfold Pthread.handlePthreadCondBroadcast
  split
  · exact queued.wakeAll
  · exact queued

/-- No emulated function breaks it, by cases on the function. -/
theorem Queued.handle {function : PthreadFunction} {arguments : List Argument} {code : ReturnCode}
    (returned : handle uninit state tid function arguments = .ok (after, code))
    : Queued after := by
  cases function <;> simp only [Pthread.handle, bind_eq_ok, Except.ok.injEq] at returned <;>
    obtain ⟨decoded, -, returned⟩ := returned <;>
    obtain rfl : _ = after := congrArg Prod.fst returned
  case mutexInit => exact queued.handlePthreadMutexInit
  case mutexDestroy => exact queued.handlePthreadMutexDestroy
  case mutexLock => exact queued.handlePthreadMutexLock
  case mutexUnlock => exact queued.handlePthreadMutexUnlock
  case mutexTrylock => exact queued.handlePthreadMutexTrylock
  case condInit => exact queued.handlePthreadCondInit
  case condDestroy => exact queued.handlePthreadCondDestroy
  case condWait => exact queued.handlePthreadCondWait
  case condSignal => exact queued.handlePthreadCondSignal
  case condBroadcast => exact queued.handlePthreadCondBroadcast

/-- Nor does any other instruction. -/
theorem Queued.step (step : ThreadStep state event after)
    : Queued after := by
  obtain ⟨-, uninit, executed⟩ := step
  cases called : event.instruction with
  | other =>
    obtain ⟨rfl, -⟩ := Prod.mk.inj (Except.ok.inj (called ▸ executed))
    exact queued
  | pthreadCreate argSize =>
    obtain rfl := executeInstruction_create (called ▸ executed)
    exact ⟨queued.blocked, queued.acquired⟩
  | pthreadCall function arguments =>
    rw [called, executeInstruction] at executed
    obtain ⟨⟨reached, code⟩, returned, result⟩ := bind_eq_ok.mp executed
    obtain ⟨rfl, -⟩ := Prod.mk.inj (Except.ok.inj result)
    exact queued.handle returned

end

theorem Queued.fresh : Queued .fresh :=
  ⟨by simp [ExecutionState.fresh, createThread],
    by simp [ExecutionState.fresh, createThread, ExecutionState.waitersAt]⟩

/-- In a program state without mutexes nobody is blocked and no lock is held or queued for,
by the invariant of the run that led to it.
-/
theorem idle_of_no_mutexes (reached : Run ThreadStep .fresh past start)
    (noMutexes : ∀ mutex, start.mutexes mutex = none)
    : start.blockedThreads = ∅ ∧ start.lockTable = LockTable.empty := by
  have queued := reached.invariant Queued.fresh Queued.step
  have unwaited : ∀ mutex, start.waitersAt mutex = [] := by
    simp [waitersAt, noMutexes]
  constructor
  · refine Finset.eq_empty_of_forall_notMem ?_
    intro tid blocked
    obtain ⟨mutex, waits⟩ := queued.blocked tid blocked
    simp [unwaited mutex] at waits
  · simp only [lockTable, LockTable.empty, LockTable.mk.injEq]
    exact ⟨funext fun mutex => by simp [ownerAt, noMutexes], funext unwaited⟩

-- The mutex calls as steps of a lock table

/-- The blocked threads are the queued ones, and the queues are orderly. -/
structure Agreeing (state : ExecutionState) : Prop where
  blocked : ∀ tid, tid ∈ state.blockedThreads ↔ state.lockTable.Waiting tid
  orderly : state.lockTable.Orderly

/-- A free mutex has nobody in its queue. -/
theorem Agreeing.unwaited (agreeing : Agreeing state)
    (found : state.mutexes mutex = some info) (free : info.acquired = false)
    : info.waiters = [] := by
  have owned := @agreeing.orderly.owned mutex
  simp only [lockTable, waitersAt_eq found, ownerAt_eq found, free] at owned
  simpa using owned

/-- Initialising or destroying a mutex, or being refused, leaves the lock table alone. -/
theorem lockTable_setIdle (idle : state.ownerAt mutex = none)
    (unwaited : state.waitersAt mutex = [])
    (unowned : (entry.bind fun info => if info.acquired then some info.owner else none) = none)
    (empty : entry.elim [] MutexInfo.waiters = [])
    : (state.setMutex mutex entry).lockTable = state.lockTable := by
  rw [lockTable_setMutex, unowned, empty, ← idle, ← unwaited]
  simp [lockTable]

/-- How a mutex call relates to the lock table: it is a step exactly when it is a
successful request or release, and it keeps the agreement.
-/
structure Simulated (state : ExecutionState) (event : Event) (after : ExecutionState)
    : Prop where
  agreeing : Agreeing after
  hidden : event.lockAction = none → after.lockTable = state.lockTable
  shown : ∀ action, event.lockAction = some action →
    state.lockTable.RunnableStep action after.lockTable

/-- A call that is no request and changes neither queues nor blocked threads. -/
theorem Simulated.of_hidden (agreeing : Agreeing state) (hidden : event.lockAction = none)
    (table : after.lockTable = state.lockTable)
    (blocked : after.blockedThreads = state.blockedThreads)
    : Simulated state event after := by
  refine ⟨⟨?_, table ▸ agreeing.orderly⟩, fun _ => table, by simp [hidden]⟩
  intro tid
  rw [table, blocked]
  exact agreeing.blocked tid

/-- A step of the table keeps its order, so only the blocked threads are to be compared. -/
theorem Simulated.of_shown {action : LockAction UInt64 Int} {table : LockTable UInt64 Int}
    (agreeing : Agreeing state) (shown : event.lockAction = some action)
    (runnable : ¬ state.lockTable.Waiting action.thread)
    (same : after.lockTable = table) (moves : state.lockTable.Step action table)
    (blocked : ∀ tid, tid ∈ after.blockedThreads ↔ table.Waiting tid)
    : Simulated state event after := by
  subst same
  refine ⟨⟨blocked, agreeing.orderly.step ⟨runnable, moves⟩⟩, by simp [shown], ?_⟩
  intro other again
  obtain rfl := Option.mem_unique shown again
  exact ⟨runnable, moves⟩

/-- Every mutex call of a thread that is not blocked is simulated, by cases on its effect. -/
theorem Agreeing.simulates (agreeing : Agreeing state) (step : MutexStep state event after)
    : Simulated state event after := by
  have runnable : ¬ state.lockTable.Waiting event.tid :=
    (not_congr (agreeing.blocked event.tid)).mp step.2.1
  obtain ⟨function, mutex, code, called, bound, effect⟩ := step.effect
  cases effect with
  | refused failed =>
    exact .of_hidden agreeing (Event.lockAction_none called (.inl (by simpa [bound]))) rfl rfl
  -- An initialised mutex is free and has no queue, like one that does not exist.
  | created uninit absent =>
    refine .of_hidden agreeing (Event.lockAction_none called (.inr (.inl rfl))) ?_ rfl
    exact lockTable_setIdle (by simp [ownerAt, absent]) (by simp [waitersAt, absent]) rfl rfl
  | destroyed found free =>
    refine .of_hidden agreeing (Event.lockAction_none called (.inr (.inr rfl))) ?_ rfl
    refine lockTable_setIdle (by simp [ownerAt_eq found, free]) ?_ rfl rfl
    rw [waitersAt_eq found, agreeing.unwaited found free]
  | taken locks found free =>
    refine .of_shown agreeing (Event.lockAction_ask called locks bound) runnable ?_
      (.take ?_) agreeing.blocked
    · rw [lockTable_setMutex]
      simp [lockTable, ← waitersAt_eq found]
    · simp [lockTable, ownerAt_eq found, free]
  | @queued info found held other =>
    have owner : state.ownerAt mutex = some info.owner := by
      simp [ownerAt_eq found, held]
    refine .of_shown agreeing (Event.lockAction_ask called (.inl rfl) bound) runnable ?_
      (.wait ?_ other) ?_
    · refine (lockTable_setMutex ..).trans ?_
      simp [lockTable, ← waitersAt_eq found, ← owner, held]
    · exact owner
    · intro tid
      rw [waiting_join_iff, ← agreeing.blocked]
      exact Finset.mem_insert
  | @handed info first rest found held own waiting =>
    have queued : state.lockTable.queue mutex = first :: rest := by
      rw [← waiting]
      exact waitersAt_eq found
    refine .of_shown agreeing (Event.lockAction_release called bound) runnable ?_
      (.pass ?_ queued) ?_
    · refine (lockTable_setMutex ..).trans ?_
      simp [lockTable, held]
    · simp [lockTable, ownerAt_eq found, held, own]
    · intro tid
      rw [agreeing.orderly.waiting_leave_iff queued, ← agreeing.blocked]
      exact Finset.mem_erase
  | freed found held own idle =>
    have unwaited : state.lockTable.queue mutex = [] := by
      rw [← idle]
      exact waitersAt_eq found
    refine .of_shown agreeing (Event.lockAction_release called bound) runnable ?_
      (.free ?_ unwaited) agreeing.blocked
    · rw [lockTable_setMutex]
      simp [lockTable, ← waitersAt_eq found]
    · simp [lockTable, ownerAt_eq found, held, own]

-- Every interleaving

/-- The thread may take itself to be in the critical section: its request succeeded, it is
not waiting for the outcome, and it has not released the mutex since.
-/
def Holds (history : List Event) (state : ExecutionState) (tid : Int) (mutex : UInt64)
    : Prop :=
  LockTable.asked tid mutex (lockActions history) = true ∧ tid ∉ state.waitersAt mutex

/-- When a waiting thread started to wait, counted in successful requests and releases. -/
def waitingSince (history : List Event) (tid : Int) : Nat :=
  LockTable.lastAction tid (lockActions history)

/-- What the emulation guarantees in a state reached by `history`. -/
structure Disciplined (history : List Event) (state : ExecutionState) : Prop where
  blocked : ∀ tid,
    tid ∈ state.blockedThreads
      ↔ ∃ mutex, (state.waitersAt mutex).count tid = 1
          ∧ ∀ other, other ≠ mutex → tid ∉ state.waitersAt other
  unblocked : ∀ tid, tid ∉ state.blockedThreads → ∀ mutex, tid ∉ state.waitersAt mutex
  apart : ∀ mutex info, state.mutexes mutex = some info → info.acquired = true →
    info.owner ∉ info.waiters
  acquired : ∀ mutex info, state.mutexes mutex = some info → info.waiters ≠ [] →
    info.acquired = true
  destroyed : ∀ event after mutex, MutexStep state event after →
    event.Calls .mutexDestroy mutex → event.code = some .success →
    state.waitersAt mutex = [] ∧ after.mutexes mutex = none
  handedOver : ∀ event after mutex, MutexStep state event after →
    event.Calls .mutexUnlock mutex → state.ownerAt mutex = some event.tid →
    event.code = some .success
      ∧ after.ownerAt mutex = (state.waitersAt mutex).head?
      ∧ after.waitersAt mutex = (state.waitersAt mutex).tail
      ∧ ∀ first ∈ (state.waitersAt mutex).head?,
          first ∉ after.blockedThreads
          ∧ ∀ other ∈ (state.waitersAt mutex).tail,
              waitingSince history first < waitingSince history other
  holder : ∀ tid mutex, Holds history state tid mutex ↔ state.ownerAt mutex = some tid
  exclusive : ∀ tid other mutex, Holds history state tid mutex →
    Holds history state other mutex → tid = other

/-- A run of mutex calls projects to a run of the lock table. -/
theorem agreeing_of_run (agreeing : Agreeing start)
    (idle : start.lockTable = empty) (run : Run MutexStep start history finish)
    : Agreeing finish
      ∧ Run RunnableStep empty (lockActions history) finish.lockTable := by
  rw [← idle]
  refine run.simulate agreeing ?_
  intro state event after agreeing step
  obtain ⟨agreeing, hidden, shown⟩ := agreeing.simulates step
  exact ⟨agreeing, hidden, shown⟩

/-- An unlock by the owner succeeds and passes the mutex to the head of its queue, by cases
on the effect.
-/
theorem MutexStep.unlock_by_owner (step : MutexStep state event after)
    (called : event.Calls .mutexUnlock mutex) (owner : state.ownerAt mutex = some event.tid)
    : event.code = some .success
      ∧ after.ownerAt mutex = (state.waitersAt mutex).head?
      ∧ after.waitersAt mutex = (state.waitersAt mutex).tail
      ∧ ∀ first ∈ (state.waitersAt mutex).head?, first ∉ after.blockedThreads := by
  obtain ⟨function, locked, code, calls, bound, effect⟩ := step.effect
  obtain ⟨rfl, rfl⟩ := called.unique calls
  refine ⟨?_, ?_⟩
  · cases effect with
    | refused failed notOwner => exact absurd owner (notOwner rfl)
    | taken locks => exact bound
    | handed => exact bound
    | freed => exact bound
  · cases effect with
    | refused failed notOwner => exact absurd owner (notOwner rfl)
    | taken locks => simp at locks
    | @handed info first rest found held own waiting =>
      rw [waitersAt_eq found, waiting]
      refine ⟨?_, ?_, by simp⟩
      · refine (congrFun (state.ownerAt_setMutex mutex _) mutex).trans ?_
        simp [held]
      · refine (congrFun (state.waitersAt_setMutex mutex _) mutex).trans ?_
        simp
    | freed found held own idle =>
      rw [waitersAt_eq found, idle, ownerAt_setMutex, waitersAt_setMutex]
      simp

/-- A mutex that is destroyed was free. -/
theorem MutexStep.destroys_free (step : MutexStep state event after)
    (called : event.Calls .mutexDestroy mutex) (granted : event.code = some .success)
    : state.ownerAt mutex = none ∧ after.mutexes mutex = none := by
  obtain ⟨function, locked, code, calls, bound, effect⟩ := step.effect
  obtain ⟨rfl, rfl⟩ := called.unique calls
  cases effect with
  | refused failed => exact absurd (Option.mem_unique bound granted) failed
  | taken locks => simp at locks
  | destroyed found free =>
    refine ⟨by simp [ownerAt_eq found, free], ?_⟩
    simp [setMutex]

/-- From any program state without mutexes, every interleaving of mutex calls by threads
that are not blocked is disciplined: the run projects to a run of the lock table, whose
order and record give each clause.
-/
theorem mutexes_disciplined (reached : Run ThreadStep .fresh past start)
    (noMutexes : ∀ mutex, start.mutexes mutex = none) (run : Run MutexStep start history finish)
    : Disciplined history finish := by
  obtain ⟨noneBlocked, idle⟩ := idle_of_no_mutexes reached noMutexes
  have initial : Agreeing start :=
    ⟨by simp [noneBlocked, idle, Waiting, empty], idle ▸ .of_empty⟩
  obtain ⟨⟨blocked, orderly⟩, projected⟩ := agreeing_of_run initial idle run
  obtain ⟨-, known, inOrder⟩ := orderly_recorded_of_run projected
  have holder : ∀ tid mutex, Holds history finish tid mutex ↔ finish.ownerAt mutex = some tid := by
    intro tid mutex
    have apart := @orderly.apart mutex tid
    have known := known tid mutex
    rw [Holds, known]
    tauto
  have unblocked : ∀ tid, tid ∉ finish.blockedThreads → ∀ mutex, tid ∉ finish.waitersAt mutex := by
    intro tid free mutex waits
    exact free ((blocked tid).mpr ⟨mutex, waits⟩)
  have owned : ∀ mutex info, finish.mutexes mutex = some info → info.waiters ≠ [] →
      info.acquired = true := by
    intro mutex info found waiting
    by_contra free
    exact waiting (Agreeing.unwaited ⟨blocked, orderly⟩ found (by simpa using free))
  refine ⟨?_, unblocked, ?_, owned, ?_, ?_, holder, ?_⟩
  · intro tid
    rw [blocked]
    constructor
    · rintro ⟨mutex, waits⟩
      refine ⟨mutex, List.count_eq_one_of_mem (orderly.once mutex) waits, ?_⟩
      intro other elsewhere twice
      exact elsewhere (orderly.oneQueue twice waits)
    · rintro ⟨mutex, once, -⟩
      exact ⟨mutex, List.count_pos_iff.mp (by rw [lockTable, once]; simp)⟩
  · intro mutex info found held
    rw [← waitersAt_eq found]
    exact orderly.apart (by simp [lockTable, ownerAt_eq found, held])
  · intro event after mutex step called granted
    obtain ⟨free, gone⟩ := step.destroys_free called granted
    refine ⟨?_, gone⟩
    by_contra waiting
    exact orderly.owned waiting free
  · intro event after mutex step called owner
    obtain ⟨granted, next, rest, woken⟩ := step.unlock_by_owner called owner
    refine ⟨granted, next, rest, ?_⟩
    intro first head
    refine ⟨woken first head, ?_⟩
    obtain ⟨tail, queue⟩ := List.head?_eq_some_iff.mp head
    have sorted := inOrder mutex
    simp only [lockTable, queue] at sorted
    rw [queue]
    exact (List.pairwise_cons.mp sorted).1
  · intro tid other mutex holds holdsToo
    have same := ((holder tid mutex).mp holds).symm.trans ((holder other mutex).mp holdsToo)
    exact Option.some.inj same

/-- Witness: one thread initialises and locks a mutex and a second one queues for it. -/
theorem mutexes_disciplined_contended
    : ∃ history finish, Run MutexStep .fresh history finish
        ∧ finish.ownerAt 8 = some 0
        ∧ finish.blockedThreads = {1}
        ∧ Disciplined history finish := by
  let call (tid : Int) (function : PthreadFunction) : Event :=
    ⟨tid, .pthreadCall function [.pointer 8], some .success⟩
  let initialised := (handlePthreadMutexInit 0 .fresh 8).1
  let locked := (handlePthreadMutexLock initialised 0 8).1
  let contended := (handlePthreadMutexLock locked 1 8).1
  have init : MutexStep .fresh (call 0 .mutexInit) initialised :=
    ⟨⟨_, _, rfl, trivial⟩, by decide, 0, rfl⟩
  have lock : MutexStep initialised (call 0 .mutexLock) locked :=
    ⟨⟨_, _, rfl, trivial⟩, by decide, 0, rfl⟩
  have contend : MutexStep locked (call 1 .mutexLock) contended :=
    ⟨⟨_, _, rfl, trivial⟩, by decide, 0, rfl⟩
  have run := ((Run.nil.snoc init).snoc lock).snoc contend
  exact ⟨_, _, run, rfl, rfl, mutexes_disciplined .nil (fun _ => rfl) run⟩

end Woodpecker.Pthread
