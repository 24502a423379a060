import Mathlib.Data.Finset.Card
import Woodpecker.Pthread.Mutexes

/-! The round-robin choice of `runNextInstruction` and the runs it makes of programs that
create threads and call the mutex functions.

The loop settles on an unblocked thread whenever there is one and on `-1` otherwise. A
program is brought into a state without unblocked threads by exactly one kind of step: the
last unblocked thread locks a mutex that another thread holds.
-/

namespace Woodpecker.Pthread

open Library List

variable {state after finish : ExecutionState} {event : Event} {tid : Int}

/-- `best` is the least of the threads in `seen` that are `wanted`, or `-1` for none. -/
def Least (wanted : Int → Prop) (seen : List Int) (best : Int) : Prop :=
  (best = -1 ∧ ∀ tid ∈ seen, ¬ wanted tid)
  ∨ (best ∈ seen ∧ wanted best ∧ ∀ tid ∈ seen, wanted tid → best ≤ tid)

theorem runNextInstruction_ok {uninit : Int} {instruction : Instruction} {code : Option ReturnCode}
    (executed : runNextInstruction uninit state instruction = .ok (after, code))
    : nextTid state ∈ state.threads
      ∧ ∃ reached, executeInstruction uninit state (nextTid state) instruction = .ok (reached, code)
          ∧ after = { reached with lastTid := nextTid state } := by
  unfold runNextInstruction getThread at executed
  split at executed
  · cases executed
  next tid found =>
    obtain ⟨member, same⟩ := Option.ite_none_right_eq_some.mp found
    cases same
    obtain ⟨⟨reached, code⟩, returned, result⟩ := bind_eq_ok.mp executed
    cases result
    exact ⟨member, reached, returned, rfl⟩

/-- The cyclic order of ids that starts after `last`. -/
def Before (last tid other : Int) : Prop :=
  if last < tid then other ≤ last ∨ tid < other else other ≤ last ∧ tid < other

/-- One more thread updates the least one as the loop does. -/
theorem Least.snoc {wanted : Int → Prop} [DecidablePred wanted] {seen : List Int}
    {best : Int} (least : Least wanted seen best) (ids : -1 ∉ seen) (tid : Int)
    : Least wanted (seen ++ [tid])
        (if wanted tid ∧ (best = -1 ∨ best > tid) then tid else best) := by
  simp only [Least, mem_append, mem_singleton] at least ⊢
  rcases least with ⟨rfl, none⟩ | ⟨member, isWanted, below⟩
  · by_cases chosen : wanted tid <;> simp only [chosen] <;> grind
  · by_cases chosen : wanted tid <;> by_cases lower : best > tid <;>
      simp only [chosen, lower] <;> grind

section

variable (ids : -1 ∉ state.threads)
include ids

/-- Both candidates after the whole loop, by induction on the threads from the end. -/
theorem candidates_least
    : Least (· ∉ state.blockedThreads) state.threads
        (state.threads.foldl (considerThread state) ⟨-1, -1⟩).min_tid
      ∧ Least (fun tid => tid ∉ state.blockedThreads ∧ tid > state.lastTid) state.threads
        (state.threads.foldl (considerThread state) ⟨-1, -1⟩).next_tid := by
  suffices loop : ∀ seen : List Int, -1 ∉ seen → Least (· ∉ state.blockedThreads) seen
        (seen.foldl (considerThread state) ⟨-1, -1⟩).min_tid
      ∧ Least (fun tid => tid ∉ state.blockedThreads ∧ tid > state.lastTid) seen
        (seen.foldl (considerThread state) ⟨-1, -1⟩).next_tid from
    loop state.threads ids
  intro seen
  induction seen using reverseRecOn with
  | nil => simp [Least]
  | append_singleton seen tid ih =>
    intro ids
    have earlier : -1 ∉ seen := fun member => ids (mem_append_left _ member)
    obtain ⟨least, next⟩ := ih earlier
    have least := least.snoc earlier tid
    have next := next.snoc earlier tid
    rw [foldl_append]
    simp only [foldl_cons, foldl_nil, considerThread]
    by_cases blocked : tid ∈ state.blockedThreads
    · simpa [blocked] using And.intro least next
    · simpa [blocked, and_assoc] using And.intro least next

/-- The choice is `-1` if all threads are blocked, and otherwise the first unblocked one in the
cyclic order after `lastTid`.
-/
theorem nextTid_cases
    : (nextTid state = -1 ∧ ∀ tid ∈ state.threads, tid ∈ state.blockedThreads)
      ∨ nextTid state ∈ state.threads ∧ nextTid state ∉ state.blockedThreads
        ∧ ∀ tid ∈ state.threads, tid ∉ state.blockedThreads
          → tid = nextTid state ∨ Before state.lastTid (nextTid state) tid := by
  obtain ⟨least, next⟩ := candidates_least ids
  unfold nextTid
  rcases next with ⟨noNext, none⟩ | ⟨nextMember, ⟨nextFree, later⟩, below⟩
  · rw [if_pos noNext]
    rcases least with ⟨noLeast, noneFree⟩ | ⟨leastMember, leastFree, below⟩
    · exact .inl ⟨noLeast, by simpa using noneFree⟩
    · refine .inr ⟨leastMember, leastFree, fun tid member free => ?_⟩
      unfold Before
      grind
  · rw [if_neg (ne_of_mem_of_not_mem nextMember ids)]
    refine .inr ⟨nextMember, nextFree, fun tid member free => ?_⟩
    unfold Before
    grind

/-- The choice is an unblocked thread exactly when there is one. -/
theorem nextTid_unblocked_iff
    : (nextTid state ∈ state.threads ∧ nextTid state ∉ state.blockedThreads)
      ↔ ∃ tid ∈ state.threads, tid ∉ state.blockedThreads := by
  refine ⟨fun chosen => ⟨_, chosen⟩, ?_⟩
  rintro ⟨tid, member, free⟩
  rcases nextTid_cases ids with ⟨-, noneFree⟩ | ⟨chosen, isFree, -⟩
  · exact absurd (noneFree tid member) free
  · exact ⟨chosen, isFree⟩

/-- A thread that is chosen at all is the first unblocked one. -/
theorem nextTid_first (member : nextTid state ∈ state.threads)
    : nextTid state ∉ state.blockedThreads
      ∧ ∀ tid ∈ state.threads, tid ∉ state.blockedThreads
        → tid = nextTid state ∨ Before state.lastTid (nextTid state) tid := by
  rcases nextTid_cases ids with ⟨none, -⟩ | ⟨-, first⟩
  · exact absurd (none ▸ member) ids
  · exact first

/-- `runNextInstruction` finds the thread it picks, and that thread is not blocked. -/
def Picks (state : ExecutionState) : Prop :=
  ∃ tid, getThread state (nextTid state) = some tid ∧ tid ∉ state.blockedThreads

/-- The instructions of a program that creates threads and calls mutex functions only. -/
def Instruction.UsesMutexesOnly (instruction : Instruction) : Prop :=
  instruction.IsMutexCall ∨ instruction = .other ∨ ∃ argSize, instruction = .pthreadCreate argSize

/-- The scheduled thread runs an instruction of such a program. -/
def ScheduledStep (state : ExecutionState) (event : Event) (after : ExecutionState) : Prop :=
  event.instruction.UsesMutexesOnly
  ∧ event.tid = nextTid state
  ∧ ∃ uninit, runNextInstruction uninit state event.instruction = .ok (after, event.code)

/-- The last unblocked thread locks a mutex that another thread holds. -/
def Deadlocks (transition : Transition ExecutionState Event) : Prop :=
  ∃ mutex owner,
    transition.label.Calls .mutexLock mutex
    ∧ transition.before.ownerAt mutex = some owner
    ∧ owner ≠ transition.label.tid
    ∧ ∀ other ∈ transition.before.threads,
        other ≠ transition.label.tid → other ∈ transition.before.blockedThreads

theorem picks_iff
    : Picks state ↔ ∃ tid ∈ state.threads, tid ∉ state.blockedThreads := by
  rw [← nextTid_unblocked_iff ids, Picks, getThread]
  split <;> simp_all

/-- A scheduled step is a step of a thread that exists and is not blocked, after which
`lastTid` is set.
-/
theorem ScheduledStep.threadStep (step : ScheduledStep state event after)
    : event.tid ∈ state.threads
      ∧ ∃ reached, ThreadStep state event reached
          ∧ after = { reached with lastTid := event.tid } := by
  obtain ⟨-, chosen, uninit, executed⟩ := step
  obtain ⟨member, reached, returned, rfl⟩ := runNextInstruction_ok executed
  rw [← chosen] at returned
  rw [chosen]
  exact ⟨member, reached, ⟨chosen ▸ (nextTid_first ids member).1, uninit, returned⟩, rfl⟩

end

/-- Thread ids are counted from zero. -/
structure Numbered (state : ExecutionState) : Prop where
  nonneg : ∀ tid ∈ state.threads, 0 ≤ tid
  counter : -1 ≤ state.maxThreadNumber

theorem Numbered.ids (numbered : Numbered state) : -1 ∉ state.threads := fun member =>
  absurd (numbered.nonneg _ member) (by decide)

theorem Numbered.createThread (numbered : Numbered state)
    : Numbered (createThread state) ∧ state.threads ⊆ (createThread state).threads := by
  obtain ⟨nonneg, counter⟩ := numbered
  simp only [Pthread.createThread, insertThread]
  refine ⟨⟨?_, ?_⟩, ?_⟩
  · intro tid member
    split at member
    · exact nonneg tid member
    rcases (mem_orderedInsert ..).mp member with rfl | earlier
    · omega
    · exact nonneg tid earlier
  · simp only
    omega
  · intro tid member
    split
    · exact member
    · exact (mem_orderedInsert ..).mpr (.inr member)

/-- A mutex call by an unblocked thread leaves all threads blocked exactly when it is the
deadlocking one, by cases on its effect.
-/
theorem MutexStep.unblocked_iff (step : MutexStep state event after)
    (member : event.tid ∈ state.threads)
    : after.threads = state.threads ∧ after.maxThreadNumber = state.maxThreadNumber
      ∧ ((∃ tid ∈ after.threads, tid ∉ after.blockedThreads)
          ↔ ¬ Deadlocks ⟨state, event, finish⟩) := by
  have free := step.2.1
  obtain ⟨function, mutex, code, called, bound, effect⟩ := step.effect
  -- Unless the caller is queued it stays unblocked, and the step does not deadlock.
  have running : event.tid ∈ after.threads → event.tid ∉ after.blockedThreads →
      (function = .mutexLock → ∀ owner, state.ownerAt mutex = some owner → owner = event.tid) →
      ((∃ tid ∈ after.threads, tid ∉ after.blockedThreads)
        ↔ ¬ Deadlocks ⟨state, event, finish⟩) := by
    intro member free uncontended
    refine iff_of_true ⟨event.tid, member, free⟩ ?_
    rintro ⟨locked, owner, calls, owned, other, -⟩
    obtain ⟨rfl, rfl⟩ := called.unique calls
    exact other (uncontended rfl owner owned)
  cases effect with
  | refused failed notOwner uncontended => exact ⟨rfl, rfl, running member free uncontended⟩
  | created | destroyed => exact ⟨rfl, rfl, running member free (by simp)⟩
  | taken locks found idle =>
    refine ⟨rfl, rfl, running member free ?_⟩
    simp [ExecutionState.ownerAt_eq found, idle]
  | queued found held other =>
    refine ⟨rfl, rfl, ?_⟩
    constructor
    · rintro ⟨tid, listed, unblocked⟩ ⟨-, -, -, -, -, blocked⟩
      rcases eq_or_ne tid event.tid with rfl | another
      · exact unblocked (Finset.mem_insert_self ..)
      · exact unblocked (Finset.mem_insert_of_mem (blocked tid listed another))
    · intro alive
      by_contra stuck
      refine alive ⟨mutex, _, called, by simp [ExecutionState.ownerAt_eq found, held], other, ?_⟩
      intro tid listed another
      by_contra unblocked
      exact stuck ⟨tid, listed, by simpa [another] using unblocked⟩
  | handed found held own waiting =>
    exact ⟨rfl, rfl, running member (fun blocked => free (Finset.mem_of_mem_erase blocked))
      (by simp)⟩
  | freed found held own idle => exact ⟨rfl, rfl, running member free (by simp)⟩

/-- A scheduled step keeps the numbering, and the next choice fails exactly when the step
was the deadlocking one. By cases on the instruction.
-/
theorem Numbered.step (numbered : Numbered state) (step : ScheduledStep state event after)
    : Numbered after ∧ (Picks after ↔ ¬ Deadlocks ⟨state, event, after⟩) := by
  obtain ⟨member, reached, ran, rfl⟩ := step.threadStep numbered.ids
  have free := ran.1
  suffices kept : Numbered reached
      ∧ ((∃ tid ∈ reached.threads, tid ∉ reached.blockedThreads)
          ↔ ¬ Deadlocks ⟨state, event, { reached with lastTid := event.tid }⟩) by
    obtain ⟨after, alive⟩ := kept
    refine ⟨⟨after.nonneg, after.counter⟩, ?_⟩
    refine Iff.trans (picks_iff ?_) alive
    exact after.ids
  rcases step.1 with isMutex | plain | ⟨argSize, creates⟩
  · obtain ⟨threads, counter, alive⟩ := MutexStep.unblocked_iff ⟨isMutex, ran⟩ member
    refine ⟨⟨?_, ?_⟩, alive⟩
    · rw [threads]
      exact numbered.nonneg
    · rw [counter]
      exact numbered.counter
  · obtain ⟨-, uninit, executed⟩ := ran
    obtain ⟨rfl, -⟩ := Prod.mk.inj (Except.ok.inj (plain ▸ executed))
    refine ⟨numbered, iff_of_true ⟨event.tid, member, free⟩ ?_⟩
    rintro ⟨mutex, owner, ⟨arguments, calls, -⟩, -⟩
    cases plain.symm.trans calls
  · obtain ⟨-, uninit, executed⟩ := ran
    obtain rfl := executeInstruction_create (creates ▸ executed)
    obtain ⟨after, kept⟩ := numbered.createThread
    refine ⟨after, iff_of_true ⟨event.tid, kept member, free⟩ ?_⟩
    rintro ⟨mutex, owner, ⟨arguments, calls, -⟩, -⟩
    cases creates.symm.trans calls

theorem Numbered.fresh : Numbered .fresh :=
  ⟨by decide, by decide⟩

/-- In every state a scheduled run reaches, `runNextInstruction` picks an existing unblocked
thread exactly when no step of the run was a deadlocking lock, by induction on the run. A
state in which the choice failed has no successor.
-/
theorem picks_iff_no_deadlock {trace : List (Transition ExecutionState Event)}
    (run : Run (Takes ScheduledStep) .fresh trace finish)
    : Picks finish ↔ ∀ transition ∈ trace, ¬ Deadlocks transition := by
  suffices kept : Numbered finish
      ∧ (Picks finish ↔ ∀ transition ∈ trace, ¬ Deadlocks transition) from kept.2
  refine run.history (fun past state => Numbered state
      ∧ (Picks state ↔ ∀ transition ∈ past, ¬ Deadlocks transition)) ?_ ?_
  · refine ⟨.fresh, iff_of_true ?_ (by simp)⟩
    exact (picks_iff Numbered.fresh.ids).mpr ⟨0, by decide, by decide⟩
  rintro past state ⟨before, event, reached⟩ after ⟨numbered, alive⟩ ⟨rfl, rfl, step⟩
  obtain ⟨stays, next⟩ := numbered.step step
  obtain ⟨member, _, ran, -⟩ := step.threadStep numbered.ids
  have picked : Picks before :=
    (picks_iff numbered.ids).mpr ⟨event.tid, member, ran.1⟩
  refine ⟨stays, next.trans ?_⟩
  simp only [mem_append, mem_singleton, or_imp, forall_and, forall_eq]
  exact (and_iff_right (alive.mp picked)).symm

/-- A program whose instructions execute one after the other makes a scheduled run, by
induction on the program from the end.
-/
theorem exists_scheduled_run (state : ExecutionState) (program : List Instruction)
    (uses : ∀ instruction ∈ program, instruction.UsesMutexesOnly)
    (executed : program.foldlM (fun state instruction => do
        let result ← runNextInstruction 0 state instruction
        .ok result.1) state = .ok finish)
    : ∃ trace, Run (Takes ScheduledStep) state trace finish
      ∧ trace.map (·.label.instruction) = program := by
  induction program using reverseRecOn generalizing finish with
  | nil =>
    cases executed
    exact ⟨[], .nil, rfl⟩
  | append_singleton program instruction ih =>
    rw [foldlM_append] at executed
    obtain ⟨middle, ran, last⟩ := bind_eq_ok.mp executed
    obtain ⟨reached, stepped, done⟩ := bind_eq_ok.mp last
    cases done
    obtain ⟨⟨after, code⟩, returned, result⟩ := bind_eq_ok.mp stepped
    cases result
    obtain ⟨trace, run, labels⟩ :=
      ih (fun earlier member => uses earlier (mem_append_left _ member)) ran
    have step : ScheduledStep middle ⟨nextTid middle, instruction, code⟩ after :=
      ⟨uses instruction (by simp), rfl, 0, returned⟩
    exact ⟨_, run.record step, by simp [labels]⟩

/-- Witness: the second thread holds a mutex and the first one queues for it, and the
second thread is still picked.
-/
theorem picks_iff_no_deadlock_contended
    : ∃ trace finish, Run (Takes ScheduledStep) .fresh trace finish
        ∧ finish.blockedThreads = {0}
        ∧ nextTid finish = 1
        ∧ ∀ transition ∈ trace, ¬ Deadlocks transition := by
  let call (function : PthreadFunction) : Instruction := .pthreadCall function [.pointer 8]
  let program : List Instruction :=
    [.pthreadCreate (some 1), call .mutexInit, .other, call .mutexLock, call .mutexLock]
  have uses : ∀ instruction ∈ program, instruction.UsesMutexesOnly := by
    simp [program, call, Instruction.UsesMutexesOnly, Instruction.IsMutexCall,
      PthreadFunction.IsMutex]
  obtain ⟨trace, run, -⟩ := exists_scheduled_run .fresh program uses rfl
  refine ⟨trace, _, run, rfl, rfl, (picks_iff_no_deadlock run).mp ⟨1, rfl, by decide⟩⟩

/-- Two threads each lock a mutex and then the one the other holds. Both are blocked, the
loop settles on `-1`, and the lookup of that thread is a null pointer.
-/
theorem opposite_locks_pick_nobody
    : ∃ trace finish, Run (Takes ScheduledStep) .fresh trace finish
        ∧ finish.threads = [0, 1]
        ∧ finish.blockedThreads = {0, 1}
        ∧ nextTid finish = -1
        ∧ ¬ Picks finish
        ∧ runNextInstruction 0 finish .other = .error .badPointer := by
  let call (function : PthreadFunction) (mutex : UInt64) : Instruction :=
    .pthreadCall function [.pointer mutex]
  let program : List Instruction :=
    [.pthreadCreate (some 1), call .mutexInit 8, call .mutexInit 16, call .mutexLock 8,
      call .mutexLock 16, call .mutexLock 16, call .mutexLock 8]
  have uses : ∀ instruction ∈ program, instruction.UsesMutexesOnly := by
    simp [program, call, Instruction.UsesMutexesOnly, Instruction.IsMutexCall,
      PthreadFunction.IsMutex]
  obtain ⟨trace, run, -⟩ := exists_scheduled_run .fresh program uses rfl
  refine ⟨trace, _, run, rfl, rfl, rfl, ?_, rfl⟩
  rintro ⟨tid, found, -⟩
  cases found

-- Rounds

/-- The thread of this id runs the next instruction, and no thread is created, blocked or
woken.
-/
def Turn (state : ExecutionState) (tid : Int) (after : ExecutionState) : Prop :=
  tid = nextTid state
  ∧ (∃ uninit instruction code,
      runNextInstruction uninit state instruction = .ok (after, code))
  ∧ after.threads = state.threads ∧ after.blockedThreads = state.blockedThreads

def unblocked (state : ExecutionState) : Finset Int :=
  state.threads.toFinset \ state.blockedThreads

/-- A turn goes to the first unblocked thread after that of the last turn. -/
theorem Turn.spec (ids : -1 ∉ state.threads) (turn : Turn state tid after)
    : after.lastTid = tid ∧ tid ∈ unblocked state
      ∧ ∀ other ∈ unblocked state, other = tid ∨ Before state.lastTid tid other := by
  obtain ⟨rfl, ⟨uninit, instruction, code, executed⟩, -⟩ := turn
  obtain ⟨member, reached, -, rfl⟩ := runNextInstruction_ok executed
  obtain ⟨isFree, first⟩ := nextTid_first ids member
  refine ⟨rfl, by simp [unblocked, member, isFree], fun other isOther => ?_⟩
  simp only [unblocked, Finset.mem_sdiff, mem_toFinset] at isOther
  exact first other isOther.1 isOther.2

/-- In the round from `start` on, the thread that follows the one of the last turn. -/
theorem Before.follow {start last tid other left : Int} (remains : Before start last left)
    (ofLeft : left = tid ∨ Before last tid left) (ofOther : other = tid ∨ Before last tid other)
    : (¬ Before start last other ∨ other = tid ↔ ¬ Before start tid other)
      ∧ (¬ Before start last other → Before start other tid) := by
  unfold Before at *
  grind

end Woodpecker.Pthread
