import Mathlib.Data.List.Nodup
import Woodpecker.Library.Runs

/-! Locks with a first-in first-out queue, for any types of locks and threads.

A thread asks for a lock and gets it at once or queues for it; a release hands the lock to
the head of the queue. The facts proved here hold along every run in which a queued thread
does nothing: at most one thread believes it holds a lock, nobody queues twice, and the
queues are in the order in which the threads started to wait.
-/

namespace Woodpecker.Library

open Function (update update_apply)

universe u v

variable {Lock : Type u} {Thread : Type v}

structure LockTable (Lock : Type u) (Thread : Type v) where
  owner : Lock → Option Thread
  queue : Lock → List Thread

inductive LockAction (Lock : Type u) (Thread : Type v) where
  | ask (thread : Thread) (lock : Lock)
  | release (thread : Thread) (lock : Lock)
deriving DecidableEq

/-- Who acts. -/
def LockAction.thread : LockAction Lock Thread → Thread
  | ask thread _ => thread
  | release thread _ => thread

@[simp]
theorem LockAction.thread_ask (thread : Thread) (lock : Lock)
    : (ask thread lock).thread = thread :=
  rfl

@[simp]
theorem LockAction.thread_release (thread : Thread) (lock : Lock)
    : (release thread lock).thread = thread :=
  rfl

namespace LockTable

variable [DecidableEq Lock] [DecidableEq Thread]
  {table after : LockTable Lock Thread} {action : LockAction Lock Thread}
  {history : List (LockAction Lock Thread)} {lock : Lock} {thread : Thread}

def Waiting (table : LockTable Lock Thread) (thread : Thread) : Prop :=
  ∃ lock, thread ∈ table.queue lock

/-- The four things that can happen to the table. -/
inductive Step : LockTable Lock Thread → LockAction Lock Thread → LockTable Lock Thread → Prop
  | take {table : LockTable Lock Thread} {thread : Thread} {lock : Lock}
    (free : table.owner lock = none)
    : Step table (.ask thread lock)
        { table with owner := Function.update table.owner lock (some thread) }
  | wait {table : LockTable Lock Thread} {thread owner : Thread} {lock : Lock}
    (taken : table.owner lock = some owner) (other : owner ≠ thread)
    : Step table (.ask thread lock)
        { table with queue := Function.update table.queue lock (table.queue lock ++ [thread]) }
  | pass {table : LockTable Lock Thread} {thread first : Thread} {lock : Lock}
    {rest : List Thread} (held : table.owner lock = some thread)
    (queued : table.queue lock = first :: rest)
    : Step table (.release thread lock)
        { owner := Function.update table.owner lock (some first)
          queue := Function.update table.queue lock rest }
  | free {table : LockTable Lock Thread} {thread : Thread} {lock : Lock}
    (held : table.owner lock = some thread) (empty : table.queue lock = [])
    : Step table (.release thread lock)
        { table with owner := Function.update table.owner lock none }

/-- A step of a thread that is not itself waiting. -/
def RunnableStep (table : LockTable Lock Thread) (action : LockAction Lock Thread)
    (after : LockTable Lock Thread)
    : Prop :=
  ¬ table.Waiting action.thread ∧ table.Step action after

/-- No lock has an owner or a queue. -/
def empty : LockTable Lock Thread where
  owner _ := none
  queue _ := []

/-- Owners do not queue for what they own, a lock without owner has no queue, and a thread
stands at most once in at most one queue.
-/
structure Orderly (table : LockTable Lock Thread) : Prop where
  owned : ∀ {lock}, table.queue lock ≠ [] → table.owner lock ≠ none
  apart : ∀ {lock thread}, table.owner lock = some thread → thread ∉ table.queue lock
  oneQueue : ∀ {lock other thread},
    thread ∈ table.queue lock → thread ∈ table.queue other → lock = other
  once : ∀ lock, (table.queue lock).Nodup

omit [DecidableEq Lock] [DecidableEq Thread] in
theorem Orderly.of_empty : (empty : LockTable Lock Thread).Orderly :=
  ⟨by simp [empty], by simp [empty], by simp [empty], by simp [empty]⟩

omit [DecidableEq Thread] in
/-- Every step of a thread that does not wait keeps the table orderly, by cases on the
step; only the lock of the action changes.
-/
theorem Orderly.step (orderly : table.Orderly) (step : table.RunnableStep action after)
    : after.Orderly := by
  obtain ⟨runnable, step⟩ := step
  obtain ⟨owned, apart, oneQueue, once⟩ := orderly
  simp only [Waiting, not_exists] at runnable
  cases step with
  | take free =>
    refine ⟨?_, ?_, oneQueue, once⟩ <;> simp only [update] <;>
      grind [LockAction.thread_ask, LockAction.thread_release]
  | wait taken other =>
    refine ⟨?_, ?_, ?_, ?_⟩ <;> simp only [update] <;>
      grind [LockAction.thread_ask, LockAction.thread_release]
  | @pass thread first lock rest held queued =>
    refine ⟨?_, ?_, ?_, ?_⟩ <;> simp only [update] <;>
      grind [LockAction.thread_ask, LockAction.thread_release]
  | free held none =>
    refine ⟨?_, ?_, oneQueue, once⟩ <;> simp only [update] <;>
      grind [LockAction.thread_ask, LockAction.thread_release]

omit [DecidableEq Thread] in
/-- Joining a queue makes exactly the joining thread wait in addition. -/
theorem waiting_join_iff {other : Thread}
    : ({ table with queue :=
          Function.update table.queue lock (table.queue lock ++ [thread]) }
        : LockTable Lock Thread).Waiting other
      ↔ other = thread ∨ table.Waiting other := by
  simp only [Waiting, update_apply]
  constructor
  · rintro ⟨queue, member⟩
    grind
  · rintro (rfl | ⟨queue, member⟩)
    · exact ⟨lock, by simp⟩
    · exact ⟨queue, by grind⟩

omit [DecidableEq Thread] in
/-- Leaving the head of a queue makes exactly that thread stop waiting, since it stands
nowhere else.
-/
theorem Orderly.waiting_leave_iff {first other : Thread} {rest : List Thread}
    (orderly : table.Orderly) (queued : table.queue lock = first :: rest)
    {owner : Lock → Option Thread}
    : ({ owner := owner, queue := update table.queue lock rest }
        : LockTable Lock Thread).Waiting other
      ↔ other ≠ first ∧ table.Waiting other := by
  obtain ⟨-, -, oneQueue, once⟩ := orderly
  constructor
  · rintro ⟨queue, member⟩
    refine ⟨?_, queue, ?_⟩ <;> grind
  · rintro ⟨stays, queue, member⟩
    exact ⟨queue, by grind⟩

-- What a thread knows

/-- The thread's own view of a lock: it asked for it and has not released it since. -/
def asked (thread : Thread) (lock : Lock) (history : List (LockAction Lock Thread)) : Bool :=
  history.foldl
    (fun held action =>
      if action = .ask thread lock then true
      else if action = .release thread lock then false
      else held)
    false

/-- How many actions had been taken when `thread` took its last one. -/
def lastAction (thread : Thread) (history : List (LockAction Lock Thread)) : Nat :=
  history.length - history.reverse.findIdx (·.thread = thread)

theorem asked_snoc
    : asked thread lock (history ++ [action]) = if action = .ask thread lock then true
        else if action = .release thread lock then false
        else asked thread lock history := by
  simp [asked]

omit [DecidableEq Lock] in
theorem lastAction_snoc
    : lastAction thread (history ++ [action]) = if action.thread = thread then history.length + 1
        else lastAction thread history := by
  simp only [lastAction, List.reverse_append, List.reverse_singleton, List.singleton_append,
    List.findIdx_cons, List.length_append, List.length_singleton]
  by_cases same : action.thread = thread <;> simp [same]

omit [DecidableEq Lock] in

/-- What the history says about the table: who asked for a lock owns it or queues for it,
and queues list the threads in the order of their last actions.
-/
structure Recorded (history : List (LockAction Lock Thread)) (table : LockTable Lock Thread)
    : Prop where
  known : ∀ thread lock,
    asked thread lock history = true
      ↔ table.owner lock = some thread ∨ thread ∈ table.queue lock
  inOrder : ∀ lock,
    (table.queue lock).Pairwise fun first second =>
      lastAction first history < lastAction second history

theorem Recorded.of_empty : Recorded [] (empty : LockTable Lock Thread) :=
  ⟨by simp [asked, empty], by simp [empty]⟩

omit [DecidableEq Lock] in
/-- A queue the actor does not stand in keeps its order, since no last action in it moves. -/
theorem pairwise_lastAction_snoc {queue : List Thread} (inOrder : queue.Pairwise fun first second =>
      lastAction first history < lastAction second history)
    (absent : action.thread ∉ queue)
    : queue.Pairwise fun first second =>
        lastAction first (history ++ [action]) < lastAction second (history ++ [action]) := by
  refine inOrder.imp_of_mem ?_
  intro first second firstIn secondIn earlier
  rw [lastAction_snoc, lastAction_snoc, if_neg, if_neg]
  · exact earlier
  · rintro rfl
    exact absent secondIn
  · rintro rfl
    exact absent firstIn

omit [DecidableEq Lock] in
/-- A thread that joins a queue has acted later than everybody in it. -/
theorem pairwise_lastAction_join {queue : List Thread} (inOrder : queue.Pairwise fun first second =>
      lastAction first history < lastAction second history)
    (absent : thread ∉ queue)
    : (queue ++ [thread]).Pairwise fun first second =>
        lastAction first (history ++ [.ask thread lock])
          < lastAction second (history ++ [.ask thread lock]) := by
  refine List.pairwise_append.mpr ⟨pairwise_lastAction_snoc inOrder absent, by simp, ?_⟩
  intro first firstIn second secondIn
  obtain rfl := List.mem_singleton.mp secondIn
  rw [lastAction_snoc, lastAction_snoc, if_neg, if_pos (LockAction.thread_ask ..)]
  · exact Nat.lt_succ_of_le (Nat.sub_le ..)
  · rintro rfl
    exact absent firstIn

/-- One step keeps the record, by cases on it. Only the actor's own record moves, and the
actor stands in no queue.
-/
theorem Recorded.step (recorded : Recorded history table) (orderly : table.Orderly)
    (step : table.RunnableStep action after)
    : Recorded (history ++ [action]) after := by
  obtain ⟨runnable, step⟩ := step
  obtain ⟨owned, apart, -, once⟩ := orderly
  have absent : ∀ lock, action.thread ∉ table.queue lock := not_exists.mp runnable
  have steady := fun lock =>
    pairwise_lastAction_snoc (recorded.inOrder lock) (absent lock)
  have known := recorded.known
  cases step with
  | take free =>
    refine ⟨?_, steady⟩
    intro thread lock
    rw [asked_snoc]
    grind [LockAction.thread_ask]
  | @wait thread owner lock taken other =>
    refine ⟨?_, ?_⟩
    · intro thread lock
      rw [asked_snoc]
      grind [LockAction.thread_ask]
    · intro queued
      rcases eq_or_ne queued lock with rfl | elsewhere
      · simpa using pairwise_lastAction_join (recorded.inOrder queued) (absent queued)
      · simpa [elsewhere] using steady queued
  | @pass thread first lock rest held queued =>
    refine ⟨?_, ?_⟩
    · intro thread lock
      rw [asked_snoc]
      grind [LockAction.thread_release]
    · intro other
      rcases eq_or_ne other lock with rfl | elsewhere
      · have ordered := steady other
        rw [queued] at ordered
        simpa using ordered.of_cons
      · simpa [elsewhere] using steady other
  | free held none =>
    refine ⟨?_, steady⟩
    intro thread lock
    rw [asked_snoc]
    grind [LockAction.thread_release]

/-- Both facts hold along every run from the empty table, by induction on the run. -/
theorem orderly_recorded_of_run (run : Run RunnableStep empty history table)
    : table.Orderly ∧ Recorded history table := by
  refine run.history (fun past table => table.Orderly ∧ Recorded past table)
    ⟨.of_empty, .of_empty⟩ ?_
  rintro past table action after ⟨orderly, recorded⟩ step
  exact ⟨orderly.step step, recorded.step orderly step⟩

end LockTable

end Woodpecker.Library
