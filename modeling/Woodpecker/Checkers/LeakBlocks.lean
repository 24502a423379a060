import Woodpecker.Checkers.Pairwise
import Woodpecker.Library.Runs

/-! The leak checker follows an allocator: what it has as started are the live blocks.

The allocator is given by what each call may do to the set of live blocks. A call is seen as
one event with its result if it is native, and as a call and a return if it is interpreted.
-/

namespace Woodpecker.Checkers

open Library

namespace LeakChecker

/-- What a program does to its heap, with the handles and sizes it gives and gets. -/
inductive Operation where
  | alloc (ret : UInt64)
  | realloc (ptr size ret : UInt64)
  | free (ptr : UInt64)
deriving DecidableEq, Repr

/-- The specification of the allocator, as a relation between the live blocks before and
after. A null result is a failure; `realloc` with size zero frees the block.
-/
inductive Behaves (live : Finset UInt64) : Operation → Finset UInt64 → Prop
  | failed : Behaves live (.alloc 0) live
  | allocated {ret : UInt64} (nonnull : ret ≠ 0) (fresh : ret ∉ live)
    : Behaves live (.alloc ret) (insert ret live)
  | freedNull : Behaves live (.free 0) live
  | freed {ptr : UInt64} (held : ptr ∈ live) : Behaves live (.free ptr) (live.erase ptr)
  | reallocFailed (size : UInt64) : Behaves live (.realloc 0 size 0) live
  | reallocAllocated (size : UInt64) {ret : UInt64} (nonnull : ret ≠ 0) (fresh : ret ∉ live)
    : Behaves live (.realloc 0 size ret) (insert ret live)
  | reallocFreed {ptr : UInt64} (held : ptr ∈ live)
    : Behaves live (.realloc ptr 0 0) (live.erase ptr)
  | reallocKept {ptr size : UInt64} (held : ptr ∈ live) (nonzero : size ≠ 0)
    : Behaves live (.realloc ptr size 0) live
  | resized {ptr size : UInt64} (held : ptr ∈ live) (nonzero : size ≠ 0)
    : Behaves live (.realloc ptr size ptr) live
  | moved {ptr size ret : UInt64} (held : ptr ∈ live) (nonzero : size ≠ 0)
    (nonnull : ret ≠ 0) (fresh : ret ∉ live)
    : Behaves live (.realloc ptr size ret) (insert ret (live.erase ptr))

/-- An event with the memory it is handled in. -/
inductive Event where
  | onCall (memory : Memory) (call : Call)
  | onRet (memory : Memory) (ret : Return)

def respond (checker : LeakChecker) : Event → LeakChecker × Result
  | .onCall memory call => checker.onCall memory call
  | .onRet memory ret => checker.onRet memory ret

/-- The functions of the traces looked at. -/
def isHeapFunction (funcname : String) : Bool :=
  funcname ∈ ["malloc", "calloc", "strdup", "strndup", "realloc", "free"]

def Event.isHeap : Event → Bool
  | .onCall _ call => isHeapFunction call.funcname
  | .onRet _ ret => ret.funcname.any isHeapFunction

/-- The operation an event is. Results are known at the call for native code and at the
return for interpreted code; `free` has none.
-/
def Event.operation : Event → Option Operation
  | .onCall _ call =>
    if call.funcname = "free" then
      some (.free (call.args.elim (getIntFromExp (call.arguments 0)) fun args => args 2))
    else if call.funcname = "realloc" then
      call.args.map fun args => .realloc (args 2) (args 3) (args 0)
    else call.args.map fun args => .alloc (args 0)
  | .onRet _ ret =>
    let argument := ret.getCallingArgument
    if ret.funcname = some "free" then none
    else if ret.funcname = some "realloc" then
      some (.realloc (getIntFromExp (argument 1)) (getIntFromExp (argument 2))
        (getIntFromExp ret.result))
    else some (.alloc (getIntFromExp ret.result))

/-- The live blocks after an event, if the event is an operation at all. -/
def Follows (live : Finset UInt64) (operation : Option Operation) (after : Finset UInt64)
    : Prop :=
  operation.elim (after = live) fun operation => Behaves live operation after

/-- The checker, and the allocator it watches. -/
structure Watched where
  checker : LeakChecker
  live : Finset UInt64

def Watched.start : Watched where
  checker := create
  live := ∅

structure Entry where
  event : Event
  result : Result

/-- The checker handles an event of a heap function, and the allocator does as specified. -/
structure Step (watched : Watched) (entry : Entry) (after : Watched) : Prop where
  heap : entry.event.isHeap = true
  responds : watched.checker.respond entry.event = (after.checker, entry.result)
  follows : Follows watched.live entry.event.operation after.live

-- The started blocks are the live ones

/-- The checker sees heap operations, and has started what is live. -/
structure Holds (pairs : PairwiseChecker) (live : Finset UInt64) : Prop where
  unignored : pairs.ignore_ops = 0
  start_funcs : pairs.start_funcs = {"malloc", "calloc"}
  end_funcs : pairs.end_funcs = {"free"}
  ignore_set : pairs.ignore_set = {0}
  started : ∀ handle, (pairs.started.find? handle).isSome ↔ handle ∈ live
  nonnull : 0 ∉ live

variable {pairs : PairwiseChecker} {live after : Finset UInt64}

theorem holds_create : Holds create.pairs ∅ where
  unignored := rfl
  start_funcs := rfl
  end_funcs := rfl
  ignore_set := rfl
  started := by simp [create, PairwiseChecker.create, Table.find?]
  nonnull := by simp

section

variable (holds : Holds pairs live)
include holds

/-- A block is started, unless its handle is null. -/
theorem parseStart_holds (ret : UInt64) (site : AllocInfo)
    : Holds (pairs.parseStart ret site).1 (if ret = 0 then live else insert ret live)
      ∧ (pairs.parseStart ret site).2 = IMPORTANT := by
  have null : ret ∈ pairs.ignore_set ↔ ret = 0 := by simp [holds.ignore_set]
  unfold PairwiseChecker.parseStart
  by_cases isNull : ret = 0
  · rw [if_pos (null.mpr isNull), if_pos isNull]
    exact ⟨holds, rfl⟩
  · rw [if_neg (mt null.mp isNull), if_neg isNull]
    refine ⟨{ holds with started := ?_, nonnull := ?_ }, rfl⟩
    · intro handle
      rw [Table.isSome_find?_insertNew, holds.started, Finset.mem_insert]
    · simp [Ne.symm isNull, holds.nonnull]

variable {ptr : UInt64}

/-- A live block is ended; the null handle is passed over. -/
theorem parseEnd_holds (held : ptr = 0 ∨ ptr ∈ live)
    : Holds (pairs.parseEnd ptr).1 (live.erase ptr)
      ∧ (pairs.parseEnd ptr).2 = IMPORTANT := by
  have null : ptr ∈ pairs.ignore_set ↔ ptr = 0 := by simp [holds.ignore_set]
  unfold PairwiseChecker.parseEnd
  by_cases isNull : ptr = 0
  · rw [if_pos (null.mpr isNull), isNull, Finset.erase_eq_of_notMem holds.nonnull]
    exact ⟨holds, rfl⟩
  have present : (pairs.started.find? ptr).isSome :=
    (holds.started ptr).mpr (held.resolve_left isNull)
  rw [if_neg (mt null.mp isNull), if_pos present]
  refine ⟨{ holds with started := ?_, nonnull := ?_ }, rfl⟩
  · intro handle
    rw [Table.find?_erase, Finset.mem_erase, ← holds.started]
    by_cases same : handle = ptr <;> simp [same]
  · simp [holds.nonnull]

variable {ret : UInt64}

/-- Each outcome of `realloc` is followed. -/
theorem parseRealloc_holds {size : UInt64}
    (behaves : Behaves live (.realloc ptr size ret) after) (site : AllocInfo)
    : Holds (parseRealloc pairs ptr size ret site).1 after
      ∧ (parseRealloc pairs ptr size ret site).2 = IMPORTANT := by
  have nonnull {handle : UInt64} (held : handle ∈ live) : handle ≠ 0 := by
    intro isNull
    exact holds.nonnull (isNull ▸ held)
  unfold parseRealloc
  cases behaves with
  | reallocFailed => simpa using parseStart_holds holds 0 site
  | reallocAllocated _ realRet fresh =>
    simpa [realRet] using parseStart_holds holds ret site
  | reallocFreed held =>
    simpa [nonnull held] using parseEnd_holds holds (.inr held)
  | reallocKept held nonzero =>
    simpa [nonnull held, nonzero] using holds
  | resized held nonzero =>
    obtain ⟨ended, -⟩ := parseEnd_holds holds (.inr held)
    obtain ⟨started, -⟩ := parseStart_holds ended ptr site
    rw [if_neg (nonnull held), Finset.insert_erase held] at started
    simpa [nonnull held, nonzero] using started
  | moved held nonzero realRet fresh =>
    obtain ⟨ended, -⟩ := parseEnd_holds holds (.inr held)
    obtain ⟨started, -⟩ := parseStart_holds ended ret site
    simpa [nonnull held, nonzero, realRet] using started

theorem startIf_holds (behaves : Behaves live (.alloc ret) after) (site : AllocInfo)
    : Holds (startIf pairs ret site).1 after
      ∧ (startIf pairs ret site).2 = IMPORTANT ||| NEED_RET := by
  unfold startIf
  cases behaves with
  | failed => simpa using holds
  | allocated nonnull fresh =>
    obtain ⟨started, -⟩ := parseStart_holds holds ret site
    simpa [nonnull] using started

theorem parseStart_behaves (behaves : Behaves live (.alloc ret) after) (site : AllocInfo)
    : Holds (pairs.parseStart ret site).1 after
      ∧ (pairs.parseStart ret site).2 = IMPORTANT := by
  have started := parseStart_holds holds ret site
  cases behaves with
  | failed => simpa using started
  | allocated nonnull fresh => simpa [nonnull] using started

theorem parseEnd_behaves (behaves : Behaves live (.free ptr) after)
    : Holds (pairs.parseEnd ptr).1 after ∧ (pairs.parseEnd ptr).2 = IMPORTANT := by
  cases behaves with
  | freedNull =>
    have ended := parseEnd_holds holds (.inl rfl)
    rwa [Finset.erase_eq_of_notMem holds.nonnull] at ended
  | freed held => exact parseEnd_holds holds (.inr held)

end

/-- An outcome that follows the allocator and is no error. -/
def Served (after : Finset UInt64) (outcome : LeakChecker × Result) : Prop :=
  Holds outcome.1.pairs after ∧ ¬ IsError outcome.2

variable {checker : LeakChecker}

/-- The bits that ask for arguments and results are no errors. -/
theorem served_needs {outcome : PairwiseChecker × Result} {need_args : Result}
    (served : Holds outcome.1 after ∧ outcome.2 = IMPORTANT)
    (fine : ¬ IsError (IMPORTANT ||| need_args))
    : Served after (checker.withPairs (PairwiseChecker.needs outcome need_args)) := by
  refine ⟨served.1, ?_⟩
  simpa [withPairs, PairwiseChecker.needs, served.2] using fine

theorem served_none {result : Result} (holds : Holds checker.pairs live)
    (follows : Follows live none after) (fine : ¬ IsError result)
    : Served after (checker, result) := by
  obtain rfl : after = live := follows
  exact ⟨holds, fine⟩

/-- The branches of a hook, one test at a time. -/
theorem served_ite {test : Prop} [Decidable test] {first second : LeakChecker × Result}
    (yes : test → Served after first) (no : ¬ test → Served after second)
    : Served after (if test then first else second) := by
  split
  next holds => exact yes holds
  next fails => exact no fails

variable {funcname : String}

theorem heap_not_ignored (heap : isHeapFunction funcname = true)
    : isIgnored funcname = false ∧ funcname ≠ "getline" := by
  have other (name : String) (outside : isHeapFunction name = false) : funcname ≠ name := by
    intro same
    simp [same, outside] at heap
  simp [isIgnored, other "init_cur_collate" rfl, other "__fd_open" rfl, other "write" rfl,
    other "_stdio_fopen" rfl, other "fclose" rfl, other "klee_init_env" rfl, other "getline" rfl]

/-- The names left when a name of the list is neither `realloc` nor one of the copies. -/
theorem heap_pairs (heap : isHeapFunction funcname = true) (notRealloc : funcname ≠ "realloc")
    (notCopy : ¬ (funcname = "strdup" ∨ funcname = "strndup"))
    : funcname = "malloc" ∨ funcname = "calloc" ∨ funcname = "free" := by
  simp [isHeapFunction] at heap
  grind

section

variable (holds : Holds checker.pairs live)
include holds

/-- A call that the pairwise checker handles: `malloc` and `calloc` start, `free` ends. -/
theorem pairs_onCall_served {memory : Memory} {call : Call}
    (name : call.funcname = "malloc" ∨ call.funcname = "calloc" ∨ call.funcname = "free")
    (follows : Follows live (Event.onCall memory call).operation after)
    : Served after (checker.withPairs (checker.pairs.onCall checker.mayBeEvent call)) := by
  have fine : ¬ IsError OK := by decide
  have event : checker.mayBeEvent call.funcname = true := by
    rcases name with name | name | name <;>
      simp [mayBeEvent, PairwiseChecker.mayBeEvent, name, holds.start_funcs, holds.end_funcs]
  unfold PairwiseChecker.onCall
  simp only [holds.unignored, ne_eq, not_true_eq_false, if_false, event, holds.start_funcs,
    holds.end_funcs]
  simp only [Event.operation] at follows
  cases args : call.args with
  | none =>
    simp only [args] at follows ⊢
    rcases name with name | name | name <;> simp only [name] at follows ⊢
    · exact served_none holds follows fine
    · exact served_none holds follows fine
    · exact served_needs (parseEnd_behaves holds follows) (by decide)
  | some words =>
    simp only [args] at follows ⊢
    rcases name with name | name | name <;> simp only [name] at follows ⊢
    · exact served_needs (parseStart_behaves holds follows call.site) (by decide)
    · exact served_needs (parseStart_behaves holds follows call.site) (by decide)
    · exact served_needs (parseEnd_behaves holds follows) (by decide)

/-- A return that the pairwise checker handles. -/
theorem pairs_onRet_served {memory : Memory} {ret : Return} (named : ret.funcname = some funcname)
    (name : funcname = "malloc" ∨ funcname = "calloc" ∨ funcname = "free")
    (follows : Follows live (Event.onRet memory ret).operation after)
    : Served after (checker.withPairs (checker.pairs.onRet checker.mayBeEvent ret)) := by
  have fine : ¬ IsError OK := by decide
  have event : checker.mayBeEvent funcname = true := by
    rcases name with name | name | name <;>
      simp [mayBeEvent, PairwiseChecker.mayBeEvent, name, holds.start_funcs, holds.end_funcs]
  unfold PairwiseChecker.onRet
  simp only [named, holds.unignored, ne_eq, not_true_eq_false, if_false, event, holds.start_funcs]
  simp only [Event.operation, named] at follows
  rcases name with name | name | name <;> simp only [name] at follows ⊢
  · exact served_needs (parseStart_behaves holds follows ret.site) (by decide)
  · exact served_needs (parseStart_behaves holds follows ret.site) (by decide)
  · exact served_none holds follows fine

/-- An event of a heap function keeps what is started and what is live together. -/
theorem respond_served {event : Event}
    (heap : event.isHeap = true) (follows : Follows live event.operation after)
    : Served after (checker.respond event) := by
  cases event with
  | onCall memory call =>
    obtain ⟨unlisted, notGetline⟩ := heap_not_ignored heap
    simp only [respond, onCall, unlisted, Bool.false_eq_true, if_false]
    apply served_ite
    · exact fun busy => absurd holds.unignored busy
    intro _
    apply served_ite
    · intro name
      simp only [Event.operation, name] at follows
      cases args : call.args with
      | none =>
        rw [args] at follows
        exact served_none holds follows (by decide)
      | some words =>
        rw [args] at follows
        exact served_needs (parseRealloc_holds holds follows call.site) (by decide)
    intro notRealloc
    apply served_ite
    · exact fun name => absurd name notGetline
    intro _
    apply served_ite
    · intro name
      have notFree : call.funcname ≠ "free" := by
        rcases name with name | name <;> simp [name]
      simp only [Event.operation, if_neg notFree, if_neg notRealloc] at follows
      cases args : call.args with
      | none =>
        rw [args] at follows
        exact served_none holds follows (by decide)
      | some words =>
        rw [args] at follows
        obtain ⟨started, result⟩ := startIf_holds holds follows call.site
        refine ⟨started, ?_⟩
        simp only [withPairs, result]
        decide
    intro notCopy
    exact pairs_onCall_served holds (heap_pairs heap notRealloc notCopy) follows
  | onRet memory ret =>
    rcases named : ret.funcname with _ | funcname
    · simp [Event.isHeap, named] at heap
    have heap : isHeapFunction funcname = true := by
      simpa [Event.isHeap, named] using heap
    obtain ⟨unlisted, notGetline⟩ := heap_not_ignored heap
    simp only [respond, onRet, named, unlisted, notGetline, Bool.false_eq_true, or_self, if_false]
    apply served_ite
    · exact fun busy => absurd holds.unignored busy
    intro _
    apply served_ite
    · intro name
      simp only [Event.operation, named, name] at follows
      exact served_needs (parseRealloc_holds holds follows ret.site) (by decide)
    intro notRealloc
    apply served_ite
    · intro name
      have notFree : funcname ≠ "free" := by
        rcases name with name | name <;> simp [name]
      simp [Event.operation, named, if_neg notFree, if_neg notRealloc] at follows
      obtain ⟨started, result⟩ := startIf_holds holds follows ret.site
      refine ⟨started, ?_⟩
      simp only [withPairs, result]
      decide
    intro notCopy
    exact pairs_onRet_served holds named (heap_pairs heap notRealloc notCopy) follows

end

/-- In every trace of heap calls that an allocator as specified answers, the started blocks
are the live ones and no call is an error, by induction on the trace.
-/
theorem started_eq_live {history : List Entry} {finish : Watched}
    (run : Run Step Watched.start history finish)
    : (∀ handle, (finish.checker.pairs.started.find? handle).isSome ↔ handle ∈ finish.live)
      ∧ ∀ entry ∈ history, ¬ IsError entry.result := by
  obtain ⟨holds, quiet⟩ := run.history (fun history watched =>
      Holds watched.checker.pairs watched.live ∧ ∀ entry ∈ history, ¬ IsError entry.result)
    ⟨holds_create, by simp⟩
    (by
      intro past watched entry after ⟨holds, quiet⟩ step
      have served := respond_served holds step.heap step.follows
      rw [step.responds] at served
      exact ⟨served.1, List.forall_mem_append.mpr ⟨quiet, List.forall_mem_singleton.mpr served.2⟩⟩)
  exact ⟨holds.started, quiet⟩

/-- A native call with its result and first two arguments. -/
def nativeEvent (funcname : String) (ret first second : UInt64) : Event :=
  .onCall .silent
    { funcname
      arguments := fun _ => ⟨0, .constant 0⟩
      args := some fun index => [ret, 0, first, second].getD index 0
      site := ⟨""⟩
      thread := 0 }

/-- Witness: a block is allocated and moved by `realloc`. -/
theorem started_eq_live_moved
    : let allocated := create.respond (nativeEvent "malloc" 16 8 0)
      let moved := allocated.1.respond (nativeEvent "realloc" 32 16 64)
      (∀ handle, (moved.1.pairs.started.find? handle).isSome
        ↔ handle ∈ ({32} : Finset UInt64))
      ∧ ∀ entry ∈ [(⟨nativeEvent "malloc" 16 8 0, allocated.2⟩ : Entry),
          ⟨nativeEvent "realloc" 32 16 64, moved.2⟩], ¬ IsError entry.result := by
  intro allocated moved
  have allocating
      : Step Watched.start ⟨nativeEvent "malloc" 16 8 0, allocated.2⟩ ⟨allocated.1, {16}⟩ :=
    ⟨rfl, rfl, .allocated (by decide) (by decide)⟩
  have moving
      : Step ⟨allocated.1, {16}⟩ ⟨nativeEvent "realloc" 32 16 64, moved.2⟩ ⟨moved.1, {32}⟩ :=
    ⟨rfl, rfl, .moved (by decide) (by decide) (by decide) (by decide)⟩
  exact started_eq_live ((Run.nil.snoc allocating).snoc moving)

end LeakChecker

end Woodpecker.Checkers
