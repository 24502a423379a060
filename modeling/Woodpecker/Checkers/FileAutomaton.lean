import Woodpecker.Checkers.File
import Woodpecker.Library.Runs
import Woodpecker.Library.Traces

/-! The four sets of the file checker are one small automaton per handle.

Calls and returns are decoded to operations on handles; those the checker passes over by
design, on standard streams and on streams without a descriptor, are no operations. The
set a handle is in is then the state of a reference automaton run on the operations of that
handle alone, and what the checker reports is read off the history of the handle.
-/

namespace Woodpecker.Checkers

open Library

namespace FileChecker

/-- An event with the memory it is handled in. -/
inductive Event where
  | onCall (memory : Memory) (call : Call)
  | onRet (ret : Return)

def respond (checker : FileChecker) : Event → FileChecker × Result
  | .onCall memory call => checker.onCall memory call
  | .onRet ret => checker.onRet ret

/-- What is done to a stream: `ferror` counts when it finds an error, and a transfer is a
read or a write.
-/
inductive Operation where
  | fopen
  | fclose
  | clearerr
  | ferror
  | transfer
deriving DecidableEq, Repr

/-- A stream that could not be opened is no handle. -/
def opening (fp : UInt64) : Option (UInt64 × Operation) :=
  if fp ≠ 0 then some (fp, .fopen) else none

def testing (ret fp : UInt64) : Option (UInt64 × Operation) :=
  if ret ≠ 0 then some (fp, .ferror) else none

/-- The operation an event is, with its handle. The result of `fopen` and of `ferror` is
known at the call for native code and at the return for interpreted code.
-/
def Event.operation : Event → Option (UInt64 × Operation)
  | .onCall memory call =>
    if isClearerr call.funcname then some (argument call 0, .clearerr)
    else if isOpen call.funcname then call.args.bind fun args => opening (args 0)
    else if call.funcname = "fclose" then
      if closeIgnored memory call then none else some (argument call 0, .fclose)
    else if isFerror call.funcname then
      call.args.bind fun args => testing (args 0) (args 2)
    else
      (streamIndex call.funcname).bind fun index =>
        if useIgnored memory call index then none
        else some (argument call index, .transfer)
  | .onRet ret =>
    ret.funcname.bind fun funcname =>
      if isOpen funcname then opening (getIntFromExp ret.result)
      else if isFerror funcname then
        testing (getIntFromExp ret.result) (getIntFromExp (ret.getCallingArgument 1))
      else none

/-- What handling an event does, by the operation it is. -/
inductive Effect (checker : FileChecker)
    : Option (UInt64 × Operation) → FileChecker → Result → Prop
  | none (result : Result) : Effect checker none checker result
  | fopen (handle : UInt64) (result : Result)
    : Effect checker (some (handle, .fopen))
        { checker with open_fds := insert handle checker.open_fds } result
  | fclose (handle : UInt64)
    : Effect checker (some (handle, .fclose)) (checker.closeStream handle).1
        (checker.closeStream handle).2
  | clearerr (handle : UInt64) (result : Result)
    : Effect checker (some (handle, .clearerr)) (checker.clearError handle) result
  | ferror (handle : UInt64) (result : Result)
    : Effect checker (some (handle, .ferror)) (checker.detectError handle) result
  | transfer (handle : UInt64) (index : Nat) (narrow : index ≤ 3)
    : Effect checker (some (handle, .transfer)) (checker.useStream handle (needArg index)).1
        (checker.useStream handle (needArg index)).2

theorem effect_opening (checker : FileChecker) (fp : UInt64) (result : Result)
    : checker.Effect (opening fp) (checker.insertOpen fp) result := by
  unfold opening insertOpen
  split
  · exact .fopen fp result
  · exact .none result

theorem effect_testing (checker : FileChecker) (ret fp : UInt64) (result : Result)
    : checker.Effect (testing ret fp) (checker.testError ret fp) result := by
  unfold testing testError
  split
  · exact .ferror fp result
  · exact .none result

/-- A name that fails the first test is none of those looked at past it. -/
theorem unnamed_of_short {funcname : String} (short : ¬ longF funcname)
    : isOpen funcname = false
      ∧ funcname ≠ "fclose"
      ∧ isFerror funcname = false
      ∧ streamIndex funcname = none := by
  have other (name : String) (long : longF name) : funcname ≠ name := by
    rintro rfl
    exact short long
  simp [isOpen, isFerror, streamIndex, other "fopen" rfl, other "fopen64" rfl, other "fdopen" rfl,
    other "fclose" rfl, other "ferror" rfl, other "ferror_unlocked" rfl, other "fread" rfl,
    other "fread_unlocked" rfl, other "fwrite" rfl, other "fwrite_unlocked" rfl, other "fputs" rfl,
    other "fputs_unlocked" rfl, other "fgets" rfl, other "fgets_unlocked" rfl, other "fprintf" rfl]

theorem streamIndex_le {funcname : String} {index : Nat} (found : streamIndex funcname = some index)
    : index ≤ 3 := by
  unfold streamIndex at found
  grind

/-- Handling an event has the effect of its operation, branch by branch. -/
theorem respond_effect (checker : FileChecker) (event : Event)
    : checker.Effect event.operation (checker.respond event).1 (checker.respond event).2 := by
  cases event with
  | onCall memory call =>
    simp only [respond, onCall, Event.operation]
    split
    · exact .clearerr _ _
    by_cases long : longF call.funcname
    · split
      · cases call.args with
        | none => exact .none _
        | some args => exact effect_opening checker (args 0) _
      split
      · split
        · exact .none _
        · exact .fclose _
      split
      · cases call.args with
        | none => exact .none _
        | some args => exact effect_testing checker (args 0) (args 2) _
      cases found : streamIndex call.funcname with
      | none => exact .none _
      | some index =>
        simp only [Option.bind_some]
        split
        · exact .none _
        · exact .transfer _ _ (streamIndex_le found)
    -- A name outside the long list is in none of the shorter ones.
    · obtain ⟨opens, closes, tests, index⟩ := unnamed_of_short long
      simp only [long, opens, closes, tests, index, Bool.false_eq_true,
        not_false_eq_true, if_true, if_false, Option.bind_none]
      exact .none _
  | onRet ret =>
    simp only [respond, onRet, Event.operation]
    rcases ret.funcname with _ | funcname
    · exact .none _
    simp only [Option.bind_some]
    split
    · exact effect_opening checker _ _
    split
    · exact effect_testing checker _ _ _
    · exact .none _

-- The reference automaton

/-- A stream as the checker is to see it: whether an error was detected and not cleared,
and whether data went through it.
-/
inductive Stream where
  | closed
  | opened (failed used : Bool)
deriving DecidableEq, Repr

def Stream.advance : Stream → Operation → Stream
  | _, .fopen => .opened false false
  | _, .fclose => .closed
  | .opened _ used, .clearerr => .opened false used
  | .opened _ used, .ferror => .opened true used
  | .opened false _, .transfer => .opened false true
  | stream, _ => stream

/-- The set for streams with these two flags. -/
def fds (checker : FileChecker) (failed used : Bool) : Finset UInt64 :=
  match failed, used with
  | false, false => checker.open_fds
  | true, false => checker.err_fds
  | false, true => checker.dirty_fds
  | true, true => checker.err_dirty_fds

/-- Every set holds the handles whose stream is in its state. -/
def Agrees (checker : FileChecker) (streams : UInt64 → Stream) : Prop :=
  ∀ handle failed used,
    handle ∈ checker.fds failed used ↔ streams handle = .opened failed used

def Tracks (checker : FileChecker) (handle : UInt64) : Prop :=
  ∃ failed used, handle ∈ checker.fds failed used

/-- The streams after an operation, which advances its own handle. -/
def advanceAll (streams : UInt64 → Stream) : Option (UInt64 × Operation) → UInt64 → Stream
  | none => streams
  | some (handle, operation) =>
    Function.update streams handle ((streams handle).advance operation)

variable {checker after : FileChecker} {streams : UInt64 → Stream}
  {operation : Option (UInt64 × Operation)} {result : Result} {handle : UInt64}

/-- In agreement a handle is in one set at most. -/
theorem Agrees.disjoint (agrees : checker.Agrees streams)
    : [checker.open_fds, checker.err_fds, checker.dirty_fds,
        checker.err_dirty_fds].Pairwise Disjoint := by
  have apart (failed used failed' used' : Bool) (differ : (failed, used) ≠ (failed', used'))
      : Disjoint (checker.fds failed used) (checker.fds failed' used') := by
    refine Finset.disjoint_left.mpr fun handle here there => differ ?_
    have same := ((agrees _ _ _).mp here).symm.trans ((agrees _ _ _).mp there)
    simpa using same
  simpa [List.pairwise_cons, fds] using
    (⟨⟨apart false false true false (by decide), apart false false false true (by decide),
        apart false false true true (by decide)⟩,
      ⟨apart true false false true (by decide), apart true false true true (by decide)⟩,
      apart false true true true (by decide)⟩ : (_ ∧ _ ∧ _) ∧ (_ ∧ _) ∧ _)

theorem Agrees.tracks_iff (agrees : checker.Agrees streams)
    : checker.Tracks handle ↔ streams handle ≠ .closed := by
  constructor
  · rintro ⟨failed, used, held⟩
    simp [(agrees handle failed used).mp held]
  · intro tracked
    cases stream : streams handle with
    | closed => exact absurd stream tracked
    | opened failed used => exact ⟨failed, used, (agrees handle failed used).mpr stream⟩

/-- An operation leaves every handle but its own where it is. -/
theorem Effect.other (effect : checker.Effect operation after result)
    (unmoved : ∀ own, operation ≠ some (handle, own)) (failed used : Bool)
    : handle ∈ after.fds failed used ↔ handle ∈ checker.fds failed used := by
  have differ : ∀ own op, operation = some (own, op) → handle ≠ own := by
    rintro own op rfl rfl
    exact unmoved op rfl
  cases effect with
  | none => exact Iff.rfl
  | fopen own =>
    have differ := differ own _ rfl
    cases failed <;> cases used <;> simp [fds, differ]
  | fclose own =>
    have differ := differ own _ rfl
    simp only [closeStream]
    split <;> cases failed <;> cases used <;> simp [fds, differ]
  | clearerr own =>
    have differ := differ own _ rfl
    simp only [clearError]
    split_ifs <;> cases failed <;> cases used <;> simp [fds, differ]
  | ferror own =>
    have differ := differ own _ rfl
    unfold detectError
    split_ifs <;> cases failed <;> cases used <;> simp [fds, differ]
  | transfer own =>
    have differ := differ own _ rfl
    unfold useStream
    split_ifs <;> cases failed <;> cases used <;> simp [fds, differ]

/-- In agreement the handle of an operation goes where its automaton goes, state by
state.
-/
theorem Effect.own {own : Operation} (effect : checker.Effect (some (handle, own)) after result)
    (agrees : checker.Agrees streams) (fresh : own = .fopen → streams handle = .closed)
    (failed used : Bool)
    : handle ∈ after.fds failed used
      ↔ (streams handle).advance own = .opened failed used := by
  have inSets := agrees handle
  simp only [Bool.forall_bool, fds] at inSets
  cases effect with
  | fopen =>
    cases failed <;> cases used <;>
      simp_all [fds, Stream.advance]
  | fclose =>
    simp only [closeStream]
    split <;> cases failed <;> cases used <;> simp [fds, Stream.advance]
  | clearerr =>
    rcases state : streams handle with _ | ⟨_ | _, _ | _⟩ <;>
      cases failed <;> cases used <;>
        simp_all [fds, clearError, Stream.advance]
  | ferror =>
    rcases state : streams handle with _ | ⟨_ | _, _ | _⟩ <;>
      cases failed <;> cases used <;>
        simp_all [fds, detectError, Stream.advance]
  | transfer =>
    rcases state : streams handle with _ | ⟨_ | _, _ | _⟩ <;>
      cases failed <;> cases used <;>
        simp_all [fds, useStream, Stream.advance]

/-- The sets follow the automata through every operation, provided a stream that is opened
was closed before.
-/
theorem Agrees.effect (agrees : checker.Agrees streams)
    (effect : checker.Effect operation after result)
    (fresh : ∀ handle, operation = some (handle, .fopen) → streams handle = .closed)
    : after.Agrees (advanceAll streams operation) := by
  intro handle failed used
  rcases operation with _ | ⟨moved, own⟩
  · exact (effect.other (by simp) failed used).trans (agrees handle failed used)
  by_cases same : handle = moved
  · subst same
    rw [effect.own agrees (fun opens => fresh handle (by rw [opens])) failed used]
    simp [advanceAll]
  have stays : advanceAll streams (some (moved, own)) handle = streams handle :=
    Function.update_of_ne same _ _
  have unmoved (op : Operation) : some (moved, own) ≠ some (handle, op) := by
    simp [Ne.symm same]
  rw [stays, ← agrees handle failed used]
  exact effect.other unmoved failed used

-- Histories

/-- An event and the result it was answered with. -/
structure Entry where
  event : Event
  result : Result

def Entry.Does (entry : Entry) (handle : UInt64) (operation : Operation) : Prop :=
  entry.event.operation = some (handle, operation)

/-- One event handled. A stream that is opened is not one still tracked. -/
structure Step (checker : FileChecker) (entry : Entry) (after : FileChecker) : Prop where
  responds : checker.respond entry.event = (after, entry.result)
  fresh : ∀ handle, entry.Does handle .fopen → ¬ checker.Tracks handle

theorem Step.effect {entry : Entry} (step : checker.Step entry after)
    : checker.Effect entry.event.operation after entry.result := by
  have effect := respond_effect checker entry.event
  rwa [step.responds] at effect

/-- The reference automata after a history, each run on the operations of its handle. -/
def reference (history : List Entry) : UInt64 → Stream :=
  keyedState Stream.advance .closed (history.filterMap fun entry => entry.event.operation)

theorem reference_snoc (past : List Entry) (entry : Entry)
    : reference (past ++ [entry]) = advanceAll (reference past) entry.event.operation := by
  simp only [reference, List.filterMap_append]
  rcases operation : entry.event.operation with _ | ⟨handle, own⟩
  · simp [operation, advanceAll]
  · simp only [List.filterMap_cons, operation, List.filterMap_nil]
    exact keyedState_snoc _ handle own

/-- Opened, and not closed since. -/
def Open (handle : UInt64) (history : List Entry) : Prop :=
  Since (·.Does handle .fopen) (·.Does handle .fclose) history

/-- An error was detected, and since then it was not cleared and the stream neither closed
nor opened anew.
-/
def Failed (handle : UInt64) (history : List Entry) : Prop :=
  Since (·.Does handle .ferror)
    (fun entry => entry.Does handle .clearerr ∨ entry.Does handle .fclose
      ∨ entry.Does handle .fopen)
    history

/-- Read from or written to without an error, and since then neither closed nor opened
anew.
-/
def Unsaved (handle : UInt64) (history : List Entry) : Prop :=
  Since (fun entry => entry.Does handle .transfer ∧ ¬ IsError entry.result)
    (fun entry => entry.Does handle .fclose ∨ entry.Does handle .fopen)
    history

/-- The flags of a stream say what happened to its handle. -/
structure Reflects (history : List Entry) (handle : UInt64) (stream : Stream) : Prop where
  isOpen : Open handle history ↔ stream ≠ .closed
  failed : ∀ failed used, stream = .opened failed used
    → (Failed handle history ↔ failed = true)
  used : Unsaved handle history ↔ ∃ failed, stream = .opened failed true

/-- A transfer is an error exactly when its stream is closed or has failed. -/
theorem Effect.transfer_error (agrees : checker.Agrees streams)
    (effect : checker.Effect (some (handle, .transfer)) after result)
    : IsError result ↔ ∀ used, streams handle ≠ .opened false used := by
  have inSets := agrees handle
  simp only [Bool.forall_bool, fds] at inSets
  cases effect with
  | transfer _ index narrow =>
    obtain ⟨error, important⟩ := isError_or_needArg narrow
    rcases state : streams handle with _ | ⟨_ | _, _ | _⟩ <;> simp_all [useStream]

variable {past : List Entry} {entry : Entry} {stream : Stream}

/-- An entry that does nothing to a handle changes nothing its flags say. -/
theorem Reflects.other (reflects : Reflects past handle stream)
    (unmoved : ∀ own, ¬ entry.Does handle own)
    : Reflects (past ++ [entry]) handle stream := by
  obtain ⟨isOpen, failed, used⟩ := reflects
  constructor
  · simpa [Open, since_snoc_iff, unmoved] using isOpen
  · simpa [Failed, since_snoc_iff, unmoved] using failed
  · simpa [Unsaved, since_snoc_iff, unmoved] using used

/-- An operation changes what the flags say as it advances the automaton, operation by
operation.
-/
theorem Reflects.own {own : Operation} (reflects : Reflects past handle stream)
    (does : entry.Does handle own) (error : own = .transfer
      → (IsError entry.result ↔ ∀ used, stream ≠ .opened false used))
    : Reflects (past ++ [entry]) handle (stream.advance own) := by
  obtain ⟨isOpen, failed, used⟩ := reflects
  have only (other : Operation) : entry.Does handle other ↔ own = other := by
    unfold Entry.Does at does ⊢
    simp [does]
  cases own with
  | fopen | fclose =>
    constructor <;>
      simp [Open, Failed, Unsaved, since_snoc_iff, only, Stream.advance]
  | clearerr | ferror | transfer =>
    constructor <;> rcases stream with _ | ⟨_ | _, _ | _⟩ <;>
      simp_all [Open, Failed, Unsaved, since_snoc_iff, Stream.advance]

/-- One event keeps sets, automata and histories together. -/
theorem Step.keeps (step : checker.Step entry after) (agrees : checker.Agrees (reference past))
    (reflects : ∀ handle, Reflects past handle (reference past handle))
    : after.Agrees (reference (past ++ [entry]))
      ∧ ∀ handle, Reflects (past ++ [entry]) handle (reference (past ++ [entry]) handle) := by
  have fresh (handle : UInt64) (opens : entry.Does handle .fopen)
      : reference past handle = .closed := by
    by_contra tracked
    exact step.fresh handle opens (agrees.tracks_iff.mpr tracked)
  rw [reference_snoc]
  refine ⟨agrees.effect step.effect fresh, ?_⟩
  intro handle
  by_cases moved : ∃ own, entry.Does handle own
  · obtain ⟨own, does⟩ := moved
    have advanced : advanceAll (reference past) entry.event.operation handle
        = (reference past handle).advance own := by
      rw [does]
      exact Function.update_self _ _ _
    rw [advanced]
    apply (reflects handle).own does
    rintro rfl
    have effect := step.effect
    rw [does] at effect
    exact effect.transfer_error agrees
  · simp only [not_exists] at moved
    have stays : advanceAll (reference past) entry.event.operation handle
        = reference past handle := by
      rcases operation : entry.event.operation with _ | ⟨other, own⟩
      · rfl
      · refine Function.update_of_ne ?_ _ _
        rintro rfl
        exact moved own operation
    rw [stays]
    exact (reflects handle).other moved

theorem agrees_create : create.Agrees (reference []) := by
  intro handle failed used
  cases failed <;> cases used <;> simp [fds, create, reference]

theorem reflects_nil (handle : UInt64) : Reflects [] handle (reference [] handle) := by
  constructor <;> simp [Open, Failed, Unsaved, not_since_nil, reference]

theorem report_eq_error_iff
    : checker.report = ERROR
      ↔ ∃ handle, handle ∈ checker.dirty_fds ∨ handle ∈ checker.err_dirty_fds := by
  have nonempty : (checker.dirty_fds ≠ ∅ ∨ checker.err_dirty_fds ≠ ∅)
      ↔ ∃ handle, handle ∈ checker.dirty_fds ∨ handle ∈ checker.err_dirty_fds := by
    rw [exists_or, ← Finset.nonempty_iff_ne_empty, ← Finset.nonempty_iff_ne_empty]
    exact Iff.rfl
  have differ : OK ≠ ERROR := by decide
  rw [← nonempty, report]
  split
  · exact iff_of_true rfl ‹_›
  · exact iff_of_false differ ‹_›

/-- What the checker is after a history: its sets are the automata, and its answers are
those the history calls for.
-/
structure Contract (past : List Entry) (checker : FileChecker) : Prop where
  disjoint : [checker.open_fds, checker.err_fds, checker.dirty_fds,
    checker.err_dirty_fds].Pairwise Disjoint
  agrees : checker.Agrees (reference past)
  separate : ∀ {entry after}, checker.Step entry after
    → ∀ handle, (∀ own, ¬ entry.Does handle own)
    → ∀ failed used, handle ∈ after.fds failed used ↔ handle ∈ checker.fds failed used
  transfers : ∀ {entry after}, checker.Step entry after
    → ∀ handle, entry.Does handle .transfer
    → (IsError entry.result ↔ ¬ Open handle past ∨ Failed handle past)
  reports : checker.report = ERROR ↔ ∃ handle, Unsaved handle past

/-- In every history in which no tracked handle is opened anew, the sets of the checker are
disjoint and hold each handle where its own automaton is, an operation moves its own handle
only, a transfer is an error exactly on a stream that is not open or has failed, and
unsaved streams are what is reported; by induction on the history.
-/
theorem contract_of_run (run : Run Step create past checker) : Contract past checker := by
  obtain ⟨agrees, reflects⟩ := run.history (fun past checker => checker.Agrees (reference past)
      ∧ ∀ handle, Reflects past handle (reference past handle))
    ⟨agrees_create, reflects_nil⟩ (fun holds step => step.keeps holds.1 holds.2)
  refine ⟨agrees.disjoint, agrees, ?_, ?_, ?_⟩
  · intro entry after step handle unmoved failed used
    exact step.effect.other unmoved failed used
  · intro entry after step handle does
    have effect := step.effect
    rw [does] at effect
    rw [effect.transfer_error agrees, (reflects handle).isOpen]
    have failed := (reflects handle).failed
    rcases state : reference past handle with _ | ⟨_ | _, used⟩ <;> simp_all
  · have held (handle : UInt64)
        : Unsaved handle past ↔ handle ∈ checker.dirty_fds ∨ handle ∈ checker.err_dirty_fds := by
      rw [(reflects handle).used]
      simpa [fds] using (or_congr (agrees handle false true) (agrees handle true true)).symm
    simp only [held, report_eq_error_iff]

/-- A memory whose streams all have the descriptor `fileno`. -/
def streamMemory (fileno : Int) : Memory where
  string := fun _ => ""
  fileno := fun _ => fileno
  resolveOne := fun _ => none
  charPtr := fun _ => ""
  pointee := fun _ => 0
  mustBeEqual := fun _ _ => some false
  precedes := fun _ _ => false

/-- A native call whose result and arguments are all one word. -/
def nativeCall (funcname : String) (word : UInt64) : Call where
  funcname := funcname
  arguments := fun _ => ⟨0, .constant word⟩
  args := some fun _ => word
  site := ⟨""⟩
  thread := 0

/-- Witness: a file is opened, written, found to have failed and written again, which is an
error, while the write before is still to be reported.
-/
theorem contract_of_run_failed_write
    : let event (funcname : String) : Event :=
        .onCall (streamMemory 3) (nativeCall funcname 16)
      let opened := create.respond (event "fopen")
      let written := opened.1.respond (event "fputs")
      let failed := written.1.respond (event "ferror")
      Contract [⟨event "fopen", opened.2⟩, ⟨event "fputs", written.2⟩,
        ⟨event "ferror", failed.2⟩] failed.1
      ∧ IsError (failed.1.respond (event "fputs")).2
      ∧ failed.1.report = ERROR := by
  intro event opened written failed
  have untracked : ¬ create.Tracks 16 := by
    rintro ⟨failed, used, held⟩
    cases failed <;> cases used <;> simp [fds, create] at held
  have opening : create.Step ⟨event "fopen", opened.2⟩ opened.1 := by
    refine ⟨rfl, ?_⟩
    intro handle opens
    obtain rfl : 16 = handle := congrArg Prod.fst (Option.some.inj opens)
    exact untracked
  have writing : opened.1.Step ⟨event "fputs", written.2⟩ written.1 :=
    ⟨rfl, fun handle opens => by cases congrArg Prod.snd (Option.some.inj opens)⟩
  have failing : written.1.Step ⟨event "ferror", failed.2⟩ failed.1 :=
    ⟨rfl, fun handle opens => by cases congrArg Prod.snd (Option.some.inj opens)⟩
  exact ⟨contract_of_run (((Run.nil.snoc opening).snoc writing).snoc failing),
    by decide, by decide⟩

/-- Standard streams are passed over: a read on one that was never opened is answered with
`OK`, and so is a write on one that was opened, which is then not reported either.
-/
theorem standard_streams_unreported
    : create.onCall (streamMemory 0) (nativeCall "fgets" 16) = (create, OK)
      ∧ (create.onCall (streamMemory 1) (nativeCall "fdopen" 32)).1.open_fds = {32}
      ∧ let opened := (create.onCall (streamMemory 1) (nativeCall "fdopen" 32)).1
        opened.onCall (streamMemory 1) (nativeCall "fputs" 32) = (opened, OK)
        ∧ opened.report = OK := by
  decide

end FileChecker

end Woodpecker.Checkers
