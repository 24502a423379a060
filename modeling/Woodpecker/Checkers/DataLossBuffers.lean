import Woodpecker.Checkers.DataLoss
import Woodpecker.Library.Runs
import Woodpecker.Library.Traces

/-! The three states of a record of the data loss checker stand for two buffers.

Calls and returns are decoded to operations on streams, descriptors and names. A file of the
reference model has data in the buffer of the library, in the buffer of the system, in both
or in neither. The checker keeps one record for each such file and merges the states with
data in the library, and so it still knows which files a rename may not touch.
-/

namespace Woodpecker.Checkers

open Library List

namespace DataLossChecker

/-- An event with the memory it is handled in. -/
inductive Event where
  | onCall (memory : Memory) (call : Call)
  | onRet (memory : Memory) (ret : Return)

def respond (checker : DataLossChecker) : Event → Except Fault (DataLossChecker × Result)
  | .onCall memory call => checker.onCall memory call
  | .onRet memory ret => checker.onRet memory ret

/-- What is done to files. An opening says whether it creates the file. -/
inductive Operation where
  | fopen (filename : String) (creates : Bool) (fp : UInt64)
  | openFile (filename : String) (creates : Bool) (fd : UInt64)
  | fdopen (fd fp : UInt64)
  | fwrite (fp : UInt64)
  | write (fd : UInt64)
  | fflush (fp : UInt64)
  | fclose (fp : UInt64)
  | close (fd : UInt64)
  | fsync (fd : UInt64)
  | unlink (filename : String)
  | rename (filename target : String)
deriving DecidableEq, Repr

/-- Calls that failed, and calls with an empty name, are no operations. -/
def fopening (filename mode : String) (fp : UInt64) : Option Operation :=
  if fp = 0 then none
  else if filename = "" ∨ mode = "" then none
  else some (.fopen filename (mode.toList.head? ≠ some 'r') fp)

def opening (filename : String) (flag fd : UInt64) : Option Operation :=
  if fd = 0xFFFFFFFF then none
  else if filename = "" then none
  else some (.openFile filename (flag &&& O_CREAT ≠ 0) fd)

def fdopening (fd fp : UInt64) : Option Operation :=
  if fp = 0 then none else some (.fdopen fd fp)

def unlinking (filename : String) : Option Operation :=
  if filename = "" then none else some (.unlink filename)

def moving (filename target : String) : Option Operation :=
  if filename = "" ∨ target = "" then none else some (.rename filename target)

/-- The operation an event is. What a call returns is known at the call for native code and
at the return for interpreted code. Writes to the standard descriptors are passed over.
-/
def Event.operation : Event → Option Operation
  | .onCall memory call =>
    if call.funcname = "fopen" ∨ call.funcname = "fopen64" then
      call.args.bind fun args =>
        fopening (memory.string (args 2)) (memory.string (args 3)) (args 0)
    else if call.funcname = "open" ∨ call.funcname = "open64" then
      call.args.bind fun args => opening (memory.string (args 2)) (args 3) (args 0)
    else if call.funcname = "creat" then
      call.args.bind fun args => opening (memory.string (args 2)) creatFlags (args 0)
    else if call.funcname = "fdopen" then
      call.args.bind fun args => fdopening (args 2) (args 0)
    else if call.funcname = "write" then
      if argument call 0 ≤ 2 then none else some (.write (argument call 0))
    else if call.funcname = "fflush" ∨ call.funcname = "fflush_unlocked" then
      some (.fflush (argument call 0))
    else if call.funcname = "fclose" then some (.fclose (argument call 0))
    else if call.funcname = "close" then some (.close (argument call 0))
    else if call.funcname = "fileno" ∨ call.funcname = "fileno_unlocked" then none
    else if call.funcname = "fsync" ∨ call.funcname = "fdatasync" then
      some (.fsync (argument call 0))
    else if call.funcname = "unlink" then unlinking (stringArgument memory call 0)
    else if call.funcname = "rename" then
      moving (stringArgument memory call 0) (stringArgument memory call 1)
    else (streamIndex call.funcname).map fun index => .fwrite (argument call index)
  | .onRet memory ret =>
    let argument := ret.getCallingArgument
    ret.funcname.bind fun funcname =>
      if funcname = "fopen" ∨ funcname = "fopen64" then
        fopening (memory.charPtr (argument 1)) (memory.charPtr (argument 2))
          (getIntFromExp ret.result)
      else if funcname = "open" ∨ funcname = "open64" then
        opening (memory.charPtr (argument 1)) (getIntFromExp (argument 2))
          (getIntFromExp ret.result)
      else if funcname = "creat" then
        opening (memory.charPtr (argument 1)) creatFlags (getIntFromExp ret.result)
      else if funcname = "fdopen" then
        fdopening (getIntFromExp (argument 1)) (getIntFromExp ret.result)
      else none

/-- The events that move a descriptor to the record of a stream. -/
def Event.isFileno : Event → Bool
  | .onCall _ call => call.funcname = "fileno" ∨ call.funcname = "fileno_unlocked"
  | .onRet _ ret => ret.funcname = some "fileno" ∨ ret.funcname = some "fileno_unlocked"

/-- What the checker does for an operation, and whether it reports an error. -/
def act (checker : DataLossChecker) : Operation → DataLossChecker × Bool
  | .fopen filename creates fp =>
    ((if creates then checker.forget filename else checker).push
      (.create filename fp minusOne), false)
  | .openFile filename creates fd =>
    ((if creates then checker.forget filename else checker).push
      (.create filename minusOne fd), false)
  | .fdopen fd fp =>
    match fdopenFiles fd fp checker.files none with
    | .inl files => ({ checker with files }, false)
    | .inr found => (checker.push (.create (found.getD "") fp fd), false)
  | .fwrite fp => (checker.onFirst (·.fp = fp) bufferWrite, false)
  | .write fd => (checker.onFirst (·.fd = fd) directWrite, false)
  | .fflush fp => (checker.onFirst (·.fp = fp) flush, false)
  | .fclose fp => (checker.onFirst (·.fp = fp) flushClose, false)
  | .close fd =>
    let (files, failed) := closeFiles fd checker.files
    ({ checker with files }, failed)
  | .fsync fd => (checker.onFirst (·.fd = fd) sync, false)
  | .unlink filename =>
    ({ checker with unlinked_files := insert filename checker.unlinked_files }, false)
  | .rename filename target =>
    if target ∈ checker.unlinked_files then (checker, true)
    else
      let unlinked_files :=
        if filename ≠ target then insert filename checker.unlinked_files
        else checker.unlinked_files
      let (files, failed) := renameFiles filename target checker.files
      ({ files, unlinked_files }, failed)

def actOn (checker : DataLossChecker) (operation : Option Operation) : DataLossChecker × Bool :=
  operation.elim (checker, false) checker.act

-- The response to an event is the action of its operation

/-- An outcome has the effect of an operation: it leaves the checker the operation leaves,
and its result is an error exactly when the operation fails.
-/
def Responds (checker : DataLossChecker) (operation : Option Operation)
    (outcome : Except Fault (DataLossChecker × Result))
    : Prop :=
  ∃ result,
    outcome = .ok ((checker.actOn operation).1, result)
    ∧ (IsError result ↔ (checker.actOn operation).2 = true)

variable {checker : DataLossChecker} {memory : Memory} {need_args result : Result}

theorem responds_none (fine : ¬ IsError result)
    : checker.Responds none (.ok (checker, result)) :=
  ⟨result, rfl, by simp [actOn, fine]⟩

/-- The operation and the outcome are told apart by the same test. -/
theorem responds_ite {test : Prop} [Decidable test] {first second : Option Operation}
    {outcome other : Except Fault (DataLossChecker × Result)}
    (yes : checker.Responds first outcome) (no : checker.Responds second other)
    : checker.Responds (if test then first else second) (if test then outcome else other) := by
  split
  · exact yes
  · exact no

/-- An operation that never fails, with a result that is no error. -/
theorem responds_quiet {operation : Operation} (fine : ¬ IsError result)
    (quiet : (checker.act operation).2 = false)
    : checker.Responds (some operation) (.ok ((checker.act operation).1, result)) :=
  ⟨result, rfl, by simp [actOn, fine, quiet]⟩

/-- The bits that ask for arguments do not matter. -/
theorem responds_needs {operation : Option Operation} {outcome : DataLossChecker × Result}
    (responds : checker.Responds operation (.ok outcome)) (fine : ¬ IsError need_args)
    : checker.Responds operation (needs outcome need_args) := by
  obtain ⟨result, outcomeEq, error⟩ := responds
  cases outcomeEq
  exact ⟨result ||| need_args, rfl, by simp [isError_or_iff, fine, error]⟩

theorem responds_parseFOpen (filename mode : String) (fp : UInt64)
    : checker.Responds (fopening filename mode fp) (.ok (checker.parseFOpen filename mode fp)) := by
  have fine : ¬ IsError IMPORTANT := by decide
  unfold fopening parseFOpen
  split
  · exact responds_none fine
  split
  · exact responds_none fine
  · exact ⟨IMPORTANT, by simp [actOn, act], by simp [actOn, act, fine]⟩

theorem responds_parseOpen (filename : String) (flag fd : UInt64)
    : checker.Responds (opening filename flag fd) (.ok (checker.parseOpen filename flag fd)) := by
  have fine : ¬ IsError IMPORTANT := by decide
  unfold opening parseOpen
  split
  · exact responds_none fine
  split
  · exact responds_none fine
  · exact ⟨IMPORTANT, by simp [actOn, act], by simp [actOn, act, fine]⟩

theorem responds_parseFdOpen (fd fp : UInt64)
    : checker.Responds (fdopening fd fp) (.ok (checker.parseFdOpen fd fp)) := by
  have fine : ¬ IsError IMPORTANT := by decide
  unfold fdopening parseFdOpen
  split
  · exact responds_none fine
  · refine ⟨IMPORTANT, ?_, ?_⟩
    · simp only [actOn, Option.elim, act]
      split <;> simp_all
    · simp only [actOn, Option.elim, act]
      split <;> simp [fine]

theorem isError_verdict_iff {failed : Bool} : IsError (verdict failed) ↔ failed = true := by
  cases failed <;> decide

theorem responds_parseRename (filename target : String)
    : checker.Responds (moving filename target) (.ok (checker.parseRename filename target)) := by
  unfold moving parseRename
  split
  · exact responds_none (by decide)
  split
  next gone =>
    have error : IsError ERROR := by decide
    exact ⟨ERROR, by simp [actOn, act, gone], by simp [actOn, act, gone, error]⟩
  next present =>
    refine ⟨verdict (renameFiles filename target checker.files).2, ?_, ?_⟩
    · simp [actOn, act, present]
    · simp [actOn, act, present, isError_verdict_iff]

theorem streamIndex_le {funcname : String} {index : Nat} (found : streamIndex funcname = some index)
    : index ≤ 3 := by
  unfold streamIndex at found
  grind

/-- Handling an event has the effect of its operation, branch by branch. -/
theorem respond_responds (checker : DataLossChecker) (event : Event)
    (other : event.isFileno = false)
    : checker.Responds event.operation (checker.respond event) := by
  cases event with
  | onCall memory call =>
    have unnamed : ¬ (call.funcname = "fileno" ∨ call.funcname = "fileno_unlocked") := by
      simpa [Event.isFileno] using other
    apply responds_ite
    · cases call.args with
      | none => exact responds_none (by decide)
      | some args => exact responds_needs (responds_parseFOpen _ _ _) (by decide)
    apply responds_ite
    · cases call.args with
      | none => exact responds_none (by decide)
      | some args => exact responds_needs (responds_parseOpen _ _ _) (by decide)
    apply responds_ite
    · cases call.args with
      | none => exact responds_none (by decide)
      | some args => exact responds_needs (responds_parseOpen _ _ _) (by decide)
    apply responds_ite
    · cases call.args with
      | none => exact responds_none (by decide)
      | some args => exact responds_needs (responds_parseFdOpen _ _) (by decide)
    apply responds_ite
    · apply responds_ite
      · exact responds_none (by decide)
      · exact responds_quiet (by decide) rfl
    apply responds_ite
    · exact responds_quiet (by decide) rfl
    apply responds_ite
    · exact responds_quiet (by decide) rfl
    apply responds_ite
    · exact responds_needs ⟨_, rfl, isError_verdict_iff⟩ (by decide)
    rw [if_neg unnamed, if_neg unnamed]
    apply responds_ite
    · exact responds_quiet (by decide) rfl
    apply responds_ite
    · exact responds_ite (responds_none (by decide)) (responds_quiet (by decide) rfl)
    apply responds_ite
    · exact responds_needs (responds_parseRename _ _) (by decide)
    cases found : streamIndex call.funcname with
    | none => exact responds_none (by decide)
    | some index => exact responds_quiet (isError_or_needArg (streamIndex_le found)).2 rfl
  | onRet memory ret =>
    simp only [respond, onRet, Event.operation]
    rcases named : ret.funcname with _ | funcname
    · exact responds_none (by decide)
    have unnamed : ¬ (funcname = "fileno" ∨ funcname = "fileno_unlocked") := by
      simpa [Event.isFileno, named] using other
    simp only [Option.bind_some, unnamed, if_false]
    split
    · exact responds_needs (responds_parseFOpen _ _ _) (by decide)
    split
    · exact responds_needs (responds_parseOpen _ _ _) (by decide)
    split
    · exact responds_needs (responds_parseOpen _ _ _) (by decide)
    split
    · exact responds_needs (responds_parseFdOpen _ _) (by decide)
    · exact responds_none (by decide)

-- The two buffers of a file

/-- A file of the reference model: the handles it is open under, and whether data waits in
the buffer of the library and in that of the system.
-/
structure Buffered where
  name : String
  stream : Option UInt64
  descriptor : Option UInt64
  library : Bool
  system : Bool
deriving DecidableEq, Repr

open Buffered

namespace Buffered

/-- Some data of the file is not both flushed and synced. -/
def Unsaved (file : Buffered) : Prop :=
  file.library = true ∨ file.system = true

instance (file : Buffered) : Decidable file.Unsaved :=
  inferInstanceAs (Decidable (_ ∨ _))

/-- The handle an operation is on belongs to the file. -/
def Concerns (file : Buffered) : Operation → Prop
  | .fdopen fd _ | .write fd | .close fd | .fsync fd => file.descriptor = some fd
  | .fwrite fp | .fflush fp | .fclose fp => file.stream = some fp
  | .rename filename _ => file.name = filename
  | .fopen _ _ _ | .openFile _ _ _ | .unlink _ => False

instance (file : Buffered) (operation : Operation) : Decidable (file.Concerns operation) := by
  cases operation <;> unfold Concerns <;> infer_instance

/-- What an operation does to the file it is on. -/
def change (file : Buffered) : Operation → Buffered
  | .fdopen _ fp => { file with stream := some fp }
  | .fwrite _ => { file with library := true }
  | .write _ => { file with system := true }
  | .fflush _ => { file with library := false, system := file.library || file.system }
  | .fclose _ =>
    { file with
      stream := none, descriptor := none
      library := false, system := file.library || file.system }
  | .close _ => { file with descriptor := none }
  | .fsync _ => { file with system := false }
  | .rename _ target => { file with name := target }
  | .fopen _ _ _ | .openFile _ _ _ | .unlink _ => file

def advance (operation : Operation) (file : Buffered) : Buffered :=
  if file.Concerns operation then file.change operation else file

/-- The collapsed state: data in the library hides what the system has. -/
def state (file : Buffered) : FileState :=
  if file.library then .libBuffered
  else if file.system then .osBuffered
  else .clean

/-- The record the checker keeps for the file. -/
def record (file : Buffered) : FileObject where
  filename := file.name
  fp := file.stream.getD minusOne
  fd := file.descriptor.getD minusOne
  state := file.state
  alloc_info := none

end Buffered

/-- The files after an operation. A stream opened on a descriptor of no known file gets a
file without a name.
-/
def advance (files : List Buffered) (operation : Operation) : List Buffered :=
  match operation with
  | .fopen filename _ fp => files ++ [⟨filename, some fp, none, false, false⟩]
  | .openFile filename _ fd => files ++ [⟨filename, none, some fd, false, false⟩]
  | .fdopen fd fp =>
    if ∃ file ∈ files, file.descriptor = some fd then
      files.map (Buffered.advance (.fdopen fd fp))
    else files ++ [⟨"", some fp, some fd, false, false⟩]
  | _ => files.map (Buffered.advance operation)

/-- Handles are real ones, an opening returns one that is not in use, and a descriptor gets
at most one stream.
-/
def Legal (files : List Buffered) : Operation → Prop
  | .fopen _ _ fp => fp ≠ minusOne ∧ ∀ file ∈ files, file.stream ≠ some fp
  | .openFile _ _ fd => fd ≠ minusOne ∧ ∀ file ∈ files, file.descriptor ≠ some fd
  | .fdopen fd fp =>
    fd ≠ minusOne
    ∧ fp ≠ minusOne
    ∧ (∀ file ∈ files, file.stream ≠ some fp)
    ∧ ∀ file ∈ files, file.descriptor = some fd → file.stream = none
  | .fwrite handle | .fflush handle | .fclose handle => handle ≠ minusOne
  | .write handle | .close handle | .fsync handle => handle ≠ minusOne
  | .unlink _ | .rename _ _ => True

/-- Two files have no handle in common. -/
structure Apart (first second : Buffered) : Prop where
  streams : ∀ fp, first.stream = some fp → second.stream ≠ some fp
  descriptors : ∀ fd, first.descriptor = some fd → second.descriptor ≠ some fd

/-- No handle is shared, and the value that stands for no handle is not used as one. -/
structure Separate (files : List Buffered) : Prop where
  apart : files.Pairwise Apart
  real : ∀ file ∈ files, file.stream ≠ some minusOne ∧ file.descriptor ≠ some minusOne

variable {files : List Buffered} {file : Buffered} {operation : Operation}

variable {handle : UInt64}

/-- Reading a missing handle as the reserved value does not confuse real handles. -/
theorem getD_minusOne_iff {held : Option UInt64} (real : handle ≠ minusOne)
    : held.getD minusOne = handle ↔ held = some handle := by
  cases held with
  | none => simp [real.symm]
  | some value => simp

section

variable (separate : Separate files)
include separate

theorem Separate.snoc {fresh : Buffered} (apart : ∀ file ∈ files, Apart file fresh)
    (real : fresh.stream ≠ some minusOne ∧ fresh.descriptor ≠ some minusOne)
    : Separate (files ++ [fresh]) where
  apart := by
    rw [pairwise_append]
    exact ⟨separate.apart, by simp, by simpa using apart⟩
  real := forall_mem_append.mpr ⟨separate.real, forall_mem_singleton.mpr real⟩

/-- An operation that gives no file a handle keeps files separate. -/
theorem Separate.map {update : Buffered → Buffered}
    (streams : ∀ file fp, (update file).stream = some fp → file.stream = some fp)
    (descriptors : ∀ file fd, (update file).descriptor = some fd → file.descriptor = some fd)
    : Separate (files.map update) where
  apart := by
    rw [pairwise_map]
    apply separate.apart.imp
    intro first second apart
    refine ⟨?_, ?_⟩
    · intro fp held shared
      exact apart.streams fp (streams _ _ held) (streams _ _ shared)
    · intro fd held shared
      exact apart.descriptors fd (descriptors _ _ held) (descriptors _ _ shared)
  real := by
    intro file member
    obtain ⟨before, known, rfl⟩ := mem_map.mp member
    obtain ⟨stream, descriptor⟩ := separate.real before known
    exact ⟨fun held => stream (streams _ _ held), fun held => descriptor (descriptors _ _ held)⟩

variable {fd : UInt64}

/-- The stream `fdopen` returns goes to one file, since only one has the descriptor. -/
theorem Separate.fdopen {fp : UInt64} (real : fp ≠ minusOne)
    (fresh : ∀ file ∈ files, file.stream ≠ some fp)
    : Separate (files.map (Buffered.advance (.fdopen fd fp))) where
  apart := by
    rw [pairwise_map]
    apply separate.apart.imp_of_mem
    intro first second firstIn secondIn apart
    have streams := apart.streams
    have descriptors := apart.descriptors fd
    refine ⟨?_, ?_⟩
    · intro stream held shared
      simp only [Buffered.advance, Buffered.Concerns, Buffered.change] at held shared
      grind
    · intro descriptor held shared
      simp only [Buffered.advance, Buffered.Concerns, Buffered.change] at held shared
      have := apart.descriptors descriptor
      grind
  real := by
    intro file member
    obtain ⟨before, known, rfl⟩ := mem_map.mp member
    obtain ⟨stream, descriptor⟩ := separate.real before known
    unfold Buffered.advance
    split
    · exact ⟨by simpa [change] using real, descriptor⟩
    · exact ⟨stream, descriptor⟩

/-- Legal operations keep files separate. -/
theorem Separate.advance (legal : Legal files operation)
    : Separate (advance files operation) := by
  cases operation with
  | fopen filename creates fp =>
    obtain ⟨real, fresh⟩ := legal
    refine separate.snoc ?_ ⟨by simpa using real, by simp⟩
    intro file member
    refine ⟨?_, by simp⟩
    intro stream held shared
    exact fresh file member (held.trans shared.symm)
  | openFile filename creates fd =>
    obtain ⟨real, fresh⟩ := legal
    refine separate.snoc ?_ ⟨by simp, by simpa using real⟩
    intro file member
    refine ⟨by simp, ?_⟩
    intro descriptor held shared
    exact fresh file member (held.trans shared.symm)
  | fdopen fd fp =>
    obtain ⟨realFd, realFp, fresh, -⟩ := legal
    unfold DataLossChecker.advance
    dsimp only
    split
    · exact separate.fdopen realFp fresh
    next unknown =>
      refine separate.snoc ?_ ⟨by simpa using realFp, by simpa using realFd⟩
      intro file member
      refine ⟨?_, ?_⟩
      · intro stream held shared
        exact fresh file member (held.trans shared.symm)
      · intro descriptor held shared
        exact unknown ⟨file, member, held.trans shared.symm⟩
  | _ =>
    apply separate.map
    all_goals
      intro file handle held
      simp only [Buffered.advance, Buffered.Concerns, Buffered.change] at held
      grind

end

-- The records of the checker stand for the files

theorem advance_concerned (concerned : file.Concerns operation)
    : file.advance operation = file.change operation :=
  if_pos concerned

theorem advance_unconcerned (unconcerned : ¬ file.Concerns operation)
    : file.advance operation = file :=
  if_neg unconcerned

theorem map_advance_unconcerned (unconcerned : ∀ file ∈ files, ¬ file.Concerns operation)
    : files.map (Buffered.advance operation) = files := by
  have same : files.map (Buffered.advance operation) = files.map id :=
    map_congr_left fun file member => advance_unconcerned (unconcerned file member)
  rw [same, map_id]

variable {update : FileObject → FileObject}

/-- A loop that stops at its first match reaches all matches when there is only one, by
induction on the files.
-/
theorem updateFirst_map_record {matching : FileObject → Bool}
    (separate : files.Pairwise fun first second =>
      first.Concerns operation → ¬ second.Concerns operation)
    (matches_iff : ∀ file ∈ files, matching file.record = true ↔ file.Concerns operation)
    (updates : ∀ file ∈ files, update file.record = (file.change operation).record)
    : updateFirst matching update (files.map record)
      = (files.map (Buffered.advance operation)).map Buffered.record := by
  induction files with
  | nil => rfl
  | cons file rest ih =>
    obtain ⟨alone, restSeparate⟩ := pairwise_cons.mp separate
    obtain ⟨here, there⟩ := forall_mem_cons.mp matches_iff
    obtain ⟨updated, others⟩ := forall_mem_cons.mp updates
    simp only [map_cons, updateFirst]
    by_cases concerned : file.Concerns operation
    · -- No later file is concerned, so the map leaves the rest alone.
      have rest_eq : rest.map (Buffered.advance operation) = rest :=
        map_advance_unconcerned fun other member => alone other member concerned
      rw [if_pos (here.mpr concerned), rest_eq, updated, advance_concerned concerned]
    · rw [if_neg (mt here.mp concerned), advance_unconcerned concerned,
        ih restSeparate there others]

/-- An operation on a handle that no two files share. -/
theorem onFirst_handle {held : Buffered → Option UInt64} {field : FileObject → UInt64}
    (separate : files.Pairwise fun first second =>
      ∀ handle, held first = some handle → held second ≠ some handle)
    (real : handle ≠ minusOne)
    (reads : ∀ file : Buffered, field file.record = (held file).getD minusOne)
    (concerns : ∀ file : Buffered, file.Concerns operation ↔ held file = some handle)
    (updates : ∀ file : Buffered, update file.record = (file.change operation).record)
    : updateFirst (fun record => field record = handle) update (files.map record)
      = (files.map (Buffered.advance operation)).map Buffered.record := by
  apply updateFirst_map_record
  · apply separate.imp
    intro first second apart held shared
    exact apart handle ((concerns first).mp held) ((concerns second).mp shared)
  · intro file _
    rw [concerns, decide_eq_true_eq, reads]
    exact getD_minusOne_iff real
  · exact fun file _ => updates file

/-- The search of `fdopen` finds nothing when no file has the descriptor. -/
theorem fdopenFiles_unknown {fp : UInt64} (real : fd ≠ minusOne) (found : Option String)
    (unknown : ∀ file ∈ files, file.descriptor ≠ some fd)
    : fdopenFiles fd fp (files.map record) found = .inr found := by
  induction files with
  | nil => rfl
  | cons file rest ih =>
    obtain ⟨missing, others⟩ := forall_mem_cons.mp unknown
    have elsewhere : file.record.fd ≠ fd := mt (getD_minusOne_iff real).mp missing
    simp [fdopenFiles, if_neg elsewhere, ih others]

/-- The search of `fdopen` gives the stream to the file with the descriptor. -/
theorem fdopenFiles_known {fp : UInt64} (separate : Separate files) (real : fd ≠ minusOne)
    (unused : ∀ file ∈ files, file.descriptor = some fd → file.stream = none)
    (known : ∃ file ∈ files, file.descriptor = some fd) (found : Option String)
    : fdopenFiles fd fp (files.map Buffered.record) found
      = .inl ((files.map (Buffered.advance (.fdopen fd fp))).map Buffered.record) := by
  induction files with
  | nil => simp at known
  | cons file rest ih =>
    obtain ⟨alone, restApart⟩ := pairwise_cons.mp separate.apart
    obtain ⟨free, others⟩ := forall_mem_cons.mp unused
    by_cases held : file.descriptor = some fd
    · have concerned : file.Concerns (.fdopen fd fp) := held
      have rest_eq : rest.map (Buffered.advance (.fdopen fd fp)) = rest :=
        map_advance_unconcerned fun other member =>
          (alone other member).descriptors fd held
      have here : file.record.fd = fd := (getD_minusOne_iff real).mpr held
      have free : file.record.fp = minusOne := by
        simp [Buffered.record, free held]
      simp only [map_cons, fdopenFiles, if_pos here, if_pos free, rest_eq,
        advance_concerned concerned]
      rfl
    · have unconcerned : ¬ file.Concerns (.fdopen fd fp) := held
      have elsewhere : file.record.fd ≠ fd := mt (getD_minusOne_iff real).mp held
      have inRest : ∃ other ∈ rest, other.descriptor = some fd := by simpa [held] using known
      have restSeparate : Separate rest :=
        ⟨restApart, (forall_mem_cons.mp separate.real).2⟩
      simp [fdopenFiles, if_neg elsewhere, ih restSeparate others inRest,
        advance_unconcerned unconcerned]

/-- A `close` that reports nothing takes the descriptor from all files that have it. -/
theorem closeFiles_map_record (real : fd ≠ minusOne)
    (quiet : (closeFiles fd (files.map record)).2 = false)
    : (closeFiles fd (files.map record)).1
      = (files.map (Buffered.advance (.close fd))).map Buffered.record := by
  induction files with
  | nil => rfl
  | cons file rest ih =>
    have here : file.record.fd = fd ↔ file.descriptor = some fd := getD_minusOne_iff real
    simp only [map_cons, closeFiles] at quiet ⊢
    by_cases concerned : file.Concerns (.close fd)
    · rw [if_pos (here.mpr concerned)] at quiet ⊢
      split at quiet
      · simp at quiet
      next free =>
        rw [if_neg free, advance_concerned concerned, ih quiet]
        rfl
    · rw [if_neg (mt here.mp concerned)] at quiet ⊢
      rw [advance_unconcerned concerned, ih quiet]

theorem record_unsaved_iff
    : file.record.state = .libBuffered ∨ file.record.state = .osBuffered ↔ file.Unsaved := by
  obtain ⟨name, stream, descriptor, library, system⟩ := file
  cases library <;> cases system <;> simp [record, state, Unsaved]

/-- A `rename` fails at the first file of the name with unsaved data. -/
theorem renameFiles_failed_iff (filename target : String)
    : (renameFiles filename target (files.map record)).2 = true
      ↔ ∃ file ∈ files, file.name = filename ∧ file.Unsaved := by
  induction files with
  | nil => simp [renameFiles]
  | cons file rest ih =>
    have here : file.record.filename = file.name := rfl
    simp only [map_cons, renameFiles, record_unsaved_iff, here]
    by_cases named : file.name = filename
    · by_cases unsaved : file.Unsaved
      · simp [named, unsaved]
      · simp [named, unsaved, ih]
    · simp [named, ih]

theorem renameFiles_map_record {filename target : String}
    (quiet : (renameFiles filename target (files.map record)).2 = false)
    : (renameFiles filename target (files.map record)).1
      = (files.map (Buffered.advance (.rename filename target))).map Buffered.record := by
  induction files with
  | nil => rfl
  | cons file rest ih =>
    have here : file.record.filename = file.name := rfl
    simp only [map_cons, renameFiles, here] at quiet ⊢
    by_cases concerned : file.Concerns (.rename filename target)
    · have named : file.name = filename := concerned
      rw [if_pos named] at quiet ⊢
      split at quiet
      · simp at quiet
      next saved =>
        rw [if_neg saved, advance_concerned concerned, ih quiet]
        rfl
    · have named : file.name ≠ filename := concerned
      rw [if_neg named] at quiet ⊢
      rw [advance_unconcerned concerned, ih quiet]

/-- The records stand for the files after every legal operation that reports nothing. -/
theorem act_files (separate : Separate files)
    (represents : checker.files = files.map Buffered.record) (legal : Legal files operation)
    (quiet : (checker.act operation).2 = false)
    : (checker.act operation).1.files = (advance files operation).map Buffered.record := by
  have streams := separate.apart.imp Apart.streams
  have descriptors := separate.apart.imp Apart.descriptors
  cases operation with
  | fopen filename creates _ | openFile filename creates _ =>
    cases creates
    all_goals simp [act, push, forget, represents, advance]
    all_goals rfl
  | fdopen fd fp =>
    obtain ⟨realFd, realFp, fresh, unused⟩ := legal
    by_cases known : ∃ file ∈ files, file.descriptor = some fd
    · simp only [act, advance, represents, if_pos known,
        fdopenFiles_known separate realFd unused known]
    have unknown : ∀ file ∈ files, file.descriptor ≠ some fd := by simpa using known
    simp only [act, advance, represents, if_neg known,
      fdopenFiles_unknown realFd none unknown, push, map_append]
    rfl
  | fwrite | fflush | fclose =>
    simp only [act, onFirst, represents]
    refine onFirst_handle streams legal (fun _ => rfl) (fun _ => Iff.rfl) fun file => ?_
    -- the collapsed state, for each of the four states of the buffers
    obtain ⟨name, stream, descriptor, library, system⟩ := file
    cases library <;> cases system <;> rfl
  | write | fsync =>
    simp only [act, onFirst, represents]
    refine onFirst_handle descriptors legal (fun _ => rfl) (fun _ => Iff.rfl) fun file => ?_
    obtain ⟨name, stream, descriptor, library, system⟩ := file
    cases library <;> cases system <;> rfl
  | close fd =>
    simp only [act, represents] at quiet ⊢
    exact closeFiles_map_record legal quiet
  | unlink filename =>
    have untouched : files.map (Buffered.advance (.unlink filename)) = files :=
      map_advance_unconcerned fun _ _ => id
    simp only [act, advance, represents, untouched]
  | rename filename target =>
    simp only [act, represents] at quiet ⊢
    split at quiet
    · simp at quiet
    next present =>
      rw [if_neg present]
      exact renameFiles_map_record quiet

-- Histories

/-- The operation removes the name. A file renamed to its own name stays. -/
def Operation.Removes (name : String) : Operation → Prop
  | .unlink filename => filename = name
  | .rename filename target => filename = name ∧ target ≠ name
  | _ => False

/-- The operation creates a file of the name. -/
def Operation.Creates (name : String) : Operation → Prop
  | .fopen filename creates _ | .openFile filename creates _ =>
    filename = name ∧ creates = true
  | _ => False

/-- The set of unlinked names after an operation that reports nothing. -/
theorem mem_act_unlinked_iff (name : String) (quiet : (checker.act operation).2 = false)
    : name ∈ (checker.act operation).1.unlinked_files
      ↔ operation.Removes name
        ∨ (name ∈ checker.unlinked_files ∧ ¬ operation.Creates name) := by
  cases operation with
  | fopen filename creates _ | openFile filename creates _ =>
    cases creates
    · simp [act, push, Operation.Removes, Operation.Creates]
    · simp [act, push, forget, Operation.Removes, Operation.Creates, and_comm, eq_comm]
  | fdopen fd fp =>
    simp only [act, Operation.Removes, Operation.Creates]
    split <;> simp [push]
  | unlink filename =>
    simp [act, Operation.Removes, Operation.Creates, eq_comm]
  | rename filename target =>
    simp only [act, Operation.Removes, Operation.Creates] at quiet ⊢
    split at quiet
    · simp at quiet
    next present =>
      rw [if_neg present]
      by_cases same : filename = target
      · subst same
        simp
      by_cases renamed : filename = name
      · subst renamed
        simp [same, Ne.symm same]
      · simp [same, renamed, Ne.symm renamed]
  | _ => simp [act, onFirst, Operation.Removes, Operation.Creates]

structure Entry where
  event : Event
  result : Result

def operations (history : List Entry) : List Operation :=
  history.filterMap fun entry => entry.event.operation

/-- The files after a history, from the two buffers alone. -/
def reference (history : List Entry) : List Buffered :=
  (operations history).foldl advance []

/-- The name was unlinked or renamed away, and has not been created since. -/
def Gone (name : String) (history : List Entry) : Prop :=
  Since (Operation.Removes name) (Operation.Creates name) (operations history)

/-- The histories looked at: no `fileno`, and every operation is legal for the files the
reference model has by then.
-/
def Tracked (history : List Entry) : Prop :=
  Throughout (fun past entry =>
    entry.event.isFileno = false
    ∧ ∀ operation, entry.event.operation = some operation → Legal (reference past) operation)
    history

def Step (checker : DataLossChecker) (entry : Entry) (after : DataLossChecker) : Prop :=
  checker.respond entry.event = .ok (after, entry.result)

theorem reference_snoc (past : List Entry) (entry : Entry)
    : reference (past ++ [entry])
      = entry.event.operation.elim (reference past) (advance (reference past)) := by
  unfold reference operations
  cases decoded : entry.event.operation with
  | none | some => simp [filterMap_append, decoded]

variable {past : List Entry} {entry : Entry}

theorem gone_snoc_iff {name : String}
    : Gone name (past ++ [entry])
      ↔ entry.event.operation.elim (Gone name past) fun operation =>
          operation.Removes name ∨ (Gone name past ∧ ¬ operation.Creates name) := by
  unfold Gone operations
  cases decoded : entry.event.operation with
  | none => simp [filterMap_append, decoded]
  | some operation => simp [filterMap_append, decoded, since_snoc_iff]

/-- What the checker keeps is what the history says. -/
structure Reflects (history : List Entry) (checker : DataLossChecker) : Prop where
  separate : Separate (reference history)
  represents : checker.files = (reference history).map Buffered.record
  unlinked : ∀ name, name ∈ checker.unlinked_files ↔ Gone name history

variable {after : DataLossChecker}

/-- A step has the effect of the operation of its event. -/
theorem Step.acts (step : checker.Step entry after) (other : entry.event.isFileno = false)
    : after = (checker.actOn entry.event.operation).1
      ∧ (IsError entry.result ↔ (checker.actOn entry.event.operation).2 = true) := by
  obtain ⟨result, outcome, error⟩ := respond_responds checker entry.event other
  have same := Except.ok.inj (step.symm.trans outcome)
  cases same
  exact ⟨rfl, error⟩

/-- A step of a tracked history that reports nothing keeps the correspondence. -/
theorem Reflects.step (reflects : Reflects past checker) (tracked : Tracked (past ++ [entry]))
    (step : checker.Step entry after) (quiet : ¬ IsError entry.result)
    : Reflects (past ++ [entry]) after := by
  obtain ⟨-, other, legal⟩ := throughout_snoc_iff.mp tracked
  obtain ⟨rfl, error⟩ := step.acts other
  have fine : (checker.actOn entry.event.operation).2 = false :=
    Bool.eq_false_iff.mpr (mt error.mpr quiet)
  cases decoded : entry.event.operation with
  | none =>
    have sameFiles : reference (past ++ [entry]) = reference past := by
      rw [reference_snoc, decoded, Option.elim_none]
    refine ⟨sameFiles ▸ reflects.separate, sameFiles ▸ reflects.represents, ?_⟩
    intro name
    rw [gone_snoc_iff, decoded]
    exact reflects.unlinked name
  | some operation =>
    rw [decoded] at fine
    have advanced : reference (past ++ [entry]) = advance (reference past) operation := by
      rw [reference_snoc, decoded, Option.elim_some]
    refine ⟨?_, ?_, ?_⟩
    · rw [advanced]
      exact reflects.separate.advance (legal operation decoded)
    · rw [advanced]
      exact act_files reflects.separate reflects.represents (legal operation decoded) fine
    · intro name
      rw [gone_snoc_iff, decoded, Option.elim_some, ← reflects.unlinked]
      exact mem_act_unlinked_iff name fine

theorem reflects_of_run (run : Run Step create past checker) (tracked : Tracked past)
    (quiet : ∀ entry ∈ past, ¬ IsError entry.result)
    : Reflects past checker := by
  induction run with
  | nil =>
    refine ⟨⟨.nil, nofun⟩, rfl, ?_⟩
    intro name
    simp [create, Gone, operations, not_since_nil]
  | snoc before step ih =>
    refine (ih (throughout_snoc_iff.mp tracked).1 ?_).step tracked step (quiet _ (by simp))
    intro entry member
    exact quiet entry (mem_append_left _ member)

/-- After a tracked history without an error, a `rename` is an error exactly when its target
is gone or a file of the old name has data in one of its two buffers.
-/
theorem rename_error_iff {past : List Entry} {entry : Entry} {after : DataLossChecker}
    {filename target : String} (run : Run Step create past checker)
    (tracked : Tracked (past ++ [entry])) (quiet : ∀ earlier ∈ past, ¬ IsError earlier.result)
    (step : checker.Step entry after)
    (renames : entry.event.operation = some (.rename filename target))
    : IsError entry.result
      ↔ Gone target past
        ∨ ∃ file ∈ reference past, file.name = filename ∧ file.Unsaved := by
  obtain ⟨earlier, other, -⟩ := throughout_snoc_iff.mp tracked
  have reflects := reflects_of_run run earlier quiet
  obtain ⟨-, error⟩ := step.acts other
  rw [error, renames, ← reflects.unlinked target,
    ← renameFiles_failed_iff filename target, ← reflects.represents]
  simp only [actOn, Option.elim, act]
  split
  next gone => simp [gone]
  next present => simp [present]

/-- A memory with the names `a` and `b` at addresses 1 and 2. -/
def namesMemory : Memory :=
  { Memory.silent with
    string := fun address => if address = 1 then "a" else if address = 2 then "b" else "" }

/-- A native call with its result and its first two arguments. -/
def nativeEvent (funcname : String) (result first second : UInt64) : Event :=
  .onCall namesMemory
    { funcname
      arguments := fun _ => ⟨0, .constant 0⟩
      args := some fun index => [result, 0, first, second].getD index 0
      site := ⟨""⟩
      thread := 0 }

/-- Witness: `a` is created and written, and renamed to `b` before it is synced. -/
theorem rename_error_iff_unsynced
    : let opens := nativeEvent "open" 5 1 0o101
      let writes := nativeEvent "write" 8 5 0
      let renames := nativeEvent "rename" 0 1 2
      let past : List Entry :=
        [⟨opens, IMPORTANT ||| (NEED_ARG0 ||| NEED_ARG1 ||| NEED_RET)⟩,
          ⟨writes, IMPORTANT ||| NEED_ARG0⟩]
      let result := ERROR ||| (NEED_ARG0 ||| NEED_ARG1)
      let checker : DataLossChecker := ⟨[⟨"a", minusOne, 5, .osBuffered, none⟩], ∅⟩
      checker.respond renames = .ok ({ checker with unlinked_files := {"a"} }, result)
      ∧ (IsError result
        ↔ Gone "b" past ∨ ∃ file ∈ reference past, file.name = "a" ∧ file.Unsaved)
      ∧ reference past = [⟨"a", none, some 5, false, true⟩] := by
  intro opens writes renames past result checker
  have opening : create.Step past[0] ⟨[⟨"a", minusOne, 5, .clean, none⟩], ∅⟩ := by rfl
  have writing : Step ⟨[⟨"a", minusOne, 5, .clean, none⟩], ∅⟩ past[1] checker := by rfl
  have moved : checker.Step ⟨renames, result⟩ { checker with unlinked_files := {"a"} } := by
    rfl
  have run : Run Step create past checker := (Run.nil.snoc opening).snoc writing
  have tracked : Tracked (past ++ [⟨renames, result⟩]) := by
    have nothing : Tracked [] := throughout_nil
    refine throughout_snoc_iff.mpr ⟨throughout_snoc_iff.mpr
      ⟨throughout_snoc_iff.mpr ⟨nothing, rfl, ?_⟩, rfl, ?_⟩, rfl, ?_⟩
    all_goals
      intro operation decoded
      cases decoded
    · exact ⟨by decide, by simp [reference, operations]⟩
    · exact show (5 : UInt64) ≠ minusOne by decide
    · trivial
  have quiet : ∀ entry ∈ past, ¬ IsError entry.result := by decide
  exact ⟨moved, rename_error_iff run tracked quiet moved rfl, rfl⟩

/-- Writes to the standard descriptors are passed over: when `a` was opened as descriptor 1
and written, a rename is no error although the data is not synced.
-/
theorem standard_descriptor_unreported
    : let opened : DataLossChecker := ⟨[⟨"a", minusOne, 1, .clean, none⟩], ∅⟩
      create.respond (nativeEvent "open" 1 1 0o101)
        = .ok (opened, IMPORTANT ||| (NEED_ARG0 ||| NEED_ARG1 ||| NEED_RET))
      ∧ opened.respond (nativeEvent "write" 8 1 0) = .ok (opened, OK)
      ∧ opened.respond (nativeEvent "rename" 0 1 2)
        = .ok (⟨[⟨"b", minusOne, 1, .clean, none⟩], {"a"}⟩, IMPORTANT ||| (NEED_ARG0 ||| NEED_ARG1))
      ∧ ¬ IsError (IMPORTANT ||| (NEED_ARG0 ||| NEED_ARG1))
      ∧ [Operation.openFile "a" true 1, .write 1].foldl advance []
        = [⟨"a", none, some 1, false, true⟩] :=
  ⟨rfl, rfl, rfl, by decide, rfl⟩

-- The descriptor of a stream

/-- The stream and the descriptor of a `fileno` whose result is known. -/
def Event.fileno : Event → Option (UInt64 × UInt64)
  | .onCall _ call =>
    if call.funcname = "fileno" ∨ call.funcname = "fileno_unlocked" then
      call.args.map fun args => (args 2, args 0)
    else none
  | .onRet _ ret =>
    ret.funcname.bind fun funcname =>
      if funcname = "fileno" ∨ funcname = "fileno_unlocked" then
        some (getIntFromExp (ret.getCallingArgument 1), getIntFromExp ret.result)
      else none

variable {fp fd : UInt64} {earlier later : List FileObject} {file : FileObject}

theorem respond_fileno (checker : DataLossChecker) {event : Event}
    (asked : event.fileno = some (fp, fd))
    : ∃ result, checker.respond event = (filenoFiles fp fd checker.files).map fun files =>
        ({ checker with files }, result) := by
  cases event with
  | onCall memory call =>
    simp only [Event.fileno, Option.ite_none_right_eq_some, Option.map_eq_some_iff] at asked
    obtain ⟨named, args, isArgs, same⟩ := asked
    cases same
    refine ⟨IMPORTANT ||| (NEED_ARG0 ||| NEED_RET), ?_⟩
    rcases named with named | named <;> simp [respond, onCall, named, isArgs] <;> rfl
  | onRet memory ret =>
    simp only [Event.fileno, Option.bind_eq_some_iff, Option.ite_none_right_eq_some] at asked
    obtain ⟨funcname, isName, named, same⟩ := asked
    cases same
    refine ⟨IMPORTANT ||| (NEED_RET ||| NEED_ARG0), ?_⟩
    rcases named with rfl | rfl <;> simp [respond, onRet, isName] <;> rfl

/-- The record is looked for at the index it had before the removal. -/
theorem filenoFiles_eq_iff (first : ∀ other ∈ earlier, other.fp ≠ fp) (own : file.fp = fp)
    : filenoFiles fp fd (earlier ++ file :: later)
        = .ok (earlier.filter (·.fd ≠ fd) ++ { file with fd } :: later.filter (·.fd ≠ fd))
      ↔ fd ≠ minusOne ∧ ∀ other ∈ earlier, other.fd ≠ fd := by
  have found : (earlier ++ file :: later).findIdx? (·.fp = fp) = some earlier.length := by
    rw [findIdx?_append, findIdx?_eq_none_iff.mpr (by simpa using first)]
    simp [findIdx?_cons, own]
  have modified {before after : List FileObject} {record : FileObject}
      (change : FileObject → FileObject)
      : (before ++ record :: after).modify before.length change
        = before ++ change record :: after := by
    simp [modify_eq_take_cons_drop]
  simp only [filenoFiles, found, modified, filter_append]
  by_cases real : fd = minusOne
  · -- The record itself is removed as well.
    rw [filter_cons_of_neg (by simp [real])]
    refine iff_of_false (fun returned => ?_) (by simp [real])
    split at returned
    · have sizes := congrArg length (Except.ok.inj returned)
      simp at sizes
    · cases returned
  rw [filter_cons_of_pos (by simpa using Ne.symm real)]
  by_cases clear : ∀ other ∈ earlier, other.fd ≠ fd
  · rw [filter_eq_self.mpr (by simpa using clear), modified, if_pos (by simp)]
    exact iff_of_true rfl ⟨real, clear⟩
  -- The record is before its index now.
  have shorter : (earlier.filter (·.fd ≠ fd)).length < earlier.length := by
    simpa [length_filter_lt_length_iff_exists] using clear
  refine iff_of_false (fun returned => ?_) (by simp [clear])
  split at returned
  · have moved := congrArg (·[(earlier.filter (·.fd ≠ fd)).length]?) (Except.ok.inj returned)
    simp only [getElem?_modify, if_neg shorter.ne'] at moved
    simp [Ne.symm real] at moved
  · cases returned

/-- A `fileno` of a tracked stream gives the descriptor to the first record of the stream and
removes the other records that had it exactly when no record before that one had it and it is
not `-1`.
-/
theorem fileno_moves_iff {checker : DataLossChecker} {event : Event} {fp fd : UInt64}
    {earlier later : List FileObject} {file : FileObject}
    (asked : event.fileno = some (fp, fd)) (files : checker.files = earlier ++ file :: later)
    (first : ∀ other ∈ earlier, other.fp ≠ fp) (own : file.fp = fp)
    : (∃ result, checker.respond event = .ok ({ checker with
          files := earlier.filter (·.fd ≠ fd) ++ { file with fd } :: later.filter (·.fd ≠ fd) },
        result))
      ↔ fd ≠ minusOne ∧ ∀ other ∈ earlier, other.fd ≠ fd := by
  obtain ⟨result, outcome⟩ := respond_fileno checker asked
  rw [← filenoFiles_eq_iff first own, outcome, files]
  cases filenoFiles fp fd (earlier ++ file :: later) <;> simp [Except.map]

/-- Witness: the record that had the descriptor is behind that of the stream. -/
theorem fileno_moves_iff_behind
    : let files : List FileObject :=
        [⟨"a", 16, minusOne, .clean, none⟩, ⟨"b", minusOne, 5, .clean, none⟩]
      ∃ result, respond ⟨files, ∅⟩ (nativeEvent "fileno" 5 16 0)
        = .ok (⟨[⟨"a", 16, 5, .clean, none⟩], ∅⟩, result) :=
  (@fileno_moves_iff ⟨_, ∅⟩ _ 16 5 [] _ _ rfl rfl nofun rfl).mpr ⟨by decide, nofun⟩

/-- If it is before it, another record gets the descriptor, or the index is outside of the
list.
-/
theorem fileno_of_earlier_fails
    : let earlier : FileObject := ⟨"b", minusOne, 5, .clean, none⟩
      let file : FileObject := ⟨"a", 16, minusOne, .clean, none⟩
      let other : FileObject := ⟨"c", 24, minusOne, .clean, none⟩
      respond ⟨[earlier, file, other], ∅⟩ (nativeEvent "fileno" 5 16 0)
        = .ok (⟨[file, { other with fd := 5 }], ∅⟩, IMPORTANT ||| (NEED_ARG0 ||| NEED_RET))
      ∧ respond ⟨[earlier, file], ∅⟩ (nativeEvent "fileno" 5 16 0) = .error .badPointer :=
  ⟨rfl, rfl⟩

end DataLossChecker

end Woodpecker.Checkers
