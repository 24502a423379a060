import Woodpecker.Checkers.DataLoss
import Woodpecker.Checkers.File
import Woodpecker.Checkers.FilePerm
import Woodpecker.Checkers.Lock
import Woodpecker.Checkers.OpenClose
import Woodpecker.Checkers.Pairwise

/-! Which functions a checker reacts to, and which of them `mayBeEvent` tells the slicer
about.

Each checker names its functions twice, in `mayBeEvent` and in its event handlers. The
names on which the two disagree are listed for every checker and every option.
-/

namespace Woodpecker.Checkers

open Library

/-- A built-in checker with its options. -/
inductive Builtin where
  | openClose
  | lock
  | file
  | dataLoss
  | pairwise (start_funcs end_funcs : Finset String) (ignore_set : Finset UInt64)
  | filePerm
  | leak
  | sysOpenClose (written_only : Bool)

namespace Builtin

def State : Builtin → Type
  | openClose => OpenCloseChecker
  | lock => LockChecker
  | file => FileChecker
  | dataLoss => DataLossChecker
  | pairwise _ _ _ => PairwiseChecker
  | filePerm => FilePermChecker
  | leak => LeakChecker
  | sysOpenClose _ => SysOpenCloseChecker

instance : (builtin : Builtin) → DecidableEq builtin.State
  | openClose => inferInstanceAs (DecidableEq OpenCloseChecker)
  | lock => inferInstanceAs (DecidableEq LockChecker)
  | file => inferInstanceAs (DecidableEq FileChecker)
  | dataLoss => inferInstanceAs (DecidableEq DataLossChecker)
  | pairwise _ _ _ => inferInstanceAs (DecidableEq PairwiseChecker)
  | filePerm => inferInstanceAs (DecidableEq FilePermChecker)
  | leak => inferInstanceAs (DecidableEq LeakChecker)
  | sysOpenClose _ => inferInstanceAs (DecidableEq SysOpenCloseChecker)

/-- The checker as it is constructed. -/
def create : (builtin : Builtin) → builtin.State
  | openClose => OpenCloseChecker.create
  | lock => LockChecker.create
  | file => FileChecker.create
  | dataLoss => DataLossChecker.create
  | pairwise start_funcs end_funcs ignore_set =>
    PairwiseChecker.create start_funcs end_funcs ignore_set
  | filePerm => FilePermChecker.create
  | leak => LeakChecker.create
  | sysOpenClose written_only => SysOpenCloseChecker.create written_only

/-- The state keeps the options the checker was constructed with. -/
def HasOptions : (builtin : Builtin) → builtin.State → Prop
  | pairwise start_funcs end_funcs ignore_set, checker =>
    PairwiseChecker.start_funcs checker = start_funcs
    ∧ PairwiseChecker.end_funcs checker = end_funcs
    ∧ PairwiseChecker.ignore_set checker = ignore_set
  | leak, checker =>
    (LeakChecker.pairs checker).start_funcs = LeakChecker.create.pairs.start_funcs
    ∧ (LeakChecker.pairs checker).end_funcs = LeakChecker.create.pairs.end_funcs
    ∧ (LeakChecker.pairs checker).ignore_set = LeakChecker.create.pairs.ignore_set
  | sysOpenClose written_only, checker =>
    SysOpenCloseChecker.written_only checker = written_only
  | openClose, _ | lock, _ | file, _ | dataLoss, _ | filePerm, _ => True

def mayBeEvent (builtin : Builtin) (funcname : String) : Bool :=
  match builtin with
  | openClose => OpenCloseChecker.mayBeEvent funcname
  | lock => LockChecker.mayBeEvent funcname
  | file => FileChecker.mayBeEvent funcname
  | dataLoss => DataLossChecker.mayBeEvent funcname
  | pairwise start_funcs end_funcs ignore_set =>
    (PairwiseChecker.create start_funcs end_funcs ignore_set).mayBeEvent funcname
  | filePerm => FilePermChecker.mayBeEvent funcname
  | leak => LeakChecker.create.mayBeEvent funcname
  | sysOpenClose written_only =>
    (SysOpenCloseChecker.create written_only).mayBeEvent funcname

def onCall (memory : Memory)
    : (builtin : Builtin) → builtin.State → Call → Except Fault (builtin.State × Result)
  | openClose, checker, call => OpenCloseChecker.onCall memory checker call
  | lock, checker, call => .ok (LockChecker.onCall checker call)
  | file, checker, call => .ok (FileChecker.onCall memory checker call)
  | dataLoss, checker, call => DataLossChecker.onCall memory checker call
  | pairwise _ _ _, checker, call =>
    .ok (PairwiseChecker.onCall (PairwiseChecker.mayBeEvent checker) checker call)
  | filePerm, checker, call => FilePermChecker.onCall memory checker call
  | leak, checker, call => .ok (LeakChecker.onCall memory checker call)
  | sysOpenClose _, checker, call => .ok (SysOpenCloseChecker.onCall checker call)

def onRet (memory : Memory)
    : (builtin : Builtin) → builtin.State → Return → Except Fault (builtin.State × Result)
  | openClose, checker, ret => .ok (OpenCloseChecker.onRet memory checker ret)
  | lock, checker, _ => .ok (checker, OK)
  | file, checker, ret => .ok (FileChecker.onRet checker ret)
  | dataLoss, checker, ret => DataLossChecker.onRet memory checker ret
  | pairwise _ _ _, checker, ret =>
    .ok (PairwiseChecker.onRet (PairwiseChecker.mayBeEvent checker) checker ret)
  | filePerm, checker, ret => FilePermChecker.onRet memory checker ret
  | leak, checker, ret => .ok (LeakChecker.onRet memory checker ret)
  | sysOpenClose _, checker, ret => .ok (SysOpenCloseChecker.onRet checker ret)

/-- A call of the function does not leave the checker alone. -/
def ReactsToCall (builtin : Builtin) (funcname : String) : Prop :=
  ∃ memory checker call,
    builtin.HasOptions checker
    ∧ call.funcname = funcname
    ∧ builtin.onCall memory checker call ≠ .ok (checker, OK)

/-- A return from the function does not leave the checker alone. -/
def ReactsToRet (builtin : Builtin) (funcname : String) : Prop :=
  ∃ memory checker ret,
    builtin.HasOptions checker
    ∧ ret.funcname = some funcname
    ∧ builtin.onRet memory checker ret ≠ .ok (checker, OK)

/-- Some event of the function changes the checker or has a result other than `OK`. -/
def Reacts (builtin : Builtin) (funcname : String) : Prop :=
  builtin.ReactsToCall funcname ∨ builtin.ReactsToRet funcname

/-- The functions a checker reacts to without telling the slicer. -/
def missed : Builtin → List String
  | openClose => ["close_stdout"]
  | dataLoss => ["write", "close"]
  | filePerm => ["stat", "stat64"]
  | leak =>
    ["init_cur_collate", "__fd_open", "write", "_stdio_fopen", "fclose", "klee_init_env"]
  | sysOpenClose true => ["write"]
  | lock | file | pairwise _ _ _ | sysOpenClose false => []

-- Names that are no events

variable {funcname : String}

/-- Past the names it lists first, `mayBeEvent` asks the same question about the start of a
name as the handler.
-/
theorem file_onCall {memory : Memory} {call : Call} {checker : FileChecker}
    (unlisted : FileChecker.mayBeEvent call.funcname = false)
    : checker.onCall memory call = (checker, OK) := by
  unfold FileChecker.mayBeEvent at unlisted
  by_cases clear : FileChecker.isClearerr call.funcname
  · simp [clear] at unlisted
  by_cases long : FileChecker.longF call.funcname
  · simp [clear, long] at unlisted
    simp [FileChecker.onCall, FileChecker.isOpen, FileChecker.isFerror,
      FileChecker.streamIndex, clear, long, unlisted]
  · simp [FileChecker.onCall, clear, long]

theorem file_onRet {ret : Return} {checker : FileChecker} (named : ret.funcname = some funcname)
    (unlisted : FileChecker.mayBeEvent funcname = false)
    : checker.onRet ret = (checker, OK) := by
  have other (name : String) (listed : FileChecker.mayBeEvent name = true)
      : funcname ≠ name := by
    rintro rfl
    simp [listed] at unlisted
  simp [FileChecker.onRet, named, FileChecker.isOpen, FileChecker.isFerror, other "fopen" rfl,
    other "fopen64" rfl, other "fdopen" rfl, other "ferror" rfl, other "ferror_unlocked" rfl]

theorem pairwise_onCall {mayBeEvent : String → Bool} {call : Call} {checker : PairwiseChecker}
    (unlisted : mayBeEvent call.funcname = false)
    : checker.onCall mayBeEvent call = (checker, OK) := by
  simp [PairwiseChecker.onCall, unlisted]

theorem pairwise_onRet {mayBeEvent : String → Bool} {ret : Return} {checker : PairwiseChecker}
    (named : ret.funcname = some funcname) (unlisted : mayBeEvent funcname = false)
    : checker.onRet mayBeEvent ret = (checker, OK) := by
  simp [PairwiseChecker.onRet, named, unlisted]

/-- What the ignored names and the names of events come to in a state of the leak checker. -/
theorem leak_unlisted {checker : LeakChecker} (options : leak.HasOptions checker)
    (unlisted : leak.mayBeEvent funcname = false) (unmissed : funcname ∉ leak.missed)
    : checker.mayBeEvent funcname = false ∧ LeakChecker.isIgnored funcname = false := by
  obtain ⟨starts, ends, -⟩ := options
  refine ⟨?_, by simpa [LeakChecker.isIgnored, missed] using unmissed⟩
  rw [← unlisted]
  simp only [mayBeEvent, LeakChecker.mayBeEvent, PairwiseChecker.mayBeEvent, starts, ends]

variable {builtin : Builtin} {checker : builtin.State}

/-- A call of a function that is neither an event nor missed leaves every checker alone,
checker by checker.
-/
theorem onCall_unlisted {call : Call} (memory : Memory) (options : builtin.HasOptions checker)
    (unlisted : builtin.mayBeEvent call.funcname = false)
    (unmissed : call.funcname ∉ builtin.missed)
    : builtin.onCall memory checker call = .ok (checker, OK) := by
  cases builtin with
  | openClose =>
    change OpenCloseChecker.onCall memory checker call = .ok (checker, OK)
    simp [mayBeEvent, OpenCloseChecker.mayBeEvent, missed] at unlisted unmissed
    cases words : call.args <;>
      simp [OpenCloseChecker.onCall, OpenCloseChecker.isOpen, words, unlisted, unmissed]
  | lock =>
    change LockChecker at checker
    refine congrArg Except.ok (?_ : checker.onCall call = (checker, OK))
    simp [mayBeEvent, LockChecker.mayBeEvent] at unlisted
    cases words : call.args <;> simp [LockChecker.onCall, words, unlisted]
  | file => exact congrArg Except.ok (file_onCall unlisted)
  | dataLoss =>
    change DataLossChecker.onCall memory checker call = .ok (checker, OK)
    simp [mayBeEvent, DataLossChecker.mayBeEvent, missed] at unlisted unmissed
    simp [DataLossChecker.onCall, DataLossChecker.streamIndex, unlisted, unmissed]
  | pairwise start_funcs end_funcs ignore_set =>
    change PairwiseChecker at checker
    obtain ⟨rfl, rfl, -⟩ := options
    exact congrArg Except.ok (pairwise_onCall unlisted)
  | filePerm =>
    change FilePermChecker.onCall memory checker call = .ok (checker, OK)
    simp [mayBeEvent, FilePermChecker.mayBeEvent, missed] at unlisted unmissed
    simp [FilePermChecker.onCall, unlisted, unmissed]
  | leak =>
    change LeakChecker at checker
    obtain ⟨unlisted, unignored⟩ := leak_unlisted options unlisted unmissed
    have delegated : checker.pairs.onCall checker.mayBeEvent call = (checker.pairs, OK) :=
      pairwise_onCall unlisted
    simp [LeakChecker.mayBeEvent] at unlisted
    refine congrArg Except.ok (?_ : checker.onCall memory call = (checker, OK))
    simp [LeakChecker.onCall, unignored, unlisted, LeakChecker.withPairs, delegated]
  | sysOpenClose written_only =>
    change SysOpenCloseChecker at checker
    obtain rfl : checker.written_only = written_only := options
    have unwritten : call.funcname ≠ "write" := by
      cases option : checker.written_only <;>
        simp_all [mayBeEvent, SysOpenCloseChecker.mayBeEvent, SysOpenCloseChecker.create, missed]
    simp [mayBeEvent, SysOpenCloseChecker.mayBeEvent] at unlisted
    refine congrArg Except.ok (?_ : checker.onCall call = (checker, OK))
    simp [SysOpenCloseChecker.onCall, unlisted, unwritten]

/-- A return from a function that is neither an event nor missed leaves every checker
alone, checker by checker.
-/
theorem onRet_unlisted {ret : Return} (memory : Memory) (options : builtin.HasOptions checker)
    (named : ret.funcname = some funcname) (unlisted : builtin.mayBeEvent funcname = false)
    (unmissed : funcname ∉ builtin.missed)
    : builtin.onRet memory checker ret = .ok (checker, OK) := by
  cases builtin with
  | openClose =>
    change OpenCloseChecker at checker
    refine congrArg Except.ok (?_ : checker.onRet memory ret = (checker, OK))
    simp [mayBeEvent, OpenCloseChecker.mayBeEvent, missed] at unlisted unmissed
    simp [OpenCloseChecker.onRet, OpenCloseChecker.isOpen, named, unlisted, unmissed]
  | lock => rfl
  | file => exact congrArg Except.ok (file_onRet named unlisted)
  | dataLoss =>
    change DataLossChecker.onRet memory checker ret = .ok (checker, OK)
    simp [mayBeEvent, DataLossChecker.mayBeEvent] at unlisted
    simp [DataLossChecker.onRet, named, unlisted]
  | pairwise start_funcs end_funcs ignore_set =>
    change PairwiseChecker at checker
    obtain ⟨rfl, rfl, -⟩ := options
    exact congrArg Except.ok (pairwise_onRet named unlisted)
  | filePerm =>
    change FilePermChecker.onRet memory checker ret = .ok (checker, OK)
    simp [mayBeEvent, FilePermChecker.mayBeEvent] at unlisted
    simp [FilePermChecker.onRet, named, unlisted]
  | leak =>
    change LeakChecker at checker
    obtain ⟨unlisted, unignored⟩ := leak_unlisted options unlisted unmissed
    have delegated : checker.pairs.onRet checker.mayBeEvent ret = (checker.pairs, OK) :=
      pairwise_onRet named unlisted
    simp [LeakChecker.mayBeEvent] at unlisted
    refine congrArg Except.ok (?_ : checker.onRet memory ret = (checker, OK))
    simp [LeakChecker.onRet, named, unignored, unlisted, LeakChecker.withPairs, delegated]
  | sysOpenClose written_only =>
    change SysOpenCloseChecker at checker
    refine congrArg Except.ok (?_ : checker.onRet ret = (checker, OK))
    simp [mayBeEvent, SysOpenCloseChecker.mayBeEvent] at unlisted
    simp [SysOpenCloseChecker.onRet, named, unlisted]

-- Names the slicer is not told about

/-- A memory in which every string is `name`, every descriptor is 3 and no address is
mapped.
-/
def plainMemory : Memory where
  string := fun _ => "name"
  fileno := fun _ => 3
  resolveOne := fun _ => none
  charPtr := fun _ => "name"
  pointee := fun _ => 0
  mustBeEqual := fun _ _ => some false
  precedes := fun _ _ => false

/-- A call by interpreted code with all arguments 3. -/
def plainCall (funcname : String) : Call where
  funcname := funcname
  arguments := fun _ => ⟨0, .constant 3⟩
  args := none
  site := ⟨""⟩
  thread := 0

/-- Every missed name is one a new checker reacts to when it is called, and one that
`mayBeEvent` does not list, by evaluation.
-/
theorem reacts_of_missed (missed : funcname ∈ builtin.missed)
    : builtin.Reacts funcname ∧ builtin.mayBeEvent funcname = false := by
  suffices new : builtin.HasOptions builtin.create
      ∧ builtin.onCall plainMemory builtin.create (plainCall funcname) ≠ .ok (builtin.create, OK)
      ∧ builtin.mayBeEvent funcname = false from
    ⟨.inl ⟨plainMemory, builtin.create, plainCall funcname, new.1, rfl, new.2.1⟩, new.2.2⟩
  cases builtin with
  | lock | file | pairwise => cases missed
  | openClose =>
    simp [Builtin.missed] at missed
    subst missed
    exact ⟨trivial, by decide, by decide⟩
  | dataLoss | filePerm =>
    simp [Builtin.missed] at missed
    rcases missed with rfl | rfl <;> exact ⟨trivial, by decide, by decide⟩
  | leak =>
    simp [Builtin.missed] at missed
    rcases missed with rfl | rfl | rfl | rfl | rfl | rfl <;>
      exact ⟨⟨rfl, rfl, rfl⟩, by decide, by decide⟩
  | sysOpenClose written_only =>
    cases written_only with
    | false => cases missed
    | true =>
      simp [Builtin.missed] at missed
      subst missed
      exact ⟨rfl, by decide, by decide⟩

/-- `mayBeEvent` lists a name the checker reacts to exactly when it is not one of the missed
names: on those the two disagree, and a call of any other unlisted name changes nothing.
-/
theorem mayBeEvent_covers_iff (builtin : Builtin) (funcname : String)
    : (builtin.Reacts funcname → builtin.mayBeEvent funcname = true)
      ↔ funcname ∉ builtin.missed := by
  constructor
  · intro covers missed
    obtain ⟨reacts, unlisted⟩ := reacts_of_missed missed
    exact Bool.false_ne_true (unlisted.symm.trans (covers reacts))
  · intro unmissed reacts
    by_contra listed
    have unlisted : builtin.mayBeEvent funcname = false := Bool.eq_false_of_not_eq_true listed
    rcases reacts with ⟨memory, checker, call, options, rfl, changed⟩
      | ⟨memory, checker, ret, options, named, changed⟩
    · exact changed (onCall_unlisted memory options unlisted unmissed)
    · exact changed (onRet_unlisted memory options named unlisted unmissed)

/-- Witness: `write` is an event of the descriptor checker in its written-only mode, the one
mode in which it does not list it.
-/
theorem written_only_misses_write
    : SysOpenCloseChecker.onCall (.create true) (plainCall "write")
        = (.create true, IMPORTANT ||| NEED_ARG0)
      ∧ (sysOpenClose true).Reacts "write"
      ∧ (sysOpenClose true).mayBeEvent "write" = false := by
  refine ⟨by decide, .inl ?_, by decide⟩
  exact ⟨plainMemory, .create true, plainCall "write", rfl, rfl, by decide⟩

end Builtin

end Woodpecker.Checkers
