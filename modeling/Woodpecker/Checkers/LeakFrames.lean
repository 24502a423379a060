import Woodpecker.Checkers.Pairwise
import Woodpecker.Library.Runs

/-! The counter of ignored operations of the leak checker, over calls and returns.

The counter goes up in the call hook and down in the return hook. The executor calls the
first one for every function, but the second one only for interpreted functions, and without
a name if the call went through a pointer. `getline` sets the counter where the other
functions add to it.
-/

namespace Woodpecker.Checkers

open Library

namespace LeakChecker

/-- The functions whose heap operations are not to be seen. -/
def ignores (funcname : String) : Bool :=
  isIgnored funcname || funcname = "getline"

/-- An active call of an interpreted function. A call through a pointer is not direct. -/
structure Frame where
  thread : Int
  funcname : String
  direct : Bool
deriving DecidableEq, Repr

/-- The checker with the active frames of all threads, the newest one first. -/
structure Stacked where
  checker : LeakChecker
  frames : List Frame

open Stacked

def Stacked.start : Stacked where
  checker := create
  frames := []

/-- The number of active frames of functions that are ignored. -/
def Stacked.active (stacked : Stacked) : Nat :=
  stacked.frames.countP fun frame => ignores frame.funcname

inductive CallLabel where
  | call (memory : Memory) (call : Call) (direct : Bool)
  | external (memory : Memory) (call : Call)
  | ret (memory : Memory) (ret : Return) (frame : Frame)

/-- The events the executor gives to the checker. An external function has returned when its
only event comes; a return ends the newest frame of its thread, and its event names the
function if the call was direct.
-/
inductive CallStep : Stacked → CallLabel → Stacked → Prop
  | call (stacked : Stacked) (memory : Memory) (call : Call) (direct : Bool)
    (interpreted : call.args = none)
    : CallStep stacked (.call memory call direct)
        ⟨(stacked.checker.onCall memory call).1,
          ⟨call.thread, call.funcname, direct⟩ :: stacked.frames⟩
  | external (stacked : Stacked) (memory : Memory) (call : Call)
    : CallStep stacked (.external memory call)
        ⟨(stacked.checker.onCall memory call).1, stacked.frames⟩
  | ret (checker : LeakChecker) (newer older : List Frame) (frame : Frame) (memory : Memory)
    (ret : Return)
    (thread : ret.thread = frame.thread)
    (newest : ∀ other ∈ newer, other.thread ≠ frame.thread)
    (target : ret.funcname = if frame.direct then some frame.funcname else none)
    : CallStep ⟨checker, newer ++ frame :: older⟩ (.ret memory ret frame)
        ⟨(checker.onRet memory ret).1, newer ++ older⟩

/-- The counter is the number of active frames that are ignored. -/
structure Balanced (stacked : Stacked) : Prop where
  counts : stacked.checker.pairs.ignore_ops = stacked.active
  nonnegative : 0 ≤ stacked.checker.pairs.ignore_ops
  idle : stacked.active = 0 → stacked.checker.pairs.ignore_ops = 0

/-- Ignored functions are interpreted and called directly, and `getline` is entered only when
no ignored frame is active; an external `getline` goes unnoticed when one is.
-/
def Careful (transition : Transition Stacked CallLabel) : Prop :=
  match transition.label with
  | .call _ call _ => call.funcname = "getline" → transition.before.active = 0
  | .external _ call =>
    isIgnored call.funcname = false
    ∧ (call.funcname = "getline" → transition.before.active ≠ 0)
  | .ret _ _ frame => ignores frame.funcname = true → frame.direct = true

-- What the hooks do to the counter

section Counter

variable (checker : PairwiseChecker)

@[simp]
theorem parseStart_ignore_ops (ret : UInt64) (site : AllocInfo)
    : (checker.parseStart ret site).1.ignore_ops = checker.ignore_ops := by
  unfold PairwiseChecker.parseStart
  split <;> rfl

@[simp]
theorem parseEnd_ignore_ops (arg1 : UInt64)
    : (checker.parseEnd arg1).1.ignore_ops = checker.ignore_ops := by
  unfold PairwiseChecker.parseEnd
  split
  · rfl
  · split <;> rfl

theorem parseRealloc_ignore_ops (ptr size ret : UInt64) (site : AllocInfo)
    : (parseRealloc checker ptr size ret site).1.ignore_ops = checker.ignore_ops := by
  unfold parseRealloc
  split
  · simp
  split
  · simp
  · split <;> simp

theorem startIf_ignore_ops (ret : UInt64) (site : AllocInfo)
    : (startIf checker ret site).1.ignore_ops = checker.ignore_ops := by
  unfold startIf
  split <;> simp

theorem pairs_onCall_ignore_ops (mayBeEvent : String → Bool) (call : Call)
    : (checker.onCall mayBeEvent call).1.ignore_ops = checker.ignore_ops := by
  unfold PairwiseChecker.onCall
  split
  · rfl
  split
  · rfl
  cases call.args with
  | none => dsimp only; split <;> simp [PairwiseChecker.needs]
  | some args =>
    dsimp only
    split
    · simp [PairwiseChecker.needs]
    · split <;> simp [PairwiseChecker.needs]

theorem pairs_onRet_ignore_ops (mayBeEvent : String → Bool) (ret : Return)
    : (checker.onRet mayBeEvent ret).1.ignore_ops = checker.ignore_ops := by
  unfold PairwiseChecker.onRet
  rcases ret.funcname with _ | funcname
  · rfl
  dsimp only
  split
  · rfl
  split
  · rfl
  · split <;> simp [PairwiseChecker.needs]

end Counter

variable {checker : LeakChecker} {memory : Memory}

/-- The branches of a hook, one test at a time. -/
theorem ignore_ops_ite {test : Prop} [Decidable test] {first second : LeakChecker × Result}
    {count : Int} (yes : test → first.1.pairs.ignore_ops = count)
    (no : ¬ test → second.1.pairs.ignore_ops = count)
    : (if test then first else second).1.pairs.ignore_ops = count := by
  split
  next holds => exact yes holds
  next fails => exact no fails

/-- A call adds one for an ignored function, and sets the counter for a `getline` that is not
ignored itself.
-/
theorem onCall_ignore_ops (call : Call)
    : (checker.onCall memory call).1.pairs.ignore_ops
      = if isIgnored call.funcname then checker.pairs.ignore_ops + 1
        else if call.funcname = "getline" ∧ checker.pairs.ignore_ops = 0 then 1
        else checker.pairs.ignore_ops := by
  -- `getline` is no ignored function, so only the counter after the first test matters.
  have counting (counted : LeakChecker) (eq : (if isIgnored call.funcname then
        checker.setIgnoreOps (checker.pairs.ignore_ops + 1) else checker) = counted)
      : (if isIgnored call.funcname then checker.pairs.ignore_ops + 1
          else if call.funcname = "getline" ∧ checker.pairs.ignore_ops = 0 then 1
          else checker.pairs.ignore_ops)
        = if call.funcname = "getline" ∧ counted.pairs.ignore_ops = 0 then 1
          else counted.pairs.ignore_ops := by
    subst eq
    by_cases ignored : isIgnored call.funcname = true
    · have other : call.funcname ≠ "getline" := by
        intro same
        simp [same, isIgnored] at ignored
      simp [ignored, other, setIgnoreOps]
    · simp [ignored]
  unfold onCall
  generalize eq : (if isIgnored call.funcname then
    checker.setIgnoreOps (checker.pairs.ignore_ops + 1) else checker) = counted
  rw [counting counted eq]
  apply ignore_ops_ite
  · intro busy
    rw [if_neg fun both => busy both.2]
  intro idle
  apply ignore_ops_ite
  · intro realloc
    rw [if_neg (by simp [realloc])]
    cases call.args with
    | none => rfl
    | some args => exact parseRealloc_ignore_ops _ _ _ _ _
  intro _
  apply ignore_ops_ite
  · intro getline
    rw [if_pos ⟨getline, not_ne_iff.mp idle⟩]
    cases call.args <;> rfl
  intro other
  have unset : ¬ (call.funcname = "getline" ∧ counted.pairs.ignore_ops = 0) := fun both =>
    other both.1
  apply ignore_ops_ite
  · intro _
    rw [if_neg unset]
    cases call.args with
    | none => rfl
    | some args => exact startIf_ignore_ops _ _ _
  intro _
  rw [if_neg unset]
  exact pairs_onCall_ignore_ops _ _ _

theorem leaveGetline_ignore_ops (ret : Return)
    : (checker.leaveGetline memory ret).pairs.ignore_ops = checker.pairs.ignore_ops := by
  unfold leaveGetline
  dsimp only
  split
  · rfl
  split
  · rfl
  · split <;> simp

/-- A return that names an ignored function takes one away. -/
theorem onRet_ignore_ops (ret : Return)
    : (checker.onRet memory ret).1.pairs.ignore_ops
      = if ret.funcname.any ignores then checker.pairs.ignore_ops - 1
        else checker.pairs.ignore_ops := by
  unfold onRet
  rcases ret.funcname with _ | funcname
  · rfl
  have counted
      : (if isIgnored funcname ∨ funcname = "getline" then
          checker.setIgnoreOps (checker.pairs.ignore_ops - 1) else checker).pairs.ignore_ops
        = if (some funcname).any ignores then checker.pairs.ignore_ops - 1
          else checker.pairs.ignore_ops := by
    simp only [Option.any_some, ignores, Bool.or_eq_true, decide_eq_true_eq]
    split <;> rfl
  rw [← counted]
  apply ignore_ops_ite
  · exact fun _ => rfl
  intro _
  apply ignore_ops_ite
  · exact fun _ => parseRealloc_ignore_ops _ _ _ _ _
  intro _
  apply ignore_ops_ite
  · exact fun _ => leaveGetline_ignore_ops ret
  intro _
  apply ignore_ops_ite
  · exact fun _ => startIf_ignore_ops _ _ _
  intro _
  exact pairs_onRet_ignore_ops _ _ _

-- The counter and the frames

variable {stacked after : Stacked} {label : CallLabel}

theorem balanced_of_counts (counts : stacked.checker.pairs.ignore_ops = stacked.active)
    : Balanced stacked where
  counts := counts
  nonnegative := by omega
  idle := by omega

theorem getline_not_ignored : isIgnored "getline" = false := by
  decide

/-- A step from a balanced state leads to one exactly when it is careful, hook by hook. -/
theorem CallStep.balanced_iff (step : CallStep stacked label after) (balanced : Balanced stacked)
    : Balanced after ↔ Careful ⟨stacked, label, after⟩ := by
  have counts := balanced.counts
  have iff_counts {state : Stacked}
      : Balanced state ↔ state.checker.pairs.ignore_ops = state.active :=
    ⟨Balanced.counts, balanced_of_counts⟩
  have more (count : Int) : count + 1 ≠ count := by omega
  rw [iff_counts]
  cases step with
  | call _ memory call direct interpreted =>
    rw [onCall_ignore_ops, active, List.countP_cons, ← active, counts]
    simp only [Careful, ignores]
    by_cases getline : call.funcname = "getline"
    · simp only [getline, getline_not_ignored]
      by_cases idle : stacked.active = 0
      · simp [idle]
      · simp [idle, (more _).symm]
    · by_cases ignored : isIgnored call.funcname = true <;> simp [getline, ignored]
  | external _ memory call =>
    have same : active ⟨(stacked.checker.onCall memory call).1, stacked.frames⟩
        = stacked.active := rfl
    rw [onCall_ignore_ops, counts, same]
    simp only [Careful]
    by_cases getline : call.funcname = "getline"
    · simp only [getline, getline_not_ignored]
      by_cases idle : stacked.active = 0 <;> simp [idle]
    by_cases ignored : isIgnored call.funcname = true
    · simp [ignored, more]
    · simp [getline, ignored]
  | ret checker newer older frame memory ret thread newest target =>
    have same : active ⟨(checker.onRet memory ret).1, newer ++ older⟩
        = (newer ++ older).countP fun frame => ignores frame.funcname := rfl
    rw [active, List.countP_append, List.countP_cons, ← Nat.add_assoc,
      ← List.countP_append] at counts
    rw [onRet_ignore_ops, target, same, counts]
    simp only [Careful]
    by_cases ignored : ignores frame.funcname = true
    · by_cases direct : frame.direct = true
      · simp [ignored, direct]
      · simp [ignored, direct, more]
    · by_cases direct : frame.direct = true <;> simp [ignored, direct]

/-- Over every run of calls and returns, the counter is the number of active ignored frames
after each step exactly when every step is careful.
-/
theorem balanced_iff_careful {trace : List (Transition Stacked CallLabel)} {finish : Stacked}
    (run : Run (Takes CallStep) Stacked.start trace finish)
    : (∀ transition ∈ trace, Balanced transition.after)
      ↔ ∀ transition ∈ trace, Careful transition := by
  refine run.forall_iff Balanced (balanced_of_counts rfl) fun transition step balanced => ?_
  exact ⟨step.balanced_iff balanced, (step.balanced_iff balanced).mpr⟩

/-- A call of `write`, of native code if it has argument words. -/
def writeCall (args : Option (Nat → UInt64)) : Call where
  funcname := "write"
  arguments := fun _ => ⟨0, .constant 0⟩
  args := args
  site := ⟨""⟩
  thread := 0

def writeReturn : Return where
  funcname := some "write"
  getCallingArgument := fun _ => ⟨0, .constant 0⟩
  result := ⟨0, .constant 0⟩
  site := ⟨""⟩
  thread := 0

/-- Witness: an interpreted `write` is called directly and returns. -/
theorem balanced_iff_careful_write
    : ∃ trace finish, Run (Takes CallStep) Stacked.start trace finish
        ∧ trace.map Transition.label
          = [.call .silent (writeCall none) true, .ret .silent writeReturn ⟨0, "write", true⟩]
        ∧ ∀ transition ∈ trace, Balanced transition.after := by
  have called := CallStep.call start .silent (writeCall none) true rfl
  have returned := CallStep.ret (start.checker.onCall .silent (writeCall none)).1 [] []
    ⟨0, "write", true⟩ .silent writeReturn rfl (by simp) rfl
  have run := (Run.nil.record called).record returned
  refine ⟨_, _, run, rfl, (balanced_iff_careful run).mpr ?_⟩
  intro transition member
  simp at member
  rcases member with rfl | rfl
  · exact fun _ => rfl
  · exact fun _ => rfl

/-- A native `write` has one event, which leaves the counter up for good. -/
theorem native_write_never_returns
    : ∃ trace finish, Run (Takes CallStep) Stacked.start trace finish
        ∧ trace.map Transition.label = [.external .silent (writeCall (some fun _ => 0))]
        ∧ finish.active = 0
        ∧ finish.checker.pairs.ignore_ops = 1 :=
  ⟨_, _, Run.nil.record (CallStep.external start .silent (writeCall (some fun _ => 0))),
    rfl, rfl, rfl⟩

end LeakChecker

end Woodpecker.Checkers
