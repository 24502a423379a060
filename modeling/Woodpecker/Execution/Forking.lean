import Woodpecker.Execution.Solving
import Woodpecker.Library.Partitions

/-! Forks and multi-way branches as splits of a path.

A fork asks the solver about its condition. If both answers are possible, the state and a
copy of it each get one of the two constraints, and so their paths are the two parts of the
path that was forked.
-/

namespace Woodpecker.Execution

open Expressions Library List

-- Model

/-- Of a state, what stands for its address, and its constraints as they were added. -/
structure PathState where
  id : Nat
  constraints : ConstraintManager

def PathState.paths (state : PathState) : Set Assignment :=
  assignments state.constraints

/-- What a fork takes from its surroundings: the options, the solver, and the random numbers
that are drawn when a new state is made: whether the sides are exchanged, and of which state
it is a copy.
-/
structure ForkSetting where
  options : Options
  solver : Solver
  swapped : Nat → Bool
  source : Nat → Nat

/-- `Executor::addConstraint`. The manager may rewrite what it has, which does not change
the assignments that satisfy it.
-/
def addConstraint (state : PathState) (condition : Expr) : Except Fault PathState :=
  match condition.constant? with
  | some CE => do
    -- attempt to add invalid constraint
    if ← CE.isTrue then .ok state else .error .assertion
  | none => .ok { state with constraints := state.constraints.push_back condition }

namespace ForkSetting

variable (setting : ForkSetting)

/-- `Executor::fork`, without seeds, replay and limits. -/
def fork (current : PathState) (other : Nat) (condition : Expr)
    : Except Fault (Option PathState × Option PathState) := do
  match ← TimingSolver.evaluate setting.solver current.constraints condition with
  | .True => .ok (some current, none)
  | .False => .ok (none, some current)
  | .Unknown =>
    let sides := Paths.sides current { current with id := other } (setting.swapped other)
    let trueState ← addConstraint sides.1 condition
    let falseState ← addConstraint sides.2 (← condition.createIsZero setting.options)
    .ok (some trueState, some falseState)

/-- The states of a branch before they are constrained. -/
def copies (fresh : Nat) (state : PathState) : Nat → List PathState
  | 0 => [state]
  | n + 1 =>
    let result := copies fresh state n
    let es := result[setting.source (fresh + n) % (n + 1)]?
    result ++ (es.map fun es => { es with id := fresh + n }).toList

/-- `Executor::branch`, without seeds -/
def branch (fresh : Nat) (state : PathState) (conditions : List Expr)
    : Except Fault (List PathState) :=
  if conditions.isEmpty then .error .assertion
  else
    ((setting.copies fresh state (conditions.length - 1)).zip conditions).mapM fun pair =>
      addConstraint pair.1 pair.2

end ForkSetting

-- Constraints

variable {setting : ForkSetting} {state current : PathState} {condition : Expr}
  {test : Assignment → Prop} {options : Options}

/-- The expression can be evaluated on the path. -/
structure PathState.Evaluates (options : Options) (state : PathState) (e : Expr) (w : Nat)
    : Prop where
  typed : e.Typed
  width : e.getWidth = w
  bounded : ∀ bytes ∈ state.paths, options.ConstArrayOpt = true → e.InBounds bytes

theorem PathState.Evaluates.hasValue {e : Expr} {w : Nat} (evaluates : state.Evaluates options e w)
    : HasValue options state.constraints e fun bytes => e.bits bytes w :=
  fun bytes isIn => ⟨evaluates.typed, evaluates.width, evaluates.bounded bytes isIn, rfl⟩

/-- There is one value on the whole path. -/
def Single {w : Nat} (paths : Set Assignment) (x : Assignment → BitVec w) : Prop :=
  ∀ bytes ∈ paths, ∀ bytes' ∈ paths, x bytes = x bytes'

/-- A possible constraint leaves the part of the path on which it holds. -/
theorem addConstraint_yields (decides : Decides options state.constraints condition test)
    (possible : ∃ bytes ∈ state.paths, test bytes)
    : Yields (fun _ => addConstraint state condition) fun after =>
        after.id = state.id ∧ after.paths = { bytes ∈ state.paths | test bytes } := by
  obtain ⟨bytes, isIn, holds⟩ := possible
  unfold addConstraint
  split
  next CE isC =>
    obtain rfl := constant?_eq_some.mp isC
    obtain ⟨b, isTrue, same⟩ := decides.isTrue ⟨bytes, isIn⟩
    obtain rfl : b = true := (same bytes isIn).mpr holds
    simp only [isTrue, ok_bind, if_true]
    refine yields_ok ⟨rfl, Set.ext fun bytes => ?_⟩
    exact ⟨fun isIn => ⟨isIn, (same bytes isIn).mp rfl⟩, And.left⟩
  · refine yields_ok ⟨rfl, Set.ext fun bytes => ?_⟩
    refine Iff.trans ?_ (and_congr_right fun isIn => decides.holds_iff isIn)
    exact List.forall_mem_append.trans (and_congr_right fun _ => List.forall_mem_singleton)

-- Forks

/-- What a fork returns, where the condition holds as the test says. -/
inductive Forked (current : PathState) (other : Nat) (swapped : Bool)
    (test : Assignment → Prop)
    : Option PathState × Option PathState → Prop
  | always (all : ∀ bytes ∈ current.paths, test bytes)
    : Forked current other swapped test (some current, none)
  | never (noBytes : ∀ bytes ∈ current.paths, ¬ test bytes)
    : Forked current other swapped test (none, some current)
  | both (trueState falseState : PathState)
    (names : (trueState.id, falseState.id) = Paths.sides current.id other swapped)
    (yes : trueState.paths = { bytes ∈ current.paths | test bytes })
    (no : falseState.paths = { bytes ∈ current.paths | ¬ test bytes })
    (someYes : trueState.paths.Nonempty) (someNo : falseState.paths.Nonempty)
    : Forked current other swapped test (some trueState, some falseState)

theorem fork_yields (correct : setting.solver.Correct) (feasible : current.paths.Nonempty)
    (decides : Decides setting.options current.constraints condition test) (other : Nat)
    : Yields (fun _ => setting.fork current other condition)
        (Forked current other (setting.swapped other) test) := by
  refine (evaluate_yields correct feasible decides).bind fun res answers => ?_
  obtain ⟨isTrue, isFalse⟩ := answers
  cases res with
  | True => exact yields_ok (.always (isTrue.mp rfl))
  | False => exact yields_ok (.never (isFalse.mp rfl))
  | Unknown =>
    have yes : ∃ bytes ∈ current.paths, test bytes := by
      by_contra none
      push Not at none
      exact nomatch isFalse.mpr none
    have no : ∃ bytes ∈ current.paths, ¬ test bytes := by
      by_contra all
      push Not at all
      exact nomatch isTrue.mpr all
    -- Whichever side is the copy, both have the constraints of the state.
    have copied : ∀ swapped, ∃ trueState falseState,
        Paths.sides current { current with id := other } swapped = (trueState, falseState)
        ∧ trueState.constraints = current.constraints
        ∧ falseState.constraints = current.constraints
        ∧ (trueState.id, falseState.id) = Paths.sides current.id other swapped := by
      intro swapped
      cases swapped
      · exact ⟨current, { current with id := other }, rfl, rfl, rfl, rfl⟩
      · exact ⟨{ current with id := other }, current, rfl, rfl, rfl, rfl⟩
    obtain ⟨trueState, falseState, sides, sameT, sameF, names⟩ :=
      copied (setting.swapped other)
    have pathsT : trueState.paths = current.paths := congrArg assignments sameT
    have pathsF : falseState.paths = current.paths := congrArg assignments sameF
    simp only [sides]
    refine (addConstraint_yields (sameT ▸ decides) (pathsT ▸ yes)).bind
      fun trueState' isTrueState => ?_
    refine (isZero_yields feasible decides).bind fun negated isNot => ?_
    refine (addConstraint_yields (sameF ▸ isNot) (pathsF ▸ no)).bind
      fun falseState' isFalseState => ?_
    rw [pathsT] at isTrueState
    rw [pathsF] at isFalseState
    refine yields_ok (.both trueState' falseState' ?_ isTrueState.2 isFalseState.2 ?_ ?_)
    · rw [isTrueState.1, isFalseState.1, names]
    · rw [isTrueState.2]
      exact yes
    · rw [isFalseState.2]
      exact no

/-- The states that a fork returns. -/
def forkStates (branches : Option PathState × Option PathState) : List PathState :=
  branches.1.toList ++ branches.2.toList

theorem Forked.partition {other : Nat} {swapped : Bool}
    {branches : Option PathState × Option PathState}
    (forked : Forked current other swapped test branches) (feasible : current.paths.Nonempty)
    : Partition current.paths ((forkStates branches).map PathState.paths) := by
  cases forked with
  | always | never => exact partition_single feasible
  | both trueState falseState names yes no someYes someNo =>
    have single : Partition { bytes ∈ current.paths | ¬ test bytes } [falseState.paths] := by
      rw [← no]
      exact partition_single someNo
    have split := single.cons_test (yes ▸ someYes)
    rwa [← yes] at split

-- Branches

/-- Every copy has the constraints of the state, by induction on the number of copies. -/
theorem copies_spec (setting : ForkSetting) (fresh : Nat) (state : PathState) (n : Nat)
    : (setting.copies fresh state n).length = n + 1
      ∧ ∀ es ∈ setting.copies fresh state n, es.constraints = state.constraints := by
  induction n with
  | zero => simp [ForkSetting.copies]
  | succ n ih =>
    obtain ⟨length, same⟩ := ih
    have inside : setting.source (fresh + n) % (n + 1) < (setting.copies fresh state n).length := by
      rw [length]
      exact Nat.mod_lt _ (Nat.succ_pos n)
    rw [ForkSetting.copies, getElem?_eq_getElem inside]
    refine ⟨by simp [length], fun es member => ?_⟩
    rcases mem_append.mp member with old | new
    · exact same es old
    · simp [Option.toList_some] at new
      have original := same _ (getElem_mem inside)
      rw [new]
      exact original

/-- A condition that is possible on the path, with its test. -/
def Possible (options : Options) (state : PathState) (condition : Expr)
    (test : Assignment → Prop)
    : Prop :=
  Decides options state.constraints condition test ∧ ∃ bytes ∈ state.paths, test bytes

variable {conditions : List Expr} {tests : List (Assignment → Prop)}

theorem constrain_yields {states : List PathState}
    (same : ∀ es ∈ states, es.constraints = state.constraints)
    (length : states.length = conditions.length)
    (possible : Forall₂ (Possible options state) conditions tests)
    : Yields (fun _ => (states.zip conditions).mapM fun pair => addConstraint pair.1 pair.2)
        fun result => Forall₂
          (fun es test => es.paths = { bytes ∈ state.paths | test bytes }) result tests := by
  induction possible generalizing states with
  | nil =>
    rw [zip_nil_right, mapM_nil]
    exact yields_ok .nil
  | @cons condition test conditions tests first rest ih =>
    obtain ⟨es, others, rfl⟩ := exists_cons_of_length_eq_add_one length
    obtain ⟨sameE, sameO⟩ := forall_mem_cons.mp same
    have paths : es.paths = state.paths := congrArg assignments sameE
    simp only [zip_cons_cons, mapM_cons]
    refine (addConstraint_yields (sameE ▸ first.1) (paths ▸ first.2)).bind fun after isIt => ?_
    refine (ih sameO (by simpa using length)).bind fun result are => yields_ok ?_
    exact .cons (paths ▸ isIt.2) are

theorem branch_yields (some : conditions ≠ []) (fresh : Nat)
    (possible : Forall₂ (Possible options state) conditions tests)
    : Yields (fun _ => setting.branch fresh state conditions) fun result =>
        Forall₂ (fun es test => es.paths = { bytes ∈ state.paths | test bytes }) result tests := by
  unfold ForkSetting.branch
  rw [if_neg (by simpa using some)]
  obtain ⟨length, same⟩ := copies_spec setting fresh state (conditions.length - 1)
  have positive : 0 < conditions.length := length_pos_iff.mpr some
  exact constrain_yields same (by omega) possible

/-- Forks with a perfect solver, where expressions are compared. -/
noncomputable def perfectForks : ForkSetting where
  options := comparesAll
  solver := perfectSolver
  swapped _ := false
  source _ := 0

/-- A state without constraints. -/
def anyPath : PathState := ⟨0, ⟨[]⟩⟩

theorem mem_anyPath (bytes : Assignment) : bytes ∈ anyPath.paths :=
  nofun

theorem anyPath_feasible : anyPath.paths.Nonempty :=
  ⟨sevens, mem_anyPath sevens⟩

theorem inputByte_evaluates (state : PathState) : state.Evaluates comparesAll inputByte 8 where
  typed := inputByte_typed
  width := rfl
  bounded _ _ _ := inputByte_inBounds _

end Woodpecker.Execution
