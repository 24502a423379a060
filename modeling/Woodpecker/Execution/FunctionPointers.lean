import Mathlib.Data.FinEnum
import Mathlib.Data.Set.Card
import Woodpecker.Execution.Forking
import Woodpecker.Execution.Resolution

/-! Calls through symbolic function pointers.

The values of the pointer are split off one after the other, each into a state of its own.
Where the value is no function, the state is left as it is, and the state that the
instruction was started with is terminated. That is one state, and not always the one with
the value.
-/

namespace Woodpecker.Execution

open Expressions Library List BitVec

-- Model

/-- What a call takes from its surroundings besides what forks do. -/
structure CallSetting extends ForkSetting where
  context : Context
  legalFunctions : List Nat

/-- A state that was split off, with the value of the pointer there, and whether the value was
called.
-/
structure Successor where
  state : PathState
  addr : Nat
  called : Bool

namespace CallSetting

variable (setting : CallSetting)

/-- What is done with the state for a value. -/
def resolved (value : ConstantExpr) : Option PathState → Except Fault (List Successor)
  | none => .ok []
  | some first => do
    let addr ← value.getZExtValue 64
    .ok [⟨first, addr, decide (addr ∈ setting.legalFunctions)⟩]

/-- The loop over the values of the pointer, until no state is free. It returns the states,
and `hasInvalid`.
-/
def callLoop (v : Expr) (fuel fresh : Nat) (hasInvalid : Bool) (free : PathState)
    : Except Fault (List Successor × Bool) :=
  match fuel with
  | 0 => .error .outOfFuel
  | fuel + 1 => do
    let value := TimingSolver.getValue setting.solver free.constraints v
    let res ← setting.fork free fresh (← EqExpr.create setting.options v (.constant value))
    let found ← setting.resolved value res.1
    let hasInvalid := hasInvalid || found.any fun successor => !successor.called
    match res.2 with
    | none => .ok (found, hasInvalid)
    | some free => do
      let rest ← callLoop v fuel (fresh + 1) hasInvalid free
      .ok (found ++ rest.1, rest.2)

/-- `executeInstruction` of a call through a pointer: the states, and which of them are
terminated with "invalid function pointer". That is `state`, which may be any of the states
by then.
-/
def callThroughPointer (fuel fresh : Nat) (state : PathState) (v : Expr)
    : Except Fault (List Successor × List Nat) := do
  let result ← setting.callLoop v fuel fresh false state
  .ok (result.1, if result.2 then [state.id] else [])

end CallSetting

-- The values of the pointer

/-- Each value of the pointer has its own state, and one of the states is that which was
there before.
-/
structure Dispatched (setting : CallSetting) (free : PathState) (fresh : Nat)
    (x : Assignment → BitVec setting.context.pointerWidth) (successors : List Successor)
    : Prop where
  addrs : (successors.map Successor.addr).Nodup
  ids : (successors.map fun successor => successor.state.id).Nodup
  old_or_fresh : ∀ s ∈ successors, s.state.id = free.id ∨ fresh ≤ s.state.id
  original : ∃ s ∈ successors, s.state.id = free.id
  bound : ∀ s ∈ successors, s.state.paths.Nonempty
    ∧ s.state.paths = { bytes ∈ free.paths | (x bytes).toNat = s.addr }
    ∧ s.called = decide (s.addr ∈ setting.legalFunctions)
  complete : ∀ bytes ∈ free.paths, ∃ s ∈ successors, s.addr = (x bytes).toNat

variable {setting : CallSetting} {free : PathState} {v : Expr}
  {x : Assignment → BitVec setting.context.pointerWidth} {bytes : Assignment}

/-- The only value. -/
theorem dispatched_single (isIn : bytes ∈ free.paths)
    (all : ∀ bytes' ∈ free.paths, x bytes' = x bytes) (fresh : Nat)
    : Dispatched setting free fresh x
        [⟨free, (x bytes).toNat, decide ((x bytes).toNat ∈ setting.legalFunctions)⟩] where
  addrs := nodup_singleton _
  ids := nodup_singleton _
  old_or_fresh s member := .inl (mem_singleton.mp member ▸ rfl)
  original := ⟨_, .head _, rfl⟩
  bound s member := by
    obtain rfl := mem_singleton.mp member
    refine ⟨⟨bytes, isIn⟩, Set.ext fun bytes' => ?_, rfl⟩
    exact ⟨fun isIn' => ⟨isIn', congrArg BitVec.toNat (all bytes' isIn')⟩, And.left⟩
  complete bytes' isIn' := ⟨_, .head _, congrArg BitVec.toNat (all bytes' isIn').symm⟩

theorem sides_either {current other a b : Nat} {swapped : Bool}
    (names : (a, b) = Paths.sides current other swapped)
    : (a = current ∧ b = other) ∨ (a = other ∧ b = current) := by
  cases swapped with
  | false => exact .inl (Prod.mk.inj names)
  | true => exact .inr (Prod.mk.inj names)

variable {successors : List Successor}

/-- One value before the others. -/
theorem Dispatched.cons {left : PathState} {fresh : Nat}
    (dispatched : Dispatched setting left (fresh + 1) x successors) {first : PathState}
    {value : BitVec setting.context.pointerWidth} {swapped : Bool}
    (names : (first.id, left.id) = Paths.sides free.id fresh swapped) (old : free.id < fresh)
    (yes : first.paths = { bytes ∈ free.paths | x bytes = value })
    (no : left.paths = { bytes ∈ free.paths | ¬ x bytes = value }) (some : first.paths.Nonempty)
    : Dispatched setting free fresh x
        (⟨first, value.toNat, decide (value.toNat ∈ setting.legalFunctions)⟩ :: successors) := by
  -- A later value is another one.
  have other : ∀ s ∈ successors, s.addr ≠ value.toNat := by
    intro s member same
    obtain ⟨⟨bytes, isIn⟩, paths, -⟩ := dispatched.bound s member
    rw [paths, no] at isIn
    exact isIn.1.2 (toNat_inj.mp (isIn.2.trans same))
  have either := sides_either names
  refine ⟨?_, ?_, ?_, ?_, ?_, ?_⟩
  · refine nodup_cons.mpr ⟨fun member => ?_, dispatched.addrs⟩
    obtain ⟨s, isS, same⟩ := mem_map.mp member
    exact other s isS same
  · refine nodup_cons.mpr ⟨fun member => ?_, dispatched.ids⟩
    obtain ⟨s, isS, same⟩ := mem_map.mp member
    change s.state.id = first.id at same
    have later := dispatched.old_or_fresh s isS
    omega
  · refine forall_mem_cons.mpr ⟨?_, fun s member => ?_⟩
    · exact either.imp And.left fun is => Nat.le_of_eq is.1.symm
    · have later := dispatched.old_or_fresh s member
      omega
  · rcases either with first_ | left_
    · exact ⟨_, .head _, first_.1⟩
    · obtain ⟨s, member, same⟩ := dispatched.original
      exact ⟨s, .tail _ member, same.trans left_.2⟩
  · refine forall_mem_cons.mpr ⟨⟨some, ?_, rfl⟩, fun s member => ?_⟩
    · simp only [yes, toNat_inj]
    obtain ⟨nonempty, paths, called⟩ := dispatched.bound s member
    refine ⟨nonempty, ?_, called⟩
    rw [paths, no]
    ext bytes
    constructor
    · intro isIn
      exact ⟨isIn.1.1, isIn.2⟩
    · intro isIn
      refine ⟨⟨isIn.1, fun same => other s member ?_⟩, isIn.2⟩
      rw [← isIn.2, same]
  · intro bytes isIn
    by_cases same : x bytes = value
    · exact ⟨_, .head _, congrArg BitVec.toNat same.symm⟩
    · obtain ⟨s, member, isAddr⟩ := dispatched.complete bytes (no ▸ ⟨isIn, same⟩)
      exact ⟨s, .tail _ member, isAddr⟩

/-- Some value is no function. -/
def anyInvalid (successors : List Successor) : Bool :=
  successors.any fun successor => !successor.called

/-- The original state has the first example, if the sides are not exchanged. -/
def KeepsExample (setting : CallSetting) (free : PathState) (fresh : Nat) (v : Expr)
    (successors : List Successor)
    : Prop :=
  setting.swapped fresh = false → ∀ s ∈ successors, s.state.id = free.id
    → (TimingSolver.getValue setting.solver free.constraints v).getZExtValue 64 = .ok s.addr

/-- By induction on the number of values that the pointer can have. -/
theorem callLoop_yields (correct : setting.solver.Correct) {fresh : Nat} (hasInvalid : Bool)
    (feasible : free.paths.Nonempty) (old : free.id < fresh)
    (isV : HasValue setting.options free.constraints v x)
    : Yields (fun fuel => setting.callLoop v fuel fresh hasInvalid free) fun result =>
        Dispatched setting free fresh x result.1 ∧ KeepsExample setting free fresh v result.1
        ∧ result.2 = (hasInvalid || anyInvalid result.1) := by
  induction count : (x '' free.paths).ncard using Nat.strong_induction_on
    generalizing free fresh hasInvalid with
  | _ n ih =>
    subst count
    refine Yields.of_succ ?_
    obtain ⟨bytes, isIn, found⟩ := getValue_spec correct feasible isV
    have addr : (⟨setting.context.pointerWidth, x bytes⟩ : ConstantExpr).getZExtValue 64
        = .ok (x bytes).toNat := if_pos setting.context.wide.2
    simp only [CallSetting.callLoop, found]
    refine (eq_yields feasible isV (hasValue_constant setting.options _ ⟨_, x bytes⟩)).bind
      fun equal decides => ?_
    refine (fork_yields correct feasible decides fresh).bind fun res forked => ?_
    cases forked with
    | always all =>
      simp only [CallSetting.resolved, addr, ok_bind]
      refine yields_ok ⟨dispatched_single isIn all fresh, fun _ s member _ => ?_, rfl⟩
      rw [found, mem_singleton.mp member]
      exact addr
    | never none => exact absurd rfl (none bytes isIn)
    | both trueState falseState names yes no someYes someNo =>
      simp only [CallSetting.resolved, addr, ok_bind]
      have part : falseState.paths ⊆ free.paths := no ▸ fun bytes isIn => isIn.1
      have fewer : (x '' falseState.paths).ncard < (x '' free.paths).ncard := by
        refine Set.ncard_lt_ncard ⟨Set.image_mono part, fun all => ?_⟩ (Set.toFinite _)
        obtain ⟨bytes', isIn', same⟩ := all ⟨bytes, isIn, rfl⟩
        rw [no] at isIn'
        exact isIn'.2 same
      have older : falseState.id < fresh + 1 := by
        have either := sides_either names
        omega
      refine (ih _ fewer _ someNo older (isV.mono part) rfl).bind fun rest isRest => ?_
      obtain ⟨dispatched, -, invalid⟩ := isRest
      refine yields_ok ⟨dispatched.cons names old yes no someYes, ?_, ?_⟩
      · intro unswapped s member same
        rw [found]
        rcases mem_cons.mp member with here | later
        · rw [here]
          exact addr
        · rw [unswapped] at names
          have ids := Prod.mk.inj names
          have isLater := dispatched.old_or_fresh s later
          omega
      · rw [invalid]
        simp [anyInvalid, Bool.or_assoc]

-- Calls

variable {state : PathState} {fresh : Nat}

theorem callThroughPointer_yields (correct : setting.solver.Correct)
    (feasible : state.paths.Nonempty) (old : state.id < fresh)
    (isV : HasValue setting.options state.constraints v x)
    : Yields (fun fuel => setting.callThroughPointer fuel fresh state v) fun result =>
        Dispatched setting state fresh x result.1 ∧ KeepsExample setting state fresh v result.1
        ∧ result.2 = if anyInvalid result.1 then [state.id] else [] := by
  refine (callLoop_yields correct false feasible old isV).bind fun result isResult => ?_
  obtain ⟨dispatched, keeps, invalid⟩ := isResult
  rw [invalid]
  exact yields_ok ⟨dispatched, keeps, rfl⟩

section

variable (dispatched : Dispatched setting state fresh x successors)
include dispatched

theorem Dispatched.anyInvalid_iff : anyInvalid successors = true
      ↔ ∃ bytes ∈ state.paths, (x bytes).toNat ∉ setting.legalFunctions := by
  unfold anyInvalid
  rw [any_eq_true]
  constructor
  · intro invalid
    obtain ⟨s, member, notCalled⟩ := invalid
    obtain ⟨⟨bytes, isIn⟩, paths, called⟩ := dispatched.bound s member
    rw [paths] at isIn
    refine ⟨bytes, isIn.1, ?_⟩
    rw [isIn.2]
    simpa [called] using notCalled
  · intro illegal
    obtain ⟨bytes, isIn, illegal⟩ := illegal
    obtain ⟨s, member, isAddr⟩ := dispatched.complete bytes isIn
    refine ⟨s, member, ?_⟩
    rw [(dispatched.bound s member).2.2, isAddr]
    simpa using illegal

/-- Every legal value is called in a state of its own, and of the states, those with an
illegal value are terminated.
-/
structure CallsRight (setting : CallSetting) (state : PathState)
    (x : Assignment → BitVec setting.context.pointerWidth)
    (result : List Successor × List Nat)
    : Prop where
  partition : Partition state.paths (result.1.map fun s => s.state.paths)
  called : ∀ bytes ∈ state.paths, (x bytes).toNat ∈ setting.legalFunctions
    → ∃ s ∈ result.1, s.called = true ∧ s.addr = (x bytes).toNat
        ∧ s.state.paths = { bytes' ∈ state.paths | x bytes' = x bytes }
        ∧ ∀ other ∈ result.1, other.addr = s.addr → other = s
  terminated : ∀ s ∈ result.1, s.addr ∉ setting.legalFunctions → s.state.id ∈ result.2
  spared : ∀ s ∈ result.1, s.addr ∈ setting.legalFunctions → s.state.id ∉ result.2

theorem Dispatched.partition : Partition state.paths (successors.map fun s => s.state.paths) := by
  have classes : (successors.map fun s => s.state.paths)
      = (successors.map Successor.addr).map fun addr =>
          { bytes ∈ state.paths | (x bytes).toNat = addr } := by
    rw [map_map]
    exact map_congr_left fun s member => (dispatched.bound s member).2.1
  rw [classes]
  refine partition_classes dispatched.addrs fun addr => ⟨fun isAddr => ?_, fun isValue => ?_⟩
  · obtain ⟨s, member, rfl⟩ := mem_map.mp isAddr
    obtain ⟨⟨bytes, isIn⟩, paths, -⟩ := dispatched.bound s member
    rw [paths] at isIn
    exact ⟨bytes, isIn⟩
  · obtain ⟨bytes, isIn, rfl⟩ := isValue
    obtain ⟨s, member, isAddr⟩ := dispatched.complete bytes isIn
    exact mem_map.mpr ⟨s, member, isAddr⟩

theorem Dispatched.called (isIn : bytes ∈ state.paths)
    (legal : (x bytes).toNat ∈ setting.legalFunctions)
    : ∃ s ∈ successors, s.called = true ∧ s.addr = (x bytes).toNat
        ∧ s.state.paths = { bytes' ∈ state.paths | x bytes' = x bytes }
        ∧ ∀ other ∈ successors, other.addr = s.addr → other = s := by
  obtain ⟨s, member, isAddr⟩ := dispatched.complete bytes isIn
  obtain ⟨-, paths, called⟩ := dispatched.bound s member
  refine ⟨s, member, ?_, isAddr, ?_, fun other isOther same => ?_⟩
  · rw [called, isAddr]
    exact decide_eq_true legal
  · rw [paths, isAddr]
    simp only [toNat_inj]
  · exact inj_on_of_nodup_map dispatched.addrs isOther member same

end

variable {result : List Successor × List Nat}

section

variable (dispatched : Dispatched setting state fresh x result.1)
include dispatched

/-- The states with illegal values are terminated, and only they, if there are none or there
is only one state.
-/
theorem Dispatched.callsRight (invalid : result.2 = if anyInvalid result.1 then [state.id] else [])
    (careful : (∀ bytes ∈ state.paths, (x bytes).toNat ∈ setting.legalFunctions)
      ∨ Single state.paths x)
    : CallsRight setting state x result := by
  have isValue : ∀ s ∈ result.1, ∃ bytes ∈ state.paths, (x bytes).toNat = s.addr := by
    intro s member
    obtain ⟨⟨bytes, isIn⟩, paths, -⟩ := dispatched.bound s member
    rw [paths] at isIn
    exact ⟨bytes, isIn⟩
  refine ⟨dispatched.partition, fun bytes isIn legal => dispatched.called isIn legal, ?_, ?_⟩
  · intro s member illegal
    obtain ⟨bytes, isIn, isAddr⟩ := isValue s member
    have notAll : ¬ ∀ bytes ∈ state.paths, (x bytes).toNat ∈ setting.legalFunctions :=
      fun all => illegal (isAddr ▸ all bytes isIn)
    have single := careful.resolve_left notAll
    -- All states have the same value, and so they are the original one.
    obtain ⟨original, isOriginal, same⟩ := dispatched.original
    obtain ⟨bytes', isIn', isAddr'⟩ := isValue original isOriginal
    have equal : original = s := by
      refine inj_on_of_nodup_map dispatched.addrs isOriginal member ?_
      rw [← isAddr, ← isAddr', single bytes isIn bytes' isIn']
    have any : anyInvalid result.1 = true :=
      dispatched.anyInvalid_iff.mpr ⟨bytes, isIn, isAddr ▸ illegal⟩
    rw [invalid, if_pos any, ← equal, same]
    exact .head _
  · intro s member legal isTerminated
    rw [invalid] at isTerminated
    split at isTerminated
    next any =>
      obtain ⟨bytes, isIn, illegal⟩ := dispatched.anyInvalid_iff.mp any
      obtain ⟨bytes', isIn', isAddr⟩ := isValue s member
      rcases careful with all | single
      · exact illegal (all bytes isIn)
      · rw [single bytes isIn bytes' isIn', isAddr] at illegal
        exact illegal legal
    · cases isTerminated

/-- Of two illegal values, only one can be in the state that is terminated. -/
theorem Dispatched.two_illegal
    (invalid : result.2 = if anyInvalid result.1 then [state.id] else []) {bytes' : Assignment}
    (isIn : bytes ∈ state.paths) (isIn' : bytes' ∈ state.paths) (different : x bytes ≠ x bytes')
    (illegal : (x bytes).toNat ∉ setting.legalFunctions)
    (illegal' : (x bytes').toNat ∉ setting.legalFunctions)
    : ∃ s ∈ result.1, s.addr ∉ setting.legalFunctions ∧ s.state.id ∉ result.2 := by
  obtain ⟨s, member, isAddr⟩ := dispatched.complete bytes isIn
  obtain ⟨s', member', isAddr'⟩ := dispatched.complete bytes' isIn'
  have others : ∀ id ∈ result.2, id = state.id := by
    intro id isTerminated
    rw [invalid] at isTerminated
    split at isTerminated
    · exact mem_singleton.mp isTerminated
    · cases isTerminated
  by_contra all
  push Not at all
  have ids : s.state.id = s'.state.id :=
    (others _ (all s member (isAddr ▸ illegal))).trans
      (others _ (all s' member' (isAddr' ▸ illegal'))).symm
  have same : s = s' := inj_on_of_nodup_map dispatched.ids member member' ids
  exact different (toNat_inj.mp (isAddr.symm.trans ((congrArg Successor.addr same).trans isAddr')))

/-- A legal value that is found first keeps the state that is terminated. -/
theorem Dispatched.legal_first (keeps : KeepsExample setting state fresh v result.1)
    (invalid : result.2 = if anyInvalid result.1 then [state.id] else [])
    (unswapped : setting.swapped fresh = false) {bytes' : Assignment}
    (first : (TimingSolver.getValue setting.solver state.constraints v).getZExtValue 64
      = .ok (x bytes).toNat) (legal : (x bytes).toNat ∈ setting.legalFunctions)
    (isIn' : bytes' ∈ state.paths) (illegal : (x bytes').toNat ∉ setting.legalFunctions)
    : ∃ s ∈ result.1, s.addr ∈ setting.legalFunctions ∧ s.state.id ∈ result.2 := by
  obtain ⟨original, member, same⟩ := dispatched.original
  have isAddr := Except.ok.inj ((keeps unswapped original member same).symm.trans first)
  have any : anyInvalid result.1 = true := dispatched.anyInvalid_iff.mpr ⟨bytes', isIn', illegal⟩
  refine ⟨original, member, isAddr ▸ legal, ?_⟩
  rw [invalid, if_pos any, same]
  exact .head _

end

/-- The same surroundings with another solver and other random numbers. -/
def CallSetting.vary (setting : CallSetting) (solver : Solver) (swapped : Nat → Bool)
    : CallSetting :=
  { setting with solver := solver, swapped := swapped }

/-- Calls on a machine of 64 bits, with a solver that looks at the sevens first. -/
noncomputable def sevenCalls (legalFunctions : List Nat) : CallSetting where
  toForkSetting := { perfectForks with solver := solverPreferring sevens }
  context := wideContext
  legalFunctions := legalFunctions

theorem sevenCalls_legalFunctions (legalFunctions : List Nat)
    : (sevenCalls legalFunctions).legalFunctions = legalFunctions :=
  rfl

/-- A pointer that is a byte of the input. -/
def bytePointer : Expr :=
  .cast .ZExt inputByte 64

theorem bytePointer_evaluates : anyPath.Evaluates comparesAll bytePointer 64 where
  typed := by simp [bytePointer, Expr.Typed]
  width := rfl
  bounded := by simp [bytePointer, Expr.InBounds]

/-- A branch or a call replaces one of the states. -/
def Explores (setting : CallSetting) (states after : List PathState) : Prop :=
  ∃ before rest parts, ∃ (state : PathState) (fresh : Nat),
    states = before ++ state :: rest ∧ after = before ++ parts ++ rest ∧ state.id < fresh
    ∧ ((∃ condition branches, state.Evaluates setting.options condition 1
        ∧ setting.fork state fresh condition = .ok branches ∧ parts = forkStates branches)
      ∨ ∃ v result, state.Evaluates setting.options v setting.context.pointerWidth
        ∧ Settles (fun fuel => setting.callThroughPointer fuel fresh state v) result
        ∧ parts = result.1.map Successor.state)

end Woodpecker.Execution
