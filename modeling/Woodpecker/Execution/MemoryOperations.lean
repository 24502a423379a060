import Woodpecker.Execution.Forking
import Woodpecker.Execution.Resolution
import Woodpecker.Expressions.Simplification

/-! Reads and writes through pointers as splits of a path.

A pointer is resolved to the objects that it can point to. From the state is split off, one
object after the other, what points to the object. What is left is out of bounds.
-/

namespace Woodpecker.Execution

open Expressions Library List

-- Model

/-- What memory operations take from their surroundings besides what forks do. -/
structure MemorySetting extends ForkSetting where
  context : Context
  SimplifySymIndices : Bool
  MaxSymArraySize : UInt32

/-- A read of a type of so many bits, or a write of a value. -/
inductive MemoryAccess
  | read (type : UInt32)
  | write (value : Expr)

def MemoryAccess.type : MemoryAccess → UInt32
  | read type => type
  | write value => UInt32.ofNat value.getWidth

/-- `Expr::getMinBytesForWidth` -/
def getMinBytesForWidth (w : UInt32) : UInt32 :=
  (w + 7) / 8

def MemoryAccess.bytes (access : MemoryAccess) : UInt32 :=
  getMinBytesForWidth access.type

/-- What has become of a state. -/
inductive Outcome
  | read (pair : ObjectPair) (offset : Expr) (type : UInt32)
  | written (pair : ObjectPair) (offset value : Expr)
  -- "memory error: object read only"
  | readOnly (pair : ObjectPair)
  -- "memory error: out of bound pointer"
  | outOfBound
  -- "query timed out (resolve)"
  | incomplete

/-- The object that was accessed, also if it must not be written. -/
def Outcome.object : Outcome → Option ObjectPair
  | read pair _ _ => some pair
  | written pair _ _ => some pair
  | readOnly pair => some pair
  | outOfBound => none
  | incomplete => none

/-- What both paths of a memory operation do with the object. -/
def MemoryAccess.perform (access : MemoryAccess) (pair : ObjectPair)
    (offset : Except Fault Expr)
    : Except Fault Outcome :=
  match access with
  | read type => do .ok (.read pair (← offset) type)
  | write value =>
    if pair.readOnly then .ok (.readOnly pair)
    else do .ok (.written pair (← offset) value)

/-- The loop of `resolveExact` and of `executeMemoryOperation`: what is bound to the objects,
and what is unbound.
-/
def ForkSetting.splitOff (setting : ForkSetting) (inBounds : ObjectPair → Except Fault Expr)
    (fresh : Nat) (unbound : PathState)
    : ResolutionList → Except Fault (List (ObjectPair × PathState) × Option PathState)
  | [] => .ok ([], some unbound)
  | pair :: rest => do
    let branches ← setting.fork unbound fresh (← inBounds pair)
    let bound := branches.1.toList.map (Prod.mk pair)
    match branches.2 with
    | none => .ok (bound, none)
    | some unbound => do
      let split ← setting.splitOff inBounds (fresh + 1) unbound rest
      .ok (bound ++ split.1, split.2)

namespace MemorySetting

variable (setting : MemorySetting) (fuel : Nat)

/-- `resolveExact`. An unbound state is terminated with "memory error: invalid pointer". -/
def resolveExact (map : MemoryMap setting.context) (fresh : Nat) (state : PathState) (p : Expr)
    : Except Fault (List (ObjectPair × PathState) × Option PathState) := do
  let resolved ← map.resolve setting.options setting.solver fuel state.constraints p 0
  setting.splitOff
    (fun pair => do
      EqExpr.create setting.options p (.constant (← pair.mo.getBaseExpr setting.context)))
    fresh state resolved.1

def toConstant (state : PathState) (e : Expr) : Except Fault (PathState × ConstantExpr) := do
  let e ← state.constraints.simplifyExpr setting.options fuel e
  match e.constant? with
  | some CE => .ok (state, CE)
  | none =>
    let value := TimingSolver.getValue setting.solver state.constraints e
    let state ← addConstraint state (← EqExpr.create setting.options e (.constant value))
    .ok (state, value)

/-- Of an address or value, what is used in its place. -/
def simplified (state : PathState) (e : Expr) : Except Fault Expr :=
  if setting.SimplifySymIndices ∧ e.constant? = none then
    state.constraints.simplifyExpr setting.options fuel e
  else .ok e

def simplifiedAccess (state : PathState) : MemoryAccess → Except Fault MemoryAccess
  | .read type => .ok (.read type)
  | .write value => do .ok (.write (← setting.simplified fuel state value))

/-- An object that is too large is accessed at one address. -/
def limited (state : PathState) (mo : MemoryObject) (address : Expr)
    : Except Fault (PathState × Expr) :=
  if setting.MaxSymArraySize ≠ 0 ∧ setting.MaxSymArraySize ≤ mo.size then do
    let concrete ← setting.toConstant fuel state address
    .ok (concrete.1, .constant concrete.2)
  else .ok (state, address)

/-- The rest of a memory operation, where its pointer is not known to be in one object. -/
def errorPath (map : MemoryMap setting.context) (fresh : Nat) (state : PathState)
    (access : MemoryAccess) (bytes : UInt32) (address : Expr)
    : Except Fault (List (PathState × Outcome)) := do
  let resolved ← map.resolve setting.options setting.solver fuel state.constraints address 0
  let split ← setting.splitOff
    (fun pair =>
      pair.mo.getBoundsCheckPointerRange setting.context setting.options fuel address bytes)
    fresh state resolved.1
  let bound ← split.1.mapM fun entry => do
    let outcome ← access.perform entry.1
      (entry.1.mo.getOffsetExpr setting.context setting.options fuel address)
    .ok (entry.2, outcome)
  let error := if resolved.2 then Outcome.incomplete else Outcome.outOfBound
  .ok (bound ++ split.2.toList.map fun unbound => (unbound, error))

/-- The fast path of a memory operation, if all of the access must be in the object. -/
def accessObject (map : MemoryMap setting.context) (fresh : Nat) (state : PathState)
    (access : MemoryAccess) (bytes : UInt32) (op : ObjectPair) (address : Expr)
    : Except Fault (List (PathState × Outcome)) := do
  let offset ← op.mo.getOffsetExpr setting.context setting.options fuel address
  let check ← op.mo.getBoundsCheckRange setting.context setting.options offset bytes
  if ← TimingSolver.mustBeTrue setting.solver state.constraints check then
    let outcome ← access.perform op (.ok offset)
    .ok [(state, outcome)]
  else setting.errorPath fuel map fresh state access bytes address

/-- `executeMemoryOperation`, without timeouts: the states, and what has become of them. -/
def executeMemoryOperation (map : MemoryMap setting.context) (fresh : Nat) (state : PathState)
    (access : MemoryAccess) (address : Expr)
    : Except Fault (List (PathState × Outcome)) := do
  let bytes := access.bytes
  let address ← setting.simplified fuel state address
  let access ← setting.simplifiedAccess fuel state access
  match ← map.resolveOne setting.options setting.solver fuel state.constraints address with
  | some op => do
    let concrete ← setting.limited fuel state op.mo address
    setting.accessObject fuel map fresh concrete.1 access bytes op concrete.2
  | none => setting.errorPath fuel map fresh state access bytes address

end MemorySetting

-- Splitting off

/-- What is split off for each object is where the test holds. -/
structure SplitOff (whole : Set Assignment) (rl : ResolutionList)
    (test : ObjectPair → Assignment → Prop)
    (split : List (ObjectPair × PathState) × Option PathState)
    : Prop where
  partition : Partition whole ((split.1.map Prod.snd ++ split.2.toList).map PathState.paths)
  bound : ∀ entry ∈ split.1,
    entry.1 ∈ rl ∧ entry.2.paths = { bytes ∈ whole | test entry.1 bytes }
  unbound : ∀ state ∈ split.2,
    state.paths = { bytes ∈ whole | ∀ pair ∈ rl, ¬ test pair bytes }

/-- At most one of the objects passes the test. -/
def Exclusive (whole : Set Assignment) (rl : ResolutionList)
    (test : ObjectPair → Assignment → Prop)
    : Prop :=
  ∀ bytes ∈ whole, ∀ a ∈ rl, ∀ b ∈ rl, test a bytes → test b bytes → a = b

variable {test : ObjectPair → Assignment → Prop} {pair : ObjectPair} {rest : ResolutionList}
  {whole others : Set Assignment} {split : List (ObjectPair × PathState) × Option PathState}

/-- After the first object, the others are split off what does not pass its test. -/
theorem SplitOff.skip (split_ : SplitOff others rest test split)
    (no : others = { bytes ∈ whole | ¬ test pair bytes }) (new : pair ∉ rest)
    (exclusive : Exclusive whole (pair :: rest) test)
    : (∀ entry ∈ split.1, entry.1 ∈ pair :: rest
        ∧ entry.2.paths = { bytes ∈ whole | test entry.1 bytes })
      ∧ ∀ state ∈ split.2,
        state.paths = { bytes ∈ whole | ∀ other ∈ pair :: rest, ¬ test other bytes } := by
  subst no
  constructor
  · intro entry member
    obtain ⟨listed, paths⟩ := split_.bound entry member
    refine ⟨.tail pair listed, ?_⟩
    rw [paths]
    ext bytes
    constructor
    · intro isIn
      exact ⟨isIn.1.1, isIn.2⟩
    · intro isIn
      obtain ⟨isWhole, passes⟩ := isIn
      refine ⟨⟨isWhole, fun isFirst => new ?_⟩, passes⟩
      rw [exclusive bytes isWhole pair (.head rest) entry.1 (.tail pair listed) isFirst passes]
      exact listed
  · intro state member
    rw [split_.unbound state member]
    ext bytes
    simp [Set.mem_ofPred_eq, and_assoc]

/-- By induction on the objects. -/
theorem splitOff_yields {setting : ForkSetting} (correct : setting.solver.Correct)
    {inBounds : Nat → ObjectPair → Except Fault Expr} {rl : ResolutionList} (nodup : rl.Nodup)
    (fresh : Nat) {unbound : PathState} (feasible : unbound.paths.Nonempty)
    (exclusive : Exclusive unbound.paths rl test)
    (checks : ∀ pair ∈ rl, Yields (fun fuel => inBounds fuel pair) fun e =>
      Decides setting.options unbound.constraints e (test pair))
    : Yields (fun fuel => setting.splitOff (inBounds fuel) fresh unbound rl)
        (SplitOff unbound.paths rl test) := by
  induction rl generalizing fresh unbound with
  | nil =>
    refine yields_ok ⟨partition_single feasible, nofun, fun state isState => ?_⟩
    cases isState
    simp
  | cons pair rest ih =>
    obtain ⟨new, nodup⟩ := nodup_cons.mp nodup
    obtain ⟨first, others⟩ := forall_mem_cons.mp checks
    refine first.bind fun e decides => ?_
    refine (fork_yields correct feasible decides fresh).bind fun branches forked => ?_
    -- What is left takes the other tests along.
    have later : ∀ left : PathState, left.paths = { bytes ∈ unbound.paths | ¬ test pair bytes }
        → left.paths.Nonempty
        → Yields (fun fuel => setting.splitOff (inBounds fuel) (fresh + 1) left rest)
            (SplitOff left.paths rest test) := by
      intro left no someLeft
      have part : left.paths ⊆ unbound.paths := no ▸ fun bytes isIn => isIn.1
      refine ih nodup (fresh + 1) someLeft ?_ ?_
      · intro bytes isIn a isA b isB
        exact exclusive bytes (part isIn) a (.tail pair isA) b (.tail pair isB)
      · intro other member
        exact (others other member).mono fun e decides => decides.mono part
    cases forked with
    | always all =>
      refine yields_ok ⟨partition_single feasible, forall_mem_singleton.mpr ?_, nofun⟩
      refine ⟨.head rest, Set.ext fun bytes => ?_⟩
      exact ⟨fun isIn => ⟨isIn, all bytes isIn⟩, And.left⟩
    | never noBytes =>
      have no : unbound.paths = { bytes ∈ unbound.paths | ¬ test pair bytes } :=
        Set.ext fun bytes => ⟨fun isIn => ⟨isIn, noBytes bytes isIn⟩, And.left⟩
      refine (later unbound no feasible).bind fun split splits => yields_ok ?_
      obtain ⟨bound, left⟩ := splits.skip no new exclusive
      exact ⟨splits.partition, bound, left⟩
    | both trueState falseState names yes no someYes someNo =>
      refine (later falseState no someNo).bind fun split splits => yields_ok ?_
      obtain ⟨bound, left⟩ := splits.skip no new exclusive
      refine ⟨?_, ?_, left⟩
      · have single := (no ▸ splits.partition).cons_test (yes ▸ someYes)
        rwa [← yes] at single
      · exact forall_mem_cons.mpr ⟨⟨.head rest, yes⟩, bound⟩

/-- The objects of a resolution list stand for all objects, if the list is complete. -/
theorem SplitOff.resolved {rl objects : ResolutionList} (splits : SplitOff whole rl test split)
    (listed : ∀ pair ∈ rl, pair ∈ objects)
    (complete : ∀ pair ∈ objects, ∀ bytes ∈ whole, test pair bytes → pair ∈ rl)
    : SplitOff whole objects test split where
  partition := splits.partition
  bound entry member := (splits.bound entry member).imp_left (listed entry.1)
  unbound state member := by
    rw [splits.unbound state member]
    ext bytes
    refine and_congr_right fun isIn => ⟨fun noListed pair isObject passes => ?_, ?_⟩
    · exact noListed pair (complete pair isObject bytes isIn passes) passes
    · intro noObject pair isListed
      exact noObject pair (listed pair isListed)

section Operations

variable {setting : MemorySetting} {map : MemoryMap setting.context} {state : PathState}
  {p address : Expr} {addr : Assignment → BitVec setting.context.pointerWidth}

/-- An exact resolution splits off where the pointer is the base of an object. -/
theorem resolveExact_yields (correct : setting.solver.Correct) (feasible : state.paths.Nonempty)
    (isP : HasValue setting.options state.constraints p addr) (fresh : Nat)
    : Yields (fun fuel => setting.resolveExact fuel map fresh state p)
        (SplitOff state.paths map.objects fun pair bytes =>
          (addr bytes).toNat = pair.mo.address.toNat) := by
  refine (MemoryMap.resolve_yields correct feasible isP).bind fun found isFound => ?_
  have resolved := isFound.2
  have contains : ∀ pair : ObjectPair, ∀ bytes,
      (addr bytes).toNat = pair.mo.address.toNat → pair.mo.Contains (addr bytes).toNat := by
    intro pair bytes same
    exact ⟨Nat.le_of_eq same.symm, by omega⟩
  refine (splitOff_yields correct resolved.nodup fresh feasible ?_ ?_).mono
    fun split splits => splits.resolved resolved.listed ?_
  · intro bytes isIn a isA b isB baseA baseB
    exact MemoryMap.contains_unique (resolved.listed a isA) (resolved.listed b isB)
      (contains a bytes baseA) (contains b bytes baseB)
  · intro pair member
    have within : pair.mo.Within setting.context := map.within pair (resolved.listed pair member)
    simp only [within.getBaseExpr_eq, ok_bind]
    refine (eq_yields feasible isP (hasValue_constant setting.options _
      ⟨_, pair.mo.base setting.context⟩)).mono fun e decides => decides.congr fun bytes _ => ?_
    rw [← BitVec.toNat_inj, within.toNat_base]
  · intro pair isObject bytes isIn same
    exact (resolved.complete pair isObject).mpr ⟨bytes, isIn, contains pair bytes same⟩

/-- The states of a memory operation: which have accessed an object, and which are in error. -/
structure MemorySplit (whole : Set Assignment) (objects : ResolutionList)
    (covers : ObjectPair → Assignment → Prop) (results : List (PathState × Outcome))
    : Prop where
  partition : Partition whole (results.map fun result => result.1.paths)
  accessed : ∀ result ∈ results, ∀ pair, result.2.object = some pair
    → pair ∈ objects ∧ result.1.paths = { bytes ∈ whole | covers pair bytes }
  error : ∀ result ∈ results, result.2.object = none
    → result.2 = .outOfBound
      ∧ result.1.paths = { bytes ∈ whole | ∀ pair ∈ objects, ¬ covers pair bytes }

variable {objects : ResolutionList} {covers : ObjectPair → Assignment → Prop}

/-- Each assignment ends with the object that covers it, or in error. -/
theorem MemorySplit.ends {results : List (PathState × Outcome)}
    (splits : MemorySplit whole objects covers results) (exclusive : Exclusive whole objects covers)
    {bytes : Assignment} (isIn : bytes ∈ whole)
    : (∀ pair ∈ objects, (∃ result ∈ results, result.2.object = some pair ∧ bytes ∈ result.1.paths)
          ↔ covers pair bytes)
      ∧ ((∃ result ∈ results, result.2 = .outOfBound ∧ bytes ∈ result.1.paths)
          ↔ ∀ pair ∈ objects, ¬ covers pair bytes) := by
  obtain ⟨part, member, isPart⟩ := (splits.partition.covers bytes).mp isIn
  obtain ⟨result, isResult, rfl⟩ := mem_map.mp member
  refine ⟨fun pair isObject => ⟨fun ends => ?_, fun inPair => ?_⟩, fun ends => ?_, fun noPair => ?_⟩
  · obtain ⟨result, isResult, isPair, isPart⟩ := ends
    rw [(splits.accessed result isResult pair isPair).2] at isPart
    exact isPart.2
  · -- The assignment is somewhere, and can only be with the object.
    refine ⟨result, isResult, ?_, isPart⟩
    cases accessed : result.2.object with
    | none =>
      rw [(splits.error result isResult accessed).2] at isPart
      exact absurd inPair (isPart.2 pair isObject)
    | some other =>
      obtain ⟨isOther, paths⟩ := splits.accessed result isResult other accessed
      rw [paths] at isPart
      rw [exclusive bytes isIn other isOther pair isObject isPart.2 inPair]
  · obtain ⟨result, isResult, isError, isPart⟩ := ends
    have noObject : result.2.object = none := by rw [isError, Outcome.object]
    rw [(splits.error result isResult noObject).2] at isPart
    exact isPart.2
  · refine ⟨result, isResult, ?_, isPart⟩
    cases accessed : result.2.object with
    | none => exact (splits.error result isResult accessed).1
    | some other =>
      obtain ⟨isOther, paths⟩ := splits.accessed result isResult other accessed
      rw [paths] at isPart
      exact absurd isPart.2 (noPair other isOther)

/-- What has accessed the objects, and what is unbound, as it was split off. -/
theorem SplitOff.memorySplit {bound : List (PathState × Outcome)}
    (splits : SplitOff whole objects covers split) (isBound : Forall₂ (fun entry result =>
      result.1 = entry.2 ∧ result.2.object = some entry.1) split.1 bound)
    : MemorySplit whole objects covers
        (bound ++ split.2.toList.map fun unbound => (unbound, Outcome.outOfBound)) := by
  have same : bound.map (fun result => (result.2.object, result.1))
      = split.1.map fun entry => (some entry.1, entry.2) := by
    rw [← forall₂_eq_eq_eq, forall₂_map_left_iff, forall₂_map_right_iff]
    exact isBound.flip.imp fun result entry is => by rw [is.1, is.2]
  have entry_of : ∀ result ∈ bound,
      ∃ entry ∈ split.1, some entry.1 = result.2.object ∧ entry.2 = result.1 := by
    intro result member
    have mapped := mem_map_of_mem (f := fun result => (result.2.object, result.1)) member
    rw [same] at mapped
    obtain ⟨entry, isEntry, equal⟩ := mem_map.mp mapped
    exact ⟨entry, isEntry, congrArg Prod.fst equal, congrArg Prod.snd equal⟩
  have states : bound.map Prod.fst = split.1.map Prod.snd := by
    have second := congrArg (map Prod.snd) same
    simpa only [map_map, Function.comp_def] using second
  refine ⟨?_, fun result member => ?_, fun result member => ?_⟩
  · have parts := splits.partition
    rw [← states] at parts
    simpa only [map_append, map_map, Function.comp_def] using parts
  · intro pair isPair
    rcases mem_append.mp member with isIn | isOut
    · obtain ⟨entry, isEntry, accessed, is⟩ := entry_of result isIn
      cases accessed.trans isPair
      exact is ▸ splits.bound entry isEntry
    · obtain ⟨unbound, isUnbound, rfl⟩ := mem_map.mp isOut
      cases isPair
  · intro noPair
    rcases mem_append.mp member with isIn | isOut
    · obtain ⟨entry, isEntry, accessed, is⟩ := entry_of result isIn
      exact nomatch accessed.trans noPair
    · obtain ⟨unbound, isUnbound, rfl⟩ := mem_map.mp isOut
      exact ⟨rfl, splits.unbound unbound (Option.mem_toList.mp isUnbound)⟩

theorem perform_yields (access : MemoryAccess) (pair : ObjectPair)
    {offset : Nat → Except Fault Expr} (finishes : Yields offset fun _ => True)
    : Yields (fun fuel => access.perform pair (offset fuel)) fun outcome =>
        outcome.object = some pair := by
  cases access with
  | read type => exact finishes.bind fun offset _ => yields_ok rfl
  | write value =>
    simp only [MemoryAccess.perform]
    cases pair.readOnly with
    | true => exact yields_ok rfl
    | false => exact finishes.bind fun offset _ => yields_ok rfl

/-- Only one object covers an access. -/
theorem covers_exclusive {rl : ResolutionList} (listed : ∀ pair ∈ rl, pair ∈ map.objects)
    {n : Nat} (positive : 0 < n)
    : Exclusive whole rl fun pair bytes => pair.mo.Covers (addr bytes).toNat n := by
  intro bytes _ a isA b isB inA inB
  exact MemoryMap.contains_unique (listed a isA) (listed b isB) (inA.contains positive)
    (inB.contains positive)

-- Memory operations

/-- The constraints of a state and an expression can be evaluated, and on one assignment of
the path they are narrow and divide by no zero.
-/
structure Simplifies (options : Options) (state : PathState) (e : Expr) : Prop where
  boolean : state.constraints.Boolean
  bounded : ∀ bytes ∈ state.paths, Bounded options bytes state.constraints.constraints
  usable : ∃ bytes ∈ state.paths,
    ∀ c ∈ state.constraints.constraints ++ [e], c.Usable options bytes

variable {e : Expr} {w : Nat} {value : Assignment → BitVec w}

theorem simplifyExpr_hasValue (simplifies : Simplifies setting.options state e)
    (hasValue : HasValue setting.options state.constraints e value)
    : Yields (fun fuel => state.constraints.simplifyExpr setting.options fuel e) fun e' =>
        HasValue setting.options state.constraints e' value := by
  have isTrue : ∀ bytes ∈ state.paths,
      AllTrue setting.options bytes state.constraints.constraints := by
    intro bytes isIn c member
    have isC := (simplifies.boolean c member).denotes_bounded fun on =>
      simplifies.bounded bytes isIn on c member
    have holds : c.Holds bytes := isIn c member
    exact holds ▸ isC
  obtain ⟨bytes, isIn, usable⟩ := simplifies.usable
  have held : ∀ c ∈ state.constraints.constraints, Held setting.options bytes c := fun c member =>
    ⟨isTrue bytes isIn c member, (usable c (mem_append_left _ member)).proper⟩
  obtain ⟨e', settles, -⟩ := simplifyExpr_yields held (usable e (by simp))
  refine ⟨e', settles, fun bytes isIn => ?_⟩
  have keeps : Keeps setting.options bytes True e e' := settles.ensures fun fuel =>
    simplifyExpr_ensures (fun _ => trivial) fuel simplifies.boolean (fun _ => isTrue bytes isIn) e
  exact keeps.denotes (hasValue bytes isIn)

theorem simplified_yields
    (simplifies : setting.SimplifySymIndices = true → Simplifies setting.options state e)
    (hasValue : HasValue setting.options state.constraints e value)
    : Yields (fun fuel => setting.simplified fuel state e) fun e' =>
        HasValue setting.options state.constraints e' value := by
  unfold MemorySetting.simplified
  by_cases on : setting.SimplifySymIndices = true ∧ e.constant? = none
  · simp only [if_pos on]
    exact simplifyExpr_hasValue (simplifies on.1) hasValue
  · simp only [if_neg on]
    exact yields_ok hasValue

/-- What is written can be evaluated, and simplified if that is done. -/
def MemoryAccess.Evaluates (setting : MemorySetting) (state : PathState) : MemoryAccess → Prop
  | read _ => True
  | write value => state.Evaluates setting.options value value.getWidth
      ∧ (setting.SimplifySymIndices = true → Simplifies setting.options state value)

variable {access : MemoryAccess}

theorem simplifiedAccess_yields (evaluates : access.Evaluates setting state)
    : Yields (fun fuel => setting.simplifiedAccess fuel state access) fun _ => True := by
  cases access with
  | read type => exact yields_ok trivial
  | write value =>
    obtain ⟨isValue, simplifies⟩ := evaluates
    exact (simplified_yields simplifies isValue.hasValue).bind fun _ _ => yields_ok trivial

section

variable (correct : setting.solver.Correct) (feasible : state.paths.Nonempty)
include correct feasible

theorem errorPath_yields (isAddress : HasValue setting.options state.constraints address addr)
    {bytes : UInt32} (positive : 0 < bytes.toNat) (fresh : Nat) (access : MemoryAccess)
    : Yields (fun fuel => setting.errorPath fuel map fresh state access bytes address)
        (MemorySplit state.paths map.objects fun pair input =>
          pair.mo.Covers (addr input).toNat bytes.toNat) := by
  refine (MemoryMap.resolve_yields correct feasible isAddress).bind fun found isFound => ?_
  obtain ⟨isComplete, resolved⟩ := isFound
  refine (splitOff_yields correct resolved.nodup fresh feasible
    (covers_exclusive resolved.listed positive) fun pair member =>
      have within := map.within pair (resolved.listed pair member)
      (getOffsetExpr_yields feasible isAddress within).bind fun _ isOffset =>
        getBoundsCheckRange_yields feasible isOffset within positive).bind fun split splits => ?_
  have whole := splits.resolved resolved.listed fun pair isObject input isIn covers =>
    (resolved.complete pair isObject).mpr ⟨input, isIn, covers.contains positive⟩
  have performed : ∀ entry ∈ split.1, Yields (fun fuel => do
      let outcome ← access.perform entry.1
        (entry.1.mo.getOffsetExpr setting.context setting.options fuel address)
      .ok (entry.2, outcome)) fun result =>
        result.1 = entry.2 ∧ result.2.object = some entry.1 := by
    intro entry member
    have within := map.within entry.1 (whole.bound entry member).1
    refine (perform_yields access entry.1 ((getOffsetExpr_yields feasible isAddress within).mono
      fun _ _ => trivial)).bind fun outcome isObject => yields_ok ⟨rfl, isObject⟩
  refine (yields_mapM performed).bind fun bound isBound => yields_ok ?_
  rw [isComplete]
  exact whole.memorySplit isBound

/-- An expression that is made constant keeps one of its values, and the state keeps the
assignments that give it.
-/
theorem toConstant_yields (simplifies : Simplifies setting.options state e)
    (hasValue : HasValue setting.options state.constraints e value)
    : Yields (fun fuel => setting.toConstant fuel state e) fun concrete =>
        ∃ example_ ∈ state.paths, concrete.2 = ⟨w, value example_⟩
          ∧ concrete.1.paths = { bytes ∈ state.paths | value bytes = value example_ } := by
  refine (simplifyExpr_hasValue simplifies hasValue).bind fun e' isE' => ?_
  cases isC : e'.constant? with
  | some CE =>
    obtain rfl := constant?_eq_some.mp isC
    obtain ⟨bytes, isIn⟩ := feasible
    have same : CE = ⟨w, value bytes⟩ := (isE' bytes isIn).constant
    refine yields_ok ⟨bytes, isIn, same, Set.ext fun bytes' => ?_⟩
    refine ⟨fun isIn' => ⟨isIn', ?_⟩, And.left⟩
    have same' : CE = ⟨w, value bytes'⟩ := (isE' bytes' isIn').constant
    exact (eq_of_heq (ConstantExpr.mk.inj (same.symm.trans same')).2).symm
  | none =>
    obtain ⟨bytes, isIn, found⟩ := getValue_spec correct feasible isE'
    simp only [found]
    refine (eq_yields feasible isE' (hasValue_constant setting.options _
      ⟨w, value bytes⟩)).bind fun equal decides => ?_
    refine (addConstraint_yields decides ⟨bytes, isIn, rfl⟩).bind fun after isAfter => ?_
    exact yields_ok ⟨bytes, isIn, rfl, isAfter.2⟩

theorem accessObject_yields (isAddress : HasValue setting.options state.constraints address addr)
    {bytes : UInt32} (positive : 0 < bytes.toNat) (fresh : Nat) (access : MemoryAccess)
    {op : ObjectPair} (isOp : op ∈ map.objects)
    : Yields (fun fuel => setting.accessObject fuel map fresh state access bytes op address)
        (MemorySplit state.paths map.objects fun pair input =>
          pair.mo.Covers (addr input).toNat bytes.toNat) := by
  have within : op.mo.Within setting.context := map.within op isOp
  refine (getOffsetExpr_yields feasible isAddress within).bind fun offset isOffset => ?_
  refine (getBoundsCheckRange_yields feasible isOffset within positive).bind fun check decides => ?_
  refine (mustBeTrue_yields correct feasible decides).bind fun inBounds answers => ?_
  cases inBounds with
  | false => exact errorPath_yields correct feasible isAddress positive fresh access
  | true =>
    have all := answers.mp rfl
    refine (perform_yields access op (yields_ok trivial)).bind fun outcome accessed => ?_
    refine yields_ok ⟨partition_single feasible, forall_mem_singleton.mpr ?_,
      forall_mem_singleton.mpr ?_⟩
    · intro pair isPair
      obtain rfl := Option.mem_unique accessed isPair
      refine ⟨isOp, Set.ext fun input => ?_⟩
      exact ⟨fun isIn => ⟨isIn, all input isIn⟩, And.left⟩
    · intro noPair
      exact nomatch accessed.symm.trans noPair

/-- Without a limit on the sizes of objects, a memory operation splits the path by the
objects that the access is in.
-/
theorem executeMemoryOperation_yields (unlimited : setting.MaxSymArraySize = 0)
    (isAddress : HasValue setting.options state.constraints address addr)
    (simplifies : setting.SimplifySymIndices = true → Simplifies setting.options state address)
    (positive : 0 < access.bytes.toNat) (evaluates : access.Evaluates setting state) (fresh : Nat)
    : Yields (fun fuel => setting.executeMemoryOperation fuel map fresh state access address)
        (MemorySplit state.paths map.objects fun pair input =>
          pair.mo.Covers (addr input).toNat access.bytes.toNat) := by
  refine (simplified_yields simplifies isAddress).bind fun address isAddress => ?_
  refine (simplifiedAccess_yields evaluates).bind fun access' _ => ?_
  refine (MemoryMap.resolveOne_yields correct feasible isAddress).bind fun found isObject => ?_
  cases found with
  | none => exact errorPath_yields correct feasible isAddress positive fresh access'
  | some op =>
    have same : ∀ fuel, setting.limited fuel state op.mo address = .ok (state, address) :=
      fun fuel => if_neg fun limited => limited.1 unlimited
    simp only [same, ok_bind]
    exact accessObject_yields correct feasible isAddress positive fresh access' isObject.1

end

end Operations

/-- Memory operations with a perfect solver, on a machine of 64 bits. -/
noncomputable def perfectSetting (SimplifySymIndices : Bool) (MaxSymArraySize : UInt32)
    : MemorySetting where
  toForkSetting := perfectForks
  context := wideContext
  SimplifySymIndices := SimplifySymIndices
  MaxSymArraySize := MaxSymArraySize

/-- Two objects with a gap between them. -/
def twoObjects : MemoryMap wideContext where
  objects := [⟨⟨1, 4096, 64⟩, false⟩, ⟨⟨2, 4224, 16⟩, true⟩]
  ordered := by
    simp only [List.pairwise_cons, List.forall_mem_singleton, ObjectPair.Before]
    exact ⟨by decide, nofun, .nil⟩
  within := by decide

/-- A pointer that is moved by a byte of the input. -/
def movedPointer : Expr :=
  .arithmetic .Add (.constant ⟨64, 4096#64⟩) (.cast .ZExt inputByte 64)

theorem movedPointer_usable (bytes : Assignment) : movedPointer.Usable comparesAll bytes where
  typed := by simp [movedPointer, Expr.Typed, Expr.getWidth]
  bounded := by simp [movedPointer, Expr.InBounds]
  proper := by
    simp [movedPointer, inputByte, Expr.Proper, UpdateNode.Proper, ArithmeticKind.Defined]

theorem anyPath_simplifies : Simplifies comparesAll anyPath movedPointer where
  boolean := nofun
  bounded := fun _ _ _ => nofun
  usable := ⟨sevens, nofun, forall_mem_singleton.mpr (movedPointer_usable sevens)⟩

/-- One object, which is too large if there is a limit. -/
def oneObject : MemoryMap wideContext where
  objects := [⟨⟨1, 4096, 256⟩, false⟩]
  ordered := List.pairwise_singleton _ _
  within := by decide

/-- The address is in the object. -/
theorem movedPointer_inside (bytes : Assignment)
    : (⟨1, 4096, 256⟩ : MemoryObject).Contains (movedPointer.bits bytes 64).toNat := by
  have moved : movedPointer.bits bytes 64 = 4096#64 + (inputByte.bits bytes 8).setWidth 64 := rfl
  have small := (inputByte.bits bytes 8).isLt
  have address : (movedPointer.bits bytes 64).toNat = 4096 + (inputByte.bits bytes 8).toNat := by
    bv_omega
  rw [address]
  exact ⟨Nat.le_add_right _ _, Nat.add_lt_add_left small 4096⟩

end Woodpecker.Execution
