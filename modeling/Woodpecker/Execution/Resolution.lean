import Mathlib.Data.List.Pairwise
import Mathlib.Data.List.TakeWhile
import Woodpecker.Execution.ObjectState
import Woodpecker.Execution.Solving

/-! The objects that a pointer can point to, as an address space finds them.

The search starts at an example address. It goes down from there until the pointer is known
to be above an object, and then up until the pointer is known to be below one. As objects are
ordered by address and do not overlap, no object that the pointer can point to is missed.
-/

namespace Woodpecker.Execution

open Expressions Library MemoryObject TimingSolver List

-- Objects and bounds

/-- The target has pointers of 32 or 64 bits. -/
structure Context where
  pointerWidth : Nat
  known : pointerWidth = 32 ∨ pointerWidth = 64

/-- A machine of 64 bits. -/
def wideContext : Context := ⟨64, .inr rfl⟩

namespace MemoryObject

variable (context : Context) (options : Options) (fuel : Nat) (mo : MemoryObject)

def getBaseExpr : Except Fault ConstantExpr :=
  ConstantExpr.create mo.address.toNat context.pointerWidth

def getSizeExpr : Except Fault ConstantExpr :=
  ConstantExpr.create mo.size.toNat context.pointerWidth

def getOffsetExpr (pointer : Expr) : Except Fault Expr := do
  SubExpr.create options fuel pointer (.constant (← mo.getBaseExpr context))

/-- `getBoundsCheckOffset(offset)` -/
def getBoundsCheckOffset (offset : Expr) : Except Fault Expr :=
  if mo.size = 0 then EqExpr.create options offset (.constant (.alloc 0 context.pointerWidth))
  else do UltExpr.create options offset (.constant (← mo.getSizeExpr context))

/-- `getBoundsCheckOffset(offset, bytes)` -/
def getBoundsCheckRange (offset : Expr) (bytes : UInt32) : Except Fault Expr :=
  if bytes ≤ mo.size then
    UltExpr.create options offset
      (.constant (.alloc (mo.size - bytes + 1).toNat context.pointerWidth))
  else .ok (.constant (.alloc 0 1))

/-- `getBoundsCheckPointer(pointer)` -/
def getBoundsCheckPointer (pointer : Expr) : Except Fault Expr := do
  mo.getBoundsCheckOffset context options (← mo.getOffsetExpr context options fuel pointer)

/-- `getBoundsCheckPointer(pointer, bytes)` -/
def getBoundsCheckPointerRange (pointer : Expr) (bytes : UInt32) : Except Fault Expr := do
  mo.getBoundsCheckRange context options (← mo.getOffsetExpr context options fuel pointer) bytes

end MemoryObject

/-- An object of an address space. Of its contents it only matters here whether they can be
written.
-/
structure ObjectPair where
  mo : MemoryObject
  readOnly : Bool

abbrev ResolutionList := List ObjectPair

/-- The first address after an object. -/
def MemoryObject.limit (mo : MemoryObject) : Nat :=
  mo.address.toNat + mo.size.toNat

/-- One object is before another, and they do not overlap. -/
def ObjectPair.Before (a b : ObjectPair) : Prop :=
  a.mo.address.toNat < b.mo.address.toNat ∧ a.mo.limit ≤ b.mo.address.toNat

/-- The objects of an address space, in the order of their addresses. -/
structure MemoryMap (context : Context) where
  objects : List ObjectPair
  ordered : objects.Pairwise ObjectPair.Before
  within : ∀ pair ∈ objects, pair.mo.address.toNat < 2 ^ context.pointerWidth
    ∧ pair.mo.limit ≤ 2 ^ context.pointerWidth

-- The search

namespace MemoryMap

variable {context : Context}

/-- The objects before `upper_bound`. The last of them is `lookup_previous`. -/
def upTo (map : MemoryMap context) (address : Nat) : List ObjectPair :=
  map.objects.takeWhile fun pair => pair.mo.address.toNat ≤ address

/-- The objects from `upper_bound` on. -/
def above (map : MemoryMap context) (address : Nat) : List ObjectPair :=
  map.objects.dropWhile fun pair => pair.mo.address.toNat ≤ address

/-- `resolveOne` of a constant address -/
def resolveOneAt (map : MemoryMap context) (address : Nat) : Option ObjectPair :=
  match (map.upTo address).getLast? with
  | none => none
  | some res =>
    if res.mo.size = 0 ∧ address = res.mo.address.toNat
        ∨ address - res.mo.address.toNat < res.mo.size.toNat then some res
    else none

section Search

variable (context : Context) (options : Options) (solver : Solver) (fuel : Nat)
  (manager : ConstraintManager) (p : Expr)

/-- Whether the pointer must be at or above the object. -/
def mustBeAbove (mo : MemoryObject) : Except Fault Bool := do
  TimingSolver.mustBeTrue solver manager
    (← UgeExpr.create options p (.constant (← mo.getBaseExpr context)))

/-- Whether the pointer must be below the object. -/
def mustBeBelow (mo : MemoryObject) : Except Fault Bool := do
  TimingSolver.mustBeTrue solver manager
    (← UltExpr.create options p (.constant (← mo.getBaseExpr context)))

/-- The loop of `resolveOne` downwards, which returns with an object or goes on. -/
def findDown : List ObjectPair → Except Fault (Option ObjectPair)
  | [] => .ok none
  | oi :: rest => do
    let inBounds ← oi.mo.getBoundsCheckPointer context options fuel p
    if ← TimingSolver.mayBeTrue solver options manager inBounds then .ok (some oi)
    else if ← mustBeAbove context options solver manager p oi.mo then .ok none
    else findDown rest

/-- The loop of `resolveOne` upwards. -/
def findUp : List ObjectPair → Except Fault (Option ObjectPair)
  | [] => .ok none
  | oi :: rest => do
    if ← mustBeBelow context options solver manager p oi.mo then .ok none
    else
      let inBounds ← oi.mo.getBoundsCheckPointer context options fuel p
      if ← TimingSolver.mayBeTrue solver options manager inBounds then .ok (some oi)
      else findUp rest

/-- What both loops of `resolve` do with an object: they may add it to the list, and return
with `some incomplete`.
-/
def consider (maxResolutions : Nat) (rl : ResolutionList) (oi : ObjectPair)
    : Except Fault (ResolutionList × Option Bool) := do
  let inBounds ← oi.mo.getBoundsCheckPointer context options fuel p
  if ← TimingSolver.mayBeTrue solver options manager inBounds then
    let rl := rl ++ [oi]
    -- fast path check
    if rl.length = 1 then
      if ← TimingSolver.mustBeTrue solver manager inBounds then .ok (rl, some false)
      else .ok (rl, none)
    else if rl.length = maxResolutions then .ok (rl, some true)
    else .ok (rl, none)
  else .ok (rl, none)

/-- The loop of `resolve` downwards. -/
def searchDown (maxResolutions : Nat) (rl : ResolutionList)
    : List ObjectPair → Except Fault (ResolutionList × Option Bool)
  | [] => .ok (rl, none)
  | oi :: rest => do
    match ← consider context options solver fuel manager p maxResolutions rl oi with
    | (rl, some incomplete) => .ok (rl, some incomplete)
    | (rl, none) =>
      if ← mustBeAbove context options solver manager p oi.mo then .ok (rl, none)
      else searchDown maxResolutions rl rest

/-- The loop of `resolve` upwards. -/
def searchUp (maxResolutions : Nat) (rl : ResolutionList)
    : List ObjectPair → Except Fault (ResolutionList × Option Bool)
  | [] => .ok (rl, none)
  | oi :: rest => do
    if ← mustBeBelow context options solver manager p oi.mo then .ok (rl, none)
    else
      match ← consider context options solver fuel manager p maxResolutions rl oi with
      | (rl, some incomplete) => .ok (rl, some incomplete)
      | (rl, none) => searchUp maxResolutions rl rest

end Search

section Resolve

variable (map : MemoryMap context) (options : Options) (solver : Solver) (fuel : Nat)
  (manager : ConstraintManager) (p : Expr)

/-- `resolveOne` of any address: the object, if there is one. -/
def resolveOne : Except Fault (Option ObjectPair) :=
  match p.constant? with
  | some CE => do
    let address ← CE.getZExtValue 64
    .ok (map.resolveOneAt address)
  | none => do
    let cex := TimingSolver.getValue solver manager p
    let example_ ← cex.getZExtValue 64
    -- try cheap search, will succeed for any inbounds pointer
    match (map.upTo example_).getLast? with
    | some res =>
      if example_ - res.mo.address.toNat < res.mo.size.toNat then .ok (some res)
      else search example_
    | none => search example_
where
  search (address : Nat) : Except Fault (Option ObjectPair) := do
    match ← findDown context options solver fuel manager p (map.upTo address).reverse with
    | some res => .ok (some res)
    | none => findUp context options solver fuel manager p (map.above address)

/-- The objects found, and whether there may be more. -/
def resolve (maxResolutions : Nat) : Except Fault (ResolutionList × Bool) :=
  match p.constant? with
  | some CE => do
    let address ← CE.getZExtValue 64
    .ok ((map.resolveOneAt address).toList, false)
  | none => do
    let cex := TimingSolver.getValue solver manager p
    let example_ ← cex.getZExtValue 64
    match ← searchDown context options solver fuel manager p maxResolutions []
        (map.upTo example_).reverse with
    | (rl, some incomplete) => .ok (rl, incomplete)
    | (rl, none) =>
      match ← searchUp context options solver fuel manager p maxResolutions rl
          (map.above example_) with
      | (rl, some incomplete) => .ok (rl, incomplete)
      | (rl, none) => .ok (rl, false)

end Resolve

end MemoryMap

-- Addresses in objects

/-- The address is in the object. An object without bytes has its own address. -/
def MemoryObject.Contains (mo : MemoryObject) (address : Nat) : Prop :=
  mo.address.toNat ≤ address ∧ address < mo.address.toNat + max 1 mo.size.toNat

/-- All of the bytes at the address are in the object. -/
def MemoryObject.Covers (mo : MemoryObject) (address bytes : Nat) : Prop :=
  mo.address.toNat ≤ address ∧ address + bytes ≤ mo.limit

/-- The object is in the memory of the target. -/
def MemoryObject.Within (context : Context) (mo : MemoryObject) : Prop :=
  mo.address.toNat < 2 ^ context.pointerWidth ∧ mo.limit ≤ 2 ^ context.pointerWidth

theorem MemoryObject.Covers.contains {mo : MemoryObject} {address bytes : Nat}
    (covers : mo.Covers address bytes) (positive : 0 < bytes)
    : mo.Contains address := by
  obtain ⟨lower, upper⟩ := covers
  rw [limit] at upper
  exact ⟨lower, by omega⟩

theorem ObjectPair.Before.contains_lt {a b : ObjectPair} {address : Nat} (before : a.Before b)
    (contains : a.mo.Contains address)
    : address < b.mo.address.toNat := by
  obtain ⟨first, apart⟩ := before
  obtain ⟨lower, upper⟩ := contains
  rw [limit] at apart
  omega

namespace MemoryMap

variable {context : Context} {map : MemoryMap context}

theorem objects_nodup (map : MemoryMap context) : map.objects.Nodup := by
  refine map.ordered.imp fun before same => ?_
  exact Nat.lt_irrefl _ (same ▸ before.1)

variable {address : Nat}

/-- An address is in one object only. -/
theorem contains_unique {a b : ObjectPair} (isA : a ∈ map.objects) (isB : b ∈ map.objects)
    (inA : a.mo.Contains address) (inB : b.mo.Contains address)
    : a = b := by
  by_contra different
  have apart : map.objects.Pairwise fun a b =>
      ¬ (a.mo.Contains address ∧ b.mo.Contains address) := by
    refine map.ordered.imp fun before both => ?_
    exact Nat.not_lt.mpr both.2.1 (before.contains_lt both.1)
  have : Std.Symm fun a b : ObjectPair =>
      ¬ (a.mo.Contains address ∧ b.mo.Contains address) :=
    ⟨fun a b not both => not both.symm⟩
  exact apart.forall isA isB different ⟨inA, inB⟩

theorem upTo_append_above (map : MemoryMap context) (address : Nat)
    : map.upTo address ++ map.above address = map.objects :=
  takeWhile_append_dropWhile

variable {pair : ObjectPair}

theorem mem_upTo_or_above (member : pair ∈ map.objects) (address : Nat)
    : pair ∈ map.upTo address ∨ pair ∈ map.above address := by
  rw [← map.upTo_append_above address] at member
  exact mem_append.mp member

theorem upTo_sublist (map : MemoryMap context) (address : Nat)
    : (map.upTo address).Sublist map.objects :=
  takeWhile_sublist _

theorem le_of_mem_upTo (member : pair ∈ map.upTo address)
    : pair.mo.address.toNat ≤ address := by
  have holds := mem_takeWhile_imp member
  exact of_decide_eq_true holds

/-- The first that is kept is above, and the others follow it. -/
theorem lt_of_mem_above (member : pair ∈ map.above address)
    : address < pair.mo.address.toNat := by
  have ordered : (map.above address).Pairwise ObjectPair.Before :=
    map.ordered.sublist (dropWhile_sublist _)
  have start := head?_dropWhile_not (fun pair => pair.mo.address.toNat ≤ address) map.objects
  rw [← above] at start
  generalize map.above address = kept at member ordered start
  cases member with
  | head => simpa using start
  | tail first later =>
    have low : address < first.mo.address.toNat := by simpa using start
    exact low.trans (rel_of_pairwise_cons ordered later).1

/-- Of a constant address, the object that it is in. -/
theorem resolveOneAt_eq_some
    : map.resolveOneAt address = some pair
      ↔ pair ∈ map.objects ∧ pair.mo.Contains address := by
  have check : ∀ {res : ObjectPair}, res.mo.address.toNat ≤ address
      → (res.mo.size = 0 ∧ address = res.mo.address.toNat
          ∨ address - res.mo.address.toNat < res.mo.size.toNat
        ↔ res.mo.Contains address) := by
    intro res low
    have empty : res.mo.size = 0 ↔ res.mo.size.toNat = 0 := UInt32.toNat_inj.symm
    rw [Contains, empty]
    omega
  unfold resolveOneAt
  split
  next none =>
    refine iff_of_false nofun fun ⟨member, contains⟩ => ?_
    rw [getLast?_eq_none_iff] at none
    rcases mem_upTo_or_above member address with low | high
    · exact not_mem_nil (none ▸ low)
    · exact Nat.not_le.mpr (lt_of_mem_above high) contains.1
  next res last =>
    have isLow : res ∈ map.upTo address := mem_of_getLast? last
    have low : res.mo.address.toNat ≤ address := le_of_mem_upTo isLow
    constructor
    · intro found
      obtain ⟨inside, same⟩ := Option.ite_none_right_eq_some.mp found
      cases same
      exact ⟨(map.upTo_sublist address).mem isLow, (check low).mp inside⟩
    · intro ⟨member, contains⟩
      suffices same : pair = res by
        exact Option.ite_none_right_eq_some.mpr ⟨(check low).mpr (same ▸ contains), by rw [same]⟩
      rcases mem_upTo_or_above member address with isUpTo | high
      · obtain ⟨earlier, split⟩ := getLast?_eq_some_iff.mp last
        rw [split, mem_append, mem_singleton] at isUpTo
        rcases isUpTo with before | here
        · -- An earlier object ends before the last one starts.
          have ordered := map.ordered.sublist (map.upTo_sublist address)
          rw [split, pairwise_append] at ordered
          have isBefore := ordered.2.2 pair before res (by simp)
          exact absurd low (Nat.not_le.mpr (isBefore.contains_lt contains))
        · exact here
      · exact absurd contains.1 (Nat.not_le.mpr (lt_of_mem_above high))

end MemoryMap

-- Bounds checks

theorem Context.wide (context : Context)
    : 2 ^ 32 ≤ 2 ^ context.pointerWidth ∧ context.pointerWidth ≤ 64 := by
  rcases context.known with known | known
  · rw [known]
    decide
  · rw [known]
    decide

/-- Of the difference of two words: it is small if one is not far above the other. -/
theorem toNat_sub_lt_iff {w : Nat} {a base : BitVec w} {n : Nat} (fits : base.toNat + n ≤ 2 ^ w)
    : (a - base).toNat < n ↔ base.toNat ≤ a.toNat ∧ a.toNat < base.toNat + n := by
  rw [BitVec.toNat_sub]
  by_cases above : base.toNat ≤ a.toNat
  · have split : 2 ^ w - base.toNat + a.toNat = 2 ^ w + (a.toNat - base.toNat) := by omega
    rw [split, Nat.add_mod_left, Nat.mod_eq_of_lt (by omega)]
    omega
  · rw [Nat.mod_eq_of_lt (by omega)]
    omega

section Checks

variable {context : Context} {options : Options} {solver : Solver} {manager : ConstraintManager}
  {p : Expr} {addr : Assignment → BitVec context.pointerWidth} {mo : MemoryObject}

/-- The base of an object as a word. -/
def MemoryObject.base (context : Context) (mo : MemoryObject) : BitVec context.pointerWidth :=
  BitVec.ofNat context.pointerWidth mo.address.toNat

theorem MemoryObject.Within.toNat_base (within : mo.Within context)
    : (mo.base context).toNat = mo.address.toNat := by
  rw [base, BitVec.toNat_ofNat, Nat.mod_eq_of_lt within.1]

theorem MemoryObject.Within.getBaseExpr_eq (within : mo.Within context)
    : mo.getBaseExpr context = .ok ⟨context.pointerWidth, mo.base context⟩ := by
  rw [getBaseExpr, ConstantExpr.create, if_pos within.1]
  rfl

theorem getSizeExpr_eq (context : Context) (mo : MemoryObject)
    : mo.getSizeExpr context
      = .ok ⟨context.pointerWidth, BitVec.ofNat context.pointerWidth mo.size.toNat⟩ := by
  have wide := context.wide.1
  have small : mo.size.toNat < 2 ^ 32 := mo.size.toNat_lt
  rw [getSizeExpr, ConstantExpr.create, if_pos (by omega)]
  rfl

theorem getOffsetExpr_yields (feasible : (assignments manager).Nonempty)
    (isP : HasValue options manager p addr) (within : mo.Within context)
    : Yields (fun fuel => mo.getOffsetExpr context options fuel p) fun offset =>
        HasValue options manager offset fun bytes => addr bytes - mo.base context := by
  simp only [getOffsetExpr, within.getBaseExpr_eq, ok_bind]
  exact sub_yields feasible isP (hasValue_constant options manager _) context.wide.2

section

variable (feasible : (assignments manager).Nonempty)
include feasible

/-- A comparison of an offset with a constant. -/
theorem offset_lt_yields {offset : Expr} {n : Nat}
    (isOffset : HasValue options manager offset fun bytes => addr bytes - mo.base context)
    (within : mo.Within context) (small : n < 2 ^ 32)
    (fits : mo.address.toNat + n ≤ 2 ^ context.pointerWidth)
    : Yields (fun _ => UltExpr.create options offset
          (.constant (.alloc n context.pointerWidth))) fun e =>
        Decides options manager e fun bytes =>
          mo.address.toNat ≤ (addr bytes).toNat ∧ (addr bytes).toNat < mo.address.toNat + n := by
  refine (comparison_yields feasible .Ult isOffset
    (hasValue_constant options manager (.alloc n context.pointerWidth))).mono
    fun e decides => decides.congr fun bytes _ => ?_
  change BitVec.ult _ (BitVec.ofNat _ n) = true ↔ _
  have wide := context.wide.1
  rw [BitVec.ult_iff_lt, BitVec.lt_def, BitVec.toNat_ofNat, Nat.mod_eq_of_lt (small.trans_le wide),
    toNat_sub_lt_iff (by rwa [within.toNat_base]), within.toNat_base]

/-- The check of one byte. -/
theorem getBoundsCheckPointer_yields (isP : HasValue options manager p addr)
    (within : mo.Within context)
    : Yields (fun fuel => mo.getBoundsCheckPointer context options fuel p) fun e =>
        Decides options manager e fun bytes => mo.Contains (addr bytes).toNat := by
  refine (getOffsetExpr_yields feasible isP within).bind fun offset isOffset => ?_
  have empty : mo.size = 0 ↔ mo.size.toNat = 0 := UInt32.toNat_inj.symm
  unfold getBoundsCheckOffset
  by_cases none : mo.size = 0
  · simp only [if_pos none]
    refine (eq_yields feasible isOffset
      (hasValue_constant options manager (.alloc 0 context.pointerWidth))).mono
      fun e decides => decides.congr fun bytes _ => ?_
    change _ - _ = 0#_ ↔ _
    rw [BitVec.sub_eq_iff_eq_add, BitVec.zero_add, ← BitVec.toNat_inj, within.toNat_base,
      Contains, empty.mp none]
    omega
  · simp only [if_neg none, getSizeExpr_eq, ok_bind]
    refine (offset_lt_yields feasible isOffset within mo.size.toNat_lt within.2).mono
      fun e decides => decides.congr fun bytes _ => ?_
    rw [empty] at none
    rw [Contains]
    omega

/-- The check of all bytes of an access. -/
theorem getBoundsCheckRange_yields {offset : Expr} {bytes : UInt32}
    (isOffset : HasValue options manager offset fun input => addr input - mo.base context)
    (within : mo.Within context) (positive : 0 < bytes.toNat)
    : Yields (fun _ => mo.getBoundsCheckRange context options offset bytes) fun e =>
        Decides options manager e fun input => mo.Covers (addr input).toNat bytes.toNat := by
  unfold getBoundsCheckRange
  have small := mo.size.toNat_lt
  have limited := within.2
  rw [limit] at limited
  by_cases fits : bytes ≤ mo.size
  · simp only [if_pos fits]
    have le : bytes.toNat ≤ mo.size.toNat := fits
    have count : (mo.size - bytes + 1).toNat = mo.size.toNat - bytes.toNat + 1 := by
      rw [UInt32.toNat_add, UInt32.toNat_sub_of_le _ _ fits, UInt32.toNat_one,
        Nat.mod_eq_of_lt (by omega)]
    refine (offset_lt_yields feasible isOffset within (UInt32.toNat_lt _) (by omega)).mono
      fun e decides => decides.congr fun input _ => ?_
    rw [count, Covers, limit]
    omega
  · -- The object is too small for the access.
    simp only [if_neg fits]
    have more : mo.size.toNat < bytes.toNat := Nat.not_le.mp fits
    refine yields_ok ((hasValue_constant options manager ⟨1, 0#1⟩).decides fun input _ => ?_)
    refine iff_of_false (by decide) fun covers => ?_
    obtain ⟨lower, upper⟩ := covers
    rw [limit] at upper
    omega

end

-- What the search finds

namespace MemoryMap

section Searches

variable (correct : solver.Correct) (feasible : (assignments manager).Nonempty)
  (isP : HasValue options manager p addr) (within : mo.Within context)
include correct feasible isP within

/-- Whether the pointer must compare so with the base of an object. -/
theorem mustCompare_yields {test : Assignment → Prop} (kind : ComparisonKind)
    (same : ∀ bytes, kind.apply (addr bytes) (mo.base context) = true ↔ test bytes)
    : Yields (fun _ => do
          let base ← mo.getBaseExpr context
          let compared ← kind.create options p (.constant base)
          mustBeTrue solver manager compared) fun res =>
        res = true ↔ ∀ bytes ∈ assignments manager, test bytes := by
  simp only [within.getBaseExpr_eq, ok_bind]
  refine (comparison_yields feasible kind isP (hasValue_constant options manager
    ⟨_, mo.base context⟩)).bind fun e decides => ?_
  exact mustBeTrue_yields correct feasible (decides.congr fun bytes _ => same bytes)

theorem mustBeAbove_yields
    : Yields (fun _ => mustBeAbove context options solver manager p mo) fun res =>
        res = true ↔ ∀ bytes ∈ assignments manager, mo.address.toNat ≤ (addr bytes).toNat := by
  refine mustCompare_yields correct feasible isP within .Uge fun bytes => ?_
  change BitVec.ule _ _ = true ↔ _
  rw [BitVec.ule_iff_le, BitVec.le_def, within.toNat_base]

theorem mustBeBelow_yields
    : Yields (fun _ => mustBeBelow context options solver manager p mo) fun res =>
        res = true ↔ ∀ bytes ∈ assignments manager, (addr bytes).toNat < mo.address.toNat := by
  refine mustCompare_yields correct feasible isP within .Ult fun bytes => ?_
  change BitVec.ult _ _ = true ↔ _
  rw [BitVec.ult_iff_lt, BitVec.lt_def, within.toNat_base]

end Searches

/-- The pointer can point to the object. -/
def MayContain (manager : ConstraintManager) (addr : Assignment → BitVec context.pointerWidth)
    (pair : ObjectPair)
    : Prop :=
  ∃ bytes ∈ assignments manager, pair.mo.Contains (addr bytes).toNat

/-- A loop of the search has added the objects that the pointer can point to, or it has
returned with the only one.
-/
inductive Searched (manager : ConstraintManager)
    (addr : Assignment → BitVec context.pointerWidth) (rl : ResolutionList)
    (objects : List ObjectPair)
    : ResolutionList × Option Bool → Prop
  | exhausted (found : ResolutionList) (sublist : found.Sublist objects)
    (all : ∀ pair ∈ objects, pair ∈ found ↔ MayContain manager addr pair)
    : Searched manager addr rl objects (rl ++ found, none)
  | only (pair : ObjectPair) (member : pair ∈ objects)
    (contains : ∀ bytes ∈ assignments manager, pair.mo.Contains (addr bytes).toNat)
    : Searched manager addr rl objects ([pair], some false)

/-- A loop of `resolveOne` has found an object that the pointer can point to, or there is
none.
-/
def Found (manager : ConstraintManager) (addr : Assignment → BitVec context.pointerWidth)
    (objects : List ObjectPair)
    : Option ObjectPair → Prop
  | some pair => pair ∈ objects ∧ MayContain manager addr pair
  | none => ∀ pair ∈ objects, ¬ MayContain manager addr pair

variable {rl : ResolutionList} {objects rest : List ObjectPair} {oi pair : ObjectPair}

/-- Once the pointer is known to be above an object, it cannot point to one before it. -/
theorem not_mayContain_of_above (before : pair.Before oi)
    (above : ∀ bytes ∈ assignments manager, oi.mo.address.toNat ≤ (addr bytes).toNat)
    : ¬ MayContain manager addr pair := by
  intro may
  obtain ⟨bytes, isIn, contains⟩ := may
  exact absurd (above bytes isIn) (Nat.not_le.mpr (before.contains_lt contains))

/-- Once the pointer is known to be below an object, it cannot point to it or to one after
it.
-/
theorem not_mayContain_of_below (after : ∀ pair ∈ rest, oi.Before pair)
    (below : ∀ bytes ∈ assignments manager, (addr bytes).toNat < oi.mo.address.toNat)
    : ∀ pair ∈ oi :: rest, ¬ MayContain manager addr pair := by
  intro pair member may
  obtain ⟨bytes, isIn, contains⟩ := may
  have above : oi.mo.address.toNat ≤ pair.mo.address.toNat := by
    rcases mem_cons.mp member with here | later
    · rw [here]
    · exact (after pair later).1.le
  exact absurd (above.trans contains.1) (Nat.not_le.mpr (below bytes isIn))

/-- None of the objects can be pointed to. -/
theorem searched_nothing (rl : ResolutionList)
    (not : ∀ pair ∈ objects, ¬ MayContain manager addr pair)
    : Searched manager addr rl objects (rl, none) := by
  have nothing : Searched manager addr rl objects (rl ++ [], none) :=
    .exhausted [] (nil_sublist _) fun pair member => iff_of_false nofun (not pair member)
  rwa [append_nil] at nothing

/-- The search goes on after an object. -/
theorem Searched.continue {found : ResolutionList} {result : ResolutionList × Option Bool}
    (sublist : found.Sublist [oi]) (here : oi ∈ found ↔ MayContain manager addr oi)
    (searched : Searched manager addr (rl ++ found) rest result)
    : Searched manager addr rl (oi :: rest) result := by
  cases searched with
  | exhausted later sublist' all =>
    rw [append_assoc]
    refine .exhausted (found ++ later) (sublist.append sublist') fun pair member => ?_
    rw [mem_append]
    constructor
    · intro isFound
      rcases isFound with first | second
      · obtain rfl := mem_singleton.mp (sublist.mem first)
        exact here.mp first
      · exact (all pair (sublist'.mem second)).mp second
    · intro may
      rcases mem_cons.mp member with same | isRest
      · subst same
        exact .inl (here.mpr may)
      · exact .inr ((all pair isRest).mpr may)
  | only pair member contains => exact .only pair (.tail oi member) contains

/-- The search for one object goes on after an object. -/
theorem Found.tail {res : Option ObjectPair} (not : ¬ MayContain manager addr oi)
    (found : Found manager addr rest res)
    : Found manager addr (oi :: rest) res := by
  cases res with
  | some pair => exact ⟨.tail oi found.1, found.2⟩
  | none => exact forall_mem_cons.mpr ⟨not, found⟩

section Searches

variable (correct : solver.Correct) (feasible : (assignments manager).Nonempty)
  (isP : HasValue options manager p addr)
include correct feasible isP

/-- Without a limit on their number, an object is added if it can be pointed to. -/
theorem consider_yields (within : oi.mo.Within context) (rl : ResolutionList)
    : Yields (fun fuel => consider context options solver fuel manager p 0 rl oi)
        (Searched manager addr rl [oi]) := by
  refine (getBoundsCheckPointer_yields feasible isP within).bind fun inBounds decides => ?_
  refine (mayBeTrue_yields correct feasible decides).bind fun may mayIff => ?_
  by_cases found : may = true
  · have added : Searched manager addr rl [oi] (rl ++ [oi], none) := by
      exact .exhausted [oi] (Sublist.refl _)
        (forall_mem_singleton.mpr (iff_of_true (mem_singleton_self oi) (mayIff.mp found)))
    simp only [if_pos found]
    by_cases first : (rl ++ [oi]).length = 1
    · simp only [if_pos first]
      refine (mustBeTrue_yields correct feasible decides).bind fun must mustIff => ?_
      cases must with
      | true =>
        obtain rfl : rl = [] := by simpa using first
        exact yields_ok (.only oi (by simp) (mustIff.mp rfl))
      | false => exact yields_ok added
    · have unlimited : ¬ (rl ++ [oi]).length = 0 := by simp
      simp only [if_neg first, if_neg unlimited]
      exact yields_ok added
  · simp only [if_neg found]
    refine yields_ok (searched_nothing rl (forall_mem_singleton.mpr fun may => ?_))
    exact found (mayIff.mpr may)

variable (within : ∀ pair ∈ objects, pair.mo.Within context)
include within

/-- Downwards, by induction on the objects. -/
theorem searchDown_yields (rl : ResolutionList)
    (ordered : objects.Pairwise fun a b => b.Before a)
    : Yields (fun fuel => searchDown context options solver fuel manager p 0 rl objects)
        (Searched manager addr rl objects) := by
  induction objects generalizing rl with
  | nil => exact yields_ok (searched_nothing rl nofun)
  | cons oi rest ih =>
    obtain ⟨withinO, withinR⟩ := forall_mem_cons.mp within
    obtain ⟨before, ordered⟩ := pairwise_cons.mp ordered
    refine (consider_yields correct feasible isP withinO rl).bind fun result considered => ?_
    cases considered with
    | only pair member contains =>
      obtain rfl := mem_singleton.mp member
      exact yields_ok (.only pair (by simp) contains)
    | exhausted found sublist all =>
      have here := all oi (by simp)
      refine (mustBeAbove_yields correct feasible isP withinO).bind fun above aboveIff => ?_
      cases above with
      | true =>
        refine yields_ok (.continue sublist here (searched_nothing _ fun pair member => ?_))
        exact not_mayContain_of_above (before pair member) (aboveIff.mp rfl)
      | false =>
        refine (ih withinR (rl ++ found) ordered).mono fun result searched => ?_
        exact searched.continue sublist here

/-- Upwards, by induction on the objects. -/
theorem searchUp_yields (rl : ResolutionList) (ordered : objects.Pairwise ObjectPair.Before)
    : Yields (fun fuel => searchUp context options solver fuel manager p 0 rl objects)
        (Searched manager addr rl objects) := by
  induction objects generalizing rl with
  | nil => exact yields_ok (searched_nothing rl nofun)
  | cons oi rest ih =>
    obtain ⟨withinO, withinR⟩ := forall_mem_cons.mp within
    obtain ⟨before, ordered⟩ := pairwise_cons.mp ordered
    refine (mustBeBelow_yields correct feasible isP withinO).bind fun below belowIff => ?_
    cases below with
    | true =>
      exact yields_ok (searched_nothing rl (not_mayContain_of_below before (belowIff.mp rfl)))
    | false =>
      refine (consider_yields correct feasible isP withinO rl).bind fun result considered => ?_
      cases considered with
      | only pair member contains =>
        obtain rfl := mem_singleton.mp member
        exact yields_ok (.only pair (by simp) contains)
      | exhausted found sublist all =>
        refine (ih withinR (rl ++ found) ordered).mono fun result searched => ?_
        exact searched.continue sublist (all oi (by simp))

theorem findDown_yields (ordered : objects.Pairwise fun a b => b.Before a)
    : Yields (fun fuel => findDown context options solver fuel manager p objects)
        (Found manager addr objects) := by
  induction objects with
  | nil => exact yields_ok nofun
  | cons oi rest ih =>
    obtain ⟨withinO, withinR⟩ := forall_mem_cons.mp within
    obtain ⟨before, ordered⟩ := pairwise_cons.mp ordered
    refine (getBoundsCheckPointer_yields feasible isP withinO).bind fun inBounds decides => ?_
    refine (mayBeTrue_yields correct feasible decides).bind fun may mayIff => ?_
    cases may with
    | true => exact yields_ok ⟨.head rest, mayIff.mp rfl⟩
    | false =>
      have not : ¬ MayContain manager addr oi := fun holds => nomatch mayIff.mpr holds
      refine (mustBeAbove_yields correct feasible isP withinO).bind fun above aboveIff => ?_
      cases above with
      | true =>
        refine yields_ok (Found.tail not fun pair member => ?_)
        exact not_mayContain_of_above (before pair member) (aboveIff.mp rfl)
      | false => exact (ih withinR ordered).mono fun res found => found.tail not

theorem findUp_yields (ordered : objects.Pairwise ObjectPair.Before)
    : Yields (fun fuel => findUp context options solver fuel manager p objects)
        (Found manager addr objects) := by
  induction objects with
  | nil => exact yields_ok nofun
  | cons oi rest ih =>
    obtain ⟨withinO, withinR⟩ := forall_mem_cons.mp within
    obtain ⟨before, ordered⟩ := pairwise_cons.mp ordered
    refine (mustBeBelow_yields correct feasible isP withinO).bind fun below belowIff => ?_
    cases below with
    | true => exact yields_ok (not_mayContain_of_below before (belowIff.mp rfl))
    | false =>
      refine (getBoundsCheckPointer_yields feasible isP withinO).bind fun inBounds decides => ?_
      refine (mayBeTrue_yields correct feasible decides).bind fun may mayIff => ?_
      cases may with
      | true => exact yields_ok ⟨.head rest, mayIff.mp rfl⟩
      | false =>
        refine (ih withinR ordered).mono fun res found => found.tail fun holds => ?_
        exact nomatch mayIff.mpr holds

end Searches

variable {map : MemoryMap context}

/-- The objects in the order of the search downwards. -/
theorem down (map : MemoryMap context) (address : Nat)
    : (∀ pair ∈ (map.upTo address).reverse, pair.mo.Within context)
      ∧ (map.upTo address).reverse.Pairwise fun a b => b.Before a := by
  have sublist := map.upTo_sublist address
  refine ⟨fun pair member => ?_, pairwise_reverse.mpr (map.ordered.sublist sublist)⟩
  exact map.within pair (sublist.mem (mem_reverse.mp member))

/-- The objects in the order of the search upwards. -/
theorem up (map : MemoryMap context) (address : Nat)
    : (∀ pair ∈ map.above address, pair.mo.Within context)
      ∧ (map.above address).Pairwise ObjectPair.Before := by
  have sublist : (map.above address).Sublist map.objects := dropWhile_sublist _
  exact ⟨fun pair member => map.within pair (sublist.mem member), map.ordered.sublist sublist⟩

theorem perm_objects (map : MemoryMap context) (address : Nat)
    : ((map.upTo address).reverse ++ map.above address).Perm map.objects := by
  refine ((reverse_perm _).append_right _).trans ?_
  rw [map.upTo_append_above address]

/-- Of one address, the object that it is in. -/
theorem resolveOneAt_found {address : Nat} (feasible : (assignments manager).Nonempty)
    (same : ∀ bytes ∈ assignments manager, (addr bytes).toNat = address)
    : Found manager addr map.objects (map.resolveOneAt address) := by
  cases one : map.resolveOneAt address with
  | some pair =>
    obtain ⟨bytes, isIn⟩ := feasible
    obtain ⟨member, contains⟩ := resolveOneAt_eq_some.mp one
    exact ⟨member, bytes, isIn, (same bytes isIn).symm ▸ contains⟩
  | none =>
    intro pair member may
    obtain ⟨bytes, isIn, contains⟩ := may
    rw [same bytes isIn] at contains
    simp [resolveOneAt_eq_some.mpr ⟨member, contains⟩] at one

section Resolution

variable (feasible : (assignments manager).Nonempty) (isP : HasValue options manager p addr)
include feasible isP

/-- A constant pointer has the same address on the whole path. -/
theorem constant_address {CE : ConstantExpr} (isC : p.constant? = some CE)
    : ∃ address, CE.getZExtValue 64 = .ok address
        ∧ ∀ bytes ∈ assignments manager, (addr bytes).toNat = address := by
  have known : ∀ bytes ∈ assignments manager, CE.getZExtValue 64 = .ok (addr bytes).toNat := by
    intro bytes isIn
    obtain rfl := constant?_eq_some.mp isC
    obtain rfl := (isP bytes isIn).constant
    exact if_pos context.wide.2
  obtain ⟨bytes, isIn⟩ := feasible
  refine ⟨_, known bytes isIn, fun bytes' isIn' => ?_⟩
  exact Except.ok.inj ((known bytes' isIn').symm.trans (known bytes isIn))

variable (correct : solver.Correct)
include correct

/-- The example is the address of an assignment of the path. -/
theorem example_address
    : ∃ bytes ∈ assignments manager,
        (getValue solver manager p).getZExtValue 64 = .ok (addr bytes).toNat := by
  obtain ⟨bytes, isIn, found⟩ := getValue_spec correct feasible isP
  rw [found]
  exact ⟨bytes, isIn, if_pos context.wide.2⟩

end Resolution

variable (correct : solver.Correct) (feasible : (assignments manager).Nonempty)
  (isP : HasValue options manager p addr)
include correct feasible isP

/-- An object is found if there is one that the pointer can point to. -/
theorem resolveOne_yields
    : Yields (fun fuel => map.resolveOne options solver fuel manager p)
        (Found manager addr map.objects) := by
  have search : ∀ address, Yields
      (fun fuel => resolveOne.search map options solver fuel manager p address)
        (Found manager addr map.objects) := by
    intro address
    obtain ⟨withinLow, orderedLow⟩ := map.down address
    obtain ⟨withinHigh, orderedHigh⟩ := map.up address
    have permuted := map.perm_objects address
    refine (findDown_yields correct feasible isP withinLow orderedLow).bind fun res low => ?_
    cases res with
    | some res => exact yields_ok ⟨permuted.subset (mem_append_left _ low.1), low.2⟩
    | none =>
      refine (findUp_yields correct feasible isP withinHigh orderedHigh).mono fun res high => ?_
      cases res with
      | some res => exact ⟨permuted.subset (mem_append_right _ high.1), high.2⟩
      | none =>
        intro pair member
        exact forall_mem_append.mpr ⟨low, high⟩ pair (permuted.mem_iff.mpr member)
  unfold resolveOne
  cases isC : p.constant? with
  | some CE =>
    obtain ⟨address, found, same⟩ := constant_address feasible isP isC
    simp only [found, ok_bind]
    exact yields_ok (resolveOneAt_found feasible same)
  | none =>
    obtain ⟨bytes, isIn, found⟩ := example_address feasible isP correct
    simp only [found, ok_bind]
    rcases last : (map.upTo (addr bytes).toNat).getLast? with _ | res
    · exact search _
    have isLow := mem_of_getLast? last
    by_cases inside : (addr bytes).toNat - res.mo.address.toNat < res.mo.size.toNat
    · simp only [if_pos inside]
      have lower := le_of_mem_upTo isLow
      refine yields_ok ⟨(map.upTo_sublist _).mem isLow, bytes, isIn, lower, ?_⟩
      omega
    · simp only [if_neg inside]
      exact search _

variable {pair : ObjectPair}

/-- A pointer that must be in one object is resolved to it. -/
theorem resolveOne_only (member : pair ∈ map.objects) (sized : pair.mo.size ≠ 0)
    (contains : ∀ bytes ∈ assignments manager, pair.mo.Contains (addr bytes).toNat) (fuel : Nat)
    : map.resolveOne options solver fuel manager p = .ok (some pair) := by
  unfold resolveOne
  cases isC : p.constant? with
  | some CE =>
    obtain ⟨address, found, same⟩ := constant_address feasible isP isC
    obtain ⟨bytes, isIn⟩ := feasible
    have one := resolveOneAt_eq_some.mpr ⟨member, same bytes isIn ▸ contains bytes isIn⟩
    simp only [found, ok_bind, one]
  | none =>
    obtain ⟨bytes, isIn, address⟩ := example_address feasible isP correct
    have found := resolveOneAt_eq_some.mpr ⟨member, contains bytes isIn⟩
    have positive : pair.mo.size.toNat ≠ 0 := fun none => sized (UInt32.toNat_inj.mp none)
    have last : (map.upTo (addr bytes).toNat).getLast? = some pair := by
      unfold resolveOneAt at found
      split at found
      · cases found
      next res isLast =>
        split at found
        · rwa [Option.some.inj found] at isLast
        · cases found
    obtain ⟨lower, upper⟩ := contains bytes isIn
    simp only [address, ok_bind, last]
    rw [if_pos (by omega)]

omit correct feasible isP

/-- The resolution list has the objects that the pointer can point to. -/
structure Resolved (map : MemoryMap context) (manager : ConstraintManager)
    (addr : Assignment → BitVec context.pointerWidth) (rl : ResolutionList)
    : Prop where
  nodup : rl.Nodup
  listed : ∀ pair ∈ rl, pair ∈ map.objects
  complete : ∀ pair ∈ map.objects, pair ∈ rl ↔ MayContain manager addr pair

/-- The only object that is pointed to is enough. -/
theorem resolved_only (feasible : (assignments manager).Nonempty) (member : pair ∈ map.objects)
    (contains : ∀ bytes ∈ assignments manager, pair.mo.Contains (addr bytes).toNat)
    : Resolved map manager addr [pair] where
  nodup := nodup_singleton pair
  listed other isIt := mem_singleton.mp isIt ▸ member
  complete other isOther := by
    rw [mem_singleton]
    constructor
    · intro same
      obtain ⟨bytes, isIn⟩ := feasible
      exact ⟨bytes, isIn, same ▸ contains bytes isIn⟩
    · intro may
      obtain ⟨bytes, isIn, inOther⟩ := may
      exact contains_unique isOther member inOther (contains bytes isIn)

include correct feasible isP

/-- Without a limit on their number, all objects that the pointer can point to are found. -/
theorem resolve_yields
    : Yields (fun fuel => map.resolve options solver fuel manager p 0) fun result =>
        result.2 = false ∧ Resolved map manager addr result.1 := by
  unfold resolve
  cases isC : p.constant? with
  | some CE =>
    obtain ⟨address, found, same⟩ := constant_address feasible isP isC
    simp only [found, ok_bind]
    refine yields_ok ⟨rfl, ?_⟩
    have one : Found manager addr map.objects (map.resolveOneAt address) :=
      resolveOneAt_found feasible same
    cases isOne : map.resolveOneAt address with
    | none =>
      rw [isOne] at one
      exact ⟨nodup_nil, nofun, fun pair member => iff_of_false nofun (one pair member)⟩
    | some pair =>
      obtain ⟨member, contains⟩ := resolveOneAt_eq_some.mp isOne
      exact resolved_only feasible member fun bytes isIn => (same bytes isIn).symm ▸ contains
  | none =>
    obtain ⟨bytes, -, found⟩ := example_address feasible isP correct
    simp only [found, ok_bind]
    obtain ⟨withinLow, orderedLow⟩ := map.down (addr bytes).toNat
    obtain ⟨withinHigh, orderedHigh⟩ := map.up (addr bytes).toNat
    have permuted := map.perm_objects (addr bytes).toNat
    refine (searchDown_yields correct feasible isP withinLow [] orderedLow).bind
      fun result down => ?_
    cases down with
    | only pair member contains =>
      have isObject := permuted.subset (mem_append_left _ member)
      exact yields_ok ⟨rfl, resolved_only feasible isObject contains⟩
    | exhausted low sublistLow allLow =>
      refine (searchUp_yields correct feasible isP withinHigh ([] ++ low) orderedHigh).bind
        fun result up => ?_
      cases up with
      | only pair member contains =>
        have isObject := permuted.subset (mem_append_right _ member)
        exact yields_ok ⟨rfl, resolved_only feasible isObject contains⟩
      | exhausted high sublistHigh allHigh =>
        have sublist := sublistLow.append sublistHigh
        refine yields_ok ⟨rfl, sublist.nodup (permuted.nodup_iff.mpr map.objects_nodup),
          fun pair isIt => permuted.subset (sublist.mem isIt), fun pair member => ?_⟩
        constructor
        · intro isFound
          rcases mem_append.mp isFound with isLow | isHigh
          · exact (allLow pair (sublistLow.mem isLow)).mp isLow
          · exact (allHigh pair (sublistHigh.mem isHigh)).mp isHigh
        · intro may
          rcases mem_append.mp (permuted.mem_iff.mpr member) with isLow | isHigh
          · exact mem_append_left high ((allLow pair isLow).mpr may)
          · exact mem_append_right _ ((allHigh pair isHigh).mpr may)

end MemoryMap

end Checks

end Woodpecker.Execution
