import Woodpecker.Expressions.Rebuild

/-! The contents of memory objects and accesses to them at constant offsets.

A byte is in the concrete store, in the cache of symbolic bytes, or only in the list of
updates. A write at a constant offset goes to one of the first two, so that reading the byte
gives back the expression that was written, and no other byte changes.
-/

namespace Woodpecker.Execution

open Expressions Library ConstantExpr List

/-- What a pointer to a memory object stands for. -/
structure MemoryObject where
  id : Nat
  address : UInt64
  size : UInt32
deriving DecidableEq, Repr

/-- The two fields of `updates` are `root`, null until the array is needed, and `head`. -/
structure ObjectState where
  copyOnWriteOwner : Nat
  object : MemoryObject
  concreteStore : List (BitVec 8)
  concreteMask : Option (List Bool)
  flushMask : Option (List Bool)
  knownSymbolics : Option (List (Option Expr))
  root : Option Expressions.Array
  head : UpdateNode
  size : UInt32
  readOnly : Bool

namespace ObjectState

def isByteConcrete (os : ObjectState) (offset : Nat) : Bool :=
  match os.concreteMask with
  | none => true
  | some mask => mask.getD offset false

def isByteFlushed (os : ObjectState) (offset : Nat) : Bool :=
  match os.flushMask with
  | none => false
  | some mask => !mask.getD offset false

/-- The cached expression of a byte, if `isByteKnownSymbolic`. -/
def knownSymbolic (os : ObjectState) (offset : Nat) : Option Expr :=
  match os.knownSymbolics with
  | none => none
  | some known => known.getD offset none

def markByteConcrete (os : ObjectState) (offset : Nat) : ObjectState :=
  { os with concreteMask := os.concreteMask.map fun mask => mask.set offset true }

def markByteSymbolic (os : ObjectState) (offset : Nat) : ObjectState :=
  let mask := os.concreteMask.getD (List.replicate os.size.toNat true)
  { os with concreteMask := some (mask.set offset false) }

def markByteUnflushed (os : ObjectState) (offset : Nat) : ObjectState :=
  { os with flushMask := os.flushMask.map fun mask => mask.set offset true }

def setKnownSymbolic (os : ObjectState) (offset : Nat) (value : Option Expr) : ObjectState :=
  match os.knownSymbolics, value with
  | some known, value => { os with knownSymbolics := some (known.set offset value) }
  | none, some value =>
    let known := List.replicate os.size.toNat none
    { os with knownSymbolics := some (known.set offset (some value)) }
  | none, none => os

-- The list of updates

/-- The writes of a list of updates, the oldest first. -/
def writes : UpdateNode → List (Expr × Expr)
  | .null => []
  | .node index value next => writes next ++ [(index, value)]

/-- Concrete writes go into the constant array, up to the first that is not concrete. -/
def pullConcrete (contents : List (BitVec 8))
    : List (Expr × Expr) → Except Fault (List (BitVec 8) × List (Expr × Expr))
  | [] => .ok (contents, [])
  | (index, value) :: rest =>
    match index.constant?, value.constant? with
    | some Index, some Value => do
      let i ← Index.getZExtValue 64
      if i < contents.length then
        pullConcrete (contents.set i (Value.value.setWidth 8)) rest
      else .error .badPointer
    | _, _ => .ok (contents, (index, value) :: rest)

/-- The updates with their array. A constant array is created when it is first needed; here
it is created at each use, and the number in its name and address is that of the object it
belongs to.
-/
def getUpdates (os : ObjectState) (self : Nat)
    : Except Fault (Expressions.Array × UpdateNode) :=
  match os.root with
  | some root => .ok (root, os.head)
  | none => do
    let (contents, rest) ←
      pullConcrete (List.replicate os.size.toNat 0#8) (writes os.head)
    if sized : contents.length = os.size.toNat then
      let array : Expressions.Array := {
        address := self
        name := "const_arr" ++ toString self
        size := os.size
        constantValues := contents
        sized := .inr sized }
      .ok (array, rest.foldl (fun head write => .node write.1 write.2 head) .null)
    else .error .assertion

-- Accesses

def read8 (options : Options) (os : ObjectState) (self offset : Nat) : Except Fault Expr :=
  if os.isByteConcrete offset then do
    let c ← ConstantExpr.create (os.concreteStore.getD offset 0#8).toNat 8
    .ok (.constant c)
  else
    match os.knownSymbolic offset with
    | some value => .ok value
    | none =>
      -- unflushed byte without cache value
      if !os.isByteFlushed offset then .error .assertion
      else do
        let (root, head) ← os.getUpdates self
        let index ← ConstantExpr.create offset 32
        ReadExpr.create options root head (.constant index)

/-- `write8` of a byte. -/
def write8Concrete (os : ObjectState) (offset : Nat) (value : BitVec 8) : ObjectState :=
  let os := { os with concreteStore := os.concreteStore.set offset value }
  ((os.setKnownSymbolic offset none).markByteConcrete offset).markByteUnflushed offset

def write8 (os : ObjectState) (offset : Nat) (value : Expr) : Except Fault ObjectState :=
  match value.constant? with
  | some CE => do
    -- can happen when ExtractExpr special cases
    let byte ← CE.getZExtValue 8
    .ok (os.write8Concrete offset (BitVec.ofNat 8 byte))
  | none =>
    .ok (((os.setKnownSymbolic offset (some value)).markByteSymbolic offset).markByteUnflushed
      offset)

/-- The position of byte `i` of `NumBytes`. -/
def byteIndex (isLittleEndian : Bool) (NumBytes i : Nat) : Nat :=
  if isLittleEndian then i else NumBytes - i - 1

/-- `write16`, `write32` and `write64`. -/
def writeWord (isLittleEndian : Bool) (NumBytes : Nat) (os : ObjectState) (offset value : Nat)
    : ObjectState :=
  (List.range NumBytes).foldl (fun os i =>
    os.write8Concrete (offset + byteIndex isLittleEndian NumBytes i)
      (BitVec.ofNat 8 (value >>> (8 * i)))) os

/-- The bytes of a symbolic value, one by one. -/
def writeBytes (options : Options) (isLittleEndian : Bool) (fuel NumBytes : Nat)
    (os : ObjectState) (offset : Nat) (value : Expr)
    : Except Fault ObjectState :=
  (List.range NumBytes).foldlM (fun os i => do
    let byte ← ExtractExpr.create options fuel value (8 * i) 8
    os.write8 (offset + byteIndex isLittleEndian NumBytes i) byte) os

/-- The case of `write` for values that are not constants of at most 64 bits. -/
def writeSymbolic (options : Options) (isLittleEndian : Bool) (fuel : Nat) (os : ObjectState)
    (offset : Nat) (value : Expr)
    : Except Fault ObjectState :=
  let w := value.getWidth
  -- Treat bool specially, it is the only non-byte sized write we allow.
  if w = 1 then do os.write8 offset (← ZExtExpr.create options fuel value 8)
  else
    let NumBytes := w / 8
    if w = NumBytes * 8 then os.writeBytes options isLittleEndian fuel NumBytes offset value
    else .error .assertion

def write (options : Options) (isLittleEndian : Bool) (fuel : Nat) (os : ObjectState)
    (offset : Nat) (value : Expr)
    : Except Fault ObjectState :=
  match value.constant? with
  | some CE =>
    if CE.width ≤ 64 then do
      let val ← CE.getZExtValue 64
      match CE.width with
      | 1 | 8 => .ok (os.write8Concrete offset (BitVec.ofNat 8 val))
      | 16 => .ok (os.writeWord isLittleEndian 2 offset val)
      | 32 => .ok (os.writeWord isLittleEndian 4 offset val)
      | 64 => .ok (os.writeWord isLittleEndian 8 offset val)
      | _ => .error .assertion
    else os.writeSymbolic options isLittleEndian fuel offset value
  | none => os.writeSymbolic options isLittleEndian fuel offset value

-- Bytes after a write

/-- An expression of one byte. -/
def IsByte (e : Expr) : Prop :=
  e.Typed ∧ e.getWidth = 8

/-- The arrays are as long as the object, and what is cached and written are bytes. -/
structure Valid (os : ObjectState) : Prop where
  store : os.concreteStore.length = os.size.toNat
  mask : ∀ mask, os.concreteMask = some mask → mask.length = os.size.toNat
  flush : ∀ mask, os.flushMask = some mask → mask.length = os.size.toNat
  known : ∀ known, os.knownSymbolics = some known →
    known.length = os.size.toNat ∧ ∀ e, some e ∈ known → IsByte e
  updates : os.head.Typed

variable {options : Options} {os os' : ObjectState} {self offset j : Nat} {value : Expr}

/-- What reading one byte depends on. -/
structure SameByte (os os' : ObjectState) (j : Nat) : Prop where
  concrete : os'.isByteConcrete j = os.isByteConcrete j
  store : os'.concreteStore.getD j 0#8 = os.concreteStore.getD j 0#8
  known : os'.knownSymbolic j = os.knownSymbolic j
  flushed : os'.isByteFlushed j = os.isByteFlushed j
  updates : os'.getUpdates = os.getUpdates

theorem SameByte.read8 (same : SameByte os os' j)
    : os'.read8 options self j = os.read8 options self j := by
  unfold ObjectState.read8
  rw [same.concrete, same.store, same.known, same.flushed, same.updates]

theorem SameByte.trans {os'' : ObjectState} (one : SameByte os os' j) (two : SameByte os' os'' j)
    : SameByte os os'' j where
  concrete := two.concrete.trans one.concrete
  store := two.store.trans one.store
  known := two.known.trans one.known
  flushed := two.flushed.trans one.flushed
  updates := two.updates.trans one.updates

theorem getD_set_ne {α : Type} {list : List α} {value default : α} (other : j ≠ offset)
    : (list.set offset value).getD j default = list.getD j default := by
  simp [getD, getElem?_set_ne (Ne.symm other)]

theorem getD_set_self {α : Type} {list : List α} {value default : α} (inside : offset < list.length)
    : (list.set offset value).getD offset default = value := by
  simp [getD, inside]

section

variable (other : j ≠ offset)
include other

theorem sameByte_markByteConcrete : SameByte os (os.markByteConcrete offset) j where
  concrete := by
    unfold isByteConcrete markByteConcrete
    cases os.concreteMask with
    | none => rfl
    | some mask => exact getD_set_ne other
  store := rfl
  known := rfl
  flushed := rfl
  updates := rfl

theorem sameByte_markByteSymbolic (inside : j < os.size.toNat)
    : SameByte os (os.markByteSymbolic offset) j where
  concrete := by
    unfold isByteConcrete markByteSymbolic
    cases os.concreteMask with
    | none =>
      simp only [Option.getD_none]
      rw [getD_set_ne other]
      simp [getD, inside]
    | some mask => exact getD_set_ne other
  store := rfl
  known := rfl
  flushed := rfl
  updates := rfl

theorem sameByte_markByteUnflushed : SameByte os (os.markByteUnflushed offset) j where
  concrete := rfl
  store := rfl
  known := rfl
  flushed := by
    unfold isByteFlushed markByteUnflushed
    cases os.flushMask with
    | none => rfl
    | some mask =>
      simp only [Option.map_some]
      rw [getD_set_ne other]
  updates := rfl

theorem sameByte_setKnownSymbolic {value : Option Expr}
    : SameByte os (os.setKnownSymbolic offset value) j := by
  unfold setKnownSymbolic
  split
  next value known has =>
    refine ⟨rfl, rfl, ?_, rfl, rfl⟩
    simp only [knownSymbolic, has]
    exact getD_set_ne other
  next value has =>
    refine ⟨rfl, rfl, ?_, rfl, rfl⟩
    simp only [knownSymbolic, has]
    rw [getD_set_ne other, getD, getElem?_replicate]
    split <;> rfl
  · exact ⟨rfl, rfl, rfl, rfl, rfl⟩

end

/-- One byte of the object has been written. -/
structure Written (options : Options) (os os' : ObjectState) (offset : Nat) (value : Expr)
    : Prop where
  valid : os'.Valid
  object : os'.object = os.object
  size : os'.size = os.size
  here : ∀ self, os'.read8 options self offset = .ok value
  others : ∀ j, j ≠ offset → j < os.size.toNat → SameByte os os' j

theorem knownSymbolic_set (valid : os.Valid) (inside : offset < os.size.toNat) (value : Option Expr)
    : (os.setKnownSymbolic offset value).knownSymbolic offset = value := by
  unfold setKnownSymbolic
  split
  next value known has =>
    exact getD_set_self (by rw [(valid.known known has).1]; exact inside)
  next value has =>
    exact getD_set_self (by simpa using inside)
  next has => simp only [knownSymbolic, has]

/-- Caching a byte, or forgetting one, touches nothing but the cache. -/
theorem setKnownSymbolic_eq (os : ObjectState) (offset : Nat) (value : Option Expr)
    : ∃ known, os.setKnownSymbolic offset value = { os with knownSymbolics := known } := by
  unfold setKnownSymbolic
  split
  · exact ⟨_, rfl⟩
  · exact ⟨_, rfl⟩
  · exact ⟨os.knownSymbolics, rfl⟩

section

variable (valid : os.Valid)
include valid

theorem valid_setKnownSymbolic {value : Option Expr} (byte : ∀ e, value = some e → IsByte e)
    : (os.setKnownSymbolic offset value).Valid := by
  unfold setKnownSymbolic
  split
  next value known has =>
    refine { valid with known := ?_ }
    rintro _ ⟨⟩
    obtain ⟨length, bytes⟩ := valid.known known has
    refine ⟨by simpa using length, fun e member => ?_⟩
    rcases mem_or_eq_of_mem_set member with old | new
    · exact bytes e old
    · exact byte e new.symm
  next value has =>
    refine { valid with known := ?_ }
    rintro _ ⟨⟩
    refine ⟨by simp, fun e member => ?_⟩
    rcases mem_or_eq_of_mem_set member with old | new
    · cases (mem_replicate.mp old).2
    · exact byte e new.symm
  · exact valid

theorem valid_markByteConcrete : (os.markByteConcrete offset).Valid := by
  refine { valid with mask := ?_ }
  intro mask has
  obtain ⟨old, had, rfl⟩ := Option.map_eq_some_iff.mp has
  exact length_set.trans (valid.mask old had)

theorem valid_markByteSymbolic : (os.markByteSymbolic offset).Valid := by
  refine { valid with mask := ?_ }
  rintro _ ⟨⟩
  refine length_set.trans ?_
  cases has : os.concreteMask with
  | none => exact length_replicate
  | some old => exact valid.mask old has

theorem valid_markByteUnflushed : (os.markByteUnflushed offset).Valid := by
  refine { valid with flush := ?_ }
  intro mask has
  obtain ⟨old, had, rfl⟩ := Option.map_eq_some_iff.mp has
  exact length_set.trans (valid.flush old had)

theorem written_concrete (inside : offset < os.size.toNat) (byte : BitVec 8)
    : Written options os (os.write8Concrete offset byte) offset (.constant ⟨8, byte⟩) := by
  have stored : ({ os with concreteStore := os.concreteStore.set offset byte }
      : ObjectState).Valid := { valid with store := by simpa using valid.store }
  obtain ⟨known, cached⟩ := setKnownSymbolic_eq
    { os with concreteStore := os.concreteStore.set offset byte } offset none
  refine {
    valid := valid_markByteUnflushed (valid_markByteConcrete (valid_setKnownSymbolic stored
      (by simp)))
    object := ?_, size := ?_, here := ?_, others := ?_ }
  · simp only [write8Concrete, cached]
    rfl
  · simp only [write8Concrete, cached]
    rfl
  · intro self
    have concrete : (os.write8Concrete offset byte).isByteConcrete offset = true := by
      simp only [write8Concrete, cached, isByteConcrete, markByteUnflushed, markByteConcrete]
      cases has : os.concreteMask with
      | none => rfl
      | some mask => exact getD_set_self (by rw [valid.mask mask has]; exact inside)
    have store : (os.write8Concrete offset byte).concreteStore.getD offset 0#8 = byte := by
      simp only [write8Concrete, cached, markByteUnflushed, markByteConcrete]
      exact getD_set_self (by rw [valid.store]; exact inside)
    unfold read8
    rw [if_pos concrete, store, create, if_pos byte.isLt]
    simp [alloc]
  · intro j other inside
    have first : SameByte os { os with concreteStore := os.concreteStore.set offset byte } j :=
      ⟨rfl, getD_set_ne other, rfl, rfl, rfl⟩
    exact ((first.trans (sameByte_setKnownSymbolic other)).trans
      (sameByte_markByteConcrete other)).trans (sameByte_markByteUnflushed other)

theorem isByteConcrete_markByteSymbolic (inside : offset < os.size.toNat)
    : (os.markByteSymbolic offset).isByteConcrete offset = false := by
  refine getD_set_self ?_
  cases has : os.concreteMask with
  | none => simpa using inside
  | some mask =>
    rw [Option.getD_some, valid.mask mask has]
    exact inside

theorem write8_ensures (inside : offset < os.size.toNat) (byte : IsByte value)
    : Ensures (os.write8 offset value) fun os' => Written options os os' offset value := by
  unfold write8
  split
  next CE isC =>
    obtain rfl := constant?_eq_some.mp isC
    obtain ⟨-, width⟩ := byte
    obtain ⟨w, v⟩ := CE
    obtain rfl : w = 8 := width
    refine (getZExtValue_ensures 8).bind fun val known => .of_ok ?_
    rw [known, BitVec.ofNat_toNat, BitVec.setWidth_eq]
    exact written_concrete valid inside v
  obtain ⟨known, cached⟩ := setKnownSymbolic_eq os offset (some value)
  refine .of_ok {
    valid := valid_markByteUnflushed (valid_markByteSymbolic (valid_setKnownSymbolic valid
      (by rintro _ ⟨⟩; exact byte)))
    object := ?_, size := ?_, here := ?_, others := ?_ }
  · rw [cached]
    rfl
  · rw [cached]
    rfl
  · intro self
    have symbolic := isByteConcrete_markByteSymbolic
      (valid_setKnownSymbolic valid (by rintro _ ⟨⟩; exact byte))
      (show offset < (os.setKnownSymbolic offset (some value)).size.toNat by
        rw [cached]
        exact inside)
    have found := knownSymbolic_set valid inside (some value)
    unfold read8
    rw [if_neg (by simpa [markByteUnflushed, isByteConcrete] using symbolic)]
    simp only [show ∀ changed : ObjectState, ((changed.markByteSymbolic offset).markByteUnflushed
      offset).knownSymbolic offset = changed.knownSymbolic offset from fun _ => rfl, found]
  · intro j other inside
    have first : SameByte os (os.setKnownSymbolic offset (some value)) j :=
      sameByte_setKnownSymbolic other
    have second := first.trans (sameByte_markByteSymbolic other (by rw [cached]; exact inside))
    exact second.trans (sameByte_markByteUnflushed other)

end

/-- A write of one byte, however it is stored. -/
theorem write_ensures (isLittleEndian : Bool) (fuel : Nat) (valid : os.Valid)
    (inside : offset < os.size.toNat) (byte : IsByte value)
    : Ensures (os.write options isLittleEndian fuel offset value) fun os' =>
        Written options os os' offset value := by
  unfold write
  split
  next CE isC =>
    obtain rfl := constant?_eq_some.mp isC
    obtain ⟨-, width⟩ := byte
    obtain ⟨w, v⟩ := CE
    obtain rfl : w = 8 := width
    refine (getZExtValue_ensures 64).bind fun val known => .of_ok ?_
    rw [known, BitVec.ofNat_toNat, BitVec.setWidth_eq]
    exact written_concrete valid inside v
  unfold writeSymbolic
  simp only [byte.2]
  unfold writeBytes
  have only : range (8 / 8) = [0] := rfl
  rw [only, foldlM_cons]
  refine Ensures.bind ?_ fun os' written => .of_ok written
  have position : offset + byteIndex isLittleEndian (8 / 8) 0 = offset := by
    cases isLittleEndian <;> rfl
  rw [position]
  have whole : Ensures (ExtractExpr.create options fuel value (8 * 0) 8) fun e => e = value := by
    cases fuel with
    | zero =>
      exact ensures_error _
    | succ fuel =>
      rw [ExtractExpr.create]
      unfold ExtractExpr_create
      simp only [byte.2]
      exact .of_ok rfl
  refine whole.bind fun e same => ?_
  subst same
  exact write8_ensures valid inside byte

-- Bytes before a write

/-- Writes of bytes at array indices. -/
def Writes (written : List (Expr × Expr)) : Prop :=
  ∀ write ∈ written, (write.1.Typed ∧ write.1.getWidth = 32) ∧ IsByte write.2

theorem writes_typed (head : UpdateNode) (typed : head.Typed) : Writes (writes head) := by
  cases head with
  | null =>
    intro write member
    cases member
  | node index value next =>
    obtain ⟨typedI, widthI, typedV, widthV, typedN⟩ := typed
    exact forall_mem_append.mpr ⟨writes_typed next typedN,
      forall_mem_singleton.mpr ⟨⟨typedI, widthI⟩, typedV, widthV⟩⟩
termination_by structural head

/-- Pulling off concrete writes, by induction on the writes. -/
theorem pullConcrete_ensures (written : List (Expr × Expr)) (contents : List (BitVec 8))
    (typed : Writes written)
    : Ensures (pullConcrete contents written) fun result => Writes result.2 := by
  induction written generalizing contents with
  | nil => exact .of_ok typed
  | cons write rest ih =>
    unfold pullConcrete
    split
    · refine ensures_bind fun i _ => ?_
      split
      · exact ih _ fun write later => typed write (by simp [later])
      · exact ensures_error _
    · exact .of_ok typed

theorem foldl_typed (written : List (Expr × Expr)) (typed : Writes written) (head : UpdateNode)
    (before : head.Typed)
    : (written.foldl (fun head write => .node write.1 write.2 head) head).Typed := by
  induction written generalizing head with
  | nil => exact before
  | cons write rest ih =>
    obtain ⟨index, value⟩ := typed write (by simp)
    refine ih (fun write later => typed write (by simp [later])) _ ?_
    exact ⟨index.1, index.2, value.1, value.2, before⟩

/-- The array that is created has the same bytes under every name. -/
theorem getUpdates_ensures (valid : os.Valid) (inside : offset < os.size.toNat) (self other : Nat)
    : Ensures (os.getUpdates self) fun result =>
        result.2.Typed
        ∧ ∃ root, os.getUpdates other = .ok (root, result.2)
          ∧ ∀ bytes i, root.byte bytes i = result.1.byte bytes i := by
  unfold getUpdates
  split
  next root _ => exact .of_ok ⟨valid.updates, root, rfl, fun _ _ => rfl⟩
  refine ensures_bind fun pulled known => ?_
  have typed := pullConcrete_ensures _ _ (writes_typed os.head valid.updates) pulled known
  rw [known]
  obtain ⟨contents, rest⟩ := pulled
  simp only [ok_bind]
  split
  next sized =>
    refine .of_ok ⟨foldl_typed rest typed .null trivial, _, rfl, fun bytes i => ?_⟩
    have constant : contents ≠ [] := by
      rintro rfl
      simp at sized
      omega
    simp [Array.byte, Array.isSymbolicArray, constant]
  · exact ensures_error _

theorem isByte_knownSymbolic (valid : os.Valid) (found : os.knownSymbolic offset = some value)
    : IsByte value := by
  unfold knownSymbolic at found
  split at found
  · cases found
  next known has =>
    refine (valid.known known has).2 value ?_
    rw [getD, Option.getD_eq_iff] at found
    rcases found with inside | ⟨-, none⟩
    · exact mem_of_getElem? inside
    · cases none

/-- A byte that can be read is one, and read for another object it has the same value. -/
theorem read8_ensures (off : options.ConstArrayOpt = false) (valid : os.Valid)
    (inside : offset < os.size.toNat) (self other : Nat)
    : Ensures (os.read8 options self offset) fun e =>
        IsByte e ∧ ∃ e', os.read8 options other offset = .ok e' ∧ ∀ bytes, e.Same bytes e' := by
  unfold read8
  split
  · refine ensures_bind fun c created => .of_ok ⟨⟨trivial, ?_⟩, _, by rw [created]; rfl, ?_⟩
    · unfold create at created
      split at created <;> cases created
      rfl
    · exact fun bytes => ⟨rfl, rfl⟩
  split
  next value found =>
    exact .of_ok ⟨isByte_knownSymbolic valid found, value, rfl, fun bytes => ⟨rfl, rfl⟩⟩
  split
  · exact ensures_error _
  refine (getUpdates_ensures valid inside self other).bind fun result made => ?_
  obtain ⟨root, head⟩ := result
  obtain ⟨typed, root', made', same⟩ := made
  rw [made']
  refine ensures_bind fun index created => ?_
  rw [ok_bind, created]
  obtain ⟨w, i⟩ := index
  obtain rfl : w = 32 := by
    unfold create at created
    split at created <;> cases created
    rfl
  intro e returned
  have builds (root : Array) (bytes : Assignment)
      : Builds options bytes (ReadExpr.create options root head (.constant ⟨32, i⟩))
          (head.byte bytes root i) :=
    ReadExpr.create_builds ⟨typed, by simp [off]⟩ (denotes_constant options bytes ⟨32, i⟩)
      (by simp [off])
  obtain ⟨e', returned'⟩ := (builds root' fun _ _ => 0#8).returns
  have isE (bytes : Assignment) := (builds root bytes).makes e returned
  have byte := isE fun _ _ => 0#8
  refine ⟨⟨byte.typed, byte.width⟩, e', returned', fun bytes => (isE bytes).same ?_⟩
  rw [UpdateNode.byte_congr (fun i => (same bytes i).symm)]
  exact (builds root' bytes).makes e' returned'

end ObjectState

end Woodpecker.Execution
