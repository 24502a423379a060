import Woodpecker.Execution.MergeSound
import Woodpecker.Library.Runs

/-! Address spaces that share object states.

A copy of an address space shares all object states with the original, and both get a key that
no object state has. An address space writes to an object state that has its key, and to a copy
of any other. So what is written in one address space is not seen in another.
-/

namespace Woodpecker.Execution

open Library List Option

namespace AddressSpace

def bindObject (space : AddressSpace) (heap : Heap ObjectState) (mo : MemoryObject) (ref : Nat)
    : Except Fault (Heap ObjectState × AddressSpace) := do
  let os ← deref heap ref
  -- object already has owner
  if os.copyOnWriteOwner ≠ 0 then .error .assertion
  else
    .ok (heap.write ref (some { os with copyOnWriteOwner := space.cowKey }),
      { space with objects := space.objects.assign mo ref })

def unbindObject (space : AddressSpace) (mo : MemoryObject) : AddressSpace :=
  { space with objects := space.objects.erase mo }

/-- The key that the copy constructor gives to both the original and the copy. -/
def nextKey (b : AddressSpace) : AddressSpace :=
  { b with cowKey := (b.cowKey + 1) % 2 ^ 32 }

end AddressSpace

/-- The object states and the address spaces that have been made. -/
structure Spaces where
  heap : Heap ObjectState
  spaces : List AddressSpace

/-- What is done, in which address space. -/
inductive SpaceCall where
  | construct
  | bindObject (space : Nat) (mo : MemoryObject) (ref : Nat)
  | unbindObject (space : Nat) (mo : MemoryObject)
  | copy (space : Nat)
  | write (space : Nat) (mo : MemoryObject)

def SpaceCall.space : SpaceCall → Option Nat
  | .construct => none
  | .bindObject space _ _ | .unbindObject space _ | .copy space | .write space _ => some space

namespace Spaces

variable {state after : Spaces} {s t ref : Nat}

/-- The object state that an address space reads. -/
def object (state : Spaces) (s : Nat) (mo : MemoryObject) : Option ObjectState :=
  state.spaces[s]?.bind fun space => (space.findObject mo).bind state.heap.read

def cowKey (state : Spaces) (s : Nat) : Nat :=
  state.spaces[s]?.elim 0 AddressSpace.cowKey

def copyOnWriteOwner (state : Spaces) (ref : Nat) : Nat :=
  (state.heap.read ref).elim 0 ObjectState.copyOnWriteOwner

def Holds (state : Spaces) (s ref : Nat) : Prop :=
  ∃ space mo, state.spaces[s]? = some space ∧ space.findObject mo = some ref

/-- A key does not overflow. A write gets the object that is bound writeable and leaves the
owner as it is.
-/
inductive Step : Spaces → SpaceCall → Spaces → Prop
  | construct (state : Spaces) (os : ObjectState) (fresh : os.copyOnWriteOwner = 0)
    : Step state .construct { state with heap := state.heap.push os }
  | bindObject {state : Spaces} {s ref : Nat} {space space' : AddressSpace} {mo : MemoryObject}
    {heap : Heap ObjectState} (isSpace : state.spaces[s]? = some space)
    (bound : space.bindObject state.heap mo ref = .ok (heap, space'))
    : Step state (.bindObject s mo ref) ⟨heap, state.spaces.set s space'⟩
  | unbindObject {state : Spaces} {s : Nat} {space : AddressSpace} (mo : MemoryObject)
    (isSpace : state.spaces[s]? = some space)
    : Step state (.unbindObject s mo)
        { state with spaces := state.spaces.set s (space.unbindObject mo) }
  | copy {state : Spaces} {s : Nat} {space : AddressSpace}
    (isSpace : state.spaces[s]? = some space) (small : space.cowKey + 1 < 2 ^ 32)
    : Step state (.copy s)
        { state with spaces := state.spaces.set s space.nextKey ++ [space.nextKey] }
  | write {state : Spaces} {s ref wref : Nat} {space space' : AddressSpace} {mo : MemoryObject}
    {heap : Heap ObjectState} {wos written : ObjectState}
    (isSpace : state.spaces[s]? = some space) (bound : space.findObject mo = some ref)
    (got : space.getWriteable state.heap mo ref = .ok (heap, space', wref))
    (found : heap.read wref = some wos)
    (kept : written.copyOnWriteOwner = wos.copyOnWriteOwner)
    : Step state (.write s mo) ⟨heap.write wref (some written), state.spaces.set s space'⟩

/-- Who owns what. -/
structure Owned (state : Spaces) : Prop where
  keys : ∀ s < state.spaces.length, 0 < state.cowKey s
  owners : ∀ {s ref}, state.Holds s ref
    → 0 < state.copyOnWriteOwner ref ∧ state.copyOnWriteOwner ref ≤ state.cowKey s
  alone : ∀ {s t ref}, state.Holds s ref → state.Holds t ref
    → state.copyOnWriteOwner ref = state.cowKey s → s = t

/-- A step of one address space: a cell that it holds afterwards it held before, or it owns the
cell and no one held it. Cells that others hold are as they were.
-/
structure Local (state after : Spaces) (s : Nat) : Prop where
  keys : ∀ t, after.cowKey t = state.cowKey t
  others : ∀ t, t ≠ s → after.spaces[t]? = state.spaces[t]?
  holds : ∀ ref, after.Holds s ref → state.Holds s ref
    ∨ after.copyOnWriteOwner ref = state.cowKey s ∧ ∀ t, ¬ state.Holds t ref
  owners : ∀ ref, 0 < state.copyOnWriteOwner ref
    → after.copyOnWriteOwner ref = state.copyOnWriteOwner ref
  cells : ∀ t ref, t ≠ s → state.Holds t ref → after.heap.read ref = state.heap.read ref

theorem Local.holds_cases (moved : Local state after s) (holds : after.Holds t ref)
    : state.Holds t ref
      ∨ t = s ∧ after.copyOnWriteOwner ref = state.cowKey s ∧ ∀ u, ¬ state.Holds u ref := by
  by_cases same : t = s
  · subst same
    exact (moved.holds ref holds).imp_right fun new => ⟨rfl, new⟩
  obtain ⟨space, mo, isSpace, found⟩ := holds
  rw [moved.others t same] at isSpace
  exact .inl ⟨space, mo, isSpace, found⟩

theorem Local.owned (owned : state.Owned) (moved : Local state after s)
    (exists_ : s < state.spaces.length) (size : after.spaces.length = state.spaces.length)
    : after.Owned where
  keys t inside := by
    rw [moved.keys]
    exact owned.keys t (size ▸ inside)
  owners {t ref} holds := by
    rw [moved.keys]
    rcases moved.holds_cases holds with old | ⟨rfl, own, -⟩
    · obtain ⟨positive, le⟩ := owned.owners old
      rw [moved.owners ref positive]
      exact ⟨positive, le⟩
    · rw [own]
      exact ⟨owned.keys t exists_, le_rfl⟩
  alone {t u ref} holds holds' own := by
    rcases moved.holds_cases holds with old | ⟨rfl, -, none⟩
    · rw [moved.keys, moved.owners ref (owned.owners old).1] at own
      rcases moved.holds_cases holds' with old' | ⟨-, -, none⟩
      · exact owned.alone old old' own
      · exact absurd old (none t)
    · rcases moved.holds_cases holds' with old' | ⟨rfl, -, -⟩
      · exact absurd old' (none u)
      · rfl

variable {space space' : AddressSpace} {heap : Heap ObjectState} {wref : Nat}

theorem copyOnWriteOwner_eq {os : ObjectState} (read : state.heap.read ref = some os)
    : state.copyOnWriteOwner ref = os.copyOnWriteOwner := by
  rw [copyOnWriteOwner, read, elim_some]

/-- What an object is bound to after it has been bound to a cell. -/
theorem findObject_assign {mo mo' : MemoryObject} {r : Nat}
    (found : AddressSpace.findObject { space with objects := space.objects.assign mo wref } mo'
      = some r)
    : r = wref ∨ space.findObject mo' = some r := by
  have assigned := (Table.find?_assign space.objects mo wref mo').symm.trans found
  split at assigned
  · exact .inl (some.inj assigned).symm
  · exact .inr assigned

/-- The address spaces after a copy. -/
theorem copied_at {other : AddressSpace}
    (isOther : (state.spaces.set s space.nextKey ++ [space.nextKey])[t]? = some other)
    : other = space.nextKey ∨ t ≠ s ∧ state.spaces[t]? = some other := by
  rw [getElem?_append, getElem?_set] at isOther
  split at isOther
  · split at isOther
    · exact .inl (some.inj (ite_none_right_eq_some.mp isOther).2).symm
    next apart => exact .inr ⟨Ne.symm apart, isOther⟩
  · exact .inl (mem_singleton.mp (mem_of_getElem? isOther))

section

variable (owned : state.Owned) (isSpace : state.spaces[s]? = some space)
include isSpace

/-- An address space is replaced by one with the same key. -/
theorem cowKey_set (key : space'.cowKey = space.cowKey)
    : cowKey ⟨heap, state.spaces.set s space'⟩ t = state.cowKey t := by
  obtain ⟨inside, -⟩ := List.getElem?_eq_some_iff.mp isSpace
  unfold cowKey
  by_cases same : s = t
  · subst same
    rw [getElem?_set_self inside, isSpace]
    exact key
  · rw [getElem?_set_ne same]

theorem cowKey_eq : state.cowKey s = space.cowKey := by
  rw [cowKey, isSpace, elim_some]

/-- What the new address space holds is bound in it. -/
theorem holds_set (holds : Holds ⟨heap, state.spaces.set s space'⟩ s ref)
    : ∃ mo, space'.findObject mo = some ref := by
  obtain ⟨here, mo, isHere, found⟩ := holds
  obtain ⟨inside, -⟩ := List.getElem?_eq_some_iff.mp isSpace
  cases (getElem?_set_self inside).symm.trans isHere
  exact ⟨mo, found⟩

theorem local_unbindObject (mo : MemoryObject)
    : Local state { state with spaces := state.spaces.set s (space.unbindObject mo) } s where
  keys t := cowKey_set isSpace rfl
  others t other := getElem?_set_ne (Ne.symm other)
  holds r holds := by
    obtain ⟨mo', found⟩ := holds_set isSpace holds
    refine .inl ⟨space, mo', isSpace, ?_⟩
    have erased := (Table.find?_erase space.objects mo mo').symm.trans found
    split at erased
    · cases erased
    · exact erased
  owners _ _ := rfl
  cells _ _ _ _ := rfl

include owned

/-- One cell is bound and written. It was free, or the address space owned it. -/
theorem local_of_cell (key : space'.cowKey = space.cowKey)
    (finds : ∀ mo r, space'.findObject mo = some r → r = wref ∨ space.findObject mo = some r)
    (others : ∀ r, r ≠ wref → heap.read r = state.heap.read r)
    (owner : copyOnWriteOwner ⟨heap, state.spaces.set s space'⟩ wref = space.cowKey)
    (free : state.copyOnWriteOwner wref = 0
      ∨ state.Holds s wref ∧ state.copyOnWriteOwner wref = space.cowKey)
    : Local state ⟨heap, state.spaces.set s space'⟩ s where
  keys t := cowKey_set isSpace key
  others t other := getElem?_set_ne (Ne.symm other)
  holds r holds := by
    obtain ⟨mo, found⟩ := holds_set isSpace holds
    rcases finds mo r found with rfl | old
    · rcases free with zero | ⟨holds, -⟩
      · refine .inr ⟨owner.trans (cowKey_eq isSpace).symm, fun t holds => ?_⟩
        exact absurd zero (owned.owners holds).1.ne'
      · exact .inl holds
    · exact .inl ⟨space, mo, isSpace, old⟩
  owners r positive := by
    by_cases same : r = wref
    · subst same
      rcases free with zero | ⟨-, own⟩
      · exact absurd zero positive.ne'
      · exact owner.trans own.symm
    · exact congrArg (Option.elim · 0 ObjectState.copyOnWriteOwner) (others r same)
  cells t r apart holds := by
    refine others r fun same => ?_
    subst same
    rcases free with zero | ⟨mine, own⟩
    · exact absurd zero (owned.owners holds).1.ne'
    · exact apart (owned.alone mine holds (own.trans (cowKey_eq isSpace).symm)).symm

theorem local_bindObject {mo : MemoryObject}
    (bound : space.bindObject state.heap mo ref = .ok (heap, space'))
    : Local state ⟨heap, state.spaces.set s space'⟩ s := by
  obtain ⟨os, isOs, rest⟩ := bind_eq_ok.mp bound
  have read := deref_eq_ok.mp isOs
  have inside := Heap.lt_of_read read
  split at rest
  · cases rest
  next free =>
    cases rest
    refine local_of_cell owned isSpace rfl (fun _ _ => findObject_assign) (fun r other => ?_) ?_ ?_
    · rw [Heap.read_write inside, if_neg other]
    · rw [copyOnWriteOwner, Heap.read_write inside, if_pos rfl, elim_some]
    · exact .inl ((copyOnWriteOwner_eq read).trans (not_not.mp free))

theorem local_write {mo : MemoryObject} {wos written : ObjectState}
    (bound : space.findObject mo = some ref)
    (got : space.getWriteable state.heap mo ref = .ok (heap, space', wref))
    (found : heap.read wref = some wos) (kept : written.copyOnWriteOwner = wos.copyOnWriteOwner)
    : Local state ⟨heap.write wref (some written), state.spaces.set s space'⟩ s := by
  have owner (own : wos.copyOnWriteOwner = space.cowKey)
      : copyOnWriteOwner ⟨heap.write wref (some written), state.spaces.set s space'⟩ wref
        = space.cowKey :=
    (copyOnWriteOwner_eq ((Heap.read_write (Heap.lt_of_read found) _ _).trans
      (if_pos rfl))).trans (kept.trans own)
  have others (r : Nat) (other : r ≠ wref)
      : (heap.write wref (some written)).read r = heap.read r := by
    rw [Heap.read_write (Heap.lt_of_read found), if_neg other]
  obtain ⟨os, isOs, rest⟩ := bind_eq_ok.mp got
  split at rest
  · cases rest
  split at rest
  next own =>
    cases rest
    cases (deref_eq_ok.mp isOs).symm.trans found
    refine local_of_cell owned isSpace rfl (fun _ _ => .inr) others (owner own.symm) ?_
    exact .inr ⟨⟨space, mo, isSpace, bound⟩, (copyOnWriteOwner_eq found).trans own.symm⟩
  cases rest
  have isCopy := (Heap.read_push state.heap _ _).symm.trans found
  rw [if_pos rfl] at isCopy
  cases isCopy
  refine local_of_cell owned isSpace rfl (fun _ _ => findObject_assign) (fun r other => ?_)
    (owner rfl) (.inl ?_)
  · rw [others r other, Heap.read_push, if_neg other]
  · simp [copyOnWriteOwner, Heap.read]

/-- The original and the copy have a new key, so that neither owns anything. -/
theorem copy_owned (small : space.cowKey + 1 < 2 ^ 32)
    : Owned { state with spaces := state.spaces.set s space.nextKey ++ [space.nextKey] } := by
  have newKey : space.nextKey.cowKey = state.cowKey s + 1 := by
    rw [cowKey_eq isSpace]
    exact Nat.mod_eq_of_lt small
  -- What is held afterwards was held by one whose key was no greater, and, with a new key,
  -- smaller.
  have held {t r : Nat} (holds : Holds
      { state with spaces := state.spaces.set s space.nextKey ++ [space.nextKey] } t r)
      : cowKey { state with spaces := state.spaces.set s space.nextKey ++ [space.nextKey] } t
          = state.cowKey s + 1 ∧ state.Holds s r
        ∨ cowKey { state with spaces := state.spaces.set s space.nextKey ++ [space.nextKey] } t
          = state.cowKey t ∧ t ≠ s ∧ state.Holds t r := by
    obtain ⟨other, mo, isOther, found⟩ := holds
    rcases copied_at isOther with rfl | ⟨apart, old⟩
    · exact .inl ⟨(cowKey_eq isOther).trans newKey, space, mo, isSpace, found⟩
    · exact .inr ⟨(cowKey_eq isOther).trans (cowKey_eq old).symm, apart, other, mo, old, found⟩
  refine ⟨fun t inside => ?_, fun holds => ?_, fun holds holds' own => ?_⟩
  · obtain ⟨other, isOther⟩ : ∃ other,
        (state.spaces.set s space.nextKey ++ [space.nextKey])[t]? = some other :=
      ⟨_, getElem?_eq_getElem inside⟩
    rw [cowKey_eq isOther]
    rcases copied_at isOther with rfl | ⟨-, old⟩
    · omega
    · rw [← cowKey_eq old]
      exact owned.keys t (List.getElem?_eq_some_iff.mp old).1
  · rcases held holds with ⟨key, old⟩ | ⟨key, -, old⟩
    · rw [key]
      exact (owned.owners old).imp_right Nat.le_succ_of_le
    · rw [key]
      exact owned.owners old
  · rcases held holds with ⟨key, old⟩ | ⟨key, apart, old⟩
    · have le := (owned.owners old).2
      exact absurd (own.trans key) (Nat.ne_of_lt (Nat.lt_succ_of_le le))
    rcases held holds' with ⟨-, old'⟩ | ⟨-, -, old'⟩
    · exact absurd (owned.alone old old' (own.trans key)) apart
    · exact owned.alone old old' (own.trans key)

end

/-- A new object state is not held yet. -/
theorem Owned.ne_length (owned : state.Owned) (holds : state.Holds t ref)
    : ref ≠ state.heap.length := by
  rintro rfl
  have positive := (owned.owners holds).1
  simp [copyOnWriteOwner, Heap.read] at positive

/-- A new object state is held by no one. -/
theorem construct_owned (owned : state.Owned) (os : ObjectState)
    : Owned { state with heap := state.heap.push os } := by
  have same {t r : Nat} (holds : state.Holds t r)
      : copyOnWriteOwner { state with heap := state.heap.push os } r = state.copyOnWriteOwner r :=
    congrArg (Option.elim · 0 ObjectState.copyOnWriteOwner)
      ((Heap.read_push _ _ _).trans (if_neg (owned.ne_length holds)))
  refine ⟨owned.keys, fun holds => ?_, fun holds holds' own => ?_⟩
  · rw [same holds]
    exact owned.owners holds
  · rw [same holds] at own
    exact owned.alone holds holds' own

/-- A new address space has the key 1. -/
def start : Spaces :=
  ⟨[], [⟨1, []⟩]⟩

theorem start_owned : start.Owned := by
  have none {s ref : Nat} (holds : start.Holds s ref) : False := by
    obtain ⟨space, mo, isSpace, found⟩ := holds
    cases mem_singleton.mp (mem_of_getElem? isSpace)
    cases found
  refine ⟨fun s inside => ?_, fun holds => (none holds).elim, fun holds => (none holds).elim⟩
  cases Nat.lt_one_iff.mp inside
  decide

/-- An address space reads what it read if its cells are as they were. -/
theorem object_eq (same : after.spaces[t]? = state.spaces[t]?)
    (cells : ∀ ref, state.Holds t ref → after.heap.read ref = state.heap.read ref)
    (mo : MemoryObject)
    : after.object t mo = state.object t mo := by
  unfold object
  rw [same]
  cases isSpace : state.spaces[t]? with
  | none => rfl
  | some space =>
    simp only [bind_some]
    cases found : space.findObject mo with
    | none => rfl
    | some ref => exact cells ref ⟨space, mo, isSpace, found⟩

/-- A step keeps the owners, and what is read in another address space. -/
theorem Step.isolated {call : SpaceCall} (owned : state.Owned) (step : Step state call after)
    : after.Owned ∧ ∀ t < state.spaces.length, call.space ≠ some t
        → ∀ mo, after.object t mo = state.object t mo := by
  have of_local {s : Nat} {space : AddressSpace} (isSpace : state.spaces[s]? = some space)
      (size : after.spaces.length = state.spaces.length) (moved : Local state after s)
      : after.Owned ∧ ∀ t < state.spaces.length, some s ≠ some t
          → ∀ mo, after.object t mo = state.object t mo := by
    refine ⟨moved.owned owned (List.getElem?_eq_some_iff.mp isSpace).1 size, ?_⟩
    intro t _ apart
    have other : t ≠ s := fun same => apart (congrArg some same.symm)
    exact object_eq (moved.others t other) fun ref => moved.cells t ref other
  cases step with
  | construct os fresh =>
    refine ⟨construct_owned owned os, fun t _ _ => object_eq rfl fun ref holds => ?_⟩
    rw [Heap.read_push, if_neg (owned.ne_length holds)]
  | bindObject isSpace bound =>
    exact of_local isSpace length_set (local_bindObject owned isSpace bound)
  | unbindObject mo isSpace =>
    exact of_local isSpace length_set (local_unbindObject isSpace mo)
  | @copy s space isSpace small =>
    refine ⟨copy_owned owned isSpace small, fun t inside apart => ?_⟩
    have other : s ≠ t := fun same => apart (congrArg some same)
    refine object_eq ?_ fun _ _ => rfl
    exact (getElem?_append_left (length_set.symm ▸ inside)).trans (getElem?_set_ne other)
  | write isSpace bound got found kept =>
    exact of_local isSpace length_set (local_write owned isSpace bound got found kept)

end Spaces

end Woodpecker.Execution
