import Woodpecker.Execution.Merge

/-! What a merged state stands for.

Under an assignment of the merged state's path condition exactly one of the two path
conditions holds, and the conjunction of the constraints of the first state that the second
lacks tells which. Every register and byte is selected by that conjunction, so it has the
value it had in the state whose path was taken.
-/

namespace Woodpecker.Execution

open Expressions Library AddressSpace List ObjectState Option

-- Selections

theorem Same.refl (bytes : Assignment) (e : Expr) : e.Same bytes e :=
  ⟨rfl, rfl⟩

/-- Two expressions that a third is the same as. -/
theorem Same.of_left {bytes : Assignment} {e old new : Expr} (one : e.Same bytes old)
    (two : e.Same bytes new)
    : old.Same bytes new := by
  obtain ⟨width, bits⟩ := one
  refine ⟨two.1.trans width.symm, ?_⟩
  rw [width, two.2, bits]

/-- An expression with the value of one of two others, by whether a condition holds. -/
structure Chooses (inA ea eb e : Expr) : Prop where
  typed : e.Typed
  width : e.getWidth = ea.getWidth
  yes : ∀ bytes, inA.Holds bytes → ea.Same bytes e
  no : ∀ bytes, ¬ inA.Holds bytes → eb.Same bytes e

variable {options : Options}

theorem SelectExpr.create_widths {c t f : Expr}
    : Ensures (SelectExpr.create options c t f) fun _ => t.getWidth = f.getWidth := by
  unfold SelectExpr.create
  split
  · exact ensures_error _
  split
  · exact ensures_error _
  next same => exact fun _ _ => not_not.mp same

theorem create_chooses (off : options.ConstArrayOpt = false) {inA ea eb : Expr} (cond : inA.Boolean)
    (typedA : ea.Typed) (typedB : eb.Typed)
    : Ensures (SelectExpr.create options inA ea eb) (Chooses inA ea eb) := by
  intro e created
  have same : ea.getWidth = eb.getWidth := SelectExpr.create_widths e created
  have isA (bytes : Assignment) : Denotes options bytes ea (ea.bits bytes ea.getWidth) :=
    ⟨typedA, rfl, by simp [off], rfl⟩
  have isB (bytes : Assignment) : Denotes options bytes eb (eb.bits bytes ea.getWidth) :=
    ⟨typedB, same.symm, by simp [off], rfl⟩
  have isE (bytes : Assignment) : Denotes options bytes e
      (if inA.bits bytes 1 = 1#1 then ea.bits bytes ea.getWidth else eb.bits bytes ea.getWidth) :=
    (SelectExpr.create_builds (cond.denotes off bytes) (isA bytes) (isB bytes)).makes e created
  refine {
    typed := (isE fun _ _ => 0#8).typed
    width := (isE fun _ _ => 0#8).width
    yes := fun bytes holds => (isA bytes).same ?_
    no := fun bytes fails => (isB bytes).same ?_ }
  · have made := isE bytes
    rwa [if_pos (show inA.bits bytes 1 = 1#1 from holds)] at made
  · have made := isE bytes
    rwa [if_neg (show ¬ inA.bits bytes 1 = 1#1 from fails)] at made

-- Bytes before and after

theorem deref_eq_ok {heap : Heap ObjectState} {ref : Nat} {os : ObjectState}
    : deref heap ref = .ok os ↔ heap.read ref = some os := by
  unfold deref
  cases heap.read ref with
  | none => simp
  | some found => simp

namespace AddressSpace

/-- A byte of an object. -/
def byte (options : Options) (heap : Heap ObjectState) (space : AddressSpace)
    (mo : MemoryObject) (i : Nat)
    : Except Fault Expr :=
  match space.findObject mo with
  | none => .error .badPointer
  | some ref => do
    let os ← deref heap ref
    os.read8 options ref i

theorem byte_eq {options : Options} {heap : Heap ObjectState} {space : AddressSpace}
    {mo : MemoryObject} {ref i : Nat} {os : ObjectState} (bound : space.findObject mo = some ref)
    (cell : heap.read ref = some os)
    : space.byte options heap mo i = os.read8 options ref i := by
  unfold byte
  rw [bound]
  simp only [deref_eq_ok.mpr cell, ok_bind]

end AddressSpace

/-- A byte can be read if and only if it could be before, and under every assignment of the
path it has its earlier value.
-/
structure EvaluatesTo (path : Assignment → Prop) (after before : Except Fault Expr) : Prop where
  value : ∀ e, after = .ok e → ∃ old, before = .ok old ∧ ∀ bytes, path bytes → old.Same bytes e
  reads : ∀ old, before = .ok old → ∃ e, after = .ok e

theorem EvaluatesTo.refl (path : Assignment → Prop) (byte : Except Fault Expr)
    : EvaluatesTo path byte byte where
  value e read := ⟨e, read, fun bytes _ => Same.refl bytes e⟩
  reads old read := ⟨old, read⟩

variable {path : Assignment → Prop}

theorem EvaluatesTo.of_ok {old e : Expr} (same : ∀ bytes, path bytes → old.Same bytes e)
    : EvaluatesTo path (.ok e) (.ok old) where
  value := by
    rintro _ ⟨⟩
    exact ⟨old, rfl, same⟩
  reads _ _ := ⟨e, rfl⟩

theorem EvaluatesTo.mono {narrower : Assignment → Prop} {after before : Except Fault Expr}
    (evaluates : EvaluatesTo path after before) (implies : ∀ bytes, narrower bytes → path bytes)
    : EvaluatesTo narrower after before where
  value e read := by
    obtain ⟨old, readBefore, same⟩ := evaluates.value e read
    exact ⟨old, readBefore, fun bytes holds => same bytes (implies bytes holds)⟩
  reads := evaluates.reads

namespace ExecutionState

variable {Checkers : Type} {setting : Setting} {inA : Expr} {a b : ExecutionState Checkers}
  {mo : MemoryObject} {heap : Heap ObjectState} {space : AddressSpace} {found : List MemoryObject}

-- Registers

/-- The value of a register, if it is set. -/
def register (s : ExecutionState Checkers) (tid : Int) (frame i : Nat) : Option Expr := do
  let thr ← s.threads.find? tid
  let sf ← thr.stack[frame]?
  let cell ← sf.locals[i]?
  cell

def LocalsTyped (locals : List (Option Expr)) : Prop :=
  ∀ e, some e ∈ locals → e.Typed

section

variable (off : setting.options.ConstArrayOpt = false) (cond : inA.Boolean)
include off cond

/-- The registers of one frame, by induction on them. -/
theorem mergeLocals_ensures (localsA localsB : List (Option Expr)) (typedA : LocalsTyped localsA)
    (typedB : LocalsTyped localsB)
    : Ensures (mergeLocals setting inA localsA localsB) fun merged =>
        ∀ (i : Nat) (ea eb : Expr), localsA[i]? = some (some ea) → localsB[i]? = some (some eb)
          → ∃ e, merged[i]? = some (some e) ∧ Chooses inA ea eb e := by
  fun_induction mergeLocals with
  | case1 av restA bv restB ih =>
    have created := create_chooses off cond (typedA av (by simp)) (typedB bv (by simp))
    refine created.bind fun merged chooses => ?_
    have later := ih (fun e member => typedA e (by simp [member]))
      (fun e member => typedB e (by simp [member]))
    refine later.bind fun rest chosen => .of_ok fun i ea eb isA isB => ?_
    cases i with
    | zero =>
      cases isA
      cases isB
      exact ⟨merged, rfl, chooses⟩
    | succ i => exact chosen i ea eb isA isB
  | case2 av restA bv restB notBoth ih =>
    have later := ih (fun e member => typedA e (by simp [member]))
      (fun e member => typedB e (by simp [member]))
    refine later.bind fun rest chosen => .of_ok fun i ea eb isA isB => ?_
    cases i with
    | zero =>
      cases isA
      cases isB
      exact (notBoth _ _ rfl rfl).elim
    | succ i => exact chosen i ea eb isA isB
  | case3 localsA localsB _ short =>
    refine .of_ok fun i ea eb isA isB => ?_
    cases localsA with
    | nil => cases isA
    | cons av restA =>
      cases localsB with
      | nil => cases isB
      | cons bv restB => exact (short _ _ _ _ rfl rfl).elim

def StackTyped (stack : List StackFrame) : Prop :=
  ∀ frame ∈ stack, LocalsTyped frame.locals

/-- Two frames and the merged one, register by register. -/
def FrameMerged (inA : Expr) (fa fb fm : StackFrame) : Prop :=
  ∀ (i : Nat) (ea eb : Expr), fa.locals[i]? = some (some ea) → fb.locals[i]? = some (some eb)
    → ∃ e, fm.locals[i]? = some (some e) ∧ Chooses inA ea eb e

theorem mergeFrame_ensures {fa fb : StackFrame} (typedA : LocalsTyped fa.locals)
    (typedB : LocalsTyped fb.locals)
    : Ensures (mergeFrame setting inA fa fb) (FrameMerged inA fa fb) := by
  unfold mergeFrame
  split
  · exact ensures_error _
  next locals returned =>
    exact .of_ok (mergeLocals_ensures off cond fa.locals fb.locals typedA typedB locals returned)

def StackMerged (inA : Expr) (stackA stackB merged : List StackFrame) : Prop :=
  ∀ (frame : Nat) (fa fb : StackFrame), stackA[frame]? = some fa → stackB[frame]? = some fb
    → ∃ fm, merged[frame]? = some fm ∧ FrameMerged inA fa fb fm

/-- The frames of one thread, by induction on them. -/
theorem mergeStack_ensures (stackA stackB : List StackFrame) (typedA : StackTyped stackA)
    (typedB : StackTyped stackB)
    : Ensures (mergeStack setting inA stackA stackB) (StackMerged inA stackA stackB) := by
  fun_induction mergeStack with
  | case1 af restA bf restB ih =>
    have first := mergeFrame_ensures off cond (typedA af (by simp)) (typedB bf (by simp))
    refine first.bind fun frame merged => ?_
    have later := ih (fun frame member => typedA frame (by simp [member]))
      (fun frame member => typedB frame (by simp [member]))
    refine later.bind fun rest merging => .of_ok fun i fa fb isA isB => ?_
    cases i with
    | zero =>
      cases isA
      cases isB
      exact ⟨frame, rfl, merged⟩
    | succ i => exact merging i fa fb isA isB
  | case2 stackA stackB short =>
    refine .of_ok fun i fa fb isA isB => ?_
    cases stackA with
    | nil => cases isA
    | cons af restA =>
      cases stackB with
      | nil => cases isB
      | cons bf restB => exact (short _ _ _ _ rfl rfl).elim

/-- Every register that is set holds a well typed expression. -/
def RegistersTyped (s : ExecutionState Checkers) : Prop :=
  ∀ entry ∈ s.threads, StackTyped entry.2.stack

def ThreadMerged (inA : Expr) (b : ExecutionState Checkers) (tid : Int)
    (thr merged : ThreadState)
    : Prop :=
  ∀ b_thr, b.threads.find? tid = some b_thr → StackMerged inA thr.stack b_thr.stack merged.stack

def ThreadsMerged (inA : Expr) (b : ExecutionState Checkers)
    (threads merged : Table Int ThreadState)
    : Prop :=
  List.Forall₂ (fun old new => new.1 = old.1 ∧ ThreadMerged inA b old.1 old.2 new.2)
    threads merged

theorem mergeThreads_ensures (typedA : a.RegistersTyped) (typedB : b.RegistersTyped)
    : Ensures (a.threads.mapM (mergeThread setting inA b)) (ThreadsMerged inA b a.threads) := by
  refine mapM_ensures _ fun entry member => ?_
  unfold mergeThread
  split
  · exact ensures_error _
  next b_thr found =>
    have merged := mergeStack_ensures off cond entry.2.stack b_thr.stack (typedA entry member)
      (typedB _ (Table.mem_of_find? found))
    refine merged.bind fun stack merged => .of_ok ⟨rfl, fun again foundAgain => ?_⟩
    obtain rfl := mem_unique found foundAgain
    exact merged

omit off cond in
/-- A register that is set in both states. -/
theorem register_merged {m : ExecutionState Checkers}
    (threads : ThreadsMerged inA b a.threads m.threads) {tid : Int} {frame i : Nat} {ea eb : Expr}
    (isA : a.register tid frame i = some ea) (isB : b.register tid frame i = some eb)
    : ∃ e, m.register tid frame i = some e ∧ Chooses inA ea eb e := by
  simp only [register, bind_eq_bind, bind_eq_some_iff] at isA isB
  obtain ⟨thrA, foundA, fa, frameA, cellA, localA, rfl⟩ := isA
  obtain ⟨thrB, foundB, fb, frameB, cellB, localB, rfl⟩ := isB
  obtain ⟨thrM, foundM, frames⟩ := Table.find?_forall₂ (ThreadMerged inA b) threads foundA
  obtain ⟨fm, frameM, locals⟩ := frames thrB foundB frame fa fb frameA frameB
  obtain ⟨e, localM, chooses⟩ := locals i ea eb localA localB
  refine ⟨e, ?_, chooses⟩
  simp [register, foundM, frameM, localM]

-- Bytes

/-- An object state of a memory object. -/
structure Represents (os : ObjectState) (mo : MemoryObject) : Prop where
  object : os.object = mo
  size : os.size = mo.size
  valid : os.Valid

/-- A byte of two object states and of the one they are merged into. -/
def ByteMerged (options : Options) (inA : Expr) (os : ObjectState) (ref : Nat)
    (otherOS : ObjectState) (other : Nat) (wos : ObjectState) (wref i : Nat)
    : Prop :=
  ∃ ea eb e, os.read8 options ref i = .ok ea ∧ otherOS.read8 options other i = .ok eb
    ∧ wos.read8 options wref i = .ok e ∧ Chooses inA ea eb e

/-- The loop over the bytes, by induction on how many have been merged: those behind are
merged, and those ahead are as they were.
-/
theorem mergeBytes_ensures {wos otherOS : ObjectState} (represents : Represents wos mo)
    (others : Represents otherOS mo) (wref other : Nat)
    : Ensures (mergeBytes setting inA wos wref otherOS other mo.size) fun wos' =>
        Represents wos' mo ∧ ∀ i < mo.size.toNat,
          ByteMerged setting.options inA wos wref otherOS other wos' wref i := by
  suffices loop : ∀ n ≤ mo.size.toNat, Ensures ((range n).foldlM (fun wos i => do
      let av ← wos.read8 setting.options wref i
      let bv ← otherOS.read8 setting.options other i
      let merged ← SelectExpr.create setting.options inA av bv
      wos.write setting.options setting.isLittleEndian setting.fuel i merged) wos) fun wos' =>
        Represents wos' mo
        ∧ (∀ i < n, ByteMerged setting.options inA wos wref otherOS other wos' wref i)
        ∧ ∀ i, n ≤ i → i < mo.size.toNat → SameByte wos wos' i by
    exact (loop _ (Nat.le_refl _)).mono fun wos' done => ⟨done.1, done.2.1⟩
  intro n
  induction n with
  | zero =>
    intro _
    exact .of_ok ⟨represents, nofun, fun i _ _ => ⟨rfl, rfl, rfl, rfl, rfl⟩⟩
  | succ n ih =>
    intro bound
    rw [range_succ, foldlM_append]
    refine (ih (by omega)).bind fun now state => ?_
    obtain ⟨represents, behind, ahead⟩ := state
    simp only [foldlM_cons, foldlM_nil, pure_eq_ok, bind_ok]
    have insideN : n < now.size.toNat := by
      rw [represents.size]
      omega
    have insideO : n < otherOS.size.toNat := by
      rw [others.size]
      omega
    refine ensures_bind fun av readA => ?_
    refine ensures_bind fun bv readB => ?_
    obtain ⟨byteA, -⟩ := read8_ensures off represents.valid insideN wref wref av readA
    obtain ⟨byteB, -⟩ := read8_ensures off others.valid insideO other other bv readB
    refine (create_chooses off cond byteA.1 byteB.1).bind fun merged chooses => ?_
    have byte : IsByte merged := ⟨chooses.typed, chooses.width.trans byteA.2⟩
    have writes : Ensures
        (now.write setting.options setting.isLittleEndian setting.fuel n merged) fun wos' =>
          Written setting.options now wos' n merged :=
      write_ensures _ _ represents.valid insideN byte
    refine writes.mono fun wos' written => ?_
    refine ⟨⟨written.object.trans represents.object, written.size.trans represents.size,
      written.valid⟩, ?_, ?_⟩
    · intro i less
      rcases Nat.lt_succ_iff_lt_or_eq.mp less with earlier | rfl
      · obtain ⟨ea, eb, e, isA, isB, isE, chosen⟩ := behind i earlier
        refine ⟨ea, eb, e, isA, isB, ?_, chosen⟩
        rw [(written.others i (by omega) (by omega)).read8, isE]
      · refine ⟨av, bv, merged, ?_, readB, written.here wref, chooses⟩
        rw [← (ahead i (Nat.le_refl _) (by omega)).read8, readA]
    · intro i beyond inside
      refine (ahead i (by omega) inside).trans (written.others i (by omega) ?_)
      rw [represents.size]
      exact inside

/-- An object has been bound to a cell of its own, the one it had or a new one, and no other
cell or binding has changed.
-/
structure Placed (heap : Heap ObjectState) (space : AddressSpace) (mo : MemoryObject)
    (ref : Nat) (heap' : Heap ObjectState) (space' : AddressSpace) (wref : Nat)
    : Prop where
  cell : wref = ref ∨ wref = heap.length
  others : ∀ r, r ≠ wref → heap'.read r = heap.read r
  bound : ∀ mo', space'.findObject mo' = if mo' = mo then some wref else space.findObject mo'

omit off cond in
theorem getWriteable_ensures {ref : Nat} {os : ObjectState} (bound : space.findObject mo = some ref)
    (cell : heap.read ref = some os)
    : Ensures (space.getWriteable heap mo ref) fun result =>
        Placed heap space mo ref result.1 result.2.1 result.2.2
        ∧ ∃ owner, result.1.read result.2.2 = some { os with copyOnWriteOwner := owner } := by
  unfold getWriteable
  rw [deref_eq_ok.mpr cell, ok_bind]
  split
  · exact ensures_error _
  split
  · refine .of_ok ⟨⟨.inl rfl, fun _ _ => rfl, fun mo' => ?_⟩, os.copyOnWriteOwner, cell⟩
    split
    next same => rw [same, bound]
    · rfl
  refine .of_ok ⟨⟨.inr rfl, fun r other => ?_, fun mo' => ?_⟩, space.cowKey, ?_⟩
  · rw [Heap.read_push, if_neg other]
  · exact Table.find?_assign _ _ _ _
  · rw [Heap.read_push, if_pos rfl]

/-- One object: it is bound to a cell with its merged bytes. -/
structure ObjectMerged (options : Options) (inA : Expr) (heap : Heap ObjectState)
    (space : AddressSpace) (mo : MemoryObject) (ref : Nat) (os : ObjectState) (other : Nat)
    (otherOS : ObjectState) (heap' : Heap ObjectState) (space' : AddressSpace) (wref : Nat)
    (wos : ObjectState)
    : Prop where
  placed : Placed heap space mo ref heap' space' wref
  contents : heap'.read wref = some wos
  represents : Represents wos mo
  bytes : ∀ i < mo.size.toNat, ByteMerged options inA os ref otherOS other wos wref i

theorem mergeObject_ensures {ref other : Nat} {os otherOS : ObjectState}
    (boundA : space.findObject mo = some ref) (cellA : heap.read ref = some os)
    (representsA : Represents os mo)
    (boundB : b.addressSpace.findObject mo = some other) (cellB : heap.read other = some otherOS)
    (representsB : Represents otherOS mo)
    : Ensures (mergeObject setting inA b (heap, space) mo) fun memory =>
        ∃ wref wos, ObjectMerged setting.options inA heap space mo ref os other otherOS
          memory.1 memory.2 wref wos := by
  unfold mergeObject
  simp only [boundA, boundB]
  rw [deref_eq_ok.mpr cellA, ok_bind]
  split
  · exact ensures_error _
  rw [deref_eq_ok.mpr cellB, ok_bind]
  refine (getWriteable_ensures boundA cellA).bind fun result writeable => ?_
  obtain ⟨heap', space', wref⟩ := result
  obtain ⟨placed, owner, cell⟩ := writeable
  rw [deref_eq_ok.mpr cell, ok_bind]
  have copied : Represents { os with copyOnWriteOwner := owner } mo :=
    ⟨representsA.object, representsA.size, { representsA.valid with }⟩
  refine (mergeBytes_ensures off cond copied representsB wref other).bind fun wos merged =>
    .of_ok ⟨wref, wos, ?_⟩
  have inside := Heap.lt_of_read cell
  refine {
    placed := { placed with others := ?_ }
    contents := by rw [Heap.read_write inside, if_pos rfl]
    represents := merged.1
    bytes := ?_ }
  · intro r differ
    rw [Heap.read_write inside, if_neg differ, placed.others r differ]
  intro i less
  obtain ⟨ea, eb, e, isA, isB, isE, chooses⟩ := merged.2 i less
  -- The copy was read under its own reference, the object under another.
  have insideI : i < os.size.toNat := by
    rw [representsA.size]
    exact less
  obtain ⟨-, old, isOld, same⟩ :=
    read8_ensures off copied.valid insideI wref ref ea isA
  refine ⟨old, eb, e, isOld, isB, isE, ?_⟩
  exact { chooses with
    width := by
      rw [chooses.width]
      exact ((same fun _ _ => 0#8).1).symm
    yes := fun bytes holds => Same.of_left (same bytes) (chooses.yes bytes holds) }

-- The objects that differ

omit off cond in
/-- The walk over the objects of both states finds those bound to different cells, each
once.
-/
theorem mutated_spec (objectsA objectsB : Table MemoryObject Nat)
    (distinct : (objectsA.map Prod.fst).Nodup)
    : ∀ found, mutated objectsA objectsB = some found →
        found.Nodup ∧ ∀ mo, mo ∈ found ↔ objectsA.find? mo ≠ objectsB.find? mo := by
  fun_induction mutated with
  | case1 =>
    rintro _ ⟨⟩
    simp
  | case2 mo ai restA mo' bi restB differ => simp
  | case3 mo ai restA mo' bi restB same ih =>
    obtain rfl := not_not.mp same
    obtain ⟨absent, distinct⟩ := nodup_cons.mp distinct
    intro found walked
    obtain ⟨rest, walkedRest, rfl⟩ := map_eq_some_iff.mp walked
    obtain ⟨nodup, members⟩ := ih distinct rest walkedRest
    have keys := (isSome_mutated_iff restA restB).mp (by rw [walkedRest]; rfl)
    -- The first object is not met again.
    have later : mo ∉ rest := by
      rw [members mo, not_not, Table.find?_eq_none_of_notMem absent,
        Table.find?_eq_none_of_notMem (keys ▸ absent)]
    refine ⟨?_, fun other => ?_⟩
    · split
      · exact nodup_cons.mpr ⟨later, nodup⟩
      · exact nodup
    · rw [Table.find?_cons, Table.find?_cons]
      by_cases first : other = mo
      · subst first
        by_cases equal : ai = bi <;> simp [equal, later]
      · by_cases equal : ai = bi <;> simp [equal, first, members other]
  | case4 => simp

/-- Every object of the address space has its contents. -/
def Contents (heap : Heap ObjectState) (space : AddressSpace) : Prop :=
  ∀ mo ref, space.findObject mo = some ref
    → ∃ os, heap.read ref = some os ∧ Represents os mo

/-- In the middle of the loop over the objects that differ. -/
structure Merging (options : Options) (inA : Expr) (heap : Heap ObjectState)
    (a b : AddressSpace) (todo : List MemoryObject) (memory : Heap ObjectState × AddressSpace)
    : Prop where
  nodup : todo.Nodup
  differ : ∀ mo ∈ todo, a.findObject mo ≠ b.findObject mo
  contents : Contents memory.1 memory.2
  kept : ∀ mo ref, b.findObject mo = some ref → memory.1.read ref = heap.read ref
  untouched : ∀ mo ∈ todo, memory.2.findObject mo = a.findObject mo
    ∧ ∀ ref, a.findObject mo = some ref → memory.1.read ref = heap.read ref
  done : ∀ mo ∉ todo, ∀ i < mo.size.toNat,
    EvaluatesTo (inA.Holds ·) (memory.2.byte options memory.1 mo i) (a.byte options heap mo i)
    ∧ EvaluatesTo (¬ inA.Holds ·) (memory.2.byte options memory.1 mo i)
        (b.byte options heap mo i)

section Frame

omit off cond

variable {now now' : Heap ObjectState} {space space' : AddressSpace} {mo mo' : MemoryObject}
  {ref wref r : Nat} {os cell : ObjectState}

section

variable (placed : Placed now space mo ref now' space' wref)
include placed

/-- A cell that is not the object's is not the one that is written. -/
theorem Placed.apart (read : now.read r = some cell) (notRef : r ≠ ref)
    : now'.read r = now.read r := by
  refine placed.others r ?_
  rcases placed.cell with own | new
  · rwa [own]
  · rw [new]
    exact Nat.ne_of_lt (Heap.lt_of_read read)

/-- The cells of other objects stay as they are. -/
theorem Placed.foreign (own : now.read ref = some os) (represents : Represents os mo)
    (another : mo' ≠ mo) (read : now.read r = some cell) (other : Represents cell mo')
    : now'.read r = now.read r := by
  refine placed.apart read ?_
  rintro rfl
  obtain rfl := mem_unique own read
  exact another (other.object.symm.trans represents.object)

theorem Placed.unbound (another : mo' ≠ mo)
    : space'.findObject mo' = space.findObject mo' := by
  rw [placed.bound, if_neg another]

/-- So do their bytes. -/
theorem Placed.byte (own : now.read ref = some os) (represents : Represents os mo)
    (contents : Contents now space) (another : mo' ≠ mo) (options : Options) (i : Nat)
    : space'.byte options now' mo' i = space.byte options now mo' i := by
  cases found : space.findObject mo' with
  | none => simp only [AddressSpace.byte, placed.unbound another, found]
  | some r =>
    obtain ⟨cell, read, other⟩ := contents mo' r found
    have same := placed.foreign own represents another read other
    rw [byte_eq found read, byte_eq ((placed.unbound another).trans found) (same.trans read)]

end

end Frame

/-- One object of the loop. -/
theorem mergeObject_merging {a : AddressSpace} (contentsB : Contents heap b.addressSpace)
    {rest : List MemoryObject} {memory : Heap ObjectState × AddressSpace}
    (merging : Merging setting.options inA heap a b.addressSpace (mo :: rest) memory)
    : Ensures (mergeObject setting inA b memory mo)
        (Merging setting.options inA heap a b.addressSpace rest) := by
  obtain ⟨now, space⟩ := memory
  obtain ⟨absent, nodup⟩ := nodup_cons.mp merging.nodup
  obtain ⟨boundA, cellA⟩ := merging.untouched mo (by simp)
  cases foundA : space.findObject mo with
  | none =>
    unfold mergeObject
    simp only [foundA]
    exact ensures_error _
  | some ref =>
  cases foundB : b.addressSpace.findObject mo with
  | none =>
    unfold mergeObject
    simp only [foundA, foundB]
    exact ensures_error _
  | some other =>
  obtain ⟨os, readA, representsA⟩ := merging.contents mo ref foundA
  obtain ⟨otherOS, readB, representsB⟩ := contentsB mo other foundB
  have readNowB := (merging.kept mo other foundB).trans readB
  refine (mergeObject_ensures off cond foundA readA representsA foundB readNowB representsB).mono ?_
  rintro ⟨now', space'⟩ ⟨wref, wos, placed, contents, represents, bytes⟩
  rw [foundA] at boundA
  have foundNew : space'.findObject mo = some wref := by rw [placed.bound, if_pos rfl]
  refine {
    nodup := nodup
    differ := fun mo' later => merging.differ mo' (by simp [later])
    contents := ?_
    kept := ?_
    untouched := ?_
    done := ?_ }
  · intro mo' r found
    by_cases same : mo' = mo
    · subst same
      obtain rfl := mem_unique foundNew found
      exact ⟨wos, contents, represents⟩
    · obtain ⟨cell, read, its⟩ := merging.contents mo' r ((placed.unbound same).symm.trans found)
      exact ⟨cell, (placed.foreign readA representsA same read its).trans read, its⟩
  · intro mo' r found
    obtain ⟨cell, read, its⟩ := contentsB mo' r found
    have kept := merging.kept mo' r found
    refine Eq.trans ?_ kept
    by_cases same : mo' = mo
    · refine placed.apart (kept.trans read) ?_
      rintro rfl
      subst same
      exact merging.differ mo' (by simp) (boundA.symm.trans found.symm)
    · exact placed.foreign readA representsA same (kept.trans read) its
  · intro mo' later
    have another : mo' ≠ mo := by
      rintro rfl
      exact absent later
    obtain ⟨bound, cells⟩ := merging.untouched mo' (by simp [later])
    refine ⟨(placed.unbound another).trans bound, fun r found => ?_⟩
    obtain ⟨cell, read, its⟩ := merging.contents mo' r (bound.trans found)
    exact (placed.foreign readA representsA another read its).trans (cells r found)
  · intro mo' finished i less
    by_cases same : mo' = mo
    · subst same
      obtain ⟨ea, eb, e, isA, isB, isE, chooses⟩ := bytes i less
      have readBefore := (cellA ref boundA.symm).symm.trans readA
      rw [byte_eq foundNew contents, byte_eq boundA.symm readBefore,
        byte_eq foundB readB, isA, isB, isE]
      exact ⟨.of_ok chooses.yes, .of_ok chooses.no⟩
    · have bytesKept := placed.byte readA representsA merging.contents same setting.options i
      rw [bytesKept]
      exact merging.done mo' (by simp [same, finished]) i less

/-- The whole loop. -/
theorem mergeObjects_ensures
    (distinct : (a.addressSpace.objects.map Prod.fst).Nodup)
    (contentsA : Contents heap a.addressSpace) (contentsB : Contents heap b.addressSpace)
    (walked : mutated a.addressSpace.objects b.addressSpace.objects = some found)
    : Ensures (found.foldlM (mergeObject setting inA b) (heap, a.addressSpace))
        (Merging setting.options inA heap a.addressSpace b.addressSpace []) := by
  obtain ⟨nodup, members⟩ := mutated_spec _ _ distinct found walked
  refine foldlM_ensures (Merging setting.options inA heap a.addressSpace b.addressSpace) ?_
    (mergeObject_merging off cond contentsB)
  refine {
    nodup := nodup
    differ := fun mo member => (members mo).mp member
    contents := contentsA
    kept := fun _ _ _ => rfl
    untouched := fun _ _ => ⟨rfl, fun _ _ => rfl⟩
    done := fun mo same i _ => ?_ }
  have bound : a.addressSpace.findObject mo = b.addressSpace.findObject mo := by
    by_contra differ
    exact same ((members mo).mpr differ)
  have bytes : b.addressSpace.byte setting.options heap mo i
      = a.addressSpace.byte setting.options heap mo i := by
    simp only [byte, bound]
  rw [bytes]
  exact ⟨.refl _ _, .refl _ _⟩

end

-- Path conditions

variable {options : Options}

section

variable (off : options.ConstArrayOpt = false)
include off

theorem and_holds {l r : Expr} (left : l.Boolean) (right : r.Boolean)
    : Ensures (AndExpr.create l r) fun e =>
        e.Boolean ∧ ∀ bytes, e.Holds bytes ↔ l.Holds bytes ∧ r.Holds bytes := by
  intro e created
  have isE (bytes : Assignment) : Denotes options bytes e (l.bits bytes 1 &&& r.bits bytes 1) :=
    AndExpr.create_makes (left.denotes off bytes) (right.denotes off bytes) e created
  refine ⟨(isE fun _ _ => 0#8).boolean, fun bytes => ?_⟩
  rw [(isE bytes).holds_iff, oneBit_and]
  rfl

theorem or_holds {l r : Expr} (left : l.Boolean) (right : r.Boolean)
    : Ensures (OrExpr.create l r) fun e =>
        e.Boolean ∧ ∀ bytes, e.Holds bytes ↔ l.Holds bytes ∨ r.Holds bytes := by
  intro e created
  have isE (bytes : Assignment) : Denotes options bytes e (l.bits bytes 1 ||| r.bits bytes 1) :=
    OrExpr.create_makes (left.denotes off bytes) (right.denotes off bytes) e created
  refine ⟨(isE fun _ _ => 0#8).boolean, fun bytes => ?_⟩
  rw [(isE bytes).holds_iff, oneBit_or]
  rfl

theorem conjunction_ensures {suffix : List Expr} (booleans : ∀ e ∈ suffix, e.Boolean)
    : Ensures (conjunction suffix) fun e =>
        e.Boolean ∧ ∀ bytes, e.Holds bytes ↔ ∀ c ∈ suffix, c.Holds bytes := by
  have start : (Expr.constant (.alloc 1 1)).Boolean := ⟨trivial, rfl⟩
  have loop := foldlM_conjunction Expr.Boolean Expr.Boolean Expr.Holds Expr.Holds start booleans
    (and_holds off)
  refine loop.mono fun e made => ⟨made.1, fun bytes => ?_⟩
  rw [made.2 bytes]
  exact and_iff_right rfl

end

theorem addConstraint_holds (off : setting.options.ConstArrayOpt = false)
    {manager : ConstraintManager} {e : Expr} (boolean : manager.Boolean) (new : e.Boolean)
    : Ensures (manager.addConstraint setting.options setting.fuel e) fun after =>
        after.Boolean
        ∧ ∀ bytes, after.Satisfies bytes ↔ manager.Satisfies bytes ∧ e.Holds bytes := by
  intro after added
  have adds (bytes : Assignment) :=
    addConstraint_adds bytes off setting.fuel manager e boolean new after added
  exact ⟨(adds fun _ _ => 0#8).1, fun bytes => (adds bytes).2⟩

theorem addConstraints_ensures (off : setting.options.ConstArrayOpt = false)
    {common : List Expr} (booleans : ∀ e ∈ common, e.Boolean)
    : Ensures (common.foldlM (ConstraintManager.addConstraint setting.options setting.fuel) ⟨[]⟩)
        fun manager => manager.Boolean
          ∧ ∀ bytes, manager.Satisfies bytes ↔ ∀ c ∈ common, c.Holds bytes := by
  have nothing {P : Expr → Prop} : ∀ e ∈ (ConstraintManager.mk []).constraints, P e := nofun
  have loop := foldlM_conjunction ConstraintManager.Boolean Expr.Boolean
    ConstraintManager.Satisfies Expr.Holds nothing booleans (addConstraint_holds off)
  refine loop.mono fun manager made => ⟨made.1, fun bytes => ?_⟩
  rw [made.2 bytes]
  exact and_iff_right nothing

/-- The elements of a list are those in a part of it and those outside. -/
theorem forall_mem_split {P : Expr → Prop} {whole part : List Expr} (within : part ⊆ whole)
    : (∀ e ∈ whole, P e)
      ↔ (∀ e ∈ part, P e) ∧ ∀ e ∈ whole.filter (· ∉ part), P e := by
  constructor
  · exact fun all => ⟨fun e member => all e (within member),
      fun e member => all e (mem_of_mem_filter member)⟩
  · rintro ⟨inside, outside⟩ e member
    by_cases here : e ∈ part
    · exact inside e here
    · exact outside e (by simp [member, here])

-- Merged states

/-- The constraints are conditions, the registers and bytes are well typed, and every
object has contents of its own.
-/
structure WellFormed (heap : Heap ObjectState) (s : ExecutionState Checkers) : Prop where
  constraints : s.constraints.Boolean
  registers : s.RegistersTyped
  objects : (s.addressSpace.objects.map Prod.fst).Nodup
  contents : Contents heap s.addressSpace

/-- A state merged from two. Each path condition is the part that is common and the part
that is not.
-/
structure Merged (options : Options) (heap : Heap ObjectState) (a b : ExecutionState Checkers)
    (heap' : Heap ObjectState) (m : ExecutionState Checkers) (inA inB : Expr)
    (common : Assignment → Prop)
    : Prop where
  pathA : ∀ bytes, a.constraints.Satisfies bytes ↔ common bytes ∧ inA.Holds bytes
  pathB : ∀ bytes, b.constraints.Satisfies bytes ↔ common bytes ∧ inB.Holds bytes
  path : ∀ bytes, m.constraints.Satisfies bytes
    ↔ common bytes ∧ (inA.Holds bytes ∨ inB.Holds bytes)
  threads : ThreadsMerged inA b a.threads m.threads
  memory : Merging options inA heap a.addressSpace b.addressSpace [] (heap', m.addressSpace)

theorem mergeInto_ensures (off : setting.options.ConstArrayOpt = false)
    (wellFormedA : WellFormed heap a) (wellFormedB : WellFormed heap b)
    (walked : mutated a.addressSpace.objects b.addressSpace.objects = some found)
    : Ensures (mergeInto setting heap a b found) fun result =>
        ∃ inA inB common, Merged setting.options heap a b result.1 result.2 inA inB common := by
  unfold mergeInto
  -- The sets of constraints, and their common part.
  generalize listedA : setting.arrange a.constraints.constraints = setA
  generalize listedB : setting.arrange b.constraints.constraints = setB
  have memA (e : Expr) : e ∈ setA ↔ e ∈ a.constraints.constraints := by
    rw [← listedA, setting.mem_arrange]
  have memB (e : Expr) : e ∈ setB ↔ e ∈ b.constraints.constraints := by
    rw [← listedB, setting.mem_arrange]
  have withinA : setA.filter (· ∈ setB) ⊆ setA := filter_subset_self _
  have withinB : setA.filter (· ∈ setB) ⊆ setB := fun e member => by
    simpa using (mem_filter.mp member).2
  simp only
  generalize setA.filter (· ∈ setB) = common at withinA withinB
  have booleanA (e : Expr) (member : e ∈ setA) : e.Boolean :=
    wellFormedA.constraints e ((memA e).mp member)
  have booleanB (e : Expr) (member : e ∈ setB) : e.Boolean :=
    wellFormedB.constraints e ((memB e).mp member)
  refine (conjunction_ensures off fun e member =>
    booleanA e (mem_of_mem_filter member)).bind fun inA madeA => ?_
  refine (conjunction_ensures off fun e member =>
    booleanB e (mem_of_mem_filter member)).bind fun inB madeB => ?_
  refine (mergeThreads_ensures off madeA.1 wellFormedA.registers
    wellFormedB.registers).bind fun threads merged => ?_
  refine (mergeObjects_ensures off madeA.1 wellFormedA.objects wellFormedA.contents
    wellFormedB.contents walked).bind fun memory merging => ?_
  refine (addConstraints_ensures off fun e member =>
    booleanA e (withinA member)).bind fun manager added => ?_
  refine (or_holds off madeA.1 madeB.1).bind fun either holds => ?_
  refine (addConstraint_holds off added.1 holds.1).bind fun constraints both => ?_
  refine .of_ok ⟨inA, inB, fun bytes => ∀ e ∈ common, e.Holds bytes, ?_⟩
  refine {
    pathA := fun bytes => ?_
    pathB := fun bytes => ?_
    path := fun bytes => ?_
    threads := merged
    memory := merging }
  · rw [madeA.2 bytes, ← forall_mem_split withinA]
    exact forall_congr' fun e => by rw [memA]
  · rw [madeB.2 bytes, ← forall_mem_split withinB]
    exact forall_congr' fun e => by rw [memB]
  · rw [both.2 bytes, added.2 bytes, holds.2 bytes]

/-- States that are merged have been walked over. -/
theorem mergeInto_of_merge {heap' : Heap ObjectState} {m : ExecutionState Checkers}
    (returned : merge setting heap a b = .ok (true, heap', m))
    : ∃ found, mutated a.addressSpace.objects b.addressSpace.objects = some found
      ∧ mergeInto setting heap a b found = .ok (heap', m) := by
  unfold merge at returned
  split at returned
  · cases returned
  split at returned
  · cases returned
  split at returned
  · cases returned
  split at returned
  · cases returned
  next found walked =>
    obtain ⟨result, merged, same⟩ := bind_eq_ok.mp returned
    cases same
    exact ⟨found, walked, merged⟩

namespace Branch

theorem wellFormed_side {key ref owner : Nat} {byte : BitVec 8} {register path : Expr}
    (boolean : path.Boolean) (typed : register.Typed)
    (cell : heap.read ref = some (contents owner byte))
    : WellFormed heap (side key ref register path) where
  constraints e member := by rwa [mem_singleton.mp member]
  registers entry member frame inStack e inFrame := by
    obtain rfl := mem_singleton.mp member
    obtain rfl := mem_singleton.mp inStack
    cases mem_singleton.mp inFrame
    exact typed
  objects := nodup_singleton _
  contents mo found bound := by
    cases mem_singleton.mp (Table.mem_of_find? bound)
    exact ⟨_, cell, rfl, rfl, rfl, nofun, nofun, nofun, trivial⟩

theorem boolean_condition : condition.Boolean := by
  simp [Expr.Boolean, condition, Expr.Typed, UpdateNode.Typed, Expr.getWidth]

theorem boolean_negation : negation.Boolean :=
  ⟨⟨trivial, boolean_condition.1, rfl⟩, rfl⟩

theorem wellFormed_yes : WellFormed Branch.heap yes :=
  wellFormed_side boolean_condition trivial rfl

theorem wellFormed_no : WellFormed Branch.heap no :=
  wellFormed_side boolean_negation trivial rfl

/-- The negation denies the condition. -/
theorem exclusive_sides (bytes : Assignment)
    : ¬ (yes.constraints.Satisfies bytes ∧ no.constraints.Satisfies bytes) := by
  rintro ⟨isYes, isNo⟩
  have holds : condition.Holds bytes := isYes condition (mem_singleton_self _)
  have denied : negation.Holds bytes := isNo negation (mem_singleton_self _)
  simp only [Expr.Holds, negation, Expr.bits, Expr.getWidth] at holds denied
  rw [holds] at denied
  exact absurd denied (by decide)

end Branch

/-- A merged state is taken by the assignments of either path, and has on each path the
registers and bytes of the state it comes from.
-/
theorem merge_sound {setting : Setting} (off : setting.options.ConstArrayOpt = false)
    {heap heap' : Heap ObjectState} {a b m : ExecutionState Checkers}
    (wellFormedA : WellFormed heap a) (wellFormedB : WellFormed heap b)
    (exclusive : ∀ bytes, ¬ (a.constraints.Satisfies bytes ∧ b.constraints.Satisfies bytes))
    (returned : merge setting heap a b = .ok (true, heap', m))
    : (∀ bytes, m.constraints.Satisfies bytes
        ↔ a.constraints.Satisfies bytes ∨ b.constraints.Satisfies bytes)
      ∧ (∀ tid frame i ea eb, a.register tid frame i = some ea → b.register tid frame i = some eb
        → ∃ e, m.register tid frame i = some e
          ∧ (∀ bytes, a.constraints.Satisfies bytes → ea.Same bytes e)
          ∧ ∀ bytes, b.constraints.Satisfies bytes → eb.Same bytes e)
      ∧ ∀ mo i, i < mo.size.toNat → EvaluatesTo (a.constraints.Satisfies ·)
            (m.addressSpace.byte setting.options heap' mo i)
            (a.addressSpace.byte setting.options heap mo i)
          ∧ EvaluatesTo (b.constraints.Satisfies ·) (m.addressSpace.byte setting.options heap' mo i)
              (b.addressSpace.byte setting.options heap mo i) := by
  obtain ⟨found, walked, into⟩ := mergeInto_of_merge returned
  obtain ⟨inA, inB, common, merged⟩ :=
    mergeInto_ensures off wellFormedA wellFormedB walked (heap', m) into
  have onA (bytes : Assignment) (path : a.constraints.Satisfies bytes) : inA.Holds bytes :=
    ((merged.pathA bytes).mp path).2
  -- On the second path the common part holds, so the first part would give both paths.
  have onB (bytes : Assignment) (path : b.constraints.Satisfies bytes) : ¬ inA.Holds bytes := by
    intro holds
    have both := (merged.pathA bytes).mpr ⟨((merged.pathB bytes).mp path).1, holds⟩
    exact exclusive bytes ⟨both, path⟩
  refine ⟨fun bytes => ?_, fun tid frame i ea eb isA isB => ?_, fun mo i less => ?_⟩
  · rw [merged.path bytes, merged.pathA bytes, merged.pathB bytes, and_or_left]
  · obtain ⟨e, isE, chooses⟩ := register_merged merged.threads isA isB
    exact ⟨e, isE, fun bytes path => chooses.yes bytes (onA bytes path),
      fun bytes path => chooses.no bytes (onB bytes path)⟩
  · obtain ⟨yes, no⟩ := merged.memory.done mo (by simp) i less
    exact ⟨yes.mono onA, no.mono onB⟩

theorem merge_sound_sides
    : ∃ heap' m, merge Branch.setting Branch.heap Branch.yes Branch.no = .ok (true, heap', m)
      ∧ (∀ bytes, m.constraints.Satisfies bytes
        ↔ Branch.yes.constraints.Satisfies bytes ∨ Branch.no.constraints.Satisfies bytes)
      ∧ EvaluatesTo (Branch.yes.constraints.Satisfies ·)
          (m.addressSpace.byte Branch.setting.options heap' Branch.object 0)
          (.ok (.constant ⟨8, 5#8⟩))
      ∧ EvaluatesTo (Branch.no.constraints.Satisfies ·)
          (m.addressSpace.byte Branch.setting.options heap' Branch.object 0)
          (.ok (.constant ⟨8, 0#8⟩)) := by
  obtain ⟨heap', m, returned⟩ := Branch.merge_yes_no
  obtain ⟨path, -, bytes⟩ := merge_sound rfl Branch.wellFormed_yes Branch.wellFormed_no
    Branch.exclusive_sides returned
  exact ⟨heap', m, returned, path, bytes Branch.object 0 (by decide)⟩

end ExecutionState

end Woodpecker.Execution
