import Woodpecker.Library.Loops
import Woodpecker.Library.RefCounts
import Woodpecker.Library.Runs
import Woodpecker.Library.Tables
import Woodpecker.Library.Traces

/-! Real files of execution states, over forks and the end of states.

The manager of a state leads from descriptors to records with a count. A fork copies the
manager and adds to the counts, and the end of a state gives its files back. The descriptor
is closed when its count comes to nothing.
-/

namespace Woodpecker.Execution

open Library List

/-- What the operating system is asked to do; `opened` is an `open` that succeeds. -/
inductive SystemCall where
  | opened (fd : Int)
  | closed (fd : Int)
deriving DecidableEq, Repr

structure FileInfo where
  fd : Int
  refcnt : Int
deriving DecidableEq, Repr

/-- What all states share: the records of files, and what the system has been asked. -/
structure Process where
  infos : Heap FileInfo
  calls : List SystemCall
deriving DecidableEq, Repr

open Process

structure ResMgr where
  files : Table Int Nat
deriving DecidableEq, Repr

open ResMgr

namespace ResMgr

def create : ResMgr where
  files := []

/-- `it->second->refcnt++` -/
def refFile (process : Process) (info : Nat) : Except Fault Process :=
  match process.infos.read info with
  | none => .error .badPointer
  | some file =>
    .ok { process with
      infos := process.infos.write info (some { file with refcnt := file.refcnt + 1 }) }

/-- The copy constructor, which runs when a state is forked. -/
def copy (other : ResMgr) (process : Process) : Except Fault (Process × ResMgr) := do
  let process ← other.files.foldlM (fun process entry => refFile process entry.2) process
  .ok (process, ⟨other.files⟩)

def unrefFile (process : Process) (info : Nat) : Except Fault (Process × Int) :=
  match process.infos.read info with
  | none => .error .badPointer
  | some file =>
    let file := { file with refcnt := file.refcnt - 1 }
    if file.refcnt = 0 then
      .ok (⟨process.infos.write info none, process.calls ++ [.closed file.fd]⟩, 1)
    else
      .ok ({ process with infos := process.infos.write info (some file) }, 0)

/-- The destructor, which runs when a state is deleted. -/
def destroy (mgr : ResMgr) (process : Process) : Except Fault Process :=
  mgr.files.foldlM (fun process entry => do
    let (process, _) ← unrefFile process entry.2
    .ok process) process

/-- Here `fd` is what `open` answers. -/
def openFile (mgr : ResMgr) (process : Process) (fd : Int) : Process × ResMgr × Int :=
  if 0 ≤ fd then
    (⟨process.infos.push ⟨fd, 1⟩, process.calls ++ [.opened fd]⟩,
      ⟨mgr.files.assign fd process.infos.length⟩, fd)
  else
    (process, mgr, fd)

def closeFile (mgr : ResMgr) (process : Process) (fd : Int)
    : Except Fault (Process × ResMgr × Int) :=
  match mgr.files.find? fd with
  | some info => do
    let (process, _) ← unrefFile process info
    .ok (process, ⟨mgr.files.erase fd⟩, 0)
  | none => .ok (process, mgr, -1)

/-- The state has the descriptor. -/
def holds (mgr : ResMgr) (fd : Int) : Bool :=
  (mgr.files.find? fd).isSome

/-- The records a state leads to. -/
def refs (mgr : ResMgr) : Multiset Nat :=
  ↑(mgr.files.map Prod.snd)

end ResMgr

/-- Opened and not closed since. -/
def Open (calls : List SystemCall) (fd : Int) : Prop :=
  Since (· = .opened fd) (· = .closed fd) calls

/-- The process with the managers of the states that are alive. -/
structure World where
  process : Process
  states : List ResMgr

namespace World

def start : World where
  process := ⟨[], []⟩
  states := [.create]

def holders (world : World) (fd : Int) : Nat :=
  world.states.countP fun mgr => mgr.holds fd

/-- All references to records, as often as they are held. -/
def held (world : World) : Multiset Nat :=
  (world.states.map ResMgr.refs).sum

end World

inductive Label where
  | openFile (index : Nat) (fd : Int)
  | closeFile (index : Nat) (fd : Int)
  | branch (index : Nat)
  | destroy (index : Nat)

/-- What a live state can do. The system does not answer with a descriptor that is open. -/
inductive Step : Except Fault World → Label → Except Fault World → Prop
  | openFile (process : Process) (before after : List ResMgr) (mgr : ResMgr) (fd : Int)
    (unused : ¬ Open process.calls fd)
    : Step (.ok ⟨process, before ++ mgr :: after⟩) (.openFile before.length fd)
        (.ok ⟨(mgr.openFile process fd).1,
          before ++ (mgr.openFile process fd).2.1 :: after⟩)
  | closeFile (process : Process) (before after : List ResMgr) (mgr : ResMgr) (fd : Int)
    : Step (.ok ⟨process, before ++ mgr :: after⟩) (.closeFile before.length fd)
        ((mgr.closeFile process fd).map fun outcome =>
          ⟨outcome.1, before ++ outcome.2.1 :: after⟩)
  | branch (process : Process) (before after : List ResMgr) (mgr : ResMgr)
    : Step (.ok ⟨process, before ++ mgr :: after⟩) (.branch before.length)
        ((mgr.copy process).map fun outcome =>
          ⟨outcome.1, before ++ mgr :: after ++ [outcome.2]⟩)
  | destroy (process : Process) (before after : List ResMgr) (mgr : ResMgr)
    : Step (.ok ⟨process, before ++ mgr :: after⟩) (.destroy before.length)
        ((mgr.destroy process).map fun process => ⟨process, before ++ after⟩)

-- The records of a process

/-- The descriptor a reference leads to. -/
def Process.fdOf (process : Process) (ref : Nat) : Option Int :=
  (process.infos.read ref).map FileInfo.fd

/-- The record of a descriptor is there while it is open, and only what is open is closed. -/
structure Sound (process : Process) (held : Multiset Nat) : Prop where
  counted : Counted FileInfo.refcnt process.infos held
  distinct : ∀ first second fd,
    process.fdOf first = some fd → process.fdOf second = some fd → first = second
  opened : ∀ fd, Open process.calls fd ↔ ∃ ref, process.fdOf ref = some fd
  closes : Throughout (fun past call => ∀ fd, call = .closed fd → Open past fd) process.calls

section Records

variable {process : Process} {held : Multiset Nat} {ref : Nat} {fd : Int}

theorem open_snoc_opened (calls : List SystemCall) (fd other : Int)
    : Open (calls ++ [.opened fd]) other ↔ other = fd ∨ Open calls other := by
  rw [Open, since_snoc_iff]
  simp [Open, eq_comm]

theorem open_snoc_closed (calls : List SystemCall) (fd other : Int)
    : Open (calls ++ [.closed fd]) other ↔ Open calls other ∧ other ≠ fd := by
  rw [Open, since_snoc_iff]
  simp [Open, eq_comm]

theorem sound_start : Sound ⟨[], []⟩ 0 where
  counted := .nil
  distinct := by simp [fdOf, Heap.read]
  opened := by simp [Open, not_since_nil, fdOf, Heap.read]
  closes := throughout_nil

theorem fdOf_eq_some_iff
    : process.fdOf ref = some fd ↔ ∃ info, process.infos.read ref = some info ∧ info.fd = fd :=
  Option.map_eq_some_iff

variable {info : FileInfo} {calls : List SystemCall}

/-- Writing a count leaves the descriptors alone. -/
theorem fdOf_write {changed : FileInfo} (found : process.infos.read ref = some info)
    (same : changed.fd = info.fd)
    : (mk (process.infos.write ref (some changed)) calls).fdOf = process.fdOf := by
  funext other
  simp only [fdOf, Heap.read_write (Heap.lt_of_read found)]
  split
  next here => simp [here, found, same]
  · rfl

theorem fdOf_free (found : process.infos.read ref = some info) (other : Nat)
    : (mk (process.infos.write ref none) calls).fdOf other
      = if other = ref then none else process.fdOf other := by
  simp only [fdOf, Heap.read_write (Heap.lt_of_read found)]
  split <;> rfl

theorem fdOf_push (info : FileInfo) (calls : List SystemCall) (other : Nat)
    : (mk (process.infos.push info) calls).fdOf other
      = if other = process.infos.length then some info.fd else process.fdOf other := by
  simp only [fdOf, Heap.read_push]
  split <;> rfl

/-- A new count in a record keeps all but the counts. -/
theorem Sound.write {after : Multiset Nat} {changed : FileInfo} (sound : Sound process held)
    (found : process.infos.read ref = some info) (same : changed.fd = info.fd)
    (counted : Counted FileInfo.refcnt (process.infos.write ref (some changed)) after)
    : Sound { process with infos := process.infos.write ref (some changed) } after := by
  refine ⟨counted, ?_, ?_, sound.closes⟩
  · rw [fdOf_write found same]
    exact sound.distinct
  · rw [fdOf_write found same]
    exact sound.opened

theorem Sound.refFile (sound : Sound process held) (member : ref ∈ held)
    : ∃ after, refFile process ref = .ok after
        ∧ Sound after (ref ::ₘ held)
        ∧ after.fdOf = process.fdOf := by
  obtain ⟨info, found⟩ := sound.counted.live ref member
  simp only [ResMgr.refFile, found]
  exact ⟨_, rfl, sound.write found rfl (sound.counted.retain found rfl), fdOf_write found rfl⟩

/-- Giving the last reference back closes the descriptor. -/
theorem Sound.free (sound : Sound process (ref ::ₘ held))
    (found : process.infos.read ref = some info) (last : info.refcnt - 1 = 0)
    : Sound ⟨process.infos.write ref none, process.calls ++ [.closed info.fd]⟩ held := by
  obtain ⟨counted, -⟩ := sound.counted.free found last
  have isFd : process.fdOf ref = some info.fd := fdOf_eq_some_iff.mpr ⟨info, found, rfl⟩
  refine ⟨counted, ?_, ?_, ?_⟩
  · intro first second fd
    rw [fdOf_free found, fdOf_free found]
    split
    · simp
    split
    · simp
    · exact sound.distinct first second fd
  · intro fd
    rw [open_snoc_closed, sound.opened fd]
    constructor
    · intro ⟨⟨other, isOther⟩, differ⟩
      have elsewhere : other ≠ ref := by
        intro same
        rw [same, isFd] at isOther
        exact differ (Option.some.inj isOther).symm
      exact ⟨other, by rw [fdOf_free found, if_neg elsewhere, isOther]⟩
    · intro ⟨other, isOther⟩
      rw [fdOf_free found] at isOther
      split at isOther
      · cases isOther
      next elsewhere =>
        refine ⟨⟨other, isOther⟩, ?_⟩
        intro same
        exact elsewhere (sound.distinct other ref fd isOther (same ▸ isFd))
  · rw [throughout_snoc_iff]
    refine ⟨sound.closes, ?_⟩
    intro fd isClosed
    obtain rfl := SystemCall.closed.inj isClosed
    exact (sound.opened info.fd).mpr ⟨ref, isFd⟩

theorem Sound.unrefFile (sound : Sound process (ref ::ₘ held))
    : ∃ after result, unrefFile process ref = .ok (after, result)
        ∧ Sound after held
        ∧ ∀ other ∈ held, after.fdOf other = process.fdOf other := by
  obtain ⟨info, found⟩ := sound.counted.live ref (Multiset.mem_cons_self ref held)
  simp only [ResMgr.unrefFile, found]
  split
  next last =>
    obtain ⟨-, gone⟩ := sound.counted.free found last
    refine ⟨_, _, rfl, sound.free found last, ?_⟩
    intro other member
    have elsewhere : other ≠ ref := fun same => gone (same ▸ member)
    rw [fdOf_free found, if_neg elsewhere]
  next others =>
    have same : (Process.mk (process.infos.write ref (some { info with refcnt := info.refcnt - 1 }))
        process.calls).fdOf = process.fdOf := fdOf_write found rfl
    exact ⟨_, _, rfl, sound.write found rfl (sound.counted.release found rfl others),
      fun other _ => congrFun same other⟩

/-- A new record for a descriptor that is not open. -/
theorem Sound.push (sound : Sound process held) (unused : ¬ Open process.calls fd)
    : Sound ⟨process.infos.push ⟨fd, 1⟩, process.calls ++ [.opened fd]⟩
        (process.infos.length ::ₘ held) := by
  have absent (other : Nat) : process.fdOf other ≠ some fd := fun isFd =>
    unused ((sound.opened fd).mpr ⟨other, isFd⟩)
  have beyond : process.fdOf process.infos.length = none := by
    cases found : process.infos.read process.infos.length with
    | none => simp [fdOf, found]
    | some info => exact absurd (Heap.lt_of_read found) (Nat.lt_irrefl _)
  refine ⟨sound.counted.push rfl, ?_, ?_, ?_⟩
  · intro first second other isFirst isSecond
    rw [fdOf_push] at isFirst isSecond
    split at isFirst <;> split at isSecond
    next here there => exact here.trans there.symm
    next here there => exact absurd (isSecond.trans isFirst.symm) (absent second)
    next here there => exact absurd (isFirst.trans isSecond.symm) (absent first)
    · exact sound.distinct first second other isFirst isSecond
  · intro other
    rw [open_snoc_opened, sound.opened other]
    constructor
    · intro isOpen
      rcases isOpen with rfl | ⟨ref, isOther⟩
      · exact ⟨process.infos.length, by rw [fdOf_push, if_pos rfl]⟩
      · refine ⟨ref, ?_⟩
        rw [fdOf_push, if_neg, isOther]
        intro same
        rw [same, beyond] at isOther
        cases isOther
    · intro ⟨ref, isOther⟩
      rw [fdOf_push] at isOther
      split at isOther
      · exact .inl (Option.some.inj isOther).symm
      · exact .inr ⟨ref, isOther⟩
  · rw [throughout_snoc_iff]
    refine ⟨sound.closes, ?_⟩
    intro other isClosed
    cases isClosed

variable {files : Table Int Nat}

/-- Taking a reference for each entry, by induction on the entries. -/
theorem Sound.refFiles (sound : Sound process held) (members : ∀ entry ∈ files, entry.2 ∈ held)
    : ∃ after,
        files.foldlM (fun process entry => ResMgr.refFile process entry.2) process = .ok after
        ∧ Sound after (↑(files.map Prod.snd) + held)
        ∧ after.fdOf = process.fdOf := by
  induction files generalizing process held with
  | nil => exact ⟨process, rfl, by simpa using sound, rfl⟩
  | cons entry rest ih =>
    obtain ⟨middle, taken, middleSound, same⟩ := sound.refFile (members entry (by simp))
    have later : ∀ other ∈ rest, other.2 ∈ entry.2 ::ₘ held := fun other member =>
      Multiset.mem_cons_of_mem (members other (by simp [member]))
    obtain ⟨after, looped, afterSound, afterSame⟩ := ih middleSound later
    refine ⟨after, ?_, ?_, afterSame.trans same⟩
    · rw [foldlM_cons, taken, ok_bind, looped]
    · simpa [← Multiset.cons_coe] using afterSound

/-- Giving a reference back for each entry, by induction on the entries. -/
theorem Sound.unrefFiles (sound : Sound process (↑(files.map Prod.snd) + held))
    : ∃ after, (ResMgr.mk files).destroy process = .ok after
        ∧ Sound after held
        ∧ ∀ other ∈ held, after.fdOf other = process.fdOf other := by
  induction files generalizing process with
  | nil => exact ⟨process, rfl, by simpa using sound, fun _ _ => rfl⟩
  | cons entry rest ih =>
    rw [map_cons, ← Multiset.cons_coe, Multiset.cons_add] at sound
    obtain ⟨middle, result, given, middleSound, same⟩ := sound.unrefFile
    obtain ⟨after, looped, afterSound, afterSame⟩ := ih middleSound
    refine ⟨after, ?_, afterSound, ?_⟩
    · rw [ResMgr.destroy, foldlM_cons, given, ok_bind, ok_bind]
      exact looped
    · intro other member
      rw [afterSame other member, same other (Multiset.mem_add.mpr (.inr member))]

end Records

-- The managers of all states

/-- The entries of a manager lead to the records of their descriptors. -/
structure Fits (process : Process) (mgr : ResMgr) : Prop where
  ordered : mgr.files.Ordered
  entries : ∀ entry ∈ mgr.files, process.fdOf entry.2 = some entry.1

structure Consistent (world : World) : Prop where
  sound : Sound world.process world.held
  fits : ∀ mgr ∈ world.states, Fits world.process mgr

section Managers

variable {process after : Process} {held : Multiset Nat} {mgr : ResMgr} {fd : Int} {ref : Nat}

theorem ResMgr.mem_refs {entry : Int × Nat} (member : entry ∈ mgr.files)
    : entry.2 ∈ mgr.refs :=
  mem_map_of_mem member

theorem Fits.congr (fits : Fits process mgr)
    (same : ∀ ref ∈ mgr.refs, after.fdOf ref = process.fdOf ref)
    : Fits after mgr where
  ordered := fits.ordered
  entries := fun entry member =>
    (same entry.2 (mem_refs member)).trans (fits.entries entry member)

/-- A manager holds the record of a descriptor once, if it has the descriptor. -/
theorem Fits.count_refs (fits : Fits process mgr) (sound : Sound process held)
    (isFd : process.fdOf ref = some fd)
    : mgr.refs.count ref = if mgr.holds fd then 1 else 0 := by
  have same : mgr.files.countP (fun entry => entry.2 = ref)
      = mgr.files.countP (fun entry => entry.1 = fd) := by
    apply countP_congr
    intro entry member
    have isEntry := fits.entries entry member
    simp only [decide_eq_true_eq]
    constructor
    · intro here
      rw [here, isFd] at isEntry
      exact (Option.some.inj isEntry).symm
    · intro here
      exact sound.distinct entry.2 ref fd (here ▸ isEntry) isFd
  rw [holds, ← fits.ordered.countP_key fd, ← same, refs, Multiset.coe_count, count, countP_map]
  apply countP_congr
  intro entry _
  simp

/-- The count of a record is the number of states that have its descriptor, by induction on
the states.
-/
theorem count_held {states : List ResMgr} (fits : ∀ mgr ∈ states, Fits process mgr)
    (sound : Sound process held) (isFd : process.fdOf ref = some fd)
    : (states.map refs).sum.count ref = states.countP fun mgr => mgr.holds fd := by
  induction states with
  | nil => simp
  | cons mgr rest ih =>
    have head := (fits mgr (by simp)).count_refs sound isFd
    have tail := ih fun other member => fits other (by simp [member])
    rw [map_cons, sum_cons, Multiset.count_add, head, tail, countP_cons, Nat.add_comm]

end Managers

section Worlds

variable {process changed : Process} {before after : List ResMgr} {mgr new : ResMgr} {fd : Int}

/-- What is held by one state and by the others. -/
theorem held_split
    : World.held ⟨process, before ++ mgr :: after⟩
      = mgr.refs + World.held ⟨process, before ++ after⟩ := by
  simp only [World.held, map_append, map_cons, sum_append, sum_cons]
  rw [add_left_comm]

theorem refs_subset_held {states : List ResMgr} (member : mgr ∈ states) {ref : Nat}
    (inRefs : ref ∈ mgr.refs)
    : ref ∈ World.held ⟨process, states⟩ := by
  obtain ⟨front, back, rfl⟩ := append_of_mem member
  rw [held_split]
  exact Multiset.mem_add.mpr (.inl inRefs)

section

variable (consistent : Consistent ⟨process, before ++ mgr :: after⟩)
include consistent

/-- The other states are as they were if the records they hold keep their descriptors. -/
theorem Consistent.others
    (same : ∀ ref ∈ World.held ⟨process, before ++ after⟩, changed.fdOf ref = process.fdOf ref)
    : ∀ other ∈ before ++ after, Fits changed other := by
  intro other member
  have still : other ∈ before ++ mgr :: after :=
    mem_append.mpr ((mem_append.mp member).imp_right (.tail mgr))
  exact (consistent.fits other still).congr fun ref inRefs =>
    same ref (refs_subset_held member inRefs)

/-- One state changes its manager. -/
theorem Consistent.replace
    (sound : Sound changed (new.refs + World.held ⟨process, before ++ after⟩))
    (fits : Fits changed new)
    (same : ∀ ref ∈ World.held ⟨process, before ++ after⟩, changed.fdOf ref = process.fdOf ref)
    : Consistent ⟨changed, before ++ new :: after⟩ where
  sound := by
    rw [held_split]
    exact sound
  fits := by
    obtain ⟨early, late⟩ := forall_mem_append.mp (consistent.others same)
    exact forall_mem_append.mpr ⟨early, forall_mem_cons.mpr ⟨fits, late⟩⟩

theorem Consistent.openFile (unused : ¬ Open process.calls fd)
    : Consistent ⟨(mgr.openFile process fd).1,
        before ++ (mgr.openFile process fd).2.1 :: after⟩ := by
  obtain ⟨sound, fits⟩ := consistent
  have own := fits mgr (by simp)
  have absent : mgr.files.find? fd = none := by
    rw [Option.eq_none_iff_forall_ne_some]
    intro ref found
    have isFd := own.entries _ ((Table.find?_eq_some_iff own.ordered).mp found)
    exact unused ((sound.opened fd).mpr ⟨ref, isFd⟩)
  unfold ResMgr.openFile
  split
  · have pushed := sound.push unused
    -- The references held so far are old, so their descriptors stay.
    have old {ref : Nat} (member : ref ∈ World.held ⟨process, before ++ mgr :: after⟩)
        : (Process.mk (process.infos.push ⟨fd, 1⟩) (process.calls ++ [.opened fd])).fdOf ref
          = process.fdOf ref := by
      obtain ⟨info, found⟩ := sound.counted.live ref member
      rw [fdOf_push, if_neg (Nat.ne_of_lt (Heap.lt_of_read found))]
    apply replace ⟨sound, fits⟩
    · have added : (ResMgr.mk (mgr.files.assign fd process.infos.length)).refs
          = process.infos.length ::ₘ mgr.refs :=
        Multiset.coe_eq_coe.mpr ((Table.assign_perm absent _).map Prod.snd)
      rw [added, Multiset.cons_add, ← held_split]
      exact pushed
    · refine ⟨own.ordered.assign _ _, ?_⟩
      intro entry member
      rcases (Table.mem_assign_iff own.ordered).mp member with rfl | ⟨older, -⟩
      · rw [fdOf_push, if_pos rfl]
      · rw [old (refs_subset_held (by simp) (mem_refs older))]
        exact own.entries entry older
    · intro ref member
      apply old
      rw [held_split]
      exact Multiset.mem_add.mpr (.inr member)
  · exact ⟨sound, fits⟩

theorem Consistent.closeFile (fd : Int)
    : ∃ outcome, mgr.closeFile process fd = .ok outcome
        ∧ Consistent ⟨outcome.1, before ++ outcome.2.1 :: after⟩ := by
  have own := consistent.fits mgr (by simp)
  unfold ResMgr.closeFile
  rcases found : mgr.files.find? fd with _ | ref
  · exact ⟨_, rfl, consistent⟩
  have removed : mgr.refs = ref ::ₘ (ResMgr.mk (mgr.files.erase fd)).refs :=
    Multiset.coe_eq_coe.mpr ((own.ordered.perm_erase found).map Prod.snd)
  have sound := consistent.sound
  rw [held_split, removed, Multiset.cons_add] at sound
  obtain ⟨changed, result, given, afterSound, same⟩ := sound.unrefFile
  simp only [given, ok_bind]
  refine ⟨_, rfl, consistent.replace afterSound ?_ ?_⟩
  · have kept : Fits process ⟨mgr.files.erase fd⟩ :=
      ⟨own.ordered.erase fd, fun entry member =>
        own.entries entry (mem_of_mem_filter member)⟩
    exact kept.congr fun other member => same other (Multiset.mem_add.mpr (.inl member))
  · exact fun other member => same other (Multiset.mem_add.mpr (.inr member))

theorem Consistent.copy
    : ∃ outcome, mgr.copy process = .ok outcome
        ∧ Consistent ⟨outcome.1, before ++ mgr :: after ++ [outcome.2]⟩ := by
  obtain ⟨sound, fits⟩ := consistent
  have members : ∀ entry ∈ mgr.files,
      entry.2 ∈ World.held ⟨process, before ++ mgr :: after⟩ := fun entry member =>
    refs_subset_held (by simp) (ResMgr.mem_refs member)
  obtain ⟨changed, looped, afterSound, same⟩ := sound.refFiles members
  have fitsAfter : ∀ other ∈ before ++ mgr :: after, Fits changed other := fun other member =>
    (fits other member).congr fun ref _ => congrFun same ref
  simp only [ResMgr.copy, looped, ok_bind]
  refine ⟨_, rfl, ?_, ?_⟩
  · rw [held_split, append_nil]
    exact afterSound
  · exact forall_mem_append.mpr ⟨fitsAfter, forall_mem_singleton.mpr (fitsAfter mgr (by simp))⟩

theorem Consistent.destroy
    : ∃ changed, mgr.destroy process = .ok changed
        ∧ Consistent ⟨changed, before ++ after⟩ := by
  have sound := consistent.sound
  rw [held_split] at sound
  obtain ⟨changed, looped, afterSound, same⟩ := sound.unrefFiles
  exact ⟨changed, looped, afterSound, consistent.others same⟩

end

end Worlds

/-- No fault has occurred, and the counts are right. -/
def Kept (state : Except Fault World) : Prop :=
  ∃ world, state = .ok world ∧ Consistent world

theorem Step.kept {state next : Except Fault World} {label : Label}
    (step : Step state label next) (kept : Kept state)
    : Kept next := by
  obtain ⟨world, isWorld, consistent⟩ := kept
  cases step with
  | openFile process before after mgr fd unused =>
    cases isWorld
    exact ⟨_, rfl, consistent.openFile unused⟩
  | closeFile process before after mgr fd =>
    cases isWorld
    obtain ⟨outcome, closed, afterwards⟩ := consistent.closeFile fd
    exact ⟨_, by rw [closed]; rfl, afterwards⟩
  | branch process before after mgr =>
    cases isWorld
    obtain ⟨outcome, copied, afterwards⟩ := consistent.copy
    exact ⟨_, by rw [copied]; rfl, afterwards⟩
  | destroy process before after mgr =>
    cases isWorld
    obtain ⟨changed, destroyed, afterwards⟩ := consistent.destroy
    exact ⟨_, by rw [destroyed]; rfl, afterwards⟩

theorem consistent_start : Consistent World.start where
  sound := by simpa [World.start, World.held, create, refs] using sound_start
  fits := forall_mem_singleton.mpr ⟨.nil, by simp [create]⟩

/-- A descriptor is open exactly while some state has it. -/
theorem Consistent.open_iff {world : World} (consistent : Consistent world) (fd : Int)
    : Open world.process.calls fd ↔ 0 < world.holders fd := by
  obtain ⟨sound, fits⟩ := consistent
  rw [sound.opened fd, World.holders]
  constructor
  · intro ⟨ref, isFd⟩
    obtain ⟨info, found, -⟩ := fdOf_eq_some_iff.mp isFd
    obtain ⟨member, -⟩ := sound.counted.counts ref info found
    rw [← count_held fits sound isFd]
    exact Multiset.count_pos.mpr member
  · intro positive
    obtain ⟨mgr, member, holds⟩ := countP_pos_iff.mp positive
    obtain ⟨ref, found⟩ := Option.isSome_iff_exists.mp holds
    have own := fits mgr member
    exact ⟨ref, own.entries _ ((Table.find?_eq_some_iff own.ordered).mp found)⟩

/-- The record a state has for a descriptor counts the states that have it. -/
theorem Consistent.read_eq {world : World} (consistent : Consistent world) {mgr : ResMgr}
    (member : mgr ∈ world.states) {fd : Int} {ref : Nat} (found : mgr.files.find? fd = some ref)
    : world.process.infos.read ref = some ⟨fd, world.holders fd⟩ := by
  obtain ⟨sound, fits⟩ := consistent
  have own := fits mgr member
  have isFd := own.entries _ ((Table.find?_eq_some_iff own.ordered).mp found)
  obtain ⟨info, isInfo, sameFd⟩ := fdOf_eq_some_iff.mp isFd
  obtain ⟨-, counts⟩ := sound.counted.counts ref info isInfo
  have holders := count_held fits sound isFd
  rw [isInfo]
  obtain ⟨infoFd, refcnt⟩ := info
  subst sameFd
  rw [World.held, holders] at counts
  exact congrArg some (congrArg (FileInfo.mk infoFd) counts)

end Woodpecker.Execution
