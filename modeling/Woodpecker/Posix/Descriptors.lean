import Woodpecker.Library.Handles
import Woodpecker.Library.Runs
import Woodpecker.Posix.Records

/-! Open descriptors and the records they refer to, over sequences of calls.

Removing a name frees the record while descriptors still refer to it. The record of a new
directory keeps whatever count was there before. A descriptor onto which another is copied is
overwritten even if it could not be closed.
-/

namespace Woodpecker.Posix.Descriptors

open Library FileSystem DiskConFile List Option
open Function (comp_apply update update_of_ne update_self)

inductive Call where
  | fd_open (host : Host) (pathname : String) (flags : FileSystem.OpenFlags) (mode : UInt32)
  | close (fd : Int)
  | dup (oldfd : Int)
  | dup2 (oldfd newfd : Int)
  | unlink (host : Host) (pathname : String)
  | rmdir (host : Host) (pathname : String)
  | mkdir (host : Host) (pathname : String) (mode : UInt32)

def serve (fs : FileSystem) : Call → FileSystem × Int
  | .fd_open host pathname flags mode => fs.fd_open host pathname flags mode
  | .close fd => fs.close fd
  | .dup oldfd => fs.dup oldfd
  | .dup2 oldfd newfd => fs.dup2 oldfd newfd
  | .unlink host pathname => fs.unlink host pathname
  | .rmdir host pathname => fs.rmdir host pathname
  | .mkdir host pathname mode => fs.mkdir host pathname mode

/-- `dup2` is called with two different descriptors. -/
def Legal : Call → Prop
  | .dup2 oldfd newfd => oldfd ≠ newfd
  | _ => True

-- What a descriptor was opened on

/-- The record an open concrete descriptor refers to. -/
def target (f : Descriptor) : Option Nat :=
  match f.flags.eOpen, f.type with
  | true, .CONCRETE_FILE dcfile => some dcfile
  | _, _ => none

def targets (fs : FileSystem) (fd : Fin MAX_FDS) : Option Nat :=
  target (fs.fds fd)

/-- The contents of a file: in memory, or behind a descriptor of the host. -/
structure Held where
  state : ConState
  fd : Int
  size : Nat
  contents : List UInt8
deriving DecidableEq, Repr

def held (con_file : DiskConFile) : Held where
  state := con_file.state
  fd := con_file.fd
  size := con_file.size
  contents := con_file.contents

def heldBy (fs : FileSystem) (fd : Fin MAX_FDS) : Option Held :=
  (targets fs fd).bind fun dcfile => (fs.con_files[dcfile]?).map held

/-- The file system, with the contents each descriptor had when its file was opened. -/
structure Opened where
  fs : FileSystem
  origin : Fin MAX_FDS → Option Held

/-- A descriptor that is copied takes its origin along. -/
def originAfter (state : Opened) (after : FileSystem) (result : Int) (fd : Fin MAX_FDS)
    : Call → Option Held
  | .fd_open _ _ _ _ => if result = fd.val then heldBy after fd else state.origin fd
  | .dup oldfd | .dup2 oldfd _ =>
    if result = fd.val then (FileSystem.fdOf oldfd).bind state.origin else state.origin fd
  | _ => state.origin fd

def advance (state : Opened) (call : Call) : Opened where
  fs := (serve state.fs call).1
  origin fd := originAfter state (serve state.fs call).1 (serve state.fs call).2 fd call

inductive Step : Opened → Call → Opened → Prop
  | serve (state : Opened) (call : Call) (legal : Legal call)
    : Step state call (advance state call)

/-- Every open concrete descriptor refers to a record that is in use and holds what it was
opened on, and every record in use counts its descriptors.
-/
structure Kept (state : Opened) : Prop where
  refers : ∀ fd dcfile, targets state.fs fd = some dcfile
    → ∃ con_file, state.fs.con_files[dcfile]? = some con_file ∧ con_file.state ≠ .FREE
      ∧ state.origin fd = some (held con_file)
  counts : ∀ (dcfile : Nat) (con_file : DiskConFile),
    state.fs.con_files[dcfile]? = some con_file → con_file.state ≠ .FREE
    → con_file.refcnt = referrers (targets state.fs) dcfile

def Sound (transition : Transition Opened Call) : Prop :=
  Kept transition.after

/-- The count of the record that a new file takes. -/
def newCount (fs : FileSystem) (host : Host) (free_file : Option Nat) : Option Int :=
  match free_file with
  | some i => (fs.con_files[i]?).map (·.refcnt)
  | none => some (host.uninit fs.con_files.length).refcnt

/-- A name is removed only if no descriptor refers to its record. -/
def Unreferenced (fs : FileSystem) (host : Host) (pathname : String) : Prop :=
  ∀ rpath i, host.realpath pathname = some rpath → (fs.find_con_file rpath).1 = some i
    → ∀ fd, targets fs fd ≠ some i

/-- Besides, a new directory takes a record with count zero, and no failure is injected when
`dup2` closes a concrete file.
-/
def CarefulCall (fs : FileSystem) : Call → Prop
  | .unlink host pathname | .rmdir host pathname => Unreferenced fs host pathname
  | .mkdir host pathname _ => ∀ rpath, host.realpath pathname = some rpath
      → fs.lstat host rpath = false → (fs.find_con_file rpath).1 = none
      → newCount fs host (fs.find_con_file rpath).2 = some 0
  | .dup2 oldfd newfd => ∀ f f2, fs.get_file oldfd = some f → FileSystem.fdOf newfd = some f2
      → targets fs f2 ≠ none → fs.closeFails = false
  | _ => True

def Careful (transition : Transition Opened Call) : Prop :=
  CarefulCall transition.before.fs transition.label

variable {fs fs' : FileSystem} {host : Host} {fd : Fin MAX_FDS} {f : Descriptor}
  {origin origin' : Fin MAX_FDS → Option Held} {i : Nat}

-- Changes of the tables

@[simp]
theorem target_zero : target .zero = none :=
  rfl

theorem targets_update (changed : fs'.fds = update fs.fds fd f)
    : targets fs' = update (targets fs) fd (target f) := by
  funext other
  unfold targets
  rw [changed]
  by_cases same : other = fd
  · subst same
    rw [update_self, update_self]
  · rw [update_of_ne same, update_of_ne same]

/-- Only the counts of the records have changed. -/
def Recounted (fs fs' : FileSystem) (change : Nat → Int) : Prop :=
  ∀ dcfile : Nat, fs'.con_files[dcfile]?
    = (fs.con_files[dcfile]?).map fun con_file => con_file.addRefs (change dcfile)

theorem recounted_zero (same : fs'.con_files = fs.con_files)
    : Recounted fs fs' fun _ => 0 := by
  intro dcfile
  simp [same, addRefs]

section

variable (kept : Kept ⟨fs, origin⟩)
include kept

/-- One descriptor refers to something else and counts have changed: what was kept is kept
exactly if the counts follow.
-/
theorem kept_rebind_iff (fds : fs'.fds = update fs.fds fd f) (change : Nat → Int)
    (records : Recounted fs fs' change)
    (others : ∀ other, other ≠ fd → origin' other = origin other)
    (here : ∀ dcfile, target f = some dcfile → ∃ con_file,
      fs.con_files[dcfile]? = some con_file ∧ con_file.state ≠ .FREE
      ∧ origin' fd = some (held con_file))
    : Kept ⟨fs', origin'⟩
      ↔ ∀ (dcfile : Nat) (con_file : DiskConFile), fs.con_files[dcfile]? = some con_file
          → con_file.state ≠ .FREE
          → change dcfile = (if target f = some dcfile then 1 else 0)
            - (if targets fs fd = some dcfile then 1 else 0) := by
  have refersTo := targets_update fds
  have counted (dcfile : Nat) := referrers_update (targets fs) fd (target f) dcfile
  constructor
  · intro kept' dcfile con_file there used
    have before := kept.counts dcfile con_file there used
    have after := kept'.counts dcfile (con_file.addRefs (change dcfile))
      ((records dcfile).trans (by rw [there]; rfl)) used
    simp only [addRefs, refersTo] at before after
    rw [counted, before] at after
    omega
  · intro follows
    refine ⟨?_, ?_⟩
    · intro other dcfile refers
      simp only [refersTo] at refers
      have moved {con_file : DiskConFile} (there : fs.con_files[dcfile]? = some con_file)
          : fs'.con_files[dcfile]? = some (con_file.addRefs (change dcfile)) := by
        rw [records dcfile, there]
        rfl
      by_cases same : other = fd
      · subst same
        rw [update_self] at refers
        obtain ⟨con_file, there, used, same⟩ := here dcfile refers
        exact ⟨_, moved there, used, same⟩
      · rw [update_of_ne same] at refers
        obtain ⟨con_file, there, used, held⟩ := kept.refers other dcfile refers
        exact ⟨_, moved there, used, (others other same).trans held⟩
    · intro dcfile changed there used
      simp [records dcfile] at there
      obtain ⟨con_file, was, rfl⟩ := there
      have before := kept.counts dcfile con_file was used
      simp only [addRefs, refersTo] at before ⊢
      rw [counted, before, follows dcfile con_file was used]

variable {con_file : DiskConFile}

/-- A record that no descriptor refers to is changed. -/
theorem Kept.replace (unreferenced : ∀ fd, targets fs fd ≠ some i) (fds : targets fs' = targets fs)
    (others : ∀ dcfile : Nat, i ≠ dcfile → fs'.con_files[dcfile]? = fs.con_files[dcfile]?)
    (zero : ∀ new, fs'.con_files[i]? = some new → new.state ≠ .FREE → new.refcnt = 0)
    : Kept ⟨fs', origin⟩ := by
  refine ⟨?_, ?_⟩
  · intro fd dcfile refers
    simp only [fds] at refers
    have differ : i ≠ dcfile := by
      rintro rfl
      exact unreferenced fd refers
    obtain ⟨found, isFound, used, held⟩ := kept.refers fd dcfile refers
    exact ⟨found, (others dcfile differ).trans isFound, used, held⟩
  · intro dcfile found isFound used
    simp only [fds]
    by_cases same : i = dcfile
    · subst same
      rw [zero found isFound used, referrers_eq_zero_iff.mpr unreferenced]
      rfl
    · exact kept.counts dcfile found ((others dcfile same).symm.trans isFound) used

/-- What is kept depends on the descriptors and the records in use. -/
theorem Kept.congr (fds : fs'.fds = fs.fds) (records : fs.SameUsed fs')
    : Kept ⟨fs', origin⟩ := by
  have refersTo : targets fs' = targets fs := by
    funext fd
    unfold targets
    rw [fds]
  refine ⟨?_, ?_⟩
  · intro fd dcfile refers
    simp only [refersTo] at refers
    obtain ⟨con_file, there, used, held⟩ := kept.refers fd dcfile refers
    exact ⟨con_file, (records dcfile used).mpr there, used, held⟩
  · intro dcfile con_file there used
    simp only [refersTo]
    exact kept.counts dcfile con_file ((records dcfile used).mp there) used

/-- A descriptor that refers to no record is replaced by one that refers to none. -/
theorem Kept.setFd (unused : targets fs fd = none) (none : target f = none)
    : Kept ⟨fs.setFd fd f, origin⟩ := by
  refine (kept_rebind_iff kept rfl (fun _ => 0) ?_ (fun _ _ => rfl) ?_).mpr ?_
  · exact recounted_zero rfl
  · intro dcfile refers
    rw [none] at refers
    cases refers
  · intro dcfile _ _ _
    simp [none, unused]

variable (there : fs.con_files[i]? = some con_file)
include there

/-- Freeing a record keeps what was kept exactly if no descriptor refers to it. -/
theorem kept_free_iff
    : Kept ⟨fs.modifyRecord i free_con_file, origin⟩
      ↔ ∀ fd, targets fs fd ≠ some i := by
  have freed : (fs.modifyRecord i free_con_file).con_files[i]? = some con_file.free_con_file := by
    simp [modifyRecord, there]
  constructor
  · intro kept' fd refers
    obtain ⟨new, isNew, used, -⟩ := kept'.refers fd i refers
    obtain rfl := mem_unique freed isNew
    exact used rfl
  · intro unreferenced
    refine kept.replace unreferenced rfl ?_ ?_
    · intro dcfile differ
      simp [modifyRecord, differ]
    · intro new isNew used
      obtain rfl := mem_unique freed isNew
      exact absurd rfl used

/-- No descriptor refers to a free record. -/
theorem not_targets_free (free : con_file.state = .FREE) (fd : Fin MAX_FDS)
    : targets fs fd ≠ some i := by
  intro refers
  obtain ⟨found, isFound, used, -⟩ := kept.refers fd i refers
  obtain rfl := mem_unique there isFound
  exact used free

variable {new : DiskConFile}

/-- Using a free record keeps what was kept exactly if its count is zero. -/
theorem kept_use_iff (free : con_file.state = .FREE)
    : Kept ⟨fs.setRecord i new, origin⟩ ↔ (new.state ≠ .FREE → new.refcnt = 0) := by
  have unreferenced := not_targets_free kept there free
  have set : (fs.setRecord i new).con_files[i]? = some new := by
    simp [setRecord, (List.getElem?_eq_some_iff.mp there).1]
  constructor
  · intro kept' used
    have counts : new.refcnt = referrers (targets fs) i := kept'.counts i new set used
    rw [counts, referrers_eq_zero_iff.mpr unreferenced]
    rfl
  · intro zero
    refine kept.replace unreferenced rfl ?_ ?_
    · intro dcfile differ
      simp [setRecord, differ]
    · intro other isOther used
      obtain rfl := mem_unique set isOther
      exact zero used

variable (unused : targets fs fd = none) (refers : target f = some i)
  (others : ∀ other, other ≠ fd → origin' other = origin other)
include unused refers others

/-- A descriptor that refers to no record is bound to one in use. -/
theorem Kept.bind (used : con_file.state ≠ .FREE)
    (here : origin' fd = some (held con_file))
    : Kept ⟨(fs.setRecord i (con_file.addRefs 1)).setFd fd f, origin'⟩ := by
  have inside : i < fs.con_files.length := (List.getElem?_eq_some_iff.mp there).1
  refine (kept_rebind_iff kept rfl (fun dcfile => if i = dcfile then 1 else 0) ?_ others ?_).mpr ?_
  · intro dcfile
    change (fs.con_files.set i (con_file.addRefs 1))[dcfile]? = _
    rw [getElem?_set]
    by_cases same : i = dcfile
    · subst same
      rw [if_pos rfl, if_pos inside, there]
      simp
    · simp [same, addRefs]
  · intro dcfile isTarget
    obtain rfl : i = dcfile := mem_unique refers isTarget
    exact ⟨con_file, there, used, here⟩
  · intro dcfile _ _ _
    rw [refers, unused]
    simp

/-- The record may be a free one that is taken into use with count zero. -/
theorem Kept.bindNew (free : con_file.state = .FREE) (zero : new.refcnt = 0)
    (used : new.state ≠ .FREE) (here : origin' fd = some (held new))
    : Kept ⟨(fs.setRecord i (new.addRefs 1)).setFd fd f, origin'⟩ := by
  have inside : i < fs.con_files.length := (List.getElem?_eq_some_iff.mp there).1
  have taken : Kept ⟨fs.setRecord i new, origin⟩ :=
    (kept_use_iff kept there free).mpr fun _ => zero
  have there' : (fs.setRecord i new).con_files[i]? = some new := getElem?_set_self inside
  -- the record is set twice, the second time with the new count
  have same : (fs.setRecord i new).setRecord i (new.addRefs 1)
      = fs.setRecord i (new.addRefs 1) := by
    simp [setRecord]
  rw [← same]
  exact taken.bind there' unused refers others used here

end

-- Calls on descriptors

/-- An open descriptor refers to a record if it is concrete. -/
theorem target_open (isOpen : f.flags.eOpen = true) (dcfile : Nat)
    : target f = some dcfile ↔ f.type = .CONCRETE_FILE dcfile := by
  unfold target
  rw [isOpen]
  cases f.type <;> simp

theorem target_closed (closed : f.flags.eOpen = false) : target f = none := by
  unfold target
  rw [closed]

variable {number : Int}

theorem get_file_eq (found : fs.get_file number = some fd)
    : fdOf number = some fd ∧ (fs.fds fd).flags.eOpen = true :=
  filter_eq_some_iff.mp found

theorem fdOf_eq (found : fdOf number = some fd)
    : number = fd.val := by
  unfold fdOf at found
  split at found
  next valid =>
    cases found
    simp
    omega
  · cases found

theorem fdOf_val (fd : Fin MAX_FDS) : fdOf fd.val = some fd := by
  unfold fdOf
  rw [dif_pos ⟨by omega, by have := fd.isLt; omega⟩]
  simp

theorem unusedFd_closed (found : fs.unusedFd = some fd) : (fs.fds fd).flags.eOpen = false := by
  have closed := find?_some found
  simpa using closed

/-- What `close` leaves: nothing is changed but the descriptor and its count, if no failure
is injected.
-/
theorem close_tables (found : fs.get_file number = some fd)
    : (fs.closeFails = true
        ∧ (fs.close number).1.fds = fs.fds ∧ (fs.close number).1.con_files = fs.con_files)
      ∨ (fs.closeFails = false
        ∧ (fs.close number).1.fds = update fs.fds fd .zero
        ∧ Recounted fs (fs.close number).1
            fun dcfile => if targets fs fd = some dcfile then -1 else 0) := by
  unfold close
  rw [found]
  cases fails : fs.closeFails with
  | true => exact .inl ⟨rfl, rfl, rfl⟩
  | false =>
    refine .inr ⟨rfl, ?_, fun dcfile => ?_⟩
    · simp only [Bool.false_eq_true, if_false, setFd, addRef]
      split <;> rfl
    have concrete := target_open (get_file_eq found).2 dcfile
    simp only [Bool.false_eq_true, if_false, setFd, targets, concrete]
    exact addRef_con_files _ _ _ _

/-- The copy that `dup2` makes of a descriptor. -/
def copied (f : Descriptor) : Descriptor :=
  { f with flags := { f.flags with eCloseOnExec := false } }

theorem target_copied (fs : FileSystem) (fd : Fin MAX_FDS)
    : target (copied (fs.fds fd)) = targets fs fd :=
  rfl

theorem copyFd_fds (fs : FileSystem) (f : Descriptor) (fd : Fin MAX_FDS)
    : (fs.copyFd f fd).fds = update fs.fds fd (copied f) := by
  unfold copyFd addRef
  split <;> rfl

/-- What a copy leaves, of a descriptor that is as it was before another one was closed. -/
theorem copyFd_tables {closed : FileSystem} {old new : Fin MAX_FDS}
    (isOpen : (fs.fds old).flags.eOpen = true) (source : closed.fds old = fs.fds old)
    (fds : ∀ other, other ≠ new → closed.fds other = fs.fds other) {change : Nat → Int}
    (records : Recounted fs closed change)
    : (closed.copyFd (closed.fds old) new).fds = update fs.fds new (copied (fs.fds old))
      ∧ Recounted fs (closed.copyFd (closed.fds old) new)
          fun dcfile => change dcfile + if targets fs old = some dcfile then 1 else 0 := by
  constructor
  · rw [copyFd_fds, source]
    funext other
    by_cases same : other = new
    · subst same
      simp
    · simp [same, fds other same]
  · intro dcfile
    have concrete := target_open isOpen dcfile
    rw [copyFd, addRef_con_files]
    change (closed.con_files[dcfile]?).map _ = _
    rw [records dcfile, Option.map_map, source]
    congr 1
    funext con_file
    simp only [comp_apply, addRefs, targets, concrete]
    rw [Int.add_assoc]

section

variable {oldfd newfd : Int} {old new : Fin MAX_FDS}

theorem dup2_result (source : fs.get_file oldfd = some old) (destination : fdOf newfd = some new)
    : (fs.dup2 oldfd newfd).2 = newfd := by
  simp [dup2, source, destination]

/-- What `dup2` leaves, unless it closes the descriptor that it copies. A file that could not
be closed keeps its count.
-/
theorem dup2_tables (source : fs.get_file oldfd = some old) (destination : fdOf newfd = some new)
    (stays : old = new → fs.closeFails = true)
    : (fs.dup2 oldfd newfd).1.fds = update fs.fds new (copied (fs.fds old))
      ∧ Recounted fs (fs.dup2 oldfd newfd).1 fun dcfile =>
          (if targets fs new = some dcfile ∧ fs.closeFails = false then -1 else 0)
            + if targets fs old = some dcfile then 1 else 0 := by
  have isOpen := (get_file_eq source).2
  simp only [dup2, source, destination]
  rcases isOpen2 : (fs.fds new).flags.eOpen with _ | _
  · have unused : targets fs new = none := target_closed isOpen2
    exact copyFd_tables isOpen rfl (fun _ _ => rfl) (by simp [unused, recounted_zero])
  have found : fs.get_file newfd = some new := filter_eq_some_iff.mpr ⟨destination, isOpen2⟩
  rcases close_tables found with ⟨fails, fds, records⟩ | ⟨succeeds, fds, records⟩
  · exact copyFd_tables isOpen (by simp [fds]) (fun _ _ => by simp [fds])
      (by simp [recounted_zero records, fails])
  have apart : old ≠ new := by
    intro same
    rw [stays same] at succeeds
    cases succeeds
  exact copyFd_tables isOpen (by simp [fds, apart]) (fun _ away => by simp [fds, away])
    (by simpa [succeeds] using records)

end

section

variable (kept : Kept ⟨fs, origin⟩)
include kept

theorem close_kept (number : Int)
    : Kept ⟨(fs.close number).1, origin⟩ := by
  rcases found : fs.get_file number with _ | fd
  · unfold close
    rw [found]
    exact kept.congr rfl .refl
  rcases close_tables found with ⟨-, fds, records⟩ | ⟨-, fds, records⟩
  · exact kept.congr fds (.of_eq records)
  · refine (kept_rebind_iff kept fds _ records (fun _ _ => rfl) ?_).mpr ?_
    · intro dcfile refers
      cases refers
    · intro dcfile _ _ _
      split <;> simp

/-- `dup2` between different descriptors counts wrongly exactly if a failure is injected
while it closes a concrete file.
-/
theorem dup2_kept_iff {oldfd newfd : Int} (differ : oldfd ≠ newfd)
    : Kept ⟨(fs.dup2 oldfd newfd).1, fun fd =>
          if (fs.dup2 oldfd newfd).2 = fd.val then (fdOf oldfd).bind origin
          else origin fd⟩
      ↔ ∀ f f2, fs.get_file oldfd = some f → fdOf newfd = some f2
          → targets fs f2 ≠ none → fs.closeFails = false := by
  have failed (fd : Fin MAX_FDS) : (-1 : Int) ≠ fd.val := by omega
  rcases source : fs.get_file oldfd with _ | f
  · simp only [dup2, source, if_neg (failed _)]
    exact iff_of_true kept (by simp)
  rcases destination : fdOf newfd with _ | f2
  · simp only [dup2, source, destination, if_neg (failed _)]
    exact iff_of_true kept (by simp)
  obtain ⟨isF, isOpen⟩ := get_file_eq source
  have isF2 := fdOf_eq destination
  have apart : f ≠ f2 := by
    rintro rfl
    exact differ ((fdOf_eq isF).trans isF2.symm)
  have others (other : Fin MAX_FDS) (away : other ≠ f2)
      : (if newfd = other.val then (fdOf oldfd).bind origin
        else origin other) = origin other := by
    rw [if_neg]
    intro same
    exact away (Fin.ext (by omega))
  have here : (if newfd = (f2.val : Int) then (fdOf oldfd).bind origin
      else origin f2) = origin f := by
    rw [if_pos isF2, isF]
    rfl
  obtain ⟨fds, records⟩ := dup2_tables source destination fun same => absurd same apart
  rw [dup2_result source destination, kept_rebind_iff kept fds _ records others ?_]
  · constructor
    · rintro follows _ _ - ⟨rfl⟩ concrete
      obtain ⟨dcfile, isTarget⟩ := ne_none_iff_exists'.mp concrete
      obtain ⟨con_file, there, used, -⟩ := kept.refers f2 dcfile isTarget
      have counted := follows dcfile con_file there used
      rw [target_copied, isTarget] at counted
      by_contra fails
      simp [fails] at counted
      omega
    · intro succeeds dcfile _ _ _
      rw [target_copied]
      by_cases refers : targets fs f2 = some dcfile
      · have closes := succeeds f f2 rfl rfl (by simp [refers])
        simp [refers, closes]
        omega
      · simp [refers]
  · intro dcfile refers
    obtain ⟨con_file, there, used, held⟩ := kept.refers f dcfile refers
    exact ⟨con_file, there, used, here.trans held⟩

/-- `dup` copies onto a descriptor that is not open. -/
theorem dup_kept (oldfd : Int)
    : Kept ⟨(fs.dup oldfd).1, fun fd =>
        if (fs.dup oldfd).2 = fd.val then (fdOf oldfd).bind origin
        else origin fd⟩ := by
  unfold dup
  rcases source : fs.get_file oldfd with _ | f
  · exact kept
  rcases unused : fs.unusedFd with _ | fd
  · exact kept
  obtain ⟨isF, isOpen⟩ := get_file_eq source
  have closed := unusedFd_closed unused
  refine (dup2_kept_iff kept ?_).mpr ?_
  · intro same
    have := fdOf_eq isF
    obtain rfl : f = fd := Fin.ext (by omega)
    rw [isOpen] at closed
    cases closed
  · intro _ f2 _ isF2 concrete
    rw [fdOf_val] at isF2
    cases isF2
    exact absurd (target_closed closed) concrete

-- Calls on names

theorem freeNamed_kept_iff (pathname : String) (missing : Int)
    : Kept ⟨(fs.freeNamed host pathname missing).1, origin⟩
      ↔ Unreferenced fs host pathname := by
  unfold freeNamed Unreferenced
  rcases resolved : host.realpath pathname with _ | rpath
  · exact iff_of_true kept (by simp)
  dsimp only
  cases search : fs.find_con_file rpath with
  | mk found free_file =>
    cases found with
    | none =>
      refine iff_of_true kept ?_
      rintro _ i ⟨rfl⟩ found
      rw [search] at found
      cases found
    | some i =>
      have found : (fs.find_con_file rpath).1 = some i := by rw [search]
      obtain ⟨con_file, there, -⟩ := find_con_file_found found
      rw [kept_free_iff kept there]
      constructor
      · rintro unreferenced _ _ ⟨rfl⟩ same
        obtain rfl := mem_unique found same
        exact unreferenced
      · intro unreferenced
        exact unreferenced rpath i rfl found

end

/-- The record that is taken has the count that was there before. -/
theorem newRecord_count (nonempty : 0 < fs.con_files.length) (host : Host) (filename : String)
    : ∃ con_file, (fs.newRecord host (fs.find_con_file filename).2).1.con_files[
          (fs.newRecord host (fs.find_con_file filename).2).2]? = some con_file
        ∧ con_file.state = .FREE
        ∧ newCount fs host (fs.find_con_file filename).2 = some con_file.refcnt := by
  obtain ⟨con_file, there, free⟩ := fs.newRecord_free host filename nonempty
  refine ⟨con_file, there, free, ?_⟩
  cases found : (fs.find_con_file filename).2 with
  | some i =>
    rw [found] at there
    exact congrArg (Option.map refcnt) there
  | none =>
    rw [found] at there
    simp only [newRecord, enlarge_con_files] at there
    simp [nonempty] at there
    subst there
    rfl

theorem Kept.newRecord (kept : Kept ⟨fs, origin⟩) (host : Host) (free_file : Option Nat)
    : Kept ⟨(fs.newRecord host free_file).1, origin⟩ :=
  kept.congr (fs.newRecord_fds host free_file) (fs.newRecord_used host free_file)

/-- A directory keeps the count of the record that it takes. -/
theorem mkdir_kept_iff (kept : Kept ⟨fs, origin⟩) (nonempty : 0 < fs.con_files.length)
    (pathname : String) (mode : UInt32)
    : Kept ⟨(fs.mkdir host pathname mode).1, origin⟩
      ↔ ∀ rpath, host.realpath pathname = some rpath → fs.lstat host rpath = false
          → (fs.find_con_file rpath).1 = none
          → newCount fs host (fs.find_con_file rpath).2 = some 0 := by
  unfold mkdir
  rcases resolved : host.realpath pathname with _ | rpath
  · exact iff_of_true kept (by simp)
  simp only [some.injEq, forall_eq']
  cases present : fs.lstat host rpath with
  | true => exact iff_of_true kept (by simp)
  | false =>
    obtain ⟨con_file, there, free, count⟩ := newRecord_count nonempty host rpath
    cases search : fs.find_con_file rpath with
    | mk found free_file =>
      cases found with
      | some i => exact iff_of_true kept (by simp)
      | none =>
        simp only [search] at there count
        simp only [Bool.false_eq_true, if_false, forall_const, count]
        rw [modifyRecord_eq there, kept_use_iff (kept.newRecord host _) there free]
        simp [directory]

-- Opening

theorem heldBy_bindFd (there : fs.con_files[i]? = some con_file) (accmode : AccessMode)
    : heldBy (fs.bindFd fd accmode i new) fd = some (held new) := by
  have inside : i < fs.con_files.length := (List.getElem?_eq_some_iff.mp there).1
  have refers : targets (fs.bindFd fd accmode i new) fd = some i := by
    simp [targets, target, bindFd, setFd, openFlags]
  have record : (fs.bindFd fd accmode i new).con_files[i]? = some (new.addRefs 1) :=
    getElem?_set_self inside
  simp only [heldBy, refers, bind_some, record, map_some]
  rfl

/-- What `open` leaves: the descriptor in its result is opened on what it refers to now. -/
def OpenKept (origin : Fin MAX_FDS → Option Held) (result : FileSystem × Int) : Prop :=
  Kept ⟨result.1, fun fd => if result.2 = fd.val then heldBy result.1 fd else origin fd⟩
  ∧ 0 < result.1.con_files.length

theorem openKept_failed (kept : Kept ⟨fs, origin⟩) (nonempty : 0 < fs.con_files.length)
    : OpenKept origin (fs, -1) := by
  refine ⟨?_, nonempty⟩
  exact kept

/-- A record is opened, given that what was kept is kept for the origins that this makes. -/
theorem openKept_bindFd (there : fs.con_files[i]? = some con_file) (accmode : AccessMode)
    (kept : ∀ origin', (∀ other, other ≠ fd → origin' other = origin other)
      → origin' fd = some (held new) → Kept ⟨fs.bindFd fd accmode i new, origin'⟩)
    : OpenKept origin (fs.bindFd fd accmode i new, fd.val) := by
  have inside : i < fs.con_files.length := (List.getElem?_eq_some_iff.mp there).1
  refine ⟨kept _ ?_ ?_, ?_⟩
  · intro other away
    exact if_neg fun same => away (Fin.ext (by omega))
  · simp only [if_true]
    exact heldBy_bindFd there accmode
  · change 0 < (fs.con_files.set i _).length
    rw [length_set]
    omega

theorem fd_open_kept (kept : Kept ⟨fs, origin⟩) (nonempty : 0 < fs.con_files.length)
    (pathname : String) (flags : OpenFlags) (mode : UInt32)
    : OpenKept origin (fs.fd_open host pathname flags mode) := by
  unfold fd_open
  rcases unused : fs.unusedFd with _ | fd
  · exact openKept_failed kept nonempty
  have cleared : Kept ⟨fs.setFd fd .zero, origin⟩ :=
    kept.setFd (target_closed (unusedFd_closed unused)) target_zero
  have closed : targets (fs.setFd fd .zero) fd = none := by
    simp [targets, setFd, target_zero]
  have nonempty : 0 < (fs.setFd fd .zero).con_files.length := nonempty
  dsimp only
  generalize fs.setFd fd .zero = clear at cleared closed nonempty ⊢
  split
  · exact openKept_failed cleared nonempty
  rcases resolved : host.realpath pathname with _ | con_fullpath
  · exact openKept_failed cleared nonempty
  obtain ⟨con_file, there, free⟩ := clear.newRecord_free host con_fullpath nonempty
  dsimp only
  split
  next i _ search =>
    have found : (clear.find_con_file con_fullpath).1 = some i := by rw [search]
    obtain ⟨con_file, there, holds⟩ := find_con_file_found found
    split
    · exact openKept_failed cleared nonempty
    · simp only [there]
      exact openKept_bindFd there _ fun _ others =>
        cleared.bind there closed rfl others holds.1
  next free_file search =>
    simp only [search] at there
    have kept := cleared.newRecord host free_file
    have longer := nonempty.trans_le (clear.newRecord_length host free_file)
    obtain ⟨zero, opened⟩ := (clear.newRecord host free_file).1.openRecord_spec host
      pathname con_fullpath flags mode con_file
    simp only [there]
    split
    next isOpened =>
      have closed : targets (clear.newRecord host free_file).1 fd = none := by
        rw [targets, newRecord_fds]
        exact closed
      exact openKept_bindFd there _ fun _ others =>
        kept.bindNew there closed rfl others free zero (opened isOpened).1
    · refine openKept_failed ((kept_use_iff kept there free).mpr fun _ => zero) ?_
      rw [setRecord, length_set]
      exact longer

-- Runs

/-- What is kept between calls; the table is never empty. -/
structure Inv (state : Opened) : Prop extends Kept state where
  nonempty : 0 < state.fs.con_files.length

@[simp]
theorem dup2_length (fs : FileSystem) (oldfd newfd : Int)
    : (fs.dup2 oldfd newfd).1.con_files.length = fs.con_files.length := by
  unfold dup2
  split
  · split <;> simp [copyFd, setFd]
  · rfl

@[simp]
theorem dup_length (fs : FileSystem) (oldfd : Int)
    : (fs.dup oldfd).1.con_files.length = fs.con_files.length := by
  unfold dup
  split
  · rfl
  · split <;> simp

@[simp]
theorem freeNamed_length (fs : FileSystem) (host : Host) (pathname : String) (missing : Int)
    : (fs.freeNamed host pathname missing).1.con_files.length = fs.con_files.length := by
  unfold freeNamed
  split
  · rfl
  · split <;> simp [modifyRecord]

theorem mkdir_length (fs : FileSystem) (host : Host) (pathname : String) (mode : UInt32)
    : fs.con_files.length ≤ (fs.mkdir host pathname mode).1.con_files.length := by
  unfold mkdir
  split
  · rfl
  split
  · rfl
  split
  · rfl
  · simpa [modifyRecord] using fs.newRecord_length host _

/-- One call: what is kept is kept exactly if the call is careful. -/
theorem Step.kept_iff {state after : Opened} {call : Call} (step : Step state call after)
    (inv : Inv state)
    : (Kept after ↔ CarefulCall state.fs call) ∧ 0 < after.fs.con_files.length := by
  have kept : Kept ⟨state.fs, state.origin⟩ := inv.toKept
  have nonempty := inv.nonempty
  cases step with
  | serve legal =>
    cases call with
    | fd_open host pathname flags mode =>
      have opened : OpenKept state.origin (state.fs.fd_open host pathname flags mode) :=
        fd_open_kept kept nonempty pathname flags mode
      exact ⟨iff_of_true opened.1 trivial, opened.2⟩
    | close fd =>
      exact ⟨iff_of_true (close_kept kept fd) trivial,
        nonempty.trans_eq (close_length state.fs fd).symm⟩
    | dup oldfd =>
      exact ⟨iff_of_true (dup_kept kept oldfd) trivial,
        nonempty.trans_eq (dup_length state.fs oldfd).symm⟩
    | dup2 oldfd newfd =>
      exact ⟨dup2_kept_iff kept legal, nonempty.trans_eq (dup2_length state.fs oldfd newfd).symm⟩
    | unlink host pathname =>
      exact ⟨freeNamed_kept_iff kept pathname (-1),
        nonempty.trans_eq (freeNamed_length state.fs host pathname (-1)).symm⟩
    | rmdir host pathname =>
      exact ⟨freeNamed_kept_iff kept pathname 0,
        nonempty.trans_eq (freeNamed_length state.fs host pathname 0).symm⟩
    | mkdir host pathname mode =>
      exact ⟨mkdir_kept_iff kept nonempty pathname mode,
        nonempty.trans_le (mkdir_length state.fs host pathname mode)⟩

-- The start

/-- Every descriptor is opened on what it refers to. -/
def Opened.start (fs : FileSystem) : Opened where
  fs
  origin := heldBy fs

theorem Kept.start (kept : Kept ⟨fs, origin⟩) : Kept (.start fs) := by
  refine ⟨?_, kept.counts⟩
  intro fd dcfile refers
  obtain ⟨con_file, there, used, -⟩ := kept.refers fd dcfile refers
  refine ⟨con_file, there, used, ?_⟩
  simp only [Opened.start] at refers ⊢
  simp [heldBy, refers, there]

/-- A standard descriptor is bound to a record that was free. -/
theorem setup_std_fd_kept (kept : Kept ⟨fs, origin⟩) (isOpen : (fs.fds fd).flags.eOpen = true)
    (unused : targets fs fd = none) (there : fs.con_files[i]? = some con_file)
    (free : con_file.state = .FREE) (path : String)
    : ∃ origin', Kept ⟨fs.setup_std_fd host fd i path, origin'⟩ := by
  let new : DiskConFile :=
    { con_file with
      refcnt := 0
      fd := host.sys_open path
      state := .STD
      name := names path
      size := 0
      contents := [] }
  refine ⟨update origin fd (some (held new)), ?_⟩
  unfold setup_std_fd
  rw [modifyRecord_eq there]
  have zero : new.refcnt = 0 := rfl
  have used : new.state ≠ .FREE := by simp [new]
  refine kept.bindNew there unused ?_ ?_ free zero used ?_
  · simp [target, isOpen]
  · exact fun other away => update_of_ne away _ _
  · exact update_self ..

/-- The first descriptors are set up; the others refer to no record, and there is a free
record for each of them.
-/
structure Starting (ready : Nat) (fs : FileSystem) : Prop where
  kept : ∃ origin, Kept ⟨fs, origin⟩
  length : fs.con_files.length = INITIAL_CON_FILES
  unused : ∀ fd : Fin MAX_FDS, ready ≤ fd.val → targets fs fd = none
  isOpen : ∀ fd : Fin MAX_FDS, ready ≤ fd.val → fd.val ≤ 2 → (fs.fds fd).flags.eOpen = true
  free : ∀ (i : Nat) (con_file : DiskConFile), ready ≤ i → fs.con_files[i]? = some con_file
    → con_file.state = .FREE

section

variable {ready : Nat} (starting : Starting ready fs) (isReady : fd.val = ready)
include starting isReady

/-- The next descriptor is set up. -/
theorem Starting.next (kept : ∃ origin, Kept ⟨fs', origin⟩) (fds : fs'.fds = update fs.fds fd f)
    (length : fs'.con_files.length = fs.con_files.length)
    (records : ∀ i : Nat, i ≠ ready → fs'.con_files[i]? = fs.con_files[i]?)
    : Starting (ready + 1) fs' := by
  have same (other : Fin MAX_FDS) (later : ready + 1 ≤ other.val)
      : fs'.fds other = fs.fds other := by
    rw [fds, update_of_ne]
    rintro rfl
    omega
  refine ⟨kept, length.trans starting.length, ?_, ?_, ?_⟩
  · intro other later
    rw [targets, same other later]
    exact starting.unused other (by omega)
  · intro other later
    rw [same other later]
    exact starting.isOpen other (by omega)
  · intro i con_file later there
    rw [records i (by omega)] at there
    exact starting.free i con_file (by omega) there

theorem Starting.setup_std_fd (standard : ready ≤ 2) (host : Host) (path : String)
    : Starting (ready + 1) (fs.setup_std_fd host fd ready path) := by
  obtain ⟨origin, kept⟩ := starting.kept
  have inside : ready < fs.con_files.length := by
    rw [starting.length, INITIAL_CON_FILES]
    omega
  have there : fs.con_files[ready]? = some fs.con_files[ready] := getElem?_eq_getElem inside
  refine starting.next isReady ?_ rfl (by simp [FileSystem.setup_std_fd, setFd, modifyRecord]) ?_
  · exact setup_std_fd_kept kept (starting.isOpen fd isReady.ge (by omega))
      (starting.unused fd isReady.ge) there (starting.free _ _ le_rfl there) path
  · intro i away
    simp [FileSystem.setup_std_fd, setFd, modifyRecord, away.symm]

theorem Starting.setFd (symbolic : target f = none) : Starting (ready + 1) (fs.setFd fd f) := by
  obtain ⟨origin, kept⟩ := starting.kept
  exact starting.next isReady ⟨origin, kept.setFd (starting.unused fd isReady.ge) symbolic⟩ rfl rfl
    fun _ _ => rfl

end

section

variable (host : Host) (sym_stdin sym_stdout : Bool) (max_failures : Nat) (close_fail : Int)
  (etc_symbolic sym_specific : Bool) (symbolic_size : Int)

/-- Before anything is set up all records are free. -/
theorem starting_zero
    : Starting 0 (allocated host max_failures close_fail etc_symbolic sym_specific
        symbolic_size) := by
  have unused (fd : Fin MAX_FDS) : target (stdFds fd) = none := by
    unfold stdFds
    split
    · rfl
    · split <;> rfl
  have free (i : Nat) (con_file : DiskConFile)
      (there : (allocated host max_failures close_fail etc_symbolic sym_specific
        symbolic_size).con_files[i]? = some con_file)
      : con_file.state = .FREE := by
    simp [allocated] at there
    obtain ⟨_, _, rfl⟩ := there
    rfl
  refine ⟨⟨fun _ => none, ?_, ?_⟩, by simp [allocated], fun fd _ => unused fd, ?_,
    fun i con_file _ => free i con_file⟩
  · intro fd dcfile refers
    exact absurd ((unused fd).symm.trans refers) (by simp)
  · intro dcfile con_file there used
    exact absurd (free dcfile con_file there) used
  · intro fd _ standard
    change (stdFds fd).flags.eOpen = true
    unfold stdFds
    split
    · rfl
    · simp

/-- After `klee_init_fds` each standard descriptor has a record, unless it is symbolic. -/
theorem klee_init_fds_inv
    : Inv (.start (klee_init_fds host sym_stdin sym_stdout max_failures close_fail
        etc_symbolic sym_specific symbolic_size)) := by
  have symbolic (f : Descriptor) (dfile : Nat) : target { f with type := .SYMBOLIC_FILE dfile }
      = none := by
    unfold target
    cases f.flags.eOpen <;> rfl
  have starting : Starting 3 (klee_init_fds host sym_stdin sym_stdout max_failures
      close_fail etc_symbolic sym_specific symbolic_size) := by
    have zero := starting_zero host max_failures close_fail etc_symbolic sym_specific symbolic_size
    unfold klee_init_fds
    generalize allocated .. = fs at zero ⊢
    refine Starting.setup_std_fd (?_ : Starting 2 _) rfl le_rfl host "/dev/stderr"
    cases sym_stdin with
    | true =>
      have one := zero.setFd (rfl : (0 : Fin MAX_FDS).val = 0) (symbolic (fs.fds 0) 0)
      cases sym_stdout with
      | true => exact one.setFd rfl (symbolic _ 1)
      | false => exact one.setup_std_fd rfl (by omega) host "/dev/stdout"
    | false =>
      have one := zero.setup_std_fd (rfl : (0 : Fin MAX_FDS).val = 0) (by omega) host "/dev/stdin"
      cases sym_stdout with
      | true => exact one.setFd rfl (symbolic _ 1)
      | false => exact one.setup_std_fd rfl (by omega) host "/dev/stdout"
  obtain ⟨origin, kept⟩ := starting.kept
  refine ⟨kept.start, ?_⟩
  rw [Opened.start, starting.length]
  decide

/-- From the start, descriptors and counts are right throughout a sequence of calls exactly
when every call is careful.
-/
theorem sound_iff_careful_descriptors {trace : List (Transition Opened Call)} {finish : Opened}
    (run : Run (Takes Step)
      (.start (klee_init_fds host sym_stdin sym_stdout max_failures close_fail
        etc_symbolic sym_specific symbolic_size)) trace finish)
    : (∀ transition ∈ trace, Sound transition) ↔ ∀ transition ∈ trace, Careful transition := by
  refine run.forall_iff Inv (klee_init_fds_inv ..) fun transition step inv => ?_
  obtain ⟨kept, nonempty⟩ := step.kept_iff inv
  exact ⟨kept, fun careful => ⟨kept.mpr careful, nonempty⟩⟩

end

/-- A host without the files that are named, whose paths are the names themselves. New
memory is filled with `0xAB`.
-/
def emptyHost : Host where
  realpath path := some path
  get_realpath path := path
  sys_open _ := -1
  sys_access _ := false
  sys_lstat _ := false
  file_size _ := -1
  file_contents _ := none
  symbolic _ := 0
  uninit _ :=
    { size := 0, buf_size := 0, contents := [], mode := 0, refcnt := -1414812757, name := []
      fd := -1, state := .FREE }

def created : FileSystem.OpenFlags where
  O_CREAT := true
  O_EXCL := false
  O_ACCMODE := .O_RDWR

/-- The tables after `klee_init_fds` without symbolic files and failures. -/
def started : Opened :=
  .start (FileSystem.klee_init_fds emptyHost false false 0 0 false false 0)

/-- Witness: a file is created and closed, and its name is removed. -/
theorem sound_iff_careful_descriptors_closed
    : ∃ trace finish, Run (Takes Step) started trace finish
        ∧ trace.map Transition.label
          = [.fd_open emptyHost "/a" created 0, .close 3, .unlink emptyHost "/a"]
        ∧ ∀ transition ∈ trace, Sound transition := by
  let closed := advance (advance started (.fd_open emptyHost "/a" created 0)) (.close 3)
  have run := ((Run.nil.record (Step.serve started (.fd_open emptyHost "/a" created 0)
    trivial)).record (Step.serve _ (.close 3) trivial)).record
    (Step.serve closed (.unlink emptyHost "/a") trivial)
  refine ⟨_, _, run, rfl, (sound_iff_careful_descriptors emptyHost false false 0 0 false false 0
    run).mpr ?_⟩
  intro transition member
  simp at member
  rcases member with rfl | rfl | rfl
  · trivial
  · trivial
  have place : (closed.fs.find_con_file "/a").1 = some 31 := by decide +kernel
  have unreferenced : ∀ fd, targets closed.fs fd ≠ some 31 := by decide +kernel
  rintro _ i ⟨rfl⟩ found
  obtain rfl := mem_unique place found
  exact unreferenced

theorem created_kept : Kept (advance started (.fd_open emptyHost "/a" created 0)) := by
  have inv : Inv started := klee_init_fds_inv ..
  have step := Step.serve started (.fd_open emptyHost "/a" created 0) trivial
  exact (step.kept_iff inv).1.mpr trivial

/-- The name of a file that is open is removed: descriptor 3 refers to a free record. A new
directory has a count that no descriptor stands for.
-/
theorem unlinked_while_open
    : let opened := advance started (.fd_open emptyHost "/a" created 0)
      let unlinked := advance opened (.unlink emptyHost "/a")
      let made := advance started (.mkdir emptyHost "/d" 0)
      Kept opened ∧ targets unlinked.fs 3 = some 31
      ∧ (unlinked.fs.con_files[31]?).map (·.state) = some .FREE ∧ ¬ Kept unlinked
      ∧ (made.fs.con_files[31]?).map (fun con_file => (con_file.state, con_file.refcnt))
        = some (.INMEM, -1414812757)
      ∧ ¬ Kept made := by
  intro opened unlinked made
  have refers : targets unlinked.fs 3 = some 31 := by decide +kernel
  have freed : (unlinked.fs.con_files[31]?).map (·.state) = some .FREE := by decide +kernel
  have counted : (made.fs.con_files[31]?).map (fun con_file => (con_file.state, con_file.refcnt))
      = some (.INMEM, -1414812757) := by
    decide +kernel
  refine ⟨created_kept, refers, freed, ?_, counted, ?_⟩
  · intro stillKept
    obtain ⟨con_file, there, used, -⟩ := stillKept.refers 3 31 refers
    simp [there] at freed
    exact used freed
  · intro stillKept
    obtain ⟨con_file, there, same⟩ := map_eq_some_iff.mp counted
    obtain ⟨state, refcnt⟩ := Prod.mk.inj same
    have counts := stillKept.counts 31 con_file there (by simp [state])
    omega

-- What `dup2` is for

section

variable {oldfd newfd : Int} {old new : Fin MAX_FDS}

/-- The descriptor is open on the same file, at the same offset and for the same access. -/
def SameFile (f f' : Descriptor) : Prop :=
  f'.flags.eOpen = true ∧ f'.type = f.type ∧ f'.fd = f.fd ∧ f'.off = f.off
  ∧ f'.flags.eReadable = f.flags.eReadable ∧ f'.flags.eWriteable = f.flags.eWriteable

/-- The record to which the descriptor refers, if any, counts its descriptors. -/
def Counted (fs : FileSystem) (fd : Fin MAX_FDS) : Prop :=
  ∀ dcfile, targets fs fd = some dcfile → ∃ con_file : DiskConFile,
    fs.con_files[dcfile]? = some con_file ∧ con_file.refcnt = referrers (targets fs) dcfile

/-- What `dup2` is for. -/
structure Duplicated (fs : FileSystem) (old new : Fin MAX_FDS) (after : FileSystem)
    (result : Int) : Prop where
  result : result = new.val
  source : SameFile (fs.fds old) (after.fds old)
  copy : SameFile (fs.fds old) (after.fds new)
  others : ∀ fd, fd ≠ old → fd ≠ new → after.fds fd = fs.fds fd
  counted : Counted after old

theorem dup2_counted_iff (counted : Counted fs old)
    (fds : fs'.fds = update fs.fds new (copied (fs.fds old)))
    (records : Recounted fs fs' fun dcfile =>
      (if targets fs new = some dcfile ∧ fs.closeFails = false then -1 else 0)
        + if targets fs old = some dcfile then 1 else 0)
    : Counted fs' old
      ↔ (fs.closeFails = true → targets fs new = targets fs old → targets fs old = none) := by
  have refersTo := targets_update fds
  have stays : targets fs' old = targets fs old := by
    rw [refersTo]
    by_cases same : old = new
    · subst same
      simp [target_copied]
    · simp [same]
  unfold Counted
  rw [stays]
  rcases refers : targets fs old with _ | dcfile
  · simp
  obtain ⟨con_file, there, before⟩ := counted dcfile refers
  have after := referrers_update (targets fs) new (targets fs old) dcfile
  simp only [refers, if_true] at after
  simp [records dcfile, there, refersTo, target_copied, refers, addRefs, before, after]
  by_cases shared : targets fs new = some dcfile
  · cases fs.closeFails <;> simp [shared]
  · simp [shared]

/-- `dup2` does what it is for unless it closes the descriptor that it copies, or fails to
close another descriptor on the same record.
-/
theorem dup2_duplicated_iff (isOpen : fs.get_file oldfd = some old)
    (inRange : fdOf newfd = some new) (counted : Counted fs old)
    : Duplicated fs old new (fs.dup2 oldfd newfd).1 (fs.dup2 oldfd newfd).2
      ↔ (old = new → fs.closeFails = true)
        ∧ (fs.closeFails = true → targets fs new = targets fs old → targets fs old = none) := by
  have opened := (get_file_eq isOpen).2
  by_cases stays : old = new → fs.closeFails = true
  · obtain ⟨fds, records⟩ := dup2_tables isOpen inRange stays
    have sameCopy : SameFile (fs.fds old) (copied (fs.fds old)) :=
      ⟨opened, rfl, rfl, rfl, rfl, rfl⟩
    rw [and_iff_right stays, ← dup2_counted_iff counted fds records]
    refine ⟨Duplicated.counted, fun countedAfter => ⟨?_, ?_, ?_, ?_, countedAfter⟩⟩
    · rw [dup2_result isOpen inRange, fdOf_eq inRange]
    · rw [fds]
      by_cases same : old = new
      · subst same
        simpa using sameCopy
      · rw [update_of_ne same]
        exact ⟨opened, rfl, rfl, rfl, rfl, rfl⟩
    · simpa [fds] using sameCopy
    · intro fd _ away
      rw [fds, update_of_ne away]
  · refine iff_of_false ?_ fun condition => stays condition.1
    intro duplicated
    obtain ⟨rfl, succeeds⟩ := Classical.not_imp.mp stays
    have isOpen2 := duplicated.copy.1
    have found : fs.get_file newfd = some old := filter_eq_some_iff.mpr ⟨inRange, opened⟩
    rcases close_tables found with ⟨fails, -⟩ | ⟨-, fds, -⟩
    · exact succeeds fails
    · simp [dup2, isOpen, inRange, opened, copyFd_fds, fds, copied, Descriptor.zero] at isOpen2

end

theorem Kept.counted (kept : Kept ⟨fs, origin⟩) (fd : Fin MAX_FDS) : Counted fs fd := by
  intro dcfile refers
  obtain ⟨con_file, there, used, -⟩ := kept.refers fd dcfile refers
  exact ⟨con_file, there, kept.counts dcfile con_file there used⟩

/-- Witness: the descriptor of a new file is duplicated to a free descriptor. -/
theorem dup2_duplicated_iff_apart
    : let opened := (advance started (.fd_open emptyHost "/a" created 0)).fs
      targets opened 3 = some 31
      ∧ Duplicated opened 3 5 (opened.dup2 3 5).1 (opened.dup2 3 5).2 := by
  intro opened
  refine ⟨by decide +kernel, (dup2_duplicated_iff ?_ ?_ (created_kept.counted 3)).mpr ⟨?_, ?_⟩⟩
  · decide +kernel
  · decide +kernel
  · decide
  · decide +kernel

/-- Counterexample: the descriptor of a new file is duplicated to itself. It is closed, and
the call returns it.
-/
theorem dup2_closes_itself
    : let opened := (advance started (.fd_open emptyHost "/a" created 0)).fs
      opened.get_file 3 = some 3 ∧ Counted opened 3
      ∧ (opened.dup2 3 3).2 = 3 ∧ ((opened.dup2 3 3).1.fds 3).flags.eOpen = false
      ∧ ¬ Duplicated opened 3 3 (opened.dup2 3 3).1 (opened.dup2 3 3).2 := by
  intro opened
  have closed : ((opened.dup2 3 3).1.fds 3).flags.eOpen = false := by decide +kernel
  refine ⟨by decide +kernel, created_kept.counted 3, by decide +kernel, closed, ?_⟩
  intro duplicated
  have isOpen := duplicated.copy.1
  cases isOpen

end Woodpecker.Posix.Descriptors
