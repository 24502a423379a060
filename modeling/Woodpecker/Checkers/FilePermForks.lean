import Mathlib.Data.String.Basic
import Woodpecker.Checkers.FilePerm
import Woodpecker.Library.Heaps
import Woodpecker.Library.Runs

/-! File permission checkers over forks: the records of all checkers are in one heap, each
event goes to one checker, and checkers are copied and destroyed.

Closing a descriptor deletes its record and leaves the entry for the descriptor behind. As
long as no recorded descriptor is closed, every pointer of every checker leads to a record of
its own.
-/

namespace Woodpecker.Checkers

open Library List Heap Option

namespace FilePermChecker

inductive Event where
  | onCall (memory : Memory) (call : Call)
  | onRet (memory : Memory) (ret : Return)

def respond (checker : FilePermChecker) : Event → Except Fault (FilePermChecker × Result)
  | .onCall memory call => checker.onCall memory call
  | .onRet memory ret => checker.onRet memory ret

inductive Operation where
  | access (filename : String) (mode : UInt32)
  | openFile (filename : String) (fd : UInt64)
  | close (fd : UInt64)
deriving DecidableEq, Repr

/-- The operation an event is. The descriptor is known at the call for native code and at the
return for interpreted code.
-/
def Event.operation : Event → Option Operation
  | .onCall memory call =>
    if call.funcname = "open" ∨ call.funcname = "open64" then
      call.args.map fun args => .openFile (memory.string (args 2)) (args 0)
    else if call.funcname = "close" then
      some (.close (call.args.elim (getIntFromExp (call.arguments 0)) fun args => args 2))
    else if call.funcname = "access" ∨ call.funcname = "stat" ∨ call.funcname = "stat64" then
      some (.access (call.args.elim (memory.charPtr (call.arguments 0))
        fun args => memory.string (args 2)) (accessMode call))
    else none
  | .onRet memory ret =>
    ret.funcname.bind fun funcname =>
      if funcname = "open" ∨ funcname = "open64" then
        some (.openFile (memory.charPtr (ret.getCallingArgument 1))
          (getIntFromExp ret.result))
      else none

def handle (checker : FilePermChecker) : Operation → Except Fault (FilePermChecker × Result)
  | .access filename mode => checker.parseAccess filename mode
  | .openFile filename fd => checker.parseOpen filename fd
  | .close fd => checker.parseClose fd

/-- What an outcome leaves of the checker. -/
def left (outcome : Except Fault (FilePermChecker × Result)) : Except Fault FilePermChecker :=
  outcome.map Prod.fst

theorem left_needs (outcome : Except Fault (FilePermChecker × Result)) (need_args : Result)
    : left (needs outcome need_args) = left outcome := by
  cases outcome <;> rfl

/-- Handling an event is handling its operation. -/
theorem left_respond (checker : FilePermChecker) (event : Event)
    : left (checker.respond event)
      = event.operation.elim (.ok checker) fun operation => left (checker.handle operation) := by
  cases event with
  | onCall memory call =>
    simp only [respond, onCall, Event.operation]
    split
    · cases call.args with
      | none => rfl
      | some args => exact left_needs _ _
    split
    · cases call.args <;> exact left_needs _ _
    split
    · cases call.args <;> exact left_needs _ _
    · rfl
  | onRet memory ret =>
    simp only [respond, onRet, Event.operation]
    cases ret.funcname with
    | none => rfl
    | some funcname =>
      simp only [bind_some]
      split
      · exact left_needs _ _
      · rfl

-- Checkers of many paths

/-- The checker of one path, with the descriptors the path has opened and not closed since;
these the checker itself does not keep.
-/
structure Branch where
  files : Table String (List Nat)
  files_by_fd : Table UInt64 Nat
  open_fds : Finset UInt64

/-- The records of all checkers, and the checker of each path; one that was destroyed is
`none`.
-/
structure Forks where
  objects : Heap FileObject
  branches : List (Option Branch)

def Branch.checker (branch : Branch) (objects : Heap FileObject) : FilePermChecker :=
  ⟨objects, branch.files, branch.files_by_fd⟩

/-- A checker as that of a path with these open descriptors. -/
def toBranch (checker : FilePermChecker) (open_fds : Finset UInt64) : Branch :=
  ⟨checker.files, checker.files_by_fd, open_fds⟩

/-- The descriptors that are open after an operation. -/
def track (open_fds : Finset UInt64) : Option Operation → Finset UInt64
  | some (.openFile _ fd) => insert fd open_fds
  | some (.close fd) => open_fds.erase fd
  | _ => open_fds

namespace Forks

def start : Forks where
  objects := []
  branches := [some ⟨[], [], ∅⟩]

def onEvent (forks : Forks) (index : Nat) (branch : Branch) (event : Event)
    : Except Fault Forks := do
  let checker ← left ((branch.checker forks.objects).respond event)
  let after := checker.toBranch (track branch.open_fds event.operation)
  .ok ⟨checker.objects, forks.branches.set index (some after)⟩

/-- The copy of the checker goes with the new path, which has the same open descriptors. -/
def onCopy (forks : Forks) (branch : Branch) : Except Fault Forks := do
  let copied ← (branch.checker forks.objects).clone
  .ok ⟨copied.objects, forks.branches ++ [some (copied.toBranch branch.open_fds)]⟩

def onDestroy (forks : Forks) (index : Nat) (branch : Branch) : Except Fault Forks := do
  let destroyed ← (branch.checker forks.objects).destroy
  .ok ⟨destroyed.objects, forks.branches.set index none⟩

end Forks

inductive Label where
  | event (index : Nat) (event : Event)
  | copy (index : Nat)
  | destroy (index : Nat)

/-- Steps go to a checker that exists. A failed assertion or a bad pointer ends the run. -/
inductive Step : Except Fault Forks → Label → Except Fault Forks → Prop
  | event {forks : Forks} {index : Nat} (branch : Branch) (event : Event)
    (exists_ : forks.branches[index]? = some (some branch))
    : Step (.ok forks) (.event index event) (forks.onEvent index branch event)
  | copy {forks : Forks} {index : Nat} (branch : Branch)
    (exists_ : forks.branches[index]? = some (some branch))
    : Step (.ok forks) (.copy index) (forks.onCopy branch)
  | destroy {forks : Forks} {index : Nat} (branch : Branch)
    (exists_ : forks.branches[index]? = some (some branch))
    : Step (.ok forks) (.destroy index) (forks.onDestroy index branch)

/-- The records of one name: one that was accessed and not opened, or some that are open. -/
def Named (objects : Heap FileObject) (file_list : List Nat) : Prop :=
  (∃ pointer object,
    file_list = [pointer] ∧ objects.read pointer = some object ∧ object.state = .accessed)
  ∨ (file_list ≠ []
    ∧ ∀ pointer ∈ file_list, ∃ object,
        objects.read pointer = some object ∧ object.state = .clean)

/-- What is to hold of a checker: what its names lead to, that its entries for descriptors
lead to live records it has under some name, and that only open descriptors have one.
-/
structure Branch.Sound (objects : Heap FileObject) (branch : Branch) : Prop where
  names : ∀ name file_list, branch.files.find? name = some file_list
    → Named objects file_list
  entries : ∀ fd pointer, branch.files_by_fd.find? fd = some pointer
    → (objects.read pointer).isSome
      ∧ ∃ name file_list, branch.files.find? name = some file_list ∧ pointer ∈ file_list
  closed : ∀ fd, fd ∉ branch.open_fds → branch.files_by_fd.find? fd = none

/-- No step has failed, and every checker is sound. -/
def Sound : Except Fault Forks → Prop
  | .ok forks => ∀ (index : Nat) (branch : Branch), forks.branches[index]? = some (some branch)
      → branch.Sound forks.objects
  | .error _ => False

/-- The step does not close a descriptor that has an entry. -/
def Careful (transition : Transition (Except Fault Forks) Label) : Prop :=
  ∀ forks index event branch fd,
    transition.before = .ok forks
    → transition.label = .event index event
    → forks.branches[index]? = some (some branch)
    → event.operation = some (.close fd)
    → branch.files_by_fd.find? fd = none

-- One checker

/-- The record is reached through a name of the checker. -/
def Branch.Owns (branch : Branch) (pointer : Nat) : Prop :=
  ∃ entry ∈ branch.files, pointer ∈ entry.2

/-- What keeps a checker sound: no record is reached twice, and a record that has a
descriptor is entered for one.
-/
structure Branch.Valid (objects : Heap FileObject) (branch : Branch) : Prop where
  ordered : branch.files.Ordered
  named : ∀ entry ∈ branch.files, Named objects entry.2
  nodup : ∀ entry ∈ branch.files, entry.2.Nodup
  apart : ∀ entry ∈ branch.files, ∀ other ∈ branch.files, entry.1 ≠ other.1
    → entry.2.Disjoint other.2
  owned : ∀ fd pointer, branch.files_by_fd.find? fd = some pointer → branch.Owns pointer
  entered : ∀ pointer object, branch.Owns pointer → objects.read pointer = some object
    → object.fd ≠ minusOne → (branch.files_by_fd.find? object.fd).isSome
  closed : ∀ fd, fd ∉ branch.open_fds → branch.files_by_fd.find? fd = none

variable {objects after : Heap FileObject} {branch : Branch} {file_list : List Nat}
  {pointer : Nat} {checker : FilePermChecker}

theorem Named.live (named : Named objects file_list) (member : pointer ∈ file_list)
    : ∃ object, objects.read pointer = some object := by
  rcases named with ⟨only, object, rfl, found, -⟩ | ⟨-, clean⟩
  · obtain rfl := mem_singleton.mp member
    exact ⟨object, found⟩
  · obtain ⟨object, found, -⟩ := clean pointer member
    exact ⟨object, found⟩

/-- Only the records of the list matter. -/
theorem Named.frame (named : Named objects file_list)
    (same : ∀ pointer ∈ file_list, after.read pointer = objects.read pointer)
    : Named after file_list := by
  rcases named with ⟨only, object, rfl, found, accessed⟩ | ⟨nonempty, clean⟩
  · exact .inl ⟨only, object, rfl, (same only (by simp)).trans found, accessed⟩
  · refine .inr ⟨nonempty, ?_⟩
    intro pointer member
    rw [same pointer member]
    exact clean pointer member

theorem Branch.Valid.live (valid : branch.Valid objects) (owns : branch.Owns pointer)
    : ∃ object, objects.read pointer = some object := by
  obtain ⟨entry, member, inside⟩ := owns
  exact (valid.named entry member).live inside

/-- Work that leaves the records of a checker alone leaves the checker valid. -/
theorem Branch.Valid.frame (valid : branch.Valid objects)
    (same : ∀ pointer, branch.Owns pointer → after.read pointer = objects.read pointer)
    : branch.Valid after := by
  refine { valid with named := ?_, entered := ?_ }
  · intro entry member
    exact (valid.named entry member).frame fun pointer inside =>
      same pointer ⟨entry, member, inside⟩
  · intro pointer object owns found
    rw [same pointer owns] at found
    exact valid.entered pointer object owns found

theorem Branch.Valid.sound (valid : branch.Valid objects) : branch.Sound objects where
  names _ _ found := valid.named _ ((Table.find?_eq_some_iff valid.ordered).mp found)
  entries fd pointer found := by
    have owns := valid.owned fd pointer found
    obtain ⟨object, live⟩ := valid.live owns
    obtain ⟨entry, member, inside⟩ := owns
    exact ⟨by simp [live], entry.1, entry.2,
      (Table.find?_eq_some_iff valid.ordered).mpr member, inside⟩
  closed := valid.closed

theorem valid_empty (open_fds : Finset UInt64) : (⟨[], [], open_fds⟩ : Branch).Valid objects where
  ordered := .nil
  named := by simp
  nodup := by simp
  apart := by simp
  owned := by simp [Table.find?]
  entered := by simp [Branch.Owns]
  closed := by simp [Table.find?]

variable {name : String} {files_by_fd : Table UInt64 Nat} {open_fds : Finset UInt64}
  {object : FileObject}

theorem deref_of_read (found : read checker.objects pointer = some object)
    : checker.deref pointer = .ok object := by
  unfold Heap.read at found
  unfold deref
  cases held : checker.objects[pointer]? with
  | none => simp [held] at found
  | some cell =>
    rw [held, join_some] at found
    rw [found]

/-- The search of `access` stops at the first open record. -/
theorem anyClean_named (named : Named checker.objects file_list)
    : (∃ pointer object,
        file_list = [pointer] ∧ checker.deref pointer = .ok object ∧ object.state = .accessed
        ∧ checker.anyClean file_list = .ok false)
      ∨ checker.anyClean file_list = .ok true := by
  rcases named with ⟨only, object, rfl, found, accessed⟩ | ⟨nonempty, clean⟩
  · refine .inl ⟨only, object, rfl, deref_of_read found, accessed, ?_⟩
    simp [anyClean, deref_of_read found, accessed]
  · right
    cases file_list with
    | nil => exact absurd rfl nonempty
    | cons first rest =>
      obtain ⟨object, found, open_⟩ := clean first (by simp)
      simp [anyClean, deref_of_read found, open_]

/-- The search of `open` goes through records that are all open. -/
theorem anyAccessed_clean (clean : ∀ pointer ∈ file_list, ∃ object,
      read checker.objects pointer = some object ∧ object.state = .clean)
    : checker.anyAccessed file_list = .ok false := by
  induction file_list with
  | nil => rfl
  | cons first rest ih =>
    obtain ⟨object, found, open_⟩ := clean first (by simp)
    have later := ih fun pointer member => clean pointer (by simp [member])
    simp [anyAccessed, deref_of_read found, open_, later]

/-- The record of the earlier entry can be read. -/
theorem readEarlier_live {fd : UInt64}
    (live : ∀ pointer, checker.files_by_fd.find? fd = some pointer
      → (read checker.objects pointer).isSome)
    : checker.readEarlier fd = .ok () := by
  unfold readEarlier
  cases found : checker.files_by_fd.find? fd with
  | none => rfl
  | some pointer =>
    obtain ⟨object, read⟩ := isSome_iff_exists.mp (live pointer found)
    simp [deref_of_read read]

/-- What a careful operation does to a checker. -/
inductive Effect (checker : FilePermChecker) : Operation → FilePermChecker → Prop
  | kept (operation : Operation)
    (unentered : ∀ fd, operation = .close fd → checker.files_by_fd.find? fd = none)
    : Effect checker operation checker
  | access (filename : String) (mode : UInt32)
    (absent : checker.files.find? filename = none)
    : Effect checker (.access filename mode)
        { checker with
          objects := Heap.push checker.objects
            ((FileObject.create filename minusOne minusOne).setState .accessed)
          files := checker.files.assign filename [checker.objects.length] }
  | openFile (filename : String) (fd : UInt64)
    (clean : ∀ pointer ∈ (checker.files.find? filename).getD [], ∃ object,
      Heap.read checker.objects pointer = some object ∧ object.state = .clean)
    : Effect checker (.openFile filename fd)
        { objects := Heap.push checker.objects
            ((FileObject.create filename minusOne fd).setState .clean)
          files := checker.files.assign filename
            ((checker.files.find? filename).getD [] ++ [checker.objects.length])
          files_by_fd := checker.files_by_fd.assign fd checker.objects.length }

/-- A name leads to one accessed record, or to open ones only, if to any. -/
theorem clean_or_accessed (sound : branch.Sound objects) (filename : String)
    : (∃ pointer object, (branch.checker objects).files.find? filename = some [pointer]
        ∧ (branch.checker objects).deref pointer = .ok object ∧ object.state = .accessed)
      ∨ ∀ pointer ∈ ((branch.checker objects).files.find? filename).getD [], ∃ object,
          read (branch.checker objects).objects pointer = some object
          ∧ object.state = .clean := by
  cases found : (branch.checker objects).files.find? filename with
  | none => exact .inr (by simp)
  | some file_list =>
    rcases sound.names filename file_list found with
      ⟨only, object, rfl, read, accessed⟩ | ⟨-, clean⟩
    · exact .inl ⟨only, object, rfl, deref_of_read read, accessed⟩
    · exact .inr clean

variable {operation : Operation}

/-- No assertion fails and no bad pointer is read for an operation that does not close a
recorded descriptor.
-/
theorem handle_effect (sound : branch.Sound objects)
    (unentered : ∀ fd, operation = .close fd → branch.files_by_fd.find? fd = none)
    : ∃ after,
        left ((branch.checker objects).handle operation) = .ok after
        ∧ Effect (branch.checker objects) operation after := by
  cases operation with
  | access filename mode =>
    have kept : Effect (branch.checker objects) (.access filename mode)
        (branch.checker objects) := .kept _ (by simp)
    simp only [handle, parseAccess]
    split
    · exact ⟨_, rfl, kept⟩
    cases found : (branch.checker objects).files.find? filename with
    | none => exact ⟨_, rfl, .access filename mode found⟩
    | some file_list =>
      have named : Named (branch.checker objects).objects file_list :=
        sound.names filename file_list found
      rcases anyClean_named named with ⟨only, object, rfl, read, accessed, unclean⟩ | clean
      · exact ⟨_, by simp [unclean, read, accessed, left]; rfl, kept⟩
      · exact ⟨_, by simp [clean, left]; rfl, kept⟩
  | openFile filename fd =>
    rcases clean_or_accessed sound filename with ⟨only, object, found, read, accessed⟩ | clean
    · refine ⟨branch.checker objects, ?_, .kept _ (by simp)⟩
      simp [handle, parseOpen, found, anyAccessed, read, accessed, left]
      rfl
    refine ⟨_, ?_, .openFile filename fd clean⟩
    have searched := anyAccessed_clean clean
    simp only [handle, parseOpen, searched, ok_bind, allocate]
    rw [readEarlier_live]
    · rfl
    intro pointer entered
    obtain ⟨live, -⟩ := sound.entries fd pointer entered
    obtain ⟨object, read⟩ := isSome_iff_exists.mp live
    have old := lt_of_read read
    change (Heap.read (Heap.push objects _) pointer).isSome
    rw [read_push, if_neg (by omega), read]
    rfl
  | close fd =>
    have absent : (branch.checker objects).files_by_fd.find? fd = none := unentered fd rfl
    refine ⟨branch.checker objects, ?_, .kept _ unentered⟩
    simp only [handle, parseClose, absent]
    rfl

/-- Records that are there can be read as before after others have been added. -/
def Grows (objects after : Heap FileObject) : Prop :=
  objects.length ≤ after.length
  ∧ ∀ pointer, pointer < objects.length → after.read pointer = objects.read pointer

theorem grows_push (object : FileObject) : Grows objects (objects.push object) := by
  refine ⟨by simp, ?_⟩
  intro pointer old
  rw [read_push, if_neg (by omega)]

theorem Grows.refl (objects : Heap FileObject) : Grows objects objects :=
  ⟨Nat.le_refl _, fun _ _ => rfl⟩

variable {middle : Heap FileObject}

theorem Grows.trans (first : Grows objects middle) (second : Grows middle after)
    : Grows objects after := by
  refine ⟨Nat.le_trans first.1 second.1, ?_⟩
  intro pointer old
  rw [second.2 pointer (Nat.lt_of_lt_of_le old first.1), first.2 pointer old]

theorem Branch.Valid.lt (valid : branch.Valid objects) (owns : branch.Owns pointer)
    : pointer < objects.length := by
  obtain ⟨object, found⟩ := valid.live owns
  exact lt_of_read found

/-- What a step does for its own checker: the checker stays valid, the heap grows, and all
records the checker gains are new ones.
-/
structure Served (objects after : Heap FileObject) (branch next : Branch) : Prop where
  valid : next.Valid after
  grows : Grows objects after
  fresh : ∀ pointer, next.Owns pointer → branch.Owns pointer ∨ objects.length ≤ pointer

/-- Adding new records for a name, with entries for the descriptors that they have, serves the
checker.
-/
theorem Branch.Valid.enter {fresh : List Nat} (valid : branch.Valid objects)
    (grows : Grows objects after)
    (named : Named after ((branch.files.find? name).getD [] ++ fresh)) (nodup : fresh.Nodup)
    (new : ∀ pointer ∈ fresh, objects.length ≤ pointer)
    (owned : ∀ fd pointer, files_by_fd.find? fd = some pointer
      → branch.files_by_fd.find? fd = some pointer ∨ pointer ∈ fresh)
    (grown : ∀ fd, (branch.files_by_fd.find? fd).isSome → (files_by_fd.find? fd).isSome)
    (entered : ∀ pointer ∈ fresh, ∀ object, after.read pointer = some object
      → object.fd ≠ minusOne → (files_by_fd.find? object.fd).isSome)
    (closed : ∀ fd, fd ∉ open_fds → files_by_fd.find? fd = none)
    : Served objects after branch
        ⟨branch.files.assign name ((branch.files.find? name).getD [] ++ fresh), files_by_fd,
          open_fds⟩ := by
  have inside {entry : String × List Nat}
      : entry ∈ branch.files.assign name ((branch.files.find? name).getD [] ++ fresh)
        ↔ entry = (name, (branch.files.find? name).getD [] ++ fresh)
          ∨ (entry ∈ branch.files ∧ entry.1 ≠ name) :=
    Table.mem_assign_iff valid.ordered
  have before : (branch.files.find? name).getD [] = []
      ∨ (name, (branch.files.find? name).getD []) ∈ branch.files := by
    cases found : branch.files.find? name with
    | none => exact .inl rfl
    | some old => exact .inr ((Table.find?_eq_some_iff valid.ordered).mp found)
  have held {entry : String × List Nat} (member : entry ∈ branch.files) (same : entry.1 = name)
      : (branch.files.find? name).getD [] = entry.2 := by
    rw [← same, (Table.find?_eq_some_iff valid.ordered).mpr member, getD_some]
  revert inside before held named
  generalize (branch.files.find? name).getD [] = old
  intro named inside before held
  have listed {pointer : Nat} (member : pointer ∈ old) : branch.Owns pointer :=
    before.elim (fun none => absurd member (by simp [none])) fun entry => ⟨_, entry, member⟩
  have unowned {pointer : Nat} (made : pointer ∈ fresh) : ¬ branch.Owns pointer := fun owns =>
    Nat.not_lt.mpr (new pointer made) (valid.lt owns)
  have apart {entry : String × List Nat} (member : entry ∈ branch.files)
      (elsewhere : entry.1 ≠ name)
      : (old ++ fresh).Disjoint entry.2 := by
    intro pointer either there
    rcases mem_append.mp either with earlier | made
    · rcases before with none | some
      · simp [none] at earlier
      · exact valid.apart entry member _ some elsewhere there earlier
    · exact unowned made ⟨entry, member, there⟩
  have gains {pointer : Nat}
      (owns : (⟨branch.files.assign name (old ++ fresh), files_by_fd, open_fds⟩ : Branch).Owns
        pointer)
      : branch.Owns pointer ∨ pointer ∈ fresh := by
    obtain ⟨entry, member, there⟩ := owns
    rcases inside.mp member with rfl | ⟨earlier, -⟩
    · exact (mem_append.mp there).imp_left listed
    · exact .inl ⟨entry, earlier, there⟩
  have same (pointer : Nat) (owns : branch.Owns pointer)
      : after.read pointer = objects.read pointer :=
    grows.2 pointer (valid.lt owns)
  refine ⟨{
    ordered := valid.ordered.assign name _
    named := ?_, nodup := ?_, apart := ?_, owned := ?_, entered := ?_, closed }, grows, ?_⟩
  · intro entry member
    rcases inside.mp member with rfl | ⟨earlier, -⟩
    · exact named
    · exact (valid.named entry earlier).frame fun pointer there =>
        same pointer ⟨entry, earlier, there⟩
  · intro entry member
    rcases inside.mp member with rfl | ⟨earlier, -⟩
    · refine nodup_append.mpr ⟨?_, nodup, ?_⟩
      · exact before.elim (fun none => none ▸ .nil) (valid.nodup _)
      · rintro pointer earlier _ made rfl
        exact unowned made (listed earlier)
    · exact valid.nodup entry earlier
  · intro entry member other otherMember differ
    rcases inside.mp member with rfl | ⟨earlier, elsewhere⟩
    · rcases inside.mp otherMember with rfl | ⟨otherEarlier, otherElsewhere⟩
      · exact absurd rfl differ
      · exact apart otherEarlier otherElsewhere
    rcases inside.mp otherMember with rfl | ⟨otherEarlier, -⟩
    · exact (apart earlier elsewhere).symm
    · exact valid.apart entry earlier other otherEarlier differ
  · intro fd pointer found
    rcases owned fd pointer found with earlier | made
    · obtain ⟨entry, member, there⟩ := valid.owned fd pointer earlier
      by_cases renewed : entry.1 = name
      · rw [← held member renewed] at there
        exact ⟨_, inside.mpr (.inl rfl), mem_append_left _ there⟩
      · exact ⟨entry, inside.mpr (.inr ⟨member, renewed⟩), there⟩
    · exact ⟨_, inside.mpr (.inl rfl), mem_append_right _ made⟩
  · intro pointer object owns found real
    rcases gains owns with earlier | made
    · rw [same pointer earlier] at found
      exact grown _ (valid.entered pointer object earlier found real)
    · exact entered pointer made object found real
  · exact fun pointer owns => (gains owns).imp_right (new pointer)

/-- A careful operation serves its checker. -/
theorem Effect.served (valid : branch.Valid objects)
    (effect : Effect (branch.checker objects) operation checker)
    : Served objects checker.objects branch
        (checker.toBranch (track branch.open_fds (some operation))) := by
  cases effect with
  | kept _ unentered =>
    refine ⟨?_, .refl _, fun _ owns => .inl owns⟩
    refine { valid with closed := ?_ }
    intro fd outside
    cases operation with
    | access filename mode => exact valid.closed fd outside
    | openFile filename opened =>
      simp [toBranch, track] at outside
      exact valid.closed fd outside.2
    | close closed =>
      by_cases same : fd = closed
      · subst same
        exact unentered fd rfl
      · simp [toBranch, track, not_and] at outside
        exact valid.closed fd (outside same)
  | access filename mode absent =>
    have empty : (branch.files.find? filename).getD [] = [] := by
      change branch.files.find? filename = none at absent
      rw [absent, getD_none]
    have served := valid.enter (grows_push _)
      (.inl ⟨objects.length, (FileObject.create filename minusOne minusOne).setState .accessed,
        by rw [empty, nil_append], by rw [read_push, if_pos rfl], rfl⟩)
      (nodup_singleton _) (by simp) (fun fd pointer found => .inl found)
      (fun fd found => found) (by simp [read_push, FileObject.create, FileObject.setState])
      valid.closed
    rw [empty, nil_append] at served
    exact served
  | openFile filename fd clean =>
    dsimp only [Branch.checker, toBranch]
    apply valid.enter (grows_push _)
    · refine .inr ⟨by simp, forall_mem_append.mpr ⟨fun pointer before => ?_,
        forall_mem_singleton.mpr ⟨_, by rw [read_push, if_pos rfl], rfl⟩⟩⟩
      obtain ⟨object, found, open_⟩ := clean pointer before
      have old := lt_of_read found
      exact ⟨object, ((grows_push _).2 pointer old).trans found, open_⟩
    · exact nodup_singleton _
    · exact fun _ made => (mem_singleton.mp made).ge
    · intro other pointer found
      rw [Table.find?_assign] at found
      split at found
      · exact .inr (mem_singleton.mpr (some.inj found).symm)
      · exact .inl found
    · intro other found
      rw [Table.find?_assign]
      split
      · rfl
      · exact found
    · simp [read_push, Table.find?_assign, FileObject.create, FileObject.setState]
    · intro other outside
      simp [track] at outside
      rw [Table.find?_assign, if_neg outside.1]
      exact valid.closed other outside.2

-- Copies

variable {next : Branch}

theorem Served.trans {between : Branch} (first : Served objects middle branch between)
    (second : Served middle after between next)
    : Served objects after branch next where
  valid := second.valid
  grows := first.grows.trans second.grows
  fresh := by
    intro pointer owns
    rcases second.fresh pointer owns with earlier | made
    · exact first.fresh pointer earlier
    · exact .inr (Nat.le_trans first.grows.1 made)

/-- What copying the records of one name does: each copy is new and reads as a record it was
made from, and the copies with a descriptor are entered.
-/
structure Copies (before after : FilePermChecker) (file_list my_vec : List Nat) : Prop where
  grows : Grows before.objects after.objects
  files : after.files = before.files
  length : my_vec.length = file_list.length
  fresh : ∀ copy ∈ my_vec, before.objects.length ≤ copy
  nodup : my_vec.Nodup
  records : ∀ copy ∈ my_vec, ∃ pointer ∈ file_list,
    Heap.read after.objects copy = Heap.read before.objects pointer
  owned : ∀ fd copy, after.files_by_fd.find? fd = some copy
    → before.files_by_fd.find? fd = some copy
      ∨ (copy ∈ my_vec
        ∧ ∃ pointer ∈ file_list, ∃ object, Heap.read before.objects pointer = some object
          ∧ object.fd = fd ∧ fd ≠ minusOne)
  grown : ∀ fd, (before.files_by_fd.find? fd).isSome → (after.files_by_fd.find? fd).isSome
  entered : ∀ copy ∈ my_vec, ∀ object, Heap.read after.objects copy = some object
    → object.fd ≠ minusOne → (after.files_by_fd.find? object.fd).isSome

/-- The checker while the copy of one record is made. -/
def copyOne (checker : FilePermChecker) (object : FileObject) : FilePermChecker :=
  let (copied, fresh) := checker.allocate object
  if object.fd ≠ minusOne then
    { copied with files_by_fd := copied.files_by_fd.assign object.fd fresh }
  else copied

theorem copyOne_objects (checker : FilePermChecker) (object : FileObject)
    : (checker.copyOne object).objects = push checker.objects object := by
  unfold copyOne
  dsimp only [allocate]
  split <;> rfl

/-- The copy of one more record is made before the others. -/
theorem Copies.cons {last : FilePermChecker} {rest my_vec : List Nat}
    (found : read checker.objects pointer = some object)
    (live : ∀ other ∈ rest, other < checker.objects.length)
    (copies : Copies (checker.copyOne object) last rest my_vec)
    : Copies checker last (pointer :: rest) (checker.objects.length :: my_vec) := by
  have table (fd : UInt64)
      : (checker.copyOne object).files_by_fd.find? fd
        = if object.fd ≠ minusOne ∧ fd = object.fd then some checker.objects.length
          else checker.files_by_fd.find? fd := by
    unfold copyOne
    dsimp only [allocate]
    split
    next real => simp [Table.find?_assign, real]
    next missing => simp [missing]
  have grows : Grows checker.objects (checker.copyOne object).objects :=
    copyOne_objects checker object ▸ grows_push object
  have newer (copy : Nat) (member : copy ∈ my_vec) : checker.objects.length < copy := by
    have := copies.fresh copy member
    simp only [copyOne_objects, length_push] at this
    omega
  have read : read last.objects checker.objects.length = some object := by
    rw [copies.grows.2 _ (by simp [copyOne_objects]), copyOne_objects, read_push, if_pos rfl]
  refine {
    grows := grows.trans copies.grows
    files := copies.files.trans ?_, length := by simp [copies.length]
    fresh := forall_mem_cons.mpr ⟨Nat.le_refl _, fun copy member => (newer copy member).le⟩
    nodup := copies.nodup.cons fun again => Nat.lt_irrefl _ (newer _ again)
    records := forall_mem_cons.mpr ⟨⟨pointer, by simp, read.trans found.symm⟩, ?_⟩
    owned := ?_, grown := ?_, entered := forall_mem_cons.mpr ⟨?_, copies.entered⟩ }
  · unfold copyOne
    dsimp only [allocate]
    split <;> rfl
  · intro copy member
    obtain ⟨other, listed, same⟩ := copies.records copy member
    exact ⟨other, by simp [listed], same.trans (grows.2 other (live other listed))⟩
  · intro fd copy entry
    rcases copies.owned fd copy entry with before | ⟨made, other, listed, kept, isKept, real⟩
    · rw [table] at before
      split at before
      next here =>
        cases before
        exact .inr ⟨by simp, pointer, by simp, object, found, here.2.symm, here.2 ▸ here.1⟩
      · exact .inl before
    · rw [grows.2 other (live other listed)] at isKept
      exact .inr ⟨by simp [made], other, by simp [listed], kept, isKept, real⟩
  · intro fd entry
    refine copies.grown fd ?_
    rw [table]
    split
    · rfl
    · exact entry
  · intro copied copiedRead real
    obtain rfl := mem_unique read copiedRead
    refine copies.grown _ ?_
    rw [table, if_pos ⟨real, rfl⟩]
    rfl

/-- Copying live records succeeds, by induction on the list. -/
theorem copyList_copies (live : ∀ pointer ∈ file_list, ∃ object,
      read checker.objects pointer = some object)
    : ∃ after my_vec, checker.copyList file_list = .ok (after, my_vec)
        ∧ Copies checker after file_list my_vec := by
  induction file_list generalizing checker with
  | nil =>
    refine ⟨checker, [], rfl, ?_⟩
    exact {
      grows := .refl _
      files := rfl, length := rfl, fresh := by simp, nodup := .nil, records := by simp
      owned := fun _ _ entry => .inl entry, grown := fun _ entry => entry
      entered := by simp }
  | cons pointer rest ih =>
    obtain ⟨object, found⟩ := live pointer (by simp)
    have older : ∀ other ∈ rest, other < checker.objects.length := by
      intro other member
      obtain ⟨_, read⟩ := live other (by simp [member])
      exact lt_of_read read
    have liveAfter : ∀ other ∈ rest, ∃ kept,
        read (checker.copyOne object).objects other = some kept := by
      intro other member
      rw [copyOne_objects, (grows_push object).2 other (older other member)]
      exact live other (by simp [member])
    obtain ⟨after, my_vec, copied, copies⟩ := ih liveAfter
    refine ⟨after, checker.objects.length :: my_vec, ?_, copies.cons found older⟩
    have step : checker.copyList (pointer :: rest) = (checker.deref pointer).bind fun object =>
        ((checker.copyOne object).copyList rest).bind fun copied =>
          .ok (copied.1, checker.objects.length :: copied.2) := rfl
    rw [step, deref_of_read found, Except.bind, copied, Except.bind]

variable {copied : FilePermChecker} {my_vec : List Nat}

section

variable (copies : Copies checker copied file_list my_vec)
include copies

/-- The copies of the records of a name are such records themselves. -/
theorem Copies.named (named : Named checker.objects file_list)
    : Named copied.objects my_vec := by
  rcases named with ⟨only, object, rfl, found, accessed⟩ | ⟨nonempty, clean⟩
  · obtain ⟨copy, rfl⟩ := length_eq_one_iff.mp copies.length
    obtain ⟨pointer, listed, read⟩ := copies.records copy (by simp)
    obtain rfl := mem_singleton.mp listed
    exact .inl ⟨copy, object, rfl, read.trans found, accessed⟩
  · refine .inr ⟨?_, ?_⟩
    · intro empty
      apply nonempty
      rw [← length_eq_zero_iff, ← copies.length, empty, length_nil]
    · intro copy member
      obtain ⟨pointer, listed, read⟩ := copies.records copy member
      rw [read]
      exact clean pointer listed

/-- What is still to be copied: records of names that the copy does not have yet, with
descriptors that are open.
-/
structure Remaining (copied : FilePermChecker) (open_fds : Finset UInt64)
    (rest : Table String (List Nat))
    : Prop where
  ordered : rest.Ordered
  absent : ∀ entry ∈ rest, copied.files.find? entry.1 = none
  named : ∀ entry ∈ rest, Named copied.objects entry.2
  opened : ∀ entry ∈ rest, ∀ pointer ∈ entry.2, ∀ object,
    Heap.read copied.objects pointer = some object → object.fd ≠ minusOne
    → object.fd ∈ open_fds

variable {rest : Table String (List Nat)}

/-- The copies of one name are entered under it. -/
theorem Copies.served (valid : (checker.toBranch open_fds).Valid checker.objects)
    (remaining : Remaining checker open_fds ((name, file_list) :: rest))
    : Served checker.objects copied.objects (checker.toBranch open_fds)
        (toBranch { copied with files := copied.files.assign name my_vec } open_fds) := by
  have empty : ((checker.toBranch open_fds).files.find? name).getD [] = [] := by
    rw [toBranch, remaining.absent (name, file_list) (by simp), getD_none]
  have named : Named copied.objects
      (((checker.toBranch open_fds).files.find? name).getD [] ++ my_vec) := by
    rw [empty]
    exact copies.named (remaining.named (name, file_list) (by simp))
  have closed (fd : UInt64) (outside : fd ∉ open_fds) : copied.files_by_fd.find? fd = none := by
    rw [eq_none_iff_forall_ne_some]
    intro copy entry
    rcases copies.owned fd copy entry with before | ⟨-, pointer, listed, object, read, rfl, real⟩
    · exact absurd ((valid.closed fd outside).symm.trans before) (by simp)
    · exact outside (remaining.opened (name, file_list) (by simp) pointer listed object read real)
  have served := valid.enter copies.grows named copies.nodup copies.fresh
    (fun fd copy entry => (copies.owned fd copy entry).imp_right And.left) copies.grown
    copies.entered closed
  rw [empty, nil_append] at served
  rw [copies.files]
  exact served

theorem Remaining.tail (remaining : Remaining checker open_fds ((name, file_list) :: rest))
    : Remaining { copied with files := copied.files.assign name my_vec } open_fds rest := by
  obtain ⟨smaller, restOrdered⟩ := pairwise_cons.mp remaining.ordered
  have same {entry : String × List Nat} (member : entry ∈ rest) {pointer : Nat}
      (listed : pointer ∈ entry.2)
      : read copied.objects pointer = read checker.objects pointer := by
    obtain ⟨_, read⟩ := (remaining.named entry (by simp [member])).live listed
    exact copies.grows.2 pointer (lt_of_read read)
  refine ⟨restOrdered, ?_, ?_, ?_⟩
  · intro entry member
    have later : entry.1 ≠ name := fun equal =>
      irrefl_of (· < ·) name (equal ▸ smaller entry member)
    rw [Table.find?_assign, if_neg later, copies.files]
    exact remaining.absent entry (by simp [member])
  · intro entry member
    exact (remaining.named entry (by simp [member])).frame fun pointer listed =>
      same member listed
  · intro entry member pointer listed object read
    rw [same member listed] at read
    exact remaining.opened entry (by simp [member]) pointer listed object read

end

/-- Copying the names one after the other, by induction on those that remain. -/
theorem copyFiles_served (valid : (checker.toBranch open_fds).Valid checker.objects)
    (remaining : Remaining checker open_fds rest)
    : ∃ copied, checker.copyFiles rest = .ok copied
        ∧ Served checker.objects copied.objects (checker.toBranch open_fds)
            (copied.toBranch open_fds) := by
  induction rest generalizing checker with
  | nil => exact ⟨checker, rfl, valid, .refl _, fun _ owns => .inl owns⟩
  | cons entry rest ih =>
    obtain ⟨name, file_list⟩ := entry
    obtain ⟨copied, my_vec, outcome, copies⟩ := copyList_copies fun pointer listed =>
      (remaining.named (name, file_list) (by simp)).live listed
    have served := copies.served valid remaining
    obtain ⟨last, rest_outcome, restServed⟩ := ih served.valid (remaining.tail copies)
    refine ⟨last, ?_, served.trans restServed⟩
    simp only [copyFiles, outcome, ok_bind]
    exact rest_outcome

/-- A copy of a valid checker is valid and has records of its own. -/
theorem clone_served (valid : branch.Valid objects)
    : ∃ copied, (branch.checker objects).clone = .ok copied
        ∧ Served objects copied.objects ⟨[], [], branch.open_fds⟩
            (copied.toBranch branch.open_fds) := by
  apply copyFiles_served (valid_empty branch.open_fds)
  refine ⟨valid.ordered, by simp [Table.find?], valid.named, ?_⟩
  intro entry member pointer listed object read real
  by_contra outside
  have entered := valid.entered pointer object ⟨entry, member, listed⟩ read real
  simp [valid.closed object.fd outside] at entered

/-- Deleting different live records succeeds and leaves the others alone, by induction on the
list.
-/
theorem deleteAll_live {pointers : List Nat} (nodup : pointers.Nodup)
    (live : ∀ pointer ∈ pointers, ∃ object, read checker.objects pointer = some object)
    : ∃ after, checker.deleteAll pointers = .ok after
        ∧ ∀ pointer, pointer ∉ pointers
          → read after.objects pointer = read checker.objects pointer := by
  induction pointers generalizing checker with
  | nil => exact ⟨checker, rfl, fun _ _ => rfl⟩
  | cons first rest ih =>
    obtain ⟨distinct, restNodup⟩ := nodup_cons.mp nodup
    obtain ⟨object, found⟩ := live first (by simp)
    have frame (pointer : Nat) (other : pointer ≠ first)
        : read (checker.delete first).objects pointer = read checker.objects pointer := by
      have written := read_write (lt_of_read found) none pointer
      rw [if_neg other] at written
      exact written
    have restLive : ∀ pointer ∈ rest, ∃ kept,
        read (checker.delete first).objects pointer = some kept := by
      intro pointer member
      have other : pointer ≠ first := fun same => distinct (same ▸ member)
      rw [frame pointer other]
      exact live pointer (by simp [member])
    obtain ⟨after, deleted, others⟩ := ih restNodup restLive
    refine ⟨after, ?_, ?_⟩
    · simp only [deleteAll, deref_of_read found, ok_bind, deleted]
    · intro pointer outside
      simp at outside
      rw [others pointer outside.2, frame pointer outside.1]

theorem Branch.Valid.nodup_pointers (valid : branch.Valid objects)
    : (branch.files.flatMap Prod.snd).Nodup := by
  refine nodup_flatMap.mpr ⟨valid.nodup, ?_⟩
  apply valid.ordered.imp_of_mem
  intro entry other member otherMember smaller
  apply valid.apart entry member other otherMember
  intro same
  exact irrefl_of (· < ·) other.1 (same ▸ smaller)

/-- The destructor of a valid checker deletes its own records only. -/
theorem destroy_valid (valid : branch.Valid objects)
    : ∃ destroyed, (branch.checker objects).destroy = .ok destroyed
        ∧ ∀ pointer, ¬ branch.Owns pointer
          → read destroyed.objects pointer = objects.read pointer := by
  have owned {pointer : Nat}
      : pointer ∈ branch.files.flatMap Prod.snd ↔ branch.Owns pointer :=
    mem_flatMap
  have live (pointer : Nat) (member : pointer ∈ branch.files.flatMap Prod.snd)
      : ∃ object, read (branch.checker objects).objects pointer = some object :=
    valid.live (owned.mp member)
  obtain ⟨after, deleted, others⟩ := deleteAll_live valid.nodup_pointers live
  exact ⟨after, deleted, fun pointer outside => others pointer (mt owned.mp outside)⟩

-- All checkers

/-- Every checker is valid, and no record belongs to two checkers. -/
structure Forks.Valid (forks : Forks) : Prop where
  branches : ∀ (index : Nat) (branch : Branch), forks.branches[index]? = some (some branch)
    → branch.Valid forks.objects
  apart : ∀ (index other : Nat) (branch second : Branch),
    forks.branches[index]? = some (some branch)
    → forks.branches[other]? = some (some second)
    → index ≠ other
    → ∀ pointer, branch.Owns pointer → ¬ second.Owns pointer

variable {forks : Forks} {index : Nat}

theorem valid_start : Forks.start.Valid where
  branches := by
    intro index branch found
    cases index with
    | zero =>
      obtain rfl : ⟨[], [], ∅⟩ = branch := by simpa [Forks.start] using found
      exact valid_empty ∅
    | succ index => simp [Forks.start] at found
  apart := by
    intro index other branch second found otherFound differ
    have first := (List.getElem?_eq_some_iff.mp found).1
    have later := (List.getElem?_eq_some_iff.mp otherFound).1
    simp only [Forks.start, List.length_singleton] at first later
    omega

/-- Every checker afterwards was there and has its records as they were, or it is a valid one at
one place with no record of a checker elsewhere.
-/
theorem Forks.Valid.update (index : Nat) {branches : List (Option Branch)} (valid : forks.Valid)
    (each : ∀ (place : Nat) (branch : Branch), branches[place]? = some (some branch)
      → (forks.branches[place]? = some (some branch)
          ∧ ∀ pointer, branch.Owns pointer → after.read pointer = forks.objects.read pointer)
        ∨ place = index ∧ branch.Valid after
          ∧ ∀ (other : Nat) (second : Branch), index ≠ other
            → forks.branches[other]? = some (some second)
            → ∀ pointer, branch.Owns pointer → ¬ second.Owns pointer)
    : (⟨after, branches⟩ : Forks).Valid where
  branches place branch found := by
    rcases each place branch found with ⟨old, same⟩ | ⟨-, new, -⟩
    · exact (valid.branches place branch old).frame same
    · exact new
  apart one other first second found otherFound differ pointer owns shared := by
    rcases each one first found with ⟨old, -⟩ | ⟨rfl, -, foreign⟩
    · rcases each other second otherFound with ⟨otherOld, -⟩ | ⟨rfl, -, foreign⟩
      · exact valid.apart one other first second old otherOld differ pointer owns shared
      · exact foreign one first differ.symm old pointer shared owns
    rcases each other second otherFound with ⟨otherOld, -⟩ | ⟨rfl, -⟩
    · exact foreign other second differ otherOld pointer owns shared
    · exact differ rfl

/-- A step that serves one checker, in place of the one that was there, keeps all valid. -/
theorem Forks.Valid.serve (valid : forks.Valid)
    (exists_ : forks.branches[index]? = some (some branch))
    (served : Served forks.objects after branch next)
    : (⟨after, forks.branches.set index (some next)⟩ : Forks).Valid := by
  refine valid.update index fun place second found => ?_
  rw [getElem?_set] at found
  split at found
  next same =>
    obtain ⟨-, rfl⟩ : index < forks.branches.length ∧ next = second := by simpa using found
    refine .inr ⟨same.symm, served.valid, ?_⟩
    -- A record of another checker is neither one of this checker nor a new one.
    intro other second differ otherFound pointer owns shared
    rcases served.fresh pointer owns with own | made
    · exact valid.apart index other branch second exists_ otherFound differ pointer own shared
    · have := (valid.branches other second otherFound).lt shared
      omega
  · refine .inl ⟨found, fun pointer owns => ?_⟩
    exact served.grows.2 pointer ((valid.branches place second found).lt owns)

theorem Forks.Valid.add (valid : forks.Valid)
    (served : Served forks.objects after ⟨[], [], open_fds⟩ next)
    : (⟨after, forks.branches ++ [some next]⟩ : Forks).Valid := by
  refine valid.update forks.branches.length fun place second found => ?_
  rcases Nat.lt_trichotomy place forks.branches.length with before | rfl | beyond
  · rw [getElem?_append_left before] at found
    refine .inl ⟨found, fun pointer owns => ?_⟩
    exact served.grows.2 pointer ((valid.branches place second found).lt owns)
  · obtain rfl : next = second := by simpa using found
    refine .inr ⟨rfl, served.valid, ?_⟩
    intro other second _ otherFound pointer owns shared
    have old := (valid.branches other second otherFound).lt shared
    rcases served.fresh pointer owns with ⟨entry, member, -⟩ | fresh
    · simp at member
    · omega
  · have bound := (List.getElem?_eq_some_iff.mp found).1
    simp only [length_append, length_singleton] at bound
    omega

theorem Forks.Valid.remove (valid : forks.Valid)
    (exists_ : forks.branches[index]? = some (some branch))
    (others : ∀ pointer, ¬ branch.Owns pointer
      → after.read pointer = forks.objects.read pointer)
    : (⟨after, forks.branches.set index none⟩ : Forks).Valid := by
  refine valid.update index fun place second found => ?_
  rw [getElem?_set] at found
  split at found
  · split at found <;> simp at found
  next differ =>
    refine .inl ⟨found, fun pointer owns => others pointer fun shared => ?_⟩
    exact valid.apart index place branch second exists_ found differ pointer shared owns

/-- The invariant of runs: no step has failed and all checkers are valid. -/
def Valid : Except Fault Forks → Prop
  | .ok forks => forks.Valid
  | .error _ => False

theorem Valid.sound {state : Except Fault Forks} (valid : Valid state) : Sound state := by
  cases state with
  | error fault => exact valid
  | ok forks => exact fun index branch found => (valid.branches index branch found).sound

theorem onEvent_ok {event : Event}
    (outcome : left ((branch.checker forks.objects).respond event) = .ok checker)
    : forks.onEvent index branch event = .ok ⟨checker.objects, forks.branches.set index
          (some (checker.toBranch (track branch.open_fds event.operation)))⟩ := by
  rw [Forks.onEvent, outcome, ok_bind]

/-- A careful step keeps all checkers valid. -/
theorem Step.valid {before after : Except Fault Forks} {label : Label}
    (step : Step before label after) (valid : Valid before)
    (careful : Careful ⟨before, label, after⟩)
    : Valid after := by
  cases step with
  | @event forks index branch event exists_ =>
    have own := Forks.Valid.branches valid index branch exists_
    have handled := left_respond (branch.checker forks.objects) event
    rcases decoded : event.operation with _ | operation
    · rw [decoded, elim_none] at handled
      rw [onEvent_ok handled, decoded]
      exact Forks.Valid.serve valid exists_ ⟨own, .refl _, fun _ owns => .inl owns⟩
    have unentered (fd : UInt64) (closes : operation = .close fd)
        : branch.files_by_fd.find? fd = none :=
      careful forks index event branch fd rfl rfl exists_ (closes ▸ decoded)
    obtain ⟨checker, outcome, effect⟩ := handle_effect own.sound unentered
    rw [decoded, elim_some, outcome] at handled
    rw [onEvent_ok handled, decoded]
    exact Forks.Valid.serve valid exists_ (effect.served own)
  | @copy forks index branch exists_ =>
    obtain ⟨copied, outcome, served⟩ :=
      clone_served (Forks.Valid.branches valid index branch exists_)
    rw [Forks.onCopy, outcome, ok_bind]
    exact Forks.Valid.add valid served
  | @destroy forks index branch exists_ =>
    obtain ⟨destroyed, outcome, others⟩ :=
      destroy_valid (Forks.Valid.branches valid index branch exists_)
    rw [Forks.onDestroy, outcome, ok_bind]
    exact Forks.Valid.remove valid exists_ others

/-- Closing a descriptor leaves its entry. -/
theorem parseClose_files_by_fd {fd : UInt64} {closed : FilePermChecker}
    (outcome : left (checker.parseClose fd) = .ok closed)
    : closed.files_by_fd = checker.files_by_fd := by
  unfold parseClose at outcome
  rcases entry : checker.files_by_fd.find? fd with _ | pointer
  · simp only [entry] at outcome
    cases outcome
    rfl
  simp only [entry] at outcome
  rcases read : checker.deref pointer with fault | object
  · simp [read, left, Except.map] at outcome
  simp only [read, ok_bind] at outcome
  split at outcome
  · simp [left, Except.map] at outcome
  · split at outcome
    · cases outcome
      rfl
    · simp [left, Except.map] at outcome
  · cases outcome
    rfl

/-- A step after which all checkers are sound closed no recorded descriptor. -/
theorem Step.careful {before after : Except Fault Forks} {label : Label}
    (step : Step before label after) (sound : Sound after)
    : Careful ⟨before, label, after⟩ := by
  intro forks index event branch fd beforeEq labelEq exists_ closes
  subst beforeEq labelEq
  cases step with
  | @event _ _ stepped _ found =>
    obtain rfl : branch = stepped := by
      simpa using exists_.symm.trans found
    have handled := left_respond (branch.checker forks.objects) event
    rw [closes, elim_some, handle] at handled
    rcases outcome : left ((branch.checker forks.objects).parseClose fd) with fault | closed
    · rw [Forks.onEvent, handled, outcome] at sound
      exact sound.elim
    rw [onEvent_ok (handled.trans outcome), closes] at sound
    have bound : index < forks.branches.length := (List.getElem?_eq_some_iff.mp exists_).1
    have closedSound := sound index (closed.toBranch (branch.open_fds.erase fd))
      (by simp [bound, track])
    have unentered := closedSound.closed fd (by simp [toBranch])
    simp only [toBranch, parseClose_files_by_fd outcome] at unentered
    exact unentered

/-- Over every run of events, copies and destructions no assertion fails, all names and
entries lead to records as they should and closed descriptors have no entry, exactly when no
event closes a descriptor that has an entry.
-/
theorem sound_iff_careful {trace : List (Transition (Except Fault Forks) Label)}
    {finish : Except Fault Forks} (run : Run (Takes Step) (.ok Forks.start) trace finish)
    : (∀ transition ∈ trace, Sound transition.after)
      ↔ ∀ transition ∈ trace, Careful transition := by
  refine run.forall_iff Valid valid_start fun transition step valid => ?_
  exact ⟨⟨step.careful, fun careful => (step.valid valid careful).sound⟩, step.valid valid⟩

/-- A memory whose strings are all `name`. -/
def nameMemory (name : String) : Memory :=
  { Memory.silent with string := fun _ => name }

/-- A native call on a file named `a` whose result and arguments are all one word. -/
def nativeEvent (funcname : String) (word : UInt64) : Event :=
  .onCall (nameMemory "a")
    { funcname
      arguments := fun _ => ⟨0, .constant word⟩
      args := some fun _ => word
      site := ⟨""⟩
      thread := 0 }

/-- The record of `a`, open as 5, and a checker that has it at a pointer. -/
def openRecord : FileObject :=
  ⟨"a", minusOne, 5, .clean, none⟩

def openBranch (pointer : Nat) : Branch :=
  ⟨[("a", [pointer])], [(5, pointer)], {5}⟩

/-- Opening `a` as the first event. -/
theorem step_open
    : Step (.ok Forks.start) (.event 0 (nativeEvent "open" 5))
        (.ok ⟨[some openRecord], [some (openBranch 0)]⟩) :=
  Step.event ⟨[], [], ∅⟩ (nativeEvent "open" 5) rfl

/-- Witness: a file is opened, the path forks and a descriptor that is not recorded is closed
on the new path.
-/
theorem sound_iff_careful_fork
    : ∃ trace finish, Run (Takes Step) (.ok Forks.start) trace finish
        ∧ trace.map Transition.label
          = [.event 0 (nativeEvent "open" 5), .copy 0, .event 1 (nativeEvent "close" 7)]
        ∧ ∀ transition ∈ trace, Sound transition.after := by
  have copied := (Run.nil.record step_open).record
    (show Step _ (.copy 0) _ from .copy (openBranch 0) rfl)
  have run := copied.record
    (show Step _ (.event 1 (nativeEvent "close" 7)) _ from .event (openBranch 1) _ rfl)
  refine ⟨_, _, run, rfl, (sound_iff_careful run).mpr ?_⟩
  intro transition member
  simp at member
  rcases member with rfl | rfl | rfl
  all_goals
    intro forks index event branch fd before label found closes
    cases label
  · cases closes
  · cases before
    cases found
    cases closes
    rfl

/-- A descriptor that is closed keeps its entry, and closing it again reads the deleted
record.
-/
theorem second_close_reads_deleted
    : ∃ trace, Run (Takes Step) (.ok Forks.start) trace (.error .badPointer)
        ∧ trace.map Transition.label
          = [.event 0 (nativeEvent "open" 5), .event 0 (nativeEvent "close" 5),
            .event 0 (nativeEvent "close" 5)]
        ∧ trace.map Transition.after = [.ok ⟨[some openRecord], [some (openBranch 0)]⟩,
            .ok ⟨[none], [some ⟨[], [(5, 0)], ∅⟩]⟩,
            .error .badPointer] := by
  have closed := (Run.nil.record step_open).record
    (show Step _ (.event 0 (nativeEvent "close" 5)) _ from .event (openBranch 0) _ rfl)
  have again := closed.record
    (show Step _ (.event 0 (nativeEvent "close" 5)) _ from .event ⟨[], [(5, 0)], ∅⟩ _ rfl)
  exact ⟨_, again, rfl, rfl⟩

end FilePermChecker

end Woodpecker.Checkers
