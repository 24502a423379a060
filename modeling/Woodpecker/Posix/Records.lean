import Mathlib.Data.List.FinRange
import Mathlib.Data.List.Infix
import Mathlib.Logic.Function.Basic
import Woodpecker.Posix.Fd

/-! The table of file records, the table of descriptors, and the calls that change them.

A record is found by its names, of which it has up to five. The table of records is doubled
when no record is free; descriptors refer to records by their places in the table, as the
pointers are moved along with it. Paths are concrete: none is that of a symbolic file.
-/

namespace Woodpecker.Posix

open List

def MAX_LINKS : Nat := 5
abbrev MAX_FDS : Nat := 32
def INITIAL_CON_FILES : Nat := 32

inductive ConState where
  | FREE
  | DIRECT
  | INMEM
  | FORCE_DIRECT
  | STD
deriving DecidableEq, Repr

/-- A record of the table. Its names are read only while it is not free. -/
structure DiskConFile extends ConFile where
  refcnt : Int
  name : List (Option String)
  fd : Int
  state : ConState
deriving DecidableEq, Repr

open DiskConFile

structure FileFlags where
  eOpen : Bool
  eCloseOnExec : Bool
  eReadable : Bool
  eWriteable : Bool
deriving DecidableEq, Repr

/-- What a descriptor refers to: nothing yet, a place in the table, or a symbolic file. -/
inductive FileType where
  | NONE
  | CONCRETE_FILE (dcfile : Nat)
  | SYMBOLIC_FILE (dfile : Nat)
deriving DecidableEq, Repr

structure Descriptor where
  fd : Int
  flags : FileFlags
  off : Int
  type : FileType
deriving DecidableEq, Repr

/-- `memset(f, 0, sizeof *f)` -/
def Descriptor.zero : Descriptor where
  fd := 0
  flags := ⟨false, false, false, false⟩
  off := 0
  type := .NONE

structure FileSystem where
  fds : Fin MAX_FDS → Descriptor
  con_files : List DiskConFile
  /-- the number of failures still to be injected, and the call of `close` that fails -/
  max_failures : Nat
  close_fail : Int
  close_calls : Int
  etc_symbolic : Bool
  sym_specific : Bool
  symbolic_size : Int

/-- What the world outside the model answers during one call. A path that cannot be resolved
for another reason than that nothing is there has no `realpath`.
-/
structure Host where
  realpath : String → Option String
  get_realpath : String → String
  sys_open : String → Int
  sys_access : String → Bool
  sys_lstat : String → Bool
  file_size : Int → Int
  file_contents : Int → Option (List UInt8)
  symbolic : Nat → UInt8
  uninit : Nat → DiskConFile

-- The table of records

namespace DiskConFile

/-- The record is in use and has the name. -/
def Holds (filename : String) (con_file : DiskConFile) : Prop :=
  con_file.state ≠ .FREE ∧ some filename ∈ con_file.name

instance decidableHolds (filename : String) : DecidablePred (Holds filename) :=
  fun con_file =>
    inferInstanceAs (Decidable (con_file.state ≠ .FREE ∧ some filename ∈ con_file.name))

/-- One name, in the first of the slots. -/
def names (first : String) : List (Option String) :=
  some first :: List.replicate (MAX_LINKS - 1) none

/-- `refcnt++` and `refcnt--` -/
def addRefs (con_file : DiskConFile) (more : Int) : DiskConFile :=
  { con_file with refcnt := con_file.refcnt + more }

/-- A record of memory that was just allocated: only its state is set. -/
def fresh (con_file : DiskConFile) : DiskConFile :=
  { con_file with state := .FREE }

def free_con_file (con_file : DiskConFile) : DiskConFile :=
  { con_file with
    contents := []
    size := 0
    buf_size := 0
    mode := 0
    name := []
    fd := 0
    state := .FREE }

end DiskConFile

namespace FileSystem

/-- The scan from place `i` on: the first record with the name, and the last free one before
it.
-/
def findFrom (filename : String) (i : Nat) (free_file : Option Nat)
    : List DiskConFile → Option Nat × Option Nat
  | [] => (none, free_file)
  | con_file :: rest =>
    if con_file.state ≠ .FREE then
      if some filename ∈ con_file.name then (some i, free_file)
      else findFrom filename (i + 1) free_file rest
    else findFrom filename (i + 1) (some i) rest

def find_con_file (fs : FileSystem) (filename : String) : Option Nat × Option Nat :=
  findFrom filename 0 none fs.con_files

/-- The table is doubled, and the first new place is the result. -/
def enlarge_con_files (fs : FileSystem) (host : Host) : FileSystem × Nat :=
  let n_con_files := fs.con_files.length
  let added := (List.range n_con_files).map fun i => (host.uninit (n_con_files + i)).fresh
  ({ fs with con_files := fs.con_files ++ added }, n_con_files)

/-- A record for a new file: a free one, or a new one. -/
def newRecord (fs : FileSystem) (host : Host) : Option Nat → FileSystem × Nat
  | some free_file => (fs, free_file)
  | none => fs.enlarge_con_files host

def setRecord (fs : FileSystem) (i : Nat) (con_file : DiskConFile) : FileSystem :=
  { fs with con_files := fs.con_files.set i con_file }

def modifyRecord (fs : FileSystem) (i : Nat) (change : DiskConFile → DiskConFile)
    : FileSystem :=
  { fs with con_files := fs.con_files.modify i change }

def setFd (fs : FileSystem) (fd : Fin MAX_FDS) (f : Descriptor) : FileSystem :=
  { fs with fds := Function.update fs.fds fd f }

/-- The count changes through a descriptor, if that is concrete. -/
def addRef (fs : FileSystem) (f : Descriptor) (more : Int) : FileSystem :=
  match f.type with
  | .CONCRETE_FILE dcfile =>
    fs.modifyRecord dcfile fun con_file => con_file.addRefs more
  | _ => fs

-- Lookups

variable {fs fs' after : FileSystem} {filename : String} {i : Nat}

/-- The scan finds the first record that has the name, by induction on what is still to be
scanned.
-/
theorem findFrom_fst (filename : String) (records : List DiskConFile) (start : Nat)
    (free_file : Option Nat)
    : (findFrom filename start free_file records).1
      = (records.findIdx? fun con_file => con_file.Holds filename).map (start + ·) := by
  induction records generalizing start free_file with
  | nil => rfl
  | cons con_file rest ih =>
    have later (found : Option Nat)
        : found.map (start + 1 + ·) = (found.map (· + 1)).map (start + ·) := by
      rw [Option.map_map]
      congr 1
      funext place
      simp only [Function.comp_apply]
      omega
    rw [findFrom, findIdx?_cons]
    by_cases used : con_file.state ≠ .FREE
    · by_cases named : some filename ∈ con_file.name
      · simp [used, named, Holds]
      · simp [used, named, Holds, ih, later]
    · simp [used, Holds, ih, later]

theorem find_con_file_fst (fs : FileSystem) (filename : String)
    : (fs.find_con_file filename).1
      = fs.con_files.findIdx? fun con_file => con_file.Holds filename := by
  rw [find_con_file, findFrom_fst]
  simp

theorem find_con_file_found (found : (fs.find_con_file filename).1 = some i)
    : ∃ con_file, fs.con_files[i]? = some con_file ∧ con_file.Holds filename := by
  rw [find_con_file_fst, findIdx?_eq_some_iff_getElem] at found
  obtain ⟨inside, holds, -⟩ := found
  exact ⟨_, getElem?_eq_getElem inside, of_decide_eq_true holds⟩

/-- The scan gives a free record if it gives one, by induction on what is still to be
scanned.
-/
theorem findFrom_free (filename : String) (records : List DiskConFile) (start : Nat)
    (free_file : Option Nat)
    : let found := findFrom filename start free_file records
      found.2 = free_file
      ∨ ∃ (i : Nat) (con_file : DiskConFile), found.2 = some (start + i)
        ∧ records[i]? = some con_file ∧ con_file.state = .FREE := by
  induction records generalizing start free_file with
  | nil => exact .inl rfl
  | cons con_file rest ih =>
    rw [findFrom]
    split
    · split
      · exact .inl rfl
      rcases ih (start + 1) free_file with same | ⟨i, record, found, there, free⟩
      · exact .inl same
      · exact .inr ⟨i + 1, record, by rw [found]; congr 1; omega, there, free⟩
    next free =>
      right
      rcases ih (start + 1) (some start) with same | ⟨i, record, found, there, free⟩
      · exact ⟨0, con_file, same, rfl, not_not.mp free⟩
      · exact ⟨i + 1, record, by rw [found]; congr 1; omega, there, free⟩

theorem find_con_file_free (found : (fs.find_con_file filename).2 = some i)
    : ∃ con_file, fs.con_files[i]? = some con_file ∧ con_file.state = .FREE := by
  rcases findFrom_free filename fs.con_files 0 none with none | ⟨j, con_file, isJ, there, free⟩
  · rw [find_con_file, none] at found
    cases found
  · rw [find_con_file, isJ] at found
    obtain rfl : 0 + j = i := Option.some.inj found
    rw [Nat.zero_add]
    exact ⟨con_file, there, free⟩

/-- The same records are in use, at the same places. -/
def SameUsed (fs after : FileSystem) : Prop :=
  ∀ (i : Nat) {con_file : DiskConFile}, con_file.state ≠ .FREE
    → (after.con_files[i]? = some con_file ↔ fs.con_files[i]? = some con_file)

theorem SameUsed.of_eq (same : after.con_files = fs.con_files) : fs.SameUsed after := by
  intro i con_file _
  rw [same]

theorem SameUsed.refl : fs.SameUsed fs :=
  .of_eq rfl

section

variable (fs : FileSystem) (host : Host) (free_file : Option Nat)

/-- The records that are added are free. -/
theorem enlarge_con_files_used : fs.SameUsed (fs.enlarge_con_files host).1 := by
  intro i con_file used
  simp only [enlarge_con_files]
  by_cases inside : i < fs.con_files.length
  · rw [getElem?_append_left inside]
  · rw [getElem?_append_right (by omega), getElem?_eq_none (l := fs.con_files) (by omega)]
    simp only [getElem?_map, Option.map_eq_some_iff]
    refine iff_of_false ?_ (by simp)
    rintro ⟨_, _, rfl⟩
    exact used rfl

theorem newRecord_used : fs.SameUsed (fs.newRecord host free_file).1 := by
  cases free_file with
  | some _ => exact .refl
  | none => exact fs.enlarge_con_files_used host

@[simp]
theorem newRecord_fds : (fs.newRecord host free_file).1.fds = fs.fds := by
  cases free_file <;> rfl

theorem newRecord_length
    : fs.con_files.length ≤ (fs.newRecord host free_file).1.con_files.length := by
  cases free_file <;> simp [newRecord, enlarge_con_files]

/-- What `newRecord` gives for the free record that a scan found, or for none, is free. -/
theorem newRecord_free (filename : String) (nonempty : 0 < fs.con_files.length)
    : ∃ con_file,
        (fs.newRecord host (fs.find_con_file filename).2).1.con_files[
          (fs.newRecord host (fs.find_con_file filename).2).2]? = some con_file
        ∧ con_file.state = .FREE := by
  cases found : (fs.find_con_file filename).2 with
  | some i => exact find_con_file_free found
  | none =>
    refine ⟨(host.uninit fs.con_files.length).fresh, ?_, rfl⟩
    simp [newRecord, enlarge_con_files, nonempty]

end

theorem modifyRecord_eq {con_file : DiskConFile} (there : fs.con_files[i]? = some con_file)
    (change : DiskConFile → DiskConFile)
    : fs.modifyRecord i change = fs.setRecord i (change con_file) := by
  obtain ⟨inside, rfl⟩ := List.getElem?_eq_some_iff.mp there
  unfold modifyRecord setRecord
  congr 1
  apply ext_getElem?
  intro place
  by_cases same : i = place
  · subst same
    simp [inside]
  · simp [same]

theorem addRef_con_files (fs : FileSystem) (f : Descriptor) (more : Int) (dcfile : Nat)
    : (fs.addRef f more).con_files[dcfile]?
      = (fs.con_files[dcfile]?).map fun con_file =>
          con_file.addRefs (if f.type = .CONCRETE_FILE dcfile then more else 0) := by
  unfold addRef
  split
  next place isPlace =>
    simp only [modifyRecord, getElem?_modify, isPlace, FileType.CONCRETE_FILE.injEq]
    by_cases same : place = dcfile <;> simp [same, addRefs]
  next concrete =>
    have other : f.type ≠ .CONCRETE_FILE dcfile := fun same => concrete dcfile same
    simp [other, addRefs]

@[simp]
theorem addRef_length (fs : FileSystem) (f : Descriptor) (more : Int)
    : (fs.addRef f more).con_files.length = fs.con_files.length := by
  unfold addRef
  split <;> simp [modifyRecord]

-- Descriptors

/-- The first descriptor that is not open. -/
def unusedFd (fs : FileSystem) : Option (Fin MAX_FDS) :=
  (List.finRange MAX_FDS).find? fun fd => !(fs.fds fd).flags.eOpen

/-- A number that can be a descriptor. -/
def fdOf (fd : Int) : Option (Fin MAX_FDS) :=
  if valid : 0 ≤ fd ∧ fd < MAX_FDS then some ⟨fd.toNat, by omega⟩ else none

def get_file (fs : FileSystem) (fd : Int) : Option (Fin MAX_FDS) :=
  (fdOf fd).filter fun fd => (fs.fds fd).flags.eOpen

/-- The failing call has been reached. -/
def closeFails (fs : FileSystem) : Bool :=
  fs.max_failures ≠ 0 && fs.close_fail = fs.close_calls + 1

def close (fs : FileSystem) (fd : Int) : FileSystem × Int :=
  let called := { fs with close_calls := fs.close_calls + 1 }
  match fs.get_file fd with
  | none => (called, -1)
  | some fd =>
    if fs.closeFails then ({ called with max_failures := fs.max_failures - 1 }, -1)
    else ((called.addRef (fs.fds fd) (-1)).setFd fd .zero, 0)

@[simp]
theorem close_length (fs : FileSystem) (number : Int)
    : (fs.close number).1.con_files.length = fs.con_files.length := by
  unfold close
  split
  · rfl
  · split <;> simp [setFd]

/-- The rest of `dup2`, once `newfd` is closed. -/
def copyFd (fs : FileSystem) (f : Descriptor) (newfd : Fin MAX_FDS) : FileSystem :=
  (fs.setFd newfd { f with flags := { f.flags with eCloseOnExec := false } }).addRef f 1

def dup2 (fs : FileSystem) (oldfd newfd : Int) : FileSystem × Int :=
  match fs.get_file oldfd, fdOf newfd with
  | some f, some f2 =>
    let closed := if (fs.fds f2).flags.eOpen then (fs.close newfd).1 else fs
    (closed.copyFd (closed.fds f) f2, newfd)
  | _, _ => (fs, -1)

def dup (fs : FileSystem) (oldfd : Int) : FileSystem × Int :=
  match fs.get_file oldfd with
  | none => (fs, -1)
  | some _ =>
    match fs.unusedFd with
    | none => (fs, -1)
    | some fd => fs.dup2 oldfd fd.val

-- Opening files

inductive AccessMode where
  | O_RDONLY
  | O_WRONLY
  | O_RDWR
deriving DecidableEq, Repr

structure OpenFlags where
  O_CREAT : Bool
  O_EXCL : Bool
  O_ACCMODE : AccessMode
deriving DecidableEq, Repr

def strstr (text part : String) : Bool :=
  part.toList <:+: text.toList

/-- The files whose contents are made symbolic. -/
def isSymSpecific (fs : FileSystem) (con_fullpath : String) : Bool :=
  strstr con_fullpath "CVS/" || strstr con_fullpath "CVSROOT/"
  || (fs.etc_symbolic
    && (strstr con_fullpath "/etc/passwd" || strstr con_fullpath "/etc/group"
      || strstr con_fullpath "/etc/shadow" || strstr con_fullpath "/etc/gshadow"))
  || strstr con_fullpath ".git/config"

/-- A record whose contents are symbolic if it is one of those files. -/
def makeSymbolic (fs : FileSystem) (host : Host) (con_fullpath : String)
    (con_file : DiskConFile)
    : DiskConFile :=
  if 0 ≤ con_file.fd && fs.sym_specific && fs.isSymSpecific con_fullpath then
    let file_size := if fs.symbolic_size = 0 then host.file_size con_file.fd else fs.symbolic_size
    if 0 ≤ file_size then
      { con_file with
        state := .INMEM
        size := file_size.toNat
        buf_size := file_size.toNat
        contents := (List.range file_size.toNat).map host.symbolic }
    else con_file
  else con_file

/-- What a free record becomes for a file that is opened first: a record, or only a changed
free one if the file cannot be opened.
-/
def openRecord (fs : FileSystem) (host : Host) (pathname con_fullpath : String)
    (flags : OpenFlags) (mode : UInt32) (con_file : DiskConFile)
    : DiskConFile × Bool :=
  let rpath := host.get_realpath pathname
  let named (con_file : DiskConFile) : DiskConFile :=
    { con_file with name := DiskConFile.names con_fullpath, size := 0, contents := [] }
  if flags.O_CREAT then
    if flags.O_EXCL && 0 ≤ host.sys_open rpath then ({ con_file with refcnt := 0 }, false)
    else
      (makeSymbolic fs host con_fullpath (named { con_file with
        refcnt := 0
        fd := -1
        state := .INMEM
        buf_size := 0
        mode := mode ||| S_IFREG }), true)
  else if host.sys_open rpath = -1 then ({ con_file with refcnt := 0, fd := -1 }, false)
  else
    (makeSymbolic fs host con_fullpath (named { con_file with
      refcnt := 0
      fd := host.sys_open rpath
      state := .DIRECT
      mode := 0 }), true)

/-- Only the contents of a record are made symbolic. -/
theorem makeSymbolic_spec (fs : FileSystem) (host : Host) (con_fullpath : String)
    (con_file : DiskConFile)
    : let symbolic := fs.makeSymbolic host con_fullpath con_file
      symbolic.refcnt = con_file.refcnt ∧ symbolic.name = con_file.name
      ∧ (con_file.state ≠ .FREE → symbolic.state ≠ .FREE) := by
  unfold makeSymbolic
  split
  · dsimp only
    split <;> split <;> simp
  · simp

/-- The count is zero, and a record that is opened is in use under its path. -/
theorem openRecord_spec (fs : FileSystem) (host : Host) (pathname con_fullpath : String)
    (flags : OpenFlags) (mode : UInt32) (con_file : DiskConFile)
    : let result := fs.openRecord host pathname con_fullpath flags mode con_file
      result.1.refcnt = 0
      ∧ (result.2 = true
        → result.1.state ≠ .FREE ∧ result.1.name = names con_fullpath) := by
  unfold openRecord
  dsimp only
  split
  · split
    · exact ⟨rfl, by simp⟩
    · obtain ⟨refcnt, name, used⟩ := makeSymbolic_spec fs host con_fullpath _
      exact ⟨refcnt, fun _ => ⟨used (by simp), name⟩⟩
  · split
    · exact ⟨rfl, by simp⟩
    · obtain ⟨refcnt, name, used⟩ := makeSymbolic_spec fs host con_fullpath _
      exact ⟨refcnt, fun _ => ⟨used (by simp), name⟩⟩

def openFlags (accmode : AccessMode) : FileFlags where
  eOpen := true
  eCloseOnExec := false
  eReadable := accmode ≠ .O_WRONLY
  eWriteable := accmode ≠ .O_RDONLY

/-- The last steps of `open`, with the record that the descriptor refers to. -/
def bindFd (fs : FileSystem) (fd : Fin MAX_FDS) (accmode : AccessMode) (dcfile : Nat)
    (con_file : DiskConFile)
    : FileSystem :=
  (fs.setRecord dcfile (con_file.addRefs 1)).setFd fd
    { fd := con_file.fd
      flags := openFlags accmode
      off := 0
      type := .CONCRETE_FILE dcfile }

def fd_open (fs : FileSystem) (host : Host) (pathname : String) (flags : OpenFlags)
    (mode : UInt32)
    : FileSystem × Int :=
  match fs.unusedFd with
  | none => (fs, -1)
  | some fd =>
    let cleared := fs.setFd fd .zero
    if pathname = "" ∨ pathname = "/dev/tty" then (cleared, -1)
    else
      match host.realpath pathname with
      | none => (cleared, -1)
      | some con_fullpath =>
        match cleared.find_con_file con_fullpath with
        | (some i, _) =>
          if flags.O_CREAT then (cleared, -1)
          else
            match cleared.con_files[i]? with
            | none => (cleared, -1)
            | some con_file => (cleared.bindFd fd flags.O_ACCMODE i con_file, fd.val)
        | (none, free_file) =>
          let (grown, i) := cleared.newRecord host free_file
          match grown.con_files[i]? with
          | none => (grown, -1)
          | some con_file =>
            let (con_file, opened) :=
              grown.openRecord host pathname con_fullpath flags mode con_file
            if opened then (grown.bindFd fd flags.O_ACCMODE i con_file, fd.val)
            else (grown.setRecord i con_file, -1)

-- Names

/-- `unlink` and `rmdir` free the record, whatever other names it has. -/
def freeNamed (fs : FileSystem) (host : Host) (pathname : String) (missing : Int)
    : FileSystem × Int :=
  match host.realpath pathname with
  | none => (fs, -1)
  | some rpath =>
    match fs.find_con_file rpath with
    | (some i, _) => (fs.modifyRecord i DiskConFile.free_con_file, 0)
    | (none, _) => (fs, missing)

def unlink (fs : FileSystem) (host : Host) (pathname : String) : FileSystem × Int :=
  fs.freeNamed host pathname (-1)

def rmdir (fs : FileSystem) (host : Host) (pathname : String) : FileSystem × Int :=
  fs.freeNamed host pathname 0

/-- `lstat` finds a file, on disk or in the table. -/
def lstat (fs : FileSystem) (host : Host) (path : String) : Bool :=
  let rpath := host.get_realpath path
  host.sys_lstat rpath || (fs.find_con_file rpath).1.isSome

/-- The record of a directory; its `refcnt` is not set. -/
def directory (rpath : String) (mode : UInt32) (con_file : DiskConFile) : DiskConFile :=
  { con_file with
    fd := -1
    state := .INMEM
    mode := mode ||| S_IFDIR
    name := DiskConFile.names rpath
    size := 512
    contents := []
    buf_size := 0 }

def mkdir (fs : FileSystem) (host : Host) (pathname : String) (mode : UInt32)
    : FileSystem × Int :=
  match host.realpath pathname with
  | none => (fs, -1)
  | some rpath =>
    if fs.lstat host rpath then (fs, -1)
    else
      match fs.find_con_file rpath with
      | (some _, _) => (fs, 0)
      | (none, free_file) =>
        let (grown, i) := fs.newRecord host free_file
        (grown.modifyRecord i (directory rpath mode), 0)

/-- `access(pathname, F_OK)`; a path that cannot be resolved is as good as missing. -/
def access (fs : FileSystem) (host : Host) (pathname : String) : Bool :=
  let rpath := host.get_realpath pathname
  match host.realpath rpath with
  | none => false
  | some con_fullpath => (fs.find_con_file con_fullpath).1.isSome || host.sys_access rpath

/-- The first slot that is empty takes the name. -/
def addName (newpath : String) : List (Option String) → Option (List (Option String))
  | [] => none
  | none :: rest => some (some newpath :: rest)
  | some other :: rest => (addName newpath rest).map (some other :: ·)

/-- A record for a file on disk that is linked. -/
def linkedRecord (oldpath newpath : String) (con_file : DiskConFile) : DiskConFile :=
  { con_file with
    fd := -1
    state := .DIRECT
    name := some oldpath :: some newpath :: List.replicate (MAX_LINKS - 2) none
    size := 0
    buf_size := 0
    contents := [] }

def link (fs : FileSystem) (host : Host) (oldpath newpath : String) : FileSystem × Int :=
  if fs.access host newpath then (fs, -1)
  else if !fs.access host oldpath then (fs, -1)
  else
    match host.realpath oldpath, host.realpath newpath with
    | some con_full_oldpath, some con_full_newpath =>
      match fs.find_con_file con_full_oldpath with
      | (none, free_file) =>
        let (grown, i) := fs.newRecord host free_file
        (grown.modifyRecord i (linkedRecord con_full_oldpath con_full_newpath), 0)
      | (some i, _) =>
        match fs.con_files[i]? with
        | none => (fs, -1)
        | some con_file =>
          match addName con_full_newpath con_file.name with
          | none => (fs, -1)
          | some name => (fs.setRecord i { con_file with name }, 0)
    | _, _ => (fs, -1)

/-- The first slot with the old name gets the new one. -/
def replaceName (oldpath newpath : String) : List (Option String) → List (Option String)
  | [] => []
  | slot :: rest =>
    if slot = some oldpath then some newpath :: rest
    else slot :: replaceName oldpath newpath rest

/-- The contents of a file on disk, or a record that stays with the disk. -/
def make_con_inmem (host : Host) (fd : Int) (con_file : DiskConFile) : DiskConFile × Bool :=
  let file_size := host.file_size fd
  let inmem (contents : List UInt8) : DiskConFile :=
    { con_file with
      contents
      size := file_size.toNat
      buf_size := file_size.toNat
      state := .INMEM }
  if file_size = 0 then (inmem [], true)
  else if file_size < 0 then ({ con_file with state := .FORCE_DIRECT }, false)
  else
    match host.file_contents fd with
    | none => ({ con_file with state := .FORCE_DIRECT }, false)
    | some contents => (inmem contents, true)

def rename (fs : FileSystem) (host : Host) (oldpath newpath : String) : FileSystem × Int :=
  match host.realpath oldpath, host.realpath newpath with
  | some con_full_oldpath, some con_full_newpath =>
    match fs.find_con_file con_full_oldpath with
    | (some i, _) =>
      (fs.modifyRecord i fun con_file =>
        { con_file with name := replaceName con_full_oldpath con_full_newpath con_file.name },
        0)
    | (none, free_file) =>
      let (grown, i) := fs.newRecord host free_file
      let fd := host.sys_open con_full_oldpath
      if fd < 0 then (grown, -1)
      else
        match grown.con_files[i]? with
        | none => (grown, -1)
        | some con_file =>
          let (con_file, copied) := make_con_inmem host fd con_file
          if copied then
            (grown.setRecord i
              { con_file with name := DiskConFile.names con_full_newpath, fd := -1 }, 0)
          else (grown.setRecord i con_file, -1)
  | _, _ => (fs, -1)

-- The start

/-- The descriptors before `klee_init_fds`. -/
def stdFds (fd : Fin MAX_FDS) : Descriptor :=
  if fd.val = 0 then ⟨0, ⟨true, false, true, false⟩, 0, .NONE⟩
  else if fd.val ≤ 2 then ⟨fd.val, ⟨true, false, false, true⟩, 0, .NONE⟩
  else .zero

def setup_std_fd (fs : FileSystem) (host : Host) (std_fd : Fin MAX_FDS) (int_fd : Nat)
    (path : String)
    : FileSystem :=
  (fs.modifyRecord int_fd fun con_file =>
    { con_file with
      refcnt := 1
      fd := host.sys_open path
      state := .STD
      name := DiskConFile.names path
      size := 0
      contents := [] }).setFd std_fd { fs.fds std_fd with type := .CONCRETE_FILE int_fd }

/-- The tables before the standard descriptors are set up. -/
def allocated (host : Host) (max_failures : Nat) (close_fail : Int)
    (etc_symbolic sym_specific : Bool) (symbolic_size : Int)
    : FileSystem where
  fds := stdFds
  con_files := (List.range INITIAL_CON_FILES).map fun i => (host.uninit i).fresh
  max_failures
  close_fail
  close_calls := 0
  etc_symbolic
  sym_specific
  symbolic_size

/-- Standard input and output are files, or symbolic. -/
def klee_init_fds (host : Host) (sym_stdin sym_stdout : Bool) (max_failures : Nat)
    (close_fail : Int) (etc_symbolic sym_specific : Bool) (symbolic_size : Int)
    : FileSystem :=
  let fs := allocated host max_failures close_fail etc_symbolic sym_specific symbolic_size
  let fs :=
    if sym_stdin then fs.setFd 0 { fs.fds 0 with type := .SYMBOLIC_FILE 0 }
    else fs.setup_std_fd host 0 0 "/dev/stdin"
  let fs :=
    if sym_stdout then fs.setFd 1 { fs.fds 1 with type := .SYMBOLIC_FILE 1 }
    else fs.setup_std_fd host 1 1 "/dev/stdout"
  fs.setup_std_fd host 2 2 "/dev/stderr"

end FileSystem

end Woodpecker.Posix
