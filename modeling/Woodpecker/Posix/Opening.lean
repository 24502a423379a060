import Woodpecker.Library.Budgets
import Woodpecker.Posix.Descriptors
import Woodpecker.Posix.MemoryFiles

/-! What `open` does first with a path: a symbolic file is checked for its access rights, and
the path of any other file is made concrete.
-/

namespace Woodpecker.Posix

open Library FileSystem
open Function (update update_of_ne)

-- Opening a symbolic file

def O_RDONLY : UInt32 := 0
def O_WRONLY : UInt32 := 1
def O_RDWR : UInt32 := 2
def O_ACCMODE : UInt32 := 3
def O_CREAT : UInt32 := 0o100
def O_EXCL : UInt32 := 0o200
def O_TRUNC : UInt32 := 0o1000

/-- One of `S_IRUSR`, `S_IRGRP` and `S_IROTH` is set. -/
def readable (mode : UInt32) : Bool :=
  (mode &&& 0o400) ||| (mode &&& 0o040) ||| (mode &&& 0o004) ≠ 0

/-- One of `S_IWUSR`, `S_IWGRP` and `S_IWOTH` is set. -/
def writable (mode : UInt32) : Bool :=
  (mode &&& 0o200) ||| (mode &&& 0o020) ||| (mode &&& 0o002) ≠ 0

def has_permission (flags mode : UInt32) : Bool :=
  let read_access := flags &&& O_RDONLY ≠ 0 ∨ flags &&& O_RDWR ≠ 0
  let write_access := flags &&& O_WRONLY ≠ 0 ∨ flags &&& O_RDWR ≠ 0
  if read_access ∧ readable mode then false
  else if write_access ∧ ¬ writable mode then false
  else true

def accessMode (flags : UInt32) : AccessMode :=
  if flags &&& O_ACCMODE = O_RDONLY then .O_RDONLY
  else if flags &&& O_ACCMODE = O_WRONLY then .O_WRONLY
  else .O_RDWR

/-- The descriptors, with the modes of the symbolic files. -/
structure SymFiles where
  fs : FileSystem
  st_mode : Nat → UInt32
  umask : UInt32

namespace SymFiles

/-- The last steps, for a file whose mode permits them. -/
def bindFd (files : SymFiles) (fd : Fin MAX_FDS) (dfile : Nat) (flags mode : UInt32) : SymFiles :=
  { files with
    fs := files.fs.setFd fd
      { fd := 0
        flags := openFlags (accessMode flags)
        off := 0
        type := .SYMBOLIC_FILE dfile }
    st_mode := update files.st_mode dfile
      ((files.st_mode dfile &&& ~~~0o777) ||| (mode &&& ~~~files.umask)) }

/-- `open` of a path that names a symbolic file. -/
def fd_open (files : SymFiles) (dfile : Nat) (flags mode : UInt32) : SymFiles × Int :=
  match files.fs.unusedFd with
  | none => (files, -1)
  | some fd =>
    let cleared := { files with fs := files.fs.setFd fd .zero }
    if flags &&& O_CREAT ≠ 0 ∧ flags &&& O_EXCL ≠ 0 then (cleared, -1)
    else if flags &&& O_TRUNC ≠ 0 ∧ flags &&& O_RDONLY ≠ 0 then (cleared, -1)
    else if flags &&& O_EXCL ≠ 0 ∧ flags &&& O_CREAT = 0 then (cleared, -1)
    else if has_permission flags (files.st_mode dfile) then
      (files.bindFd fd dfile flags mode, fd.val)
    else (cleared, -1)

/-- The access that is asked for is what the mode allows, and a failure changes neither the
modes nor the open descriptors.
-/
structure OpensRightly (files : SymFiles) (dfile : Nat) (flags mode : UInt32) : Prop where
  succeeds : 0 ≤ (files.fd_open dfile flags mode).2
    ↔ (accessMode flags ≠ .O_WRONLY → readable (files.st_mode dfile))
      ∧ (accessMode flags ≠ .O_RDONLY → writable (files.st_mode dfile))
  fails : (files.fd_open dfile flags mode).2 < 0
    → (files.fd_open dfile flags mode).1.st_mode = files.st_mode
      ∧ ∀ fd, (files.fs.fds fd).flags.eOpen = true
        → (files.fd_open dfile flags mode).1.fs.fds fd = files.fs.fds fd

variable {files : SymFiles} {dfile : Nat} {flags mode : UInt32}

/-- `O_RDONLY` is zero, so reading is checked only together with writing, and then the other
way round.
-/
theorem has_permission_eq (flags mode : UInt32)
    : has_permission flags mode = match accessMode flags with
      | .O_RDONLY => true
      | .O_WRONLY => writable mode
      | .O_RDWR => !readable mode && writable mode := by
  have low (mask : UInt32) (within : O_ACCMODE &&& mask = mask)
      : flags &&& mask = flags &&& O_ACCMODE &&& mask := by
    rw [UInt32.and_assoc, within]
  have bound : (flags &&& O_ACCMODE).toNat ≤ 3 := by
    exact Nat.and_le_right
  unfold has_permission accessMode
  rw [low O_RDONLY (by decide), low O_RDWR (by decide), low O_WRONLY (by decide)]
  generalize flags &&& O_ACCMODE = access at bound ⊢
  have four : access = 0 ∨ access = 1 ∨ access = 2 ∨ access = 3 := by
    simp only [← UInt32.toNat_inj]
    simp
    omega
  rcases four with rfl | rfl | rfl | rfl <;> cases readable mode <;> cases writable mode
    <;> decide

/-- Without `O_EXCL`, opening for writing is right unless no descriptor is left. Opening for
reading is right only if the file can be read, and for both only if nobody may write.
-/
theorem opensRightly_iff (noExcl : flags &&& O_EXCL = 0)
    : files.OpensRightly dfile flags mode ↔ match accessMode flags with
      | .O_RDONLY => readable (files.st_mode dfile) = files.fs.unusedFd.isSome
      | .O_WRONLY => writable (files.st_mode dfile) → files.fs.unusedFd.isSome
      | .O_RDWR => writable (files.st_mode dfile)
          → ¬ readable (files.st_mode dfile) ∧ ¬ files.fs.unusedFd.isSome := by
  have never : flags &&& O_RDONLY = 0 := UInt32.and_zero
  have opens (fd : Fin MAX_FDS) (unused : files.fs.unusedFd = some fd)
      : files.fd_open dfile flags mode = if has_permission flags (files.st_mode dfile) then
            (files.bindFd fd dfile flags mode, (fd.val : Int))
          else ({ files with fs := files.fs.setFd fd .zero }, -1) := by
    simp [fd_open, unused, noExcl, never]
  have succeeds : 0 ≤ (files.fd_open dfile flags mode).2
      ↔ files.fs.unusedFd.isSome ∧ has_permission flags (files.st_mode dfile) := by
    cases unused : files.fs.unusedFd with
    | none => simp [fd_open, unused]
    | some fd =>
      rw [opens fd unused]
      split <;> simp [*]
  have fails (failed : (files.fd_open dfile flags mode).2 < 0)
      : (files.fd_open dfile flags mode).1.st_mode = files.st_mode
        ∧ ∀ fd, (files.fs.fds fd).flags.eOpen = true
          → (files.fd_open dfile flags mode).1.fs.fds fd = files.fs.fds fd := by
    rcases unused : files.fs.unusedFd with _ | fd
    · simp [fd_open, unused]
    rw [opens fd unused] at failed ⊢
    split at failed
    · exact absurd failed (by simp)
    next refused =>
      rw [if_neg refused]
      refine ⟨rfl, fun other isOpen => update_of_ne ?_ _ _⟩
      rintro rfl
      have closed := List.find?_some unused
      simp [isOpen] at closed
  have right : files.OpensRightly dfile flags mode ↔ _ :=
    ⟨fun right => succeeds.symm.trans right.succeeds, fun same => ⟨succeeds.trans same, fails⟩⟩
  rw [right, has_permission_eq]
  cases accessMode flags <;> cases readable (files.st_mode dfile)
    <;> cases writable (files.st_mode dfile) <;> cases files.fs.unusedFd.isSome <;> decide

/-- One symbolic file with the mode, and no open descriptors. -/
def oneFile (st_mode : UInt32) : SymFiles where
  fs :=
    { fds := fun _ => .zero, con_files := [], max_failures := 0, close_fail := 0
      close_calls := 0, etc_symbolic := false, sym_specific := false, symbolic_size := 0 }
  st_mode _ := st_mode
  umask := 0o022

/-- Witness: a file is opened for writing. -/
theorem opensRightly_writing
    : O_WRONLY &&& O_EXCL = 0 ∧ (oneFile 0o200).OpensRightly 0 O_WRONLY 0 :=
  ⟨by decide, (opensRightly_iff (by decide)).mpr fun _ => by decide⟩

/-- A file that everyone can read and write cannot be opened for both. -/
theorem rights_are_reversed
    : ((oneFile 0o666).fd_open 0 O_RDWR 0).2 = -1
      ∧ ¬ (oneFile 0o666).OpensRightly 0 O_RDWR 0 := by
  have refused : ((oneFile 0o666).fd_open 0 O_RDWR 0).2 = -1 := by decide
  refine ⟨refused, fun right => ?_⟩
  have succeeds := right.succeeds.mpr ⟨fun _ => by decide, fun _ => by decide⟩
  exact absurd succeeds (by decide)

end SymFiles

-- Making a path concrete

/-- A byte is constant, or depends on the inputs. -/
inductive Cell (Input : Type) where
  | constant (value : UInt8)
  | symbolic (value : Input → UInt8)

variable {Input : Type}

def Cell.value (input : Input) : Cell Input → UInt8
  | .constant value => value
  | .symbolic value => value input

/-- The loop over the bytes from `sc` on, for an input that stays on the path: branches go the
way of its values, and `klee_get_valuel` answers them, as `klee_assume` drops every other
input.
-/
def concretize_string (input : Input)
    : Nat → UInt32 → List (Cell Input) → Except Fault (List (Cell Input))
  | 0, _, _ => .error .outOfFuel
  | _ + 1, _, [] => .error .badPointer
  | fuel + 1, i, sc :: rest =>
    let c := sc.value input
    if i &&& (i - 1) = 0 then
      if c = 0 then .ok (.constant 0 :: rest)
      else if c = '/'.toUInt8 then do
        .ok (.constant '/'.toUInt8 :: (← concretize_string input fuel (i + 1) rest))
      else concretize_string input fuel (i + 1) (sc :: rest)
    else if c = 0 then .ok (.constant c :: rest)
    else do .ok (.constant c :: (← concretize_string input fuel (i + 1) rest))

/-- The only odd power of two is one. -/
theorem eq_one_of_odd {i : UInt32} (odd : i.toNat % 2 = 1) (power : i &&& (i - 1) = 0) : i = 1 := by
  have before : (i - 1).toNat = 2 * (i.toNat / 2) := by
    have bound := i.toNat_lt
    rw [UInt32.toNat_sub]
    simp
    omega
  have even : i.toNat &&& (2 * (i.toNat / 2)) = 2 * (i.toNat / 2) := by
    refine Nat.eq_of_testBit_eq fun place => ?_
    cases place with
    | zero => simp
    | succ place =>
      rw [Nat.testBit_and, Nat.testBit_succ, Nat.testBit_succ,
        Nat.mul_div_cancel_left _ (by decide), Bool.and_self]
  have zero : i.toNat &&& (i - 1).toNat = 0 := by
    rw [← UInt32.toNat_and, power]
    rfl
  rw [before, even] at zero
  rw [← UInt32.toNat_inj]
  simp
  omega

/-- Of four counters in a row one is not a power of two. -/
theorem counter_induction {holds : UInt32 → Prop} (direct : ∀ i, i &&& (i - 1) ≠ 0 → holds i)
    (later : ∀ i, holds (i + 1) → holds i) (i : UInt32)
    : holds i := by
  have odd (i : UInt32) (isOdd : i.toNat % 2 = 1) : holds i := by
    by_cases same : i = 1
    · exact same ▸ later 1 (later 2 (direct 3 (by decide)))
    · exact direct i (mt (eq_one_of_odd isOdd) same)
  by_cases isOdd : i.toNat % 2 = 1
  · exact odd i isOdd
  · refine later i (odd (i + 1) ?_)
    simp
    omega

/-- The text up to the first NUL becomes constant and keeps its value, whatever is behind it,
even if there is nothing. By induction on the text.
-/
theorem concretize_string_settles (input : Input) (text : List (Cell Input)) (nul : Cell Input)
    (rest : List (Cell Input)) (isText : ∀ sc ∈ text, sc.value input ≠ 0)
    (isNul : nul.value input = 0) (i : UInt32)
    : Settles (fun fuel => concretize_string input fuel i (text ++ nul :: rest))
        ((text ++ [nul]).map (fun sc => .constant (sc.value input)) ++ rest) := by
  induction text generalizing i with
  | nil =>
    refine Settles.of_succ ?_
    simp only [List.nil_append, concretize_string, isNul, if_true, ite_self, List.map_cons]
    exact settles_ok _
  | cons sc text ih =>
    obtain ⟨here, later⟩ := List.forall_mem_cons.mp isText
    -- a byte that is not written at this counter is written at one of the next three
    induction i using counter_induction with
    | direct i other =>
      refine Settles.of_succ ?_
      simp only [List.cons_append, concretize_string, if_neg other, if_neg here]
      exact (ih later (i + 1)).bind (settles_ok _)
    | later i after =>
      refine Settles.of_succ ?_
      simp only [List.cons_append, concretize_string, if_neg here]
      split
      · split
        next slash =>
          rw [← slash]
          exact (ih later (i + 1)).bind (settles_ok _)
        · exact after
      · exact (ih later (i + 1)).bind (settles_ok _)

/-- Witness: a symbolic byte, a slash and a NUL at the end of memory. -/
theorem concretize_string_settles_slash
    : Settles (fun fuel => concretize_string 7 fuel 0 [.symbolic id, .constant 47, .constant 0])
        [.constant 7, .constant 47, .constant 0] :=
  concretize_string_settles 7 [.symbolic id, .constant 47] (.constant 0) [] (by decide) rfl 0

-- Opening a file in memory again

/-- The flags that `open` looks at for a concrete file. `O_TRUNC` is not among them. -/
def openFlagsOf (flags : UInt32) : OpenFlags where
  O_CREAT := flags &&& O_CREAT ≠ 0
  O_EXCL := flags &&& O_EXCL ≠ 0
  O_ACCMODE := accessMode flags

/-- A descriptor of a file in memory, as the calls on it see it. -/
def exeFile (fs : FileSystem) (fd : Fin MAX_FDS) : Option ExeFile :=
  match (fs.fds fd).type with
  | .CONCRETE_FILE dcfile => do
    let con_file ← fs.con_files[dcfile]?
    if con_file.state = .INMEM then
      some ⟨(fs.fds fd).fd, (fs.fds fd).off, con_file.toConFile⟩
    else none
  | _ => none

/-- A file that was created, with the file it should be, after careful calls on descriptors
that have an offset each.
-/
inductive History : Files → Prop
  | created (mode : UInt32) : History ⟨created mode, .empty⟩
  | call {files after : Files} {call : Call} (history : History files)
    (step : Step (.ok files) call (.ok after)) (careful : files.Careful call) : History after
  | descriptor {files : Files} (history : History files) (off : Nat) (small : off < 0x80000000)
    : History ⟨{ files.file with off }, { files.reference with off }⟩

theorem History.refines {files : Files} (history : History files) : Refines files := by
  induction history with
  | created mode => exact refines_created mode
  | @call files after call _ step careful ih =>
    obtain ⟨_, same, refines⟩ := (step.sound_iff ⟨files, rfl, ih⟩).2 fun _ same => by
      cases same
      exact careful
    cases same
    exact refines
  | descriptor _ _ small ih => exact { ih with off := rfl, smallOff := small }

/-- `open` succeeds, and reads through the new descriptor return the bytes. -/
def OpensWith (result : FileSystem × Int) (bytes : List UInt8) : Prop :=
  ∃ fd f, result.2 = Fin.val fd ∧ exeFile result.1 fd = some f
    ∧ ∀ counts : List Nat, (∀ count ∈ counts, count < 0x8000000000000000)
      → f.serveAll (counts.map .read) = .ok (RefFile.serveAll ⟨bytes, 0⟩ (counts.map .read))

/-- By induction on the reads. -/
theorem serveAll_reads {f : ExeFile} {reference : RefFile} (refines : Refines ⟨f, reference⟩)
    (counts : List Nat) (small : ∀ count ∈ counts, count < 0x8000000000000000)
    : f.serveAll (counts.map .read) = .ok (reference.serveAll (counts.map .read)) := by
  induction counts generalizing f reference with
  | nil => rfl
  | cons count rest ih =>
    obtain ⟨smallFirst, smallRest⟩ := List.forall_mem_cons.mp small
    obtain ⟨after, served, refines⟩ := read_refines refines smallFirst
    simp only [List.map_cons, ExeFile.serveAll, ExeFile.serve, served, ok_bind,
      ih refines smallRest, RefFile.serveAll]

variable {fs : FileSystem} {host : Host} {pathname con_fullpath : String} {flags mode : UInt32}
  {i : Nat} {con_file : DiskConFile} {files : Files}

open Descriptors (emptyHost started)

/-- A file was created as descriptor 3, and the byte 7 was written to it. -/
def sevenFile : FileSystem :=
  (started.fs.fd_open emptyHost "/a" (openFlagsOf (O_CREAT ||| O_RDWR)) 0).1.modifyRecord 31
    fun con_file =>
      { con_file with size := 1, buf_size := 32, contents := 7 :: List.replicate 31 0 }

end Woodpecker.Posix
