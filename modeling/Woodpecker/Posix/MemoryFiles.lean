import Woodpecker.Library.Runs
import Woodpecker.Posix.Fd

/-! In-memory files against a reference file, over sequences of calls through a descriptor.

The buffer of a file that was cut still has the old bytes behind its end, and they come back
when the file grows over them. A seek checks for one negative position only.
-/

namespace Woodpecker.Posix

open Library List

inductive Call where
  | read (count : Nat)
  | write (data : List UInt8)
  | lseek (offset : Int) (whence : Whence)
  | ftruncate (length : Nat)

def ExeFile.serve (f : ExeFile) : Call → Except Fault (ExeFile × Answer)
  | .read count => read f count
  | .write data => write f data
  | .lseek offset whence => .ok (fd_lseek f offset whence)
  | .ftruncate length => fd_ftruncate f length

-- The reference file

/-- A file is its bytes, and a descriptor an offset. -/
structure RefFile where
  contents : List UInt8
  off : Nat

open RefFile

namespace RefFile

def empty : RefFile where
  contents := []
  off := 0

def position (file : RefFile) (offset : Int) : Whence → Option Int
  | .SEEK_SET => some offset
  | .SEEK_CUR => some (file.off + offset)
  | .SEEK_END => some (file.contents.length + offset)
  | .other => none

/-- A gap before written bytes is filled with zeros, and writing nothing changes nothing. -/
def written (file : RefFile) (data : List UInt8) : List UInt8 :=
  if data = [] then file.contents
  else splice (resize 0 file.contents (max file.contents.length file.off)) data file.off

def serve (file : RefFile) : Call → RefFile × Answer
  | .read count =>
    let data := (file.contents.drop file.off).take count
    ({ file with off := file.off + data.length }, ⟨data.length, data⟩)
  | .write data => (⟨file.written data, file.off + data.length⟩, ⟨data.length, []⟩)
  | .lseek offset whence =>
    match file.position offset whence with
    | none => (file, ⟨-1, []⟩)
    | some new_off =>
      if 0 ≤ new_off then ({ file with off := new_off.toNat }, ⟨new_off, []⟩)
      else (file, ⟨-1, []⟩)
  | .ftruncate length => ({ file with contents := resize 0 file.contents length }, ⟨0, []⟩)

end RefFile

/-- Offsets and sizes stay below `2 ^ 31`. -/
def Legal (file : RefFile) : Call → Prop
  | .read count => count < 0x80000000
  | .write data => file.off + data.length < 0x80000000
  | .lseek offset whence => ∀ new_off, file.position offset whence = some new_off
      → -0x80000000 < new_off ∧ new_off < 0x80000000
  | .ftruncate length => length < 0x80000000

structure Files where
  file : ExeFile
  reference : RefFile

inductive Step : Except Fault Files → Call → Except Fault Files → Prop
  | serve (files : Files) (call : Call) (legal : Legal files.reference call)
    : Step (.ok files) call
        ((files.file.serve call).map fun outcome =>
          ⟨outcome.1, (files.reference.serve call).1⟩)

/-- The file has the offset, the size and the bytes of the reference file. -/
structure Shows (f : ExeFile) (reference : RefFile) : Prop where
  off : f.off = reference.off
  size : f.dcfile.size = reference.contents.length
  contents : f.dcfile.contents.take f.dcfile.size = reference.contents

/-- No access falls outside the buffer, the answer is that of the reference file, and the
file afterwards is the reference file afterwards.
-/
def Sound (transition : Transition (Except Fault Files) Call) : Prop :=
  ∃ files after,
    transition.before = .ok files
    ∧ files.file.serve transition.label
      = .ok (after, (files.reference.serve transition.label).2)
    ∧ Shows after (files.reference.serve transition.label).1

/-- The buffer is zero from the end of the file up to a position. -/
def Blank (dcfile : ConFile) (upto : Nat) : Prop :=
  ∀ (index : Nat) (byte : UInt8), dcfile.size ≤ index → index < upto
    → dcfile.contents[index]? = some byte → byte = 0

/-- A write of nothing is not made behind the end. A file does not grow over bytes that are
left behind its end, unless by a write for which the buffer is too short. A seek does not go
before -1.
-/
def Files.Careful (files : Files) : Call → Prop
  | .read _ => True
  | .write data =>
    if data = [] then files.reference.off ≤ files.file.dcfile.size
    else files.reference.off + data.length ≤ files.file.dcfile.buf_size
      → Blank files.file.dcfile files.reference.off
  | .lseek offset whence => ∀ new_off, files.reference.position offset whence = some new_off
      → -1 ≤ new_off
  | .ftruncate length => Blank files.file.dcfile length

def Careful (transition : Transition (Except Fault Files) Call) : Prop :=
  ∀ files, transition.before = .ok files → files.Careful transition.label

-- Words and buffers

theorem asInt_of_lt {count : Nat} (small : count < 0x80000000) : asInt count = count := by
  unfold asInt Int.bmod
  dsimp only
  omega

/-- Doubling ends when the size is positive and the target below `2 ^ 31`, by induction on
the doublings that are left.
-/
theorem doubleUntil_ok {width target doublings size : Nat} (wide : 32 ≤ width)
    (small : target < 0x80000000) (positive : 0 < size) (word : size < 0x100000000)
    (enough : target ≤ size * 2 ^ doublings)
    : ∃ grown, doubleUntil width target doublings size = .ok grown
        ∧ target ≤ grown ∧ size ≤ grown ∧ grown < 0x100000000 := by
  induction doublings generalizing size with
  | zero =>
    have reached : ¬ size < target := by simpa using enough
    exact ⟨size, if_neg reached, Nat.le_of_not_lt reached, Nat.le_refl _, word⟩
  | succ doublings ih =>
    rw [doubleUntil]
    split
    next less =>
      have room : 2 ^ 32 ≤ 2 ^ width := Nat.pow_le_pow_right (by omega) wide
      have exactly : 2 * size % 2 ^ width = 2 * size := Nat.mod_eq_of_lt (by omega)
      rw [exactly]
      have enoughLeft : target ≤ 2 * size * 2 ^ doublings := by
        rw [Nat.pow_succ, ← Nat.mul_assoc, Nat.mul_comm, ← Nat.mul_assoc] at enough
        exact enough
      obtain ⟨grown, looped, reached, larger, isWord⟩ := ih (by omega) (by omega) enoughLeft
      exact ⟨grown, looped, reached, by omega, isWord⟩
    next reached => exact ⟨size, rfl, Nat.le_of_not_lt reached, Nat.le_refl _, word⟩

theorem load_ok {contents : List UInt8} {off count : Nat} (room : off + count ≤ contents.length)
    : load contents off count = .ok ((contents.drop off).take count) := by
  unfold load
  rw [if_pos (by omega)]
  rfl

theorem moved_ok {contents : List UInt8} {kept buf_size : Nat} (held : kept ≤ contents.length)
    (room : kept ≤ buf_size)
    : moved contents kept buf_size = .ok (contents.take kept ++ replicate (buf_size - kept) 0) := by
  have loaded : load contents 0 kept = .ok (contents.take kept) :=
    load_ok (by simpa using held)
  rw [moved, loaded, ok_bind, if_pos room]

/-- The buffer after it was made long enough. -/
structure Grown (dcfile grown : ConFile) (last_pos : Nat) : Prop where
  size : grown.size = dcfile.size
  mode : grown.mode = dcfile.mode
  buffer : grown.contents.length = grown.buf_size
  room : last_pos ≤ grown.buf_size
  fits : dcfile.size ≤ grown.buf_size
  word : grown.buf_size < 0x100000000
  kept : grown.contents.take dcfile.size = dcfile.contents.take dcfile.size

section Growing

variable {dcfile : ConFile} {last_pos upto : Nat}

/-- A buffer that is long enough is zero where it is blank. -/
theorem blank_iff (room : upto ≤ dcfile.contents.length)
    : (∀ index, dcfile.size ≤ index → index < upto → dcfile.contents[index]? = some 0)
      ↔ Blank dcfile upto := by
  constructor
  · intro zeros index byte beyond inside found
    exact Option.mem_unique found (zeros index beyond inside)
  · intro blank index beyond inside
    have found := getElem?_eq_getElem (Nat.lt_of_lt_of_le inside room)
    rw [found, blank index _ beyond inside found]

section

variable (buffer : dcfile.contents.length = dcfile.buf_size) (fits : dcfile.size ≤ dcfile.buf_size)
  (word : dcfile.buf_size < 0x100000000)
include buffer fits word

/-- A write that needs a longer buffer gets one with zeros behind the end of the file. -/
theorem reserve_ok (small : last_pos < 0x80000000) (within : upto ≤ last_pos)
    : ∃ grown, reserve dcfile last_pos = .ok grown
        ∧ Grown dcfile grown last_pos
        ∧ ((∀ index, dcfile.size ≤ index → index < upto → grown.contents[index]? = some 0)
          ↔ (last_pos ≤ dcfile.buf_size → Blank dcfile upto)) := by
  unfold reserve
  split
  next short =>
    have positive : 0 < if dcfile.buf_size = 0 then 32 else 2 * dcfile.buf_size % 0x100000000 := by
      split <;> omega
    have isWord : (if dcfile.buf_size = 0 then 32 else 2 * dcfile.buf_size % 0x100000000)
        < 0x100000000 := by
      split <;> omega
    have enough : last_pos
        ≤ (if dcfile.buf_size = 0 then 32 else 2 * dcfile.buf_size % 0x100000000) * 2 ^ 64 := by
      omega
    obtain ⟨new_buf_size, looped, reached, -, newWord⟩ :=
      doubleUntil_ok (show 32 ≤ 64 by decide) small positive isWord enough
    have held : dcfile.size ≤ dcfile.contents.length := by omega
    have room : dcfile.size ≤ new_buf_size := by omega
    have exactly : new_buf_size % 0x100000000 = new_buf_size := Nat.mod_eq_of_lt newWord
    dsimp only
    rw [looped, ok_bind, moved_ok held room, ok_bind, exactly]
    have length : (dcfile.contents.take dcfile.size).length = dcfile.size := by simp [held]
    refine ⟨_, rfl, ⟨rfl, rfl, ?_, reached, room, newWord, ?_⟩, ?_⟩
    · simp only [length_append, length_replicate, length]
      omega
    · exact take_left' length
    · refine iff_of_true ?_ (fun long => absurd long (Nat.not_le_of_lt short))
      intro index beyond inside
      have gap : index - dcfile.size < new_buf_size - dcfile.size := by omega
      rw [getElem?_append_right (by omega), length, getElem?_replicate, if_pos gap]
  next long =>
    refine ⟨dcfile, rfl, ⟨rfl, rfl, buffer, by omega, fits, word, rfl⟩, ?_⟩
    rw [blank_iff (by omega)]
    exact ⟨fun blank _ => blank, fun blank => blank (by omega)⟩

/-- Truncating keeps all of the old buffer. -/
theorem extend_ok {length : Nat} (small : length < 0x80000000)
    : ∃ grown, extend dcfile length = .ok grown
        ∧ Grown dcfile grown length
        ∧ ((∀ index, dcfile.size ≤ index → index < length → grown.contents[index]? = some 0)
          ↔ Blank dcfile length) := by
  unfold extend
  split
  next short =>
    have positive : 0 < if dcfile.buf_size = 0 then 32 else dcfile.buf_size := by
      split <;> omega
    have isWord : (if dcfile.buf_size = 0 then 32 else dcfile.buf_size) < 0x100000000 := by
      split <;> omega
    have enough : length ≤ (if dcfile.buf_size = 0 then 32 else dcfile.buf_size) * 2 ^ 32 := by
      omega
    obtain ⟨buf_size, looped, reached, -, newWord⟩ :=
      doubleUntil_ok (Nat.le_refl 32) small positive isWord enough
    have room : dcfile.buf_size ≤ buf_size := by omega
    have fitsNew : dcfile.size ≤ buf_size := Nat.le_trans fits room
    dsimp only
    rw [Int.toNat_natCast, looped, ok_bind, moved_ok (Nat.le_of_eq buffer.symm) room, ok_bind,
      ← buffer, take_length]
    refine ⟨_, rfl, ⟨rfl, rfl, ?_, reached, fitsNew, newWord, ?_⟩, ?_⟩
    · simp only [length_append, length_replicate]
      omega
    · exact take_append_of_le_length (by omega)
    constructor
    · intro zeros index byte beyond inside found
      have old := (List.getElem?_eq_some_iff.mp found).1
      have zero := zeros index beyond inside
      rw [getElem?_append_left old, found] at zero
      exact Option.some.inj zero
    · intro blank index beyond inside
      rw [getElem?_append]
      split
      next old =>
        have found := getElem?_eq_getElem old
        rw [found, blank index _ beyond inside found]
      next new =>
        have gap : index - dcfile.contents.length < buf_size - dcfile.contents.length := by
          omega
        rw [getElem?_replicate, if_pos gap]
  next long =>
    refine ⟨dcfile, rfl, ⟨rfl, rfl, buffer, by omega, fits, word, rfl⟩, ?_⟩
    exact blank_iff (by omega)

end

end Growing

-- Calls

/-- The file shows the reference file, and its buffer is as long as it says. -/
structure Refines (files : Files) : Prop extends Shows files.file files.reference where
  regular : ¬ S_ISDIR files.file.dcfile.mode = true
  fd : files.file.fd = -1
  buffer : files.file.dcfile.contents.length = files.file.dcfile.buf_size
  fits : files.file.dcfile.size ≤ files.file.dcfile.buf_size
  smallOff : files.reference.off < 0x80000000
  smallSize : files.file.dcfile.size < 0x80000000
  word : files.file.dcfile.buf_size < 0x100000000

theorem regular_created (mode : UInt32) : ¬ S_ISDIR (mode ||| S_IFREG) = true := by
  have distributed : (mode ||| S_IFREG) &&& S_IFMT = mode &&& S_IFMT ||| S_IFREG := by
    apply UInt32.toBitVec_inj.mp
    simp only [UInt32.toBitVec_and, UInt32.toBitVec_or, BitVec.and_or_distrib_right]
    rfl
  simp only [S_ISDIR, distributed, decide_eq_true_eq]
  intro same
  have bit := congrArg (fun word : UInt32 => word.toBitVec.getLsbD 15) same
  simp [S_IFREG, S_IFDIR] at bit

theorem refines_created (mode : UInt32) : Refines ⟨created mode, .empty⟩ where
  off := rfl
  size := rfl
  contents := rfl
  regular := regular_created mode
  fd := rfl
  buffer := rfl
  fits := Nat.le_refl _
  smallOff := by simp [empty]
  smallSize := by simp [created]
  word := by simp [created]

section Calls

variable {f : ExeFile} {reference : RefFile}

theorem available_eq (refines : Refines ⟨f, reference⟩) {count : Nat}
    (small : count < 0x8000000000000000)
    : available f count = .ok ((reference.contents.drop reference.off).take count) := by
  have isOff := refines.off
  have smallOff := refines.smallOff
  have smallSize := refines.smallSize
  have fits := refines.fits
  have buffer := refines.buffer
  simp only at isOff smallOff smallSize fits buffer
  unfold available
  rw [isOff, ← refines.contents, drop_take, take_take]
  split
  next before =>
    have isMin : (if ((reference.off : Int) + count) % 0x10000000000000000 > f.dcfile.size then
        (((f.dcfile.size : Int) - reference.off) % 0x10000000000000000).toNat else count)
        = min count (f.dcfile.size - reference.off) := by
      split <;> omega
    rw [isMin, load_ok (by omega)]
  next behind =>
    have nothing : min count (f.dcfile.size - reference.off) = 0 := by omega
    rw [nothing, take_zero]

/-- A read returns what the reference file returns. -/
theorem read_refines (refines : Refines ⟨f, reference⟩) {count : Nat}
    (small : count < 0x8000000000000000)
    : ∃ after, read f count = .ok (after, (reference.serve (.read count)).2)
        ∧ Refines ⟨after, (reference.serve (.read count)).1⟩ := by
  by_cases zero : count = 0
  · subst zero
    exact ⟨f, by simp [read, serve], by simpa [serve] using refines⟩
  have loaded := available_eq refines small
  have counted : ((reference.contents.drop reference.off).take count).length
      ≤ reference.contents.length := by
    rw [length_take, length_drop]
    omega
  have isInt := asInt_of_lt (Nat.lt_of_le_of_lt counted (refines.size ▸ refines.smallSize))
  have isFd : f.fd ≠ 0 := by
    rw [refines.fd]
    decide
  unfold read
  rw [if_neg zero, if_neg refines.regular, loaded, ok_bind, isInt, if_neg (by omega), if_pos isFd]
  refine ⟨_, rfl, ⟨?_, refines.size, refines.contents⟩, refines.regular, refines.fd,
    refines.buffer, refines.fits, ?_, refines.smallSize, refines.word⟩
  · have isOff : f.off = reference.off := refines.off
    simp [serve, isOff]
  have isSize := refines.size
  have smallSize := refines.smallSize
  have smallOff := refines.smallOff
  simp only [serve, length_take, length_drop] at *
  omega

theorem length_written (reference : RefFile) (data : List UInt8)
    : (reference.written data).length = if data = [] then reference.contents.length
        else max reference.contents.length (reference.off + data.length) := by
  unfold written
  split
  · rfl
  · have room : reference.off ≤ (resize (0 : UInt8) reference.contents
            (max reference.contents.length reference.off)).length := by
      rw [length_resize]
      omega
    rw [length_splice room, length_resize]
    omega

/-- A buffer shows the written file exactly when nothing is written before its end, or the
gap is zero.
-/
theorem shows_written_iff {cells data : List UInt8} {size : Nat}
    (shown : cells.take size = reference.contents) (isSize : size = reference.contents.length)
    (fits : size ≤ cells.length) (room : reference.off + data.length ≤ cells.length)
    : (max size (reference.off + data.length) = (reference.written data).length
        ∧ (splice cells data reference.off).take (max size (reference.off + data.length))
          = reference.written data)
      ↔ if data = [] then reference.off ≤ size
        else ∀ index, size ≤ index → index < reference.off → cells[index]? = some 0 := by
  rw [length_written]
  by_cases nothing : data = []
  · subst nothing
    rw [if_pos rfl, if_pos rfl, length_nil, Nat.add_zero, ← isSize]
    constructor
    · intro ⟨sameSize, _⟩
      omega
    · intro before
      have same : max size reference.off = size := by omega
      rw [same, splice_nil (by omega), shown]
      exact ⟨rfl, by simp [written]⟩
  · rw [if_neg nothing, if_neg nothing, ← isSize, written, if_neg nothing, ← isSize, ← shown]
    have iff_zeros := take_splice_eq_iff (0 : UInt8) fits room
    exact ⟨fun shows => iff_zeros.mp shows.2, fun zeros => ⟨rfl, iff_zeros.mpr zeros⟩⟩

section

variable (refines : Refines ⟨f, reference⟩)
include refines

/-- A write does what it does to the reference file exactly when it is careful. -/
theorem write_spec {data : List UInt8} (small : reference.off + data.length < 0x80000000)
    : ∃ after, write f data = .ok (after, (reference.serve (.write data)).2)
        ∧ (Shows after (reference.serve (.write data)).1
          ↔ Files.Careful ⟨f, reference⟩ (.write data))
        ∧ (Shows after (reference.serve (.write data)).1
          → Refines ⟨after, (reference.serve (.write data)).1⟩) := by
  have isOff : f.off = reference.off := refines.off
  have isFd : f.fd ≠ 1 ∧ f.fd ≠ 2 := by
    have fd : f.fd = -1 := refines.fd
    omega
  have last : ((f.off + data.length) % 0x100000000).toNat = reference.off + data.length := by
    omega
  have isInt : asInt data.length = data.length := asInt_of_lt (by omega)
  obtain ⟨grown, reserved, growth, zeros⟩ := reserve_ok refines.buffer refines.fits refines.word
    small (Nat.le_add_right reference.off data.length)
  have room : reference.off + data.length ≤ grown.contents.length := by
    rw [growth.buffer]
    exact growth.room
  have stored : store grown.contents f.off data
      = .ok (splice grown.contents data reference.off) := by
    rw [isOff, store, if_pos (by omega)]
    rfl
  have isMax : (if reference.off + data.length > grown.size then reference.off + data.length
      else grown.size) = max f.dcfile.size (reference.off + data.length) := by
    have sameSize : grown.size = f.dcfile.size := growth.size
    split <;> omega
  have shows_iff := shows_written_iff (growth.kept.trans refines.contents) refines.size
    (by rw [growth.buffer]; exact growth.fits) room
  unfold write
  dsimp only
  rw [if_neg refines.regular, last, reserved, ok_bind, if_pos growth.room, stored, ok_bind,
    isInt, if_neg (by omega), if_pos (by omega), if_pos isFd, isMax]
  refine ⟨_, rfl, ?_, ?_⟩
  · have careful_iff : Files.Careful ⟨f, reference⟩ (.write data)
        ↔ if data = [] then reference.off ≤ f.dcfile.size
          else ∀ index, f.dcfile.size ≤ index → index < reference.off
            → grown.contents[index]? = some 0 := by
      simp only [Files.Careful]
      by_cases nothing : data = []
      · rw [if_pos nothing, if_pos nothing]
      · rw [if_neg nothing, if_neg nothing]
        exact zeros.symm
    rw [careful_iff, ← shows_iff]
    constructor
    · exact fun shows => ⟨shows.size, shows.contents⟩
    · intro ⟨sameSize, sameContents⟩
      exact ⟨by simp [serve, isOff], sameSize, sameContents⟩
  · intro shows
    have fits : f.dcfile.size ≤ grown.buf_size := growth.fits
    have smallSize : f.dcfile.size < 0x80000000 := refines.smallSize
    have longEnough := growth.room
    refine ⟨shows, ?_, refines.fd, ?_, ?_, small, ?_, growth.word⟩
    · rw [growth.mode]
      exact refines.regular
    · dsimp only
      rw [length_splice (by omega), growth.buffer]
      omega
    · dsimp only
      omega
    · dsimp only
      omega

theorem ftruncate_spec {length : Nat} (small : length < 0x80000000)
    : ∃ after, fd_ftruncate f length = .ok (after, (reference.serve (.ftruncate length)).2)
        ∧ (Shows after (reference.serve (.ftruncate length)).1
          ↔ Files.Careful ⟨f, reference⟩ (.ftruncate length))
        ∧ (Shows after (reference.serve (.ftruncate length)).1
          → Refines ⟨after, (reference.serve (.ftruncate length)).1⟩) := by
  obtain ⟨grown, extended, growth, zeros⟩ := extend_ok refines.buffer refines.fits refines.word
    small
  have exactly : ((length : Int) % 0x100000000).toNat = length := by omega
  have fits : f.dcfile.size ≤ grown.contents.length := by
    rw [growth.buffer]
    exact growth.fits
  have shows_iff := take_eq_resize_iff (0 : UInt8) length fits
  rw [growth.kept, refines.contents, zeros] at shows_iff
  unfold fd_ftruncate
  rw [extended, ok_bind, exactly]
  refine ⟨_, rfl, ?_, ?_⟩
  · constructor
    · exact fun shows => shows_iff.mp shows.contents
    · exact fun blank => ⟨refines.off, (length_resize _ _ _).symm, shows_iff.mpr blank⟩
  · intro shows
    refine ⟨shows, ?_, refines.fd, growth.buffer, growth.room, refines.smallOff, small, growth.word⟩
    rw [growth.mode]
    exact refines.regular

/-- A seek to -1 fails by its answer; one before that moves the offset. -/
theorem lseek_spec {offset : Int} {whence : Whence} (legal : Legal reference (.lseek offset whence))
    : let answer := (reference.serve (.lseek offset whence)).2
      let after := (reference.serve (.lseek offset whence)).1
      (Files.Careful ⟨f, reference⟩ (.lseek offset whence)
        ∧ (fd_lseek f offset whence).2 = answer
        ∧ Refines ⟨(fd_lseek f offset whence).1, after⟩)
      ∨ (¬ Files.Careful ⟨f, reference⟩ (.lseek offset whence)
        ∧ (fd_lseek f offset whence).2 ≠ answer) := by
  have same : target f offset whence = reference.position offset whence := by
    have isOff : f.off = reference.off := refines.off
    have isSize : f.dcfile.size = reference.contents.length := refines.size
    cases whence <;> simp [target, position, isOff, isSize]
  simp only [fd_lseek, same, serve, Files.Careful]
  rcases asked : reference.position offset whence with _ | new_off
  · exact .inl ⟨by simp, rfl, refines⟩
  obtain ⟨-, below⟩ := legal new_off asked
  simp only [Option.some.injEq, forall_eq']
  rcases Int.lt_trichotomy new_off (-1) with before | rfl | after
  · right
    rw [if_neg (by omega), if_neg (by omega)]
    exact ⟨by omega, by simp; omega⟩
  · left
    exact ⟨by decide, rfl, refines⟩
  · left
    have isNat : ((new_off.toNat : Nat) : Int) = new_off := by omega
    have smallNew : new_off.toNat < 0x80000000 := by omega
    rw [if_neg (by omega), if_pos (by omega)]
    exact ⟨by omega, rfl, ⟨isNat.symm, refines.size, refines.contents⟩, refines.regular,
      refines.fd, refines.buffer, refines.fits, smallNew, refines.smallSize, refines.word⟩

end

end Calls

-- Runs

/-- No access has failed, and the file shows the reference file. -/
def Kept (state : Except Fault Files) : Prop :=
  ∃ files, state = .ok files ∧ Refines files

/-- A call from a file that shows the reference file is sound exactly when it is careful. -/
theorem Step.sound_iff {before after : Except Fault Files} {call : Call}
    (step : Step before call after) (kept : Kept before)
    : (Sound ⟨before, call, after⟩ ↔ Careful ⟨before, call, after⟩)
      ∧ (Careful ⟨before, call, after⟩ → Kept after) := by
  cases step with
  | serve files call legal =>
    obtain ⟨_, isFiles, refines⟩ := kept
    cases isFiles
    have careful_iff {state : Except Fault Files}
        : Careful ⟨.ok files, call, state⟩ ↔ files.Careful call := by
      constructor
      · exact fun careful => careful files rfl
      · intro careful other same
        cases same
        exact careful
    have sound_iff {state : Except Fault Files} {served : ExeFile} {answer : Answer}
        (serves : files.file.serve call = .ok (served, answer))
        : Sound ⟨.ok files, call, state⟩
          ↔ answer = (files.reference.serve call).2
            ∧ Shows served (files.reference.serve call).1 := by
      constructor
      · intro ⟨other, left, same, outcome, shows⟩
        cases same
        cases serves.symm.trans outcome
        exact ⟨rfl, shows⟩
      · intro ⟨sameAnswer, shows⟩
        exact ⟨files, served, rfl, sameAnswer ▸ serves, shows⟩
    have kept_of {served : ExeFile} {answer : Answer}
        (serves : files.file.serve call = .ok (served, answer))
        (still : Refines ⟨served, (files.reference.serve call).1⟩)
        : Kept ((files.file.serve call).map fun outcome =>
            ⟨outcome.1, (files.reference.serve call).1⟩) :=
      ⟨_, by rw [serves]; rfl, still⟩
    rw [careful_iff]
    cases call with
    | read count =>
      obtain ⟨served, serves, still⟩ := read_refines refines (Nat.lt_trans legal (by decide))
      rw [sound_iff serves]
      exact ⟨iff_of_true ⟨rfl, still.toShows⟩ trivial, fun _ => kept_of serves still⟩
    | write data =>
      obtain ⟨served, serves, shows_iff, still⟩ := write_spec refines legal
      rw [sound_iff serves, ← shows_iff]
      exact ⟨and_iff_right rfl, fun shows => kept_of serves (still shows)⟩
    | ftruncate length =>
      obtain ⟨served, serves, shows_iff, still⟩ := ftruncate_spec refines legal
      rw [sound_iff serves, ← shows_iff]
      exact ⟨and_iff_right rfl, fun shows => kept_of serves (still shows)⟩
    | lseek offset whence =>
      rw [sound_iff (rfl : files.file.serve (.lseek offset whence) = _)]
      rcases lseek_spec refines legal with ⟨careful, same, still⟩ | ⟨careless, differ⟩
      · exact ⟨iff_of_true ⟨same, still.toShows⟩ careful, fun _ => kept_of rfl still⟩
      · exact ⟨iff_of_false (fun sound => differ sound.1) careless,
          fun careful => absurd careful careless⟩

/-- Over every sequence of calls on a file created empty, the file is the reference file
throughout exactly when every call is careful.
-/
theorem sound_iff_careful_files {mode : UInt32}
    {trace : List (Transition (Except Fault Files) Call)} {finish : Except Fault Files}
    (run : Run (Takes Step) (.ok ⟨created mode, .empty⟩) trace finish)
    : (∀ transition ∈ trace, Sound transition) ↔ ∀ transition ∈ trace, Careful transition :=
  run.forall_iff Kept ⟨_, rfl, refines_created mode⟩ fun _ => Step.sound_iff

/-- Witness: one byte is written and read again. -/
theorem sound_iff_careful_files_written
    : ∃ trace finish, Run (Takes Step) (.ok ⟨created 0, .empty⟩) trace finish
        ∧ trace.map Transition.label = [.write [7], .lseek 0 .SEEK_SET]
        ∧ ∀ transition ∈ trace, Sound transition := by
  have written := Run.nil.record
    (Step.serve ⟨created 0, .empty⟩ (.write [7]) (by simp [Legal, empty]))
  have sought := written.record
    (Step.serve ⟨⟨-1, 1, ⟨1, 32, 7 :: replicate 31 0, S_IFREG⟩⟩, ⟨[7], 1⟩⟩
      (.lseek 0 .SEEK_SET) (by simp [Legal, position]))
  refine ⟨_, _, sought, rfl, (sound_iff_careful_files sought).mpr ?_⟩
  intro transition member files before
  simp at member
  rcases member with rfl | rfl
  · cases before
    simp [Files.Careful, empty, created]
  · cases before
    simp [Files.Careful, position]

/-- The answers to some calls in order. -/
def ExeFile.serveAll (f : ExeFile) : List Call → Except Fault (List Answer)
  | [] => .ok []
  | call :: rest => do
    let (f, answer) ← f.serve call
    let answers ← f.serveAll rest
    .ok (answer :: answers)

def RefFile.serveAll (file : RefFile) : List Call → List Answer
  | [] => []
  | call :: rest => (file.serve call).2 :: (file.serve call).1.serveAll rest

/-- A byte that was cut off is back when the file is extended, and a seek to -5 succeeds. -/
theorem truncated_byte_returns
    : let calls : List Call :=
        [.write [7], .ftruncate 0, .ftruncate 1, .lseek 0 .SEEK_SET, .read 1, .lseek (-5) .SEEK_SET]
      (created 0).serveAll calls = .ok [⟨1, []⟩, ⟨0, []⟩, ⟨0, []⟩, ⟨0, []⟩, ⟨1, [7]⟩, ⟨-5, []⟩]
      ∧ empty.serveAll calls = [⟨1, []⟩, ⟨0, []⟩, ⟨0, []⟩, ⟨0, []⟩, ⟨1, [0]⟩, ⟨-1, []⟩] := by
  exact ⟨by decide +kernel, by decide +kernel⟩

end Woodpecker.Posix
