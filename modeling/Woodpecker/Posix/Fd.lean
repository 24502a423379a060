import Mathlib.Algebra.Group.Nat.Defs
import Woodpecker.Library.Buffers
import Woodpecker.Library.Faults

/-! Reading, writing, seeking and truncating files that the POSIX model keeps in memory.

Such a file has a buffer that is at least as long as the file. The functions are those for an
open descriptor of a file in the state `CON_STATE_INMEM`, with no failures injected. Sizes
are C's `unsigned`, offsets are signed, and their sums are taken in the width C takes them.
-/

namespace Woodpecker.Posix

open Library

def S_IFMT : UInt32 := 0o170000
def S_IFDIR : UInt32 := 0o040000
def S_IFREG : UInt32 := 0o100000

def S_ISDIR (mode : UInt32) : Bool :=
  mode &&& S_IFMT = S_IFDIR

/-- The record of a file. The buffer is `NULL` when it is empty. -/
structure ConFile where
  size : Nat
  buf_size : Nat
  contents : List UInt8
  mode : UInt32
deriving DecidableEq, Repr

/-- An open descriptor with its own offset. -/
structure ExeFile where
  fd : Int
  off : Int
  dcfile : ConFile
deriving DecidableEq, Repr

inductive Whence where
  | SEEK_SET
  | SEEK_CUR
  | SEEK_END
  | other
deriving DecidableEq, Repr

/-- What a call returns, and the bytes it has put into the caller's buffer. -/
structure Answer where
  result : Int
  data : List UInt8
deriving DecidableEq, Repr

/-- `open` with `O_CREAT` for a path that has no record yet. -/
def created (mode : UInt32) : ExeFile where
  fd := -1
  off := 0
  dcfile :=
    { size := 0
      buf_size := 0
      contents := []
      mode := mode ||| S_IFREG }

/-- `(int) count` -/
def asInt (count : Nat) : Int :=
  Int.bmod count 0x100000000

/-- `memcpy` out of a buffer. -/
def load (contents : List UInt8) (off : Int) (count : Nat) : Except Fault (List UInt8) :=
  if 0 ≤ off ∧ off + count ≤ contents.length then
    .ok ((contents.drop off.toNat).take count)
  else
    .error .badPointer

/-- `memcpy` into a buffer. -/
def store (contents : List UInt8) (off : Int) (data : List UInt8)
    : Except Fault (List UInt8) :=
  if 0 ≤ off ∧ off + data.length ≤ contents.length then
    .ok (splice contents data off.toNat)
  else
    .error .badPointer

/-- `while (size < target) size *= 2` on words of a width. A size that has been doubled as
often as it has bits is zero, and the loop does not end.
-/
def doubleUntil (width target : Nat) : Nat → Nat → Except Fault Nat
  | 0, size => if size < target then .error .outOfFuel else .ok size
  | doublings + 1, size =>
    if size < target then doubleUntil width target doublings (2 * size % 2 ^ width)
    else .ok size

/-- A new buffer with the first cells of the old one, and zero after them. -/
def moved (contents : List UInt8) (kept buf_size : Nat) : Except Fault (List UInt8) := do
  let bytes ← load contents 0 kept
  if kept ≤ buf_size then .ok (bytes ++ List.replicate (buf_size - kept) 0)
  else .error .badPointer

/-- The bytes a read copies. The sum of offset and count is of type `size_t`. -/
def available (f : ExeFile) (count : Nat) : Except Fault (List UInt8) :=
  if f.off < f.dcfile.size then
    load f.dcfile.contents f.off
      (if (f.off + count) % 0x10000000000000000 > f.dcfile.size then
        ((f.dcfile.size - f.off) % 0x10000000000000000).toNat
      else count)
  else .ok []

def read (f : ExeFile) (count : Nat) : Except Fault (ExeFile × Answer) :=
  if count = 0 then .ok (f, ⟨0, []⟩)
  else if S_ISDIR f.dcfile.mode then .ok (f, ⟨-1, []⟩)
  else do
    let data ← available f count
    let r := asInt data.length
    if r = -1 then .ok (f, ⟨-1, data⟩)
    else .ok ({ f with off := if f.fd ≠ 0 then f.off + r else f.off }, ⟨r, data⟩)

/-- The buffer is made at least twice as long if it is too short. -/
def reserve (dcfile : ConFile) (last_pos : Nat) : Except Fault ConFile :=
  if last_pos > dcfile.buf_size then do
    let start := if dcfile.buf_size = 0 then 32 else 2 * dcfile.buf_size % 0x100000000
    let new_buf_size ← doubleUntil 64 last_pos 64 start
    let contents ← moved dcfile.contents dcfile.size new_buf_size
    .ok { dcfile with contents, buf_size := new_buf_size % 0x100000000 }
  else .ok dcfile

def write (f : ExeFile) (data : List UInt8) : Except Fault (ExeFile × Answer) :=
  if S_ISDIR f.dcfile.mode then .ok (f, ⟨-1, []⟩)
  else do
    let last_pos := ((f.off + data.length) % 0x100000000).toNat
    let dcfile ← reserve f.dcfile last_pos
    if last_pos ≤ dcfile.buf_size then
      let contents ← store dcfile.contents f.off data
      let size := if last_pos > dcfile.size then last_pos else dcfile.size
      let f := { f with dcfile := { dcfile with contents, size } }
      let r := asInt data.length
      if r = -1 then .ok (f, ⟨-1, []⟩)
      else if 0 ≤ r then
        .ok ({ f with off := if f.fd ≠ 1 ∧ f.fd ≠ 2 then f.off + r else f.off }, ⟨r, []⟩)
      else .error .assertion
    else .error .assertion

/-- The position a seek asks for. -/
def target (f : ExeFile) (offset : Int) : Whence → Option Int
  | .SEEK_SET => some offset
  | .SEEK_CUR => some (f.off + offset)
  | .SEEK_END => some (f.dcfile.size + offset)
  | .other => none

def fd_lseek (f : ExeFile) (offset : Int) (whence : Whence) : ExeFile × Answer :=
  match target f offset whence with
  | none => (f, ⟨-1, []⟩)
  | some new_off =>
    if new_off = -1 then (f, ⟨-1, []⟩)
    else ({ f with off := new_off }, ⟨new_off, []⟩)

/-- The buffer is made longer if it is too short; all of the old one is kept. -/
def extend (dcfile : ConFile) (length : Int) : Except Fault ConFile :=
  if length > dcfile.size ∧ dcfile.buf_size < length then do
    let start := if dcfile.buf_size = 0 then 32 else dcfile.buf_size
    let buf_size ← doubleUntil 32 length.toNat 32 start
    let contents ← moved dcfile.contents dcfile.buf_size buf_size
    .ok { dcfile with contents, buf_size }
  else .ok dcfile

/-- What is behind the new end of the file stays in the buffer. -/
def fd_ftruncate (f : ExeFile) (length : Int) : Except Fault (ExeFile × Answer) := do
  let dcfile ← extend f.dcfile length
  .ok ({ f with dcfile := { dcfile with size := (length % 0x100000000).toNat } }, ⟨0, []⟩)

end Woodpecker.Posix
