import Woodpecker.Library.Faults
import Woodpecker.Library.ForkedStreams
import Woodpecker.Library.Runs
import Woodpecker.Library.Words

/-! The writer of tree streams and its file.

The file is a sequence of entries: the start of a stream as a child of another one, or bytes of
one stream. A stream is read back in two passes, the first of which finds its ancestors.
-/

namespace Woodpecker.Support

open Library ForkedStreams Words List Function

structure TreeStreamWriter where
  lastID : Nat
  /-- the first `bufferCount` bytes of the buffer -/
  buffer : List UInt8
  /-- the bytes of the file -/
  output : List UInt8
  ids : Nat
deriving DecidableEq, Repr

open TreeStreamWriter

namespace TreeStreamWriter

def bufferSize : Nat := 4 * 4096

/-- The writer of an empty file. -/
def new : TreeStreamWriter where
  lastID := 0
  buffer := []
  output := []
  ids := 1

def flushBuffer (w : TreeStreamWriter) : TreeStreamWriter :=
  if w.buffer ≠ [] then
    { w with
      output := w.output ++ (Words.bytes w.lastID ++ Words.bytes w.buffer.length ++ w.buffer)
      buffer := [] }
  else w

/-- A new stream that starts as a copy of stream `os`. -/
def openStream (w : TreeStreamWriter) (os : Nat) : TreeStreamWriter × Nat :=
  let w := w.flushBuffer
  let id := w.ids
  let tag := id ||| Words.signBit
  ({ w with
      ids := (w.ids + 1) % 2 ^ 32, output := w.output ++ (Words.bytes os ++ Words.bytes tag) }, id)

/-- A block that does not fit the buffer is not written as it is: what is written then is the
old contents of the buffer, which are not modelled.
-/
def write (w : TreeStreamWriter) (os : Nat) (s : List UInt8) : Except Fault TreeStreamWriter :=
  let w :=
    if w.buffer ≠ [] ∧ (os ≠ w.lastID ∨ s.length + w.buffer.length > bufferSize) then
      w.flushBuffer
    else w
  if w.buffer ≠ [] then .ok { w with buffer := w.buffer ++ s }
  else if s.length < bufferSize then .ok { w with lastID := os, buffer := s }
  else .error .badPointer

-- Reading

/-- The entries of a file, with a budget for the number of entries. Bytes beyond the end are
read as -1.
-/
def entries : Nat → List UInt8 → List (Entry UInt8)
  | 0, _ => []
  | fuel + 1, is =>
    if is.length < 8 then []
    else
      let id := Words.value (is.take 4)
      let tag := Words.value ((is.drop 4).take 4)
      let is := is.drop 8
      if tag.testBit 31 then .fork id (tag ^^^ Words.signBit) :: entries fuel is
      else
        .data id (is.take tag ++ List.replicate (tag - is.length) 255)
          :: entries fuel (is.drop tag)

/-- The ancestors of a stream from itself on, with a budget for their number. -/
def ancestors (parents : List (Nat × Nat)) : Nat → Nat → Except Fault (List Nat)
  | _, 0 => .ok []
  | 0, _ + 1 => .error .outOfFuel
  | fuel + 1, id + 1 => do
    match parents.lookup (id + 1) with
    | none => .error .assertion
    | some parent =>
      let roots ← ancestors parents fuel parent
      .ok ((id + 1) :: roots)

/-- The first pass: `parents` has the parents of the streams that are started so far. -/
def findRoots (streamID : Nat) (parents : List (Nat × Nat))
    : List (Entry UInt8) → Except Fault (List Nat)
  | [] => .error .assertion
  | .fork id child :: rest =>
    if child = streamID then do
      let roots ← ancestors parents (parents.length + 1) id
      .ok (child :: roots)
    else findRoots streamID (parents ++ [(child, id)]) rest
  | .data _ _ :: rest => findRoots streamID parents rest

/-- One entry in the second pass: the streams that are still to be read, the last ancestor
first, and what is read.
-/
def readEntry : List Nat × List UInt8 → Entry UInt8 → List Nat × List UInt8
  | (back :: next :: more, out), .fork id child =>
    if id = back ∧ child = next then (next :: more, out) else (back :: next :: more, out)
  | (roots, out), .fork _ _ => (roots, out)
  | (roots, out), .data id bytes =>
    if roots.head? = some id then (roots, out ++ bytes) else (roots, out)

def readEntries (streamID : Nat) (log : List (Entry UInt8)) : Except Fault (List UInt8) := do
  let roots ← findRoots streamID [] log
  .ok (log.foldl readEntry (roots.reverse, [])).2

def readStream (w : TreeStreamWriter) (streamID : Nat)
    : Except Fault (TreeStreamWriter × List UInt8) := do
  if 0 < streamID ∧ streamID < w.ids then
    let w := w.flushBuffer
    let out ← readEntries streamID (entries w.output.length w.output)
    .ok (w, out)
  else .error .assertion

-- The passes

/-- The children of a log with their parents, in order. -/
def parentsOf (log : List (Entry UInt8)) : List (Nat × Nat) :=
  log.filterMap fun
    | .fork id child => some (child, id)
    | .data _ _ => none

variable {log : List (Entry UInt8)} {next streamID : Nat}

theorem parentsOf_snoc_fork (log : List (Entry UInt8)) (id child : Nat)
    : parentsOf (log ++ [.fork id child]) = parentsOf log ++ [(child, id)] := by
  simp [parentsOf]

theorem parentsOf_snoc_data (log : List (Entry UInt8)) (id : Nat) (bytes : List UInt8)
    : parentsOf (log ++ [.data id bytes]) = parentsOf log := by
  simp [parentsOf]

/-- The children of a formed log are the numbers below the next one. -/
theorem parentsOf_keys (formed : Formed log next)
    : (parentsOf log).length + 1 = next
      ∧ ∀ child id, (child, id) ∈ parentsOf log → child < next := by
  induction formed with
  | nil => exact ⟨rfl, by simp [parentsOf]⟩
  | @fork log next source formed known ih =>
    rw [parentsOf_snoc_fork]
    refine ⟨by simp [ih.1], ?_⟩
    intro child id member
    rcases mem_append.mp member with earlier | last
    · have := ih.2 child id earlier
      omega
    · simp at last
      omega
  | data formed positive known ih =>
    rw [parentsOf_snoc_data]
    exact ih

variable {parents : List (Nat × Nat)} {fuel : Nat} {roots : List Nat}

/-- More entries do not change the ancestors that are found, by induction on the budget. -/
theorem ancestors_append {more : List (Nat × Nat)} {id : Nat}
    (found : ancestors parents fuel id = .ok roots)
    : ancestors (parents ++ more) fuel id = .ok roots := by
  induction fuel generalizing id roots with
  | zero =>
    cases id with
    | zero => exact found
    | succ id => cases found
  | succ fuel ih =>
    cases id with
    | zero => exact found
    | succ id =>
      rw [ancestors] at found ⊢
      rw [lookup_append]
      cases isParent : parents.lookup (id + 1) with
      | none => simp [isParent] at found
      | some parent =>
        simp only [isParent, Option.some_or] at found ⊢
        obtain ⟨later, isLater, result⟩ := bind_eq_ok.mp found
        rw [ih isLater]
        exact result

/-- The first pass does not read beyond the start of the stream, by induction on the log. -/
theorem findRoots_append (found : findRoots streamID parents log = .ok roots)
    (more : List (Entry UInt8))
    : findRoots streamID parents (log ++ more) = .ok roots := by
  induction log generalizing parents with
  | nil => cases found
  | cons entry rest ih =>
    cases entry with
    | fork id child =>
      rw [cons_append, findRoots] at *
      split
      next same => rwa [if_pos same] at found
      next differ =>
        rw [if_neg differ] at found
        exact ih found
    | data id bytes => exact ih found

theorem findRoots_missing (missing : (parentsOf log).lookup streamID = none)
    (more : List (Entry UInt8))
    : findRoots streamID parents (log ++ more)
      = findRoots streamID (parents ++ parentsOf log) more := by
  induction log generalizing parents with
  | nil => simp [parentsOf]
  | cons entry rest ih =>
    cases entry with
    | fork id child =>
      change ((child, id) :: parentsOf rest).lookup streamID = none at missing
      have differ : child ≠ streamID := by
        rintro rfl
        simp at missing
      have later : (parentsOf rest).lookup streamID = none := by
        have away : (streamID == child) = false := by simpa using Ne.symm differ
        simpa [lookup_cons, away] using missing
      rw [cons_append, findRoots, if_neg differ, ih later, append_assoc]
      rfl
    | data id bytes =>
      rw [cons_append, findRoots, ih missing]
      rfl

section

variable (formed : Formed log next)
include formed

/-- Streams that are not started are passed over. -/
theorem foldl_readEntry_unknown {back : Nat} (unknown : next ≤ back) (below : List Nat)
    : log.foldl readEntry (back :: below, []) = (back :: below, []) := by
  induction formed with
  | nil => rfl
  | @fork log next source formed known ih =>
    rw [foldl_append, ih (by omega)]
    cases below with
    | nil => rfl
    | cons next more =>
      have differ : source ≠ back := by omega
      simp [readEntry, differ]
  | @data log next id items formed positive known ih =>
    rw [foldl_append, ih unknown]
    have differ : back ≠ id := by omega
    simp [readEntry, differ]

/-- What is found and read for a stream: its ancestors from both sides, and its contents. -/
structure Reads (log : List (Entry UInt8)) (next streamID : Nat) (roots : List Nat) : Prop where
  found : findRoots streamID [] log = .ok roots
  ancestors : ∀ fuel, streamID ≤ fuel
    → TreeStreamWriter.ancestors (parentsOf log) fuel streamID = .ok roots
  read : ∀ below, (∀ id ∈ below, next ≤ id)
    → log.foldl readEntry (roots.reverse ++ below, [])
      = (streamID :: below, ForkedStreams.contents log streamID)

/-- A stream that has just been started is read as its parent is. -/
theorem reads_started {source : Nat} (known : source < next)
    (parent : 0 < source → ∃ roots, Reads log next source roots)
    : ∃ roots, Reads (log ++ [.fork source next]) (next + 1) next roots := by
  have missing : (parentsOf log).lookup next = none := by
    rw [lookup_eq_none_iff]
    rintro ⟨child, id⟩ member
    have := (parentsOf_keys formed).2 child id member
    simp
    omega
  have found : findRoots next [] (log ++ [.fork source next]) = (do
      let roots ← ancestors (parentsOf log) ((parentsOf log).length + 1) source
      .ok (next :: roots)) := by
    rw [findRoots_missing missing]
    simp [findRoots]
  have looked : (parentsOf (log ++ [.fork source next])).lookup next = some source := by
    rw [parentsOf_snoc_fork, lookup_append, missing]
    simp
  have above (fuel : Nat) (enough : next ≤ fuel)
      : ∃ rest, fuel = rest + 1 ∧ source ≤ rest := ⟨fuel - 1, by omega, by omega⟩
  obtain ⟨number, isNext⟩ : ∃ number, next = number + 1 := ⟨next - 1, by omega⟩
  have stepped (fuel : Nat)
      : ancestors (parentsOf (log ++ [.fork source next])) (fuel + 1) next = (do
          let roots ← ancestors (parentsOf (log ++ [.fork source next])) fuel source
          .ok (next :: roots)) := by
    subst isNext
    rw [ancestors, looked]
  rcases Nat.eq_zero_or_pos source with rfl | positive
  · refine ⟨[next], ?_, ?_, ?_⟩
    · rw [found]
      rfl
    · intro fuel enough
      obtain ⟨rest, rfl, -⟩ := above fuel enough
      rw [stepped]
      cases rest <;> rfl
    · intro below _
      rw [foldl_append]
      simp only [reverse_singleton, singleton_append]
      rw [foldl_readEntry_unknown formed le_rfl]
      have empty : contents log 0 = [] := formed.contents_eq_nil (.inl rfl)
      cases below with
      | nil => simp [readEntry, apply, empty]
      | cons first more =>
        simp [readEntry, apply, empty, show 0 ≠ next by omega]
  · obtain ⟨roots, reads⟩ := parent positive
    refine ⟨next :: roots, ?_, ?_, ?_⟩
    · rw [found, reads.ancestors _ (by rw [(parentsOf_keys formed).1]; omega)]
      rfl
    · intro fuel enough
      obtain ⟨rest, rfl, covers⟩ := above fuel enough
      rw [stepped, parentsOf_snoc_fork, ancestors_append (reads.ancestors rest covers)]
      rfl
    · intro below unknown
      -- the new stream waits below its parent until the parent's part is read
      have waits := reads.read (next :: below)
        (forall_mem_cons.mpr ⟨le_rfl, fun id later => (Nat.le_succ _).trans (unknown id later)⟩)
      rw [foldl_append, reverse_cons, append_assoc, singleton_append, waits]
      simp [readEntry, apply]

/-- Every stream of a formed log is read as its contents, by induction on the log. -/
theorem exists_reads (positive : 0 < streamID) (known : streamID < next)
    : ∃ roots, Reads log next streamID roots := by
  induction formed generalizing streamID with
  | nil => omega
  | @fork log next source formed isKnown ih =>
    by_cases started : streamID = next
    · subst started
      exact reads_started formed isKnown fun positive => ih positive isKnown
    obtain ⟨roots, reads⟩ := ih positive (by omega)
    refine ⟨roots, findRoots_append reads.found _, ?_, ?_⟩
    · intro fuel enough
      rw [parentsOf_snoc_fork]
      exact ancestors_append (reads.ancestors fuel enough)
    intro below unknown
    rw [foldl_append, reads.read below fun id member => by
      have := unknown id member
      omega]
    rw [contents_snoc, apply, update_of_ne started]
    cases below with
    | nil => rfl
    | cons first more =>
      have later := unknown first (by simp)
      simp [readEntry, show next ≠ first by omega]
  | @data log next id items formed isPositive isKnown ih =>
    obtain ⟨roots, reads⟩ := ih positive known
    refine ⟨roots, findRoots_append reads.found _, ?_, ?_⟩
    · rw [parentsOf_snoc_data]
      exact reads.ancestors
    · intro below unknown
      rw [foldl_append, reads.read below unknown, contents_snoc]
      by_cases same : id = streamID
      · subst same
        simp [readEntry, apply]
      · simp [readEntry, apply, Ne.symm same]

theorem readEntries_eq (positive : 0 < streamID) (known : streamID < next)
    : readEntries streamID log = .ok (contents log streamID) := by
  obtain ⟨roots, reads⟩ := exists_reads formed positive known
  have whole := reads.read [] (by simp)
  rw [append_nil] at whole
  simp [readEntries, reads.found, whole]

end

-- The file

/-- The bytes of an entry. -/
def encode : Entry UInt8 → List UInt8
  | .fork id child => Words.bytes id ++ Words.bytes (child ||| Words.signBit)
  | .data id bytes => Words.bytes id ++ Words.bytes bytes.length ++ bytes

/-- The numbers of an entry are words, and its tag has room for the sign bit. -/
def Fits : Entry UInt8 → Prop
  | .fork id child => id < 2 ^ 32 ∧ child < 2 ^ 31
  | .data id bytes => id < 2 ^ 32 ∧ bytes.length < 2 ^ 31

/-- Two words at the start of a file. -/
theorem entries_header {id tag : Nat} (isWord : id < 2 ^ 32) (isTag : tag < 2 ^ 32)
    (rest : List UInt8) (fuel : Nat)
    : entries (fuel + 1) (bytes id ++ bytes tag ++ rest)
      = if tag.testBit 31 then .fork id (tag ^^^ signBit) :: entries fuel rest
        else .data id (rest.take tag ++ replicate (tag - rest.length) 255)
          :: entries fuel (rest.drop tag) := by
  have long : ¬ (bytes id ++ bytes tag ++ rest).length < 8 := by
    simp
    omega
  have first : (bytes id ++ bytes tag ++ rest).take 4 = bytes id := by
    rw [append_assoc, take_left' (length_bytes id)]
  have second : ((bytes id ++ bytes tag ++ rest).drop 4).take 4 = bytes tag := by
    rw [append_assoc, drop_left' (length_bytes id), take_left' (length_bytes tag)]
  have remaining : (bytes id ++ bytes tag ++ rest).drop 8 = rest :=
    drop_left' (by simp)
  rw [entries, if_neg long, first, second, remaining, value_bytes isWord, value_bytes isTag]

/-- A file is read as the entries that were written, by induction on them. -/
theorem entries_encode (log : List (Entry UInt8)) (fits : ∀ entry ∈ log, Fits entry)
    (enough : (log.flatMap encode).length ≤ fuel)
    : entries fuel (log.flatMap encode) = log := by
  induction log generalizing fuel with
  | nil => cases fuel <;> simp [entries]
  | cons entry rest ih =>
    have fitsRest : ∀ entry ∈ rest, Fits entry := fun other member =>
      fits other (mem_cons_of_mem _ member)
    rw [flatMap_cons] at enough ⊢
    cases entry with
    | fork id child =>
      obtain ⟨isWord, isChild⟩ := fits _ mem_cons_self
      simp only [encode, length_append, length_bytes] at enough ⊢
      obtain ⟨less, rfl⟩ : ∃ less, fuel = less + 1 := ⟨fuel - 1, by omega⟩
      rw [entries_header isWord (or_signBit_lt isChild),
        if_pos (testBit_or_signBit child), or_signBit_xor isChild, ih fitsRest (by omega)]
    | data id bytes =>
      obtain ⟨isWord, isSize⟩ := fits _ mem_cons_self
      simp only [encode, length_append, length_bytes] at enough ⊢
      obtain ⟨less, rfl⟩ : ∃ less, fuel = less + 1 := ⟨fuel - 1, by omega⟩
      rw [append_assoc (Words.bytes id ++ Words.bytes bytes.length),
        entries_header isWord (by omega), if_neg (by simp [Nat.testBit_lt_two_pow isSize]),
        take_left, drop_left, ih fitsRest (by omega)]
      simp

-- The writer

/-- What is in the buffer, as an entry that is still to be written. -/
def pending (w : TreeStreamWriter) : List (Entry UInt8) :=
  if w.buffer = [] then [] else [.data w.lastID w.buffer]

/-- The writer has written some streams, of which each is numbered below `ids`. -/
structure Writes (w : TreeStreamWriter) (streams : Nat → List UInt8) (log : List (Entry UInt8))
    : Prop where
  output : w.output = log.flatMap encode
  fits : ∀ entry ∈ log, Fits entry
  formed : ForkedStreams.Formed log w.ids
  ids : w.ids ≤ 2 ^ 31
  lastID : w.buffer ≠ [] → 0 < w.lastID ∧ w.lastID < w.ids
  buffer : w.buffer.length ≤ bufferSize
  streams : streams = ForkedStreams.contents (log ++ w.pending)

variable {w : TreeStreamWriter} {streams : Nat → List UInt8}

theorem writes_new : Writes new (fun _ => []) [] where
  output := rfl
  fits := by simp
  formed := .nil
  ids := by decide
  lastID := by simp [new]
  buffer := by decide
  streams := rfl

@[simp]
theorem flushBuffer_buffer (w : TreeStreamWriter) : w.flushBuffer.buffer = [] := by
  unfold flushBuffer
  split
  · rfl
  · simp_all

@[simp]
theorem flushBuffer_ids (w : TreeStreamWriter) : w.flushBuffer.ids = w.ids := by
  unfold flushBuffer
  split <;> rfl

section

variable (writes : Writes w streams log)
include writes

theorem Writes.flushBuffer : Writes w.flushBuffer streams (log ++ w.pending) := by
  unfold TreeStreamWriter.flushBuffer
  by_cases empty : w.buffer = []
  · have none : w.pending = [] := if_pos empty
    rw [if_neg (not_not.mpr empty), none, append_nil]
    exact writes
  have pending : w.pending = [.data w.lastID w.buffer] := if_neg empty
  obtain ⟨positive, known⟩ := writes.lastID empty
  have small : w.buffer.length < 2 ^ 31 := writes.buffer.trans_lt (by decide)
  have := writes.ids
  rw [if_pos empty, pending]
  refine ⟨?_, ?_, writes.formed.data positive known, writes.ids, by simp, by simp, ?_⟩
  · simp [writes.output, encode]
  · exact forall_mem_append.mpr ⟨writes.fits, forall_mem_singleton.mpr ⟨by omega, small⟩⟩
  · rw [writes.streams, pending]
    simp [TreeStreamWriter.pending]

variable {os : Nat}

/-- A new stream starts as a copy, if there is a number for it. -/
theorem Writes.openStream (known : os < w.ids) (room : w.ids < 2 ^ 31)
    : ∃ log', Writes (w.openStream os).1 (update streams w.ids (streams os)) log'
        ∧ (w.openStream os).1.ids = w.ids + 1 ∧ (w.openStream os).2 = w.ids := by
  have flushed := writes.flushBuffer
  have next : (w.ids + 1) % 2 ^ 32 = w.ids + 1 := Nat.mod_eq_of_lt (by omega)
  refine ⟨(log ++ w.pending) ++ [.fork os w.ids], ⟨?_, ?_, ?_, ?_, ?_, ?_, ?_⟩, ?_, ?_⟩
  · simp [TreeStreamWriter.openStream, flushed.output, encode]
  · exact forall_mem_append.mpr ⟨flushed.fits, forall_mem_singleton.mpr ⟨by omega, room⟩⟩
  · have formed := flushed.formed
    simp only [flushBuffer_ids] at formed
    simp only [TreeStreamWriter.openStream, flushBuffer_ids, next]
    exact formed.fork known
  · simp only [TreeStreamWriter.openStream, flushBuffer_ids, next]
    omega
  · simp [TreeStreamWriter.openStream]
  · simp [TreeStreamWriter.openStream]
  · have none : (w.openStream os).1.pending = [] := by
      simp [TreeStreamWriter.pending, TreeStreamWriter.openStream]
    rw [none, append_nil, contents_snoc, ← writes.streams]
    rfl
  · simp only [TreeStreamWriter.openStream, flushBuffer_ids, next]
  · simp [TreeStreamWriter.openStream]

/-- Bytes are put into an empty buffer. -/
theorem Writes.writeEmpty (positive : 0 < os) (known : os < w.ids)
    {s : List UInt8} (small : s.length < bufferSize) (empty : w.buffer = [])
    : ∃ w' log', { w with lastID := os, buffer := s } = w' ∧ w'.ids = w.ids
        ∧ Writes w' (update streams os (streams os ++ s)) log' := by
  refine ⟨_, log, rfl, rfl, writes.output, writes.fits, writes.formed, writes.ids,
    fun _ => ⟨positive, known⟩, small.le, ?_⟩
  by_cases none : s = []
  · simp [writes.streams, pending, empty, none]
  · simp [writes.streams, pending, empty, none, apply]

/-- Bytes are added to one stream. -/
theorem Writes.write (positive : 0 < os) (known : os < w.ids)
    {s : List UInt8} (small : s.length < bufferSize)
    : ∃ w' log', w.write os s = .ok w' ∧ w'.ids = w.ids
        ∧ Writes w' (update streams os (streams os ++ s)) log' := by
  unfold TreeStreamWriter.write
  split
  next flush =>
    -- another stream is in the buffer, or the buffer is full
    have flushed := writes.flushBuffer
    have := flushed.writeEmpty positive (by simpa) small (by simp)
    simpa [small] using this
  next fitting =>
    by_cases empty : w.buffer = []
    · simpa [empty, small] using writes.writeEmpty positive known small empty
    have same : os = w.lastID := by
      by_contra differ
      exact fitting ⟨empty, .inl differ⟩
    have room : ¬ s.length + w.buffer.length > bufferSize := fun full =>
      fitting ⟨empty, .inr full⟩
    subst same
    refine ⟨{ w with buffer := w.buffer ++ s }, log, by simp [empty], rfl, writes.output,
      writes.fits, writes.formed, writes.ids, fun _ => writes.lastID empty, ?_, ?_⟩
    · rw [length_append]
      omega
    · simp [writes.streams, pending, empty, apply]

end

/-- A block that the buffer has no room for is lost. -/
theorem write_large (w : TreeStreamWriter) (os : Nat) {s : List UInt8}
    (large : bufferSize ≤ s.length)
    : w.write os s = .error .badPointer := by
  have full : w.buffer ≠ [] → s.length + w.buffer.length > bufferSize := fun some => by
    have := length_pos_iff.mpr some
    omega
  unfold write
  by_cases empty : w.buffer = []
  · simp [empty, large]
  · simp [empty, full empty, large]

theorem Writes.readStream (writes : Writes w streams log) (positive : 0 < streamID)
    (known : streamID < w.ids)
    : w.readStream streamID = .ok (w.flushBuffer, streams streamID) := by
  have flushed := writes.flushBuffer
  have read : entries w.flushBuffer.output.length w.flushBuffer.output = log ++ w.pending := by
    rw [flushed.output]
    exact entries_encode _ flushed.fits le_rfl
  have formed : Formed (log ++ w.pending) w.ids := by
    simpa using flushed.formed
  simp [TreeStreamWriter.readStream, positive, known, read, readEntries_eq formed positive known,
    writes.streams]

/-- The tag of a stream in a file has no room for larger numbers. -/
theorem entries_child_lt {is : List UInt8} {id child : Nat}
    (member : .fork id child ∈ entries fuel is)
    : child < 2 ^ 31 := by
  induction fuel generalizing is with
  | zero => cases member
  | succ fuel ih =>
    rw [entries] at member
    split at member
    · cases member
    next long =>
      dsimp only at member
      split at member
      next negative =>
        rcases mem_cons.mp member with here | later
        · obtain ⟨rfl, rfl⟩ := Entry.fork.inj here
          exact xor_signBit_lt (value_lt (by simp; omega)) negative
        · exact ih later
      · rcases mem_cons.mp member with here | later
        · cases here
        · exact ih later

theorem findRoots_ne_ok (missing : ∀ id, .fork id streamID ∉ log) (roots : List Nat)
    : findRoots streamID parents log ≠ .ok roots := by
  induction log generalizing parents with
  | nil => simp [findRoots]
  | cons entry rest ih =>
    have later : ∀ id, .fork id streamID ∉ rest := fun id member =>
      missing id (mem_cons_of_mem _ member)
    cases entry with
    | fork id child =>
      have differ : child ≠ streamID := by
        rintro rfl
        exact missing id mem_cons_self
      rw [findRoots, if_neg differ]
      exact ih later
    | data id bytes => exact ih later

/-- A stream whose number takes the sign bit is never found again. -/
theorem readStream_ne_ok (large : 2 ^ 31 ≤ streamID) (result : TreeStreamWriter × List UInt8)
    : w.readStream streamID ≠ .ok result := by
  intro read
  unfold readStream at read
  split at read
  · obtain ⟨out, isOut, -⟩ := bind_eq_ok.mp read
    obtain ⟨roots, isRoots, -⟩ := bind_eq_ok.mp isOut
    refine findRoots_ne_ok (fun id member => ?_) roots isRoots
    have := entries_child_lt member
    omega
  · cases read

-- The writer and its streams

/-- The writer, and the bytes that each of its streams should have. -/
structure Written where
  writer : TreeStreamWriter
  streams : Nat → List UInt8

inductive Call where
  | openStream (os : Nat)
  | write (os : Nat) (s : List UInt8)

/-- A stream is opened from one of the streams or from none, which is stream 0. Only streams
that were opened are written to.
-/
inductive Step : Except Fault Written → Call → Except Fault Written → Prop
  | openStream (before : Written) (os : Nat) (known : os < before.writer.ids)
    : Step (.ok before) (.openStream os)
        (.ok ⟨(before.writer.openStream os).1,
          Function.update before.streams (before.writer.openStream os).2 (before.streams os)⟩)
  | write (before : Written) (os : Nat) (s : List UInt8) (positive : 0 < os)
    (known : os < before.writer.ids)
    : Step (.ok before) (.write os s) (do
        let writer ← before.writer.write os s
        .ok ⟨writer, Function.update before.streams os (before.streams os ++ s)⟩)

/-- After the call every stream is read as it should be. -/
def Sound (transition : Transition (Except Fault Written) Call) : Prop :=
  ∃ after, transition.after = .ok after
    ∧ ∀ streamID, 0 < streamID → streamID < after.writer.ids
      → ∃ w, after.writer.readStream streamID = .ok (w, after.streams streamID)

/-- The number of a new stream leaves the sign bit free, and a block is smaller than the
buffer.
-/
def Careful (transition : Transition (Except Fault Written) Call) : Prop :=
  match transition.before, transition.label with
  | .ok before, .openStream _ => before.writer.ids < 2 ^ 31
  | _, .write _ s => s.length < bufferSize
  | _, _ => True

/-- The invariant of the runs. -/
def Inv (state : Except Fault Written) : Prop :=
  ∃ written log, state = .ok written ∧ Writes written.writer written.streams log

theorem Inv.sound {before after : Except Fault Written} {call : Call} (inv : Inv after)
    : Sound ⟨before, call, after⟩ := by
  obtain ⟨written, log, rfl, writes⟩ := inv
  exact ⟨written, rfl, fun streamID positive known => ⟨_, writes.readStream positive known⟩⟩

/-- One call: all streams are read as they should be exactly if it is careful. -/
theorem Step.sound_iff {before after : Except Fault Written} {call : Call}
    (step : Step before call after) (inv : Inv before)
    : (Sound ⟨before, call, after⟩ ↔ Careful ⟨before, call, after⟩)
      ∧ (Careful ⟨before, call, after⟩ → Inv after) := by
  obtain ⟨written, log, rfl, writes⟩ := inv
  refine good_iff_careful Inv.sound ?_
  cases step with
  | openStream _ os known =>
    constructor
    · intro room
      obtain ⟨log', writes', -, isNew⟩ := writes.openStream known room
      exact ⟨_, log', rfl, isNew ▸ writes'⟩
    · rintro ⟨_, ⟨rfl⟩, reads⟩
      -- The last number that is left is the sign bit.
      by_contra full
      have last : written.writer.ids = 2 ^ 31 := Nat.le_antisymm writes.ids (Nat.not_lt.mp full)
      obtain ⟨w, read⟩ := reads (2 ^ 31) (by decide) (by simp [TreeStreamWriter.openStream, last])
      exact readStream_ne_ok (Nat.le_refl _) _ read
  | write _ os s positive known =>
    constructor
    · intro small
      obtain ⟨w, log', written', -, writes'⟩ := writes.write positive known small
      rw [written', ok_bind]
      exact ⟨_, log', rfl, writes'⟩
    · rintro ⟨_, returned, -⟩
      by_contra large
      obtain ⟨w, isWritten, -⟩ := bind_eq_ok.mp returned
      cases (write_large written.writer os (Nat.not_lt.mp large)).symm.trans isWritten

/-- A first stream is opened. -/
def opened : Written :=
  ⟨(new.openStream 0).1, Function.update (fun _ => []) (new.openStream 0).2 []⟩

/-- A block is written to the first stream. -/
def blockWritten (s : List UInt8) : Transition (Except Fault Written) Call :=
  ⟨.ok opened, .write 1 s, do
    let writer ← opened.writer.write 1 s
    .ok ⟨writer, Function.update opened.streams 1 (opened.streams 1 ++ s)⟩⟩

theorem run_blockWritten (s : List UInt8)
    : Run (Takes Step) (.ok ⟨new, fun _ => []⟩)
        [⟨.ok ⟨new, fun _ => []⟩, .openStream 0, .ok opened⟩, blockWritten s]
        (blockWritten s).after :=
  (Run.nil.record (.openStream _ 0 (by decide))).record (.write opened 1 s (by decide) (by decide))

end TreeStreamWriter

end Woodpecker.Support
