import Mathlib.Data.List.TakeDrop
import Mathlib.Data.List.TakeWhile

/-! Test case files: `kTest_toFile`, `kTest_fromFile`, and what the reader makes of a file that
the writer has produced.

Files never fail and memory is never short, so a call fails only for what it is asked to do.
`fread` and `fwrite` count whole items, and an item of no bytes is never counted.
-/

namespace Woodpecker.Support

open List Option

structure KTestObject where
  name : List UInt8
  numBytes : UInt32
  bytes : List UInt8

/-- The strings are without their terminators. -/
structure KTest where
  version : UInt32
  numArgs : UInt32
  args : List (List UInt8)
  symArgvs : UInt32
  symArgvLen : UInt32
  numObjects : UInt32
  objects : List KTestObject

def KTEST_VERSION : UInt32 := 3

/-- The bytes of `KTEST`. -/
def KTEST_MAGIC : List UInt8 := [75, 84, 69, 83, 84]

/-- The bytes of `BOUT` and a newline. -/
def BOUT_MAGIC : List UInt8 := [66, 79, 85, 84, 10]

-- Writing: the file so far is passed on, unless 0 is returned

/-- `fwrite(data, size, n, f) == n` -/
def fwrite (data : List UInt8) (size n : Nat) (f : List UInt8) : Option (List UInt8) :=
  if size = 0 then none else some (f ++ data.take (size * n))

def uint32Bytes (value : UInt32) : List UInt8 :=
  [(value >>> 24).toUInt8, (value >>> 16).toUInt8, (value >>> 8).toUInt8, value.toUInt8]

def write_uint32 (f : List UInt8) (value : UInt32) : Option (List UInt8) :=
  fwrite (uint32Bytes value) 1 4 f

/-- The length as `unsigned`: a string of `2 ^ 32` bytes has length 0. -/
def strlen (value : List UInt8) : UInt32 :=
  UInt32.ofNat (value.takeWhile (· ≠ 0)).length

def write_string (f value : List UInt8) : Option (List UInt8) := do
  let f ← write_uint32 f (strlen value)
  fwrite value (strlen value).toNat 1 f

def writeObject (f : List UInt8) (o : KTestObject) : Option (List UInt8) := do
  let f ← write_string f o.name
  let f ← write_uint32 f o.numBytes
  fwrite o.bytes o.numBytes.toNat 1 f

/-- The file, if 1 is returned. -/
def kTest_toFile (bo : KTest) : Option (List UInt8) := do
  let f ← fwrite KTEST_MAGIC KTEST_MAGIC.length 1 []
  let f ← write_uint32 f KTEST_VERSION
  let f ← write_uint32 f bo.numArgs
  let f ← bo.args.foldlM write_string f
  let f ← write_uint32 f bo.symArgvs
  let f ← write_uint32 f bo.symArgvLen
  let f ← write_uint32 f bo.numObjects
  bo.objects.foldlM writeObject f

-- Reading: what is left of the file is passed on

/-- `fread(data, size, 1, f) == 1` -/
def fread (size : Nat) (f : List UInt8) : Option (List UInt8 × List UInt8) :=
  if size ≠ 0 ∧ size ≤ f.length then some (f.take size, f.drop size) else none

def read_uint32 (f : List UInt8) : Option (UInt32 × List UInt8) := do
  let (data, f) ← fread 4 f
  let byte (i : Nat) : UInt32 := (data.getD i 0).toUInt32
  some (((((byte 0 <<< 8) + byte 1) <<< 8) + byte 2) <<< 8 + byte 3, f)

/-- `malloc(len+1)` is computed in 32 bits. The longest string gets a buffer of no bytes, and
what is read goes outside it.
-/
def read_string (f : List UInt8) : Option (List UInt8 × List UInt8) := do
  let (len, f) ← read_uint32 f
  if len + 1 = 0 then none else fread len.toNat f

def kTest_checkHeader (f : List UInt8) : Option (List UInt8) := do
  let (header, f) ← fread 5 f
  if header = KTEST_MAGIC ∨ header = BOUT_MAGIC then some f else none

def readObject (f : List UInt8) : Option (KTestObject × List UInt8) := do
  let (name, f) ← read_string f
  let (numBytes, f) ← read_uint32 f
  let (bytes, f) ← fread numBytes.toNat f
  some (⟨name, numBytes, bytes⟩, f)

/-- The loops of the reader: `n` items one after another. -/
def readMany {α : Type} (read : List UInt8 → Option (α × List UInt8))
    : Nat → List UInt8 → Option (List α × List UInt8)
  | 0, f => some ([], f)
  | n + 1, f => do
    let (item, f) ← read f
    let (items, f) ← readMany read n f
    some (item :: items, f)

/-- Version 1 has no symbolic arguments; `calloc` has left them 0. -/
def readSymArgs (version : UInt32) (f : List UInt8)
    : Option ((UInt32 × UInt32) × List UInt8) :=
  if version ≥ 2 then do
    let (symArgvs, f) ← read_uint32 f
    let (symArgvLen, f) ← read_uint32 f
    some ((symArgvs, symArgvLen), f)
  else some ((0, 0), f)

def kTest_fromFile (f : List UInt8) : Option KTest := do
  let f ← kTest_checkHeader f
  let (version, f) ← read_uint32 f
  if version > KTEST_VERSION then none
  let (numArgs, f) ← read_uint32 f
  let (args, f) ← readMany read_string numArgs.toNat f
  let ((symArgvs, symArgvLen), f) ← readSymArgs version f
  let (numObjects, f) ← read_uint32 f
  let (objects, _) ← readMany readObject numObjects.toNat f
  some ⟨version, numArgs, args, symArgvs, symArgvLen, numObjects, objects⟩

-- What the writer writes

def stringBytes (value : List UInt8) : List UInt8 :=
  uint32Bytes (strlen value) ++ value.take (strlen value).toNat

def objectBytes (o : KTestObject) : List UInt8 :=
  stringBytes o.name ++ (uint32Bytes o.numBytes ++ o.bytes.take o.numBytes.toNat)

def testBytes (bo : KTest) : List UInt8 :=
  KTEST_MAGIC ++ (uint32Bytes KTEST_VERSION ++ (uint32Bytes bo.numArgs ++
    (bo.args.flatMap stringBytes ++ (uint32Bytes bo.symArgvs ++ (uint32Bytes bo.symArgvLen ++
      (uint32Bytes bo.numObjects ++ (bo.objects.flatMap objectBytes ++ [])))))))

variable {f written value rest : List UInt8} {o : KTestObject} {bo : KTest}

theorem fwrite_eq_some {data : List UInt8} {size n : Nat}
    : fwrite data size n f = some written
      ↔ size ≠ 0 ∧ written = f ++ data.take (size * n) := by
  by_cases none : size = 0 <;> simp [fwrite, none, eq_comm]

@[simp]
theorem write_uint32_eq (value : UInt32)
    : write_uint32 f value = some (f ++ uint32Bytes value) := by
  simp [write_uint32, fwrite, uint32Bytes]

theorem write_string_eq_some (f value written : List UInt8)
    : write_string f value = some written
      ↔ strlen value ≠ 0 ∧ written = f ++ stringBytes value := by
  simp [write_string, fwrite_eq_some, stringBytes, ← UInt32.toNat_inj]

theorem writeObject_eq_some (f : List UInt8) (o : KTestObject) (written : List UInt8)
    : writeObject f o = some written
      ↔ (strlen o.name ≠ 0 ∧ o.numBytes ≠ 0) ∧ written = f ++ objectBytes o := by
  simp [writeObject, bind_eq_some_iff, write_string_eq_some, fwrite_eq_some, objectBytes,
    ← UInt32.toNat_inj, and_assoc]

variable {α : Type} {bytes : α → List UInt8} {items : List α}

/-- A loop writes all its items, by induction on them. -/
theorem foldlM_eq_some {write : List UInt8 → α → Option (List UInt8)} {can : α → Prop}
    (writes : ∀ f item written, write f item = some written
      ↔ can item ∧ written = f ++ bytes item)
    : items.foldlM write f = some written
      ↔ (∀ item ∈ items, can item) ∧ written = f ++ items.flatMap bytes := by
  induction items generalizing f with
  | nil => simp [eq_comm]
  | cons item items ih => simp [bind_eq_some_iff, writes, ih, and_assoc]

/-- The strings and objects that `fwrite` counts as written. -/
structure Counted (bo : KTest) : Prop where
  args : ∀ arg ∈ bo.args, strlen arg ≠ 0
  objects : ∀ o ∈ bo.objects, strlen o.name ≠ 0 ∧ o.numBytes ≠ 0

theorem kTest_toFile_eq_some : kTest_toFile bo = some f ↔ Counted bo ∧ f = testBytes bo := by
  have magic : fwrite KTEST_MAGIC KTEST_MAGIC.length 1 [] = some KTEST_MAGIC := by decide
  simp [kTest_toFile, magic, bind_eq_some_iff, foldlM_eq_some write_string_eq_some,
    foldlM_eq_some writeObject_eq_some]
  constructor
  · rintro ⟨args, objects, rfl⟩
    exact ⟨⟨args, objects⟩, by simp [testBytes]⟩
  · rintro ⟨⟨args, objects⟩, rfl⟩
    exact ⟨args, objects, by simp [testBytes]⟩

-- What the reader makes of it

theorem fread_append {size : Nat} (length : value.length = size) (nonzero : size ≠ 0)
    : fread size (value ++ rest) = some (value, rest) := by
  subst length
  simp [fread, nonzero]

@[simp]
theorem read_uint32_append (value : UInt32)
    : read_uint32 (uint32Bytes value ++ rest) = some (value, rest) := by
  have length : (uint32Bytes value).length = 4 := rfl
  simp only [read_uint32, fread_append length (by decide), bind_eq_bind, bind_some]
  congr 2
  apply UInt32.toNat_inj.mp
  have bound := value.toNat_lt
  simp [uint32Bytes, Nat.shiftLeft_eq, Nat.shiftRight_eq_div_pow]
  omega

/-- A string comes back cut to the length that was written, unless it is the longest. -/
def stringBack (value : List UInt8) : Option (List UInt8) :=
  if strlen value + 1 = 0 then none else some (value.take (strlen value).toNat)

theorem read_string_append (nonzero : strlen value ≠ 0)
    : read_string (stringBytes value ++ rest) = (stringBack value).map (·, rest) := by
  have whole : (value.take (strlen value).toNat).length = (strlen value).toNat := by
    have short : (strlen value).toNat ≤ (value.takeWhile (· ≠ 0)).length := by
      simpa [strlen] using Nat.mod_le _ _
    exact length_take_of_le (short.trans ( takeWhile_prefix _).length_le)
  simp only [read_string, stringBytes, append_assoc, read_uint32_append, stringBack,
    bind_eq_bind, bind_some]
  split
  · rfl
  · exact fread_append whole (by simpa [← UInt32.toNat_inj] using nonzero)

def objectBack (o : KTestObject) : Option KTestObject :=
  (stringBack o.name).map fun name => { o with name }

/-- The counts are those of the arrays. -/
structure KTest.Formed (bo : KTest) : Prop where
  args : bo.args.length = bo.numArgs.toNat
  objects : bo.objects.length = bo.numObjects.toNat
  bytes : ∀ o ∈ bo.objects, o.bytes.length = o.numBytes.toNat

theorem readObject_append (nonzero : strlen o.name ≠ 0 ∧ o.numBytes ≠ 0)
    (length : o.bytes.length = o.numBytes.toNat)
    : readObject (objectBytes o ++ rest) = (objectBack o).map (·, rest) := by
  have bytes {rest : List UInt8} : fread o.numBytes.toNat (o.bytes ++ rest) = _ :=
    fread_append length (by simpa [← UInt32.toNat_inj] using nonzero.2)
  rw [readObject, objectBytes, ← length, take_length, append_assoc, append_assoc,
    read_string_append nonzero.1, objectBack]
  cases stringBack o.name with
  | none => rfl
  | some name => simp [bytes]

/-- A loop reads back every item, by induction on them. -/
theorem readMany_append {read : List UInt8 → Option (α × List UInt8)} {back : α → Option α}
    (reads : ∀ item ∈ items, ∀ {rest}, read (bytes item ++ rest) = (back item).map (·, rest))
    (rest : List UInt8)
    : readMany read items.length (items.flatMap bytes ++ rest)
      = (items.mapM back).map (·, rest) := by
  induction items with
  | nil => rfl
  | cons item items ih =>
    have ih := ih fun item member => reads item (mem_cons_of_mem _ member)
    rw [length_cons, readMany, flatMap_cons, append_assoc, reads item mem_cons_self, mapM_cons]
    cases back item with
    | none => rfl
    | some first =>
      simp [ih]
      cases items.mapM back <;> rfl

theorem kTest_fromFile_testBytes (formed : bo.Formed) (counted : Counted bo)
    : kTest_fromFile (testBytes bo) = (bo.args.mapM stringBack).bind fun args =>
          (bo.objects.mapM objectBack).map fun objects =>
            { bo with version := KTEST_VERSION, args, objects } := by
  have header {f : List UInt8} : kTest_checkHeader (KTEST_MAGIC ++ f) = some f := by
    have length : KTEST_MAGIC.length = 5 := rfl
    simp [kTest_checkHeader, fread_append length]
  have known : ¬ KTEST_VERSION > KTEST_VERSION := by decide
  have later : KTEST_VERSION ≥ 2 := by decide
  have args := readMany_append fun arg member => read_string_append (counted.args arg member)
  have objects := readMany_append fun o member =>
    readObject_append (counted.objects o member) (formed.bytes o member)
  simp [kTest_fromFile, testBytes, header, known, ← formed.args, args, -append_nil]
  cases bo.args.mapM stringBack with
  | none => rfl
  | some args =>
    simp [readSymArgs, later, ← formed.objects, objects, -append_nil]
    cases bo.objects.mapM objectBack <;> rfl

-- The round trip

/-- No string has a zero byte before its terminator. -/
structure NulFree (bo : KTest) : Prop where
  args : ∀ arg ∈ bo.args, 0 ∉ arg
  names : ∀ o ∈ bo.objects, 0 ∉ o.name

/-- The test is written, and read back as it was. -/
def RoundTrips (bo : KTest) : Prop :=
  ∃ file, kTest_toFile bo = some file ∧ kTest_fromFile file = some { bo with version := 3 }

/-- A string of at least one byte whose buffer, with the terminator, is counted in 32 bits. -/
def StringFits (value : List UInt8) : Prop :=
  0 < value.length ∧ value.length + 1 < UInt32.size

/-- Every string fits and no object is empty. -/
structure Storable (bo : KTest) : Prop where
  args : ∀ arg ∈ bo.args, StringFits arg
  names : ∀ o ∈ bo.objects, StringFits o.name
  bytes : ∀ o ∈ bo.objects, 0 < o.bytes.length

theorem stringFits_iff (free : 0 ∉ value)
    : StringFits value ↔ strlen value ≠ 0 ∧ stringBack value = some value := by
  have whole : value.takeWhile (· ≠ 0) = value :=
    takeWhile_eq_self_iff.mpr fun byte member => by
      simpa using fun zero : byte = 0 => free (zero ▸ member)
  simp only [StringFits, UInt32.size, stringBack, strlen, whole]
  simp [← UInt32.toNat_inj]
  omega

theorem mapM_eq_self {back : α → Option α}
    : items.mapM back = some items ↔ ∀ item ∈ items, back item = some item := by
  induction items with
  | nil => simp
  | cons item items ih => simp [mapM_cons, bind_eq_some_iff, ih]

/-- A test comes back as it was exactly when its strings fit and no object is empty. -/
theorem roundTrips_iff_storable (bo : KTest) (formed : bo.Formed) (free : NulFree bo)
    : RoundTrips bo ↔ Storable bo := by
  have object (o) (member : o ∈ bo.objects)
      : StringFits o.name ∧ 0 < o.bytes.length
        ↔ (strlen o.name ≠ 0 ∧ o.numBytes ≠ 0) ∧ objectBack o = some o := by
    have bytes : 0 < o.bytes.length ↔ o.numBytes ≠ 0 := by
      simp [formed.bytes o member, ← UInt32.toNat_inj, Nat.pos_iff_ne_zero]
    have named : objectBack o = some o ↔ stringBack o.name = some o.name := by
      obtain ⟨name, numBytes, bytes⟩ := o
      simp [objectBack]
    rw [stringFits_iff (free.names o member), bytes, named]
    tauto
  constructor
  · rintro ⟨file, written, returned⟩
    obtain ⟨counted, rfl⟩ := kTest_toFile_eq_some.mp written
    rw [kTest_fromFile_testBytes formed counted] at returned
    obtain ⟨args, readArgs, returned⟩ := bind_eq_some_iff.mp returned
    obtain ⟨objects, readObjects, same⟩ := map_eq_some_iff.mp returned
    obtain ⟨rfl, rfl⟩ : args = bo.args ∧ objects = bo.objects := by
      simpa [KTEST_VERSION] using same
    have fits o member := (object o member).mpr
      ⟨counted.objects o member, mapM_eq_self.mp readObjects o member⟩
    refine ⟨fun arg member => (stringFits_iff (free.args arg member)).mpr ?_,
      fun o member => (fits o member).1, fun o member => (fits o member).2⟩
    exact ⟨counted.args arg member, mapM_eq_self.mp readArgs arg member⟩
  · intro storable
    have args arg member := (stringFits_iff (free.args arg member)).mp (storable.args arg member)
    have objects o member :=
      (object o member).mp ⟨storable.names o member, storable.bytes o member⟩
    have counted : Counted bo :=
      ⟨fun arg member => (args arg member).1, fun o member => (objects o member).1⟩
    refine ⟨_, kTest_toFile_eq_some.mpr ⟨counted, rfl⟩, ?_⟩
    rw [kTest_fromFile_testBytes formed counted,
      mapM_eq_self.mpr fun arg member => (args arg member).2,
      mapM_eq_self.mpr fun o member => (objects o member).2]
    rfl

/-- A test with one object and no argument. -/
def objectTest (o : KTestObject) : KTest :=
  ⟨3, 0, [], 0, 0, 1, [o]⟩

/-- Witness: an object `x` of two bytes. -/
theorem roundTrips_iff_storable_x : RoundTrips (objectTest ⟨[120], 2, [0, 1]⟩) := by
  refine (roundTrips_iff_storable _ ?_ ?_).mpr ?_
  all_goals constructor <;> simp [objectTest, StringFits, UInt32.size]

/-- An empty argument or an empty object is never counted as written. -/
theorem empty_items_fail
    : let argument : KTest := ⟨3, 1, [[]], 0, 0, 0, []⟩
      let object := objectTest ⟨[120], 0, []⟩
      (argument.Formed ∧ NulFree argument ∧ ¬ RoundTrips argument)
      ∧ object.Formed ∧ NulFree object ∧ ¬ RoundTrips object := by
  intro argument object
  have failed : kTest_toFile argument = none := by decide
  have failed' : kTest_toFile object = none := by decide
  refine ⟨⟨?_, ?_, by simp [RoundTrips, failed]⟩, ?_, ?_, by simp [RoundTrips, failed']⟩
  all_goals constructor <;> simp [argument, object, objectTest]

end Woodpecker.Support
