import Woodpecker.Expressions.Constants
import Mathlib.Algebra.Order.Ring.Int

/-! Numbers in the text of a query, as `ParseNumberToken` reads them.

A number is accumulated in as many bits as its characters can need, negated there and then
resized. The bits are enough for the number itself, and not for the sign of its negation.
-/

namespace Woodpecker.Expressions

open Library ConstantExpr

inductive Radix where
  | two
  | eight
  | ten
  | sixteen

namespace Radix

def value : Radix → Nat
  | two => 2
  | eight => 8
  | ten => 10
  | sixteen => 16

/-- `RadixBits * N`, an `unsigned`. -/
def width (radix : Radix) (N : Nat) : Nat :=
  let bits := match radix with
    | two => 1
    | eight => 3
    | ten | sixteen => 4
  bits * N % 2 ^ 32

end Radix

def digit? (char : Char) : Option Nat :=
  if char.isDigit then some (char.toNat - '0'.toNat)
  else if char.isLower then some (char.toNat - 'a'.toNat + 10)
  else if char.isUpper then some (char.toNat - 'A'.toNat + 10)
  else none

/-- The loop over the characters, with the errors it reports. -/
def accumulate {width : Nat} (radix : Nat)
    : List Char → BitVec width → Except String (BitVec width)
  | [], val => .ok val
  | char :: rest, val =>
    if char = '_' then accumulate radix rest val
    else
      match digit? char with
      | none => .error "invalid character in numeric token."
      | some digit =>
        if radix ≤ digit then .error "invalid character in numeric token (out of range)."
        else accumulate radix rest (val * BitVec.ofNat width radix + BitVec.ofNat width digit)

/-- The constant read, and the error reported with it. An `APInt` has at least one bit. -/
def readDigits (type : Nat) (hasMinus : Bool) (radix : Radix) (width : Nat) (S : List Char)
    : Except Fault (ConstantExpr × Option String) :=
  if width = 0 ∨ type = 0 then .error .assertion
  else
    match accumulate radix.value S (0#(width)) with
    | .error message => .ok (alloc 0 type, some message)
    | .ok val => .ok (⟨type, (if hasMinus then -val else val).setWidth type⟩, none)

def readMarked (type : Nat) (hasMinus : Bool) (radix : Radix) (S : List Char)
    : Except Fault (ConstantExpr × Option String) :=
  if S = [] then .ok (alloc 0 type, some "invalid numeric token (no digits).")
  else readDigits type hasMinus radix (radix.width S.length) S

/-- What follows the sign. A token ends before a character that is no letter and no digit, so
that the source finds none of these letters behind it.
-/
def parseUnsigned (type : Nat) (hasMinus : Bool)
    : List Char → Except Fault (ConstantExpr × Option String)
  | '0' :: 'b' :: S => readMarked type hasMinus .two S
  | '0' :: 'o' :: S => readMarked type hasMinus .eight S
  | '0' :: 'x' :: S => readMarked type hasMinus .sixteen S
  | S => readDigits type hasMinus .ten (Radix.ten.width S.length) S

def parseNumberToken (type : Nat) : List Char → Except Fault (ConstantExpr × Option String)
  | '+' :: S => parseUnsigned type false S
  | '-' :: S => parseUnsigned type true S
  | S => parseUnsigned type false S

-- Numerals

namespace Radix

/-- What may stand among the digits. -/
def admits (radix : Radix) (char : Char) : Bool :=
  char == '_' || (digit? char).any fun digit => digit < radix.value

/-- The text before the digits. -/
def mark : Radix → List Char
  | two => ['0', 'b']
  | eight => ['0', 'o']
  | ten => []
  | sixteen => ['0', 'x']

end Radix

/-- A number as it is written, with its sign: whether it is a minus. The length of a token is
an `unsigned`.
-/
structure Numeral where
  sign : Option Bool
  radix : Radix
  body : List Char
  digits : ∀ char ∈ body, radix.admits char = true
  nonempty : body ≠ []
  short : sign.toList.length + radix.mark.length + body.length < 2 ^ 32

namespace Numeral

def text (numeral : Numeral) : List Char :=
  (numeral.sign.map fun minus => if minus then '-' else '+').toList
    ++ (numeral.radix.mark ++ numeral.body)

def magnitude (numeral : Numeral) : Nat :=
  (numeral.body.filterMap digit?).foldl
    (fun value digit => value * numeral.radix.value + digit) 0

/-- The integer the numeral denotes. -/
def value (numeral : Numeral) : Int :=
  if numeral.sign = some true then -numeral.magnitude else numeral.magnitude

/-- The bits in which the parser accumulates the numeral. -/
def width (numeral : Numeral) : Nat :=
  numeral.radix.width numeral.body.length

end Numeral

theorem accumulate_digits {width : Nat} {radix : Radix} {body : List Char}
    (digits : ∀ char ∈ body, radix.admits char = true) (start : Nat)
    : accumulate radix.value body (BitVec.ofNat width start)
      = .ok (BitVec.ofNat width ((body.filterMap digit?).foldl
          (fun value digit => value * radix.value + digit) start)) := by
  induction body generalizing start with
  | nil => rfl
  | cons char rest ih =>
    have later := ih fun next member => digits next (.tail char member)
    have admitted := digits char (.head rest)
    unfold accumulate
    split_ifs with underscore
    · rw [later, underscore]
      rfl
    · obtain ⟨digit, reads, small⟩ : ∃ digit, digit? char = some digit ∧ digit < radix.value := by
        simpa [Radix.admits, underscore, Option.any_eq_true] using admitted
      simp only [reads, if_neg small.not_ge]
      rw [← BitVec.ofNat_mul, ← BitVec.ofNat_add, later, List.filterMap_cons_some reads,
        List.foldl_cons]

/-- A number resized from another width is right where its remainder fits that width. -/
theorem setWidth_ofInt_eq_iff (value : Int) (width type : Nat)
    : (BitVec.ofInt width value).setWidth type = BitVec.ofInt type value
      ↔ value % 2 ^ type < 2 ^ width := by
  have narrowed {small large : Nat} (le : small ≤ large)
      : value % 2 ^ large % 2 ^ small = value % 2 ^ small :=
    Int.emod_emod_of_dvd value (pow_dvd_pow 2 le)
  have inside (bits : Nat) : 0 ≤ value % 2 ^ bits ∧ value % 2 ^ bits < 2 ^ bits :=
    have positive : (0 : Int) < 2 ^ bits := pow_pos (by decide) bits
    ⟨Int.emod_nonneg value positive.ne', Int.emod_lt_of_pos value positive⟩
  rw [← BitVec.toNat_inj, BitVec.toNat_setWidth, BitVec.toNat_ofInt, BitVec.toNat_ofInt,
    ← Int.ofNat_inj]
  push_cast
  rw [Int.toNat_of_nonneg (inside width).1, Int.toNat_of_nonneg (inside type).1]
  rcases Nat.le_total type width with narrow | wide
  · exact iff_of_true (narrowed narrow)
      ((inside type).2.trans_le (pow_le_pow_right₀ (by decide) narrow))
  have fits : value % 2 ^ width < 2 ^ type :=
    (inside width).2.trans_le (pow_le_pow_right₀ (by decide) wide)
  rw [Int.emod_eq_of_lt (inside width).1 fits, ← narrowed wide]
  constructor
  · intro equal
    rw [← equal, narrowed wide]
    exact (inside width).2
  · exact Int.emod_eq_of_lt (inside type).1

namespace Numeral

theorem parseUnsigned_eq (numeral : Numeral) (type : Nat) (hasMinus : Bool)
    : parseUnsigned type hasMinus (numeral.radix.mark ++ numeral.body)
      = readDigits type hasMinus numeral.radix numeral.width numeral.body := by
  obtain ⟨sign, radix, body, digits, nonempty, -⟩ := numeral
  cases radix with
  | ten =>
    -- no mark is read, as these letters are no digits of ten
    have noLetter {letter : Char} {S : List Char} (isLetter : Radix.ten.admits letter = false)
        : body ≠ '0' :: letter :: S := by
      rintro rfl
      simp [digits letter (by simp)] at isLetter
    unfold parseUnsigned
    split
    next marked => exact absurd marked (noLetter rfl)
    next marked => exact absurd marked (noLetter rfl)
    next marked => exact absurd marked (noLetter rfl)
    · rfl
  | _ => exact if_neg nonempty

theorem noSign (numeral : Numeral) {char : Char} {S : List Char}
    (isSign : ∀ radix : Radix, radix.admits char = false)
    : numeral.radix.mark ++ numeral.body ≠ char :: S := by
  obtain ⟨sign, radix, body, digits, -, -⟩ := numeral
  intro starts
  have admitted : radix.admits char = true := by
    cases radix with
    | ten =>
      obtain rfl : body = char :: S := starts
      exact digits char (.head S)
    | _ =>
      cases starts
      rfl
  simp [isSign] at admitted

theorem parses (numeral : Numeral) (type : Nat)
    : parseNumberToken type numeral.text
      = readDigits type (numeral.sign == some true) numeral.radix numeral.width numeral.body := by
  rw [← numeral.parseUnsigned_eq]
  unfold text
  rcases numeral.sign with - | - | -
  · unfold parseNumberToken
    split
    next signed => exact absurd signed (numeral.noSign fun radix => by cases radix <;> rfl)
    next signed => exact absurd signed (numeral.noSign fun radix => by cases radix <;> rfl)
    · rfl
  · rfl
  · rfl

end Numeral

/-- A token reads as the integer it denotes where the bits its digits take hold the remainder.
They do not for a negative number and a type of more bits.
-/
theorem parseNumberToken_reads_iff (numeral : Numeral) (type : Nat) (positive : 0 < type)
    : parseNumberToken type numeral.text = .ok (⟨type, BitVec.ofInt type numeral.value⟩, none)
      ↔ numeral.width ≠ 0 ∧ numeral.value % 2 ^ type < 2 ^ numeral.width := by
  have read : accumulate numeral.radix.value numeral.body (0#(numeral.width))
      = .ok (BitVec.ofNat numeral.width numeral.magnitude) :=
    accumulate_digits numeral.digits 0
  have signed : BitVec.ofInt numeral.width numeral.value
      = if numeral.sign == some true then -BitVec.ofNat numeral.width numeral.magnitude
        else BitVec.ofNat numeral.width numeral.magnitude := by
    simp only [Numeral.value, beq_iff_eq]
    split_ifs
    · rw [BitVec.ofInt_neg, BitVec.ofInt_natCast]
    · exact BitVec.ofInt_natCast numeral.width numeral.magnitude
  rw [numeral.parses, readDigits, read, ← setWidth_ofInt_eq_iff, signed]
  by_cases noBits : numeral.width = 0 <;> simp [noBits, positive.ne']

/-- `-1` -/
def minusOne : Numeral :=
  ⟨some true, .ten, ['1'], List.forall_mem_singleton.mpr rfl, by decide, by decide⟩

theorem parseNumberToken_reads_minusOne
    : parseNumberToken 4 minusOne.text = .ok (⟨4, BitVec.ofInt 4 minusOne.value⟩, none) :=
  (parseNumberToken_reads_iff minusOne 4 (by decide)).mpr (by decide)

/-- As a word of 32 bits `-1` reads as 15. -/
theorem parseNumberToken_loses_sign
    : minusOne.value = -1 ∧ parseNumberToken 32 minusOne.text = .ok (⟨32, 15#32⟩, none) :=
  ⟨rfl, rfl⟩

end Woodpecker.Expressions
