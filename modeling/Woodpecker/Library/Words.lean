import Mathlib.Data.Nat.Bitwise

/-! Machine words of four bytes, least significant byte first, and their sign bit. -/

namespace Woodpecker.Library.Words

/-- The four bytes of a word. -/
def bytes (n : Nat) : List UInt8 :=
  (List.range 4).map fun i => UInt8.ofNat (n / 256 ^ i)

/-- The number whose bytes are given. -/
def value (word : List UInt8) : Nat :=
  word.foldr (fun byte rest => byte.toNat + 256 * rest) 0

@[simp]
theorem length_bytes (n : Nat) : (bytes n).length = 4 := by
  simp [bytes]

theorem value_bytes {n : Nat} (bound : n < 2 ^ 32) : value (bytes n) = n := by
  have unfolded : value (bytes n) = n % 256 + 256 * (n / 256 % 256 + 256 * (n / 256 ^ 2 % 256
        + 256 * (n / 256 ^ 3 % 256 + 256 * 0))) := by
    simp [value, bytes, List.range_succ, UInt8.toNat_ofNat']
  omega

-- The sign bit

/-- `1 << 31` -/
def signBit : Nat := 2 ^ 31

variable {n : Nat}

theorem or_signBit_lt (bound : n < 2 ^ 31) : n ||| signBit < 2 ^ 32 :=
  Nat.or_lt_two_pow (by omega) (by decide)

theorem testBit_or_signBit (n : Nat) : (n ||| signBit).testBit 31 = true := by
  rw [signBit, Nat.testBit_or, Nat.testBit_two_pow_self, Bool.or_true]

theorem or_signBit_xor (bound : n < 2 ^ 31) : (n ||| signBit) ^^^ signBit = n := by
  apply Nat.eq_of_testBit_eq
  intro i
  simp only [signBit, Nat.testBit_xor, Nat.testBit_or, Nat.testBit_two_pow]
  by_cases isSign : 31 = i
  · subst isSign
    simp [Nat.testBit_lt_two_pow bound]
  · simp [isSign]

/-- A word with its sign bit taken off is small. -/
theorem xor_signBit_lt (bound : n < 2 ^ 32) (negative : n.testBit 31 = true)
    : n ^^^ signBit < 2 ^ 31 := by
  apply Nat.lt_pow_two_of_testBit
  intro i high
  simp only [signBit, Nat.testBit_xor, Nat.testBit_two_pow]
  by_cases isSign : 31 = i
  · subst isSign
    simp [negative]
  have beyond : n < 2 ^ i :=
    bound.trans_le (Nat.pow_le_pow_right (by decide) (by omega))
  simp [isSign, Nat.testBit_lt_two_pow beyond]

theorem value_lt {word : List UInt8} (length : word.length = 4) : value word < 2 ^ 32 := by
  match word, length with
  | [a, b, c, d], _ =>
    have small (byte : UInt8) : byte.toNat < 256 := byte.toNat_lt
    simp only [value, List.foldr]
    have := small a
    have := small b
    have := small c
    have := small d
    omega

end Woodpecker.Library.Words
