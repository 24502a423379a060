import Mathlib.Data.List.Basic

/-! Buffers of cells: overwriting a part, cutting and extending, and when a buffer that is
longer than what it holds can stand for it.
-/

namespace Woodpecker.Library

open List

universe u

variable {Cell : Type u}

/-- The cells from an offset on are replaced by new ones. -/
def splice (cells data : List Cell) (off : Nat) : List Cell :=
  cells.take off ++ data ++ cells.drop (off + data.length)

/-- Cut to a length, or extended to it with blank cells. -/
def resize (blank : Cell) (cells : List Cell) (length : Nat) : List Cell :=
  cells.take length ++ List.replicate (length - cells.length) blank

variable {cells data : List Cell} {off size : Nat}

theorem getElem?_splice (room : off ≤ cells.length) (index : Nat)
    : (splice cells data off)[index]?
      = if off ≤ index ∧ index < off + data.length then data[index - off]?
        else cells[index]? := by
  have front : (cells.take off).length = off := by simp [room]
  rw [splice, append_assoc, getElem?_append, front]
  by_cases early : index < off
  · have outside : ¬ (off ≤ index ∧ index < off + data.length) := by omega
    rw [if_pos early, if_neg outside, getElem?_take_of_lt early]
  rw [if_neg early, getElem?_append]
  by_cases inside : index - off < data.length
  · have between : off ≤ index ∧ index < off + data.length := by omega
    rw [if_pos inside, if_pos between]
  have outside : ¬ (off ≤ index ∧ index < off + data.length) := by omega
  have position : off + data.length + (index - off - data.length) = index := by omega
  rw [if_neg inside, if_neg outside, getElem?_drop, position]

theorem length_splice (room : off ≤ cells.length)
    : (splice cells data off).length = max cells.length (off + data.length) := by
  simp only [splice, length_append, length_take, length_drop]
  omega

theorem splice_nil (room : off ≤ cells.length) : splice cells [] off = cells := by
  apply ext_getElem?
  intro index
  have outside : ¬ (off ≤ index ∧ index < off + ([] : List Cell).length) := by
    rw [length_nil]
    omega
  rw [getElem?_splice room, if_neg outside]

@[simp]
theorem length_resize (blank : Cell) (cells : List Cell) (length : Nat)
    : (resize blank cells length).length = length := by
  simp only [resize, length_append, length_take, length_replicate]
  omega

theorem getElem?_resize (blank : Cell) (cells : List Cell) (length index : Nat)
    : (resize blank cells length)[index]?
      = if index < length then some (cells[index]?.getD blank) else none := by
  rw [resize, getElem?_append, length_take, getElem?_take, getElem?_replicate]
  by_cases inside : index < length
  · by_cases held : index < cells.length
    · have first : index < min length cells.length := by omega
      simp [first, inside, held]
    have beyond : cells[index]? = none := getElem?_eq_none (by omega)
    have second : ¬ index < min length cells.length := by omega
    have gap : index - min length cells.length < length - cells.length := by omega
    rw [if_neg second, if_pos gap, if_pos inside, beyond]
    rfl
  · have second : ¬ index < min length cells.length := by omega
    have gap : ¬ (index - min length cells.length < length - cells.length) := by omega
    rw [if_neg second, if_neg gap, if_neg inside]

/-- A longer buffer shows a resized text exactly when it is blank where the text grows. -/
theorem take_eq_resize_iff (blank : Cell) (length : Nat) (fits : size ≤ cells.length)
    : cells.take length = resize blank (cells.take size) length
      ↔ ∀ index, size ≤ index → index < length → cells[index]? = some blank := by
  constructor
  · intro same index beyond inside
    have cell := congrArg (fun text : List Cell => text[index]?) same
    have absent : (cells.take size)[index]? = none :=
      getElem?_eq_none (by rw [length_take]; omega)
    simp only [getElem?_resize, getElem?_take_of_lt inside, if_pos inside, absent] at cell
    simpa using cell
  · intro blankBeyond
    apply ext_getElem?
    intro index
    rw [getElem?_resize, getElem?_take]
    split
    next inside =>
      by_cases held : index < size
      · rw [getElem?_take_of_lt held, getElem?_eq_getElem (Nat.lt_of_lt_of_le held fits)]
        rfl
      have absent : (cells.take size)[index]? = none :=
        getElem?_eq_none (by rw [length_take]; omega)
      rw [blankBeyond index (Nat.le_of_not_lt held) inside, absent]
      rfl
    · rfl

/-- A longer buffer shows an overwritten text exactly when it is blank in the gap before the
new cells.
-/
theorem take_splice_eq_iff (blank : Cell) (fits : size ≤ cells.length)
    (room : off + data.length ≤ cells.length)
    : (splice cells data off).take (max size (off + data.length))
        = splice (resize blank (cells.take size) (max size off)) data off
      ↔ ∀ index, size ≤ index → index < off → cells[index]? = some blank := by
  have inText : off ≤ (resize blank (cells.take size) (max size off)).length := by
    rw [length_resize]
    omega
  have inBuffer : off ≤ cells.length := by omega
  have absent {index : Nat} (beyond : size ≤ index) : (cells.take size)[index]? = none :=
    getElem?_eq_none (by rw [length_take]; omega)
  constructor
  · intro same index beyond before
    have cell := congrArg (fun text : List Cell => text[index]?) same
    have early : ¬ off ≤ index := by omega
    have inside : index < max size off := by omega
    have shown : index < max size (off + data.length) := by omega
    simp only [getElem?_take_of_lt shown, getElem?_splice inBuffer, getElem?_splice inText,
      getElem?_resize, early, false_and, if_false, if_pos inside, absent beyond] at cell
    simpa using cell
  · intro blankGap
    apply ext_getElem?
    intro index
    rw [getElem?_take, getElem?_splice inBuffer, getElem?_splice inText, getElem?_resize]
    by_cases written : off ≤ index ∧ index < off + data.length
    · have shown : index < max size (off + data.length) := by omega
      rw [if_pos shown, if_pos written, if_pos written]
    rw [if_neg written, if_neg written]
    by_cases held : index < size
    · have shown : index < max size (off + data.length) := by omega
      have inside : index < max size off := by omega
      rw [if_pos shown, if_pos inside, getElem?_take_of_lt held,
        getElem?_eq_getElem (Nat.lt_of_lt_of_le held fits)]
      rfl
    · by_cases before : index < off
      · have shown : index < max size (off + data.length) := by omega
        have inside : index < max size off := by omega
        rw [if_pos shown, if_pos inside, blankGap index (by omega) before, absent (by omega)]
        rfl
      · have hidden : ¬ index < max size (off + data.length) := by omega
        have outside : ¬ index < max size off := by omega
        rw [if_neg hidden, if_neg outside]

end Woodpecker.Library
