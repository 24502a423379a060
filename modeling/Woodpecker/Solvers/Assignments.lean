import Woodpecker.Execution.Solving
import Woodpecker.Expressions.Evaluator
import Woodpecker.Library.Tables

/-! Assignments that bind some arrays, as solvers return them.

An array that is not bound is read as zero. An expression is evaluated to what it is under the
assignment that is zero wherever nothing is bound.
-/

namespace Woodpecker.Solvers

open Expressions Library List

instance arrayLT : LT Array :=
  ⟨fun a b => a.address < b.address⟩

instance arrayDecidableLT : DecidableLT Array :=
  fun a b => inferInstanceAs (Decidable (a.address < b.address))

/-- The class `Assignment`, where values that are not bound are not free. -/
structure BoundAssignment where
  bindings : Table Array (List (BitVec 8))
deriving DecidableEq

open BoundAssignment

/-- `Expr::isTrue` -/
def isTrueExpr (e : Expr) : Except Fault Bool :=
  if e.getWidth ≠ 1 then .error .assertion
  else
    match e.constant? with
    | some CE => CE.isTrue
    | none => .ok false

namespace BoundAssignment

/-- The constructor from objects and their values. -/
def ofValues (objects : List Array) (values : List (List (BitVec 8))) : BoundAssignment :=
  ⟨(objects.zip values).foldl (fun bindings it => bindings.insertNew it.1 it.2) []⟩

def byte (a : BoundAssignment) (array : Array) (index : Nat) : BitVec 8 :=
  match a.bindings.find? array with
  | some arr => arr.getD index 0
  | none => 0

/-- `AssignmentEvaluator` -/
def evaluator (a : BoundAssignment) : ExprEvaluator where
  getInitialValue array index := .constant ⟨8, a.byte array index⟩

def evaluate (a : BoundAssignment) (options : Options) (fuel : Nat) (e : Expr)
    : Except Fault Expr := do
  let result ← a.evaluator.visit options fuel [] e
  .ok result.1

/-- The loop of `satisfies`, with one evaluator for all expressions. -/
def satisfiesLoop (a : BoundAssignment) (options : Options) (fuel : Nat) (visited : Visited)
    : List Expr → Except Fault Bool
  | [] => .ok true
  | e :: rest => do
    let result ← a.evaluator.visit options fuel visited e
    let holds ← isTrueExpr result.1
    if holds then satisfiesLoop a options fuel result.2 rest else .ok false

def satisfies (a : BoundAssignment) (options : Options) (fuel : Nat) (key : List Expr)
    : Except Fault Bool :=
  a.satisfiesLoop options fuel [] key

-- Values

/-- The assignment of all bytes. -/
def bytes (a : BoundAssignment) : Assignment :=
  fun array i => a.byte array i.toNat

/-- A bound array has as many bytes as it should have. -/
def Sized (a : BoundAssignment) : Prop :=
  ∀ entry ∈ a.bindings, entry.2.length = entry.1.size.toNat

variable {a : BoundAssignment} {options : Options} {e : Expr} {visited : Visited}

theorem byte_outside (sized : a.Sized) {array : Array} {i : Nat} (outside : array.size.toNat ≤ i)
    : a.byte array i = 0#8 := by
  unfold byte
  split
  next arr found =>
    rw [getD_eq_getElem?_getD, getElem?_eq_none]
    · rfl
    have length := sized _ (Table.mem_of_find? found)
    simp only at length
    omega
  · rfl

/-- The values are those of the assignment of all bytes. -/
theorem initial (options : Options) (sized : a.Sized)
    : a.evaluator.Initial options a.bytes True where
  constant _ root i := ⟨_, rfl⟩
  value := by
    intro root i small asked
    have same : root.byte a.bytes (BitVec.ofNat 32 i) = a.byte root i := by
      unfold Array.byte
      split
      · simp only [bytes, BitVec.toNat_ofNat, Nat.mod_eq_of_lt small]
      next constant =>
        have outside := asked.resolve_left constant
        have length : root.constantValues.length = root.size.toNat :=
          root.sized.resolve_left fun empty => constant (by simp [Array.isSymbolicArray, empty])
        rw [byte_outside sized outside, BitVec.toNat_ofNat, Nat.mod_eq_of_lt small,
          getD_eq_getElem?_getD, getElem?_eq_none (by omega)]
        rfl
    rw [same]
    exact denotes_constant options a.bytes ⟨8, a.byte root i⟩

section

variable (sized : a.Sized)
include sized

/-- An expression that can be evaluated is evaluated to its value. -/
theorem evaluate_yields (valid : e.Valid options a.bytes)
    (regular : e.Regular ∨ True ∧ e.Evaluable a.bytes ∧ e.Everywhere Expr.Foldable)
    (evaluable : e.Evaluable a.bytes)
    : Yields (fun fuel => a.evaluate options fuel e) fun result =>
        result = .constant ⟨e.getWidth, e.bits a.bytes e.getWidth⟩ := by
  refine (ExprEvaluator.visit_yields (initial options sized) e valid regular [] nofun).bind
    fun result isResult => ⟨_, settles_ok _, ?_⟩
  obtain ⟨c, isC⟩ := isResult.1.constant trivial evaluable
  have isV := isResult.1.keeps.denotes valid.denotes
  rw [isC] at isV ⊢
  rw [isV.constant]

variable (off : options.ConstArrayOpt = false)
include off

/-- What is found to be satisfied is, by induction on the expressions. -/
theorem satisfiesLoop_yields (key : List Expr) (boolean : ∀ e ∈ key, e.Boolean)
    (regular : ∀ e ∈ key, e.Regular)
    (evaluated : visited.Evaluated options a.bytes True)
    : Yields (fun fuel => a.satisfiesLoop options fuel visited key) fun holds =>
        holds = true → ∀ e ∈ key, e.Holds a.bytes := by
  induction key generalizing visited with
  | nil => exact yields_ok fun _ => nofun
  | cons e rest ih =>
    obtain ⟨⟨typed, width⟩, others⟩ := forall_mem_cons.mp boolean
    obtain ⟨regularE, regularRest⟩ := forall_mem_cons.mp regular
    have valid : e.Valid options a.bytes := ⟨typed, by simp [off]⟩
    refine (ExprEvaluator.visit_yields (initial options sized) e valid (.inl regularE) visited
      evaluated).bind fun result isResult => ?_
    obtain ⟨evaluates, evaluated⟩ := isResult
    have isE : Denotes options a.bytes e (e.bits a.bytes 1) :=
      ⟨typed, width, by simp [off], rfl⟩
    have isV := evaluates.keeps.denotes isE
    have isTrue : ∃ b, isTrueExpr result.1 = .ok b ∧ (b = true → e.Holds a.bytes) := by
      unfold isTrueExpr
      rw [if_neg (not_not.mpr isV.width)]
      split
      next CE isC =>
        rw [constant?_eq_some.mp isC] at isV
        rw [isV.constant, ConstantExpr.isTrue_eq]
        exact ⟨_, rfl, fun holds => beq_iff_eq.mp holds⟩
      · exact ⟨false, rfl, nofun⟩
    obtain ⟨b, returned, holds⟩ := isTrue
    simp only [returned, ok_bind]
    cases b with
    | true =>
      refine (ih others regularRest evaluated).mono fun all isTrue => ?_
      exact fun isAll => forall_mem_cons.mpr ⟨holds rfl, isTrue isAll⟩
    | false => exact yields_ok nofun

theorem satisfies_yields (key : List Expr) (boolean : ∀ e ∈ key, e.Boolean)
    (regular : ∀ e ∈ key, e.Regular)
    : Yields (fun fuel => a.satisfies options fuel key) fun holds =>
        holds = true → ∀ e ∈ key, e.Holds a.bytes :=
  satisfiesLoop_yields sized off key boolean regular nofun

end

end BoundAssignment

-- Divisors and values

section Values

variable {a : BoundAssignment} {options : Options} {e : Expr}

/-- Seven divided by a byte. -/
def quotient (divisor : Expr) : Expr :=
  .arithmetic .UDiv (.constant ⟨8, 7#8⟩) divisor

theorem quotient_valid (bytes : Assignment) : (quotient inputByte).Valid comparesAll bytes :=
  ⟨⟨trivial, inputByte_typed, rfl⟩, fun _ => ⟨trivial, inputByte_inBounds bytes⟩⟩

theorem quotient_regular : (quotient inputByte).Regular := by
  simp [quotient, Expr.Regular, Expr.Everywhere, Expr.subexprs, UpdateNode.subexprs, inputByte,
    Expr.Shaped, Expr.kids, Expr.getWidth]

/-- An expression is evaluated to its value if it has no zero divisor and nothing that must
not be optimized.
-/
theorem evaluate_eq_value (sized : a.Sized) (valid : e.Valid options a.bytes)
    (foldable : e.Everywhere Expr.Foldable) (evaluable : e.Evaluable a.bytes)
    : Yields (fun fuel => a.evaluate options fuel e) fun result =>
        result = .constant ⟨e.getWidth, e.bits a.bytes e.getWidth⟩ := by
  exact evaluate_yields sized valid (.inr ⟨trivial, evaluable, foldable⟩) evaluable

/-- The byte is two. -/
def boundTwo : BoundAssignment :=
  ⟨[(⟨1, "input", 1, [], input_sized⟩, [2#8])]⟩

theorem evaluate_eq_value_two
    : Yields (fun fuel => boundTwo.evaluate comparesAll fuel (quotient inputByte)) fun result =>
        result = .constant ⟨8, 3#8⟩ := by
  refine evaluate_eq_value ?_ (quotient_valid _) ?_ ?_
  · simp [Sized, boundTwo]
  · simp [quotient, Expr.Everywhere, Expr.subexprs, UpdateNode.subexprs, inputByte, Expr.Foldable,
      Expr.Shaped, Expr.getWidth]
  · simp [quotient, Expr.Evaluable, Expr.Everywhere, Expr.subexprs, UpdateNode.subexprs, inputByte,
      Expr.Folds]
    exact (by decide : (2#8 : BitVec 8) ≠ 0#8)

/-- What must not be optimized stays so, and a divisor of more than 64 bits is not tested. -/
theorem evaluate_not_constant
    : boundTwo.evaluate comparesAll 9 (.notOptimized inputByte)
        = .ok (.notOptimized (.constant ⟨8, 2#8⟩))
      ∧ boundTwo.evaluate comparesAll 9 (.arithmetic .UDiv (.constant ⟨65, 7#65⟩)
          (.cast .ZExt inputByte 65)) = .error .assertion := by
  exact ⟨rfl, rfl⟩

end Values

-- Assignments from values

/-- The bytes of an array, as many as it has. -/
def contents (bytes : Assignment) (array : Array) : List (BitVec 8) :=
  (List.range array.size.toNat).map fun i => bytes array (BitVec.ofNat 32 i)

/-- An array that is not bound is zero. -/
theorem BoundAssignment.contents_bytes {a : BoundAssignment} (sized : a.Sized) (array : Array)
    : (match a.bindings.find? array with
      | none => replicate array.size.toNat 0#8
      | some value => value) = contents a.bytes array := by
  have small (i : Nat) (isIn : i < array.size.toNat) : i % 4294967296 = i :=
    Nat.mod_eq_of_lt (isIn.trans array.size.toNat_lt)
  split
  next isNone => simp [contents, bytes, byte, isNone]
  next value found =>
    have length : value.length = array.size.toNat := sized _ (Table.mem_of_find? found)
    refine ext_getElem (by simp [contents, length]) fun i inside _ => ?_
    simp [contents, bytes, byte, found, small i (length ▸ inside), inside]

theorem mem_insertNew {table : Table Array (List (BitVec 8))} {array : Array}
    {value : List (BitVec 8)} {entry : Array × List (BitVec 8)}
    (isIn : entry ∈ table.insertNew array value)
    : entry = (array, value) ∨ entry ∈ table := by
  induction table with
  | nil => exact .inl (mem_singleton.mp isIn)
  | cons first rest ih =>
    simp only [Table.insertNew] at isIn
    split at isIn
    · exact .inr isIn
    split at isIn
    · exact mem_cons.mp isIn
    rcases mem_cons.mp isIn with same | later
    · exact .inr (same ▸ .head rest)
    · exact (ih later).imp_right (.tail first)

/-- Binding arrays to what a function gives for them, by induction on the arrays. -/
theorem bindings_of_values (value : Array → List (BitVec 8)) (objects : List Array)
    (table : Table Array (List (BitVec 8))) (good : ∀ entry ∈ table, entry.2 = value entry.1)
    : (∀ entry ∈ (objects.map fun array => (array, value array)).foldl
        (fun bindings it => bindings.insertNew it.1 it.2) table, entry.2 = value entry.1)
      ∧ ∀ array, ((((objects.map fun array => (array, value array)).foldl
          (fun bindings it => bindings.insertNew it.1 it.2) table).find? array).isSome
        ↔ array ∈ objects ∨ (table.find? array).isSome) := by
  induction objects generalizing table with
  | nil => exact ⟨good, fun array => by simp⟩
  | cons first rest ih =>
    have better : ∀ entry ∈ table.insertNew first (value first), entry.2 = value entry.1 := by
      intro entry isIn
      rcases mem_insertNew isIn with same | old
      · rw [same]
      · exact good entry old
    obtain ⟨all, found⟩ := ih _ better
    refine ⟨all, fun array => (found array).trans ?_⟩
    rw [Table.isSome_find?_insertNew, mem_cons, or_assoc, or_left_comm]

theorem ofValues_spec (bytes : Assignment) (objects : List Array)
    : (ofValues objects (objects.map (contents bytes))).Sized
      ∧ ∀ array ∈ objects, ∀ i : BitVec 32, i.toNat < array.size.toNat
        → (ofValues objects (objects.map (contents bytes))).bytes array i = bytes array i := by
  have zipped : objects.zip (objects.map (contents bytes))
      = objects.map fun array => (array, contents bytes array) := by
    induction objects with
    | nil => rfl
    | cons first rest ih => rw [map_cons, zip_cons_cons, ih, map_cons]
  obtain ⟨values, found⟩ := bindings_of_values (contents bytes) objects [] nofun
  unfold ofValues
  rw [zipped]
  constructor
  · intro entry isIn
    rw [values entry isIn, contents, length_map, length_range]
  · intro array isIn i within
    obtain ⟨arr, isArr⟩ := Option.isSome_iff_exists.mp ((found array).mpr (.inl isIn))
    have value : arr = contents bytes array := values _ (Table.mem_of_find? isArr)
    simp only [BoundAssignment.bytes, BoundAssignment.byte, isArr]
    rw [value]
    rw [contents, getD_eq_getElem?_getD, getElem?_map, getElem?_range within]
    simp

/-- An expression that reads the arrays within their bounds keeps its value. -/
theorem bits_ofValues {bytes : Assignment} {objects : List Array} {e : Expr}
    (within : e.Within bytes)
    (listed : ∀ re ∈ e.reads, re.root.isSymbolicArray = true → re.root ∈ objects) (w : Nat)
    : e.bits (ofValues objects (objects.map (contents bytes))).bytes w = e.bits bytes w := by
  refine (e.bits_congr_at w fun re isRead => ?_).symm
  unfold ReadExpr.AgreesAt Array.byte
  split
  next isSymbolic =>
    exact ((ofValues_spec bytes objects).2 re.root (listed re isRead isSymbolic) _
      (within re isRead)).symm
  · rfl

end Woodpecker.Solvers
