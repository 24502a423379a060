import Woodpecker.Expressions.Negations
import Woodpecker.Library.SetTrees
import Woodpecker.Solvers.Assignments

/-! The cache of counterexamples.

A query is a set of constraints with the negated expression. Its solution, or that it has
none, is looked for among the solutions of earlier queries: of the same set, of a superset, of
a subset. Whatever was asked before, the entries of the cache and the answers are right.
-/

namespace Woodpecker.Solvers

open Expressions Library Execution List BoundAssignment

-- Model

/-- What the solver depends on: how expressions are made and ordered, the command line option
`cex-cache-try-all`, in which order the memo table is gone through, and the solver for what is
not in the cache. That returns values for the arrays, or none if there is no solution.
-/
structure CexSetting where
  options : Options
  less : Expr → Expr → Bool
  CexCacheTryAll : Bool
  order : List BoundAssignment → List BoundAssignment
  order_perm : ∀ table, (order table).Perm table
  computeInitialValues : ConstraintManager → Expr → List Array
    → Option (List (List (BitVec 8)))

/-- The cache, where an entry without an assignment is for a set that has no solution, and the
memo table.
-/
structure CexCache where
  cache : SetTree Expr (Option BoundAssignment)
  assignmentsTable : List BoundAssignment

def CexCache.empty : CexCache :=
  ⟨.empty, []⟩

/-- Insertion into an ordered set of expressions. -/
def insertKey (less : Expr → Expr → Bool) (e : Expr) : List Expr → List Expr
  | [] => [e]
  | x :: rest =>
    if e = x then x :: rest
    else if less e x then e :: x :: rest
    else x :: insertKey less e rest

def keyOf (less : Expr → Expr → Bool) (constraints : List Expr) : List Expr :=
  constraints.foldl (fun key e => insertKey less e key) []

namespace CexSetting

variable (setting : CexSetting) (fuel : Nat) (state : CexCache)

/-- `NullAssignment` -/
def isNull (a : Option BoundAssignment) : Except Fault Bool :=
  .ok a.isNone

/-- `NonNullAssignment` -/
def isNonNull (a : Option BoundAssignment) : Except Fault Bool :=
  .ok a.isSome

/-- `NullOrSatisfyingAssignment` -/
def isNullOrSatisfying (key : List Expr) (a : Option BoundAssignment) : Except Fault Bool :=
  match a with
  | none => .ok true
  | some a => a.satisfies setting.options fuel key

/-- The loop over the memo table. -/
def searchTable (key : List Expr)
    : List BoundAssignment → Except Fault (Option (Option BoundAssignment))
  | [] => .ok none
  | a :: rest => do
    let holds ← a.satisfies setting.options fuel key
    if holds then .ok (some (some a)) else searchTable key rest

def searchForAssignment (key : List Expr) : Except Fault (Option (Option BoundAssignment)) :=
  match state.cache.lookup key with
  | some lookup => .ok (some lookup)
  | none =>
    if setting.CexCacheTryAll then
      searchThen (state.cache.findSuperset isNonNull key)
        (searchThen (state.cache.findSubset setting.less isNull key)
          (setting.searchTable fuel key (setting.order state.assignmentsTable)))
    else
      searchThen (state.cache.findSuperset isNonNull key)
        (state.cache.findSubset setting.less (setting.isNullOrSatisfying fuel key) key)

/-- The key of the query, and what is found for it. -/
def lookupAssignment (constraints : ConstraintManager) (expr : Expr)
    : Except Fault (List Expr × Option (Option BoundAssignment)) := do
  let key := keyOf setting.less constraints.constraints
  let neg ← expr.createIsZero setting.options
  match neg.constant? with
  | some CE => do
    let isFalse ← CE.isFalse
    if isFalse then .ok (key, some none)
    else do
      let found ← setting.searchForAssignment fuel state key
      .ok (key, found)
  | none => do
    let key := insertKey setting.less neg key
    let found ← setting.searchForAssignment fuel state key
    .ok (key, found)

def getAssignment (constraints : ConstraintManager) (expr : Expr)
    : Except Fault (Option BoundAssignment × CexCache) := do
  let lookup ← setting.lookupAssignment fuel state constraints expr
  match lookup.2 with
  | some result => .ok (result, state)
  | none =>
    let key := lookup.1
    let objects := findSymbolicObjects key
    match setting.computeInitialValues constraints expr objects with
    | some values =>
      let binding := BoundAssignment.ofValues objects values
      let table :=
        if binding ∈ state.assignmentsTable then state.assignmentsTable
        else binding :: state.assignmentsTable
      .ok (some binding, ⟨state.cache.insert setting.less key (some binding), table⟩)
    | none =>
      .ok (none, { state with cache := state.cache.insert setting.less key none })

/-- Without a result the computation has failed. -/
def computeValidity (constraints : ConstraintManager) (expr : Expr)
    : Except Fault (Option Validity × CexCache) := do
  let first ← setting.getAssignment fuel state constraints (.constant (ConstantExpr.alloc 0 1))
  match first.1 with
  | none => .ok (none, first.2)
  | some a => do
    let q ← a.evaluate setting.options fuel expr
    match q.constant? with
    | none => .error .assertion
    | some CE => do
      let isTrue ← CE.isTrue
      if isTrue then do
        let second ← setting.getAssignment fuel first.2 constraints expr
        .ok (some (if second.1.isNone then .True else .Unknown), second.2)
      else do
        let negated ← expr.createIsZero setting.options
        let second ← setting.getAssignment fuel first.2 constraints negated
        .ok (some (if second.1.isNone then .False else .Unknown), second.2)

def computeTruth (constraints : ConstraintManager) (expr : Expr)
    : Except Fault (Bool × CexCache) := do
  let result ← setting.getAssignment fuel state constraints expr
  .ok (result.1.isNone, result.2)

def computeValue (constraints : ConstraintManager) (expr : Expr)
    : Except Fault (ConstantExpr × CexCache) := do
  let result ← setting.getAssignment fuel state constraints (.constant (ConstantExpr.alloc 0 1))
  match result.1 with
  | none => .error .assertion
  | some a => do
    let value ← a.evaluate setting.options fuel expr
    match value.constant? with
    | none => .error .assertion
    | some CE => .ok (CE, result.2)

/-- The values of the objects, if there is a solution. -/
def computeInitialValuesOf (constraints : ConstraintManager) (expr : Expr)
    (objects : List Array)
    : Except Fault (Option (List (List (BitVec 8))) × CexCache) := do
  let result ← setting.getAssignment fuel state constraints expr
  match result.1 with
  | none => .ok (none, result.2)
  | some a =>
    let values := objects.map fun os =>
      match a.bindings.find? os with
      | none => List.replicate os.size.toNat 0#8
      | some value => value
    .ok (some values, result.2)

end CexSetting

/-- The queries that are put to the solver. -/
inductive CexQuery where
  | truth (constraints : ConstraintManager) (expr : Expr)
  | validity (constraints : ConstraintManager) (expr : Expr)
  | value (constraints : ConstraintManager) (expr : Expr)
  | initialValues (constraints : ConstraintManager) (expr : Expr) (objects : List Array)

inductive CexAnswer where
  | truth (isValid : Bool)
  | validity (result : Option Validity)
  | value (result : ConstantExpr)
  | initialValues (values : Option (List (List (BitVec 8))))

def CexSetting.answer (setting : CexSetting) (fuel : Nat) (state : CexCache)
    : CexQuery → Except Fault (CexAnswer × CexCache)
  | .truth constraints expr => do
    let result ← setting.computeTruth fuel state constraints expr
    .ok (.truth result.1, result.2)
  | .validity constraints expr => do
    let result ← setting.computeValidity fuel state constraints expr
    .ok (.validity result.1, result.2)
  | .value constraints expr => do
    let result ← setting.computeValue fuel state constraints expr
    .ok (.value result.1, result.2)
  | .initialValues constraints expr objects => do
    let result ← setting.computeInitialValuesOf fuel state constraints expr objects
    .ok (.initialValues result.1, result.2)

/-- One query after the other. -/
def CexSetting.answers (setting : CexSetting) (fuel : Nat) (state : CexCache)
    : List CexQuery → Except Fault (List CexAnswer × CexCache)
  | [] => .ok ([], state)
  | query :: rest => do
    let first ← setting.answer fuel state query
    let others ← setting.answers fuel first.2 rest
    .ok (first.1 :: others.1, others.2)

-- What is right

/-- A query whose reads are in bounds where its constraints hold. -/
structure InBoundsQuery (constraints : ConstraintManager) (expr : Expr) : Prop where
  boolean : constraints.Boolean
  typed : expr.Typed
  within : ∀ bytes ∈ assignments constraints,
    (∀ e ∈ constraints.constraints, e.Within bytes) ∧ expr.Within bytes

/-- The solver that is asked finds the values of a solution if there is one. -/
structure CexSetting.Correct (setting : CexSetting) : Prop where
  sound : ∀ {constraints expr objects values}, InBoundsQuery constraints expr → expr.getWidth = 1
    → setting.computeInitialValues constraints expr objects = some values
    → ∃ bytes ∈ assignments constraints, ¬ expr.Holds bytes
      ∧ values = objects.map (contents bytes)
  complete : ∀ {constraints expr objects}, InBoundsQuery constraints expr → expr.getWidth = 1
    → setting.computeInitialValues constraints expr objects = none
    → ∀ bytes ∈ assignments constraints, expr.Holds bytes

/-- An entry of the cache is right: a set without an assignment has no solution, and an
assignment is a solution.
-/
structure EntryCorrect (key : List Expr) (value : Option BoundAssignment) : Prop where
  unsatisfiable : value = none → ∀ bytes : Assignment, ∃ e ∈ key, ¬ e.Holds bytes
  satisfies : ∀ a, value = some a → a.Sized ∧ ∀ e ∈ key, e.Holds a.bytes

structure CexCache.Correct (state : CexCache) : Prop where
  entries : ∀ key value, state.cache.Has key value → EntryCorrect key value
  table : ∀ a ∈ state.assignmentsTable, a.Sized

/-- What is right to answer. -/
def CexAnswer.Correct : CexQuery → CexAnswer → Prop
  | .truth constraints expr, .truth isValid =>
    isValid = true ↔ ∀ bytes ∈ assignments constraints, expr.Holds bytes
  | .validity constraints expr, .validity result =>
    (assignments constraints).Nonempty → ∃ validity, result = some validity
      ∧ (validity = .True ↔ ∀ bytes ∈ assignments constraints, expr.Holds bytes)
      ∧ (validity = .False ↔ ∀ bytes ∈ assignments constraints, ¬ expr.Holds bytes)
  | .value constraints expr, .value result =>
    ∃ bytes ∈ assignments constraints,
      result = ⟨expr.getWidth, expr.bits bytes expr.getWidth⟩
  | .initialValues constraints expr objects, .initialValues values =>
    (values.isSome ↔ ∃ bytes ∈ assignments constraints, ¬ expr.Holds bytes)
      ∧ ∀ found, values = some found → ∃ bytes ∈ assignments constraints, ¬ expr.Holds bytes
        ∧ found = objects.map (contents bytes)
  | _, _ => False

/-- A query whose expressions can be evaluated without an assertion under any assignment: they
can be rebuilt at every place.
-/
structure RegularQuery (constraints : ConstraintManager) (expr : Expr) : Prop
    extends InBoundsQuery constraints expr where
  regular : ∀ e ∈ constraints.constraints, e.Regular
  regularExpr : expr.Regular

/-- What is asked of a query. Where its expression is evaluated, it must not divide by zero or
be kept from being optimized, and a value is asked for only where there is one.
-/
def CexQuery.Admissible : CexQuery → Prop
  | .truth constraints expr | .initialValues constraints expr _ =>
    RegularQuery constraints expr ∧ expr.getWidth = 1
  | .validity constraints expr =>
    RegularQuery constraints expr ∧ expr.getWidth = 1
      ∧ ∀ bytes ∈ assignments constraints, expr.Evaluable bytes
  | .value constraints expr =>
    RegularQuery constraints expr ∧ (assignments constraints).Nonempty
      ∧ ∀ bytes ∈ assignments constraints, expr.Evaluable bytes

-- Keys

variable {setting : CexSetting} {state : CexCache} {constraints : ConstraintManager} {expr : Expr}
  {key : List Expr} {less : Expr → Expr → Bool}

theorem mem_insertKey {e x : Expr} {key : List Expr}
    : x ∈ insertKey less e key ↔ x = e ∨ x ∈ key := by
  induction key with
  | nil => simp [insertKey]
  | cons first rest ih =>
    simp only [insertKey]
    split
    next same =>
      subst same
      simp
    · split
      · simp
      · rw [mem_cons, ih, mem_cons, or_left_comm]

theorem mem_keyOf {x : Expr} (exprs : List Expr)
    : x ∈ keyOf less exprs ↔ x ∈ exprs := by
  have general (exprs key : List Expr)
      : x ∈ exprs.foldl (fun key e => insertKey less e key) key ↔ x ∈ exprs ∨ x ∈ key := by
    induction exprs generalizing key with
    | nil => simp
    | cons first rest ih =>
      rw [foldl_cons, ih, mem_insertKey, mem_cons, or_assoc, or_left_comm]
  simpa [keyOf] using general exprs []

/-- The expressions of a key can be evaluated. -/
structure KeyFits (key : List Expr) : Prop where
  boolean : ∀ e ∈ key, e.Boolean
  regular : ∀ e ∈ key, e.Regular

/-- The key has the solutions of the query. -/
structure KeyFor (constraints : ConstraintManager) (expr : Expr) (key : List Expr) : Prop
    extends KeyFits key where
  within : ∀ bytes ∈ assignments constraints, ∀ e ∈ key, e.Within bytes
  same : ∀ bytes : Assignment,
    (∀ e ∈ key, e.Holds bytes) ↔ bytes ∈ assignments constraints ∧ ¬ expr.Holds bytes

/-- What is right to find for a query. -/
structure Solves (constraints : ConstraintManager) (expr : Expr)
    (value : Option BoundAssignment)
    : Prop where
  none : value = none → ∀ bytes ∈ assignments constraints, expr.Holds bytes
  some : ∀ a, value = some a → a.Sized ∧ a.bytes ∈ assignments constraints ∧ ¬ expr.Holds a.bytes

variable {value : Option BoundAssignment}

theorem KeyFor.solves (keyFor : KeyFor constraints expr key) (correct : EntryCorrect key value)
    : Solves constraints expr value where
  none isNone bytes isIn := by
    by_contra fails
    obtain ⟨e, isE, notHolds⟩ := correct.unsatisfiable isNone bytes
    exact notHolds ((keyFor.same bytes).mpr ⟨isIn, fails⟩ e isE)
  some a isA := by
    obtain ⟨sized, holds⟩ := correct.satisfies a isA
    exact ⟨sized, (keyFor.same a.bytes).mp holds⟩

-- The search

theorem searchTable_finds (off : setting.options.ConstArrayOpt = false) (fits : KeyFits key)
    (table : List BoundAssignment) (sized : ∀ a ∈ table, a.Sized)
    : Finds (EntryCorrect key) fun fuel => setting.searchTable fuel key table := by
  induction table with
  | nil => exact finds_none
  | cons a rest ih =>
    obtain ⟨sizedA, others⟩ := forall_mem_cons.mp sized
    refine Yields.bind (satisfies_yields sizedA off key fits.boolean
      fits.regular) fun holds satisfied => ?_
    cases holds with
    | false => exact ih others
    | true =>
      refine yields_ok fun found isFound => ?_
      cases isFound
      refine ⟨nofun, fun b isB => ?_⟩
      cases isB
      exact ⟨sizedA, satisfied rfl⟩

/-- A solution of a superset is one of the set. -/
theorem findSuperset_finds (correct : state.Correct) (key : List Expr)
    : Finds (EntryCorrect key) fun _ => state.cache.findSuperset CexSetting.isNonNull key := by
  refine SetTree.findSuperset_finds (p := fun _ => CexSetting.isNonNull)
    fun path value has superset => yields_ok fun isSome => ⟨fun isNone => ?_, fun a isA => ?_⟩
  · rw [isNone] at isSome
    cases isSome
  · obtain ⟨sized, holds⟩ := (correct.entries path value has).satisfies a isA
    exact ⟨sized, fun e isE => holds e (superset isE)⟩

/-- A set has no solution if a subset has none. -/
theorem findSubset_finds (correct : state.Correct)
    {p : Nat → Option BoundAssignment → Except Fault Bool}
    (tests : ∀ path value, state.cache.Has path value
      → Tests p (fun value => ∀ a, value = some a → ∀ e ∈ key, e.Holds a.bytes) value)
    : Finds (EntryCorrect key) fun fuel => state.cache.findSubset setting.less (p fuel) key := by
  refine SetTree.findSubset_finds fun path value has subset =>
    (tests path value has).mono fun holds isTrue isHeld => ?_
  obtain ⟨unsatisfiable, satisfies⟩ := correct.entries path value has
  refine ⟨fun isNone bytes => ?_, fun a isA => ⟨(satisfies a isA).1, isTrue isHeld a isA⟩⟩
  obtain ⟨e, isE, notHolds⟩ := unsatisfiable isNone bytes
  exact ⟨e, subset isE, notHolds⟩

theorem searchForAssignment_finds (off : setting.options.ConstArrayOpt = false)
    (correct : state.Correct) (fits : KeyFits key)
    : Finds (EntryCorrect key) fun fuel => setting.searchForAssignment fuel state key := by
  unfold CexSetting.searchForAssignment
  split
  next lookup found =>
    refine yields_ok fun value isFound => ?_
    cases isFound
    exact correct.entries key lookup (SetTree.lookup_has found)
  split
  · refine (findSuperset_finds correct key).searchThen (Finds.searchThen ?_ ?_)
    · refine findSubset_finds correct fun path value _ => yields_ok fun isNone a isA => ?_
      rw [isA] at isNone
      cases isNone
    · refine searchTable_finds off fits _ fun a isIn => correct.table a ?_
      exact (setting.order_perm _).mem_iff.mp isIn
  refine (findSuperset_finds correct key).searchThen
    (findSubset_finds correct fun path value has => ?_)
  cases value with
  | none => exact yields_ok fun _ a isA => nomatch isA
  | some a =>
    have sized := ((correct.entries path (some a) has).satisfies a rfl).1
    refine (satisfies_yields sized off key fits.boolean fits.regular).mono
      fun holds satisfied isTrue b isB => ?_
    cases isB
    exact satisfied isTrue

-- Queries

/-- A negated expression is as good as the expression. -/
structure IsNegation (expr neg : Expr) : Prop where
  boolean : neg.Boolean
  regular : neg.Regular
  within : ∀ bytes, expr.Within bytes → neg.Within bytes
  holds : ∀ bytes, neg.Holds bytes ↔ ¬ expr.Holds bytes

theorem createIsZero_yields (off : setting.options.ConstArrayOpt = false) (typed : expr.Typed)
    (width : expr.getWidth = 1) (regular : expr.Regular)
    : Yields (fun _ => expr.createIsZero setting.options) (IsNegation expr) := by
  have denotes (bytes : Assignment)
      : Denotes setting.options bytes expr (expr.bits bytes 1) :=
    ⟨typed, width, by simp [off], rfl⟩
  have builds (bytes : Assignment) := Expr.createIsZero_builds (denotes bytes)
  obtain ⟨neg, made, isNeg⟩ := builds fun _ _ => 0#8
  rw [made]
  refine yields_ok ⟨⟨isNeg.typed, isNeg.width⟩, ?_, fun bytes within => ?_, fun bytes => ?_⟩
  · refine Expr.createIsZero_everywhere ⟨fun _ => trivial, fun _ _ => trivial, ?_⟩ off typed
      regular neg made
    exact fun l r bool => ⟨by omega, fun _ _ _ => trivial⟩
  · refine within_iff.mpr (Expr.createIsZero_everywhere ?_ off typed (within_iff.mp within) neg
      made)
    exact ⟨fun _ => nofun, fun _ _ => nofun, fun _ _ _ => nofun⟩
  · rw [Expr.Holds, ((builds bytes).makes neg made).bits, Expr.Holds]
    generalize expr.bits bytes 1 = b
    revert b
    decide

theorem RegularQuery.of_expr (query : RegularQuery constraints expr) {other : Expr}
    (typed : other.Typed) (regular : other.Regular)
    (within : ∀ bytes, expr.Within bytes → other.Within bytes)
    : RegularQuery constraints other where
  boolean := query.boolean
  typed := typed
  within bytes isIn := (query.within bytes isIn).imp_right (within bytes)
  regular := query.regular
  regularExpr := regular

theorem not_holds_false (bytes : Assignment)
    : ¬ (Expr.constant (ConstantExpr.alloc 0 1)).Holds bytes := by
  rw [Expr.Holds, Expr.bits]
  decide

theorem RegularQuery.keyFits (query : RegularQuery constraints expr) (less : Expr → Expr → Bool)
    : KeyFits (keyOf less constraints.constraints) where
  boolean e isIn := query.boolean e ((mem_keyOf _).mp isIn)
  regular e isIn := query.regular e ((mem_keyOf _).mp isIn)

/-- The constraints alone are the key if the expression never holds. -/
theorem RegularQuery.keyFor (query : RegularQuery constraints expr) (less : Expr → Expr → Bool)
    (never : ∀ bytes, ¬ expr.Holds bytes)
    : KeyFor constraints expr (keyOf less constraints.constraints) where
  toKeyFits := query.keyFits less
  within bytes isIn e isE := (query.within bytes isIn).1 e ((mem_keyOf _).mp isE)
  same bytes := by
    rw [and_iff_left (never bytes)]
    exact ⟨fun all e isE => all e ((mem_keyOf _).mpr isE),
      fun isIn e isE => isIn e ((mem_keyOf _).mp isE)⟩

theorem RegularQuery.keyFor_insert (query : RegularQuery constraints expr)
    (less : Expr → Expr → Bool) {neg : Expr} (negation : IsNegation expr neg)
    : KeyFor constraints expr (insertKey less neg (keyOf less constraints.constraints)) where
  boolean e isIn := by
    rcases mem_insertKey.mp isIn with rfl | isIn
    · exact negation.boolean
    · exact (query.keyFits less).boolean e isIn
  regular e isIn := by
    rcases mem_insertKey.mp isIn with rfl | isIn
    · exact negation.regular
    · exact (query.keyFits less).regular e isIn
  within bytes isSolution e isIn := by
    rcases mem_insertKey.mp isIn with rfl | isIn
    · exact negation.within bytes (query.within bytes isSolution).2
    · exact (query.within bytes isSolution).1 e ((mem_keyOf _).mp isIn)
  same bytes := by
    constructor
    · intro all
      refine ⟨fun e isE => all e (mem_insertKey.mpr (.inr ((mem_keyOf _).mpr isE))), ?_⟩
      exact (negation.holds bytes).mp (all neg (mem_insertKey.mpr (.inl rfl)))
    · intro solution e isIn
      rcases mem_insertKey.mp isIn with rfl | isIn
      · exact (negation.holds bytes).mpr solution.2
      · exact solution.1 e ((mem_keyOf _).mp isIn)

theorem lookupAssignment_yields (off : setting.options.ConstArrayOpt = false)
    (correct : state.Correct) (query : RegularQuery constraints expr) (width : expr.getWidth = 1)
    : Yields (fun fuel => setting.lookupAssignment fuel state constraints expr) fun lookup =>
        (∀ value, lookup.2 = some value → Solves constraints expr value)
        ∧ (lookup.2 = none → KeyFor constraints expr lookup.1) := by
  have search {key : List Expr} (keyFor : KeyFor constraints expr key)
      : Yields (fun fuel => do
          let found ← setting.searchForAssignment fuel state key
          (.ok (key, found) : Except Fault (List Expr × Option (Option BoundAssignment))))
        fun lookup => (∀ value, lookup.2 = some value → Solves constraints expr value)
          ∧ (lookup.2 = none → KeyFor constraints expr lookup.1) := by
    refine (searchForAssignment_finds off correct keyFor.toKeyFits).bind fun found isFound => ?_
    exact yields_ok ⟨fun value isSome => keyFor.solves (isFound value isSome), fun _ => keyFor⟩
  refine (createIsZero_yields off query.typed width query.regularExpr).bind fun neg negation => ?_
  split
  next CE isC =>
    cases constant?_eq_some.mp isC
    have isBit (bytes : Assignment) := denotes_constant setting.options bytes CE
    obtain ⟨w, b⟩ := CE
    obtain rfl : w = 1 := negation.boolean.2
    have holds (bytes : Assignment) : b = 1#1 ↔ ¬ expr.Holds bytes := by
      rw [← negation.holds bytes, Expr.Holds, (isBit bytes).bits]
    simp only [ConstantExpr.isFalse_eq, ok_bind, beq_iff_eq]
    split
    next isZero =>
      refine yields_ok ⟨fun value isSome => ?_, by simp⟩
      cases isSome
      refine ⟨fun _ bytes _ => ?_, by simp⟩
      by_contra fails
      have isOne := (holds bytes).mpr fails
      rw [isZero] at isOne
      cases isOne
    next notZero =>
      have isOne : b = 1#1 := (bit_cases b).resolve_right notZero
      exact search (query.keyFor setting.less fun bytes => (holds bytes).mp isOne)
  · exact search (query.keyFor_insert setting.less negation)

variable {bytes : Assignment}

/-- The values that the solver returns are a solution of the key. -/
theorem KeyFor.entryCorrect (keyFor : KeyFor constraints expr key)
    (isIn : bytes ∈ assignments constraints) (fails : ¬ expr.Holds bytes)
    : EntryCorrect key (some (.ofValues (findSymbolicObjects key)
        ((findSymbolicObjects key).map (contents bytes)))) where
  unsatisfiable := nofun
  satisfies a isA := by
    cases isA
    refine ⟨(ofValues_spec bytes _).1, fun e isE => ?_⟩
    have listed : ∀ re ∈ e.reads, re.root.isSymbolicArray = true
        → re.root ∈ findSymbolicObjects key :=
      fun re isRead => mem_findSymbolicObjects isE isRead
    rw [Expr.Holds, bits_ofValues (keyFor.within bytes isIn e isE) listed]
    exact (keyFor.same bytes).mpr ⟨isIn, fails⟩ e isE

theorem CexCache.Correct.insert (correct : state.Correct) (entry : EntryCorrect key value)
    {table : List BoundAssignment} (sized : ∀ a ∈ table, a.Sized)
    : Correct ⟨state.cache.insert setting.less key value, table⟩ where
  entries path found has := by
    rcases SetTree.insert_has has with old | ⟨rfl, rfl⟩
    · exact correct.entries path found old
    · exact entry
  table := sized

theorem getAssignment_yields (off : setting.options.ConstArrayOpt = false)
    (asks : setting.Correct) (correct : state.Correct) (query : RegularQuery constraints expr)
    (width : expr.getWidth = 1)
    : Yields (fun fuel => setting.getAssignment fuel state constraints expr) fun result =>
        Solves constraints expr result.1 ∧ result.2.Correct := by
  refine (lookupAssignment_yields off correct query width).bind fun lookup isLookup => ?_
  split
  next value isSome => exact yields_ok ⟨isLookup.1 value isSome, correct⟩
  next isNone =>
    have keyFor := isLookup.2 isNone
    simp only
    split
    next values found =>
      obtain ⟨bytes, isIn, fails, rfl⟩ := asks.sound query.toInBoundsQuery width found
      have entry := keyFor.entryCorrect isIn fails
      refine yields_ok ⟨keyFor.solves entry, correct.insert entry ?_⟩
      split
      · exact correct.table
      · exact forall_mem_cons.mpr ⟨(entry.satisfies _ rfl).1, correct.table⟩
    next found =>
      have valid := asks.complete query.toInBoundsQuery width found
      have entry : EntryCorrect lookup.1 none := by
        refine ⟨fun _ bytes => ?_, nofun⟩
        by_contra none
        push Not at none
        obtain ⟨isIn, fails⟩ := (keyFor.same bytes).mp none
        exact fails (valid bytes isIn)
      exact yields_ok ⟨keyFor.solves entry, correct.insert entry correct.table⟩

-- Answers

theorem Solves.isNone_iff (solves : Solves constraints expr value)
    : value.isNone = true ↔ ∀ bytes ∈ assignments constraints, expr.Holds bytes := by
  cases value with
  | none => exact iff_of_true rfl (solves.none rfl)
  | some a =>
    obtain ⟨-, isIn, fails⟩ := solves.some a rfl
    exact iff_of_false nofun fun valid => fails (valid a.bytes isIn)

section Answers

variable (off : setting.options.ConstArrayOpt = false) (asks : setting.Correct)
  (correct : state.Correct)

include off asks correct

section

variable (query : RegularQuery constraints expr)
include query

theorem truth_yields (width : expr.getWidth = 1)
    : Yields (fun fuel => setting.answer fuel state (.truth constraints expr)) fun result =>
        CexAnswer.Correct (.truth constraints expr) result.1 ∧ result.2.Correct := by
  have asked : Yields (fun fuel => setting.computeTruth fuel state constraints expr) fun result =>
      (result.1 = true ↔ ∀ bytes ∈ assignments constraints, expr.Holds bytes)
        ∧ result.2.Correct :=
    (getAssignment_yields off asks correct query width).bind fun result isResult =>
      ⟨_, settles_ok _, isResult.1.isNone_iff, isResult.2⟩
  exact asked.bind fun result isResult => ⟨_, settles_ok _, isResult⟩

/-- The solution of the constraints that a value is computed with. -/
theorem withFalse_yields : Yields (fun fuel => setting.getAssignment fuel state constraints
        (.constant (ConstantExpr.alloc 0 1))) fun result =>
        (result.1 = none → ¬ (assignments constraints).Nonempty)
        ∧ (∀ a, result.1 = some a → a.Sized ∧ a.bytes ∈ assignments constraints)
        ∧ result.2.Correct := by
  have withFalse : RegularQuery constraints (.constant (ConstantExpr.alloc 0 1)) :=
    query.of_expr trivial (everywhere_iff.mpr ⟨trivial, nofun⟩) fun _ _ => nofun
  refine (getAssignment_yields off asks correct withFalse rfl).mono
    fun result isResult => ⟨fun isNone => ?_, fun a isA => ?_, isResult.2⟩
  · intro nonempty
    obtain ⟨bytes, isIn⟩ := nonempty
    exact not_holds_false bytes (isResult.1.none isNone bytes isIn)
  · obtain ⟨sized, isIn, -⟩ := isResult.1.some a isA
    exact ⟨sized, isIn⟩

theorem value_yields (feasible : (assignments constraints).Nonempty)
    (evaluable : ∀ bytes ∈ assignments constraints, expr.Evaluable bytes)
    : Yields (fun fuel => setting.answer fuel state (.value constraints expr)) fun result =>
        CexAnswer.Correct (.value constraints expr) result.1 ∧ result.2.Correct := by
  have asked : Yields (fun fuel => setting.computeValue fuel state constraints expr) fun result =>
      CexAnswer.Correct (.value constraints expr) (.value result.1) ∧ result.2.Correct := by
    refine (withFalse_yields off asks correct query).bind fun result isResult => ?_
    obtain ⟨none, some, kept⟩ := isResult
    split
    next isNone => exact absurd feasible (none isNone)
    next a isA =>
      obtain ⟨sized, isIn⟩ := some a isA
      refine (evaluate_yields sized ⟨query.typed, by simp [off]⟩ (.inl query.regularExpr)
        (evaluable a.bytes isIn)).bind fun value isValue => ?_
      subst isValue
      exact yields_ok ⟨⟨a.bytes, isIn, rfl⟩, kept⟩
  exact asked.bind fun result isResult => ⟨_, settles_ok _, isResult⟩

theorem initialValues_yields (width : expr.getWidth = 1) (objects : List Array)
    : Yields (fun fuel => setting.answer fuel state (.initialValues constraints expr objects))
        fun result => CexAnswer.Correct (.initialValues constraints expr objects) result.1
          ∧ result.2.Correct := by
  have asked : Yields
      (fun fuel => setting.computeInitialValuesOf fuel state constraints expr objects)
      fun result => CexAnswer.Correct (.initialValues constraints expr objects)
          (.initialValues result.1) ∧ result.2.Correct := by
    refine (getAssignment_yields off asks correct query width).bind fun result isResult => ?_
    obtain ⟨solves, kept⟩ := isResult
    split
    next isNone =>
      refine yields_ok ⟨⟨iff_of_false nofun ?_, nofun⟩, kept⟩
      intro solution
      obtain ⟨bytes, isIn, fails⟩ := solution
      exact fails (solves.none isNone bytes isIn)
    next a isA =>
      obtain ⟨sized, isIn, fails⟩ := solves.some a isA
      refine yields_ok ⟨⟨iff_of_true rfl ⟨a.bytes, isIn, fails⟩, fun found isFound => ?_⟩, kept⟩
      cases isFound
      refine ⟨a.bytes, isIn, fails, map_congr_left fun array _ => ?_⟩
      exact contents_bytes sized array
  exact asked.bind fun result isResult => ⟨_, settles_ok _, isResult⟩

/-- Where a solution of the constraints makes the expression true, the expression is valid or
unknown, where it makes it false, the negation is.
-/
theorem validity_yields (width : expr.getWidth = 1)
    (evaluable : ∀ bytes ∈ assignments constraints, expr.Evaluable bytes)
    : Yields (fun fuel => setting.answer fuel state (.validity constraints expr)) fun result =>
        CexAnswer.Correct (.validity constraints expr) result.1 ∧ result.2.Correct := by
  have asked : Yields (fun fuel => setting.computeValidity fuel state constraints expr)
      fun result => CexAnswer.Correct (.validity constraints expr) (.validity result.1)
        ∧ result.2.Correct := by
    refine (withFalse_yields off asks correct query).bind fun first isFirst => ?_
    obtain ⟨none, some, kept⟩ := isFirst
    split
    next isNone => exact yields_ok ⟨fun feasible => absurd feasible (none isNone), kept⟩
    next a isA =>
      obtain ⟨sized, isIn⟩ := some a isA
      refine (evaluate_yields sized ⟨query.typed, by simp [off]⟩ (.inl query.regularExpr)
        (evaluable a.bytes isIn)).bind fun value isValue => ?_
      have isBit : value = .constant ⟨1, expr.bits a.bytes 1⟩ := by rw [isValue, width]
      rw [isBit]
      simp only [Expr.constant?, ConstantExpr.isTrue_eq, ok_bind, beq_iff_eq]
      split
      next holds =>
        refine (getAssignment_yields off asks kept query width).bind fun second isSecond => ?_
        refine yields_ok ⟨fun _ => ⟨_, rfl, ?_, ?_⟩, isSecond.2⟩
        · rw [← isSecond.1.isNone_iff]
          cases second.1.isNone <;> decide
        · refine iff_of_false ?_ fun never => never a.bytes isIn holds
          cases second.1.isNone <;> decide
      next fails =>
        refine (createIsZero_yields off query.typed width query.regularExpr).bind
          fun neg negation => ?_
        have negated : RegularQuery constraints neg :=
          query.of_expr negation.boolean.1 negation.regular negation.within
        refine (getAssignment_yields off asks kept negated negation.boolean.2).bind
          fun second isSecond => ?_
        refine yields_ok ⟨fun _ => ⟨_, rfl, ?_, ?_⟩, isSecond.2⟩
        · refine iff_of_false ?_ fun always => fails (always a.bytes isIn)
          cases second.1.isNone <;> decide
        · simp only [← negation.holds]
          rw [← isSecond.1.isNone_iff]
          cases second.1.isNone <;> decide
  exact asked.bind fun result isResult => ⟨_, settles_ok _, isResult⟩

end

theorem answer_yields (query : CexQuery) (admissible : query.Admissible)
    : Yields (fun fuel => setting.answer fuel state query) fun result =>
        CexAnswer.Correct query result.1 ∧ result.2.Correct := by
  cases query with
  | truth constraints expr => exact truth_yields off asks correct admissible.1 admissible.2
  | validity constraints expr =>
    exact validity_yields off asks correct admissible.1 admissible.2.1 admissible.2.2
  | value constraints expr =>
    exact value_yields off asks correct admissible.1 admissible.2.1 admissible.2.2
  | initialValues constraints expr objects =>
    exact initialValues_yields off asks correct admissible.1 admissible.2 objects

end Answers

open Classical in
/-- Some solution is found if there is one. -/
noncomputable def perfectCex : CexSetting where
  options := { comparesAll with ConstArrayOpt := false }
  less _ _ := false
  CexCacheTryAll := true
  order := id
  order_perm := .refl
  computeInitialValues constraints expr objects :=
    if solvable : ∃ bytes ∈ assignments constraints, ¬ expr.Holds bytes then
      some (objects.map (contents solvable.choose))
    else none

open Classical in
theorem perfectCex_correct : perfectCex.Correct where
  sound _ _ found := by
    obtain ⟨solvable, values⟩ := Option.dite_none_right_eq_some.mp found
    cases values
    exact ⟨_, solvable.choose_spec.1, solvable.choose_spec.2, rfl⟩
  complete _ _ found bytes isIn := by
    by_contra fails
    have solvable := dite_eq_right_iff.mp found ⟨bytes, isIn, fails⟩
    cases solvable

theorem inputByte_within (bytes : Assignment) : inputByte.Within bytes := by
  simp [Expr.Within, inputByte, Expr.reads, UpdateNode.reads, Expr.bits]

theorem inputByte_everywhere {property : Expr → Prop} (here : property inputByte)
    (constant : ∀ c, property (.constant c))
    : inputByte.Everywhere property := by
  refine everywhere_iff.mpr ⟨here, forall_mem_singleton.mpr ?_⟩
  exact everywhere_iff.mpr ⟨constant _, nofun⟩

/-- The byte is seven. -/
def isSeven : Expr :=
  .comparison .Eq (.constant ⟨8, 7#8⟩) inputByte

theorem isSeven_holds
    : isSeven.Holds bytes ↔ inputByte.bits bytes 8 = 7#8 := by
  simp only [isSeven, Expr.Holds, Expr.bits, Expr.getWidth, ComparisonKind.apply]
  generalize inputByte.bits bytes 8 = b
  revert b
  decide

end Woodpecker.Solvers
