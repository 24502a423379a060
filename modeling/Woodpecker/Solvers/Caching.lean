import Woodpecker.Execution.Solving
import Woodpecker.Library.Tables

/-! The cache of validities.

For a condition and its negation one entry is kept, for the one that compares less, with what
is known of its validity. Whatever was asked before, an entry is true of its query and an answer
is right.
-/

namespace Woodpecker.Solvers

open Expressions Library Execution

-- Model

/-- `IncompleteSolver::PartialValidity` -/
inductive PartialValidity where
  | None
  | MustBeTrue
  | MustBeFalse
  | MayBeTrue
  | MayBeFalse
  | TrueOrFalse
deriving DecidableEq, Repr

def negatePartialValidity : PartialValidity → Except Fault PartialValidity
  | .None => .error .assertion
  | .MustBeTrue => .ok .MustBeFalse
  | .MustBeFalse => .ok .MustBeTrue
  | .MayBeTrue => .ok .MayBeFalse
  | .MayBeFalse => .ok .MayBeTrue
  | .TrueOrFalse => .ok .TrueOrFalse

/-- What is known of a query as what is known of its canonical query, and back. -/
def orient (negationUsed : Bool) (known : PartialValidity) : Except Fault PartialValidity :=
  if negationUsed then negatePartialValidity known else .ok known

/-- How expressions are made, whether one compares less than another, and the answers of the
solver that is asked, which may fail.
-/
structure CachingSetting where
  options : Options
  less : Expr → Expr → Bool
  solverTruth : ConstraintManager → Expr → Option Bool
  solverValidity : ConstraintManager → Expr → Option Validity

abbrev ValidityCache := Table (List Expr × Expr) PartialValidity

namespace CachingSetting

variable (setting : CachingSetting) (cache : ValidityCache) (constraints : ConstraintManager)
  (query : Expr)

/-- The canonical query, and whether it is the negated one. -/
def canonicalizeQuery : Except Fault (Expr × Bool) := do
  let negatedQuery ← query.createIsZero setting.options
  .ok (if setting.less query negatedQuery then (query, false) else (negatedQuery, true))

def cacheLookup : Except Fault (Option PartialValidity) := do
  let canonical ← setting.canonicalizeQuery query
  match cache.find? (constraints.constraints, canonical.1) with
  | some found => do
    let result ← orient canonical.2 found
    .ok (some result)
  | none => .ok none

/-- An entry that is there is kept. -/
def cacheInsert (result : PartialValidity) : Except Fault ValidityCache := do
  let canonical ← setting.canonicalizeQuery query
  let cachedResult ← orient canonical.2 result
  let entry := (constraints.constraints, canonical.1)
  .ok (if (cache.find? entry).isSome then cache else (entry, cachedResult) :: cache)

/-- What is noted for a validity. -/
def partialValidity : Validity → PartialValidity
  | .True => .MustBeTrue
  | .False => .MustBeFalse
  | .Unknown => .TrueOrFalse

/-- A validity is noted and returned. -/
def insertValidity : Option Validity → Except Fault (Option Validity × ValidityCache)
  | none => .ok (none, cache)
  | some result => do
    let cache ← setting.cacheInsert cache constraints query (partialValidity result)
    .ok (some result, cache)

def computeValidity : Except Fault (Option Validity × ValidityCache) := do
  match ← setting.cacheLookup cache constraints query with
  | some .MustBeTrue => .ok (some .True, cache)
  | some .MustBeFalse => .ok (some .False, cache)
  | some .TrueOrFalse => .ok (some .Unknown, cache)
  | some .MayBeTrue =>
    let tmp := setting.solverTruth constraints query
    setting.insertValidity cache constraints query
      (tmp.map fun isTrue => if isTrue then .True else .Unknown)
  | some .MayBeFalse => do
    let tmp := setting.solverTruth constraints (← query.createIsZero setting.options)
    setting.insertValidity cache constraints query
      (tmp.map fun isFalse => if isFalse then .False else .Unknown)
  | some .None => .error .assertion
  | none =>
    setting.insertValidity cache constraints query (setting.solverValidity constraints query)

/-- The solver is asked, and what is noted of a query that is not valid is given. -/
def insertTruth (invalid : PartialValidity) : Except Fault (Option Bool × ValidityCache) := do
  match setting.solverTruth constraints query with
  | none => .ok (none, cache)
  | some isValid => do
    let cache ← setting.cacheInsert cache constraints query
      (if isValid then .MustBeTrue else invalid)
    .ok (some isValid, cache)

def computeTruth : Except Fault (Option Bool × ValidityCache) := do
  match ← setting.cacheLookup cache constraints query with
  | some .MayBeTrue => setting.insertTruth cache constraints query .TrueOrFalse
  | some cachedResult => .ok (some (cachedResult = .MustBeTrue), cache)
  | none => setting.insertTruth cache constraints query .MayBeFalse

end CachingSetting

inductive Request where
  | truth (constraints : ConstraintManager) (query : Expr)
  | validity (constraints : ConstraintManager) (query : Expr)

/-- What is returned for a request. There is nothing if the solver fails. -/
inductive Answer where
  | truth (isValid : Option Bool)
  | validity (result : Option Validity)

namespace CachingSetting

def answer (setting : CachingSetting) (cache : ValidityCache)
    : Request → Except Fault (Answer × ValidityCache)
  | .truth constraints query => do
    let result ← setting.computeTruth cache constraints query
    .ok (.truth result.1, result.2)
  | .validity constraints query => do
    let result ← setting.computeValidity cache constraints query
    .ok (.validity result.1, result.2)

/-- One request after the other. -/
def answers (setting : CachingSetting) (cache : ValidityCache)
    : List Request → Except Fault (List Answer × ValidityCache)
  | [] => .ok ([], cache)
  | request :: rest => do
    let (first, cache) ← setting.answer cache request
    let (others, cache) ← setting.answers cache rest
    .ok (first :: others, cache)

end CachingSetting

-- What is right

def Always (constraints : ConstraintManager) (query : Expr) : Prop :=
  ∀ bytes ∈ assignments constraints, query.Holds bytes

def Never (constraints : ConstraintManager) (query : Expr) : Prop :=
  ∀ bytes ∈ assignments constraints, ¬ query.Holds bytes

/-- What is known of a query that holds always, never, or neither. `None` is not kept for any. -/
def PartialValidity.TrueOf (always never : Prop) : PartialValidity → Prop
  | .None => False
  | .MustBeTrue => always
  | .MustBeFalse => never
  | .MayBeTrue => ¬ never
  | .MayBeFalse => ¬ always
  | .TrueOrFalse => ¬ always ∧ ¬ never

def ValidityCache.Correct (cache : ValidityCache) : Prop :=
  ∀ constraints query known, ((constraints, query), known) ∈ cache
    → known.TrueOf (Always ⟨constraints⟩ query) (Never ⟨constraints⟩ query)

def Answer.Correct : Request → Answer → Prop
  | .truth constraints query, .truth isValid =>
    ∀ answer ∈ isValid, (answer = true ↔ Always constraints query)
  | .validity constraints query, .validity result =>
    ∀ answer ∈ result,
      (answer = .True ↔ Always constraints query) ∧ (answer = .False ↔ Never constraints query)
  | _, _ => False

/-- A condition under constraints that can be satisfied. With the option for constant arrays,
reads are in bounds.
-/
structure Admissible (options : Options) (constraints : ConstraintManager) (query : Expr)
    : Prop where
  feasible : (assignments constraints).Nonempty
  boolean : query.Boolean
  bounded : ∀ bytes ∈ assignments constraints,
    options.ConstArrayOpt = true → query.InBounds bytes

/-- The answers of the solver are right. -/
structure CachingSetting.Correct (setting : CachingSetting) : Prop where
  truth : ∀ {constraints query}, (assignments constraints).Nonempty → query.Boolean
    → Answer.Correct (.truth constraints query) (.truth (setting.solverTruth constraints query))
  validity : ∀ {constraints query}, (assignments constraints).Nonempty → query.Boolean
    → Answer.Correct (.validity constraints query)
        (.validity (setting.solverValidity constraints query))

def Request.Admissible (options : Options) : Request → Prop
  | .truth constraints query | .validity constraints query =>
    Solvers.Admissible options constraints query

-- The cache

variable {setting : CachingSetting} {cache : ValidityCache} {constraints : ConstraintManager}
  {query : Expr} {known : PartialValidity} {always never : Prop}

theorem orient_yields (negationUsed : Bool) (isTrue : known.TrueOf always never)
    : Yields (fun _ => orient negationUsed known) (·.TrueOf (if negationUsed then never else always)
          (if negationUsed then always else never)) := by
  cases negationUsed with
  | false => exact yields_ok isTrue
  | true =>
    cases known with
    | None => exact isTrue.elim
    | TrueOrFalse => exact yields_ok isTrue.symm
    | _ => exact yields_ok isTrue

section

variable (admissible : Admissible setting.options constraints query)
include admissible

theorem not_always_never : ¬ (Always constraints query ∧ Never constraints query) := by
  obtain ⟨bytes, isIn⟩ := admissible.feasible
  exact fun both => both.2 bytes isIn (both.1 bytes isIn)

open CachingSetting in
/-- What is noted for a validity is true if and only if the validity is right. -/
theorem noted_iff (validity : Validity)
    : (partialValidity validity).TrueOf (Always constraints query) (Never constraints query)
      ↔ Answer.Correct (.validity constraints query) (.validity (some validity)) := by
  have notBoth := not_always_never admissible
  cases validity <;> simp [partialValidity, PartialValidity.TrueOf, Answer.Correct] <;> tauto

theorem negated_yields
    : Yields (fun _ => query.createIsZero setting.options) fun negated =>
        negated.Boolean ∧ (Always constraints negated ↔ Never constraints query)
          ∧ (Never constraints negated ↔ Always constraints query) := by
  have decides : Decides setting.options constraints query (query.Holds ·) :=
    fun bytes isIn => ⟨_, ⟨admissible.boolean.1, admissible.boolean.2,
      admissible.bounded bytes isIn, rfl⟩, Iff.rfl⟩
  refine (isZero_yields admissible.feasible decides).mono fun negated opposite => ?_
  refine ⟨opposite.boolean admissible.feasible, ?_, ?_⟩
  · exact forall₂_congr fun bytes isIn => opposite.holds_iff isIn
  · exact forall₂_congr fun bytes isIn => (not_congr (opposite.holds_iff isIn)).trans not_not

/-- The canonical query says what the query says, or the opposite. -/
theorem canonicalizeQuery_yields
    : Yields (fun _ => setting.canonicalizeQuery query) fun canonical =>
        (Always constraints canonical.1
          ↔ if canonical.2 then Never constraints query else Always constraints query)
        ∧ (Never constraints canonical.1
          ↔ if canonical.2 then Always constraints query else Never constraints query) := by
  refine (negated_yields admissible).bind fun negated opposite => yields_ok ?_
  split
  · exact ⟨Iff.rfl, Iff.rfl⟩
  · exact opposite.2

variable (correct : cache.Correct)
include correct

theorem cacheLookup_yields
    : Yields (fun _ => setting.cacheLookup cache constraints query) fun found =>
        ∀ known, found = some known
          → known.TrueOf (Always constraints query) (Never constraints query) := by
  refine (canonicalizeQuery_yields admissible).bind fun canonical turned => ?_
  split
  next found inCache =>
    have isTrue := correct _ _ _ (Table.mem_of_find? inCache)
    rw [turned.1, turned.2] at isTrue
    refine (orient_yields canonical.2 isTrue).bind fun result resultTrue => yields_ok ?_
    rintro _ ⟨⟩
    cases negated : canonical.2 <;> simpa [negated] using resultTrue
  · exact yields_ok nofun

theorem cacheInsert_yields
    (isTrue : known.TrueOf (Always constraints query) (Never constraints query))
    : Yields (fun _ => setting.cacheInsert cache constraints query known) (·.Correct) := by
  refine (canonicalizeQuery_yields admissible).bind fun canonical turned => ?_
  refine (orient_yields canonical.2 isTrue).bind fun cachedResult cachedTrue => yields_ok ?_
  split
  · exact correct
  · intro constraints query known isIn
    rcases List.mem_cons.mp isIn with new | old
    · cases new
      rw [turned.1, turned.2]
      exact cachedTrue
    · exact correct constraints query known old

theorem insertValidity_yields {result : Option Validity}
    (right : Answer.Correct (.validity constraints query) (.validity result))
    : Yields (fun _ => setting.insertValidity cache constraints query result) fun answer =>
        Answer.Correct (.validity constraints query) (.validity answer.1)
          ∧ answer.2.Correct := by
  cases result with
  | none => exact yields_ok ⟨right, correct⟩
  | some validity =>
    refine (cacheInsert_yields admissible correct ((noted_iff admissible _).mpr ?_)).bind ?_
    · exact right
    · exact fun _ isCorrect => yields_ok ⟨right, isCorrect⟩

variable (solver : setting.Correct)
include solver

theorem insertTruth_yields {invalid : PartialValidity} (isTrue : ¬ Always constraints query
      → invalid.TrueOf (Always constraints query) (Never constraints query))
    : Yields (fun _ => setting.insertTruth cache constraints query invalid) fun result =>
        Answer.Correct (.truth constraints query) (.truth result.1) ∧ result.2.Correct := by
  have right := solver.truth admissible.feasible admissible.boolean
  unfold CachingSetting.insertTruth
  rcases asked : setting.solverTruth constraints query with _ | isValid
  · exact yields_ok ⟨nofun, correct⟩
  rw [asked] at right
  refine (cacheInsert_yields admissible correct ?_).bind fun _ isCorrect =>
    yields_ok ⟨right, isCorrect⟩
  split
  next valid => exact (right _ rfl).mp valid
  next notValid => exact isTrue (mt (right _ rfl).mpr notValid)

theorem computeTruth_yields
    : Yields (fun _ => setting.computeTruth cache constraints query) fun result =>
        Answer.Correct (.truth constraints query) (.truth result.1) ∧ result.2.Correct := by
  refine (cacheLookup_yields admissible correct).bind fun found isTrue => ?_
  split
  · refine insertTruth_yields admissible correct solver fun notAlways => ?_
    exact ⟨notAlways, isTrue _ rfl⟩
  next cachedResult _ =>
    have notBoth := not_always_never admissible
    refine yields_ok ⟨?_, correct⟩
    cases cachedResult <;> simp_all [Answer.Correct, PartialValidity.TrueOf]
  · exact insertTruth_yields admissible correct solver id

theorem computeValidity_yields
    : Yields (fun _ => setting.computeValidity cache constraints query) fun result =>
        Answer.Correct (.validity constraints query) (.validity result.1)
          ∧ result.2.Correct := by
  have noted := noted_iff admissible
  refine (cacheLookup_yields admissible correct).bind fun found isTrue => ?_
  split
  · exact yields_ok ⟨(noted _).mp (isTrue _ rfl), correct⟩
  · exact yields_ok ⟨(noted _).mp (isTrue _ rfl), correct⟩
  · exact yields_ok ⟨(noted _).mp (isTrue _ rfl), correct⟩
  · refine insertValidity_yields admissible correct fun answer isAnswer => ?_
    obtain ⟨isValid, asked, rfl⟩ := Option.map_eq_some_iff.mp isAnswer
    have right := solver.truth admissible.feasible admissible.boolean _ asked
    refine (noted _).mp ?_ _ rfl
    split
    next valid => exact right.mp valid
    next notValid => exact ⟨mt right.mpr notValid, isTrue _ rfl⟩
  · refine (negated_yields admissible).bind fun negated opposite => ?_
    refine insertValidity_yields admissible correct fun answer isAnswer => ?_
    obtain ⟨isValid, asked, rfl⟩ := Option.map_eq_some_iff.mp isAnswer
    have right := (solver.truth admissible.feasible opposite.1 _ asked).trans opposite.2.1
    refine (noted _).mp ?_ _ rfl
    split
    next valid => exact right.mp valid
    next notValid => exact ⟨isTrue _ rfl, mt right.mpr notValid⟩
  · exact (isTrue _ rfl).elim
  · have right := solver.validity admissible.feasible admissible.boolean
    exact insertValidity_yields admissible correct right

end

/-- Every request is answered, rightly, and the cache stays right, by induction on the requests. -/
theorem answers_yields {requests : List Request} (solver : setting.Correct)
    (correct : cache.Correct)
    (admissible : ∀ request ∈ requests, request.Admissible setting.options)
    : Yields (fun _ => setting.answers cache requests) fun result =>
        List.Forall₂ Answer.Correct requests result.1 ∧ result.2.Correct := by
  induction requests generalizing cache with
  | nil => exact yields_ok ⟨.nil, correct⟩
  | cons first rest ih =>
    obtain ⟨isAdmissible, areAdmissible⟩ := List.forall_mem_cons.mp admissible
    have one : Yields (fun _ => setting.answer cache first) fun result =>
        Answer.Correct first result.1 ∧ result.2.Correct := by
      cases first with
      | truth constraints query =>
        exact (computeTruth_yields isAdmissible correct solver).bind fun _ => (yields_ok ·)
      | validity constraints query =>
        exact (computeValidity_yields isAdmissible correct solver).bind fun _ => (yields_ok ·)
    refine one.bind fun result right => (ih right.2 areAdmissible).bind ?_
    exact fun others rest => yields_ok ⟨.cons right.1 rest.1, rest.2⟩

/-- Whatever requests are put to a caching solver, each is answered as it should be, and what the
cache has for a canonical query is true of it.
-/
theorem cachingSolver_correct (setting : CachingSetting) (requests : List Request)
    (solver : setting.Correct)
    (admissible : ∀ request ∈ requests, request.Admissible setting.options)
    : ∃ answers cache, setting.answers [] requests = .ok (answers, cache)
        ∧ List.Forall₂ Answer.Correct requests answers ∧ ValidityCache.Correct cache := by
  have empty : ValidityCache.Correct [] := fun _ _ _ isIn => nomatch isIn
  obtain ⟨result, returned, right⟩ := yields_const.mp (answers_yields solver empty admissible)
  exact ⟨result.1, result.2, returned, right⟩

/-- Whether a byte is seven. -/
def sevenQuery : Expr :=
  .comparison .Eq (.constant ⟨8, 7#8⟩) inputByte

noncomputable def perfectSetting : CachingSetting where
  options := comparesAll
  less := fun _ _ => false
  solverTruth := fun constraints query => some (perfectSolver.mustBeTrue constraints query)
  solverValidity := fun constraints query => some (perfectSolver.evaluate constraints query)

/-- Witness: the truth is asked for, and then the validity. -/
theorem cachingSolver_correct_seven
    : ∃ answers cache, perfectSetting.answers [] [.truth ⟨[]⟩ sevenQuery, .validity ⟨[]⟩ sevenQuery]
          = .ok (answers, cache) ∧ answers.length = 2 ∧ ValidityCache.Correct cache := by
  have admissible : Admissible comparesAll ⟨[]⟩ sevenQuery := by
    refine ⟨⟨fun _ _ => 0#8, nofun⟩, ?_, ?_⟩
    · simp [sevenQuery, Expr.Boolean, Expr.Typed, Expr.getWidth]
    · simp [sevenQuery, Expr.InBounds]
  have solver : perfectSetting.Correct := by
    constructor
    · rintro constraints query feasible boolean _ ⟨⟩
      exact perfectSolver_correct.mustBeTrue feasible boolean
    · rintro constraints query feasible boolean _ ⟨⟩
      exact ⟨perfectSolver_correct.evaluate_true feasible boolean,
        perfectSolver_correct.evaluate_false feasible boolean⟩
  obtain ⟨answers, cache, returned, right, isCorrect⟩ := cachingSolver_correct perfectSetting
    [.truth ⟨[]⟩ sevenQuery, .validity ⟨[]⟩ sevenQuery] solver
    (by simp [Request.Admissible, admissible, perfectSetting])
  exact ⟨answers, cache, returned, right.length_eq.symm, isCorrect⟩

end Woodpecker.Solvers
