import Woodpecker.Expressions.Basic
import Woodpecker.Support.TreeStream

/-! The path streams of the states of an execution.

A state that is forked off by an internal fork or a multi-way branch has the stream of the
state it was copied from, and both go on writing to it.
-/

namespace Woodpecker.Execution

open Expressions Library Support TreeStreamWriter
open Function (update update_comm update_idem update_of_ne update_self)

/-- `Solver::Validity` -/
inductive Validity where
  | True
  | False
  | Unknown
deriving DecidableEq, Repr

/-- The path writer, and the stream of every live state. -/
structure Paths (State : Type) where
  pathWriter : TreeStreamWriter
  pathOS : State → Option Nat

open Paths

variable {State : Type}

namespace Paths

/-- A decision in a path file. -/
def char (decision : Bool) : UInt8 :=
  if decision then 49 else 48

def chars (decisions : List Bool) : List UInt8 :=
  decisions.map char

/-- `state.pathOS << "1"` and `state.pathOS << "0"` -/
def decide (paths : Paths State) (state : State) (decision : Bool)
    : Except Fault (Paths State) := do
  match paths.pathOS state with
  | none => .error .badPointer
  | some os =>
    let pathWriter ← paths.pathWriter.write os [char decision]
    .ok { paths with pathWriter }

/-- The states for the two answers; they may be exchanged at random. -/
def sides (current other : State) (swapped : Bool) : State × State :=
  if swapped then (other, current) else (current, other)

variable [DecidableEq State]

/-- Both sides of a fork have stream `os`: the false state gets a new one, and the two
decisions are written.
-/
def writeSides (paths : Paths State) (os : Nat) (trueState falseState : State)
    : Except Fault (Paths State) := do
  let (pathWriter, child) := paths.pathWriter.openStream os
  let pathOS := Function.update paths.pathOS falseState (some child)
  let paths ← decide { pathWriter, pathOS } trueState true
  paths.decide falseState false

/-- What `Executor::fork` does to the streams once the solver has answered. -/
def fork (paths : Paths State) (current other : State) (isInternal : Bool) (res : Validity)
    (swapped : Bool)
    : Except Fault (Paths State) :=
  match res with
  | .True => if isInternal then .ok paths else paths.decide current true
  | .False => if isInternal then .ok paths else paths.decide current false
  | .Unknown =>
    match paths.pathOS current with
    | none => .error .badPointer
    | some os =>
      let copied := { paths with pathOS := Function.update paths.pathOS other (some os) }
      if isInternal then .ok copied
      else
        copied.writeSides os (sides current other swapped).1
          (sides current other swapped).2

/-- The states of a multi-way branch in the order in which they are made, each with the one
it is a copy of. The choices are random numbers.
-/
def copies (result : List State) : List (Nat × State) → List (State × State)
  | [] => []
  | (choice, ns) :: rest =>
    match result[choice % result.length]? with
    | none => []
    | some es => (es, ns) :: copies (result ++ [ns]) rest

/-- Copied states take a part of their source along. -/
def copyAlong {Part : Type} (part : State → Part) (pairs : List (State × State))
    : State → Part :=
  pairs.foldl (fun part pair => Function.update part pair.2 (part pair.1)) part

def branch (paths : Paths State) (state : State) (news : List (Nat × State)) : Paths State :=
  { paths with pathOS := copyAlong paths.pathOS (copies [state] news) }

/-- The path of a state is read for its test case. -/
def processTestCase (paths : Paths State) (state : State) : Except Fault (Paths State) := do
  match paths.pathOS state with
  | none => .error .badPointer
  | some os =>
    let (pathWriter, _) ← paths.pathWriter.readStream os
    .ok { paths with pathWriter }

def terminateState (paths : Paths State) (state : State) : Paths State :=
  { paths with pathOS := Function.update paths.pathOS state none }

end Paths

-- Executions

inductive PathEvent (State : Type) where
  | fork (current : State) (condition : Expr) (isInternal : Bool) (res : Validity)
    (swapped : Bool) (other : State)
  | branch (state : State) (news : List (Nat × State))
  | processTestCase (state : State)
  | terminateState (state : State)

namespace PathEvent

variable [DecidableEq State]

def serve (paths : Paths State) : PathEvent State → Except Fault (Paths State)
  | .fork current _ isInternal res swapped other => paths.fork current other isInternal res swapped
  | .branch state news => .ok (paths.branch state news)
  | .processTestCase state => paths.processTestCase state
  | .terminateState state => .ok (paths.terminateState state)

/-- Events happen to live states, and a state that is forked off is new. -/
def Legal (paths : Paths State) : PathEvent State → Prop
  | .fork current _ _ _ _ other =>
    paths.pathOS current ≠ none ∧ paths.pathOS other = none
  | .processTestCase state => paths.pathOS state ≠ none
  | _ => True

/-- A decision is noted if it counts. -/
def noted (counts : Bool) (before : List Bool) (answer : Bool) : List Bool :=
  if counts then before ++ [answer] else before

/-- The decisions of all states after an event. A decision counts if it is not internal and
its condition is symbolic.
-/
def decided (symbolic : Expr → Bool) (decisions : State → List Bool)
    : PathEvent State → State → List Bool
  | .fork current condition isInternal res swapped other =>
    let noted := noted (!isInternal && symbolic condition) (decisions current)
    match res with
    | .True => Function.update decisions current (noted true)
    | .False => Function.update decisions current (noted false)
    | .Unknown =>
      Function.update
        (Function.update decisions (Paths.sides current other swapped).1 (noted true))
        (Paths.sides current other swapped).2 (noted false)
  | .branch state news => Paths.copyAlong decisions (Paths.copies [state] news)
  | _ => decisions

end PathEvent

/-- The streams, with the decisions that each state has made. -/
structure Decided (State : Type) where
  paths : Paths State
  decisions : State → List Bool

inductive PathStep [DecidableEq State] (symbolic : Expr → Bool)
    : Except Fault (Decided State) → PathEvent State → Except Fault (Decided State) → Prop
  | serve (before : Decided State) (event : PathEvent State) (legal : event.Legal before.paths)
    : PathStep symbolic (.ok before) event
        ((event.serve before.paths).map (⟨·, event.decided symbolic before.decisions⟩))

/-- Reading the stream of any live state gives the decisions of that state. -/
def Decided.Readable (decided : Decided State) : Prop :=
  ∀ state os, decided.paths.pathOS state = some os
    → ∃ pathWriter, decided.paths.pathWriter.readStream os
        = .ok (pathWriter, Paths.chars (decided.decisions state))

namespace PathEvent

def Sound (transition : Transition (Except Fault (Decided State)) (PathEvent State)) : Prop :=
  ∃ decided, transition.after = .ok decided ∧ decided.Readable

/-- A decision that is written is a symbolic one, no other live state has the stream, and
there is a number for a new stream.
-/
def CarefulEvent (symbolic : Expr → Bool) (paths : Paths State) : PathEvent State → Prop
  | .fork current condition isInternal res _ _ => isInternal = false
      → symbolic condition = true
        ∧ (∀ other, other ≠ current → paths.pathOS other ≠ paths.pathOS current)
        ∧ (res = .Unknown → paths.pathWriter.ids < 2 ^ 31)
  | _ => True

def Careful (symbolic : Expr → Bool)
    (transition : Transition (Except Fault (Decided State)) (PathEvent State))
    : Prop :=
  ∀ before, transition.before = .ok before
    → CarefulEvent symbolic before.paths transition.label

end PathEvent

-- Streams and decisions

variable {symbolic : Expr → Bool} {paths : Paths State} {decisions : State → List Bool}
  {streams : Nat → List UInt8} {log : List (Entry UInt8)}

/-- The streams of live states are among those that are written. -/
def Paths.Known (paths : Paths State) : Prop :=
  ∀ state os, paths.pathOS state = some os → 0 < os ∧ os < paths.pathWriter.ids

/-- What is kept between events: the streams are written and have the decisions. -/
structure Decided.Kept (decided : Decided State) : Prop where
  known : decided.paths.Known
  streams : ∃ streams log, decided.paths.pathWriter.Writes streams log
    ∧ ∀ state os, decided.paths.pathOS state = some os
      → streams os = Paths.chars (decided.decisions state)

/-- The decisions are read exactly if they are what is written. -/
theorem readable_iff (writes : paths.pathWriter.Writes streams log) (known : paths.Known)
    : Decided.Readable ⟨paths, decisions⟩
      ↔ ∀ state os, paths.pathOS state = some os → streams os = chars (decisions state) := by
  refine forall_congr' fun state => forall_congr' fun os => imp_congr_right fun live => ?_
  obtain ⟨positive, isKnown⟩ := known state os live
  simp [writes.readStream positive isKnown]

variable {decided : Decided State}

theorem Decided.Kept.readable (kept : decided.Kept)
    : decided.Readable := by
  obtain ⟨known, streams, log, writes, same⟩ := kept
  exact (readable_iff writes known).mpr same

@[simp]
theorem chars_snoc (before : List Bool) (decision : Bool)
    : chars (before ++ [decision]) = chars before ++ [char decision] := by
  simp [chars]

/-- What is written is the decision that is noted exactly if it counts. -/
theorem chars_noted_iff {before : List Bool} {counts decision : Bool}
    : chars before ++ [char decision] = chars (PathEvent.noted counts before decision)
      ↔ counts = true := by
  cases counts <;> simp [PathEvent.noted]

variable {after : Paths State}

theorem decide_pathOS {state : State} {decision : Bool}
    (wrote : paths.decide state decision = .ok after)
    : after.pathOS = paths.pathOS := by
  unfold Paths.decide at wrote
  split at wrote
  · cases wrote
  obtain ⟨_, _, result⟩ := bind_eq_ok.mp wrote
  cases result
  rfl

variable {os : Nat}

/-- A decision is written to one stream. -/
theorem decide_spec (writes : paths.pathWriter.Writes streams log) (known : paths.Known)
    {state : State} (live : paths.pathOS state = some os) (decision : Bool)
    : ∃ pathWriter log', paths.decide state decision = .ok { paths with pathWriter }
        ∧ Known { paths with pathWriter }
        ∧ pathWriter.Writes (update streams os (streams os ++ [char decision])) log' := by
  obtain ⟨positive, isKnown⟩ := known state os live
  obtain ⟨pathWriter, log', wrote, ids, writes'⟩ := writes.write positive isKnown
    (s := [char decision]) (by simp [bufferSize])
  refine ⟨pathWriter, log', by simp [Paths.decide, live, wrote], ?_, writes'⟩
  rw [Known, ids]
  exact known

-- One event

/-- No other state has the stream of a state. -/
def Paths.Alone (paths : Paths State) (current : State) : Prop :=
  ∀ other, other ≠ current → paths.pathOS other ≠ paths.pathOS current

/-- An event ends with streams that can be read exactly if a condition holds, and what is
kept is kept then.
-/
def Agrees (result : Except Fault (Decided State)) (condition : Prop) : Prop :=
  ((∃ decided, result = .ok decided ∧ decided.Readable) ↔ condition)
  ∧ (condition → ∃ decided, result = .ok decided ∧ decided.Kept)

variable {condition : Prop}

theorem agrees_of_kept (kept : decided.Kept) (holds : condition)
    : Agrees (.ok decided) condition :=
  ⟨iff_of_true ⟨decided, rfl, kept.readable⟩ holds, fun _ => ⟨decided, rfl, kept⟩⟩

theorem agrees_of_writes (writes : paths.pathWriter.Writes streams log) (known : paths.Known)
    (condition_iff : (∀ state os, paths.pathOS state = some os
      → streams os = chars (decisions state)) ↔ condition)
    : Agrees (.ok ⟨paths, decisions⟩) condition := by
  refine ⟨?_, fun holds => ⟨_, rfl, known, streams, log, writes, condition_iff.mpr holds⟩⟩
  rw [← condition_iff, ← readable_iff writes known]
  constructor
  · rintro ⟨_, ⟨⟩, readable⟩
    exact readable
  · exact fun readable => ⟨_, rfl, readable⟩

variable [DecidableEq State] {current : State}

/-- A fork that the solver decides writes one decision. -/
theorem decide_agrees (kept : Decided.Kept ⟨paths, decisions⟩)
    (live : paths.pathOS current = some os) (counts answer : Bool)
    : Agrees ((paths.decide current answer).map (⟨·, update decisions current
          (PathEvent.noted counts (decisions current) answer)⟩))
        (counts = true ∧ paths.Alone current) := by
  obtain ⟨known, streams, log, writes, same⟩ := kept
  obtain ⟨pathWriter, log', wrote, known', writes'⟩ := decide_spec writes known live answer
  rw [wrote]
  apply agrees_of_writes writes' known'
  constructor
  · intro read
    constructor
    · have here := read current os live
      rw [update_self, update_self, same current os live] at here
      exact chars_noted_iff.mp here
    · intro other differ shared
      have there := read other os (shared.trans live)
      rw [update_self, update_of_ne differ, same other os (shared.trans live)] at there
      simp at there
  · rintro ⟨counts, alone⟩ state place isPlace
    by_cases isCurrent : state = current
    · subst isCurrent
      obtain rfl := Option.mem_unique live isPlace
      rw [update_self, update_self, same state os live]
      exact chars_noted_iff.mpr counts
    · have differ : place ≠ os := by
        rintro rfl
        exact alone state isCurrent (isPlace.trans live.symm)
      rw [update_of_ne differ, update_of_ne isCurrent]
      exact same state place isPlace

/-- Two parts that belong together are copied together, by induction on the copies. -/
theorem copyAlong_invariant {Part Whole : Type} {R : Part → Whole → Prop} {part : State → Part}
    {whole : State → Whole} (related : ∀ state, R (part state) (whole state))
    (pairs : List (State × State)) (state : State)
    : R (copyAlong part pairs state) (copyAlong whole pairs state) := by
  induction pairs generalizing part whole with
  | nil => exact related state
  | cons pair rest ih =>
    refine ih (fun other => ?_)
    by_cases same : other = pair.2
    · subst same
      simpa using related pair.1
    · simpa [update_of_ne same] using related other

variable {trueState falseState : State}

/-- Two states with one stream write their decisions to different streams. -/
theorem writeSides_spec (writes : paths.pathWriter.Writes streams log) (known : paths.Known)
    (differ : trueState ≠ falseState) (trueOS : paths.pathOS trueState = some os)
    (room : paths.pathWriter.ids < 2 ^ 31)
    : ∃ after streams' log', paths.writeSides os trueState falseState = .ok after
        ∧ after.pathOS = update paths.pathOS falseState (some paths.pathWriter.ids)
        ∧ after.Known ∧ after.pathWriter.Writes streams' log'
        ∧ streams' os = streams os ++ [char true]
        ∧ streams' paths.pathWriter.ids = streams os ++ [char false]
        ∧ ∀ place, place ≠ os → place ≠ paths.pathWriter.ids → streams' place = streams place := by
  obtain ⟨positive, isKnown⟩ := known trueState os trueOS
  obtain ⟨log₁, writes₁, ids₁, isChild⟩ := writes.openStream isKnown room
  have split : paths.pathWriter.openStream os
      = ((paths.pathWriter.openStream os).1, paths.pathWriter.ids) := Prod.ext rfl isChild
  generalize (paths.pathWriter.openStream os).1 = opened at writes₁ ids₁ split
  generalize isNew : paths.pathWriter.ids = child at *
  let pathOS := update paths.pathOS falseState (some child)
  have known₁ : Known ⟨opened, pathOS⟩ := by
    intro state place isPlace
    simp only [ids₁]
    by_cases isFalse : state = falseState
    · subst isFalse
      obtain rfl : child = place := by simpa [pathOS] using isPlace
      omega
    · have := known state place (by simpa [pathOS, isFalse] using isPlace)
      omega
  have trueOS₁ : pathOS trueState = some os := by simp [pathOS, differ, trueOS]
  obtain ⟨written, log₂, wrote, known₂, writes₂⟩ := decide_spec writes₁ known₁ trueOS₁ true
  have falseOS₂ : pathOS falseState = some child := by simp [pathOS]
  obtain ⟨finished, log₃, wrote', known₃, writes₃⟩ := decide_spec writes₂ known₂ falseOS₂ false
  have apart : os ≠ child := by omega
  refine ⟨⟨finished, pathOS⟩, _, log₃, ?_, rfl, known₃, writes₃, ?_, ?_, ?_⟩
  · simp only [writeSides, split]
    rw [wrote]
    exact wrote'
  · simp [update_of_ne apart]
  · simp [update_of_ne (Ne.symm apart)]
  · intro place notOS notChild
    simp [notOS, notChild]

/-- A fork with two states notes both decisions if no third state has the stream. -/
theorem writeSides_agrees (kept : Decided.Kept ⟨paths, decisions⟩) (differ : trueState ≠ falseState)
    (trueOS : paths.pathOS trueState = some os) (counts : Bool)
    : Agrees ((paths.writeSides os trueState falseState).map (⟨·, update (update decisions trueState
            (PathEvent.noted counts (decisions trueState) true)) falseState
          (PathEvent.noted counts (decisions trueState) false)⟩))
        (counts = true
          ∧ (∀ other, other ≠ trueState → other ≠ falseState → paths.pathOS other ≠ some os)
          ∧ paths.pathWriter.ids < 2 ^ 31) := by
  obtain ⟨known, streams, log, writes, same⟩ := kept
  have isTrue : streams os = chars (decisions trueState) := same trueState os trueOS
  by_cases room : paths.pathWriter.ids < 2 ^ 31
  · obtain ⟨after, streams', log', result, pathOS, known', writes', atOS, atChild, others⟩ :=
      writeSides_spec writes known differ trueOS room
    rw [result]
    apply agrees_of_writes writes' known'
    rw [pathOS]
    constructor
    · intro read
      refine ⟨?_, ?_, room⟩
      · have here := read trueState os (by rw [update_of_ne differ, trueOS])
        rw [update_of_ne differ, update_self, atOS, isTrue] at here
        exact chars_noted_iff.mp here
      · intro other notTrue notFalse shared
        have there := read other os (by rw [update_of_ne notFalse, shared])
        rw [update_of_ne notFalse, update_of_ne notTrue, atOS, same other os shared] at there
        simp at there
    · rintro ⟨isCounted, alone, -⟩ state place isPlace
      by_cases isFalse : state = falseState
      · subst isFalse
        rw [update_self] at isPlace ⊢
        cases isPlace
        rw [atChild, isTrue]
        exact chars_noted_iff.mpr isCounted
      · rw [update_of_ne isFalse] at isPlace ⊢
        by_cases isTrueState : state = trueState
        · subst isTrueState
          obtain rfl := Option.mem_unique trueOS isPlace
          rw [update_self, atOS, isTrue]
          exact chars_noted_iff.mpr isCounted
        · have isKnown := (known state place isPlace).2
          have notOS : place ≠ os := by
            rintro rfl
            exact alone state isTrueState isFalse isPlace
          rw [update_of_ne isTrueState, others place notOS (by simpa using isKnown.ne)]
          exact same state place isPlace
  · -- the new stream has no number that can be read
    refine ⟨iff_of_false ?_ (fun careful => room careful.2.2), fun careful =>
      absurd careful.2.2 room⟩
    rintro ⟨decided, isDecided, readable⟩
    cases wrote : paths.writeSides os trueState falseState with
    | error fault => simp [wrote, Except.map] at isDecided
    | ok after =>
      rw [wrote] at isDecided
      cases isDecided
      obtain ⟨first, isFirst, isAfter⟩ := bind_eq_ok.mp wrote
      obtain ⟨_, read⟩ := readable falseState paths.pathWriter.ids (by
        simp [decide_pathOS isAfter, decide_pathOS isFirst])
      exact readStream_ne_ok (by omega) _ read

/-- A copy of a state has the same stream and the same decisions. -/
theorem Decided.Kept.copyAlong (kept : Kept ⟨paths, decisions⟩) (pairs : List (State × State))
    : Kept ⟨{ paths with pathOS := copyAlong paths.pathOS pairs }, copyAlong decisions pairs⟩ := by
  obtain ⟨known, streams, log, writes, same⟩ := kept
  have both := copyAlong_invariant (R := fun stream noted => ∀ os, stream = some os
      → (0 < os ∧ os < paths.pathWriter.ids) ∧ streams os = chars noted)
    (fun state os live => ⟨known state os live, same state os live⟩) pairs
  exact ⟨fun state os live => (both state os live).1, streams, log, writes,
    fun state os live => (both state os live).2⟩

/-- An internal fork notes nothing. -/
theorem decided_internal {other : State} (differ : current ≠ other) (condition : Expr)
    (swapped : Bool)
    : PathEvent.decided symbolic decisions (.fork current condition true .Unknown swapped other)
      = copyAlong decisions [(current, other)] := by
  cases swapped <;>
    simp [PathEvent.decided, PathEvent.noted, sides, copyAlong, update_of_ne differ]

theorem fork_agrees {other : State} {condition : Expr} {isInternal swapped : Bool} {res : Validity}
    (kept : Decided.Kept ⟨paths, decisions⟩)
    (legal : PathEvent.Legal paths (.fork current condition isInternal res swapped other))
    : Agrees ((paths.fork current other isInternal res swapped).map
          (⟨·, PathEvent.decided symbolic decisions
            (.fork current condition isInternal res swapped other)⟩))
        (PathEvent.CarefulEvent symbolic paths
          (.fork current condition isInternal res swapped other)) := by
  obtain ⟨os, live⟩ := Option.ne_none_iff_exists'.mp legal.1
  have differ : current ≠ other := by
    rintro rfl
    exact legal.1 legal.2
  cases isInternal with
  | true =>
    have careful : PathEvent.CarefulEvent symbolic paths
        (.fork current condition true res swapped other) := by
      simp [PathEvent.CarefulEvent]
    cases res with
    | Unknown =>
      rw [decided_internal differ, fork]
      simp only [live, if_true]
      have copied := kept.copyAlong [(current, other)]
      simp [copyAlong, live] at copied
      exact agrees_of_kept copied careful
    | True | False =>
      refine agrees_of_kept ?_ careful
      simpa [PathEvent.decided, PathEvent.noted] using kept
  | false =>
    simp only [fork, PathEvent.CarefulEvent, PathEvent.decided, Bool.false_eq_true,
      if_false, Bool.not_false, Bool.true_and, forall_const]
    cases res with
    | True =>
      simpa [Alone] using decide_agrees kept live (symbolic condition) true
    | False =>
      simpa [Alone] using decide_agrees kept live (symbolic condition) false
    | Unknown =>
      have copied := kept.copyAlong [(current, other)]
      simp [copyAlong, live] at copied
      -- no third state has the stream exactly if the current state had it alone
      have alone : (∀ state, state ≠ current → state ≠ other
            → update paths.pathOS other (some os) state ≠ some os)
          ↔ ∀ state, state ≠ current → paths.pathOS state ≠ some os := by
        refine forall_congr' fun state => imp_congr_right fun _ => ?_
        by_cases isOther : state = other
        · simp [isOther, legal.2]
        · simp [isOther]
      simp only [live, forall_const]
      rw [← alone]
      cases swapped with
      | false =>
        have trueOS : update paths.pathOS other (some os) current = some os := by
          rw [update_of_ne differ, live]
        have agrees := writeSides_agrees copied differ trueOS (symbolic condition)
        rw [update_of_ne differ] at agrees
        simpa [sides, update_comm differ] using agrees
      | true =>
        have trueOS : update paths.pathOS other (some os) other = some os :=
          update_self ..
        have agrees := writeSides_agrees copied (Ne.symm differ) trueOS (symbolic condition)
        have order : (∀ state, state ≠ other → state ≠ current
              → update paths.pathOS other (some os) state ≠ some os)
            ↔ ∀ state, state ≠ current → state ≠ other
              → update paths.pathOS other (some os) state ≠ some os :=
          forall_congr' fun _ => imp.swap
        rw [update_self, update_idem, order] at agrees
        simpa [sides] using agrees

/-- One event: streams can be read afterwards exactly if the event is careful. -/
theorem PathStep.sound_iff {before : Decided State} {event : PathEvent State}
    {after : Except Fault (Decided State)} (step : PathStep symbolic (.ok before) event after)
    (kept : before.Kept)
    : Agrees after (event.CarefulEvent symbolic before.paths) := by
  cases step with
  | serve _ _ legal =>
    cases event with
    | fork current condition isInternal res swapped other => exact fork_agrees kept legal
    | branch state news => exact agrees_of_kept (kept.copyAlong _) trivial
    | processTestCase state =>
      obtain ⟨known, streams, log, writes, same⟩ := kept
      obtain ⟨os, live⟩ := Option.ne_none_iff_exists'.mp legal
      obtain ⟨positive, isKnown⟩ := known state os live
      have read : before.paths.processTestCase state
          = .ok { before.paths with pathWriter := before.paths.pathWriter.flushBuffer } := by
        simp [processTestCase, live, writes.readStream positive isKnown]
      simp only [PathEvent.serve, read]
      refine agrees_of_kept ⟨?_, streams, _, writes.flushBuffer, same⟩ trivial
      intro state os live
      simpa using known state os live
    | terminateState state =>
      obtain ⟨known, streams, log, writes, same⟩ := kept
      have still (other : State) (os : Nat)
          (live : update before.paths.pathOS state none other = some os)
          : before.paths.pathOS other = some os := by
        by_cases isState : other = state
        · simp [isState] at live
        · simpa [isState] using live
      exact agrees_of_kept ⟨fun other os live => known other os (still other os live),
        streams, log, writes, fun other os live => same other os (still other os live)⟩
        trivial

-- Runs

/-- The first state has a stream of its own and has decided nothing. -/
def Decided.start (initial : State) : Decided State where
  paths :=
    { pathWriter := (TreeStreamWriter.new.openStream 0).1
      pathOS := Function.update (fun _ => none) initial
        (some (TreeStreamWriter.new.openStream 0).2) }
  decisions _ := []

theorem kept_start (initial : State) : (Decided.start initial).Kept := by
  obtain ⟨log, writes, ids, isFirst⟩ := writes_new.openStream (by decide : 0 < new.ids) (by decide)
  have only (state : State) (os : Nat)
      (live : (Decided.start initial).paths.pathOS state = some os) : os = 1 := by
    by_cases isInitial : state = initial
    · subst isInitial
      simp only [Decided.start, update_self, isFirst] at live
      exact (Option.some.inj live).symm
    · simp [Decided.start, isInitial] at live
  refine ⟨?_, _, log, writes, ?_⟩
  · intro state os live
    obtain rfl := only state os live
    exact ⟨by decide, by rw [Decided.start, ids]; decide⟩
  · intro state os live
    simp [Decided.start, chars, new]

/-- In every execution, the streams of live states can be read throughout exactly when
every event is careful.
-/
theorem sound_iff_careful_paths {initial : State}
    {trace : List (Transition (Except Fault (Decided State)) (PathEvent State))}
    {finish : Except Fault (Decided State)}
    (run : Run (Takes (PathStep symbolic)) (.ok (.start initial)) trace finish)
    : (∀ transition ∈ trace, PathEvent.Sound transition)
      ↔ ∀ transition ∈ trace, PathEvent.Careful symbolic transition :=
  run.forall_iff_ok (kept_start initial) PathStep.sound_iff

/-- A condition that is not decided by itself. -/
def someCondition : Expr :=
  .notOptimized (.constant ⟨1, 1⟩)

/-- Witness: a state is split off by a branch and terminated before the other one forks. -/
theorem sound_iff_careful_paths_ended
    : ∃ trace finish, Run (Takes (PathStep fun _ => true)) (.ok (.start (0 : Fin 2))) trace finish
        ∧ trace.map Transition.label
          = [.branch 0 [(0, 1)], .terminateState 1, .fork 0 someCondition false .Unknown false 1]
        ∧ ∀ transition ∈ trace, PathEvent.Sound transition := by
  have first : PathStep (fun _ => true) (.ok (.start (0 : Fin 2))) (.branch 0 [(0, 1)]) _ :=
    .serve _ _ trivial
  have branched := Run.nil.record first
  have ended := branched.record (PathStep.serve ⟨_, _⟩ (.terminateState 1) trivial)
  have run := ended.record (PathStep.serve ⟨_, _⟩ (.fork 0 someCondition false .Unknown false 1) (by
      simp only [PathEvent.Legal]
      decide))
  refine ⟨_, _, run, rfl, (sound_iff_careful_paths run).mpr ?_⟩
  intro transition member before isBefore
  simp at member
  rcases member with rfl | rfl | rfl
  · trivial
  · trivial
  cases isBefore
  simp only [PathEvent.CarefulEvent, forall_const]
  decide

/-- The streams and decisions after some events. -/
def serveAll (symbolic : Expr → Bool) (decided : Decided State)
    : List (PathEvent State) → Except Fault (Decided State)
  | [] => .ok decided
  | event :: rest => do
    let paths ← event.serve decided.paths
    serveAll symbolic ⟨paths, event.decided symbolic decided.decisions⟩ rest

/-- State 1 is split off from state 0 by an internal fork, and then state 0 decides a branch:
the decision is read for state 1, which has decided nothing.
-/
theorem internal_fork_shares
    : (serveAll (fun _ => true) (.start (0 : Fin 2)) [.fork 0 someCondition true .Unknown false 1,
          .fork 0 someCondition false .True false 1]).map
        (fun decided => (decided.paths.pathOS 1, decided.decisions 1,
          (decided.paths.pathWriter.readStream 1).map (·.2)))
      = .ok (some 1, [], .ok (Paths.chars [true])) := by
  decide +kernel

end Woodpecker.Execution
