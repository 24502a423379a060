import Woodpecker.Checkers.OpenClose
import Woodpecker.Library.Runs

/-! Streams that are opened and closed by native and by interpreted code.

The checker keeps the two kinds in sets of their own, and a stream is looked for only in the
set of the code that closes it. The allocation site of a stream of interpreted code is found
through an element of the set, which is erased before the site is.
-/

namespace Woodpecker.Checkers

open Library List Option
open Function (update update_eq_self)

/-- The equality of two constants is a constant, which the solver reads off. -/
def Memory.DecidesConstants (memory : Memory) : Prop :=
  ∀ first second,
    memory.mustBeEqual (.constant first) (.constant second) = some (decide (first = second))

namespace OpenCloseChecker

/-- Which code opens or closes a stream, and so by which hook the checker learns of it. -/
inductive Route where
  | native
  | interpreted
deriving DecidableEq, Repr

structure Stream where
  route : Route
  site : AllocInfo
deriving DecidableEq, Repr

/-- The checker with the streams that are open, by handle. -/
structure Streams where
  checker : OpenCloseChecker
  opened : UInt64 → Option Stream

open Streams

def Streams.start : Streams where
  checker := create
  opened := fun _ => none

inductive Event where
  | onCall (memory : Memory) (call : Call)
  | onRet (memory : Memory) (ret : Return)

def respond (checker : OpenCloseChecker)
    : Event → Except Fault (OpenCloseChecker × Result)
  | .onCall memory call => checker.onCall memory call
  | .onRet memory ret => .ok (checker.onRet memory ret)

/-- What an event does to the open streams. A stream that interpreted code closes may lie in
the array of the standard streams.
-/
inductive Operation where
  | openStream (fd : UInt64) (stream : Stream)
  | closeNative (fd : UInt64)
  | closeInterpreted (fd : UInt64) (standard : Bool)

/-- The handle that is closed. -/
def Operation.closed : Operation → Option UInt64
  | .openStream _ _ => none
  | .closeNative fd => some fd
  | .closeInterpreted fd _ => some fd

def advance (opened : UInt64 → Option Stream) : Operation → UInt64 → Option Stream
  | .openStream fd stream => Function.update opened fd (some stream)
  | .closeNative fd => Function.update opened fd none
  | .closeInterpreted fd _ => Function.update opened fd none

/-- An event with what it does, if it is more than the call of an interpreted function that
opens a stream or the return of one that closes it.
-/
structure Label where
  event : Event
  operation : Option Operation

/-- The streams after an event. -/
def Label.opened (label : Label) (before : UInt64 → Option Stream) : UInt64 → Option Stream :=
  label.operation.elim before (advance before)

/-- The events of streams with constant handles that are not null and not open when they are
returned. A node that a set refers to is not allocated again, and an open stream of native
code lies in no object of the program.
-/
inductive Legal (streams : Streams) : Event → Option Operation → Prop
  | nativeOpen {memory : Memory} {call : Call} {args : Nat → UInt64}
    (words : call.args = some args) (opens : isOpen call.funcname = true)
    (nonnull : args 0 ≠ 0) (unused : streams.opened (args 0) = none)
    : Legal streams (.onCall memory call) (some (.openStream (args 0) ⟨.native, call.site⟩))
  | nativeClose {memory : Memory} {call : Call} {args : Nat → UInt64}
    (words : call.args = some args) (closes : call.funcname = "fclose")
    (nonnull : args 2 ≠ 0)
    : Legal streams (.onCall memory call) (some (.closeNative (args 2)))
  | interpretedCall {memory : Memory} {call : Call}
    (words : call.args = none) (opens : isOpen call.funcname = true)
    : Legal streams (.onCall memory call) none
  | interpretedOpen {memory : Memory} {ret : Return} {funcname : String} {fd : UInt64}
    (target : ret.funcname = some funcname) (opens : isOpen funcname = true)
    (constant : ret.result.expr = .constant fd)
    (nonnull : fd ≠ 0) (unused : streams.opened fd = none)
    (allocated : ∀ ref ∈ streams.checker.open_fds_exp, ref.node ≠ ret.result.node)
    : Legal streams (.onRet memory ret) (some (.openStream fd ⟨.interpreted, ret.site⟩))
  | interpretedClose {memory : Memory} {call : Call} {fd : UInt64}
    (words : call.args = none) (closes : call.funcname = "fclose")
    (constant : (call.arguments 0).expr = .constant fd)
    (nonnull : fd ≠ 0) (decides : memory.DecidesConstants)
    (apart : ∀ site, streams.opened fd = some ⟨.native, site⟩ →
      isStdioStream memory (call.arguments 0) = false)
    : Legal streams (.onCall memory call)
        (some (.closeInterpreted fd (isStdioStream memory (call.arguments 0))))
  | interpretedReturn {memory : Memory} {ret : Return}
    (target : ret.funcname = some "fclose")
    : Legal streams (.onRet memory ret) none

inductive Step : Except Fault Streams → Label → Except Fault Streams → Prop
  | deliver (streams : Streams) (label : Label)
    (legal : Legal streams label.event label.operation)
    : Step (.ok streams) label
        ((streams.checker.respond label.event).map fun outcome =>
          ⟨outcome.1, label.opened streams.opened⟩)

/-- A close is an error exactly when the stream is not open. -/
def Correct (streams : Streams) (operation : Option Operation) (result : Result) : Prop :=
  ∀ fd, operation.bind Operation.closed = some fd → (IsError result ↔ streams.opened fd = none)

/-- The streams the checker takes for open have the records of their own opening. -/
structure Recorded (streams : Streams) : Prop where
  native : ∀ fd ∈ streams.checker.open_fds, ∃ site,
    streams.checker.open_fds_allocinfo.find? fd = some site
    ∧ streams.opened fd = some ⟨.native, site⟩
  interpreted : ∀ ref ∈ streams.checker.open_fds_exp, ∃ fd site,
    ref.expr = .constant fd
    ∧ streams.checker.open_fds_exp_allocinfo.find? ref.node = some site
    ∧ streams.opened fd = some ⟨.interpreted, site⟩

/-- The event is served without a read of an erased element, a close is answered as it
should be, and a report would find the record of every stream.
-/
def Sound (transition : Transition (Except Fault Streams) Label) : Prop :=
  ∃ streams checker result,
    transition.before = .ok streams
    ∧ streams.checker.respond transition.label.event = .ok (checker, result)
    ∧ Correct streams transition.label.operation result
    ∧ Recorded ⟨checker, transition.label.opened streams.opened⟩
    ∧ ∀ callStack reported, ∃ outcome, checker.report callStack reported = .ok outcome

/-- Native code closes no stream of interpreted code. Interpreted code closes no stream that
is open, and no standard stream.
-/
def Operation.Careful (opened : UInt64 → Option Stream) : Operation → Prop
  | .openStream _ _ => True
  | .closeNative fd => ∀ site, opened fd ≠ some ⟨.interpreted, site⟩
  | .closeInterpreted fd standard => opened fd = none ∧ standard = false

def Careful (transition : Transition (Except Fault Streams) Label) : Prop :=
  ∀ streams operation, transition.before = .ok streams →
    transition.label.operation = some operation → operation.Careful streams.opened

-- Searching, inserting and reporting

variable {refs : List ExprRef}

/-- Among constants the search finds the handle if it is there, by induction on the set. -/
theorem findMatch_constants {memory : Memory} (decides : memory.DecidesConstants)
    (constants : ∀ ref ∈ refs, ∃ value, ref.expr = .constant value) (fd : UInt64)
    : findMatch memory (.constant fd) refs
      = some (refs.find? fun ref => ref.expr = .constant fd) := by
  induction refs with
  | nil => rfl
  | cons ref rest ih =>
    obtain ⟨value, isValue⟩ := constants ref (by simp)
    have later := ih fun other member => constants other (by simp [member])
    rw [findMatch, isValue, decides, find?_cons, isValue]
    by_cases same : fd = value
    · simp [same]
    · simp [same, Ne.symm same, later]

/-- A new expression is added to the set, by induction on it. -/
theorem mem_insertExp {precedes : Expr → Expr → Bool} {ref : ExprRef}
    (absent : ∀ other ∈ refs, other.expr ≠ ref.expr) {member : ExprRef}
    : member ∈ insertExp precedes refs ref ↔ member = ref ∨ member ∈ refs := by
  induction refs with
  | nil => simp [insertExp]
  | cons other rest ih =>
    have later := ih fun other member => absent other (by simp [member])
    rw [insertExp, if_neg (absent other (by simp))]
    split
    · simp
    · rw [mem_cons, later, mem_cons]
      exact or_left_comm

/-- The loop of the report gets through when every stream has a site, by induction on the
streams.
-/
theorem reportLoop_ok (place_info : String) (place_hash : UInt64)
    {sites : List (Option AllocInfo)} (present : ∀ site ∈ sites, site.isSome = true)
    (reported : List (UInt64 × String))
    : ∃ outcome, reportLoop place_info place_hash sites reported = .ok outcome := by
  induction sites generalizing reported with
  | nil => exact ⟨_, rfl⟩
  | cons site rest ih =>
    cases site with
    | none => exact absurd (present none (by simp)) (by simp)
    | some site =>
      obtain ⟨outcome, looped⟩ := ih (fun other member => present other (by simp [member]))
        (AllocInfo.isReported reported place_info place_hash site.text).1
      simp only [reportLoop, looped, ok_bind]
      exact ⟨_, rfl⟩

theorem Recorded.report_ok {streams : Streams} (recorded : Recorded streams)
    (callStack : Option String) (reported : List (UInt64 × String))
    : ∃ outcome, streams.checker.report callStack reported = .ok outcome := by
  have present
      : ∀ site ∈ (ascending (streams.checker.open_fds.image UInt64.toNat)).map
            (fun fd => streams.checker.open_fds_allocinfo.find? (.ofNat fd))
          ++ streams.checker.open_fds_exp.map
            (fun ref => streams.checker.open_fds_exp_allocinfo.find? ref.node),
          site.isSome = true := by
    intro site member
    rcases mem_append.mp member with native | interpreted
    · obtain ⟨word, inSet, rfl⟩ := mem_map.mp native
      obtain ⟨fd, isOpen, rfl⟩ := Finset.mem_image.mp (mem_ascending.mp inSet)
      obtain ⟨site, found, -⟩ := recorded.native fd isOpen
      rw [UInt64.ofNat_toNat, found]
      rfl
    · obtain ⟨ref, isOpen, rfl⟩ := mem_map.mp interpreted
      obtain ⟨fd, site, -, found, -⟩ := recorded.interpreted ref isOpen
      rw [found]
      rfl
  obtain ⟨outcome, looped⟩ := reportLoop_ok (AllocInfo.gatherPlaceInfo callStack).1
    (AllocInfo.gatherPlaceInfo callStack).2 present reported
  unfold report
  simp only [looped, ok_bind]
  exact ⟨_, rfl⟩

-- The sets and the open streams

/-- Where a handle was opened, if that was on the route and it is open. -/
def siteOn (route : Route) (opened : UInt64 → Option Stream) (fd : UInt64)
    : Option AllocInfo :=
  (opened fd).bind fun stream => if stream.route = route then some stream.site else none

theorem siteOn_eq_some_iff {route : Route} {opened : UInt64 → Option Stream} {fd : UInt64}
    {site : AllocInfo}
    : siteOn route opened fd = some site ↔ opened fd = some ⟨route, site⟩ := by
  unfold siteOn
  cases opened fd with
  | none => simp
  | some stream =>
    obtain ⟨on, openedAt⟩ := stream
    simp

theorem siteOn_update (route : Route) (opened : UInt64 → Option Stream) (fd other : UInt64)
    (stream : Option Stream)
    : siteOn route (update opened fd stream) other = if other = fd then
          stream.bind fun stream => if stream.route = route then some stream.site else none
        else siteOn route opened other := by
  unfold siteOn
  by_cases same : other = fd
  · subst same
    simp
  · simp [same]

/-- Each set has the open streams of its route, and each table their sites. Every node of the
second table is in its set.
-/
structure Represents (streams : Streams) : Prop where
  strict : streams.checker.dismiss_error = false
  native : ∀ fd, fd ∈ streams.checker.open_fds
    ↔ (siteOn .native streams.opened fd).isSome = true
  nativeSites : ∀ fd, streams.checker.open_fds_allocinfo.find? fd
    = siteOn .native streams.opened fd
  interpreted : ∀ fd, (siteOn .interpreted streams.opened fd).isSome = true
    → ∃ ref ∈ streams.checker.open_fds_exp, ref.expr = .constant fd
  interpretedSites : ∀ ref ∈ streams.checker.open_fds_exp, ∃ fd site,
    ref.expr = .constant fd
    ∧ streams.checker.open_fds_exp_allocinfo.find? ref.node = some site
    ∧ siteOn .interpreted streams.opened fd = some site
  nodes : ∀ node, (streams.checker.open_fds_exp_allocinfo.find? node).isSome = true
    → ∃ ref ∈ streams.checker.open_fds_exp, ref.node = node

theorem represents_start : Represents start where
  strict := rfl
  native := by simp [start, create, siteOn]
  nativeSites := by simp [start, create, siteOn, Table.find?]
  interpreted := by simp [start, siteOn]
  interpretedSites := by simp [start, create]
  nodes := by simp [start, create, Table.find?]

section Steps

variable {streams : Streams}

theorem Represents.recorded (represents : Represents streams) : Recorded streams where
  native := by
    intro fd isOpen
    obtain ⟨site, found⟩ := isSome_iff_exists.mp ((represents.native fd).mp isOpen)
    exact ⟨site, (represents.nativeSites fd).trans found, siteOn_eq_some_iff.mp found⟩
  interpreted := by
    intro ref isOpen
    obtain ⟨fd, site, constant, found, held⟩ := represents.interpretedSites ref isOpen
    exact ⟨fd, site, constant, found, siteOn_eq_some_iff.mp held⟩

variable {opened : UInt64 → Option Stream} {fd : UInt64}

theorem siteOn_of_unused {route : Route} (unused : opened fd = none)
    : siteOn route opened fd = none := by
  simp [siteOn, unused]

/-- The streams of the other route are not touched. -/
theorem siteOn_update_other {route : Route} {stream : Option Stream}
    (before : siteOn route opened fd = none) (after : ∀ site, stream ≠ some ⟨route, site⟩)
    : siteOn route (update opened fd stream) = siteOn route opened := by
  funext other
  rw [siteOn_update]
  split
  next same =>
    subst same
    rw [before]
    cases stream with
    | none => rfl
    | some stream =>
      obtain ⟨on, openedAt⟩ := stream
      have apart : on ≠ route := fun same => after openedAt (by rw [same])
      simp [apart]
  · rfl

theorem Represents.openConcrete (represents : Represents streams) (nonnull : fd ≠ 0)
    (unused : streams.opened fd = none) (site : AllocInfo)
    : Represents ⟨(streams.checker.openConcrete fd site).1,
        update streams.opened fd (some ⟨.native, site⟩)⟩ := by
  have absent : streams.checker.open_fds_allocinfo.find? fd = none :=
    (represents.nativeSites fd).trans (siteOn_of_unused unused)
  have others : siteOn .interpreted (update streams.opened fd (some ⟨.native, site⟩))
      = siteOn .interpreted streams.opened :=
    siteOn_update_other (siteOn_of_unused unused) (by simp)
  unfold OpenCloseChecker.openConcrete
  rw [if_pos nonnull]
  refine ⟨represents.strict, ?_, ?_, ?_, ?_, represents.nodes⟩
  · intro other
    rw [siteOn_update, Finset.mem_insert, represents.native other]
    by_cases same : other = fd <;> simp [same]
  · intro other
    rw [siteOn_update]
    rw [Table.find?_insertNew absent, represents.nativeSites other]
    simp
  · rw [others]
    exact represents.interpreted
  · rw [others]
    exact represents.interpretedSites

theorem Represents.closeConcrete (represents : Represents streams)
    (isNative : ∀ site, streams.opened fd ≠ some ⟨.interpreted, site⟩)
    : Represents ⟨(streams.checker.closeConcrete fd).1, update streams.opened fd none⟩ := by
  have others : siteOn .interpreted (update streams.opened fd none)
      = siteOn .interpreted streams.opened := by
    apply siteOn_update_other _ (by simp)
    exact eq_none_iff_forall_ne_some.mpr fun site held =>
      isNative site (siteOn_eq_some_iff.mp held)
  unfold OpenCloseChecker.closeConcrete
  split
  next absent =>
    have same : siteOn .native (update streams.opened fd none) = siteOn .native streams.opened := by
      apply siteOn_update_other _ (by simp)
      rw [represents.native fd] at absent
      simpa using absent
    refine ⟨represents.strict, ?_, ?_, ?_, ?_, represents.nodes⟩
    · rw [same]
      exact represents.native
    · rw [same]
      exact represents.nativeSites
    · rw [others]
      exact represents.interpreted
    · rw [others]
      exact represents.interpretedSites
  next present =>
    refine ⟨represents.strict, ?_, ?_, ?_, ?_, represents.nodes⟩
    · intro other
      rw [siteOn_update, Finset.mem_erase, represents.native other]
      by_cases same : other = fd <;> simp [same]
    · intro other
      rw [siteOn_update]
      rw [Table.find?_erase, represents.nativeSites other]
      rfl
    · rw [others]
      exact represents.interpreted
    · rw [others]
      exact represents.interpretedSites

theorem Represents.openSymbolic (represents : Represents streams) {memory : Memory}
    {result : ExprRef} (constant : result.expr = .constant fd) (nonnull : fd ≠ 0)
    (unused : streams.opened fd = none)
    (allocated : ∀ ref ∈ streams.checker.open_fds_exp, ref.node ≠ result.node) (site : AllocInfo)
    : Represents ⟨(streams.checker.openSymbolic memory result site).1,
        update streams.opened fd (some ⟨.interpreted, site⟩)⟩ := by
  have others : siteOn .native (update streams.opened fd (some ⟨.interpreted, site⟩))
      = siteOn .native streams.opened :=
    siteOn_update_other (siteOn_of_unused unused) (by simp)
  have absent : ∀ ref ∈ streams.checker.open_fds_exp, ref.expr ≠ result.expr := by
    intro ref isOpen same
    obtain ⟨other, otherSite, isOther, -, held⟩ := represents.interpretedSites ref isOpen
    obtain rfl : other = fd := by simpa [isOther, constant] using same
    rw [siteOn_of_unused unused] at held
    cases held
  have fresh : streams.checker.open_fds_exp_allocinfo.find? result.node = none := by
    cases found : streams.checker.open_fds_exp_allocinfo.find? result.node with
    | none => rfl
    | some old =>
      obtain ⟨ref, isOpen, same⟩ := represents.nodes result.node (by simp [found])
      exact absurd same (allocated ref isOpen)
  unfold OpenCloseChecker.openSymbolic
  simp only [constant, if_pos nonnull]
  refine ⟨represents.strict, ?_, ?_, ?_, ?_, ?_⟩
  · rw [others]
    exact represents.native
  · rw [others]
    exact represents.nativeSites
  · intro other held
    rw [siteOn_update] at held
    by_cases same : other = fd
    · subst same
      exact ⟨result, (mem_insertExp absent).mpr (.inl rfl), constant⟩
    · rw [if_neg same] at held
      obtain ⟨ref, isOpen, isOther⟩ := represents.interpreted other held
      exact ⟨ref, (mem_insertExp absent).mpr (.inr isOpen), isOther⟩
  · intro ref isOpen
    rw [Table.find?_insertNew fresh]
    rcases (mem_insertExp absent).mp isOpen with rfl | older
    · exact ⟨fd, site, constant, if_pos rfl, by simp [siteOn_update]⟩
    obtain ⟨other, otherSite, isOther, found, held⟩ := represents.interpretedSites ref older
    have apart : other ≠ fd := by
      intro same
      rw [same, siteOn_of_unused unused] at held
      cases held
    refine ⟨other, otherSite, isOther, ?_, ?_⟩
    · rw [if_neg (allocated ref older), found]
    · rw [siteOn_update, if_neg apart, held]
  · intro node entered
    rcases (Table.isSome_find?_insertNew _ _ _ _).mp entered with rfl | older
    · exact ⟨result, (mem_insertExp absent).mpr (.inl rfl), rfl⟩
    · obtain ⟨ref, isOpen, same⟩ := represents.nodes node older
      exact ⟨ref, (mem_insertExp absent).mpr (.inr isOpen), same⟩

variable {event : Event} {operation : Option Operation}

theorem isOpen_fclose : isOpen "fclose" = false := by
  decide

theorem not_isError_important_arg0 : ¬ IsError (IMPORTANT ||| NEED_ARG0) := by
  decide

theorem not_isError_ok : ¬ IsError OK := by
  decide

theorem isError_error_arg0 : IsError (ERROR ||| NEED_ARG0) := by
  decide

/-- A careful event is served and keeps the sets right; one that is not careful reads an
erased element or is answered wrongly.
-/
inductive Outcome (streams : Streams) (event : Event) (operation : Option Operation) : Prop
  | served (outcome : OpenCloseChecker × Result)
    (responds : streams.checker.respond event = .ok outcome)
    (careful : ∀ taken, operation = some taken → taken.Careful streams.opened)
    (correct : Correct streams operation outcome.2)
    (represents : Represents ⟨outcome.1, Label.opened ⟨event, operation⟩ streams.opened⟩)
  | failed (taken : Operation) (isTaken : operation = some taken)
    (careless : ¬ taken.Careful streams.opened)
    (wrong : ∀ outcome, streams.checker.respond event = .ok outcome
      → ¬ Correct streams operation outcome.2)

/-- An event that opens a stream or does nothing has no answer that could be wrong. -/
theorem outcome_of_open (outcome : OpenCloseChecker × Result)
    (responds : streams.checker.respond event = .ok outcome)
    (opens : ∀ taken, operation = some taken → ∃ fd stream, taken = .openStream fd stream)
    (represents : Represents ⟨outcome.1, Label.opened ⟨event, operation⟩ streams.opened⟩)
    : Outcome streams event operation := by
  refine .served outcome responds ?_ ?_ represents
  · intro taken isTaken
    obtain ⟨fd, stream, rfl⟩ := opens taken isTaken
    trivial
  · intro fd closed
    obtain ⟨taken, isTaken, closes⟩ := bind_eq_some_iff.mp closed
    obtain ⟨other, stream, rfl⟩ := opens taken isTaken
    cases closes

/-- Native code that closes a stream: the answer is wrong if interpreted code opened it. -/
theorem outcome_closeNative (represents : Represents streams)
    (responds : streams.checker.respond event = .ok (streams.checker.closeConcrete fd))
    : Outcome streams event (some (.closeNative fd)) := by
  have answered : IsError (streams.checker.closeConcrete fd).2
      ↔ siteOn .native streams.opened fd = none := by
    rw [← not_isSome_iff_eq_none, ← represents.native fd]
    unfold closeConcrete
    split
    next absent => exact iff_of_true isError_error_arg0 absent
    next present => exact iff_of_false not_isError_important_arg0 present
  by_cases isNative : ∀ site, streams.opened fd ≠ some ⟨.interpreted, site⟩
  · refine .served _ responds ?_ ?_ (represents.closeConcrete isNative)
    · intro taken isTaken
      cases isTaken
      exact isNative
    intro closed isClosed
    obtain rfl : fd = closed := some.inj isClosed
    rw [answered]
    cases held : streams.opened fd with
    | none => simp [siteOn, held]
    | some stream =>
      obtain ⟨route, site⟩ := stream
      cases route with
      | native => simp [siteOn, held]
      | interpreted => exact absurd held (isNative site)
  · refine .failed _ rfl isNative ?_
    intro outcome served correct
    obtain ⟨site, held⟩ := not_forall_not.mp isNative
    cases responds.symm.trans served
    have wrong := (correct fd rfl).mp (answered.mpr (by simp [siteOn, held]))
    rw [held] at wrong
    cases wrong

/-- Interpreted code that closes a stream: one of its own is matched and the erased element
read, one of native code is not found, and a standard stream is never an error.
-/
theorem outcome_closeInterpreted (represents : Represents streams) {memory : Memory}
    {close_fd : ExprRef} (constant : close_fd.expr = .constant fd)
    (decides : memory.DecidesConstants) (apart : ∀ site, streams.opened fd = some ⟨.native, site⟩ →
      isStdioStream memory close_fd = false)
    (responds : streams.checker.respond event = streams.checker.closeSymbolic memory close_fd)
    : Outcome streams event (some (.closeInterpreted fd (isStdioStream memory close_fd))) := by
  have constants : ∀ ref ∈ streams.checker.open_fds_exp, ∃ value, ref.expr = .constant value := by
    intro ref isOpen
    obtain ⟨value, -, isValue, -⟩ := represents.interpretedSites ref isOpen
    exact ⟨value, isValue⟩
  have searched := findMatch_constants decides constants fd
  rw [closeSymbolic, constant, searched] at responds
  cases matched : streams.checker.open_fds_exp.find? fun ref => ref.expr = .constant fd with
  | some ref =>
    rw [matched] at responds
    have isOpen := mem_of_find?_eq_some matched
    obtain ⟨other, site, isOther, -, held⟩ := represents.interpretedSites ref isOpen
    have same : ref.expr = .constant fd := by simpa using find?_some matched
    obtain rfl : other = fd := Expr.constant.inj (isOther.symm.trans same)
    refine .failed _ rfl ?_ ?_
    · intro ⟨unused, _⟩
      rw [siteOn_of_unused unused] at held
      cases held
    · intro outcome served
      cases responds.symm.trans served
  | none =>
    rw [matched] at responds
    simp [represents.strict] at responds
    have unmatched : siteOn .interpreted streams.opened fd = none := by
      rw [← not_isSome_iff_eq_none]
      intro held
      obtain ⟨ref, isOpen, same⟩ := represents.interpreted fd held
      simpa [same] using find?_eq_none.mp matched ref isOpen
    by_cases unused : streams.opened fd = none
    · cases standard : isStdioStream memory close_fd with
      | true =>
        rw [standard, if_pos rfl] at responds
        refine .failed _ rfl (fun careful => Bool.noConfusion careful.2) ?_
        intro outcome served correct
        cases responds.symm.trans served
        exact not_isError_ok ((correct fd rfl).mpr unused)
      | false =>
        rw [standard, if_neg (by decide)] at responds
        have same : update streams.opened fd none = streams.opened := by
          rw [← unused, update_eq_self]
        refine .served _ responds ?_ ?_ ?_
        · intro taken isTaken
          cases isTaken
          exact ⟨unused, rfl⟩
        · intro closed isClosed
          obtain rfl : fd = closed := some.inj isClosed
          exact ⟨fun _ => unused, fun _ => isError_error_arg0⟩
        · simpa [Label.opened, advance, same] using represents
    · obtain ⟨⟨route, site⟩, held⟩ := ne_none_iff_exists'.mp unused
      cases route with
      | interpreted => simp [siteOn, held] at unmatched
      | native =>
        rw [apart site held, if_neg (by decide)] at responds
        refine .failed _ rfl (fun careful => unused careful.1) ?_
        intro outcome served correct
        cases responds.symm.trans served
        exact unused ((correct fd rfl).mp isError_error_arg0)

theorem Legal.outcome (legal : Legal streams event operation) (represents : Represents streams)
    : Outcome streams event operation := by
  cases legal with
  | @nativeOpen memory call args words opens nonnull unused =>
    refine outcome_of_open (streams.checker.openConcrete (args 0) call.site) ?_ ?_
      (represents.openConcrete nonnull unused call.site)
    · simp [respond, onCall, words, opens]
    · exact fun taken isTaken => ⟨_, _, (some.inj isTaken).symm⟩
  | @nativeClose memory call args words closes nonnull =>
    apply outcome_closeNative represents
    simp [respond, onCall, words, closes, isOpen_fclose]
  | @interpretedCall memory call words opens =>
    have other : call.funcname ≠ "fclose" ∧ call.funcname ≠ "close_stdout" := by
      constructor <;> intro same <;> simp [same, isOpen] at opens
    refine outcome_of_open (streams.checker, OK) ?_ (by simp) represents
    simp [respond, onCall, words, other]
  | @interpretedOpen memory ret funcname fd target opens constant nonnull unused allocated =>
    refine outcome_of_open (streams.checker.openSymbolic memory ret.result ret.site) ?_ ?_
      (represents.openSymbolic constant nonnull unused allocated ret.site)
    · simp [respond, onRet, target, opens]
    · exact fun taken isTaken => ⟨_, _, (some.inj isTaken).symm⟩
  | @interpretedClose memory call fd words closes constant nonnull decides apart =>
    apply outcome_closeInterpreted represents constant decides apart
    simp [respond, onCall, words, closes]
  | @interpretedReturn memory ret target =>
    refine outcome_of_open (streams.checker, OK) ?_ (by simp) represents
    simp [respond, onRet, target, isOpen_fclose]

end Steps

-- Runs

/-- No fault has stopped the checker, and its sets are right. -/
def Kept (state : Except Fault Streams) : Prop :=
  ∃ streams, state = .ok streams ∧ Represents streams

theorem Step.sound_iff {before after : Except Fault Streams} {label : Label}
    (step : Step before label after) (kept : Kept before)
    : (Sound ⟨before, label, after⟩ ↔ Careful ⟨before, label, after⟩)
      ∧ (Careful ⟨before, label, after⟩ → Kept after) := by
  cases step with
  | deliver streams label legal =>
    obtain ⟨_, same, represents⟩ := kept
    cases same
    cases legal.outcome represents with
    | served outcome responds careful correct after =>
      refine ⟨iff_of_true ?_ ?_, fun _ => ?_⟩
      · exact ⟨streams, outcome.1, outcome.2, rfl, responds, correct, after.recorded,
          after.recorded.report_ok⟩
      · intro _ taken same isTaken
        cases same
        exact careful taken isTaken
      · exact ⟨_, by rw [responds]; rfl, after⟩
    | failed taken isTaken careless wrong =>
      refine ⟨iff_of_false ?_ ?_, ?_⟩
      · intro ⟨_, checker, result, same, responds, correct, _⟩
        cases same
        exact wrong _ responds correct
      · exact fun isCareful => careless (isCareful streams taken rfl isTaken)
      · exact fun isCareful => absurd (isCareful streams taken rfl isTaken) careless

/-- Over every sequence of events, each one is served soundly exactly when each one is
careful.
-/
theorem sound_iff_careful_streams {trace : List (Transition (Except Fault Streams) Label)}
    {finish : Except Fault Streams} (run : Run (Takes Step) (.ok Streams.start) trace finish)
    : (∀ transition ∈ trace, Sound transition) ↔ ∀ transition ∈ trace, Careful transition :=
  run.forall_iff Kept ⟨_, rfl, represents_start⟩ fun _ => Step.sound_iff

/-- Interpreted code opens a stream with the handle 8, and closes it. -/
def returned : Return where
  funcname := some "fopen"
  getCallingArgument := fun _ => ⟨0, .constant 0⟩
  result := ⟨1, .constant 8⟩
  site := ⟨"fopen.c"⟩
  thread := 0

def closing : Call where
  funcname := "fclose"
  arguments := fun _ => ⟨2, .constant 8⟩
  args := none
  site := ⟨"fclose.c"⟩
  thread := 0

/-- A memory without objects, with a solver that compares constants. -/
def constantsMemory : Memory :=
  { Memory.silent with
    mustBeEqual := fun first second =>
      match first, second with
      | .constant left, .constant right => some (decide (left = right))
      | _, _ => none }

def openingLabel : Label :=
  ⟨.onRet constantsMemory returned, some (.openStream 8 ⟨.interpreted, ⟨"fopen.c"⟩⟩)⟩

def closingLabel : Label :=
  ⟨.onCall constantsMemory closing, some (.closeInterpreted 8 false)⟩

theorem opening_legal : Legal start openingLabel.event openingLabel.operation :=
  .interpretedOpen rfl (by decide) rfl (by decide) rfl (by simp [start, create])

/-- Witness: interpreted code closes a stream that was never opened. -/
theorem sound_iff_careful_streams_unopened
    : ∃ trace finish, Run (Takes Step) (.ok Streams.start) trace finish
        ∧ trace.map Transition.label = [closingLabel]
        ∧ ∀ transition ∈ trace, Sound transition := by
  have legal : Legal start closingLabel.event closingLabel.operation :=
    .interpretedClose rfl rfl rfl (by decide) (fun _ _ => rfl) (fun _ _ => rfl)
  have run := Run.nil.record (Step.deliver start closingLabel legal)
  refine ⟨_, _, run, rfl, (sound_iff_careful_streams run).mpr ?_⟩
  intro transition member streams operation before taken
  obtain rfl := mem_singleton.mp member
  cases before
  cases taken
  exact ⟨rfl, rfl⟩

/-- A stream that interpreted code opens and closes is found in the set, and its site is then
looked for through the element that has been erased.
-/
theorem own_stream_close_faults
    : ∃ trace, Run (Takes Step) (.ok Streams.start) trace (.error .badPointer)
        ∧ trace.map Transition.label = [openingLabel, closingLabel] := by
  have opened := Run.nil.record (Step.deliver start openingLabel opening_legal)
  have legal : Legal ⟨(start.checker.onRet constantsMemory returned).1,
        openingLabel.opened start.opened⟩
      closingLabel.event closingLabel.operation :=
    .interpretedClose rfl rfl rfl (by decide) (fun _ _ => rfl) (fun _ _ => rfl)
  exact ⟨_, opened.record (Step.deliver _ closingLabel legal), rfl⟩

end OpenCloseChecker

end Woodpecker.Checkers
