import Woodpecker.Checkers.OpenClose
import Woodpecker.Library.Runs

/-! The reports of open descriptors, over a sequence of path ends.

A place and an allocation site are reported once. What has been reported is kept for all
paths, and it is kept before the report knows whether the descriptor counts. A descriptor is
therefore held back by every descriptor of the same place and site that was looked at
before, also by those that were not written and so were part of no error.
-/

namespace Woodpecker.Checkers

open Library List

namespace SysOpenCloseChecker

inductive Event where
  | onCall (call : Call)
  | onRet (ret : Return)

def respond (checker : SysOpenCloseChecker) : Event → SysOpenCloseChecker × Result
  | .onCall call => checker.onCall call
  | .onRet ret => checker.onRet ret

inductive Operation where
  | openFile (fd : UInt64) (site : AllocInfo)
  | write (fd : UInt64)
  | close (fd : UInt64)
deriving DecidableEq, Repr

/-- Descriptor -1 stands for a call that failed or that is not constant. -/
def onDescriptor (fd : UInt64) (operation : Operation) : Option Operation :=
  if fd ≠ minusOne then some operation else none

/-- The operation an event is. The descriptor of an `open` is known at the call for native
code and at the return for interpreted code.
-/
def Event.operation : Event → Option Operation
  | .onCall call =>
    if call.funcname = "open" then
      call.args.bind fun args =>
        onDescriptor (asInt (args 0)) (.openFile (asInt (args 0)) call.site)
    else if call.funcname = "close" then
      onDescriptor (asInt (firstArgument call)) (.close (asInt (firstArgument call)))
    else if call.funcname = "write" then
      onDescriptor (asInt (firstArgument call)) (.write (asInt (firstArgument call)))
    else none
  | .onRet ret =>
    if ret.funcname = some "open" then
      onDescriptor (asInt (getIntFromExp ret.result))
        (.openFile (asInt (getIntFromExp ret.result)) ret.site)
    else none

-- Open descriptors

/-- An open descriptor: where it was opened, and whether it has been written. -/
structure Descriptor where
  site : AllocInfo
  written : Bool
deriving DecidableEq, Repr

def advance (descriptors : UInt64 → Option Descriptor)
    : Operation → UInt64 → Option Descriptor
  | .openFile fd site =>
    Function.update descriptors fd (some ((descriptors fd).getD ⟨site, false⟩))
  | .write fd =>
    Function.update descriptors fd
      ((descriptors fd).map fun descriptor => { descriptor with written := true })
  | .close fd => Function.update descriptors fd none

/-- The open descriptors after the events of a path, from the events alone. -/
def reference (events : List Event) : UInt64 → Option Descriptor :=
  (events.filterMap Event.operation).foldl advance fun _ => none

/-- The record the checker keeps. -/
def Descriptor.record (fd : UInt64) (descriptor : Descriptor) : FileObject where
  filename := ""
  fp := minusOne
  fd := fd
  state := if descriptor.written then .osBuffered else .clean
  alloc_info := some descriptor.site

/-- The table has the records of the open descriptors. -/
structure Represents (opened : Table UInt64 FileObject)
    (descriptors : UInt64 → Option Descriptor)
    : Prop where
  ordered : opened.Ordered
  records : ∀ fd, opened.find? fd = (descriptors fd).map (Descriptor.record fd)

section Tables

variable {checker : SysOpenCloseChecker} {descriptors : UInt64 → Option Descriptor}

/-- Handling an operation does to the table what it does to the descriptors. -/
def Serves (descriptors : UInt64 → Option Descriptor) (operation : Option Operation)
    (checker after : SysOpenCloseChecker)
    : Prop :=
  after.written_only = checker.written_only
  ∧ (Represents checker.opened descriptors
    → Represents after.opened (operation.elim descriptors (advance descriptors)))

theorem serves_none : Serves descriptors none checker checker :=
  ⟨rfl, id⟩

theorem parseOpen_serves (fd : UInt64) (site : AllocInfo)
    : Serves descriptors (onDescriptor fd (.openFile fd site)) checker
        (checker.parseOpen fd site).1 := by
  unfold parseOpen onDescriptor
  split
  next real =>
    refine ⟨rfl, fun represents => ?_⟩
    dsimp only
    rw [Table.insertNew_eq represents.ordered]
    refine ⟨represents.ordered.assign _ _, ?_⟩
    intro other
    rw [Table.find?_assign]
    by_cases same : other = fd
    · subst same
      rw [represents.records other]
      cases found : descriptors other with
      | none => simp [advance, found]; rfl
      | some descriptor => simp [advance, found]
    · simp [advance, same, represents.records other]
  · exact serves_none

theorem parseWrite_serves (fd : UInt64)
    : Serves descriptors (onDescriptor fd (.write fd)) checker (checker.parseWrite fd).1 := by
  unfold parseWrite onDescriptor
  split
  next real =>
    cases found : checker.opened.find? fd with
    | none =>
      refine ⟨rfl, fun represents => ⟨represents.ordered, ?_⟩⟩
      intro other
      have absent : descriptors fd = none := by
        simpa [found] using (represents.records fd).symm
      by_cases same : other = fd
      · subst same
        simp [advance, absent, found]
      · simp [advance, same, represents.records other]
    | some fo =>
      refine ⟨rfl, fun represents => ⟨represents.ordered.assign _ _, ?_⟩⟩
      intro other
      rw [Table.find?_assign]
      by_cases same : other = fd
      · subst same
        have record := represents.records other
        rw [found] at record
        cases held : descriptors other with
        | none => simp [held] at record
        | some descriptor =>
          obtain rfl : fo = descriptor.record other := by simpa [held] using record
          simp [advance, held]
          rfl
      · simp [advance, same, represents.records other]
  · exact serves_none

theorem parseClose_serves (fd : UInt64)
    : Serves descriptors (onDescriptor fd (.close fd)) checker (checker.parseClose fd).1 := by
  unfold parseClose onDescriptor
  split
  next real =>
    have erased (opened : Table UInt64 FileObject) (represents : Represents opened descriptors)
        : Represents (opened.erase fd) (advance descriptors (.close fd)) := by
      refine ⟨represents.ordered.erase fd, ?_⟩
      intro other
      rw [Table.find?_erase]
      by_cases same : other = fd
      · simp [advance, same]
      · simp [advance, same, represents.records other]
    cases found : checker.opened.find? fd with
    | none =>
      refine ⟨rfl, fun represents => ⟨represents.ordered, ?_⟩⟩
      intro other
      have erasedRecord := (erased _ represents).records other
      rw [Table.find?_erase] at erasedRecord
      by_cases same : other = fd
      · subst same
        rw [if_pos rfl] at erasedRecord
        exact found.trans erasedRecord
      · rw [if_neg same] at erasedRecord
        exact erasedRecord
    | some fo => exact ⟨rfl, erased checker.opened⟩
  · exact serves_none

theorem respond_serves (event : Event)
    : Serves descriptors event.operation checker (checker.respond event).1 := by
  cases event with
  | onCall call =>
    simp only [respond, onCall, Event.operation]
    split
    · cases call.args with
      | none => exact serves_none
      | some args => exact parseOpen_serves _ _
    split
    · exact parseClose_serves _
    split
    · exact parseWrite_serves _
    · exact serves_none
  | onRet ret =>
    simp only [respond, onRet, Event.operation]
    cases ret.funcname with
    | none => exact serves_none
    | some funcname =>
      simp only [Option.some.injEq]
      split
      · exact parseOpen_serves _ _
      · exact serves_none

end Tables

-- Path ends

/-- The end of a path: the events of the path, and the call stack of its last thread. -/
structure PathEnd where
  written_only : Bool
  events : List Event
  callStack : Option String

namespace PathEnd

def checker (pathEnd : PathEnd) : SysOpenCloseChecker :=
  pathEnd.events.foldl (fun checker event => (checker.respond event).1)
    (create pathEnd.written_only)

def place (pathEnd : PathEnd) : String :=
  pathEnd.callStack.getD ""

/-- The descriptor is still open. -/
def Open (pathEnd : PathEnd) (fd : UInt64) (site : AllocInfo) : Prop :=
  ∃ written, reference pathEnd.events fd = some ⟨site, written⟩

/-- The descriptor is still open, and written if only those count. -/
def Leaks (pathEnd : PathEnd) (fd : UInt64) (site : AllocInfo) : Prop :=
  ∃ written, reference pathEnd.events fd = some ⟨site, written⟩
    ∧ (pathEnd.written_only = true → written = true)

/-- What a report enters for a site: the sum of two hashes, and one text. -/
def key (pathEnd : PathEnd) (site : AllocInfo) : UInt64 × String :=
  (AllocInfo.hash pathEnd.place + AllocInfo.hash site.text, pathEnd.place ++ site.text)

end PathEnd

variable {pathEnd : PathEnd}

/-- The checker of a path has the open descriptors of the path, by induction on the events
from the end.
-/
theorem checker_represents (pathEnd : PathEnd)
    : pathEnd.checker.written_only = pathEnd.written_only
      ∧ Represents pathEnd.checker.opened (reference pathEnd.events) := by
  obtain ⟨written_only, events, callStack⟩ := pathEnd
  simp only [PathEnd.checker, reference]
  induction events using reverseRecOn with
  | nil => exact ⟨rfl, .nil, by simp [create, Table.find?]⟩
  | append_singleton past event ih =>
    obtain ⟨same, represents⟩ := ih
    obtain ⟨kept, serves⟩ := respond_serves event
    rw [foldl_append, filterMap_append, foldl_append]
    refine ⟨kept.trans same, ?_⟩
    have after := serves represents
    cases decoded : event.operation with
    | none | some => simpa [decoded] using after

/-- A path end with what its report logs and answers. -/
structure Entry where
  pathEnd : PathEnd
  errors : List FileObject
  result : Result

/-- The report at a path end, with the texts reported so far. -/
def Step (reported : List (UInt64 × String)) (entry : Entry)
    (after : List (UInt64 × String))
    : Prop :=
  entry.pathEnd.checker.report entry.pathEnd.callStack reported
    = (after, entry.errors, entry.result)

/-- The place and the site were part of an error that was reported. -/
def Listed (past : List Entry) (place : String) (site : AllocInfo) : Prop :=
  ∃ entry ∈ past, entry.pathEnd.place = place
    ∧ ∃ fo ∈ entry.errors, fo.alloc_info = some site

/-- Some descriptor that was open at an earlier path end has the same key. -/
def Recorded (past : List Entry) (key : UInt64 × String) : Prop :=
  ∃ entry ∈ past, ∃ fd site, entry.pathEnd.Open fd site ∧ entry.pathEnd.key site = key

/-- No smaller descriptor that is open at the path end has the same key. -/
def Foremost (pathEnd : PathEnd) (fd : UInt64) (site : AllocInfo) : Prop :=
  ∀ smaller other, smaller < fd → pathEnd.Open smaller other
    → pathEnd.key other ≠ pathEnd.key site

-- The loop of the report

/-- The key the loop computes for a file. -/
def fileKey (place_info : String) (fo : FileObject) : UInt64 × String :=
  (AllocInfo.hash place_info + AllocInfo.hash (caseInfo fo), place_info ++ caseInfo fo)

section Loop

variable {written_only : Bool} {place_info : String} {reported : List (UInt64 × String)}
  {files : List FileObject}

/-- Where a file is in a list: at its head or further on. -/
theorem split_cons_iff {first fo : FileObject} {rest : List FileObject} {free : FileObject → Prop}
    : (∃ before after, first :: rest = before ++ fo :: after ∧ ∀ other ∈ before, free other)
      ↔ first = fo
        ∨ (free first
          ∧ ∃ before after, rest = before ++ fo :: after ∧ ∀ other ∈ before, free other) := by
  constructor
  · intro ⟨before, after, split, allFree⟩
    cases before with
    | nil => exact .inl (cons.inj split).1
    | cons head tail =>
      obtain ⟨rfl, restSplit⟩ := cons.inj split
      exact .inr ⟨allFree first (by simp), tail, after, restSplit,
        fun other member => allFree other (by simp [member])⟩
  · intro found
    rcases found with rfl | ⟨isFree, before, after, rfl, allFree⟩
    · exact ⟨[], rest, rfl, by simp⟩
    · exact ⟨first :: before, after, rfl, by simpa using ⟨isFree, allFree⟩⟩

/-- The key of every file is entered. A file is logged if it counts and no file before it had
its key. By induction on the files.
-/
theorem mem_reportLoop
    : (∀ key, key ∈ (reportLoop written_only place_info (AllocInfo.hash place_info) files
          reported).1
        ↔ key ∈ reported ∨ ∃ fo ∈ files, fileKey place_info fo = key)
      ∧ ∀ fo, fo ∈ (reportLoop written_only place_info (AllocInfo.hash place_info) files reported).2
        ↔ fileKey place_info fo ∉ reported
          ∧ ¬ (written_only = true ∧ fo.state = .clean)
          ∧ ∃ before after, files = before ++ fo :: after
              ∧ ∀ other ∈ before, fileKey place_info other ≠ fileKey place_info fo := by
  induction files generalizing reported with
  | nil => simp [reportLoop]
  | cons first rest ih =>
    simp only [exists_mem_cons_iff, split_cons_iff]
    by_cases known : fileKey place_info first ∈ reported
    · have searched : AllocInfo.isReported reported place_info (AllocInfo.hash place_info)
          (caseInfo first) = (reported, true) := if_pos known
      simp only [reportLoop, searched, ih]
      grind
    · have searched : AllocInfo.isReported reported place_info (AllocInfo.hash place_info)
          (caseInfo first) = (reported ++ [fileKey place_info first], false) := if_neg known
      simp only [reportLoop, searched]
      split
      · grind
      · grind

end Loop

theorem record_counts_iff {written_only : Bool} {fd : UInt64} {descriptor : Descriptor}
    : ¬ (written_only = true ∧ (descriptor.record fd).state = .clean)
      ↔ (written_only = true → descriptor.written = true) := by
  obtain ⟨site, written⟩ := descriptor
  cases written <;> simp [Descriptor.record]

/-- The records the report goes through. -/
theorem mem_opened_iff {entry : UInt64 × FileObject}
    : entry ∈ pathEnd.checker.opened
      ↔ ∃ descriptor, reference pathEnd.events entry.1 = some descriptor
        ∧ entry.2 = descriptor.record entry.1 := by
  obtain ⟨-, ordered, records⟩ := checker_represents pathEnd
  obtain ⟨fd, fo⟩ := entry
  rw [← Table.find?_eq_some_iff ordered, records fd]
  cases reference pathEnd.events fd with
  | none => simp
  | some descriptor => simp [eq_comm]

variable {reported after : List (UInt64 × String)} {entry : Entry}

section

variable (step : Step reported entry after)
include step

/-- What a step enters: the keys of all descriptors that are open. -/
theorem Step.mem_after_iff {key : UInt64 × String}
    : key ∈ after
      ↔ key ∈ reported
        ∨ ∃ fd site, entry.pathEnd.Open fd site ∧ entry.pathEnd.key site = key := by
  have looped : (reportLoop entry.pathEnd.checker.written_only entry.pathEnd.place
      (AllocInfo.hash entry.pathEnd.place) (entry.pathEnd.checker.opened.map Prod.snd)
      reported).1 = after :=
    congrArg Prod.fst step
  rw [← looped, mem_reportLoop.1]
  apply or_congr Iff.rfl
  constructor
  · intro ⟨fo, member, same⟩
    obtain ⟨row, inTable, rfl⟩ := mem_map.mp member
    obtain ⟨descriptor, held, isRecord⟩ := mem_opened_iff.mp inTable
    rw [isRecord] at same
    exact ⟨row.1, descriptor.site, ⟨descriptor.written, held⟩, same⟩
  · intro ⟨fd, site, ⟨written, held⟩, same⟩
    refine ⟨_, mem_map.mpr ⟨(fd, Descriptor.record fd ⟨site, written⟩), ?_, rfl⟩, same⟩
    exact mem_opened_iff.mpr ⟨⟨site, written⟩, held, rfl⟩

/-- What a step logs: the descriptors that leak, are new and foremost. -/
theorem Step.mem_errors_iff {fo : FileObject}
    : fo ∈ entry.errors
      ↔ ∃ fd descriptor, reference entry.pathEnd.events fd = some descriptor
          ∧ (entry.pathEnd.written_only = true → descriptor.written = true)
          ∧ fo = descriptor.record fd
          ∧ entry.pathEnd.key descriptor.site ∉ reported
          ∧ Foremost entry.pathEnd fd descriptor.site := by
  have looped : (reportLoop entry.pathEnd.checker.written_only entry.pathEnd.place
      (AllocInfo.hash entry.pathEnd.place) (entry.pathEnd.checker.opened.map Prod.snd)
      reported).2 = entry.errors :=
    congrArg (fun outcome => outcome.2.1) step
  obtain ⟨only, ordered, -⟩ := checker_represents entry.pathEnd
  rw [← looped, mem_reportLoop.2, only]
  constructor
  · intro ⟨new, counts, before, rest, split, foremost⟩
    obtain ⟨front, back, tableSplit, rfl, backEq⟩ := map_eq_append_iff.mp split
    obtain ⟨row, tail, rfl, rfl, rfl⟩ := map_eq_cons_iff.mp backEq
    have inTable : row ∈ entry.pathEnd.checker.opened := by simp [tableSplit]
    obtain ⟨descriptor, held, isRecord⟩ := mem_opened_iff.mp inTable
    rw [isRecord] at new counts foremost
    refine ⟨row.1, descriptor, held, record_counts_iff.mp counts, isRecord, new, ?_⟩
    intro smaller other less ⟨written, otherHeld⟩
    have otherRow : (smaller, Descriptor.record smaller ⟨other, written⟩)
        ∈ entry.pathEnd.checker.opened := mem_opened_iff.mpr ⟨_, otherHeld, rfl⟩
    rw [tableSplit] at otherRow ordered
    have early := (ordered.mem_before_iff otherRow).mpr less
    exact foremost _ (mem_map.mpr ⟨_, early, rfl⟩)
  · intro ⟨fd, descriptor, held, counts, isRecord, new, foremost⟩
    subst isRecord
    have inTable : (fd, descriptor.record fd) ∈ entry.pathEnd.checker.opened :=
      mem_opened_iff.mpr ⟨descriptor, held, rfl⟩
    obtain ⟨front, tail, tableSplit⟩ := append_of_mem inTable
    refine ⟨new, record_counts_iff.mpr counts, front.map Prod.snd, tail.map Prod.snd,
      by simp [tableSplit], ?_⟩
    intro other member
    obtain ⟨row, early, rfl⟩ := mem_map.mp member
    have rowIn : row ∈ entry.pathEnd.checker.opened := by simp [tableSplit, early]
    obtain ⟨otherDescriptor, otherHeld, otherRecord⟩ := mem_opened_iff.mp rowIn
    rw [tableSplit] at rowIn ordered
    have less := (ordered.mem_before_iff rowIn).mp early
    rw [otherRecord]
    exact foremost row.1 otherDescriptor.site less ⟨otherDescriptor.written, otherHeld⟩

theorem Step.result_eq_error_iff : entry.result = ERROR ↔ ∃ fo, fo ∈ entry.errors := by
  have answered : (if entry.errors.length ≠ 0 then ERROR else OK) = entry.result := by
    have errors : (entry.pathEnd.checker.report entry.pathEnd.callStack reported).2.1
        = entry.errors := congrArg (fun outcome => outcome.2.1) step
    rw [← errors]
    exact congrArg (fun outcome => outcome.2.2) step
  have differ : OK ≠ ERROR := by decide
  rw [← answered]
  cases entry.errors with
  | nil => simp [differ]
  | cons fo rest => simp

end

-- Sequences of path ends

/-- What has been entered are the keys of all descriptors that were open at earlier path
ends, and what has been logged was open there.
-/
structure Reflects (past : List Entry) (reported : List (UInt64 × String)) : Prop where
  recorded : ∀ key, key ∈ reported ↔ Recorded past key
  logged : ∀ entry ∈ past, ∀ fo ∈ entry.errors, ∃ fd site,
    entry.pathEnd.Open fd site ∧ fo.alloc_info = some site

theorem Reflects.step {past : List Entry} (reflects : Reflects past reported)
    (step : Step reported entry after)
    : Reflects (past ++ [entry]) after where
  recorded := by
    intro key
    rw [step.mem_after_iff, reflects.recorded key]
    simp only [Recorded, mem_append, mem_singleton]
    constructor
    · intro found
      rcases found with ⟨other, member, rest⟩ | here
      · exact ⟨other, .inl member, rest⟩
      · exact ⟨entry, .inr rfl, here⟩
    · intro ⟨other, member, rest⟩
      rcases member with earlier | rfl
      · exact .inl ⟨other, earlier, rest⟩
      · exact .inr rest
  logged := by
    refine forall_mem_append.mpr ⟨reflects.logged, forall_mem_singleton.mpr fun fo logged => ?_⟩
    obtain ⟨fd, descriptor, held, -, rfl, -⟩ := step.mem_errors_iff.mp logged
    exact ⟨fd, descriptor.site, ⟨descriptor.written, held⟩, rfl⟩

theorem reflects_of_run {past : List Entry} (run : Run Step [] past reported)
    : Reflects past reported := by
  apply run.history Reflects
  · exact ⟨by simp [Recorded], by simp⟩
  · exact fun reflects step => reflects.step step

/-- What was part of an error has been entered. -/
theorem Reflects.recorded_of_listed {past : List Entry} (reflects : Reflects past reported)
    {site : AllocInfo} (listed : Listed past pathEnd.place site)
    : Recorded past (pathEnd.key site) := by
  obtain ⟨entry, member, samePlace, fo, logged, isSite⟩ := listed
  obtain ⟨fd, openSite, isOpen, ofSite⟩ := reflects.logged entry member fo logged
  obtain rfl : openSite = site := Option.mem_unique ofSite isSite
  exact ⟨entry, member, fd, openSite, isOpen, by simp [PathEnd.key, samePlace]⟩

/-- After every sequence of path ends, a report is an error exactly when some descriptor
leaks whose place and site were part of no error before, if and only if in that case some
leaking descriptor has a key that no descriptor open at an earlier path end had, and no
smaller one at this path end.
-/
theorem report_error_iff_foremost {past : List Entry} (run : Run Step [] past reported)
    (step : Step reported entry after)
    : (entry.result = ERROR
        ↔ ∃ fd site, entry.pathEnd.Leaks fd site
            ∧ ¬ Listed past entry.pathEnd.place site)
      ↔ ((∃ fd site, entry.pathEnd.Leaks fd site
            ∧ ¬ Listed past entry.pathEnd.place site)
          → ∃ fd site, entry.pathEnd.Leaks fd site
            ∧ ¬ Recorded past (entry.pathEnd.key site)
            ∧ Foremost entry.pathEnd fd site) := by
  have reflects := reflects_of_run run
  have answered : entry.result = ERROR
      ↔ ∃ fd site, entry.pathEnd.Leaks fd site ∧ ¬ Recorded past (entry.pathEnd.key site)
          ∧ Foremost entry.pathEnd fd site := by
    rw [step.result_eq_error_iff]
    constructor
    · intro ⟨fo, logged⟩
      obtain ⟨fd, descriptor, held, counts, -, new, foremost⟩ := step.mem_errors_iff.mp logged
      rw [reflects.recorded] at new
      exact ⟨fd, descriptor.site, ⟨descriptor.written, held, counts⟩, new, foremost⟩
    · intro ⟨fd, site, ⟨written, held, counts⟩, new, foremost⟩
      rw [← reflects.recorded] at new
      exact ⟨_, step.mem_errors_iff.mpr ⟨fd, ⟨site, written⟩, held, counts, rfl, new, foremost⟩⟩
  rw [answered]
  constructor
  · exact Iff.mpr
  · intro condition
    refine ⟨?_, condition⟩
    intro ⟨fd, site, leaks, new, _⟩
    exact ⟨fd, site, leaks, mt reflects.recorded_of_listed new⟩

/-- A native call on a descriptor, from the site `open.c`. -/
def nativeEvent (funcname : String) (fd : UInt64) : Event :=
  .onCall
    { funcname
      arguments := fun _ => ⟨0, .constant fd⟩
      args := some fun _ => fd
      site := ⟨"open.c"⟩
      thread := 0 }

/-- Witness: a descriptor is left open at the first path end. -/
theorem report_error_iff_foremost_first
    : let pathEnd : PathEnd := ⟨false, [nativeEvent "open" 3], none⟩
      let outcome := pathEnd.checker.report pathEnd.callStack []
      outcome.2.2 = ERROR
      ↔ ∃ fd site, pathEnd.Leaks fd site ∧ ¬ Listed [] pathEnd.place site := by
  intro pathEnd outcome
  have step : Step [] ⟨pathEnd, outcome.2.1, outcome.2.2⟩ outcome.1 := rfl
  apply (report_error_iff_foremost .nil step).mpr
  intro _
  refine ⟨3, ⟨"open.c"⟩, ⟨false, by decide, by decide⟩, by simp [Recorded], ?_⟩
  intro smaller other less ⟨written, isOpen⟩
  have absent : smaller ≠ 3 := fun same => absurd (same ▸ less) (by decide)
  have opens : (nativeEvent "open" 3).operation = some (.openFile 3 ⟨"open.c"⟩) := by decide
  have closed : reference [nativeEvent "open" 3] smaller = none := by
    simp [reference, opens, advance, Function.update_of_ne absent]
  simp [pathEnd, closed] at isOpen

/-- Two descriptors are opened at one site and only the second one is written. The first one
is entered as reported and then passed over, and so the second one is held back.
-/
theorem clean_descriptor_hides_written
    : let pathEnd : PathEnd :=
        ⟨true, [nativeEvent "open" 3, nativeEvent "open" 4, nativeEvent "write" 4], none⟩
      (pathEnd.checker.report pathEnd.callStack []).2 = ([], OK)
      ∧ pathEnd.Leaks 4 ⟨"open.c"⟩ := by
  intro pathEnd
  exact ⟨by decide +kernel, true, by decide, by decide⟩

end SysOpenCloseChecker

end Woodpecker.Checkers
