import Woodpecker.Checkers.Basic
import Woodpecker.Library.Loops
import Woodpecker.Library.Tables

/-! The checkers for streams that are not closed and for descriptors that are not closed. -/

namespace Woodpecker.Checkers

open Library

/-- Streams opened by native calls are kept by address, those opened by interpreted code by
expression, in the order in which the set is iterated. The allocation sites of the latter
are keyed by the node of the expression.
-/
structure OpenCloseChecker where
  open_fds : Finset UInt64
  open_fds_allocinfo : Table UInt64 AllocInfo
  open_fds_exp : List ExprRef
  open_fds_exp_allocinfo : Table Nat AllocInfo
  dismiss_error : Bool
deriving DecidableEq

namespace OpenCloseChecker

def create : OpenCloseChecker where
  open_fds := ∅
  open_fds_allocinfo := []
  open_fds_exp := []
  open_fds_exp_allocinfo := []
  dismiss_error := false

def mayBeEvent (funcname : String) : Bool :=
  funcname = "fopen" || funcname = "fdopen" || funcname = "fopen64" || funcname = "fclose"

def isOpen (funcname : String) : Bool :=
  funcname = "fopen" || funcname = "fopen64" || funcname = "fdopen"

/-- `insert` on a set of expressions: an equal expression stays in place. -/
def insertExp (precedes : Expr → Expr → Bool) : List ExprRef → ExprRef → List ExprRef
  | [], ref => [ref]
  | other :: rest, ref =>
    if other.expr = ref.expr then other :: rest
    else if precedes ref.expr other.expr then ref :: other :: rest
    else other :: insertExp precedes rest ref

/-- The search for an open stream that must equal the one closed; `none` when the solver
fails on the way.
-/
def findMatch (memory : Memory) (close_fd : Expr) : List ExprRef → Option (Option ExprRef)
  | [] => some none
  | ref :: rest =>
    match memory.mustBeEqual close_fd ref.expr with
    | none => none
    | some true => some (some ref)
    | some false => findMatch memory close_fd rest

def isStdioStream (memory : Memory) (ref : ExprRef) : Bool :=
  match ref.expr with
  | .constant value => (memory.resolveOne value).any (·.name = "_stdio_streams")
  | .symbolic _ => false

def openConcrete (checker : OpenCloseChecker) (fd : UInt64) (site : AllocInfo)
    : OpenCloseChecker × Result :=
  if fd ≠ 0 then
    ({ checker with
        open_fds := insert fd checker.open_fds
        open_fds_allocinfo := checker.open_fds_allocinfo.insertNew fd site },
      IMPORTANT ||| NEED_RET)
  else
    (checker, IMPORTANT ||| NEED_RET)

def closeConcrete (checker : OpenCloseChecker) (fd : UInt64) : OpenCloseChecker × Result :=
  if fd ∉ checker.open_fds then
    (checker, ERROR ||| NEED_ARG0)
  else
    ({ checker with
        open_fds := checker.open_fds.erase fd
        open_fds_allocinfo := checker.open_fds_allocinfo.erase fd },
      IMPORTANT ||| NEED_ARG0)

/-- The site of a matched stream is looked up through the iterator of the element that has
just been erased.
-/
def closeSymbolic (memory : Memory) (checker : OpenCloseChecker) (close_fd : ExprRef)
    : Except Fault (OpenCloseChecker × Result) :=
  match findMatch memory close_fd.expr checker.open_fds_exp with
  | none => .ok (checker, ERROR ||| NEED_ARG0)
  | some none =>
    if checker.dismiss_error then .ok (checker, OK)
    else if isStdioStream memory close_fd then .ok (checker, OK)
    else .ok (checker, ERROR ||| NEED_ARG0)
  | some (some _) => .error .badPointer

def onCall (memory : Memory) (checker : OpenCloseChecker) (call : Call)
    : Except Fault (OpenCloseChecker × Result) :=
  match call.args with
  | some args =>
    if isOpen call.funcname then .ok (checker.openConcrete (args 0) call.site)
    else if call.funcname = "fclose" then .ok (checker.closeConcrete (args 2))
    else .ok (checker, OK)
  | none =>
    if call.funcname = "fclose" then checker.closeSymbolic memory (call.arguments 0)
    else if call.funcname = "close_stdout" then
      .ok ({ checker with dismiss_error := true }, OK)
    else .ok (checker, OK)

def openSymbolic (memory : Memory) (checker : OpenCloseChecker) (result : ExprRef)
    (site : AllocInfo)
    : OpenCloseChecker × Result :=
  match result.expr with
  | .constant value =>
    if value ≠ 0 then
      ({ checker with
          open_fds_exp := insertExp memory.precedes checker.open_fds_exp result
          open_fds_exp_allocinfo :=
            checker.open_fds_exp_allocinfo.insertNew result.node site },
        IMPORTANT ||| NEED_RET)
    else
      (checker, IMPORTANT ||| NEED_RET)
  | .symbolic _ => (checker, IMPORTANT ||| NEED_RET)

def onRet (memory : Memory) (checker : OpenCloseChecker) (ret : Return)
    : OpenCloseChecker × Result :=
  match ret.funcname with
  | none => (checker, OK)
  | some funcname =>
    if isOpen funcname then checker.openSymbolic memory ret.result ret.site
    else if funcname = "close_stdout" then ({ checker with dismiss_error := false }, OK)
    else (checker, OK)

/-- The loop of `report` over open streams, by the site each of them has. A stream without
a site is read past the end of the map.
-/
def reportLoop (place_info : String) (place_hash : UInt64)
    : List (Option AllocInfo) → List (UInt64 × String)
    → Except Fault (List (UInt64 × String) × Bool)
  | [], reported => .ok (reported, false)
  | none :: _, _ => .error .badPointer
  | some site :: rest, reported => do
    let (reported, isReported) :=
      AllocInfo.isReported reported place_info place_hash site.text
    let (reported, error) ← reportLoop place_info place_hash rest reported
    .ok (reported, !isReported || error)

/-- Streams of native code are reported first; the set of their addresses is iterated in
ascending order.
-/
def report (checker : OpenCloseChecker) (callStack : Option String)
    (reported : List (UInt64 × String))
    : Except Fault (List (UInt64 × String) × Result) := do
  let (place_info, place_hash) := AllocInfo.gatherPlaceInfo callStack
  let concrete := (ascending (checker.open_fds.image UInt64.toNat)).map fun fd =>
    checker.open_fds_allocinfo.find? (.ofNat fd)
  let symbolic := checker.open_fds_exp.map fun ref =>
    checker.open_fds_exp_allocinfo.find? ref.node
  let (reported, error) ← reportLoop place_info place_hash (concrete ++ symbolic) reported
  .ok (reported, if error then ERROR else OK)

end OpenCloseChecker

structure SysOpenCloseChecker where
  opened : Table UInt64 FileObject
  written_only : Bool
deriving DecidableEq

namespace SysOpenCloseChecker

def create (written_only : Bool) : SysOpenCloseChecker where
  opened := []
  written_only := written_only

def mayBeEvent (checker : SysOpenCloseChecker) (funcname : String) : Bool :=
  funcname = "open" || funcname = "close" || (!checker.written_only && funcname = "write")

/-- A word passed as `int` and used as a 64-bit key again. -/
def asInt (word : UInt64) : UInt64 :=
  .ofBitVec ((word.toBitVec.setWidth 32).signExtend 64)

def parseOpen (checker : SysOpenCloseChecker) (fd : UInt64) (site : AllocInfo)
    : SysOpenCloseChecker × Result :=
  if fd ≠ minusOne then
    let fo := { (FileObject.create "" minusOne fd).setState .clean with
      alloc_info := some site }
    ({ checker with opened := checker.opened.insertNew fd fo }, IMPORTANT)
  else
    (checker, IMPORTANT)

def parseWrite (checker : SysOpenCloseChecker) (fd : UInt64)
    : SysOpenCloseChecker × Result :=
  if fd ≠ minusOne then
    match checker.opened.find? fd with
    | none => (checker, IMPORTANT)
    | some fo =>
      ({ checker with opened := checker.opened.assign fd (fo.setState .osBuffered) },
        IMPORTANT)
  else
    (checker, IMPORTANT)

def parseClose (checker : SysOpenCloseChecker) (fd : UInt64)
    : SysOpenCloseChecker × Result :=
  if fd ≠ minusOne then
    match checker.opened.find? fd with
    | none => (checker, IMPORTANT)
    | some _ => ({ checker with opened := checker.opened.erase fd }, IMPORTANT)
  else
    (checker, IMPORTANT)

/-- The first argument of a call, from the words or from the expression. -/
def firstArgument (call : Call) : UInt64 :=
  match call.args with
  | some args => args 2
  | none => getIntFromExp (call.arguments 0)

def needs (outcome : SysOpenCloseChecker × Result) (need_args : Result)
    : SysOpenCloseChecker × Result :=
  (outcome.1, outcome.2 ||| need_args)

def onCall (checker : SysOpenCloseChecker) (call : Call) : SysOpenCloseChecker × Result :=
  if call.funcname = "open" then
    match call.args with
    | some args => needs (checker.parseOpen (asInt (args 0)) call.site) NEED_RET
    | none => (checker, IMPORTANT ||| NEED_RET)
  else if call.funcname = "close" then
    needs (checker.parseClose (asInt (firstArgument call))) NEED_ARG0
  else if call.funcname = "write" then
    needs (checker.parseWrite (asInt (firstArgument call))) NEED_ARG0
  else
    (checker, OK)

def onRet (checker : SysOpenCloseChecker) (ret : Return) : SysOpenCloseChecker × Result :=
  match ret.funcname with
  | none => (checker, OK)
  | some funcname =>
    if funcname = "open" then
      needs (checker.parseOpen (asInt (getIntFromExp ret.result)) ret.site) NEED_RET
    else
      (checker, OK)

/-- The site of a descriptor, as the report prints it. -/
def caseInfo (fo : FileObject) : String :=
  (fo.alloc_info.map AllocInfo.text).getD ""

/-- The loop of `report`, with the files it logs as not closed. A file is entered as reported
before it is known whether it counts.
-/
def reportLoop (written_only : Bool) (place_info : String) (place_hash : UInt64)
    : List FileObject → List (UInt64 × String) → List (UInt64 × String) × List FileObject
  | [], reported => (reported, [])
  | fo :: rest, reported =>
    match AllocInfo.isReported reported place_info place_hash (caseInfo fo) with
    | (reported, true) => reportLoop written_only place_info place_hash rest reported
    | (reported, false) =>
      if written_only ∧ fo.state = .clean then
        reportLoop written_only place_info place_hash rest reported
      else
        let (reported, errors) :=
          reportLoop written_only place_info place_hash rest reported
        (reported, fo :: errors)

/-- The texts reported so far are shared by all checkers. -/
def report (checker : SysOpenCloseChecker) (callStack : Option String)
    (reported : List (UInt64 × String))
    : List (UInt64 × String) × List FileObject × Result :=
  let (place_info, place_hash) := AllocInfo.gatherPlaceInfo callStack
  let (reported, errors) := reportLoop checker.written_only place_info place_hash
    (checker.opened.map Prod.snd) reported
  (reported, errors, if errors.length ≠ 0 then ERROR else OK)

end SysOpenCloseChecker

end Woodpecker.Checkers
