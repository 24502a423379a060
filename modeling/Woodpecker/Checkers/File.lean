import Mathlib.Data.Finset.Basic
import Woodpecker.Checkers.Basic

/-! The file checker: four sets of stream handles, moved about by calls and returns. -/

namespace Woodpecker.Checkers

structure FileChecker where
  open_fds : Finset UInt64
  err_fds : Finset UInt64
  dirty_fds : Finset UInt64
  err_dirty_fds : Finset UInt64
deriving DecidableEq

namespace FileChecker

def create : FileChecker where
  open_fds := ∅
  err_fds := ∅
  dirty_fds := ∅
  err_dirty_fds := ∅

def isClearerr (funcname : String) : Bool :=
  funcname = "clearerr" || funcname = "clearerr_unlocked"

def isOpen (funcname : String) : Bool :=
  funcname = "fopen" || funcname = "fopen64" || funcname = "fdopen"

def isFerror (funcname : String) : Bool :=
  funcname = "ferror" || funcname = "ferror_unlocked"

/-- The test both `mayBeEvent` and `onCall` make before they look at the other names. -/
def longF (funcname : String) : Bool :=
  ¬ (funcname.length < 5 ∨ funcname.toList.head? ≠ some 'f')

def mayBeEvent (funcname : String) : Bool :=
  if isClearerr funcname then true
  else if ¬ longF funcname then false
  else funcname ∈ ["fopen", "fopen64", "fdopen", "fclose", "fputs", "fputs_unlocked",
    "fgets", "fgets_unlocked", "fprintf", "fread", "fread_unlocked", "fwrite",
    "fwrite_unlocked", "ferror", "ferror_unlocked"]

/-- The position of the stream among the arguments of a read or write. -/
def streamIndex (funcname : String) : Option Nat :=
  if funcname ∈ ["fread", "fwrite", "fread_unlocked", "fwrite_unlocked"] then some 3
  else if funcname ∈ ["fputs", "fputs_unlocked"] then some 1
  else if funcname ∈ ["fgets", "fgets_unlocked"] then some 2
  else if funcname = "fprintf" then some 0
  else none

/-- `clearerr`: an error is forgotten, in each of the two sets that record one. -/
def clearError (checker : FileChecker) (fp : UInt64) : FileChecker :=
  let checker :=
    if fp ∈ checker.err_fds then
      { checker with
        err_fds := checker.err_fds.erase fp
        open_fds := insert fp checker.open_fds }
    else checker
  if fp ∈ checker.err_dirty_fds then
    { checker with
      err_dirty_fds := checker.err_dirty_fds.erase fp
      dirty_fds := insert fp checker.dirty_fds }
  else checker

def insertOpen (checker : FileChecker) (fp : UInt64) : FileChecker :=
  if fp ≠ 0 then { checker with open_fds := insert fp checker.open_fds } else checker

/-- `fclose`: the handle leaves every set, and it is an error when it was in none. -/
def closeStream (checker : FileChecker) (fd : UInt64) : FileChecker × Result :=
  let found := fd ∈ checker.open_fds ∨ fd ∈ checker.err_fds ∨ fd ∈ checker.dirty_fds
    ∨ fd ∈ checker.err_dirty_fds
  let closed : FileChecker :=
    { open_fds := checker.open_fds.erase fd
      err_fds := checker.err_fds.erase fd
      dirty_fds := checker.dirty_fds.erase fd
      err_dirty_fds := checker.err_dirty_fds.erase fd }
  if ¬ found then (closed, ERROR ||| NEED_ARG0) else (closed, IMPORTANT ||| NEED_ARG0)

/-- `ferror` with a result other than zero. -/
def detectError (checker : FileChecker) (fp : UInt64) : FileChecker :=
  if fp ∈ checker.open_fds then
    { checker with
      open_fds := checker.open_fds.erase fp
      err_fds := insert fp checker.err_fds }
  else if fp ∈ checker.err_fds ∨ fp ∈ checker.err_dirty_fds then
    checker
  else if fp ∈ checker.dirty_fds then
    { checker with
      dirty_fds := checker.dirty_fds.erase fp
      err_dirty_fds := insert fp checker.err_dirty_fds }
  else
    checker

def testError (checker : FileChecker) (ret fp : UInt64) : FileChecker :=
  if ret ≠ 0 then checker.detectError fp else checker

/-- A read or write on a stream that is not ignored. -/
def useStream (checker : FileChecker) (fp : UInt64) (need_args : Result)
    : FileChecker × Result :=
  if fp ∉ checker.open_fds then
    if fp ∈ checker.err_fds ∨ fp ∈ checker.err_dirty_fds then
      (checker, ERROR ||| need_args)
    else if fp ∈ checker.dirty_fds then
      (checker, IMPORTANT ||| need_args)
    else
      (checker, ERROR ||| need_args)
  else
    ({ checker with
        open_fds := checker.open_fds.erase fp
        dirty_fds := insert fp checker.dirty_fds },
      IMPORTANT ||| need_args)

/-- The value of an argument, from the words or from the expression. -/
def argument (call : Call) (index : Nat) : UInt64 :=
  match call.args with
  | some args => args (2 + index)
  | none => getIntFromExp (call.arguments index)

/-- The object a constant expression points to. -/
def resolved (memory : Memory) (ref : ExprRef) : Option MemoryObject :=
  match ref.expr with
  | .constant value => memory.resolveOne value
  | .symbolic _ => none

/-- `fclose` of a standard stream by interpreted code is passed over. -/
def closeIgnored (memory : Memory) (call : Call) : Bool :=
  match call.args with
  | some _ => false
  | none => (resolved memory (call.arguments 0)).any (·.name = "_stdio_streams")

/-- Reads and writes on standard streams and on streams without a descriptor are passed
over. Native code is asked for the `_fileno` of the stream, interpreted code for the object
behind the pointer.
-/
def useIgnored (memory : Memory) (call : Call) (index : Nat) : Bool :=
  match call.args with
  | some args => memory.fileno (args (2 + index)) ≤ 2
  | none =>
    (resolved memory (call.arguments index)).any fun object =>
      object.name = "_stdio_streams" || object.filedes.any (· < 0)

def onCall (memory : Memory) (checker : FileChecker) (call : Call) : FileChecker × Result :=
  if isClearerr call.funcname then
    (checker.clearError (argument call 0), IMPORTANT ||| NEED_ARG0)
  else if ¬ longF call.funcname then
    (checker, OK)
  else if isOpen call.funcname then
    match call.args with
    | some args => (checker.insertOpen (args 0), IMPORTANT ||| NEED_RET)
    | none => (checker, OK)
  else if call.funcname = "fclose" then
    if closeIgnored memory call then (checker, OK)
    else checker.closeStream (argument call 0)
  else if isFerror call.funcname then
    match call.args with
    | some args =>
      (checker.testError (args 0) (args 2), IMPORTANT ||| (NEED_RET ||| NEED_ARG0))
    | none => (checker, IMPORTANT ||| (NEED_RET ||| NEED_ARG0))
  else
    match streamIndex call.funcname with
    | none => (checker, OK)
    | some index =>
      if useIgnored memory call index then (checker, OK)
      else checker.useStream (argument call index) (needArg index)

def onRet (checker : FileChecker) (ret : Return) : FileChecker × Result :=
  match ret.funcname with
  | none => (checker, OK)
  | some funcname =>
    if isOpen funcname then
      (checker.insertOpen (getIntFromExp ret.result), IMPORTANT ||| NEED_RET)
    else if isFerror funcname then
      (checker.testError (getIntFromExp ret.result)
        (getIntFromExp (ret.getCallingArgument 1)), IMPORTANT ||| (NEED_RET ||| NEED_ARG0))
    else
      (checker, OK)

def report (checker : FileChecker) : Result :=
  if checker.dirty_fds ≠ ∅ ∨ checker.err_dirty_fds ≠ ∅ then ERROR else OK

end FileChecker

end Woodpecker.Checkers
