import Mathlib.Data.Finset.Basic
import Mathlib.Order.Basic
import Woodpecker.Checkers.Basic
import Woodpecker.Library.Tables

/-! The checker for calls that must come in pairs, and the leak checker built on it. -/

namespace Woodpecker.Checkers

open Library

structure PairwiseChecker where
  started : Table UInt64 AllocInfo
  start_funcs : Finset String
  end_funcs : Finset String
  ignore_set : Finset UInt64
  ignore_ops : Int
deriving DecidableEq

namespace PairwiseChecker

def create (start_funcs end_funcs : Finset String) (ignore_set : Finset UInt64)
    : PairwiseChecker where
  started := []
  start_funcs := start_funcs
  end_funcs := end_funcs
  ignore_set := ignore_set
  ignore_ops := 0

def mayBeEvent (checker : PairwiseChecker) (funcname : String) : Bool :=
  funcname ∈ checker.start_funcs || funcname ∈ checker.end_funcs

def parseStart (checker : PairwiseChecker) (ret : UInt64) (site : AllocInfo)
    : PairwiseChecker × Result :=
  if ret ∈ checker.ignore_set then (checker, IMPORTANT)
  else ({ checker with started := checker.started.insertNew ret site }, IMPORTANT)

def parseEnd (checker : PairwiseChecker) (arg1 : UInt64) : PairwiseChecker × Result :=
  if arg1 ∈ checker.ignore_set then (checker, IMPORTANT)
  else if (checker.started.find? arg1).isSome then
    ({ checker with started := checker.started.erase arg1 }, IMPORTANT)
  else (checker, ERROR)

def needs (outcome : PairwiseChecker × Result) (need_args : Result)
    : PairwiseChecker × Result :=
  (outcome.1, outcome.2 ||| need_args)

/-- `mayBeEvent` is a virtual function and is passed as a parameter. -/
def onCall (mayBeEvent : String → Bool) (checker : PairwiseChecker) (call : Call)
    : PairwiseChecker × Result :=
  if checker.ignore_ops ≠ 0 then (checker, OK)
  else if ¬ mayBeEvent call.funcname then (checker, OK)
  else
    match call.args with
    | some args =>
      if call.funcname ∈ checker.start_funcs then
        needs (checker.parseStart (args 0) call.site) NEED_RET
      else if call.funcname ∈ checker.end_funcs then
        needs (checker.parseEnd (args 2)) NEED_ARG0
      else (checker, OK)
    | none =>
      if call.funcname ∈ checker.end_funcs then
        needs (checker.parseEnd (getIntFromExp (call.arguments 0))) NEED_ARG0
      else (checker, OK)

def onRet (mayBeEvent : String → Bool) (checker : PairwiseChecker) (ret : Return)
    : PairwiseChecker × Result :=
  match ret.funcname with
  | none => (checker, OK)
  | some funcname =>
    if checker.ignore_ops ≠ 0 then (checker, OK)
    else if ¬ mayBeEvent funcname then (checker, OK)
    else if funcname ∈ checker.start_funcs then
      needs (checker.parseStart (getIntFromExp ret.result) ret.site) NEED_RET
    else (checker, OK)

end PairwiseChecker

/-- The leak checker also keeps the line pointer each thread entered `getline` with. -/
structure LeakChecker where
  pairs : PairwiseChecker
  callargs : Table Int UInt64
deriving DecidableEq

namespace LeakChecker

def create : LeakChecker where
  pairs := .create {"malloc", "calloc"} {"free"} {0}
  callargs := []

def mayBeEvent (checker : LeakChecker) (funcname : String) : Bool :=
  if funcname = "realloc" ∨ funcname = "strdup" ∨ funcname = "strndup"
      ∨ funcname = "getline" then true
  else checker.pairs.mayBeEvent funcname

/-- The functions whose own heap operations are ignored. -/
def isIgnored (funcname : String) : Bool :=
  funcname ∈ ["init_cur_collate", "__fd_open", "write", "_stdio_fopen", "fclose",
    "klee_init_env"]

def setIgnoreOps (checker : LeakChecker) (ignore_ops : Int) : LeakChecker :=
  { checker with pairs := { checker.pairs with ignore_ops } }

def withPairs (checker : LeakChecker) (outcome : PairwiseChecker × Result)
    : LeakChecker × Result :=
  ({ checker with pairs := outcome.1 }, outcome.2)

/-- The old block ends and the new one starts, with the results of both ignored. -/
def parseRealloc (checker : PairwiseChecker) (ptr size ret : UInt64) (site : AllocInfo)
    : PairwiseChecker × Result :=
  if ptr = 0 then checker.parseStart ret site
  else if size = 0 then checker.parseEnd ptr
  else if ret = 0 then (checker, IMPORTANT)
  else (((checker.parseEnd ptr).1.parseStart ret site).1, IMPORTANT)

def startIf (checker : PairwiseChecker) (ret : UInt64) (site : AllocInfo)
    : PairwiseChecker × Result :=
  if ret ≠ 0 then ((checker.parseStart ret site).1, IMPORTANT ||| NEED_RET)
  else (checker, IMPORTANT ||| NEED_RET)

/-- `getline` entered: the counter is set, not incremented. -/
def enterGetline (memory : Memory) (checker : LeakChecker) (call : Call) : LeakChecker :=
  let checker :=
    match call.args with
    | none =>
      { checker with callargs :=
          checker.callargs.insertNew call.thread (memory.pointee (call.arguments 0)) }
    | some _ => checker
  checker.setIgnoreOps 1

def onCall (memory : Memory) (checker : LeakChecker) (call : Call)
    : LeakChecker × Result :=
  let checker :=
    if isIgnored call.funcname then checker.setIgnoreOps (checker.pairs.ignore_ops + 1)
    else checker
  if checker.pairs.ignore_ops ≠ 0 then (checker, OK)
  else if call.funcname = "realloc" then
    let need_args := NEED_RET ||| NEED_ARG0 ||| NEED_ARG1
    match call.args with
    | some args =>
      checker.withPairs (PairwiseChecker.needs
        (parseRealloc checker.pairs (args 2) (args 3) (args 0) call.site) need_args)
    | none => (checker, IMPORTANT ||| need_args)
  else if call.funcname = "getline" then
    (checker.enterGetline memory call, IMPORTANT ||| NEED_ARG0)
  else if call.funcname = "strdup" ∨ call.funcname = "strndup" then
    match call.args with
    | some args => checker.withPairs (startIf checker.pairs (args 0) call.site)
    | none => (checker, IMPORTANT ||| NEED_RET)
  else
    checker.withPairs (checker.pairs.onCall checker.mayBeEvent call)

/-- `getline` left: the line may have been moved by a hidden `realloc`. -/
def leaveGetline (memory : Memory) (checker : LeakChecker) (ret : Return) : LeakChecker :=
  let lineaddr := memory.pointee (ret.getCallingArgument 1)
  let enterargs := checker.callargs.find? ret.thread
  let checker := { checker with callargs := checker.callargs.erase ret.thread }
  match enterargs with
  | none => checker
  | some lastlineaddr =>
    if lastlineaddr = minusOne ∨ lineaddr = minusOne ∨ lastlineaddr = lineaddr then checker
    else
      let ended :=
        if lastlineaddr ≠ 0 then (checker.pairs.parseEnd lastlineaddr).1
        else checker.pairs
      { checker with pairs := (ended.parseStart lineaddr ret.site).1 }

def onRet (memory : Memory) (checker : LeakChecker) (ret : Return) : LeakChecker × Result :=
  match ret.funcname with
  | none => (checker, OK)
  | some funcname =>
    let checker :=
      if isIgnored funcname ∨ funcname = "getline" then
        checker.setIgnoreOps (checker.pairs.ignore_ops - 1)
      else checker
    if checker.pairs.ignore_ops ≠ 0 then (checker, OK)
    else if funcname = "realloc" then
      checker.withPairs (PairwiseChecker.needs
        (parseRealloc checker.pairs (getIntFromExp (ret.getCallingArgument 1))
          (getIntFromExp (ret.getCallingArgument 2)) (getIntFromExp ret.result) ret.site)
        (NEED_RET ||| NEED_ARG0 ||| NEED_ARG1))
    else if funcname = "getline" then
      (checker.leaveGetline memory ret, IMPORTANT ||| NEED_ARG0)
    else if funcname = "strdup" ∨ funcname = "strndup" then
      checker.withPairs (startIf checker.pairs (getIntFromExp ret.result) ret.site)
    else
      checker.withPairs (checker.pairs.onRet checker.mayBeEvent ret)

end LeakChecker

end Woodpecker.Checkers
