import Mathlib.Data.Finset.Basic
import Woodpecker.Checkers.Basic

/-! The lock checker: two sets of mutex addresses, those initialised and those locked. -/

namespace Woodpecker.Checkers

structure LockChecker where
  init_locks : Finset UInt64
  locked_locks : Finset UInt64
deriving DecidableEq

namespace LockChecker

def create : LockChecker where
  init_locks := ∅
  locked_locks := ∅

def mayBeEvent (funcname : String) : Bool :=
  funcname = "pthread_mutex_init"
    || funcname = "pthread_mutex_lock"
    || funcname = "pthread_mutex_unlock"
    || funcname = "pthread_mutex_destroy"

def onInit (checker : LockChecker) (mutex : UInt64) : LockChecker × Result :=
  if mutex ∈ checker.init_locks then
    (checker, ERROR ||| NEED_ARG0)
  else
    ({ checker with init_locks := insert mutex checker.init_locks }, IMPORTANT ||| NEED_ARG0)

def onLock (checker : LockChecker) (mutex : UInt64) : LockChecker × Result :=
  if mutex ∉ checker.init_locks then
    (checker, ERROR ||| NEED_ARG0)
  else if mutex ∈ checker.locked_locks then
    (checker, ERROR ||| NEED_ARG0)
  else
    ({ checker with locked_locks := insert mutex checker.locked_locks },
      IMPORTANT ||| NEED_ARG0)

def onUnlock (checker : LockChecker) (mutex : UInt64) : LockChecker × Result :=
  if mutex ∉ checker.init_locks then
    (checker, ERROR ||| NEED_ARG0)
  else if mutex ∉ checker.locked_locks then
    (checker, ERROR ||| NEED_ARG0)
  else
    ({ checker with locked_locks := checker.locked_locks.erase mutex },
      IMPORTANT ||| NEED_ARG0)

def onDestroy (checker : LockChecker) (mutex : UInt64) : LockChecker × Result :=
  if mutex ∈ checker.locked_locks then
    (checker, ERROR ||| NEED_ARG0)
  else if mutex ∉ checker.init_locks then
    (checker, ERROR ||| NEED_ARG0)
  else
    ({ checker with init_locks := checker.init_locks.erase mutex },
      IMPORTANT ||| NEED_ARG0)

/-- Only calls with concrete words are looked at. -/
def onCall (checker : LockChecker) (call : Call) : LockChecker × Result :=
  match call.args with
  | none => (checker, OK)
  | some args =>
    if call.funcname = "pthread_mutex_init" then checker.onInit (args 2)
    else if call.funcname = "pthread_mutex_lock" then checker.onLock (args 2)
    else if call.funcname = "pthread_mutex_unlock" then checker.onUnlock (args 2)
    else if call.funcname = "pthread_mutex_destroy" then checker.onDestroy (args 2)
    else (checker, OK)

end LockChecker

end Woodpecker.Checkers
