import Mathlib.Data.Finset.Basic
import Mathlib.Order.Basic
import Woodpecker.Checkers.Basic
import Woodpecker.Library.Tables

/-! The file permission checker: whether a file is opened after its permissions have been
asked for, or the other way round.

Records are allocated and deleted by hand and reached through two maps of pointers. A
pointer is an index into the list of all records ever allocated, by any checker; deleted ones
are `none`.
-/

namespace Woodpecker.Checkers

open Library

structure FilePermChecker where
  objects : List (Option FileObject)
  files : Table String (List Nat)
  files_by_fd : Table UInt64 Nat
deriving DecidableEq

namespace FilePermChecker

def create : FilePermChecker where
  objects := []
  files := []
  files_by_fd := []

def mayBeEvent (funcname : String) : Bool :=
  funcname = "access" || funcname = "open" || funcname = "open64" || funcname = "close"

/-- Reading through a pointer to a record. -/
def deref (checker : FilePermChecker) (pointer : Nat) : Except Fault FileObject :=
  match checker.objects[pointer]? with
  | some (some object) => .ok object
  | _ => .error .badPointer

def allocate (checker : FilePermChecker) (object : FileObject) : FilePermChecker × Nat :=
  ({ checker with objects := checker.objects ++ [some object] }, checker.objects.length)

def delete (checker : FilePermChecker) (pointer : Nat) : FilePermChecker :=
  { checker with objects := checker.objects.set pointer none }

def R_OK : UInt32 := 4

/-- Whether some record of the list is in the state `CLEAN`. -/
def anyClean (checker : FilePermChecker) : List Nat → Except Fault Bool
  | [] => .ok false
  | pointer :: rest => do
    let object ← checker.deref pointer
    if object.state = .clean then .ok true else checker.anyClean rest

def parseAccess (checker : FilePermChecker) (filename : String) (mode : UInt32)
    : Except Fault (FilePermChecker × Result) :=
  if mode = R_OK then .ok (checker, OK)
  else
    match checker.files.find? filename with
    | some file_list => do
      let clean ← checker.anyClean file_list
      if clean then .ok (checker, ERROR)
      else
        match file_list with
        | [pointer] => do
          let object ← checker.deref pointer
          if object.state = .accessed then .ok (checker, IMPORTANT)
          else .error .assertion
        | _ => .error .assertion
    | none =>
      let (checker, object) :=
        checker.allocate ((FileObject.create filename minusOne minusOne).setState .accessed)
      .ok ({ checker with files := checker.files.assign filename [object] }, IMPORTANT)

/-- Whether some record of the list is in the state `ACCESSED`; the ones before it are
asserted to be `CLEAN`.
-/
def anyAccessed (checker : FilePermChecker) : List Nat → Except Fault Bool
  | [] => .ok false
  | pointer :: rest => do
    let object ← checker.deref pointer
    if object.state = .accessed then .ok true
    else if object.state = .clean then checker.anyAccessed rest
    else .error .assertion

/-- The state of the record that had the descriptor before is read for a message. -/
def readEarlier (checker : FilePermChecker) (fd : UInt64) : Except Fault Unit :=
  match checker.files_by_fd.find? fd with
  | some pointer => do
    let _ ← checker.deref pointer
    .ok ()
  | none => .ok ()

def parseOpen (checker : FilePermChecker) (filename : String) (fd : UInt64)
    : Except Fault (FilePermChecker × Result) := do
  let file_list := (checker.files.find? filename).getD []
  let accessed ← checker.anyAccessed file_list
  if accessed then .ok (checker, ERROR)
  else
    let (checker, object) :=
      checker.allocate ((FileObject.create filename minusOne fd).setState .clean)
    let _ ← checker.readEarlier fd
    .ok ({ checker with
        files := checker.files.assign filename (file_list ++ [object])
        files_by_fd := checker.files_by_fd.assign fd object },
      IMPORTANT)

/-- A closed record is deleted, but its entry in `files_by_fd` stays. -/
def parseClose (checker : FilePermChecker) (fd : UInt64)
    : Except Fault (FilePermChecker × Result) :=
  match checker.files_by_fd.find? fd with
  | none => .ok (checker, IMPORTANT)
  | some pointer => do
    let object ← checker.deref pointer
    match checker.files.find? object.filename with
    | none => .error .assertion
    | some [only] =>
      if only = pointer then
        .ok (({ checker with files := checker.files.erase object.filename }).delete
          pointer, IMPORTANT)
      else .error .assertion
    | some named_files =>
      .ok (({ checker with
          files := checker.files.assign object.filename (named_files.erase pointer) }).delete
        pointer, IMPORTANT)

/-- The copies of the records of one name, for the copy constructor. A copy that has a
descriptor is entered for it.
-/
def copyList (copied : FilePermChecker) : List Nat → Except Fault (FilePermChecker × List Nat)
  | [] => .ok (copied, [])
  | pointer :: rest => do
    let object ← copied.deref pointer
    let (copied, fresh) := copied.allocate object
    let copied :=
      if object.fd ≠ minusOne then
        { copied with files_by_fd := copied.files_by_fd.assign object.fd fresh }
      else copied
    let (copied, my_vec) ← copied.copyList rest
    .ok (copied, fresh :: my_vec)

def copyFiles (copied : FilePermChecker) : Table String (List Nat) → Except Fault FilePermChecker
  | [] => .ok copied
  | (filename, file_list) :: rest => do
    let (copied, my_vec) ← copied.copyList file_list
    copyFiles { copied with files := copied.files.assign filename my_vec } rest

/-- The copy constructor. The new checker allocates its records where the old one did. -/
def clone (checker : FilePermChecker) : Except Fault FilePermChecker :=
  copyFiles { checker with files := [], files_by_fd := [] } checker.files

/-- Deleting a record a second time is an error. -/
def deleteAll (checker : FilePermChecker) : List Nat → Except Fault FilePermChecker
  | [] => .ok checker
  | pointer :: rest => do
    let _ ← checker.deref pointer
    (checker.delete pointer).deleteAll rest

/-- The destructor deletes what `files` leads to. -/
def destroy (checker : FilePermChecker) : Except Fault FilePermChecker :=
  checker.deleteAll (checker.files.flatMap Prod.snd)

def needs (outcome : Except Fault (FilePermChecker × Result)) (need_args : Result)
    : Except Fault (FilePermChecker × Result) := do
  let (checker, result) ← outcome
  .ok (checker, result ||| need_args)

/-- What `access` asks for; `stat` and `stat64` count as asking for more than reading. -/
def accessMode (call : Call) : UInt32 :=
  if call.funcname = "access" then
    match call.args with
    | some args => (args 3).toUInt32
    | none => (getIntFromExp (call.arguments 1)).toUInt32
  else 0x1481

def onCall (memory : Memory) (checker : FilePermChecker) (call : Call)
    : Except Fault (FilePermChecker × Result) :=
  if call.funcname = "open" ∨ call.funcname = "open64" then
    match call.args with
    | some args =>
      needs (checker.parseOpen (memory.string (args 2)) (args 0)) (NEED_ARG0 ||| NEED_RET)
    | none => .ok (checker, IMPORTANT ||| (NEED_ARG0 ||| NEED_RET))
  else if call.funcname = "close" then
    match call.args with
    | some args => needs (checker.parseClose (args 2)) NEED_ARG0
    | none => needs (checker.parseClose (getIntFromExp (call.arguments 0))) NEED_ARG0
  else if call.funcname = "access" ∨ call.funcname = "stat" ∨ call.funcname = "stat64" then
    let filename :=
      match call.args with
      | some args => memory.string (args 2)
      | none => memory.charPtr (call.arguments 0)
    needs (checker.parseAccess filename (accessMode call)) (NEED_ARG0 ||| NEED_ARG1)
  else
    .ok (checker, OK)

def onRet (memory : Memory) (checker : FilePermChecker) (ret : Return)
    : Except Fault (FilePermChecker × Result) :=
  match ret.funcname with
  | none => .ok (checker, OK)
  | some funcname =>
    if funcname = "open" ∨ funcname = "open64" then
      needs (checker.parseOpen (memory.charPtr (ret.getCallingArgument 1))
        (getIntFromExp ret.result)) (NEED_RET ||| NEED_ARG0)
    else
      .ok (checker, OK)

end FilePermChecker

end Woodpecker.Checkers
