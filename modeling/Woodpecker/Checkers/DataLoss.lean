import Mathlib.Data.Finset.Basic
import Woodpecker.Checkers.Basic

/-! The data loss checker: records of open files and the names that have been unlinked. -/

namespace Woodpecker.Checkers

open Library

structure DataLossChecker where
  files : List FileObject
  unlinked_files : Finset String
deriving DecidableEq

namespace DataLossChecker

def create : DataLossChecker where
  files := []
  unlinked_files := ∅

def mayBeEvent (funcname : String) : Bool :=
  funcname ∈ ["fopen", "fopen64", "fdopen", "open", "open64", "fputs", "fputs_unlocked",
    "fwrite", "fwrite_unlocked", "fprintf", "fflush", "fflush_unlocked", "fsync",
    "fdatasync", "fileno", "fileno_unlocked", "fclose", "unlink", "creat", "rename"]

/-- The position of the stream among the arguments of a buffered write. -/
def streamIndex (funcname : String) : Option Nat :=
  if funcname = "fwrite" ∨ funcname = "fwrite_unlocked" then some 3
  else if funcname = "fputs" ∨ funcname = "fputs_unlocked" then some 1
  else if funcname = "fprintf" then some 0
  else none

/-- `O_CREAT` and the flags `creat` opens with. -/
def O_CREAT : UInt64 := 0o100
def creatFlags : UInt64 := 0o1 ||| O_CREAT ||| 0o1000

/-- A new record at the end of the list. -/
def push (checker : DataLossChecker) (file : FileObject) : DataLossChecker :=
  { checker with files := checker.files ++ [file.setState .clean] }

def forget (checker : DataLossChecker) (filename : String) : DataLossChecker :=
  { checker with unlinked_files := checker.unlinked_files.erase filename }

def parseFOpen (checker : DataLossChecker) (filename mode : String) (fp : UInt64)
    : DataLossChecker × Result :=
  if fp = 0 then (checker, IMPORTANT)
  else if filename = "" ∨ mode = "" then (checker, IMPORTANT)
  else
    -- Mode `r` does not create the file, so an unlinked name stays unlinked.
    let checker :=
      if mode.toList.head? ≠ some 'r' then checker.forget filename else checker
    (checker.push (.create filename fp minusOne), IMPORTANT)

/-- The descriptor is compared with `(uint32_t)-1`. -/
def parseOpen (checker : DataLossChecker) (filename : String) (flag fd : UInt64)
    : DataLossChecker × Result :=
  if fd = 0xFFFFFFFF then (checker, IMPORTANT)
  else if filename = "" then (checker, IMPORTANT)
  else
    let checker := if flag &&& O_CREAT ≠ 0 then checker.forget filename else checker
    (checker.push (.create filename minusOne fd), IMPORTANT)

/-- The search of `fdopen`: the first record with the descriptor and no stream takes the
stream; otherwise the last record with the descriptor gives the new record its name.
-/
def fdopenFiles (fd fp : UInt64)
    : List FileObject → Option String → Sum (List FileObject) (Option String)
  | [], found => .inr found
  | file :: rest, found =>
    if file.fd = fd then
      if file.fp = minusOne then .inl ({ file with fp } :: rest)
      else
        match fdopenFiles fd fp rest (some file.filename) with
        | .inl files => .inl (file :: files)
        | .inr name => .inr name
    else
      match fdopenFiles fd fp rest found with
      | .inl files => .inl (file :: files)
      | .inr name => .inr name

def parseFdOpen (checker : DataLossChecker) (fd fp : UInt64) : DataLossChecker × Result :=
  if fp = 0 then (checker, IMPORTANT)
  else
    match fdopenFiles fd fp checker.files none with
    | .inl files => ({ checker with files }, IMPORTANT)
    | .inr (some filename) => (checker.push (.create filename fp fd), IMPORTANT)
    | .inr none => (checker.push (.create "" fp fd), IMPORTANT)

/-- The loops that stop at the first record they match. -/
def updateFirst (matching : FileObject → Bool) (update : FileObject → FileObject)
    : List FileObject → List FileObject
  | [] => []
  | file :: rest =>
    if matching file then update file :: rest
    else file :: updateFirst matching update rest

def bufferWrite (file : FileObject) : FileObject :=
  file.setState .libBuffered

def directWrite (file : FileObject) : FileObject :=
  if file.state = .clean then file.setState .osBuffered else file

def flush (file : FileObject) : FileObject :=
  if file.state = .libBuffered then file.setState .osBuffered else file

/-- `fclose` flushes, then takes stream and descriptor from the record. -/
def flushClose (file : FileObject) : FileObject :=
  { flush file with fp := minusOne, fd := minusOne }

def sync (file : FileObject) : FileObject :=
  if file.state = .osBuffered then file.setState .clean else file

/-- `close` goes through all records; one that still has a stream ends it with an error. -/
def closeFiles (fd : UInt64) : List FileObject → List FileObject × Bool
  | [] => ([], false)
  | file :: rest =>
    if file.fd = fd then
      if file.fp ≠ minusOne then (file :: rest, true)
      else
        let (files, failed) := closeFiles fd rest
        ({ file with fd := minusOne } :: files, failed)
    else
      let (files, failed) := closeFiles fd rest
      (file :: files, failed)

/-- `fileno`: the first record of the stream loses its descriptor, all other records with
the descriptor are removed, and then the descriptor is stored at the index the record had
before the removal.
-/
def filenoFiles (fp fd : UInt64) (files : List FileObject) : Except Fault (List FileObject) :=
  match files.findIdx? (·.fp = fp) with
  | none => .ok files
  | some index =>
    let left := (files.modify index fun file => { file with fd := minusOne }).filter
      (·.fd ≠ fd)
    if index < left.length then .ok (left.modify index fun file => { file with fd })
    else .error .badPointer

/-- `rename` goes through the records of the old name; one with unsaved data ends it with
an error.
-/
def renameFiles (filename target : String) : List FileObject → List FileObject × Bool
  | [] => ([], false)
  | file :: rest =>
    if file.filename = filename then
      if file.state = .libBuffered ∨ file.state = .osBuffered then (file :: rest, true)
      else
        let (files, failed) := renameFiles filename target rest
        ({ file with filename := target } :: files, failed)
    else
      let (files, failed) := renameFiles filename target rest
      (file :: files, failed)

def verdict (failed : Bool) : Result :=
  if failed then ERROR else IMPORTANT

def parseRename (checker : DataLossChecker) (filename target : String)
    : DataLossChecker × Result :=
  if filename = "" ∨ target = "" then (checker, IMPORTANT)
  else if target ∈ checker.unlinked_files then (checker, ERROR)
  else
    let unlinked_files :=
      if filename ≠ target then insert filename checker.unlinked_files
      else checker.unlinked_files
    let (files, failed) := renameFiles filename target checker.files
    ({ files, unlinked_files }, verdict failed)

/-- The value of an argument, from the words or from the expression. -/
def argument (call : Call) (index : Nat) : UInt64 :=
  match call.args with
  | some args => args (2 + index)
  | none => getIntFromExp (call.arguments index)

/-- The string an argument points to, in native memory or in the address space. -/
def stringArgument (memory : Memory) (call : Call) (index : Nat) : String :=
  match call.args with
  | some args => memory.string (args (2 + index))
  | none => memory.charPtr (call.arguments index)

def needs (outcome : DataLossChecker × Result) (need_args : Result)
    : Except Fault (DataLossChecker × Result) :=
  .ok (outcome.1, outcome.2 ||| need_args)

def onFirst (checker : DataLossChecker) (matching : FileObject → Bool)
    (update : FileObject → FileObject)
    : DataLossChecker :=
  { checker with files := updateFirst matching update checker.files }

def onCall (memory : Memory) (checker : DataLossChecker) (call : Call)
    : Except Fault (DataLossChecker × Result) :=
  if call.funcname = "fopen" ∨ call.funcname = "fopen64" then
    match call.args with
    | some args =>
      needs (checker.parseFOpen (memory.string (args 2)) (memory.string (args 3)) (args 0))
        (NEED_ARG0 ||| NEED_ARG1 ||| NEED_RET)
    | none => .ok (checker, IMPORTANT ||| (NEED_ARG0 ||| NEED_ARG1 ||| NEED_RET))
  else if call.funcname = "open" ∨ call.funcname = "open64" then
    match call.args with
    | some args =>
      needs (checker.parseOpen (memory.string (args 2)) (args 3) (args 0))
        (NEED_ARG0 ||| NEED_ARG1 ||| NEED_RET)
    | none => .ok (checker, IMPORTANT ||| (NEED_ARG0 ||| NEED_ARG1 ||| NEED_RET))
  else if call.funcname = "creat" then
    match call.args with
    | some args =>
      needs (checker.parseOpen (memory.string (args 2)) creatFlags (args 0))
        (NEED_RET ||| NEED_ARG0)
    | none => .ok (checker, IMPORTANT)
  else if call.funcname = "fdopen" then
    match call.args with
    | some args =>
      needs (checker.parseFdOpen (args 2) (args 0)) (NEED_ARG0 ||| NEED_ARG1 ||| NEED_RET)
    | none => .ok (checker, IMPORTANT ||| (NEED_ARG0 ||| NEED_ARG1 ||| NEED_RET))
  else if call.funcname = "write" then
    -- Descriptors up to 2 are the standard streams.
    if argument call 0 ≤ 2 then .ok (checker, OK)
    else .ok (checker.onFirst (·.fd = argument call 0) directWrite, IMPORTANT ||| NEED_ARG0)
  else if call.funcname = "fflush" ∨ call.funcname = "fflush_unlocked" then
    .ok (checker.onFirst (·.fp = argument call 0) flush, IMPORTANT ||| NEED_ARG0)
  else if call.funcname = "fclose" then
    .ok (checker.onFirst (·.fp = argument call 0) flushClose, IMPORTANT ||| NEED_ARG0)
  else if call.funcname = "close" then
    let (files, failed) := closeFiles (argument call 0) checker.files
    needs ({ checker with files }, verdict failed) NEED_ARG0
  else if call.funcname = "fileno" ∨ call.funcname = "fileno_unlocked" then
    match call.args with
    | some args => do
      let files ← filenoFiles (args 2) (args 0) checker.files
      .ok ({ checker with files }, IMPORTANT ||| (NEED_ARG0 ||| NEED_RET))
    | none => .ok (checker, IMPORTANT ||| (NEED_ARG0 ||| NEED_RET))
  else if call.funcname = "fsync" ∨ call.funcname = "fdatasync" then
    .ok (checker.onFirst (·.fd = argument call 0) sync, IMPORTANT ||| NEED_ARG0)
  else if call.funcname = "unlink" then
    let filename := stringArgument memory call 0
    if filename = "" then .ok (checker, IMPORTANT ||| NEED_ARG0)
    else
      .ok ({ checker with unlinked_files := insert filename checker.unlinked_files },
        IMPORTANT ||| NEED_ARG0)
  else if call.funcname = "rename" then
    needs (checker.parseRename (stringArgument memory call 0) (stringArgument memory call 1))
      (NEED_ARG0 ||| NEED_ARG1)
  else
    match streamIndex call.funcname with
    | some index =>
      .ok (checker.onFirst (·.fp = argument call index) bufferWrite,
        IMPORTANT ||| needArg index)
    | none => .ok (checker, OK)

def onRet (memory : Memory) (checker : DataLossChecker) (ret : Return)
    : Except Fault (DataLossChecker × Result) :=
  match ret.funcname with
  | none => .ok (checker, OK)
  | some funcname =>
    let argument := ret.getCallingArgument
    if funcname = "fopen" ∨ funcname = "fopen64" then
      needs (checker.parseFOpen (memory.charPtr (argument 1)) (memory.charPtr (argument 2))
        (getIntFromExp ret.result)) (NEED_ARG0 ||| NEED_ARG1 ||| NEED_RET)
    else if funcname = "open" ∨ funcname = "open64" then
      needs (checker.parseOpen (memory.charPtr (argument 1)) (getIntFromExp (argument 2))
        (getIntFromExp ret.result)) (NEED_ARG0 ||| NEED_ARG1 ||| NEED_RET)
    else if funcname = "creat" then
      needs (checker.parseOpen (memory.charPtr (argument 1)) creatFlags
        (getIntFromExp ret.result)) (NEED_ARG0 ||| NEED_RET)
    else if funcname = "fdopen" then
      needs (checker.parseFdOpen (getIntFromExp (argument 1)) (getIntFromExp ret.result))
        (NEED_RET ||| NEED_ARG0 ||| NEED_ARG1)
    else if funcname = "fileno" ∨ funcname = "fileno_unlocked" then do
      let files ← filenoFiles (getIntFromExp (argument 1)) (getIntFromExp ret.result)
        checker.files
      .ok ({ checker with files }, IMPORTANT ||| (NEED_RET ||| NEED_ARG0))
    else
      .ok (checker, OK)

end DataLossChecker

end Woodpecker.Checkers
