import Woodpecker.Library.Faults
import Woodpecker.Library.Heaps

/-! The calls to `malloc`, `calloc`, `realloc` and `free` that the executor handles itself
(`SpecialFunctionHandler.cpp`, `executeAlloc`, `executeFree`, `resolveExact` and `callChecker`
of `Executor.cpp`).

One call is followed from the state that makes it, number 0, to all states it has been
forked into. What the solver, the allocator and the checkers answer is arbitrary and may
differ from one question to the next. Of a state only what these functions read and write is
kept; the memory objects themselves are left out.
-/

namespace Woodpecker.Alloc

open Library

inductive AllocFunction where
  | malloc
  | calloc
  | realloc
  | free
deriving DecidableEq, Repr

def AllocFunction.name : AllocFunction → String
  | .malloc => "malloc"
  | .calloc => "calloc"
  | .realloc => "realloc"
  | .free => "free"

/-- A constant expression. -/
structure Value where
  width : Nat
  value : UInt64
deriving DecidableEq, Repr

/-- The places at which a call can fork, by the condition asked for. -/
inductive Site where
  /-- `handleMalloc`: this is the allocation that is to fail -/
  | injectedFailure
  /-- `executeAlloc`: the size is the chosen example -/
  | fixedSize
  /-- `executeAlloc`: the size is huge -/
  | hugeSize
  /-- `handleRealloc`: the size is zero -/
  | zeroSize
  /-- `handleRealloc`: the pointer is null -/
  | zeroPointer
  /-- `handleRealloc`, in `resolveExact`: the pointer is the base of an object -/
  | inBounds
  /-- `executeFree`: the pointer is null -/
  | freedNull
  /-- `executeFree`, in `resolveExact`: the pointer is the base of an object -/
  | freedInBounds
deriving DecidableEq, Repr

/-- A state during a call. The last three fields are not in the source: the answers at the
forks the state has been through, the fork that made it, and what the allocator returned for
it.
-/
structure CallState where
  register : Option Value
  onCalls : List String
  curFunc : String
  failMalloc : Bool
  mallocNum : Int
  alive : Bool
  path : List (Site × Bool)
  createdAt : Option Site
  allocation : Option (Option UInt64)
deriving DecidableEq, Repr

/-- What `Executor::fork` finds. Where both sides are feasible the new state may be either
of them, and both may be too deep.
-/
inductive ForkAnswer where
  | timedOut
  | onlyTrue
  | onlyFalse
  | both (swap : Bool)
  | tooDeep (swap : Bool)
deriving DecidableEq, Repr

/-- What `resolveExact` finds behind a pointer. -/
structure Object where
  isLocal : Bool
  isGlobal : Bool
deriving DecidableEq, Repr

/-- The answers to each question, by the number of questions asked before. -/
structure Oracle where
  fork : Nat → ForkAnswer
  toUnique : Nat → Option UInt64
  getValue : Nat → UInt64
  mayBeTrue : Nat → UInt64 → Bool
  mustBeTrue : Nat → Bool
  allocate : Nat → UInt64 → Option UInt64
  resolve : Nat → List Object
  onCallError : Nat → Bool
  onRetError : Nat → Bool

/-- What does not change during a call: the answers, whether events are passed to the
checkers (`!UsePathSlicer || curInstrIsInternal(target)`), the width of pointers, whether the
calling state is itself in `addedStates`, and whether the result of the call is used.
-/
structure Setting where
  oracle : Oracle
  notifies : Bool
  pointerWidth : Nat
  entryAdded : Bool
  resultUsed : Bool

structure Machine where
  heap : Heap CallState
  clock : Nat

namespace Machine

def deref (machine : Machine) (state : Nat) : Except Fault CallState :=
  match machine.heap.read state with
  | some found => .ok found
  | none => .error .badPointer

def write (machine : Machine) (state : Nat) (cell : Option CallState) : Machine :=
  { machine with heap := machine.heap.write state cell }

def tick (machine : Machine) : Machine :=
  { machine with clock := machine.clock + 1 }

def update (machine : Machine) (state : Nat) (change : CallState → CallState)
    : Except Fault Machine := do
  let found ← machine.deref state
  .ok (machine.write state (some (change found)))

end Machine

def Setting.null (setting : Setting) : Value :=
  ⟨setting.pointerWidth, 0⟩

def bindLocal (machine : Machine) (state : Nat) (value : Value) : Except Fault Machine :=
  machine.update state fun found => { found with register := some value }

/-- `terminateState`: a state the searcher has not seen is deleted. -/
def terminateState (setting : Setting) (machine : Machine) (state : Nat)
    : Except Fault Machine := do
  let found ← machine.deref state
  if state ≠ 0 ∨ setting.entryAdded then .ok (machine.write state none)
  else .ok (machine.write state (some { found with alive := false }))

def CallState.follow (state : CallState) (site : Site) (answer : Bool) : CallState :=
  { state with path := state.path ++ [(site, answer)] }

/-- The new state of a fork is a copy of the current one. -/
def forkBoth (machine : Machine) (current : Nat) (found : CallState) (site : Site)
    (swap : Bool)
    : Machine :=
  let made := { found with createdAt := some site }
  { machine with
    heap := (machine.heap.write current (some (found.follow site !swap))).push
      (made.follow site swap) }

abbrev StatePair := Option Nat × Option Nat

/-- The true and the false state of a fork with the current and the new state. -/
def sides (current other : Nat) (swap : Bool) : Nat × Nat :=
  if swap then (other, current) else (current, other)

def fork (setting : Setting) (machine : Machine) (current : Nat) (site : Site)
    : Except Fault (Machine × StatePair) := do
  let found ← machine.deref current
  let other := machine.heap.length
  match setting.oracle.fork machine.clock with
  | .timedOut => do
    let machine ← terminateState setting machine.tick current
    .ok (machine, none, none)
  | .onlyTrue =>
    .ok (machine.tick.write current (some (found.follow site true)), some current, none)
  | .onlyFalse =>
    .ok (machine.tick.write current (some (found.follow site false)), none, some current)
  | .both swap =>
    let (trueState, falseState) := sides current other swap
    .ok (forkBoth machine.tick current found site swap, some trueState, some falseState)
  | .tooDeep swap => do
    let (trueState, falseState) := sides current other swap
    let machine := forkBoth machine.tick current found site swap
    let machine ← terminateState setting machine trueState
    let machine ← terminateState setting machine falseState
    .ok (machine, none, none)

/-- `Executor::callChecker` for a state that was forked off. Its checkers are given the
function that the state has recorded.
-/
def callChecker (setting : Setting) (machine : Machine) (newState : Nat)
    : Except Fault Machine :=
  if setting.notifies then do
    let machine ← machine.update newState fun found =>
      { found with onCalls := found.onCalls ++ [found.curFunc] }
    if setting.oracle.onCallError machine.clock then
      terminateState setting machine.tick newState
    else if setting.oracle.onRetError machine.clock then
      terminateState setting machine.tick newState
    else .ok machine.tick
  else .ok machine

/-- The call that follows every `if (newState != &state)`. -/
def notifyOther (setting : Setting) (state newState : Nat) (machine : Machine)
    : Except Fault Machine :=
  if newState ≠ state then callChecker setting machine newState else .ok machine

/-- A side of a fork, if there is one. -/
def onSide (side : Option Nat) (body : Nat → Machine → Except Fault Machine)
    (machine : Machine)
    : Except Fault Machine :=
  match side with
  | some state => body state machine
  | none => .ok machine

-- Allocating

inductive Size where
  | constant (value : UInt64)
  | symbolic
deriving DecidableEq, Repr

/-- The case of `executeAlloc` for a constant size. -/
def allocConstant (setting : Setting) (state : Nat) (size : UInt64) (machine : Machine)
    : Except Fault Machine := do
  let result := setting.oracle.allocate machine.clock size
  let machine ← machine.tick.update state fun found => { found with allocation := some result }
  match result with
  | none => bindLocal machine state setting.null
  | some address => bindLocal machine state ⟨setting.pointerWidth, address⟩

/-- The loop that halves the example while that is still a possible size; 64 turns are
enough for a 64-bit value.
-/
def smallExample (mayBeTrue : UInt64 → Bool) : Nat → UInt64 → UInt64
  | 0, example_ => example_
  | turns + 1, example_ =>
    if example_ > 128 then
      let tmp := example_ >>> 1
      if mayBeTrue tmp then smallExample mayBeTrue turns tmp else example_
    else example_

/-- `executeAlloc` on the state whose size is not the example: exactly two sizes are
possible, or a huge one is given null and the rest is given up.
-/
def allocOther (setting : Setting) (state other : Nat) (machine : Machine)
    : Except Fault Machine := do
  let tmp := setting.oracle.getValue machine.clock
  let exact := setting.oracle.mustBeTrue machine.clock
  let machine := machine.tick
  if exact then do
    let machine ← allocConstant setting other tmp machine
    notifyOther setting state other machine
  else do
    let (machine, hugeSize) ← fork setting machine other .hugeSize
    let machine ← onSide hugeSize.1
      (fun huge machine => do
        let machine ← bindLocal machine huge setting.null
        notifyOther setting state huge machine)
      machine
    onSide hugeSize.2 (fun rest machine => terminateState setting machine rest) machine

def executeAlloc (setting : Setting) (size : Size) (state : Nat) (machine : Machine)
    : Except Fault Machine :=
  let unique :=
    match size with
    | .constant value => some value
    | .symbolic => setting.oracle.toUnique machine.clock
  let machine := machine.tick
  match unique with
  | some value => allocConstant setting state value machine
  | none => do
    let example_ := smallExample (setting.oracle.mayBeTrue machine.clock) 64
      (setting.oracle.getValue machine.clock)
    let (machine, fixedSize) ← fork setting machine.tick state .fixedSize
    let machine ← onSide fixedSize.2 (allocOther setting state) machine
    onSide fixedSize.1
      (fun fixed machine => do
        let machine ← allocConstant setting fixed example_ machine
        notifyOther setting state fixed machine)
      machine

-- Freeing

/-- The loop of `resolveExact`: the states in which the pointer is the base of an object,
and the state that is left over.
-/
def resolveLoop (setting : Setting) (site : Site) (machine : Machine) (unbound : Nat)
    : List Object → Except Fault (Machine × List (Object × Nat) × Option Nat)
  | [] => .ok (machine, [], some unbound)
  | object :: rest => do
    let (machine, branches) ← fork setting machine unbound site
    let result := branches.1.toList.map fun state => (object, state)
    match branches.2 with
    | none => .ok (machine, result, none)
    | some unbound => do
      let (machine, results, unbound) ← resolveLoop setting site machine unbound rest
      .ok (machine, result ++ results, unbound)

def resolveExact (setting : Setting) (site : Site) (state : Nat) (machine : Machine)
    : Except Fault (Machine × List (Object × Nat)) := do
  let objects := setting.oracle.resolve machine.clock
  let (machine, results, unbound) ←
    resolveLoop setting site machine.tick state objects
  let machine ← onSide unbound (fun unbound machine => terminateState setting machine unbound)
    machine
  .ok (machine, results)

/-- The body of the loop of `executeFree` over the resolved objects. -/
def freeObject (setting : Setting) (target : Bool) (machine : Machine)
    (resolved : Object × Nat)
    : Except Fault Machine :=
  if resolved.1.isLocal then terminateState setting machine resolved.2
  else if resolved.1.isGlobal then terminateState setting machine resolved.2
  else if target then bindLocal machine resolved.2 setting.null
  else .ok machine

/-- `executeFree`. No state it forks off is passed to the checkers. -/
def executeFree (setting : Setting) (target : Bool) (state : Nat) (machine : Machine)
    : Except Fault Machine := do
  let (machine, zeroPointer) ← fork setting machine state .freedNull
  let machine ← onSide zeroPointer.1
    (fun null machine => if target then bindLocal machine null setting.null else .ok machine)
    machine
  onSide zeroPointer.2
    (fun pointer machine => do
      let (machine, results) ← resolveExact setting .freedInBounds pointer machine
      results.foldlM (freeObject setting target) machine)
    machine

-- Handlers

/-- `handleMalloc`. The failure is bound in the thread the handler was called with. -/
def handleMalloc (setting : Setting) (size : Size) (state : Nat) (machine : Machine)
    : Except Fault Machine := do
  let found ← machine.deref state
  if found.failMalloc then do
    let machine ← machine.update state fun found =>
      { found with mallocNum := found.mallocNum + 1 }
    let (machine, failpair) ← fork setting machine state .injectedFailure
    let machine ← onSide failpair.1
      (fun failing machine => do
        let machine ← bindLocal machine state ⟨32, 0⟩
        let machine ← notifyOther setting state failing machine
        machine.update failing fun found => { found with failMalloc := false })
      machine
    onSide failpair.2
      (fun other machine => do
        let machine ← executeAlloc setting size other machine
        notifyOther setting state other machine)
      machine
  else executeAlloc setting size state machine

def handleCalloc (setting : Setting) (size : Size) (state : Nat) (machine : Machine)
    : Except Fault Machine :=
  executeAlloc setting size state machine

/-- The body of the loop of `handleRealloc` over the resolved objects. -/
def reallocObject (setting : Setting) (size : Size) (state : Nat) (machine : Machine)
    (resolved : Object × Nat)
    : Except Fault Machine := do
  let machine ← executeAlloc setting size resolved.2 machine
  notifyOther setting state resolved.2 machine

/-- `handleRealloc` on the state with a size other than zero. -/
def reallocSized (setting : Setting) (size : Size) (state sized : Nat) (machine : Machine)
    : Except Fault Machine := do
  let (machine, zeroPointer) ← fork setting machine sized .zeroPointer
  let machine ← onSide zeroPointer.1
    (fun null machine => do
      let machine ← executeAlloc setting size null machine
      notifyOther setting state null machine)
    machine
  onSide zeroPointer.2
    (fun pointer machine => do
      let (machine, results) ← resolveExact setting .inBounds pointer machine
      results.foldlM (reallocObject setting size state) machine)
    machine

def handleRealloc (setting : Setting) (size : Size) (state : Nat) (machine : Machine)
    : Except Fault Machine := do
  let (machine, zeroSize) ← fork setting machine state .zeroSize
  let machine ← onSide zeroSize.1
    (fun freeing machine => do
      let machine ← executeFree setting true freeing machine
      notifyOther setting state freeing machine)
    machine
  onSide zeroSize.2 (reallocSized setting size state) machine

def handleFree (setting : Setting) (state : Nat) (machine : Machine) : Except Fault Machine :=
  executeFree setting false state machine

/-- `SpecialFunctionHandler::handle`; only `free` has no result. -/
def handle (setting : Setting) (function : AllocFunction) (size : Size) (state : Nat)
    (machine : Machine)
    : Except Fault Machine :=
  match function with
  | .malloc => handleMalloc setting size state machine
  | .calloc => handleCalloc setting size state machine
  | .realloc => handleRealloc setting size state machine
  | .free =>
    if setting.resultUsed then terminateState setting machine state
    else handleFree setting state machine

/-- `callExternalFunction` for a function that is handled: afterwards the checkers of the
calling state are given the function itself.
-/
def callExternalFunction (setting : Setting) (function : AllocFunction) (size : Size)
    (machine : Machine)
    : Except Fault Machine := do
  let machine ← handle setting function size 0 machine
  let _ ← machine.deref 0
  if setting.notifies then do
    let machine ← machine.update 0 fun found =>
      { found with onCalls := found.onCalls ++ [function.name] }
    if setting.oracle.onCallError machine.clock then terminateState setting machine.tick 0
    else .ok machine.tick
  else .ok machine

/-- The state that makes the call, with what is in its result register before. -/
def Machine.start (register : Option Value) (curFunc : String) (failMalloc : Bool)
    (mallocNum : Int)
    : Machine where
  heap := [some {
    register, curFunc, failMalloc, mallocNum
    onCalls := []
    alive := true
    path := []
    createdAt := none
    allocation := none }]
  clock := 0

end Woodpecker.Alloc
