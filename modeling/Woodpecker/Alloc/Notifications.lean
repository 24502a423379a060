import Woodpecker.Alloc.Successors

/-! What a handled call leaves in each state it has been forked into: the events its
checkers were given and the value bound to its result register.

The calling state is told of the call by `callExternalFunction`, every other state by the
function that forked it.
-/

namespace Woodpecker.Alloc

open Library CallState Heap

variable {call : Call} {state ref : Nat} {origin : Option Site} {found : CallState}
  {machine middle next after : Machine} {size : Size}

theorem reallocSized_serves (ready : Ready call state origin false ref found)
    (plain : ¬found.givesNull) (inside : state < machine.heap.length)
    (here : machine.heap.read ref = some found)
    (returned : reallocSized call.setting size state ref machine = .ok after)
    : Serves (Due call state origin ref) (Told call) machine after ref := by
  refine resolved_serves (fun found => ¬found.givesNull) ready plain ?_ ⟨rfl, rfl⟩ inside here
    returned ?_
  · rintro _ _ _ _ _ plain (rfl | rfl) <;> exact not_givesNull_forked plain (.inr (by simp))
  · rintro _ _ _ _ ready plain here (worked | ⟨_, worked⟩)
    all_goals exact notified_serves ready here (executeAlloc_serves ready plain here) worked

/-- The calling state before the call. -/
structure Caller (call : Call) (found : CallState) : Prop where
  curFunc : found.curFunc = call.curFunc
  onCalls : found.onCalls = []
  origin : found.createdAt = none
  path : found.path = []
  register : found.register = call.register

theorem Caller.ready (caller : Caller call found) (frees : Bool)
    : Ready call state none frees state found :=
  ⟨caller.curFunc, caller.onCalls, by simpa using caller.origin⟩

theorem Caller.not_givesNull (caller : Caller call found) : ¬found.givesNull := by
  simp [givesNull, injected, caller.path]

variable {pair : StatePair}

/-- The states of the two sides of a fork differ. -/
theorem false_side {own new : CallState → Prop} {waiting : Nat → CallState → Prop}
    (opened : Serving own new waiting machine after state (pair.1.toList ++ pair.2.toList))
    (chosen : pair.2 = some ref)
    : decide (pair.1 = some ref) = false := by
  simp only [decide_eq_false_iff_not]
  intro also
  have nodup := opened.nodup
  simp [also, chosen] at nodup

section

variable (caller : Caller call found) (here : machine.heap.read state = some found)
include caller here

theorem handleRealloc_serves
    (returned : handleRealloc call.setting size state machine = .ok after)
    : Serves (Untold call none) (Told call) machine after state := by
  have bound := lt_of_read here
  have ready : Ready call state none false state found := caller.ready false
  simp only [handleRealloc, bind_eq_ok] at returned
  obtain ⟨⟨middle, pair⟩, forked, next, frees, sized⟩ := returned
  have opened : Serving (Due call state none state) (Told call) _ machine middle state _ :=
    fork_serving here forked
  refine Due.serves_untold (onSide_due_last bound bound sized ?_
    (onSide_due bound bound frees ?_ opened))
  · rintro other cell inside family chosen there rfl worked
    exact reallocSized_serves (ready.forked .zeroSize pair rfl family)
      (not_givesNull_forked caller.not_givesNull (.inl (false_side opened chosen))) inside
      there worked
  · rintro other cell - family chosen there rfl worked
    have ready := ready.forked .zeroSize pair rfl family
    have freeing : Freeing call true (forkedState found state .zeroSize pair other) := {
      kept := not_injected_forked (fun injected => caller.not_givesNull (.inl injected))
        (.inr (by simp))
      result := .inr (.inl (by simpa [forkedState, follow] using .inr chosen)) }
    exact notified_serves ready there (executeFree_serves ready freeing there) worked

theorem handleFree_serves (function : call.function = .free)
    (returned : handleFree call.setting state machine = .ok after)
    : Serves (Untold call none) (Told call) machine after state := by
  have ready : Ready call state none true state found := caller.ready true
  have freeing : Freeing call false found := {
    kept := fun injected => caller.not_givesNull (.inl injected)
    result := function }
  rw [← caller.origin]
  exact executeFree_serves ready freeing here returned

theorem handleCalloc_serves
    (returned : handleCalloc call.setting size state machine = .ok after)
    : Serves (Untold call none) (Told call) machine after state := by
  have ready : Ready call state none false state found := caller.ready false
  rw [← caller.origin]
  exact executeAlloc_serves ready caller.not_givesNull here returned

end

/-- A state after the fork on the injected failure. Only the calling state has been bound
since.
-/
structure Injecting (call : Call) (state : Nat) (pair : StatePair) (ref : Nat)
    (found : CallState)
    : Prop where
  ready : Ready call state none false ref found
  path : found.path = [(.injectedFailure, decide (pair.1 = some ref))]
  register : ref ≠ state → found.register = call.register

section

variable (function : call.function = .malloc)
include function

/-- The failing state is told, if it is another, and will not fail again. -/
theorem failed_serves (ready : Ready call state none false ref found) (injected : found.injected)
    (register : found.register = if found.createdAt = none then some ⟨32, 0⟩ else call.register)
    (here : machine.heap.read ref = some found) (returned : (do
      let machine ← notifyOther call.setting state ref machine
      machine.update ref fun found => { found with failMalloc := false }) = .ok after)
    : Serves (Due call state none ref) (Told call) machine after ref := by
  obtain ⟨middle, notified, updated⟩ := bind_eq_ok.mp returned
  have worked {same : Machine} (unchanged : Except.ok machine = (.ok same : Except Fault _))
      : Serves (Untold call found.createdAt) (Told call) machine same ref := by
    cases unchanged
    refine Served.refl fun again there _ => ?_
    obtain rfl := Option.mem_unique here there
    exact ⟨ready.curFunc, ready.onCalls, rfl, fun _ => ⟨function, register⟩,
      fun kept => absurd injected kept⟩
  have told := notified_serves ready here worked notified
  refine told.trans (lt_of_read here) (update_serves updated fun last there alive => ?_)
  have due := told.own last there alive
  unfold Due at due ⊢
  split at due
  case isTrue same =>
      rw [if_pos same]
      exact ⟨due.curFunc, due.onCalls, due.origin, due.bound.failed, due.bound.served⟩
  case isFalse differ =>
      rw [if_neg differ]
      exact ⟨due.onCalls, due.bound.failed, due.bound.served⟩

section

variable (bound : state < machine.heap.length)
include bound

omit function in
/-- Null is bound in the calling state, which stays open. -/
theorem bindLocal_serving {refs : List Nat}
    (opened : Serving (Due call state none state) (Told call) (Injecting call state pair) machine
      middle state refs) (member : state ∈ refs) (binds : bindLocal middle state ⟨32, 0⟩ = .ok next)
    : Serving (Due call state none state) (Told call) (Injecting call state pair) machine next
        state refs
      ∧ ∃ found, next.heap.read state = some found ∧ found.register = some ⟨32, 0⟩ := by
  have order := List.perm_cons_erase member
  have first := opened.perm order
  obtain ⟨cell, here, waits⟩ := first.waits state (by simp)
  obtain ⟨again, there, rfl⟩ := update_eq_ok.mp binds
  obtain rfl := Option.mem_unique here there
  have bindsHere : Serving
      (fun found => if state = state then Due call state none state found else Told call found)
      (Told call) (Injecting call state pair) middle
      (middle.write state (some { cell with register := some ⟨32, 0⟩ })) state [state] :=
    serving_write (lt_of_read here)
      ⟨⟨waits.ready.curFunc, waits.ready.onCalls, waits.ready.origin⟩, waits.path,
        fun other => absurd rfl other⟩
  refine ⟨(first.nest bound bindsHere fun _ _ _ waits => waits).perm order.symm,
    { cell with register := some ⟨32, 0⟩ }, ?_, rfl⟩
  simp [Machine.write, read_write (lt_of_read here)]

/-- The failing side of the fork, which may be either state. Another state than the calling
one keeps its register.
-/
theorem failing_serving (opened : Serving (Due call state none state) (Told call)
      (Injecting call state pair) machine middle state (pair.1.toList ++ pair.2.toList))
    (current : pair = (none, none) ∨ pair.1 = some state ∨ pair.2 = some state)
    (returned : onSide pair.1 (fun failing machine => do
        let machine ← bindLocal machine state ⟨32, 0⟩
        let machine ← notifyOther call.setting state failing machine
        machine.update failing fun found => { found with failMalloc := false })
      middle = .ok after)
    : Serving (Due call state none state) (Told call) (Injecting call state pair) machine after
        state pair.2.toList := by
  rcases pair with ⟨_ | failing, other⟩
  · cases returned
    exact opened
  obtain ⟨next, binds, rest⟩ := bind_eq_ok.mp returned
  have member : state ∈ (some failing).toList ++ other.toList := by
    simpa [eq_comm] using current
  obtain ⟨both, called, there, bindsNull⟩ := bindLocal_serving bound opened member binds
  obtain ⟨made, here, waits⟩ := both.waits failing (by simp)
  have born := waits.ready.origin
  have register : made.register
      = if made.createdAt = none then some ⟨32, 0⟩ else call.register := by
    by_cases same : failing = state
    · subst same
      obtain rfl := Option.mem_unique here there
      rw [if_pos rfl] at born
      rw [born, if_pos rfl, bindsNull]
    · rw [if_neg same] at born
      obtain ⟨site, born, -⟩ := born
      simp [born, waits.register same]
  have failed := failed_serves function waits.ready (by simp [injected, waits.path]) register
    here rest
  have newer := (both.family failing (by simp)).imp_right (Nat.lt_of_lt_of_le bound)
  exact both.next bound (failed.mono fun _ due => due.seen newer)

end

section

variable (caller : Caller call found) (here : machine.heap.read state = some found)
include caller here

/-- Both sides of the fork on the injected failure. -/
theorem injectedFailure_serves
    (forked : fork call.setting machine state .injectedFailure = .ok (middle, pair))
    (failing : onSide pair.1 (fun failing machine => do
        let machine ← bindLocal machine state ⟨32, 0⟩
        let machine ← notifyOther call.setting state failing machine
        machine.update failing fun found => { found with failMalloc := false })
      middle = .ok next)
    (other : onSide pair.2 (fun other machine => do
        let machine ← executeAlloc call.setting size other machine
        notifyOther call.setting state other machine)
      next = .ok after)
    : Serves (Untold call none) (Told call) machine after state := by
  have bound := lt_of_read here
  have ready : Ready call state none false state found := caller.ready false
  have opened : Serving (Due call state none state) (Told call) (Injecting call state pair)
      machine middle state (pair.1.toList ++ pair.2.toList) := by
    refine (fork_serving here forked).mono ?_
    rintro ref cell family rfl
    exact ⟨ready.forked .injectedFailure pair rfl (family.imp_right (Nat.lt_of_lt_of_le bound)),
      by simp [forkedState, follow, caller.path], fun _ => caller.register⟩
  refine Due.serves_untold (onSide_due_last bound bound other ?_
    (failing_serving function bound opened (fork_current forked) failing))
  intro ref cell _ _ chosen there waits worked
  refine notified_serves waits.ready there (executeAlloc_serves waits.ready ?_ there) worked
  have side := false_side opened chosen
  simp [givesNull, injected, waits.path, side]

theorem handleMalloc_serves (returned : handleMalloc call.setting size state machine = .ok after)
    : Serves (Untold call none) (Told call) machine after state := by
  have bound := lt_of_read here
  simp only [handleMalloc, bind_eq_ok, deref_eq_ok] at returned
  obtain ⟨again, there, rest⟩ := returned
  split at rest
  case isFalse =>
      exact handleCalloc_serves caller here rest
  case isTrue =>
      simp only [bind_eq_ok] at rest
      obtain ⟨counted, updated, ⟨middle, pair⟩, forked, next, failing, other⟩ := rest
      obtain ⟨again, there, rfl⟩ := update_eq_ok.mp updated
      obtain rfl := Option.mem_unique here there
      have counts : Serves (fun _ => True) (Told call) machine
          (machine.write state (some { found with mallocNum := found.mallocNum + 1 })) state :=
        served_write bound (by simp)
      have counter : Caller call { found with mallocNum := found.mallocNum + 1 } :=
        ⟨caller.curFunc, caller.onCalls, caller.origin, caller.path, caller.register⟩
      exact counts.trans bound (injectedFailure_serves function counter
        (by simp [Machine.write, read_write bound]) forked failing other)

end

end

/-- A handler leaves the calling state untold. -/
theorem handle_serves (caller : Caller call found) (here : machine.heap.read state = some found)
    (returned : handle call.setting call.function call.size state machine = .ok after)
    : Serves (Untold call none) (Told call) machine after state := by
  unfold handle at returned
  cases function : call.function with
  | malloc =>
    rw [function] at returned
    exact handleMalloc_serves function caller here returned
  | calloc =>
    rw [function] at returned
    exact handleCalloc_serves caller here returned
  | realloc =>
    rw [function] at returned
    exact handleRealloc_serves caller here returned
  | free =>
    simp only [function] at returned
    split at returned
    · exact terminateState_serves returned
    · exact handleFree_serves caller here function returned

-- Whole calls

/-- The calling state at the end. -/
structure CallerDone (call : Call) (found : CallState) : Prop where
  onCalls : found.onCalls = if call.setting.notifies then [call.function.name] else []
  origin : found.createdAt = none
  bound : Bound call found

theorem start_caller (call : Call)
    : ∃ found, (Machine.start call.register call.curFunc call.failMalloc
        call.mallocNum).heap.read 0 = some found
      ∧ Caller call found :=
  ⟨_, rfl, rfl, rfl, rfl, rfl, rfl⟩

/-- What a call leaves in the calling state and in the others. -/
theorem run_serves (returned : call.run = .ok after)
    : Serves (CallerDone call) (Told call)
        (Machine.start call.register call.curFunc call.failMalloc call.mallocNum) after 0 := by
  simp only [Call.run, callExternalFunction, bind_eq_ok] at returned
  obtain ⟨handled, handles, found, -, rest⟩ := returned
  obtain ⟨start, here, caller⟩ := start_caller call
  have served := handle_serves caller here handles
  have bound := lt_of_read here
  split at rest
  case isFalse silent =>
      cases rest
      exact served.mono fun last untold =>
        ⟨by simp [silent, untold.onCalls], untold.origin, untold.bound⟩
  case isTrue loud =>
      obtain ⟨told, updated, rest⟩ := bind_eq_ok.mp rest
      have notified : Serves (CallerDone call) (Told call) _ told 0 :=
        served.trans bound (update_serves updated fun last there alive => by
          have untold := served.own last there alive
          exact ⟨by simp [loud, untold.onCalls], untold.origin,
            untold.bound.failed, untold.bound.served⟩)
      split at rest
      · have ended : Serves (CallerDone call) (Told call) told.tick after 0 :=
          terminateState_serves rest
        exact notified.trans bound ended
      · cases rest
        exact notified

/-- What has to hold for a successor to be as it should be. The checkers are given events at
all. A state that was forked off was not forked off by `executeFree` and has recorded the
called function. An injected failure happens in the calling state with 32-bit pointers, or
in a new state whose result register was null before.
-/
def Call.Careful (call : Call) (state : CallState) : Prop :=
  call.setting.notifies = true
  ∧ (∀ site, state.createdAt = some site
    → site.frees = false ∧ call.curFunc = call.function.name)
  ∧ (state.injected
    → (if state.createdAt = none then some ⟨32, 0⟩ else call.register)
      = some call.setting.null)

/-- The value bound is the prescribed one, except for an injected failure. -/
theorem Bound.prescribed_iff (bound : Bound call found)
    : (call.function = .free ∨ found.register = some (prescribed call.setting found))
      ↔ (found.injected
        → (if found.createdAt = none then some ⟨32, 0⟩ else call.register)
          = some call.setting.null) := by
  by_cases injected : found.injected
  · obtain ⟨function, register⟩ := bound.failed injected
    have null : found.givesNull := .inl injected
    simp [function, register, prescribed, null, injected]
  · simpa [injected] using bound.served injected

/-- A solver, an allocator and checkers that always answer the same. -/
def Oracle.steady (fork : ForkAnswer) (address : Option UInt64) (objects : List Object)
    : Oracle where
  fork _ := fork
  toUnique _ := none
  getValue _ := 8
  mayBeTrue _ _ := false
  mustBeTrue _ := true
  allocate _ _ := address
  resolve _ := objects
  onCallError _ := false
  onRetError _ := false

end Woodpecker.Alloc
