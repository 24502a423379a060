import Woodpecker.Alloc.Model

/-! What each step of a handled call does to the states: which one it works on, which ones
it makes, and that it leaves the others alone.
-/

namespace Woodpecker.Alloc

open Library Heap

variable {setting : Setting} {machine after : Machine} {state : Nat} {found : CallState}
  {own new : CallState → Prop}

/-- Work on one state and on the states forked off it, seen at those that survive. -/
abbrev Serves (own new : CallState → Prop) (machine after : Machine) (root : Nat) : Prop :=
  Heap.Served (fun found => found.alive = true) own new machine.heap after.heap root

/-- The same with some states still to be worked on. -/
abbrev Serving (own new : CallState → Prop) (waiting : Nat → CallState → Prop)
    (machine after : Machine) (root : Nat) (open_ : List Nat)
    : Prop :=
  Heap.Serving (fun found => found.alive = true) own new waiting machine.heap after.heap root
    open_

theorem deref_eq_ok
    : machine.deref state = .ok found ↔ machine.heap.read state = some found := by
  unfold Machine.deref
  cases machine.heap.read state <;> simp

variable {change : CallState → CallState}

theorem update_eq_ok
    : machine.update state change = .ok after
      ↔ ∃ found, machine.heap.read state = some found
        ∧ after = machine.write state (some (change found)) := by
  simp only [Machine.update, bind_eq_ok, deref_eq_ok, Except.ok.injEq]
  exact exists_congr fun found => and_congr_right fun _ => eq_comm

/-- A change of a state that is there. -/
theorem update_serves (returned : machine.update state change = .ok after)
    (fits : ∀ found, machine.heap.read state = some found → (change found).alive = true
      → own (change found))
    : Serves own new machine after state := by
  obtain ⟨found, here, rfl⟩ := update_eq_ok.mp returned
  refine served_write (lt_of_read here) fun cell written alive => ?_
  cases written
  exact fits found here alive

/-- A terminated state does not survive, so nothing has to hold of it. -/
theorem terminateState_serves (returned : terminateState setting machine state = .ok after)
    : Serves own new machine after state := by
  simp only [terminateState, bind_eq_ok, deref_eq_ok] at returned
  obtain ⟨found, here, written⟩ := returned
  have bound := lt_of_read here
  split at written <;> cases written
  · exact served_write bound (by simp)
  · exact served_write bound (by simp)

/-- The state after the checkers were told of the call, if they are told of any. -/
def tell (setting : Setting) (found : CallState) (funcname : String) : CallState :=
  if setting.notifies then { found with onCalls := found.onCalls ++ [funcname] } else found

theorem callChecker_serves (bound : state < machine.heap.length)
    (returned : callChecker setting machine state = .ok after)
    (fits : ∀ found, machine.heap.read state = some found → found.alive = true
      → own (tell setting found found.curFunc))
    : Serves own new machine after state := by
  unfold callChecker at returned
  split at returned
  case isFalse silent =>
      cases returned
      refine Served.refl fun found here alive => ?_
      simpa [tell, silent] using fits found here alive
  case isTrue loud =>
      obtain ⟨told, updated, rest⟩ := bind_eq_ok.mp returned
      have first : Serves own new machine told state := by
        refine update_serves updated fun found here alive => ?_
        simpa [tell, loud] using fits found here alive
      have ended {last : Machine} (terminated : terminateState setting told.tick state = .ok last)
          : Serves own new machine last state :=
        have dead : Serves own new told.tick last state := terminateState_serves terminated
        first.trans bound dead
      split at rest
      · exact ended rest
      split at rest
      · exact ended rest
      · cases rest
        exact first

theorem notifyOther_serves {root : Nat} (bound : state < machine.heap.length)
    (returned : notifyOther setting root state machine = .ok after)
    (fits : ∀ found, machine.heap.read state = some found → found.alive = true
      → own (if state ≠ root then tell setting found found.curFunc else found))
    : Serves own new machine after state := by
  unfold notifyOther at returned
  split at returned
  case isTrue differ =>
      refine callChecker_serves bound returned fun found here alive => ?_
      simpa [differ] using fits found here alive
  case isFalse same =>
      cases returned
      refine Served.refl fun found here alive => ?_
      simpa [same] using fits found here alive

/-- The value bound for what the allocator returned. -/
def Setting.bound (setting : Setting) : Option UInt64 → Value
  | none => setting.null
  | some address => ⟨setting.pointerWidth, address⟩

/-- An allocation of a constant size binds what the allocator returned. -/
theorem allocConstant_serves {size : UInt64} (here : machine.heap.read state = some found)
    (returned : allocConstant setting state size machine = .ok after)
    (fits : ∀ result, own { found with
      allocation := some result
      register := some (setting.bound result) })
    : Serves own new machine after state := by
  obtain ⟨middle, noted, bound⟩ := bind_eq_ok.mp returned
  generalize setting.oracle.allocate machine.clock size = result at noted bound
  have binds : bindLocal middle state (setting.bound result) = .ok after := by
    cases result <;> exact bound
  have first : Serves (fun noted => noted = { found with allocation := some result }) new
      machine.tick middle state := by
    refine update_serves noted fun again there _ => ?_
    obtain rfl := Option.mem_unique here there
    rfl
  refine first.trans (lt_of_read here) (update_serves binds fun noted there alive => ?_)
  obtain rfl := first.own noted there alive
  exact fits result

-- Forks

/-- A state left by a fork: the current state as it was or the new one as a copy of it, with
the answer noted.
-/
def forkedState (found : CallState) (root : Nat) (site : Site) (pair : StatePair)
    (ref : Nat)
    : CallState :=
  ({ found with createdAt := if ref = root then found.createdAt else some site }).follow site
    (decide (pair.1 = some ref))

variable {site : Site}

/-- A fork on which both sides go on leaves both open. -/
theorem forkBoth_serving {swap : Bool} {trueState falseState : Nat}
    (here : machine.heap.read state = some found)
    (ends : sides state machine.heap.length swap = (trueState, falseState))
    : Serving own new
        (fun ref cell => cell = forkedState found state site (some trueState, some falseState) ref)
        machine (forkBoth machine state found site swap) state [trueState, falseState] := by
  have bound := Heap.lt_of_read here
  have differ : machine.heap.length ≠ state := by omega
  have first : Serving own new
      (fun ref cell => cell = forkedState found state site (some trueState, some falseState) ref)
      machine (machine.write state (some (found.follow site (!swap)))) state [state] := by
    refine Heap.serving_write bound ?_
    cases swap <;> obtain ⟨rfl, rfl⟩ := Prod.mk.inj ends <;> simp [forkedState, differ]
  have size : (machine.write state (some (found.follow site (!swap)))).heap.length
      = machine.heap.length := by
    simp [Machine.write]
  have other : { found with createdAt := some site }.follow site swap
      = forkedState found state site (some trueState, some falseState)
        (machine.write state (some (found.follow site (!swap)))).heap.length := by
    rw [size]
    cases swap <;> obtain ⟨rfl, rfl⟩ := Prod.mk.inj ends <;>
      simp [forkedState, differ, differ.symm]
  refine (first.push other).perm ?_
  rw [size]
  cases swap <;> cases ends
  · exact List.Perm.swap _ _ _
  · exact List.Perm.refl _

variable {pair : StatePair}

/-- A fork leaves every survivor open, with its answer noted. -/
theorem fork_serving (here : machine.heap.read state = some found)
    (returned : fork setting machine state site = .ok (after, pair))
    : Serving own new (fun ref cell => cell = forkedState found state site pair ref) machine
        after state (pair.1.toList ++ pair.2.toList) := by
  have bound := Heap.lt_of_read here
  simp only [fork, bind_eq_ok, deref_eq_ok] at returned
  obtain ⟨again, there, rest⟩ := returned
  obtain rfl := Option.mem_unique here there
  cases answer : setting.oracle.fork machine.clock with
  | timedOut =>
    simp only [answer, bind_eq_ok] at rest
    obtain ⟨middle, terminated, same⟩ := rest
    obtain ⟨rfl, rfl⟩ := Prod.mk.inj (Except.ok.inj same)
    have served : Serves own new machine.tick middle state :=
      terminateState_serves terminated
    exact served.serving
  | onlyTrue | onlyFalse =>
    simp only [answer] at rest
    cases rest
    exact Heap.serving_write bound (by simp [forkedState])
  | both swap =>
    simp only [answer] at rest
    cases rest
    have both : Serving own new (fun ref cell => cell = forkedState found state site _ ref)
        machine.tick (forkBoth machine.tick state found site swap) state _ :=
      forkBoth_serving here rfl
    exact both
  | tooDeep swap =>
    -- Both sides are made and then given up one after the other.
    simp only [answer, bind_eq_ok] at rest
    obtain ⟨first, one, second, two, same⟩ := rest
    cases same
    have both : Serving own new (fun ref cell => cell = forkedState found state site _ ref)
        machine.tick (forkBoth machine.tick state found site swap) state _ :=
      forkBoth_serving here rfl
    have left := both.next bound (terminateState_serves one)
    have none := left.next bound (terminateState_serves two)
    exact none.done.serving

/-- The current state is one of the sides, unless neither survives. -/
theorem fork_current (returned : fork setting machine state site = .ok (after, pair))
    : pair = (none, none) ∨ pair.1 = some state ∨ pair.2 = some state := by
  simp only [fork, bind_eq_ok] at returned
  obtain ⟨found, -, rest⟩ := returned
  cases answer : setting.oracle.fork machine.clock with
  | timedOut =>
    simp only [answer, bind_eq_ok] at rest
    obtain ⟨middle, -, same⟩ := rest
    cases same
    exact .inl rfl
  | onlyTrue | onlyFalse =>
    simp only [answer] at rest
    cases rest
    simp
  | both swap =>
    simp only [answer] at rest
    cases rest
    cases swap <;> simp [sides]
  | tooDeep swap =>
    simp only [answer, bind_eq_ok] at rest
    obtain ⟨first, -, second, -, same⟩ := rest
    cases same
    exact .inl rfl

variable {waiting : Nat → CallState → Prop} {middle : Machine}

/-- Work on one side of a fork, if there is one. -/
theorem onSide_serving {side : Option Nat} {body : Nat → Machine → Except Fault Machine}
    {rest : List Nat} (bound : state < machine.heap.length)
    (serving : Serving own new waiting machine middle state (side.toList ++ rest))
    (returned : onSide side body middle = .ok after)
    (serves : ∀ ref cell, ref = state ∨ machine.heap.length ≤ ref → side = some ref
      → middle.heap.read ref = some cell → waiting ref cell → body ref middle = .ok after
      → Serves (fun cell => if ref = state then own cell else new cell) new middle after ref)
    : Serving own new waiting machine after state rest := by
  cases side with
  | none =>
    cases returned
    exact serving
  | some ref =>
    have opened : ref ∈ (some ref).toList ++ rest := by simp
    obtain ⟨cell, here, waits⟩ := serving.waits ref opened
    exact serving.next bound (serves ref cell (serving.family ref opened) rfl here waits returned)

variable {results : List (Object × Nat)}

/-- The loop leaves the resolved states and the one left over open. What holds of the
state it starts from and passes through the forks holds of all of them.
-/
theorem resolveLoop_serving {objects : List Object} {floor : Nat} {left : Option Nat}
    (passes : ∀ ref cell pair other, waiting ref cell → other = ref ∨ floor ≤ other
      → waiting other (forkedState cell ref site pair other)) (large : floor ≤ machine.heap.length)
    (here : machine.heap.read state = some found) (waits : waiting state found)
    (returned : resolveLoop setting site machine state objects = .ok (after, results, left))
    : Serving own new waiting machine after state (results.map Prod.snd ++ left.toList) := by
  have bound := lt_of_read here
  induction objects generalizing machine state found own results left with
  | nil =>
    obtain ⟨rfl, rfl, rfl⟩ := by simpa [resolveLoop] using returned
    exact Heap.serving_refl here waits
  | cons object rest ih =>
    simp only [resolveLoop, bind_eq_ok] at returned
    obtain ⟨⟨middle, pair⟩, forked, continued⟩ := returned
    have first : Serving own new waiting machine middle state (pair.1.toList ++ pair.2.toList) :=
      (fork_serving here forked).mono fun ref cell family same =>
        same ▸ passes state found pair ref waits (family.imp_right (Nat.le_trans large))
    have resolved (bounded : Option Nat)
        : (bounded.toList.map fun state => (object, state)).map Prod.snd = bounded.toList := by
      cases bounded <;> rfl
    rcases pair with ⟨bounded, _ | unbound⟩
    · obtain ⟨rfl, rfl, rfl⟩ := by simpa using continued
      rw [resolved]
      exact first
    obtain ⟨⟨last, found, unresolved⟩, looped, same⟩ := bind_eq_ok.mp continued
    obtain ⟨rfl, rfl, rfl⟩ := by simpa using same
    -- The resolved state waits while the one left over is forked again.
    have swapped := first.perm List.perm_append_comm
    obtain ⟨cell, there, waits⟩ := swapped.waits unbound (by simp)
    have second := swapped.nest bound
      (ih (Nat.le_trans large first.size) there waits looped (lt_of_read there))
      (fun _ _ _ waits => waits)
    refine second.perm ?_
    rw [List.map_append, resolved, List.append_assoc bounded.toList]
    exact List.perm_append_comm

/-- `resolveExact` leaves the resolved states open. -/
theorem resolveExact_serving (passes : ∀ ref cell pair other, waiting ref cell
      → other = ref ∨ machine.heap.length ≤ other
      → waiting other (forkedState cell ref site pair other))
    (here : machine.heap.read state = some found) (waits : waiting state found)
    (returned : resolveExact setting site state machine = .ok (after, results))
    : Serving own new waiting machine after state (results.map Prod.snd) := by
  simp only [resolveExact, bind_eq_ok] at returned
  obtain ⟨⟨middle, found, left⟩, looped, last, ended, same⟩ := returned
  cases same
  have first : Serving own new waiting machine.tick middle state
      (found.map Prod.snd ++ left.toList) :=
    resolveLoop_serving passes (Nat.le_refl _) here waits looped
  exact onSide_serving (lt_of_read here) (first.perm List.perm_append_comm) ended
    fun ref cell _ _ _ _ terminated => terminateState_serves terminated

/-- Work on the resolved states, one after the other. -/
theorem foldlM_serving {step : Machine → Object × Nat → Except Fault Machine}
    (bound : state < machine.heap.length)
    (serving : Serving own new waiting machine middle state (results.map Prod.snd))
    (returned : results.foldlM step middle = .ok after)
    (serves : ∀ before after object ref cell, ref = state ∨ machine.heap.length ≤ ref
      → machine.heap.length ≤ before.heap.length → before.heap.read ref = some cell
      → waiting ref cell → step before (object, ref) = .ok after
      → Serves (fun cell => if ref = state then own cell else new cell) new before after ref)
    : Serves own new machine after state := by
  induction results generalizing middle with
  | nil =>
    cases returned
    exact serving.done
  | cons resolved rest ih =>
    obtain ⟨next, stepped, continued⟩ := bind_eq_ok.mp returned
    have opened : resolved.2 ∈ (resolved :: rest).map Prod.snd := by simp
    obtain ⟨cell, here, waits⟩ := serving.waits resolved.2 opened
    exact ih (serving.next bound (serves middle next resolved.1 resolved.2 cell
      (serving.family _ opened) serving.size here waits stepped)) continued

end Woodpecker.Alloc
