import Woodpecker.Alloc.Steps

/-! What allocating and freeing leave in a state and in the states forked off it.

The state that a function was given is told of the call by its caller. Allocating tells the
states it forks off, freeing does not.
-/

namespace Woodpecker.Alloc

open Library CallState

/-- A call to be handled and the state that makes it. -/
structure Call where
  setting : Setting
  function : AllocFunction
  size : Size
  register : Option Value
  curFunc : String
  failMalloc : Bool
  mallocNum : Int

def Call.run (call : Call) : Except Fault Machine :=
  callExternalFunction call.setting call.function call.size
    (Machine.start call.register call.curFunc call.failMalloc call.mallocNum)

/-- The forks made by `executeFree`. -/
def Site.frees : Site → Bool
  | .freedNull | .freedInBounds => true
  | _ => false

/-- The state is on the branch on which the allocation is injected to fail. -/
def CallState.injected (state : CallState) : Prop :=
  (Site.injectedFailure, true) ∈ state.path

instance (state : CallState) : Decidable state.injected :=
  inferInstanceAs (Decidable (_ ∈ _))

/-- The state is on a branch that gives null without asking the allocator. -/
def CallState.givesNull (state : CallState) : Prop :=
  state.injected ∨ (Site.zeroSize, true) ∈ state.path ∨ (Site.hugeSize, true) ∈ state.path

instance (state : CallState) : Decidable state.givesNull :=
  inferInstanceAs (Decidable (_ ∨ _ ∨ _))

/-- The value that the state's own branch prescribes: a null pointer, or what the allocator
returned for it.
-/
def prescribed (setting : Setting) (state : CallState) : Value :=
  if state.givesNull then setting.null else setting.bound state.allocation.join

/-- A successor as it should be: its checkers were given this call, once, and the result
register holds what its branch prescribes.
-/
def Call.Correct (call : Call) (state : CallState) : Prop :=
  state.onCalls = [call.function.name]
  ∧ (call.function = .free ∨ state.register = some (prescribed call.setting state))

instance (call : Call) (state : CallState) : Decidable (call.Correct state) :=
  inferInstanceAs (Decidable (_ ∧ _))

/-- The value in the result register of a finished state. -/
structure Bound (call : Call) (state : CallState) : Prop where
  failed : state.injected → call.function = .malloc
    ∧ state.register = if state.createdAt = none then some ⟨32, 0⟩ else call.register
  served : ¬state.injected
    → call.function = .free ∨ state.register = some (prescribed call.setting state)

/-- A finished state whose checkers are still to be told of the call. -/
structure Untold (call : Call) (origin : Option Site) (state : CallState) : Prop where
  curFunc : state.curFunc = call.curFunc
  onCalls : state.onCalls = []
  origin : state.createdAt = origin
  bound : Bound call state

/-- A finished state that was forked off. -/
structure Told (call : Call) (state : CallState) : Prop where
  onCalls : ∃ site, state.createdAt = some site
    ∧ state.onCalls
      = if call.setting.notifies = true ∧ site.frees = false then [call.curFunc] else []
  bound : Bound call state

/-- What work done for `state` leaves in `ref`. -/
def Due (call : Call) (state : Nat) (origin : Option Site) (ref : Nat) (found : CallState)
    : Prop :=
  if ref = state then Untold call origin found else Told call found

/-- A state on the way: not yet told of the call, and either `state` or forked off it by a
function that does (or does not) free.
-/
structure Ready (call : Call) (state : Nat) (origin : Option Site) (frees : Bool) (ref : Nat)
    (found : CallState)
    : Prop where
  curFunc : found.curFunc = call.curFunc
  onCalls : found.onCalls = []
  origin : if ref = state then found.createdAt = origin
    else ∃ site, found.createdAt = some site ∧ site.frees = frees

variable {call : Call} {state ref : Nat} {origin : Option Site} {frees : Bool}
  {found : CallState} {machine middle after : Machine} {other : Nat}

/-- Both sides of a fork are on the way if the forked state was. -/
theorem Ready.forked (site : Site) (pair : StatePair)
    (ready : Ready call state origin frees ref found) (kind : site.frees = frees)
    (family : other = ref ∨ state < other)
    : Ready call state origin frees other (forkedState found ref site pair other) where
  curFunc := ready.curFunc
  onCalls := ready.onCalls
  origin := by
    have before := ready.origin
    by_cases same : other = ref
    · subst same
      simpa [forkedState, follow] using before
    · have differ : other ≠ state := by omega
      simp [forkedState, follow, same, differ, kind]

/-- A state on the way in a freeing function is not told any more. -/
theorem Ready.due {last : CallState} (ready : Ready call state origin true ref found)
    (untold : Untold call found.createdAt last)
    : Due call state origin ref last := by
  have born := ready.origin
  unfold Due
  split at born
  case isTrue same =>
      rw [if_pos same]
      exact born ▸ untold
  case isFalse differ =>
      obtain ⟨site, born, kind⟩ := born
      rw [if_neg differ]
      exact ⟨⟨site, untold.origin.trans born, by simp [kind, untold.onCalls]⟩, untold.bound⟩

/-- The value bound to a state does not depend on its events. -/
theorem Bound.tell (bound : Bound call found) (funcname : String)
    : Bound call (tell call.setting found funcname) := by
  unfold Alloc.tell
  split
  · exact ⟨bound.failed, bound.served⟩
  · exact bound

/-- Every other state is told after the work on it. -/
theorem notified_serves {work : Except Fault Machine}
    (ready : Ready call state origin false ref found) (here : machine.heap.read ref = some found)
    (worked : ∀ {middle}, work = .ok middle
      → Serves (Untold call found.createdAt) (Told call) machine middle ref)
    (returned : (do notifyOther call.setting state ref (← work)) = .ok after)
    : Serves (Due call state origin ref) (Told call) machine after ref := by
  obtain ⟨middle, works, returned⟩ := bind_eq_ok.mp returned
  have bound := Heap.lt_of_read here
  have worked := worked works
  refine worked.trans bound (notifyOther_serves (Nat.lt_of_lt_of_le bound worked.size) returned ?_)
  intro last there alive
  have untold := worked.own last there alive
  have born := ready.origin
  unfold Due
  split at born
  case isTrue same =>
      simp only [same, ne_eq, not_true_eq_false, if_false, if_true]
      exact born ▸ untold
  case isFalse differ =>
      obtain ⟨site, born, kind⟩ := born
      simp only [differ, ne_eq, not_false_eq_true, if_false, if_true]
      refine ⟨⟨site, ?_, ?_⟩, untold.bound.tell _⟩
      · have same := untold.origin.trans born
        unfold tell
        split <;> exact same
      · unfold tell
        split <;> simp [*, untold.onCalls, untold.curFunc]

/-- The state that the work was done for is still to be told. -/
theorem Due.serves_untold (served : Serves (Due call ref origin ref) (Told call) machine after ref)
    : Serves (Untold call origin) (Told call) machine after ref :=
  served.mono fun _ due => by simpa [Due] using due

/-- Seen from `root`, a state of its family is `root` or one that must be told. -/
theorem Due.seen {root : Nat} (due : Due call state origin ref found)
    (family : ref = root ∨ state < ref)
    : if ref = root then Due call state origin root found else Told call found := by
  split
  case isTrue same => exact same ▸ due
  case isFalse differ =>
      have other : ref ≠ state := by omega
      simpa [Due, other] using due

section Rules

variable {waiting : Nat → CallState → Prop} {root : Nat} {side : Option Nat}
  {body : Nat → Machine → Except Fault Machine}

section

variable (bound : root < machine.heap.length) (inside : state < machine.heap.length)
  (returned : onSide side body middle = .ok after)
  (serves : ∀ ref cell, state < middle.heap.length → ref = root ∨ state < ref
    → side = some ref → middle.heap.read ref = some cell → waiting ref cell
    → body ref middle = .ok after
    → Serves (Due call state origin ref) (Told call) middle after ref)
include bound inside returned serves

/-- Work on one side of a fork. -/
theorem onSide_due {rest : List Nat}
    (serving : Serving (Due call state origin root) (Told call) waiting machine middle root
      (side.toList ++ rest))
    : Serving (Due call state origin root) (Told call) waiting machine after root rest := by
  refine onSide_serving bound serving returned fun ref cell family chosen here waits done => ?_
  have newer : ref = root ∨ state < ref := family.imp_right (Nat.lt_of_lt_of_le inside)
  exact (serves ref cell (Nat.lt_of_lt_of_le inside serving.size) newer chosen here waits
    done).mono fun _ due => due.seen newer

/-- Work on the last side of a fork. -/
theorem onSide_due_last
    (serving : Serving (Due call state origin root) (Told call) waiting machine middle root
      side.toList)
    : Serves (Due call state origin root) (Told call) machine after root := by
  rw [← List.append_nil side.toList] at serving
  exact (onSide_due bound inside returned serves serving).done

end

/-- A pointer that may be null is resolved where it is not, and there is work for the null and
for every object. What holds of the state is kept by the two kinds of forks.
-/
theorem resolved_serves (holds : CallState → Prop) {null bounds : Site}
    {step : Machine → Object × Nat → Except Fault Machine}
    (ready : Ready call state origin frees ref found) (held : holds found)
    (keeps : ∀ {found ref pair other} site, holds found → site = null ∨ site = bounds
      → holds (forkedState found ref site pair other))
    (kinds : null.frees = frees ∧ bounds.frees = frees) (inside : state < machine.heap.length)
    (here : machine.heap.read ref = some found) (returned : (do
      let (machine, zeroPointer) ← fork call.setting machine ref null
      let machine ← onSide zeroPointer.1 body machine
      onSide zeroPointer.2 (fun pointer machine => do
          let (machine, results) ← resolveExact call.setting bounds pointer machine
          results.foldlM step machine)
        machine) = .ok after)
    (serves : ∀ {ref found machine after}, Ready call state origin frees ref found
      → holds found → machine.heap.read ref = some found
      → body ref machine = .ok after ∨ (∃ object, step machine (object, ref) = .ok after)
      → Serves (Due call state origin ref) (Told call) machine after ref)
    : Serves (Due call state origin ref) (Told call) machine after ref := by
  have bound := Heap.lt_of_read here
  simp only [bind_eq_ok] at returned
  obtain ⟨⟨middle, pair⟩, forked, next, onNull, pointer⟩ := returned
  have opened : Serving (Due call state origin ref) (Told call) _ machine middle ref _ :=
    fork_serving here forked
  refine onSide_due_last bound inside pointer ?_ (onSide_due bound inside onNull ?null opened)
  case null =>
    rintro other cell - family - there rfl worked
    exact serves (ready.forked null pair kinds.1 family) (keeps null held (.inl rfl)) there
      (.inl worked)
  rintro other cell inside family - there rfl worked
  obtain ⟨⟨resolved, results⟩, resolves, steps⟩ := bind_eq_ok.mp worked
  let waiting (other : Nat) (cell : CallState) : Prop :=
    Ready call state origin frees other cell ∧ holds cell
  have waits : Serving (Due call state origin other) (Told call) waiting next resolved other
      (results.map Prod.snd) := by
    refine resolveExact_serving ?_ there
      ⟨ready.forked null pair kinds.1 family, keeps null held (.inl rfl)⟩ resolves
    rintro ref cell pair other ⟨ready, held⟩ family
    exact ⟨ready.forked bounds pair kinds.2 (family.imp_right (Nat.lt_of_lt_of_le inside)),
      keeps bounds held (.inr rfl)⟩
  refine foldlM_serving (Heap.lt_of_read there) waits steps ?_
  rintro before after object ref cell family - here ⟨ready, held⟩ done
  have newer : ref = other ∨ state < ref := family.imp_right (Nat.lt_of_lt_of_le inside)
  exact (serves ready held here (.inr ⟨object, done⟩)).mono fun _ due => due.seen newer

end Rules

-- Allocating

variable {site : Site} {pair : StatePair}

/-- A branch that gives null is only entered at the fork for it. -/
theorem not_givesNull_forked (plain : ¬found.givesNull)
    (harmless : decide (pair.1 = some other) = false
      ∨ (site ≠ .injectedFailure ∧ site ≠ .zeroSize ∧ site ≠ .hugeSize))
    : ¬(forkedState found ref site pair other).givesNull := by
  simp [givesNull, injected] at plain
  simp only [givesNull, injected, forkedState, follow,
    List.mem_append, List.mem_singleton, Prod.mk.injEq]
  grind

variable {new : CallState → Prop}

theorem allocConstant_untold {size : UInt64} (ready : Ready call state origin frees ref found)
    (plain : ¬found.givesNull) (here : machine.heap.read ref = some found)
    (returned : allocConstant call.setting ref size machine = .ok after)
    : Serves (Untold call found.createdAt) new machine after ref := by
  refine allocConstant_serves here returned fun result =>
    ⟨ready.curFunc, ready.onCalls, rfl, ?_⟩
  refine ⟨fun injected => absurd (.inl injected) plain, fun _ => .inr ?_⟩
  have same : ¬({ found with
      allocation := some result
      register := some (call.setting.bound result) } : CallState).givesNull := plain
  simp [prescribed, same]

/-- The fork at which a state is found to be on a branch other than the injected failure. -/
theorem not_injected_forked (kept : ¬found.injected)
    (harmless : decide (pair.1 = some other) = false ∨ site ≠ .injectedFailure)
    : ¬(forkedState found ref site pair other).injected := by
  simp only [injected] at kept
  simp only [injected, forkedState, follow, List.mem_append, List.mem_singleton, Prod.mk.injEq]
  grind

/-- Null is bound on a branch that gives null. -/
theorem bindNull_untold (ready : Ready call state origin frees ref found) (null : found.givesNull)
    (kept : ¬found.injected) (here : machine.heap.read ref = some found)
    (returned : bindLocal machine ref call.setting.null = .ok after)
    : Serves (Untold call found.createdAt) new machine after ref := by
  refine update_serves returned fun again there _ => ?_
  obtain rfl := Option.mem_unique here there
  refine ⟨ready.curFunc, ready.onCalls, rfl, fun injected => absurd injected kept, ?_⟩
  intro _
  have same : ({ found with register := some call.setting.null } : CallState).givesNull := null
  simp [prescribed, same]

theorem allocOther_serves (ready : Ready call state origin false ref found)
    (plain : ¬found.givesNull) (inside : state < machine.heap.length)
    (here : machine.heap.read ref = some found)
    (returned : allocOther call.setting state ref machine = .ok after)
    : Serves (Due call state origin ref) (Told call) machine after ref := by
  have bound := Heap.lt_of_read here
  unfold allocOther at returned
  simp only at returned
  split at returned
  · have served : Serves (Due call state origin ref) (Told call) machine.tick after ref :=
      notified_serves ready here (allocConstant_untold ready plain here) returned
    exact served
  simp only [bind_eq_ok] at returned
  obtain ⟨⟨middle, pair⟩, forked, next, huge, rest⟩ := returned
  have opened : Serving (Due call state origin ref) (Told call) _ machine.tick middle ref _ :=
    fork_serving here forked
  refine onSide_due_last bound inside rest ?_ (onSide_due bound inside huge ?_ opened)
  · intro other cell _ _ _ _ _ terminated
    exact terminateState_serves terminated
  · rintro other cell - family chosen there rfl worked
    have ready := ready.forked .hugeSize pair rfl family
    have null : (forkedState found ref .hugeSize pair other).givesNull :=
      .inr (.inr (by simpa [forkedState, follow] using .inr chosen))
    have kept : ¬(forkedState found ref .hugeSize pair other).injected :=
      not_injected_forked (fun injected => plain (.inl injected)) (.inr (by simp))
    exact notified_serves ready there (bindNull_untold ready null kept there) worked

/-- `executeAlloc` leaves the state it was given untold and tells every state it forks off. -/
theorem executeAlloc_serves {size : Size} (ready : Ready call state origin frees ref found)
    (plain : ¬found.givesNull) (here : machine.heap.read ref = some found)
    (returned : executeAlloc call.setting size ref machine = .ok after)
    : Serves (Untold call found.createdAt) (Told call) machine after ref := by
  have bound := Heap.lt_of_read here
  have fresh : Ready call ref found.createdAt false ref found :=
    ⟨ready.curFunc, ready.onCalls, by simp⟩
  unfold executeAlloc at returned
  simp only at returned
  split at returned
  · have worked : Serves (Untold call found.createdAt) (Told call) machine.tick after ref :=
      allocConstant_untold ready plain here returned
    exact worked
  simp only [bind_eq_ok] at returned
  obtain ⟨⟨middle, pair⟩, forked, next, other, fixed⟩ := returned
  have opened : Serving (Due call ref found.createdAt ref) (Told call) _ machine.tick.tick
      middle ref _ :=
    fork_serving here forked
  have plain {other : Nat} : ¬(forkedState found ref .fixedSize pair other).givesNull :=
    not_givesNull_forked plain (.inr (by simp))
  -- The source serves the other size before the chosen one.
  refine Due.serves_untold (onSide_due_last bound bound fixed ?_
    (onSide_due bound bound other ?_ (opened.perm List.perm_append_comm)))
  · rintro other cell - family - there rfl worked
    have ready := fresh.forked .fixedSize pair rfl family
    exact notified_serves ready there (allocConstant_untold ready plain there) worked
  · rintro other cell inside family - there rfl worked
    exact allocOther_serves (fresh.forked .fixedSize pair rfl family) plain inside there worked

-- Freeing

/-- A state in which `executeFree` is at work, for `free` or for a `realloc` to nothing. -/
structure Freeing (call : Call) (target : Bool) (found : CallState) : Prop where
  kept : ¬found.injected
  result : if target = true then found.givesNull else call.function = .free

variable {target : Bool}

theorem Freeing.forked (freeing : Freeing call target found) (kind : site.frees = true)
    : Freeing call target (forkedState found ref site pair other) where
  kept := not_injected_forked freeing.kept (.inr (by rintro rfl; cases kind))
  result := by
    have before := freeing.result
    split at before
    case isFalse void => simpa [void] using before
    case isTrue bound =>
        simp only [bound, if_true]
        exact before.imp (List.mem_append_left _)
          (.imp (List.mem_append_left _) (List.mem_append_left _))

section

variable (ready : Ready call state origin true ref found) (freeing : Freeing call target found)
  (here : machine.heap.read ref = some found)
include ready freeing here

/-- Null is bound if there is a result. -/
theorem freed_serves (returned
      : (if target then bindLocal machine ref call.setting.null else .ok machine) = .ok after)
    : Serves (Due call state origin ref) (Told call) machine after ref := by
  have result := freeing.result
  split at returned
  case isTrue bound =>
      rw [if_pos bound] at result
      exact (bindNull_untold ready result freeing.kept here returned).mono
        fun last untold => ready.due untold
  case isFalse void =>
      rw [if_neg void] at result
      cases returned
      refine Heap.Served.refl fun again there _ => ?_
      obtain rfl := Option.mem_unique here there
      exact ready.due ⟨ready.curFunc, ready.onCalls, rfl,
        fun injected => absurd injected freeing.kept, fun _ => .inl result⟩

theorem freeObject_serves {object : Object}
    (returned : freeObject call.setting target machine (object, ref) = .ok after)
    : Serves (Due call state origin ref) (Told call) machine after ref := by
  unfold freeObject at returned
  split at returned
  · exact terminateState_serves returned
  split at returned
  · exact terminateState_serves returned
  · exact freed_serves ready freeing here returned

end

/-- `executeFree` tells no state of the call, neither the one it was given nor any that it
forks off.
-/
theorem executeFree_serves (ready : Ready call state origin frees ref found)
    (freeing : Freeing call target found) (here : machine.heap.read ref = some found)
    (returned : executeFree call.setting target ref machine = .ok after)
    : Serves (Untold call found.createdAt) (Told call) machine after ref := by
  have fresh : Ready call ref found.createdAt true ref found :=
    ⟨ready.curFunc, ready.onCalls, by simp⟩
  refine Due.serves_untold (resolved_serves _ fresh freeing
    (fun site freeing kind => freeing.forked (by rcases kind with rfl | rfl <;> rfl)) ⟨rfl, rfl⟩
    (Heap.lt_of_read here) here returned fun ready freeing here worked => ?_)
  rcases worked with worked | ⟨object, worked⟩
  · exact freed_serves ready freeing here worked
  · exact freeObject_serves ready freeing here worked

end Woodpecker.Alloc
