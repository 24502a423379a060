import Mathlib.Logic.Relation

/-! Finite labelled runs of a step relation and the induction rules for them.
Nothing here depends on what the states or the labels are.
-/

namespace Woodpecker.Library

universe u v

variable {State : Type u} {Label : Type v}

/-- `Run next start labels finish` holds when the steps named by `labels`, taken in order,
lead from `start` to `finish`.
-/
inductive Run (next : State → Label → State → Prop) (start : State)
    : List Label → State → Prop
  | nil : Run next start [] start
  | snoc {labels : List Label} {label : Label} {middle finish : State}
    (before : Run next start labels middle) (step : next middle label finish)
    : Run next start (labels ++ [label]) finish

variable {next : State → Label → State → Prop} {start finish : State}
  {labels : List Label} {Inv : State → Prop}

section

variable (run : Run next start labels finish)
include run

/-- What holds at the start and survives every step holds at the end of every run, by
induction on the run.
-/
theorem Run.invariant (initial : Inv start)
    (preserved : ∀ {state label after}, Inv state → next state label after → Inv after)
    : Inv finish := by
  induction run with
  | nil => exact initial
  | snoc _ step ih => exact preserved ih step

/-- The same rule for a relation between the labels taken so far and the state reached. -/
theorem Run.history (Inv : List Label → State → Prop) (initial : Inv [] start) (preserved
      : ∀ {past state label after},
          Inv past state → next state label after → Inv (past ++ [label]) after)
    : Inv labels finish := by
  induction run with
  | nil => exact initial
  | snoc _ step ih => exact preserved ih step

/-- A run projects to a run of another system when every step does, under an invariant of
the first system. A step that `visible` drops leaves the projected state as it is.
-/
theorem Run.simulate {Image : Type*} {Action : Type*} {image : State → Image}
    {visible : Label → Option Action} {imageNext : Image → Action → Image → Prop}
    (initial : Inv start) (simulated
      : ∀ {state label after}, Inv state → next state label after → Inv after
          ∧ (visible label = none → image after = image state)
          ∧ ∀ action, visible label = some action → imageNext (image state) action (image after))
    : Inv finish ∧ Run imageNext (image start) (labels.filterMap visible) (image finish) := by
  induction run with
  | nil => exact ⟨initial, .nil⟩
  | @snoc labels label middle finish _ step ih =>
    obtain ⟨holds, before⟩ := ih
    obtain ⟨after, hidden, shown⟩ := simulated holds step
    refine ⟨after, ?_⟩
    cases seen : visible label with
    | none => simpa [seen, hidden seen] using before
    | some action => simpa [seen] using before.snoc (shown action seen)

end

/-- A step together with the states it leads from and to, for properties of single steps
of a run.
-/
structure Transition (State : Type u) (Label : Type v) where
  before : State
  label : Label
  after : State

/-- The step relation with its own record as the label. -/
def Takes (next : State → Label → State → Prop) (state : State)
    (transition : Transition State Label) (after : State)
    : Prop :=
  transition.before = state ∧ transition.after = after
  ∧ next transition.before transition.label transition.after

variable {trace : List (Transition State Label)}

/-- One more step, recorded in the trace. -/
theorem Run.record {label : Label} {middle : State}
    (before : Run (Takes next) start trace middle) (step : next middle label finish)
    : Run (Takes next) start (trace ++ [⟨middle, label, finish⟩]) finish :=
  before.snoc ⟨rfl, rfl, step⟩

section

variable (run : Run (Takes next) start trace finish)
include run

/-- Every transition of a run is a step, by induction on the run. -/
theorem Run.takes : ∀ transition ∈ trace,
        next transition.before transition.label transition.after := by
  induction run with
  | nil => simp
  | snoc _ step ih =>
    exact List.forall_mem_append.mpr ⟨ih, List.forall_mem_singleton.mpr step.2.2⟩

/-- What holds at the start and survives the transitions of one run holds in every state
along that run, by induction on it.
-/
theorem Run.along (initial : Inv start)
    (preserved : ∀ transition ∈ trace, Inv transition.before → Inv transition.after)
    : Inv finish ∧ ∀ transition ∈ trace, Inv transition.before ∧ Inv transition.after := by
  induction run with
  | nil => exact ⟨initial, by simp⟩
  | @snoc past last middle finish _ step ih =>
    obtain ⟨rfl, rfl, -⟩ := step
    obtain ⟨before, earlier⟩ := ih fun transition member =>
      preserved transition (List.mem_append_left _ member)
    have after := preserved last (by simp) before
    exact ⟨after, List.forall_mem_append.mpr
      ⟨earlier, List.forall_mem_singleton.mpr ⟨before, after⟩⟩⟩

/-- Two properties of steps agree along a run when they agree under an invariant and the
second one keeps it.
-/
theorem Run.forall_iff {good careful : Transition State Label → Prop} (Inv : State → Prop)
    (initial : Inv start)
    (steps : ∀ transition, next transition.before transition.label transition.after
      → Inv transition.before
      → (good transition ↔ careful transition) ∧ (careful transition → Inv transition.after))
    : (∀ transition ∈ trace, good transition) ↔ ∀ transition ∈ trace, careful transition := by
  have step transition member := steps transition (run.takes transition member)
  constructor
  · intro allGood transition member
    have held := run.along initial fun transition member inv =>
      (step transition member inv).2 ((step transition member inv).1.mp (allGood transition member))
    exact (step transition member (held.2 transition member).1).1.mp (allGood transition member)
  · intro allCareful transition member
    have held := run.along initial fun transition member inv =>
      (step transition member inv).2 (allCareful transition member)
    exact (step transition member (held.2 transition member).1).1.mpr (allCareful transition member)

end

/-- Where the invariant makes a step good, a good step is a careful one that keeps it. -/
theorem good_iff_careful {good careful inv : Prop} (sound : inv → good)
    (step : (careful → inv) ∧ (good → careful))
    : (good ↔ careful) ∧ (careful → inv) :=
  ⟨⟨step.2, fun isCareful => sound (step.1 isCareful)⟩, step.1⟩

/-- The rule for runs where steps can fail, and care is asked of the steps before a failure. -/
theorem Run.forall_iff_ok {ε : Type*} {next : Except ε State → Label → Except ε State → Prop}
    {trace : List (Transition (Except ε State) Label)} {finish : Except ε State}
    {good : Transition (Except ε State) Label → Prop} {careful : State → Label → Prop}
    (run : Run (Takes next) (.ok start) trace finish) (initial : Inv start)
    (steps : ∀ {before label after}, next (.ok before) label after → Inv before
      → (good ⟨.ok before, label, after⟩ ↔ careful before label)
        ∧ (careful before label → ∃ state, after = .ok state ∧ Inv state))
    : (∀ transition ∈ trace, good transition)
      ↔ ∀ transition ∈ trace, ∀ before, transition.before = .ok before
          → careful before transition.label := by
  apply run.forall_iff (fun state => ∃ held, state = .ok held ∧ Inv held) ⟨_, rfl, initial⟩
  rintro ⟨_, label, after⟩ step ⟨before, rfl, inv⟩
  simpa using steps step inv

end Woodpecker.Library
