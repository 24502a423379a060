import Mathlib.Logic.Function.Basic

/-! Histories read from their end, and one automaton per key run on a shared trace. -/

namespace Woodpecker.Library

universe u v w

section Since

variable {Entry : Type u} {occurs cancels : Entry → Prop} {past : List Entry} {entry : Entry}

/-- Some entry satisfies `occurs` and no later one satisfies `cancels`. -/
def Since (occurs cancels : Entry → Prop) (history : List Entry) : Prop :=
  ∃ before entry after,
    history = before ++ entry :: after
    ∧ occurs entry
    ∧ ∀ later ∈ after, ¬ cancels later

theorem not_since_nil : ¬ Since occurs cancels [] := by
  rintro ⟨before, entry, after, split, -⟩
  simp at split

/-- The last entry either occurs itself or has to let an earlier one stand. -/
theorem since_snoc_iff
    : Since occurs cancels (past ++ [entry])
      ↔ occurs entry ∨ (Since occurs cancels past ∧ ¬ cancels entry) := by
  constructor
  · rintro ⟨before, found, after, split, occurred, standing⟩
    rcases List.eq_nil_or_concat after with rfl | ⟨middle, last, rfl⟩
    · obtain ⟨-, same⟩ := List.append_inj' split rfl
      obtain rfl : entry = found := by simpa using same
      exact .inl occurred
    have regrouped : past ++ [entry] = (before ++ found :: middle) ++ [last] := by
      simpa using split
    obtain ⟨rfl, same⟩ := List.append_inj' regrouped rfl
    obtain rfl : entry = last := by simpa using same
    refine .inr ⟨⟨before, found, middle, rfl, occurred, ?_⟩, standing entry (by simp)⟩
    intro later member
    exact standing later (by simp [member])
  · rintro (occurred | ⟨⟨before, found, after, rfl, occurred, standing⟩, kept⟩)
    · exact ⟨past, entry, [], rfl, occurred, by simp⟩
    · exact ⟨before, found, after ++ [entry], by simp, occurred,
        List.forall_mem_append.mpr ⟨standing, List.forall_mem_singleton.mpr kept⟩⟩

end Since

section Throughout

variable {Entry : Type u} {fits : List Entry → Entry → Prop} {past : List Entry} {entry : Entry}

/-- Every entry of a history fits the entries before it. -/
def Throughout (fits : List Entry → Entry → Prop) (history : List Entry) : Prop :=
  ∀ before entry after, history = before ++ entry :: after → fits before entry

theorem throughout_nil : Throughout fits [] := by
  intro before entry after split
  simp at split

/-- A history with one more entry, by where it is split. -/
theorem throughout_snoc_iff
    : Throughout fits (past ++ [entry]) ↔ Throughout fits past ∧ fits past entry := by
  constructor
  · intro whole
    refine ⟨?_, whole past entry [] rfl⟩
    intro before found after split
    exact whole before found (after ++ [entry]) (by simp [split])
  · intro ⟨earlier, last⟩ before found after split
    rcases List.eq_nil_or_concat after with rfl | ⟨middle, end_, rfl⟩
    · obtain ⟨rfl, same⟩ := List.append_inj' split rfl
      obtain rfl : entry = found := by simpa using same
      exact last
    have regrouped : past ++ [entry] = (before ++ found :: middle) ++ [end_] := by
      simpa using split
    exact earlier before found middle (List.append_inj' regrouped rfl).1

end Throughout

section Keyed

variable {Key : Type u} {Operation : Type v} {State : Type w} [DecidableEq Key]
  {advance : State → Operation → State} {initial : State}

/-- The operations of a trace that are on one key. -/
def ownOperations (trace : List (Key × Operation)) (key : Key) : List Operation :=
  (trace.filter fun entry => entry.1 = key).map Prod.snd

/-- The state of the automaton of a key after its own operations. -/
def keyedState (advance : State → Operation → State) (initial : State)
    (trace : List (Key × Operation)) (key : Key)
    : State :=
  (ownOperations trace key).foldl advance initial

@[simp]
theorem keyedState_nil (key : Key) : keyedState advance initial [] key = initial := rfl

/-- An operation on a key advances the automaton of that key and no other. -/
theorem keyedState_snoc (trace : List (Key × Operation)) (key : Key) (operation : Operation)
    : keyedState advance initial (trace ++ [(key, operation)])
      = Function.update (keyedState advance initial trace) key
          (advance (keyedState advance initial trace key) operation) := by
  funext other
  by_cases same : other = key
  · subst same
    simp [keyedState, ownOperations]
  · have different : key ≠ other := fun equal => same equal.symm
    simp [keyedState, ownOperations, same, different]

end Keyed

end Woodpecker.Library
