import Woodpecker.States.BumpMerging

/-! The searcher that merges states once all of them are at merge points, over any searcher
that holds states.

States that were merged stay among those held until the next update removes them. If all
other states are at merge points again before, they are taken for held states.
-/

namespace Woodpecker

open Library Searcher List ExecutorStates

abbrev MergingSearcher (B : Type) := Merger B (Finset Nat)

namespace MergingSearcher

variable {B : Type} (isMerge : Nat → Bool) (searcher : BaseSearcher B)

/-- The loop's body while there are base states. -/
def visit (merging : MergingSearcher B) (es : Nat) : Except Fault (MergingSearcher B) := do
  match merging.states.getMergePoint isMerge es with
  | some _ =>
    let baseSearcher ← searcher.removeState merging.baseSearcher es (some es)
    .ok ⟨baseSearcher, insert es merging.statesAtMerge,
      { merging.states with selected := none }⟩
  | none => .ok { merging with states := { merging.states.use es with selected := some es } }

/-- `merges[mp].push_back(&state)` -/
def pushBack (merges : Table (WithBot Nat) (List Nat)) (mp : WithBot Nat) (es : Nat)
    : Table (WithBot Nat) (List Nat) :=
  merges.assign mp ((merges.find? mp).getD [] ++ [es])

/-- A state that is at no merge point comes under the null pointer, before all others. -/
def group (states : ExecutorStates) (merges : Table (WithBot Nat) (List Nat)) (es : Nat)
    : Table (WithBot Nat) (List Nat) :=
  pushBack merges (states.getMergePoint isMerge es) es

def useBoth (base : Nat) (states : ExecutorStates) (es : Nat) : ExecutorStates :=
  (states.use base).use es

/-- `base` is merged with other states, which are then terminated. -/
def absorb (states : ExecutorStates) (base : Nat) (toErase : List Nat) : ExecutorStates :=
  toErase.foldl ExecutorStates.terminateState (toErase.foldl (useBoth base) states)

/-- The loop over the states at one merge point. Each is merged with those that come later,
as far as that succeeds, and goes back to the base searcher.
-/
def mergeStates (merges : Nat → Nat → Bool) (merging : MergingSearcher B)
    : List Nat → Except Fault (MergingSearcher B)
  | [] => .ok merging
  | base :: toMerge => do
    let states := absorb merging.states base (toMerge.filter (merges base))
    if base ∈ merging.statesAtMerge then
      let baseSearcher ← searcher.addState merging.baseSearcher base
      mergeStates merges
        ⟨baseSearcher, merging.statesAtMerge.erase base, (states.use base).skip base⟩
        (toMerge.filter (!merges base ·))
    else .error .badPointer
termination_by toMerge => toMerge.length
decreasing_by
  simp only [List.length_unattach, List.length_cons]
  exact Nat.lt_succ_of_le ((List.length_filter_le _ _).trans (by simp))

/-- The held states in the order of their merge points. -/
def groups (merging : MergingSearcher B) : List (List Nat) :=
  ((ascending merging.statesAtMerge).foldl (group isMerge merging.states) []).map Prod.snd

def mergeAll (merges : Nat → Nat → Bool) (merging : MergingSearcher B)
    : Except Fault (MergingSearcher B) :=
  (merging.groups isMerge).foldlM (mergeStates searcher merges) merging

/-- The loop that takes held states off the removed ones. -/
def altState (sets : Finset Nat × Finset Nat) (es : Nat) : Finset Nat × Finset Nat :=
  if es ∈ sets.1 then (sets.1.erase es, sets.2.erase es) else sets

def update (merging : MergingSearcher B) (current : Option Nat)
    (addedStates removedStates : Finset Nat) (cursors : Nat → Cursor)
    : Except Fault (MergingSearcher B) := do
  let sets := (ascending removedStates).foldl altState (merging.statesAtMerge, removedStates)
  let baseSearcher ← searcher.update merging.baseSearcher current addedStates sets.2
  .ok ⟨baseSearcher, sets.1, merging.states.update addedStates removedStates cursors⟩

inductive Call where
  | selectState (es : Nat)
  | mergeAll (merges : Nat → Nat → Bool)
  | update (current : Option Nat) (addedStates removedStates : Finset Nat)
    (cursors : Nat → Cursor)

/-- Steps of the searcher: one turn of the loop in `selectState`, the merging that comes after
the loop, or an update.
-/
inductive Step : Except Fault (MergingSearcher B) → Call → Except Fault (MergingSearcher B)
    → Prop
  | selectState (before : MergingSearcher B) (es : Nat) (baseSearcher : B)
    (selects : searcher.selects before.baseSearcher es baseSearcher)
    : Step (.ok before) (.selectState es)
        (visit isMerge searcher ⟨baseSearcher, before.statesAtMerge, before.states⟩ es)
  | mergeAll (before : MergingSearcher B) (merges : Nat → Nat → Bool)
    (isEmpty : searcher.empty before.baseSearcher = true)
    : Step (.ok before) (.mergeAll merges) (before.mergeAll isMerge searcher merges)
  | update (before : MergingSearcher B) (current : Option Nat)
    (addedStates removedStates : Finset Nat) (cursors : Nat → Cursor)
    (allowed : before.states.Allows current addedStates removedStates)
    : Step (.ok before) (.update current addedStates removedStates cursors)
        (before.update searcher current addedStates removedStates cursors)

/-- Every live state is in the base searcher or held, no terminated state was used, and the
update that removes the terminated states can be made.
-/
structure Settled (merging : MergingSearcher B) : Prop where
  located : ∃ set, searcher.holds merging.baseSearcher set
    ∧ merging.states.live ⊆ set ∪ merging.statesAtMerge
  clean : merging.states.Clean
  removable : ∃ after,
    merging.update searcher none ∅ merging.states.pending merging.states.cursors = .ok after

def Sound (transition : Transition (Except Fault (MergingSearcher B)) Call) : Prop :=
  ∃ after, transition.after = .ok after ∧ Settled searcher after

/-- No state that was merged is still held when states are merged again. -/
def CarefulCall (before : MergingSearcher B) : Call → Prop
  | .mergeAll _ => Disjoint before.statesAtMerge before.states.terminated
  | _ => True

def Careful (transition : Transition (Except Fault (MergingSearcher B)) Call) : Prop :=
  ∀ before, transition.before = .ok before → CarefulCall before transition.label

-- Merging

variable {isMerge : Nat → Bool} {searcher : BaseSearcher B} {merging : MergingSearcher B}
  {states : ExecutorStates} {es base : Nat} {toErase : List Nat}
  {merges : Table (WithBot Nat) (List Nat)}

theorem pushBack_perm (ordered : merges.Ordered) (mp : WithBot Nat) (es : Nat)
    : ((pushBack merges mp es).map Prod.snd).flatten.Perm
        ((merges.map Prod.snd).flatten ++ [es]) := by
  unfold pushBack
  cases found : merges.find? mp with
  | none =>
    have assigned := ((Table.assign_perm found [es]).map Prod.snd).flatten
    exact assigned.trans perm_append_comm
  | some old =>
    have before := ((ordered.perm_erase found).map Prod.snd).flatten
    have after := ((ordered.assign_perm mp (old ++ [es])).map Prod.snd).flatten
    refine after.trans (.trans ?_ (before.append_right [es]).symm)
    simp only [map_cons, flatten_cons, append_assoc]
    exact perm_append_comm.append_left old

/-- By induction on the states. -/
theorem group_loop (states : ExecutorStates) (list : List Nat) (ordered : merges.Ordered)
    : ((list.foldl (group isMerge states) merges).map Prod.snd).flatten.Perm
        ((merges.map Prod.snd).flatten ++ list) := by
  induction list generalizing merges with
  | nil => simp
  | cons es rest ih =>
    have grouped := pushBack_perm ordered (states.getMergePoint isMerge es) es
    have ordered' : (group isMerge states merges es).Ordered := ordered.assign _ _
    rw [append_cons]
    exact (ih ordered').trans (grouped.append_right rest)

/-- The groups have the held states, each once. -/
theorem groups_perm (merging : MergingSearcher B)
    : (merging.groups isMerge).flatten.Perm (ascending merging.statesAtMerge) :=
  group_loop merging.states (ascending merging.statesAtMerge) .nil

theorem mem_groups (merging : MergingSearcher B)
    : es ∈ (merging.groups isMerge).flatten ↔ es ∈ merging.statesAtMerge := by
  rw [(groups_perm merging).mem_iff, mem_ascending]

/-- What merging `base` with other states does. -/
structure Absorbed (before after : ExecutorStates) (base : Nat) (toErase : List Nat) : Prop where
  live : after.live = before.live
  selected : after.selected = before.selected
  terminated : after.terminated = before.terminated ∪ toErase.toFinset
  uses : after.uses = before.uses
    ++ toErase.flatMap fun es => [⟨base, before.terminated⟩, ⟨es, before.terminated⟩]

theorem useBoth_loop (states : ExecutorStates) (base : Nat) (toErase : List Nat)
    : toErase.foldl (useBoth base) states = { states with
          uses := states.uses ++ toErase.flatMap fun es =>
            [⟨base, states.terminated⟩, ⟨es, states.terminated⟩] } := by
  induction toErase generalizing states with
  | nil => simp
  | cons es rest ih =>
    rw [foldl_cons, ih]
    simp [useBoth, use]

theorem terminate_loop (states : ExecutorStates) (toErase : List Nat)
    : ∃ cursors, toErase.foldl terminateState states
        = { states with cursors, terminated := states.terminated ∪ toErase.toFinset } := by
  induction toErase generalizing states with
  | nil => exact ⟨states.cursors, by simp⟩
  | cons es rest ih =>
    obtain ⟨cursors, looped⟩ := ih (states.terminateState es)
    refine ⟨cursors, ?_⟩
    rw [foldl_cons, looped]
    simp [terminateState]

theorem absorb_spec (states : ExecutorStates) (base : Nat) (toErase : List Nat)
    : Absorbed states (absorb states base toErase) base toErase := by
  unfold absorb
  obtain ⟨cursors, terminated⟩ := terminate_loop (toErase.foldl (useBoth base) states) toErase
  rw [terminated, useBoth_loop]
  exact ⟨rfl, rfl, rfl, rfl⟩

variable {after : ExecutorStates}

/-- States that are running can be merged. -/
theorem Absorbed.clean (absorbed : Absorbed states after base toErase) (clean : states.Clean)
    (running : base ∉ states.terminated) (others : ∀ es ∈ toErase, es ∉ states.terminated)
    : after.Clean := by
  intro use member
  rw [absorbed.uses] at member
  rcases mem_append.mp member with earlier | new
  · exact clean use earlier
  obtain ⟨es, isErased, isUse⟩ := mem_flatMap.mp new
  rcases mem_pair.mp isUse with rfl | rfl
  · exact running
  · exact others es isErased

/-- States held and running are left for merging. -/
structure Inv (searcher : BaseSearcher B) (merging : MergingSearcher B) : Prop
    extends Placed searcher merging.baseSearcher merging.statesAtMerge merging.states where
  pending : merging.states.pending ⊆ merging.statesAtMerge

structure Round (searcher : BaseSearcher B) (rest : List Nat) (merging : MergingSearcher B) : Prop
    extends Inv searcher merging where
  held : ∀ es ∈ rest, es ∈ merging.statesAtMerge
  running : ∀ es ∈ rest, es ∉ merging.states.terminated
  nodup : rest.Nodup

/-- One turn of the loop: `base` is merged and goes back. -/
theorem Round.turn {merges : Nat → Nat → Bool} {base : Nat} {toMerge rest : List Nat}
    (round : Round searcher (base :: toMerge ++ rest) merging)
    : ∃ baseSearcher, searcher.addState merging.baseSearcher base = .ok baseSearcher
        ∧ Round searcher (toMerge.filter (!merges base ·) ++ rest)
          ⟨baseSearcher, merging.statesAtMerge.erase base,
            ((absorb merging.states base (toMerge.filter (merges base))).use base).skip base⟩ := by
  have absorbed := absorb_spec merging.states base (toMerge.filter (merges base))
  revert absorbed
  generalize absorb merging.states base (toMerge.filter (merges base)) = states
  intro absorbed
  obtain ⟨new, nodup⟩ := nodup_cons.mp round.nodup
  have running : base ∉ merging.states.terminated := round.running base (by simp)
  have isHeld : base ∈ merging.statesAtMerge := round.held base (by simp)
  have mine (es : Nat) (member : es ∈ toMerge.filter (merges base)) : es ∈ toMerge :=
    mem_of_mem_filter member
  have clean : states.Clean := absorbed.clean round.clean running fun es member =>
    round.running es (by simp [mine es member])
  have stays : base ∉ states.terminated := by
    rw [absorbed.terminated, Finset.mem_union, mem_toFinset]
    rintro (terminated | erased)
    · exact running terminated
    · exact new (by simp [mine base erased])
  have placed : Placed searcher merging.baseSearcher
      (insert base (merging.statesAtMerge.erase base)) states := by
    rw [Finset.insert_erase isHeld]
    exact round.toPlaced.congr absorbed.live absorbed.selected clean
  obtain ⟨baseSearcher, added, placed'⟩ := placed.resume (Finset.notMem_erase _ _) stays
  have pending : states.pending ⊆ merging.statesAtMerge.erase base := by
    intro es isPending
    obtain ⟨live, terminated⟩ := Finset.mem_inter.mp isPending
    have differ : es ≠ base := fun same => stays (same ▸ terminated)
    rw [absorbed.terminated, Finset.mem_union, mem_toFinset] at terminated
    refine Finset.mem_erase.mpr ⟨differ, ?_⟩
    rcases terminated with earlier | erased
    · exact round.pending (Finset.mem_inter.mpr ⟨absorbed.live ▸ live, earlier⟩)
    · exact round.held es (by simp [mine es erased])
  have left (es : Nat) (member : es ∈ toMerge.filter (!merges base ·) ++ rest)
      : es ∈ toMerge ++ rest ∧ es ∉ toMerge.filter (merges base) := by
    rcases mem_append.mp member with kept | later
    · obtain ⟨member, failed⟩ := mem_filter.mp kept
      exact ⟨by simp [member], by simpa using fun _ => by simpa using failed⟩
    · exact ⟨by simp [later], fun erased =>
        (disjoint_of_nodup_append nodup) (mine es erased) later⟩
  refine ⟨baseSearcher, added, ⟨placed', pending⟩, ?_, ?_, ?_⟩
  · intro es member
    have here := (left es member).1
    exact Finset.mem_erase.mpr ⟨fun same => new (same ▸ here), round.held es (.tail _ here)⟩
  · intro es member
    change es ∉ states.terminated
    rw [absorbed.terminated, Finset.mem_union, mem_toFinset, not_or]
    exact ⟨round.running es (.tail _ (left es member).1), (left es member).2⟩
  · exact nodup.sublist (filter_sublist.append_right rest)

/-- The states at one merge point are merged, by induction on their number. -/
theorem Round.mergeStates (merges : Nat → Nat → Bool) {toMerge rest : List Nat}
    (round : Round searcher (toMerge ++ rest) merging)
    : ∃ after, mergeStates searcher merges merging toMerge = .ok after
        ∧ Round searcher rest after := by
  induction size : toMerge.length using Nat.strong_induction_on generalizing toMerge merging with
  | _ length ih =>
    match toMerge with
    | [] => exact ⟨merging, by rw [mergeStates], round⟩
    | base :: toMerge =>
      obtain ⟨baseSearcher, added, next⟩ := round.turn
      have shorter : (toMerge.filter (!merges base ·)).length < length := by
        subst size
        exact Nat.lt_succ_of_le (length_filter_le _ _)
      obtain ⟨after, merged, finished⟩ := ih _ shorter next rfl
      refine ⟨after, ?_, finished⟩
      rw [mergeStates]
      simp only [round.held base (by simp), if_true, added, ok_bind]
      exact merged

/-- All held states are running, so they can be merged. -/
theorem Inv.mergeAll (inv : Inv searcher merging) (merges : Nat → Nat → Bool)
    (careful : Disjoint merging.statesAtMerge merging.states.terminated)
    : ∃ after, merging.mergeAll isMerge searcher merges = .ok after ∧ Inv searcher after := by
  let Left (rest : List (List Nat)) (merging : MergingSearcher B) : Prop :=
    Round searcher rest.flatten merging
  have start : Left (merging.groups isMerge) merging := by
    refine ⟨inv, fun es => (mem_groups merging).mp, fun es member => ?_, ?_⟩
    · exact Finset.disjoint_left.mp careful ((mem_groups merging).mp member)
    · exact (groups_perm merging).nodup_iff.mpr (nodup_ascending _)
  obtain ⟨after, looped, round⟩ := foldlM_ok Left start fun round => round.mergeStates merges
  exact ⟨after, looped, round.toInv⟩

-- Terminated states that are held

/-- The state was used after the other states were terminated. -/
structure Used (before after : ExecutorStates) (es : Nat) : Prop where
  uses : ∃ terminated, before.terminated ⊆ terminated ∧ ⟨es, terminated⟩ ∈ after.uses

/-- States that were used or terminated stay so. -/
structure Later (before after : ExecutorStates) : Prop where
  uses : ∀ use ∈ before.uses, use ∈ after.uses
  terminated : before.terminated ⊆ after.terminated

variable {before middle : ExecutorStates}

theorem Later.trans (first : Later before middle) (second : Later middle after)
    : Later before after :=
  ⟨fun use member => second.uses use (first.uses use member),
    Finset.Subset.trans first.terminated second.terminated⟩

theorem Later.used (first : Later before middle) (second : Used middle after es)
    : Used before after es := by
  obtain ⟨terminated, more, member⟩ := second
  exact ⟨terminated, Finset.Subset.trans first.terminated more, member⟩

theorem Used.later (first : Used before middle es) (second : Later middle after)
    : Used before after es := by
  obtain ⟨terminated, more, member⟩ := first
  exact ⟨terminated, more, second.uses _ member⟩

theorem Absorbed.later (absorbed : Absorbed states after base toErase)
    : Later states after :=
  ⟨by simp +contextual [absorbed.uses], by simp [absorbed.terminated]⟩

/-- All states at a merge point are used, by induction on their number. -/
theorem mergeStates_used (merges : Nat → Nat → Bool) (toMerge : List Nat)
    : Ensures (mergeStates searcher merges merging toMerge) fun after =>
        Later merging.states after.states
        ∧ ∀ es ∈ toMerge, Used merging.states after.states es := by
  induction size : toMerge.length using Nat.strong_induction_on generalizing toMerge merging with
  | _ length ih =>
    match toMerge with
    | [] =>
      rw [mergeStates]
      exact .of_ok ⟨⟨fun _ => id, Finset.Subset.refl _⟩, by simp⟩
    | base :: toMerge =>
      have shorter : (toMerge.filter (!merges base ·)).length < length := by
        subst size
        exact Nat.lt_succ_of_le (length_filter_le _ _)
      rw [mergeStates]
      have absorbed := absorb_spec merging.states base (toMerge.filter (merges base))
      revert absorbed
      generalize absorb merging.states base (toMerge.filter (merges base)) = states
      intro absorbed
      split
      · refine ensures_bind fun baseSearcher _ => (ih _ shorter _ rfl).mono ?_
        rintro after ⟨later, used⟩
        have resumed : Later states ((states.use base).skip base) :=
          ⟨fun use member => mem_append_left _ member, Finset.Subset.refl _⟩
        refine ⟨absorbed.later.trans (resumed.trans later), ?_⟩
        intro es member
        rcases mem_cons.mp member with rfl | waiting
        · have isUsed : Used states ((states.use es).skip es) es :=
            ⟨states.terminated, Finset.Subset.refl _, by
              simp [use, skip]⟩
          exact (absorbed.later.used isUsed).later later
        · by_cases merged : merges base es = true
          · have isUsed : Used merging.states states es := by
              refine ⟨merging.states.terminated, Finset.Subset.refl _, ?_⟩
              rw [absorbed.uses]
              refine mem_append_right _ (mem_flatMap.mpr ⟨es, ?_, by simp⟩)
              exact mem_filter.mpr ⟨waiting, merged⟩
            exact isUsed.later (resumed.trans later)
          · have left : es ∈ toMerge.filter (!merges base ·) :=
              mem_filter.mpr ⟨waiting, by simpa using merged⟩
            exact (absorbed.later.trans resumed).used (used es left)
      · exact ensures_error _

/-- A terminated state that is held is merged or resumed. -/
theorem mergeAll_terminated {merges : Nat → Nat → Bool} {after : MergingSearcher B}
    (careless : ¬ Disjoint merging.statesAtMerge merging.states.terminated)
    (merged : merging.mergeAll isMerge searcher merges = .ok after)
    : ¬ after.states.Clean := by
  obtain ⟨es, isHeld, terminated⟩ := Finset.not_disjoint_iff.mp careless
  let Left (rest : List (List Nat)) (now : MergingSearcher B) : Prop :=
    Later merging.states now.states ∧ (es ∈ rest.flatten ∨ Used merging.states now.states es)
  have start : Left (merging.groups isMerge) merging :=
    ⟨⟨fun _ => id, Finset.Subset.refl _⟩, .inl ((mem_groups merging).mpr isHeld)⟩
  have looped : Ensures (merging.mergeAll isMerge searcher merges) (Left []) := by
    refine foldlM_ensures Left start ?_
    rintro toMerge rest now ⟨later, waiting⟩
    refine (mergeStates_used merges toMerge).mono ?_
    rintro after ⟨later', used⟩
    refine ⟨later.trans later', ?_⟩
    rcases waiting with waiting | isUsed
    · rcases mem_append.mp waiting with here | there
      · exact .inr (later.used (used es here))
      · exact .inl there
    · exact .inr (isUsed.later later')
  obtain ⟨terminated', more, used⟩ := (looped after merged).2.resolve_left (by simp)
  exact not_clean used (more terminated)

-- Steps and runs

/-- The loop over the removed states, by induction on them. -/
theorem altState_loop (statesAtMerge alt : Finset Nat) (list : List Nat)
    : list.foldl altState (statesAtMerge, alt)
      = (statesAtMerge \ list.toFinset, alt \ (statesAtMerge ∩ list.toFinset)) := by
  induction list generalizing statesAtMerge alt with
  | nil => simp
  | cons es rest ih =>
    rw [foldl_cons, altState]
    split_ifs with isHeld
    all_goals
      rw [ih]
      refine Prod.ext ?_ ?_ <;> ext other <;> by_cases same : other = es <;>
        simp [same, isHeld]

/-- Every update can be carried out. -/
theorem Inv.update {current : Option Nat} {addedStates removedStates : Finset Nat}
    (inv : Inv searcher merging)
    (allowed : merging.states.Allows current addedStates removedStates) (cursors : Nat → Cursor)
    : ∃ after, merging.update searcher current addedStates removedStates cursors = .ok after
        ∧ Inv searcher after := by
  obtain ⟨base, updated, placed⟩ := inv.toPlaced.update allowed cursors
  have sets : (ascending removedStates).foldl altState (merging.statesAtMerge, removedStates)
      = (merging.statesAtMerge \ removedStates, removedStates \ merging.statesAtMerge) := by
    rw [altState_loop, toFinset_ascending, Finset.inter_comm, Finset.sdiff_inter_self_left]
  refine ⟨⟨base, merging.statesAtMerge \ removedStates,
    merging.states.update addedStates removedStates cursors⟩, ?_, placed, ?_⟩
  · simp only [MergingSearcher.update, sets, updated, ok_bind]
  intro es isPending
  obtain ⟨isLive, isTerminated⟩ := Finset.mem_inter.mp isPending
  obtain ⟨either, kept⟩ := Finset.mem_sdiff.mp isLive
  have terminated := (Finset.mem_union.mp isTerminated).resolve_right kept
  rcases Finset.mem_union.mp either with old | added
  · exact absurd (allowed.pending (Finset.mem_inter.mpr ⟨old, terminated⟩)) kept
  · exact absurd (Finset.mem_union_right _ terminated)
      (Finset.disjoint_left.mp allowed.fresh added)

theorem Inv.settled (inv : Inv searcher merging) : Settled searcher merging := by
  obtain ⟨after, updated, -⟩ := inv.update (Placed.allows_pending _) merging.states.cursors
  exact ⟨inv.located, inv.clean, after, updated⟩

/-- A state of the base searcher is running, and is returned or held. -/
theorem Inv.visit (inv : Inv searcher merging)
    (here : es ∈ merging.states.live \ merging.statesAtMerge)
    : ∃ after, merging.visit isMerge searcher es = .ok after ∧ Inv searcher after := by
  obtain ⟨live, notHeld⟩ := Finset.mem_sdiff.mp here
  have running : es ∉ merging.states.terminated := fun terminated =>
    notHeld (inv.pending (Finset.mem_inter.mpr ⟨live, terminated⟩))
  unfold MergingSearcher.visit
  split
  · obtain ⟨base, removed, placed⟩ := inv.park here
      (by simpa using here : ∀ state ∈ some es, state ∈ merging.states.live \ merging.statesAtMerge)
    simp only [removed, ok_bind]
    exact ⟨_, rfl, placed, inv.pending.trans (Finset.subset_insert _ _)⟩
  · refine ⟨_, rfl, ⟨inv.within, inv.holds, inv.clean.use running, ?_⟩, inv.pending⟩
    rintro _ ⟨rfl⟩
    exact here

/-- One step: all is well afterwards exactly if the step is careful. -/
theorem Step.sound_iff {before : MergingSearcher B} {call : Call}
    {after : Except Fault (MergingSearcher B)}
    (step : Step isMerge searcher (.ok before) call after) (inv : Inv searcher before)
    : (Sound searcher ⟨.ok before, call, after⟩ ↔ CarefulCall before call)
      ∧ (CarefulCall before call → ∃ merging, after = .ok merging ∧ Inv searcher merging) := by
  refine good_iff_careful (fun ⟨merging, isOk, inv⟩ => ⟨merging, isOk, inv.settled⟩) ?_
  cases step with
  | selectState _ es base selects =>
    obtain ⟨here, holds⟩ := searcher.selects_holds inv.holds selects
    have selected : Inv searcher ⟨base, before.statesAtMerge, before.states⟩ :=
      { inv with holds }
    exact ⟨fun _ => selected.visit here, fun _ => trivial⟩
  | mergeAll _ merges isEmpty =>
    refine ⟨inv.mergeAll merges, ?_⟩
    rintro ⟨after, merged, settled⟩
    by_contra careless
    exact mergeAll_terminated careless merged settled.clean
  | update _ current addedStates removedStates cursors allowed =>
    exact ⟨fun _ => inv.update allowed cursors, fun _ => trivial⟩

/-- The searcher starts with all states in the base searcher. -/
def start (base : B) (live : Finset Nat) (cursors : Nat → Cursor) : MergingSearcher B where
  baseSearcher := base
  statesAtMerge := ∅
  states := .start live cursors

variable {live : Finset Nat}

theorem Inv.start {base : B} (holds : searcher.holds base live) (cursors : Nat → Cursor)
    : Inv searcher (start base live cursors) := by
  unfold MergingSearcher.start ExecutorStates.start
  refine ⟨⟨by simp, by simpa using holds, ?_, by simp⟩, by simp [ExecutorStates.pending]⟩
  simp [Clean]

end MergingSearcher

namespace TwoMerges

/-- Two calls to `klee_merge` follow one another. -/
def isMerge (pc : Nat) : Bool :=
  pc == 1 || pc == 2

/-- Both states are about to make the first call. -/
def cursors (_ : Nat) : Cursor :=
  ⟨1, 0⟩

def always (_ _ : Nat) : Bool :=
  true

def never (_ _ : Nat) : Bool :=
  false

def states : ExecutorStates :=
  .start {1, 2} cursors

abbrev BumpStep := Takes (BumpMergingSearcher.Step isMerge interleaved)

abbrev MergingStep := Takes (MergingSearcher.Step isMerge interleaved)

def justOne : List Searcher :=
  [⟨.dfs, [1]⟩]

theorem twoStates_selects : interleaved.selects twoStates 2 twoStates :=
  ⟨rfl, _, mem_singleton.mpr rfl, by decide⟩

theorem justOne_selects : interleaved.selects justOne 1 justOne :=
  ⟨rfl, _, mem_singleton.mpr rfl, by decide⟩

def bumpStart : BumpMergingSearcher (List Searcher) :=
  .start twoStates {1, 2} cursors

def bumpHeld : BumpMergingSearcher (List Searcher) :=
  ⟨justOne, [(1, 2)], states⟩

theorem bumpHeld_reached (merges : Nat → Nat → Bool)
    : Run BumpStep (.ok bumpStart) [⟨.ok bumpStart, .selectState 2 merges, .ok bumpHeld⟩]
        (.ok bumpHeld) :=
  Run.nil.record (.selectState bumpStart bumpStart 2 merges twoStates ⟨1, by decide⟩ rfl
    twoStates_selects)

def mergingStart : MergingSearcher (List Searcher) :=
  .start twoStates {1, 2} cursors

def mergingHeld : MergingSearcher (List Searcher) :=
  ⟨[⟨.dfs, []⟩], {1, 2}, states⟩

theorem mergingHeld_reached
    : ∃ trace, Run MergingStep (.ok mergingStart) trace (.ok mergingHeld)
        ∧ trace.map Transition.label = [.selectState 2, .selectState 1]
        ∧ ∀ transition ∈ trace, MergingSearcher.Careful transition := by
  have first : MergingSearcher.Step isMerge interleaved (.ok mergingStart) (.selectState 2)
      (.ok ⟨justOne, {2}, states⟩) :=
    .selectState _ _ twoStates twoStates_selects
  have second : MergingSearcher.Step isMerge interleaved (.ok ⟨justOne, {2}, states⟩)
      (.selectState 1) (.ok mergingHeld) :=
    .selectState _ _ justOne justOne_selects
  refine ⟨_, (Run.nil.record first).record second, rfl, ?_⟩
  simp [MergingSearcher.Careful, MergingSearcher.CarefulCall]

/-- State 1 absorbs state 2, which stays among the held states. -/
def merged : ExecutorStates :=
  ((MergingSearcher.absorb states 1 [2]).use 1).skip 1

theorem mergeStates_single {merging : MergingSearcher (List Searcher)} {es : Nat}
    {base : List Searcher} (merges : Nat → Nat → Bool) (isHeld : es ∈ merging.statesAtMerge)
    (added : interleaved.addState merging.baseSearcher es = .ok base)
    : merging.mergeStates interleaved merges [es]
      = .ok ⟨base, merging.statesAtMerge.erase es, (merging.states.use es).skip es⟩ := by
  rw [MergingSearcher.mergeStates, if_pos isHeld]
  simp only [added, ok_bind, filter_nil]
  rw [MergingSearcher.mergeStates]
  rfl

theorem mergeAll_held
    : mergingHeld.mergeAll isMerge interleaved always = .ok ⟨justOne, {2}, merged⟩ := by
  have groups : mergingHeld.groups isMerge = [[1, 2]] := rfl
  have turn : MergingSearcher.mergeStates interleaved always mergingHeld [1, 2]
      = .ok ⟨justOne, {2}, merged⟩ := by
    rw [MergingSearcher.mergeStates, if_pos (by decide)]
    change MergingSearcher.mergeStates _ _ ⟨justOne, {2}, merged⟩ [] = _
    rw [MergingSearcher.mergeStates]
  rw [MergingSearcher.mergeAll, groups, foldlM_cons, turn]
  rfl

/-- State 1 is at the second call. -/
def mergingAgain : MergingSearcher (List Searcher) :=
  ⟨[⟨.dfs, []⟩], {1, 2}, merged⟩

theorem mergeAll_again
    : ∃ finish, mergingAgain.mergeAll isMerge interleaved always = .ok finish := by
  have groups : mergingAgain.groups isMerge = [[2], [1]] := rfl
  have first : MergingSearcher.mergeStates interleaved always mergingAgain [2]
      = .ok ⟨[⟨.dfs, [2]⟩], {1}, (merged.use 2).skip 2⟩ :=
    mergeStates_single always (by decide) rfl
  refine ⟨⟨[⟨.dfs, [2, 1]⟩], ∅, (((merged.use 2).skip 2).use 1).skip 1⟩, ?_⟩
  rw [MergingSearcher.mergeAll, groups, foldlM_cons, first, ok_bind, foldlM_cons,
    mergeStates_single always (Finset.mem_singleton_self 1) rfl]
  rfl

end TwoMerges

end Woodpecker
