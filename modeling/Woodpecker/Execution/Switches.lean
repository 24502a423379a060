import Woodpecker.Execution.Forking

/-! Switch instructions on symbolic operands.

The cases are grouped by their blocks, and a state is made for each block. The default is a
block like the others, but its condition is only kept if no case has put the block in the map
before.
-/

namespace Woodpecker.Execution

open Expressions Library List Function

-- Model

/-- A switch on a value of so many bits. Blocks stand for their addresses. -/
structure SwitchInst (w : Nat) where
  cases : List (BitVec w × Nat)
  defaultDest : Nat
  distinct : (cases.map Prod.fst).Nodup

/-- The successor at `findCaseValue`, which is the block that a switch selects. -/
def SwitchInst.select {w : Nat} (si : SwitchInst w) (value : BitVec w) : Nat :=
  (si.cases.lookup value).getD si.defaultDest

/-- The conditions of the blocks, in the order of the blocks. -/
abbrev Targets := List (Nat × Expr)

/-- The entry of a block is made or changed, where it belongs in the order. -/
def Targets.upsert (block : Nat) (change : Option Expr → Except Fault Expr)
    : Targets → Except Fault Targets
  | [] => do .ok [(block, ← change none)]
  | (it, e) :: rest =>
    if it < block then do .ok ((it, e) :: (← Targets.upsert block change rest))
    else if it = block then do .ok ((it, ← change (some e)) :: rest)
    else do .ok ((block, ← change none) :: (it, e) :: rest)

namespace ForkSetting

variable (setting : ForkSetting) {w : Nat}

def toUnique (state : PathState) (e : Expr) : Except Fault Expr :=
  match e.constant? with
  | some _ => .ok e
  | none => do
    let value := TimingSolver.getValue setting.solver state.constraints e
    let isTrue ← TimingSolver.mustBeTrue setting.solver state.constraints
      (← EqExpr.create setting.options e (.constant value))
    if isTrue then .ok (.constant value) else .ok e

/-- A case that is possible is added to the condition of its block. -/
def addCase (possible : Bool) (match_ : Expr) (caseSuccessor : Nat) (targets : Targets)
    : Except Fault Targets :=
  if possible then
    targets.upsert caseSuccessor fun it =>
      OrExpr.create match_ (it.getD (.constant (.alloc 0 1)))
  else .ok targets

/-- The loop over the cases. -/
def groupCases (state : PathState) (cond : Expr)
    : List (BitVec w × Nat) → Targets → Expr → Except Fault (Targets × Expr)
  | [], targets, isDefault => .ok (targets, isDefault)
  | (value, caseSuccessor) :: rest, targets, isDefault => do
    let match_ ← EqExpr.create setting.options cond (.constant ⟨w, value⟩)
    let isDefault ← AndExpr.create isDefault (← match_.createIsZero setting.options)
    let result ← TimingSolver.mayBeTrue setting.solver setting.options state.constraints match_
    let targets ← addCase result match_ caseSuccessor targets
    groupCases state cond rest targets isDefault

/-- The conditions of all blocks. The default is not inserted if there is an entry. -/
def switchTargets (state : PathState) (cond : Expr) (si : SwitchInst w)
    : Except Fault Targets := do
  let grouped ← setting.groupCases state cond si.cases [] (.constant (.alloc 1 1))
  let res ← TimingSolver.mayBeTrue setting.solver setting.options state.constraints grouped.2
  if res then grouped.1.upsert si.defaultDest fun it => .ok (it.getD grouped.2)
  else .ok grouped.1

/-- `executeInstruction` of a switch: the states, and the blocks where they continue. -/
def executeSwitch (fresh : Nat) (state : PathState) (cond : Expr) (si : SwitchInst w)
    : Except Fault (List (PathState × Nat)) := do
  let cond ← setting.toUnique state cond
  match cond.constant? with
  | some CE => do
    let value ← CE.getZExtValue 64
    .ok [(state, si.select (BitVec.ofNat w value))]
  | none => do
    let targets ← setting.switchTargets state cond si
    let branches ← setting.branch fresh state (targets.map Prod.snd)
    .ok (branches.zip (targets.map Prod.fst))

end ForkSetting

-- The selected block

section Select

variable {w : Nat} {si : SwitchInst w} {value : BitVec w} {block : Nat}

theorem SwitchInst.select_case (isCase : (value, block) ∈ si.cases) : si.select value = block := by
  obtain ⟨before, after, split⟩ := append_of_mem isCase
  have distinct := si.distinct
  have found : si.cases.lookup value = some block := by
    refine lookup_eq_some_iff.mpr ⟨before, after, split, fun entry member => ?_⟩
    rw [split, map_append, map_cons] at distinct
    have apart := (nodup_append.mp distinct).2.2
    exact bne_iff_ne.mpr fun same =>
      apart entry.1 (mem_map_of_mem member) value (.head _) same.symm
  rw [select, found, Option.getD_some]

theorem SwitchInst.select_default (noCase : ∀ c ∈ si.cases, value ≠ c.1)
    : si.select value = si.defaultDest := by
  have missing : si.cases.lookup value = none :=
    lookup_eq_none_iff.mpr fun c member => bne_iff_ne.mpr (noCase c member)
  rw [select, missing, Option.getD_none]

end Select

-- Entries

/-- The blocks are in order. -/
def Targets.Sorted (targets : Targets) : Prop :=
  targets.Pairwise fun a b => a.1 < b.1

/-- By induction on the entries. -/
theorem Targets.upsert_yields {targets : Targets} (sorted : targets.Sorted) {block : Nat}
    {change : Option Expr → Except Fault Expr} {post : Expr → Prop}
    (old : ∀ e, (block, e) ∈ targets → Yields (fun _ => change (some e)) post)
    (new : (∀ e, (block, e) ∉ targets) → Yields (fun _ => change none) post)
    : Yields (fun _ => targets.upsert block change) fun after =>
        after.Sorted ∧ ∃ changed, post changed
          ∧ ∀ b e, (b, e) ∈ after ↔ (b = block ∧ e = changed) ∨ (b ≠ block ∧ (b, e) ∈ targets) := by
  induction targets with
  | nil =>
    refine (new nofun).bind fun changed isChanged => yields_ok ?_
    refine ⟨pairwise_singleton _ _, changed, isChanged, fun b e => ?_⟩
    simp
  | cons entry rest ih =>
    obtain ⟨it, e⟩ := entry
    have sortedAll := sorted
    obtain ⟨first, sorted⟩ := pairwise_cons.mp sorted
    simp only [upsert]
    by_cases before : it < block
    · simp only [if_pos before]
      refine (ih sorted (fun e member => old e (.tail _ member)) fun absent => ?_).bind
        fun after isAfter => yields_ok ?_
      · refine new fun e member => ?_
        rcases mem_cons.mp member with here | later
        · cases here
          exact Nat.lt_irrefl _ before
        · exact absent e later
      · obtain ⟨sortedAfter, changed, isChanged, entries⟩ := isAfter
        refine ⟨pairwise_cons.mpr ⟨fun other member => ?_, sortedAfter⟩,
          changed, isChanged, fun b e' => ?_⟩
        · rcases (entries other.1 other.2).mp member with isNew | isOld
          · exact isNew.1 ▸ before
          · exact first other isOld.2
        · grind
    · simp only [if_neg before]
      -- The blocks of the other entries are larger.
      by_cases same : it = block
      · subst same
        simp only [if_pos]
        refine (old e (.head _)).bind fun changed isChanged => yields_ok ?_
        refine ⟨pairwise_cons.mpr ⟨first, sorted⟩, changed, isChanged, fun b e' => ?_⟩
        grind
      · simp only [if_neg same]
        have absent : ∀ e', (block, e') ∉ (it, e) :: rest := by grind
        refine (new absent).bind fun changed isChanged => yields_ok ?_
        have less : block < it := by omega
        refine ⟨pairwise_cons.mpr ⟨forall_mem_cons.mpr ⟨less, fun other later => ?_⟩, sortedAll⟩,
          changed, isChanged, fun b e' => ?_⟩
        · exact less.trans (first other later)
        · grind

-- Groups

section Groups

variable {setting : ForkSetting} {state : PathState} {w : Nat} {cond : Expr}
  {x : Assignment → BitVec w} {reach reach' : Nat → Assignment → Prop} {targets : Targets}
  {test : Assignment → Prop}

/-- The blocks are those that are reached on the path, and their conditions say where. -/
structure Grouped (options : Options) (state : PathState) (reach : Nat → Assignment → Prop)
    (targets : Targets)
    : Prop where
  sorted : targets.Sorted
  decides : ∀ b e, (b, e) ∈ targets → Decides options state.constraints e (reach b)
  reached : ∀ b, (∃ e, (b, e) ∈ targets) ↔ ∃ bytes ∈ state.paths, reach b bytes

variable {options : Options}

theorem Grouped.congr (grouped : Grouped options state reach targets)
    (same : ∀ b, ∀ bytes ∈ state.paths, reach b bytes ↔ reach' b bytes)
    : Grouped options state reach' targets where
  sorted := grouped.sorted
  decides b e entry := (grouped.decides b e entry).congr (same b)
  reached b := (grouped.reached b).trans
    (exists_congr fun bytes => and_congr_right fun isIn => same b bytes isIn)

theorem Grouped.upsert (grouped : Grouped options state reach targets) {block : Nat}
    {change : Option Expr → Except Fault Expr} (possible : ∃ bytes ∈ state.paths, test bytes)
    (old : (∃ bytes ∈ state.paths, reach block bytes)
      → ∀ e, Decides options state.constraints e (reach block)
      → Yields (fun _ => change (some e)) fun e' => Decides options state.constraints e' test)
    (new : (∀ bytes ∈ state.paths, ¬ reach block bytes)
      → Yields (fun _ => change none) fun e' => Decides options state.constraints e' test)
    : Yields (fun _ => targets.upsert block change)
        (Grouped options state (update reach block test)) := by
  refine (Targets.upsert_yields grouped.sorted
    (fun e entry => old ((grouped.reached block).mp ⟨e, entry⟩) e (grouped.decides block e entry))
    fun absent => ?_).mono fun after isAfter => ?_
  · refine new fun bytes isIn reached => ?_
    obtain ⟨e, entry⟩ := (grouped.reached block).mpr ⟨bytes, isIn, reached⟩
    exact absent e entry
  obtain ⟨sorted, changed, isChanged, entries⟩ := isAfter
  refine ⟨sorted, fun b e entry => ?_, fun b => ?_⟩
  · rcases (entries b e).mp entry with ⟨isBlock, isNew⟩ | ⟨other, isOld⟩
    · subst isBlock isNew
      rwa [update_self]
    · rw [update_of_ne other]
      exact grouped.decides b e isOld
  · by_cases isBlock : b = block
    · subst isBlock
      rw [update_self]
      exact iff_of_true ⟨changed, (entries b changed).mpr (.inl ⟨rfl, rfl⟩)⟩ possible
    · rw [update_of_ne isBlock, ← grouped.reached b]
      refine exists_congr fun e => ?_
      rw [entries]
      simp [isBlock]

theorem addCase_yields (feasible : state.paths.Nonempty)
    (grouped : Grouped options state reach targets) {match_ : Expr}
    (isMatch : Decides options state.constraints match_ test) {possible : Bool}
    (answers : possible = true ↔ ∃ bytes ∈ state.paths, test bytes) (dest : Nat)
    : Yields (fun _ => ForkSetting.addCase possible match_ dest targets)
        (Grouped options state fun b bytes => (b = dest ∧ test bytes) ∨ reach b bytes) := by
  cases possible with
  | false =>
    -- A value that is not possible reaches nothing.
    refine yields_ok (grouped.congr fun b bytes isIn => ?_)
    refine ⟨Or.inr, fun either => either.resolve_left fun is => ?_⟩
    exact nomatch answers.mpr ⟨bytes, isIn, is.2⟩
  | true =>
    obtain ⟨bytes, isIn, passes⟩ := answers.mp rfl
    have reached : ∃ bytes ∈ state.paths, test bytes ∨ reach dest bytes :=
      ⟨bytes, isIn, .inl passes⟩
    refine (grouped.upsert reached (fun _ e isE => or_yields feasible isMatch isE)
      fun noReach => ?_).mono fun after isAfter => isAfter.congr fun b bytes _ => ?_
    · have never : Decides options state.constraints (.constant (.alloc 0 1)) (reach dest) := by
        intro bytes isIn
        refine ⟨0#1, denotes_constant options bytes (.alloc 0 1), ?_⟩
        exact iff_of_false (by decide) (noReach bytes isIn)
      exact or_yields feasible isMatch never
    · by_cases isDest : b = dest
      · rw [isDest, update_self]
        simp
      · simp [isDest]

/-- The cases and the default, by induction on the cases. -/
theorem groupCases_yields (correct : setting.solver.Correct) (feasible : state.paths.Nonempty)
    (isCond : HasValue setting.options state.constraints cond x) (cases : List (BitVec w × Nat))
    {isDefault : Expr} (grouped : Grouped setting.options state reach targets)
    (decides : Decides setting.options state.constraints isDefault test)
    : Yields (fun _ => setting.groupCases state cond cases targets isDefault) fun result =>
        Grouped setting.options state
          (fun b bytes => (∃ c ∈ cases, c.2 = b ∧ x bytes = c.1) ∨ reach b bytes) result.1
        ∧ Decides setting.options state.constraints result.2 fun bytes =>
            test bytes ∧ ∀ c ∈ cases, x bytes ≠ c.1 := by
  induction cases generalizing targets isDefault reach test with
  | nil =>
    refine yields_ok ⟨grouped.congr fun b bytes _ => ?_, decides.congr fun bytes _ => ?_⟩
    · simp
    · simp
  | cons c rest ih =>
    obtain ⟨value, dest⟩ := c
    refine (eq_yields feasible isCond (hasValue_constant setting.options _ ⟨w, value⟩)).bind
      fun match_ isMatch => ?_
    refine (isZero_yields feasible isMatch).bind fun negated isNot => ?_
    refine (and_yields feasible decides isNot).bind fun isDefault isDefault' => ?_
    refine (mayBeTrue_yields correct feasible isMatch).bind fun result answers => ?_
    refine (addCase_yields feasible grouped isMatch answers dest).bind fun targets isGrouped => ?_
    refine (ih isGrouped isDefault').mono fun result isResult => ?_
    refine ⟨isResult.1.congr fun b bytes _ => ?_, isResult.2.congr fun bytes _ => ?_⟩
    · simp only [exists_mem_cons_iff, ← or_assoc]
      refine or_congr_left (Or.comm.trans (or_congr_left ?_))
      exact and_congr_left fun _ => eq_comm
    · simp [and_assoc]

end Groups

-- The states of a switch

section Switches

variable {w : Nat}

/-- A possible case has the block of the default. -/
def SwitchInst.Shared (si : SwitchInst w) (paths : Set Assignment)
    (x : Assignment → BitVec w)
    : Prop :=
  ∃ bytes ∈ paths, ∃ c ∈ si.cases, c.2 = si.defaultDest ∧ x bytes = c.1

/-- The assignments for which a state is made at the block. -/
def SwitchInst.Reaches (si : SwitchInst w) (paths : Set Assignment)
    (x : Assignment → BitVec w) (block : Nat) (bytes : Assignment)
    : Prop :=
  (∃ c ∈ si.cases, c.2 = block ∧ x bytes = c.1)
  ∨ (block = si.defaultDest ∧ ¬ si.Shared paths x ∧ ∀ c ∈ si.cases, x bytes ≠ c.1)

variable {setting : ForkSetting} {state : PathState} {cond : Expr} {si : SwitchInst w}
  {x : Assignment → BitVec w}

section

variable (correct : setting.solver.Correct) (feasible : state.paths.Nonempty)
  (isCond : HasValue setting.options state.constraints cond x)
include correct feasible isCond

theorem toUnique_yields : Yields (fun _ => setting.toUnique state cond) fun cond' =>
        HasValue setting.options state.constraints cond' x
        ∧ (cond'.constant? = none ↔ ¬ Single state.paths x) := by
  -- A constant has one value.
  have single : ∀ {e : Expr} {CE : ConstantExpr}, e.constant? = some CE
      → HasValue setting.options state.constraints e x → Single state.paths x := by
    intro e CE isC isE bytes isIn bytes' isIn'
    obtain rfl := constant?_eq_some.mp isC
    have same := (isE bytes isIn).constant.symm.trans (isE bytes' isIn').constant
    exact eq_of_heq (ConstantExpr.mk.inj same).2
  unfold ForkSetting.toUnique
  cases isC : cond.constant? with
  | some CE =>
    refine yields_ok ⟨isCond, ?_⟩
    exact iff_of_false (by simp [isC]) fun several => several (single isC isCond)
  | none =>
    obtain ⟨bytes, isIn, found⟩ := getValue_spec correct feasible isCond
    simp only [found]
    refine (eq_yields feasible isCond (hasValue_constant setting.options _
      ⟨w, x bytes⟩)).bind fun equal decides => ?_
    refine (mustBeTrue_yields correct feasible decides).bind fun isTrue answers => ?_
    cases isTrue with
    | true =>
      have all := answers.mp rfl
      have isValue : HasValue setting.options state.constraints (.constant ⟨w, x bytes⟩) x := by
        intro bytes' isIn'
        rw [all bytes' isIn']
        exact denotes_constant setting.options bytes' ⟨w, x bytes⟩
      refine yields_ok ⟨isValue, ?_⟩
      exact iff_of_false (by simp [Expr.constant?]) fun several => several (single rfl isValue)
    | false =>
      refine yields_ok ⟨isCond, iff_of_true isC fun isSingle => ?_⟩
      have isTrue := answers.mpr fun bytes' isIn' => isSingle bytes' isIn' bytes isIn
      cases isTrue

theorem switchTargets_yields : Yields (fun _ => setting.switchTargets state cond si)
        (Grouped setting.options state (si.Reaches state.paths x)) := by
  have empty : Grouped setting.options state (fun _ _ => False) [] :=
    ⟨.nil, nofun, fun b => by simp⟩
  have always : Decides setting.options state.constraints (.constant (.alloc 1 1))
      fun _ => True := fun bytes _ => ⟨1#1, denotes_constant _ bytes (.alloc 1 1), by simp⟩
  refine (groupCases_yields correct feasible isCond si.cases empty always).bind
    fun result isResult => ?_
  obtain ⟨grouped, isDefault⟩ := isResult
  refine (mayBeTrue_yields correct feasible isDefault).bind fun res answers => ?_
  cases res with
  | false =>
    refine yields_ok (grouped.congr fun b bytes isIn => or_congr_right ?_)
    refine iff_of_false id fun default => ?_
    exact nomatch answers.mpr ⟨bytes, isIn, trivial, default.2.2⟩
  | true =>
    obtain ⟨bytes, isIn, -, noCase⟩ := answers.mp rfl
    by_cases shared : si.Shared state.paths x
    · obtain ⟨bytes', isIn', hasDest⟩ := shared
      have possible : ∃ bytes ∈ state.paths,
          (∃ c ∈ si.cases, c.2 = si.defaultDest ∧ x bytes = c.1) ∨ False :=
        ⟨bytes', isIn', .inl hasDest⟩
      refine (grouped.upsert possible (fun _ e isE => ⟨e, settles_ok e, isE⟩)
        fun noReach => ?_).mono fun after isAfter => ?_
      · exact absurd (.inl hasDest) (noReach bytes' isIn')
      · rw [update_eq_self] at isAfter
        refine isAfter.congr fun b bytes _ => or_congr_right ?_
        exact iff_of_false id fun default => default.2.1 ⟨bytes', isIn', hasDest⟩
    · have noReach : ∀ bytes ∈ state.paths,
          ¬ ∃ c ∈ si.cases, c.2 = si.defaultDest ∧ x bytes = c.1 :=
        fun bytes isIn hasDest => shared ⟨bytes, isIn, hasDest⟩
      have possible : ∃ bytes ∈ state.paths, ∀ c ∈ si.cases, x bytes ≠ c.1 :=
        ⟨bytes, isIn, noCase⟩
      refine (grouped.upsert possible ?_ fun _ => ?_).mono
        fun after isAfter => isAfter.congr fun b bytes isIn => ?_
      · rintro ⟨bytes, isIn, hasDest | impossible⟩
        · exact absurd hasDest (noReach bytes isIn)
        · exact impossible.elim
      · exact yields_ok (isDefault.congr fun bytes _ => by simp)
      by_cases isDest : b = si.defaultDest
      · subst isDest
        simp [SwitchInst.Reaches, shared, noReach bytes isIn]
      · simp [SwitchInst.Reaches, isDest]

end

variable {paths : Set Assignment}

/-- Something is reached on every path. -/
theorem SwitchInst.reaches_some (si : SwitchInst w) (x : Assignment → BitVec w)
    (feasible : paths.Nonempty)
    : ∃ block, ∃ bytes ∈ paths, si.Reaches paths x block bytes := by
  obtain ⟨bytes, isIn⟩ := feasible
  by_cases shared : si.Shared paths x
  · obtain ⟨bytes, isIn, c, isCase, -, isValue⟩ := shared
    exact ⟨c.2, bytes, isIn, .inl ⟨c, isCase, rfl, isValue⟩⟩
  by_cases noCase : ∀ c ∈ si.cases, x bytes ≠ c.1
  · exact ⟨si.defaultDest, bytes, isIn, .inr ⟨rfl, shared, noCase⟩⟩
  · push Not at noCase
    obtain ⟨c, isCase, isValue⟩ := noCase
    exact ⟨c.2, bytes, isIn, .inl ⟨c, isCase, rfl, isValue⟩⟩

/-- A state is made for each block that is reached. -/
structure Switched (state : PathState) (reach : Nat → Assignment → Prop)
    (results : List (PathState × Nat)) (blocks : List Nat)
    : Prop where
  nodup : blocks.Nodup
  reached : ∀ b, b ∈ blocks ↔ ∃ bytes ∈ state.paths, reach b bytes
  states : results.map (fun result => (result.1.paths, result.2))
    = blocks.map fun b => ({ bytes ∈ state.paths | reach b bytes }, b)

theorem executeSwitch_several (correct : setting.solver.Correct) (feasible : state.paths.Nonempty)
    (isCond : HasValue setting.options state.constraints cond x)
    (several : ¬ Single state.paths x) (fresh : Nat)
    : Yields (fun _ => setting.executeSwitch fresh state cond si) fun results =>
        ∃ blocks, Switched state (si.Reaches state.paths x) results blocks := by
  refine (toUnique_yields correct feasible isCond).bind fun cond' isCond' => ?_
  simp only [isCond'.2.mpr several]
  refine (switchTargets_yields correct feasible isCond'.1).bind fun targets grouped => ?_
  have possible : Forall₂ (Possible setting.options state) (targets.map Prod.snd)
      (targets.map fun target => si.Reaches state.paths x target.1) := by
    rw [forall₂_map_left_iff, forall₂_map_right_iff, forall₂_same]
    intro target member
    exact ⟨grouped.decides target.1 target.2 member,
      (grouped.reached target.1).mp ⟨target.2, member⟩⟩
  have some : targets.map Prod.snd ≠ [] := by
    obtain ⟨block, reached⟩ := si.reaches_some x feasible
    obtain ⟨e, entry⟩ := (grouped.reached block).mpr reached
    exact ne_nil_of_mem (mem_map_of_mem entry)
  refine (branch_yields some fresh possible).bind fun branches are => yields_ok ?_
  refine ⟨targets.map Prod.fst, ?_, fun b => ?_, ?_⟩
  · refine pairwise_map.mpr (grouped.sorted.imp fun less => Nat.ne_of_lt less)
  · rw [← grouped.reached b]
    simp
  have paths : branches.map PathState.paths = targets.map fun target =>
      { bytes ∈ state.paths | si.Reaches state.paths x target.1 bytes } := by
    rw [← forall₂_eq_eq_eq, forall₂_map_left_iff, forall₂_map_right_iff]
    rwa [forall₂_map_right_iff] at are
  have zipped : (branches.zip (targets.map Prod.fst)).map (Prod.map PathState.paths id)
      = targets.map fun target =>
          ({ bytes ∈ state.paths | si.Reaches state.paths x target.1 bytes }, target.1) := by
    rw [← zip_map_left, paths, zip_map']
  rw [map_map]
  exact zipped

variable {bytes : Assignment}

/-- With one value there is one state. Its value has to be a machine word. -/
theorem executeSwitch_single (correct : setting.solver.Correct)
    (isCond : HasValue setting.options state.constraints cond x) (single : Single state.paths x)
    (isIn : bytes ∈ state.paths) (fresh : Nat)
    : setting.executeSwitch fresh state cond si
      = if w ≤ 64 then .ok [(state, si.select (x bytes))] else .error .assertion := by
  obtain ⟨cond', unique, isCond', isConstant⟩ :=
    yields_const.mp (toUnique_yields correct ⟨bytes, isIn⟩ isCond)
  unfold ForkSetting.executeSwitch
  rw [unique, ok_bind]
  rcases isC : cond'.constant? with _ | CE
  · exact absurd single (isConstant.mp isC)
  obtain rfl := constant?_eq_some.mp isC
  obtain rfl := (isCond' bytes isIn).constant
  simp only [ConstantExpr.getZExtValue]
  by_cases narrow : w ≤ 64
  · simp only [if_pos narrow, ok_bind, BitVec.ofNat_toNat, BitVec.setWidth_eq]
  · simp only [if_neg narrow, error_bind]

/-- Whether a switch makes the right states: a single value has to be a machine word, and
otherwise a possible case may not have the block of a possible default.
-/
structure SwitchInst.Careful (si : SwitchInst w) (paths : Set Assignment)
    (x : Assignment → BitVec w)
    : Prop where
  narrow : Single paths x → w ≤ 64
  apart : ¬ Single paths x → si.Shared paths x → ∀ bytes ∈ paths, ∃ c ∈ si.cases, x bytes = c.1

/-- The states split the path, and they continue at the blocks that are selected. -/
structure SwitchInst.Selected (si : SwitchInst w) (paths : Set Assignment)
    (x : Assignment → BitVec w) (results : List (PathState × Nat))
    : Prop where
  partition : Partition paths (results.map fun result => result.1.paths)
  block : ∀ result ∈ results, ∀ bytes ∈ result.1.paths, si.select (x bytes) = result.2

/-- Where no possible default is lost, a block is reached where it is selected. -/
theorem SwitchInst.reaches_iff
    (apart : si.Shared paths x → ∀ bytes ∈ paths, ∃ c ∈ si.cases, x bytes = c.1)
    (isIn : bytes ∈ paths) (block : Nat)
    : si.Reaches paths x block bytes ↔ si.select (x bytes) = block := by
  constructor
  · intro reaches
    rcases reaches with ⟨c, isCase, rfl, isValue⟩ | ⟨rfl, -, noCase⟩
    · rw [isValue]
      exact si.select_case isCase
    · exact si.select_default noCase
  · intro selected
    subst selected
    by_cases noCase : ∀ c ∈ si.cases, x bytes ≠ c.1
    · refine .inr ⟨si.select_default noCase, fun shared => ?_, noCase⟩
      obtain ⟨c, isCase, isValue⟩ := apart shared bytes isIn
      exact noCase c isCase isValue
    · push Not at noCase
      obtain ⟨c, isCase, isValue⟩ := noCase
      refine .inl ⟨c, isCase, ?_, isValue⟩
      rw [isValue]
      exact (si.select_case isCase).symm

variable {results : List (PathState × Nat)} {blocks : List Nat}

variable {reach : Nat → Assignment → Prop}

theorem Switched.paths_eq (switched : Switched state reach results blocks)
    {result : PathState × Nat} (member : result ∈ results)
    : result.1.paths = { bytes ∈ state.paths | reach result.2 bytes } := by
  have mapped : (result.1.paths, result.2)
      ∈ blocks.map fun b => ({ bytes ∈ state.paths | reach b bytes }, b) :=
    switched.states ▸ mem_map_of_mem member
  obtain ⟨b, -, equal⟩ := mem_map.mp mapped
  obtain ⟨paths, rfl⟩ := Prod.mk.inj equal
  exact paths.symm

theorem Switched.selected (switched : Switched state reach results blocks)
    (same : ∀ bytes ∈ state.paths, ∀ b, reach b bytes ↔ si.select (x bytes) = b)
    : si.Selected state.paths x results := by
  refine ⟨?_, fun result member bytes isPart => ?_⟩
  · have paths : results.map (fun result => result.1.paths)
        = blocks.map fun b => { bytes ∈ state.paths | si.select (x bytes) = b } := by
      have first := congrArg (map Prod.fst) switched.states
      simp only [map_map, comp_def] at first
      rw [first]
      refine map_congr_left fun b _ => ?_
      ext bytes
      exact and_congr_right fun isIn => same bytes isIn b
    rw [paths]
    refine partition_classes switched.nodup fun b => ?_
    rw [switched.reached b]
    exact exists_congr fun bytes => and_congr_right fun isIn => same bytes isIn b
  · rw [switched.paths_eq member] at isPart
    exact (same bytes isPart.1 result.2).mp isPart.2

/-- If a possible case has the block of a possible default, the default is lost. -/
theorem Switched.loses_default (switched : Switched state (si.Reaches state.paths x) results blocks)
    (shared : si.Shared state.paths x) (noCase : ∀ c ∈ si.cases, x bytes ≠ c.1)
    : ∀ result ∈ results, bytes ∉ result.1.paths := by
  intro result member isPart
  rw [switched.paths_eq member] at isPart
  rcases isPart.2 with ⟨c, isCase, -, isValue⟩ | ⟨-, notShared, -⟩
  · exact noCase c isCase isValue
  · exact notShared shared

end Switches

/-- Two cases have one block, and the default has another. -/
def threeCases : SwitchInst 8 := ⟨[(0#8, 1), (7#8, 1), (9#8, 2)], 3, by decide⟩

/-- The only case has the block of the default. -/
def sharedBlock : SwitchInst 8 := ⟨[(0#8, 1)], 1, by decide⟩

end Woodpecker.Execution
