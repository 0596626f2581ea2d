import WasmCompiler.Proofs.Runs

/-! # Runs of branches

The operations of a branch take a machine to the place of the label of the block, with the operands
that the branch carries on those that the block was entered with. This is so for every form that a
branch can have: with or without operands to remove, around a removal, by a common removal or by
landing pads.

* **`run_removal`** — removing operands and branching;
* **`Jump.mirrors_choose`** — every form of branch. -/

namespace WasmCompiler.Machine

open Bytecode (Assembly Op)
open Emission
open Stateful
open Execution

variable {assembly : Assembly} {bounds : Bounds} {code : Array (Op Nat)} {place : Nat → Nat}
  {position : Nat} {running : Running} {callers : List Activation}

/-! ## Operands kept by a branch -/

namespace Running

/-- The operands kept by a branch. -/
theorem cut_eq (running : Running) (base keep : Nat) :
    running.cut base keep =
      running.withValues
        (running.values.take keep ++ running.values.drop (running.values.length - base)) := rfl

/-- A branch that finds just what it carries removes nothing. -/
theorem cut_of_height_eq {base keep : Nat} (exact : running.height = base + keep) :
    running.cut base keep = running := by
  rw [height_eq] at exact
  have front : running.values.length - base = keep := by omega
  rw [cut_eq, front, List.take_append_drop, withValues_values]

/-- The number of operands after a branch. -/
theorem height_cut {base keep : Nat} (enough : base + keep ≤ running.height) :
    (running.cut base keep).height = base + keep := by
  rw [height_eq] at enough
  rw [cut_eq, height_withValues, List.length_append, List.length_take, List.length_drop]
  omega

end Running

/-- **Removing operands beneath the top ones** keeps those and the lowest ones. -/
theorem unwind_apply {base keep : Nat} (enough : base + keep ≤ running.height) :
    unwind (running.height - (base + keep)) keep running = .ok () (running.cut base keep) := by
  have fits : running.height - (base + keep) + keep ≤ running.activation.stack.height := by
    show _ ≤ running.height
    omega
  rw [unwind, bind_of_ok _ (get_apply _)]
  refine (congrFun (dif_pos fits) running).trans ((setStack_apply _ _).trans ?_)
  have lengths : keep + (running.height - (base + keep)) = running.values.length - base := by
    rw [Running.height_eq] at enough ⊢
    omega
  rw [Running.cut_eq, ← lengths]
  rfl

/-! ## Removals -/

/-- What a machine does at the operations of a removal. -/
theorem run_unwind {base keep drop : Nat} (enough : base + keep ≤ running.height)
    (removes : drop = running.height - (base + keep)) {following : List (Op Nat)}
    (realized : Realizes code place position
      (operations (Unwind.operations ⟨drop, keep⟩ ++ following))) :
    ∃ steps later, run assembly bounds steps ⟨running.at code position, callers⟩ =
        .running ⟨(running.cut base keep).at code later, callers⟩ ∧
      Realizes code place later (operations following) := by
  unfold Unwind.operations at realized
  by_cases none : drop = 0
  · simp only [if_pos none, List.nil_append] at realized
    refine ⟨0, position, ?_, realized⟩
    have exactly : running.height = base + keep := by omega
    rw [Running.cut_of_height_eq exactly]
    rfl
  · simp only [if_neg none] at realized
    obtain ⟨found, onward⟩ := realized
    have found : code[position]? = some (.unwind drop keep) := found
    refine ⟨1, position + 1, run_one ?_, onward⟩
    have removed : effect bounds (.unwind drop keep) running = .ok () (running.cut base keep) := by
      rw [removes]
      exact unwind_apply enough
    rw [step_straight found rfl, removed]
    rfl

/-- **Removing operands and branching.** -/
theorem run_removal {landing : Landing} {stage : Stage} (live : stage.reachable = true)
    (height : running.height = stage.height) (enough : landing.base + landing.keep ≤ stage.height)
    (realized : Realizes code place position
      (operations ((landing.removal stage).operations ++ [.jump landing.label]))) :
    ∃ steps, 1 ≤ steps ∧ run assembly bounds steps ⟨running.at code position, callers⟩ =
      .running
        ⟨(running.cut landing.base landing.keep).at code (place landing.label), callers⟩ := by
  unfold Landing.removal at realized
  simp only [if_pos live] at realized
  rw [← height] at enough realized
  obtain ⟨steps, later, reaches, found, -⟩ : ∃ steps later,
      run assembly bounds steps ⟨running.at code position, callers⟩ =
          .running ⟨(running.cut landing.base landing.keep).at code later, callers⟩ ∧
        Realizes code place later (operations [.jump landing.label]) :=
    run_unwind enough rfl realized
  refine ⟨steps + 1, Nat.le_add_left 1 steps, (run_of_running reaches 1).trans (run_one ?_)⟩
  exact step_jump found

/-- Taking a selector that is there. -/
theorem popI32_cons (running : Running) (value : Value) (rest : List Value) :
    popI32 (running.withValues (value :: rest)) =
      match expectI32 value with
      | .ok bits => .ok bits (running.withValues rest)
      | .error trap => .error trap (running.withValues rest) := by
  rw [popI32_apply]
  rfl

/-! ## Branches -/

/-- Where a machine is after a jump: at the landing of the level that has been chosen, or after the
jump. -/
def Chooses {depth : Nat} (code : Array (Op Nat)) (place : Nat → Nat) (scope : Scope depth)
    (callers : List Activation) (ending : Nat) :
    Option (Fin depth) → Running → (steps : Nat) → State → Prop
  | some level, later, steps, final =>
      1 ≤ steps ∧
        final = ⟨(later.cut (scope.landing level).base (scope.landing level).keep).at code
          (place (scope.landing level).label), callers⟩
  | none, later, _, final => final = ⟨later.at code ending, callers⟩

/-- **A conditional branch.** -/
theorem mirrors_conditional {least : Nat} {landing : Landing} {stage : Stage}
    (live : stage.reachable = true) (height : running.height = stage.height + 1)
    (enough : landing.base + landing.keep ≤ stage.height)
    (realized : Realizes code place position
      (conditionalDraft (landing.target stage) stage).directives) :
    Mirrors assembly bounds callers least ⟨running.at code position, callers⟩
      (.ofExecution popI32 running) fun condition later steps final =>
        if condition ≠ 0 then
          1 ≤ steps ∧ final =
            ⟨(later.cut landing.base landing.keep).at code (place landing.label), callers⟩
        else
          final = ⟨later.at code (position + (emitted
            (conditionalDraft (landing.target stage) stage).directives).length), callers⟩ := by
  have popped : ∀ {condition : BitVec 32} {later : Running},
      popI32 running = .ok condition later → later.height = stage.height := by
    intro condition later pops
    have := shifts_popI32 running later condition pops
    omega
  unfold conditionalDraft at realized ⊢
  -- Without operands to remove there is one jump; otherwise the opposite jump skips the removal.
  by_cases none : (landing.target stage).2.drop = 0
  · rw [if_pos none] at realized ⊢
    obtain ⟨found, -⟩ := realized
    have found : code[position]? = some (.jumpIf (place landing.label)) := found
    refine (Mirrors.ofStep (step_jumpIf found)).weaken (Nat.le_refl _) ?_
    rintro condition later steps final ⟨pops, rfl, rfl⟩
    have exactly : later.height = landing.base + landing.keep := by
      simp only [Landing.target, Landing.removal, if_pos live] at none
      have := popped pops
      omega
    rw [Running.cut_of_height_eq exactly]
    by_cases taken : condition ≠ 0
    · rw [if_pos taken]
      simp only [if_pos taken]
      exact ⟨Nat.le_refl 1, trivial⟩
    · rw [if_neg taken]
      simp only [if_neg taken]
      rfl
  · rw [if_neg none] at realized ⊢
    obtain ⟨found, inside⟩ := realized
    obtain ⟨removes, marked, -⟩ := realizes_append.mp inside
    have found : code[position]? = some (.jumpUnless (place stage.defined)) := found
    refine (Mirrors.ofStep (step_jumpUnless found)).onward ?_
    rintro condition later steps middle ⟨pops, rfl, rfl⟩
    by_cases taken : condition ≠ 0
    · obtain ⟨more, -, reaches⟩ := run_removal live (popped pops) enough removes
      refine ⟨more, ⟨(later.cut landing.base landing.keep).at code (place landing.label), callers⟩,
        ?_, ?_⟩
      · simp only [if_pos taken]
        exact reaches
      · rw [if_pos taken]
        exact ⟨Nat.le_add_right 1 more, rfl⟩
    · have ending : place stage.defined = position + (emitted (.defineLabel ::
          .op (.jumpUnless stage.defined) :: (operations ((landing.target stage).2.operations ++
            [.jump (landing.target stage).1]) ++ [.markLabel stage.defined]))).length := by
        simp only [marked, emitted, emitted_append, emitted_operations, List.length_cons,
          List.length_append, List.length_nil]
        omega
      refine ⟨0, ⟨later.at code (place stage.defined), callers⟩, ?_, ?_⟩
      · simp only [if_neg taken]
        rfl
      · rw [if_neg taken, ending]

/-! ## Branches by selector -/

/-- The labels of landing pads are where the pads remove operands and branch. -/
theorem realizes_pad {pad index : Nat} {targets : List (Nat × Unwind)} {target : Nat × Unwind}
    (realized : Realizes code place position (padsDirectives pad targets))
    (found : targets[index]? = some target) :
    Realizes code place (place (pad + index))
      (operations (target.2.operations ++ [.jump target.1])) := by
  induction targets generalizing pad position index with
  | nil => cases found
  | cons first rest restInduction =>
      obtain ⟨⟨marked, removes⟩, others⟩ := realizes_append.mp realized
      cases index with
      | zero =>
          cases found
          rw [Nat.add_zero, marked]
          exact removes
      | succ index =>
          have there := restInduction others found
          rwa [Nat.add_assoc, Nat.add_comm 1] at there

/-- Definitions of labels add no operations. -/
theorem emitted_replicate_defineLabel (count : Nat) :
    emitted (List.replicate count .defineLabel) = [] := by
  induction count with
  | zero => rfl
  | succ count countInduction =>
      rw [List.replicate_succ]
      exact countInduction

/-- Landings at which the same is removed have the same operands beneath. -/
theorem base_eq_of_removal_eq {landing other : Landing} {stage : Stage}
    (live : stage.reachable = true) (enough : landing.base + landing.keep ≤ stage.height)
    (otherEnough : other.base + other.keep ≤ stage.height)
    (same : landing.removal stage = other.removal stage) :
    landing.base = other.base ∧ landing.keep = other.keep := by
  simp only [Landing.removal, if_pos live, Unwind.mk.injEq] at same
  omega

/-- Operands kept beneath a selector. -/
theorem Running.cut_cons {base keep : Nat} {value : Value} {rest : List Value}
    (some : running.values = value :: rest) (enough : base ≤ rest.length) :
    running.cut base (keep + 1) =
      running.withValues (value :: ((running.withValues rest).cut base keep).values) := by
  have front : rest.length + 1 - base = rest.length - base + 1 := by omega
  rw [cut_eq, cut_eq, some, List.take_succ_cons, List.length_cons, front, List.drop_succ_cons]
  rfl

/-- A machine that takes a selector branches to the landing selected. -/
def Selects (code : Array (Op Nat)) (place : Nat → Nat) (landings : List Landing)
    (fallback : Landing) (callers : List Activation) (selector : BitVec 32) (later : Running)
    (steps : Nat) (final : State) : Prop :=
  1 ≤ steps ∧ final =
    ⟨(later.cut (landings[selector.toNat]?.getD fallback).base
        (landings[selector.toNat]?.getD fallback).keep).at code
      (place (landings[selector.toNat]?.getD fallback).label), callers⟩

/-- What a selector selects is one of those given. -/
theorem selected_mem {α : Type} (entries : List α) (fallback : α) (index : Nat) :
    entries[index]?.getD fallback ∈ entries ++ [fallback] := by
  cases found : entries[index]? with
  | none => exact List.mem_append_right _ List.mem_cons_self
  | some entry => exact List.mem_append_left _ (List.mem_of_getElem? found)

/-- A selector selects the entry at its place, or the one after all others. -/
theorem getElem?_selected {α : Type} (entries : List α) (fallback : α) (index : Nat) :
    (entries ++ [fallback])[min index entries.length]? =
      some (entries[index]?.getD fallback) := by
  by_cases inside : index < entries.length
  · rw [Nat.min_eq_left (Nat.le_of_lt inside), List.getElem?_append_left inside,
      List.getElem?_eq_getElem inside]
    rfl
  · rw [Nat.min_eq_right (Nat.le_of_not_lt inside),
      List.getElem?_eq_none (Nat.le_of_not_lt inside), List.getElem?_concat_length]
    rfl

/-- The place of the landing pad that a selector selects. -/
theorem place_selected (place : Nat → Nat) (pad count index : Nat) :
    ((List.range' pad count).map place)[index]?.getD (place (pad + count)) =
      place (pad + min index count) := by
  rw [List.getElem?_map]
  by_cases inside : index < count
  · rw [List.getElem?_range' inside, Nat.one_mul, Nat.min_eq_left (Nat.le_of_lt inside)]
    rfl
  · rw [Nat.min_eq_right (Nat.le_of_not_lt inside),
      List.getElem?_eq_none (by simpa using Nat.le_of_not_lt inside)]
    rfl

/-- A branch by selector to landings at which the same is removed. -/
theorem mirrors_common {least : Nat} {landings : List Landing} {fallback : Landing} {stage : Stage}
    (live : stage.reachable = true) (height : running.height = stage.height + 1)
    (enough : ∀ landing ∈ landings ++ [fallback], landing.base + landing.keep ≤ stage.height)
    (same : ∀ landing ∈ landings, landing.removal stage = fallback.removal stage)
    (realized : Realizes code place position
      (operations (Unwind.operations
          ⟨(fallback.removal stage).drop, (fallback.removal stage).keep + 1⟩ ++
        [.switch (landings.map Landing.label) fallback.label]))) :
    Mirrors assembly bounds callers least ⟨running.at code position, callers⟩
      (.ofExecution popI32 running) (Selects code place landings fallback callers) := by
  have last : fallback.base + fallback.keep ≤ stage.height :=
    enough fallback (List.mem_append_right _ List.mem_cons_self)
  -- The selector stays on top while the operands beneath it are removed, so one more is kept.
  obtain ⟨value, rest, operands⟩ : ∃ value rest, running.values = value :: rest := by
    rw [Running.height_eq] at height
    exact List.exists_cons_of_length_eq_add_one height
  have beneath : rest.length = stage.height := by
    rw [Running.height_eq, operands, List.length_cons] at height
    omega
  have removes : (fallback.removal stage).drop =
      running.height - (fallback.base + (fallback.keep + 1)) := by
    simp only [Landing.removal, if_pos live]
    omega
  obtain ⟨steps, middle, reaches, found, -⟩ : ∃ steps middle,
      run assembly bounds steps ⟨running.at code position, callers⟩ =
          .running ⟨(running.cut fallback.base (fallback.keep + 1)).at code middle, callers⟩ ∧
        Realizes code place middle
          (operations [.switch (landings.map Landing.label) fallback.label]) :=
    run_unwind (by omega) removes realized
  rw [Running.cut_cons operands (by omega)] at reaches
  have selects : Mirrors assembly bounds callers (least - steps)
      ⟨(running.withValues (value :: ((running.withValues rest).cut fallback.base
        fallback.keep).values)).at code middle, callers⟩ (.ofExecution popI32 running)
      fun selector later more final =>
        Selects code place landings fallback callers selector later (steps + more) final := by
    have switches : step assembly bounds ⟨(running.withValues (value ::
        ((running.withValues rest).cut fallback.base fallback.keep).values)).at code middle,
        callers⟩ = _ := step_switch found
    have pops : popI32 running = popI32 (running.withValues (value :: rest)) := by
      rw [← operands, Running.withValues_values]
    rw [popI32_cons] at switches pops
    unfold Evaluation.ofExecution
    rw [pops]
    cases taken : expectI32 value with
    | error trap =>
        rw [taken] at switches
        exact ⟨1, run_of_raise rfl switches⟩
    | ok selector =>
        rw [taken] at switches
        refine ⟨1, _, run_one switches, Nat.le_add_left 1 steps, ?_⟩
        -- The landing that is selected may differ from the fallback, but not in what is removed.
        have chosen : (landings[selector.toNat]?.getD fallback).base = fallback.base ∧
            (landings[selector.toNat]?.getD fallback).keep = fallback.keep := by
          refine base_eq_of_removal_eq live (enough _ (selected_mem _ _ _)) last ?_
          cases listed : landings[selector.toNat]? with
          | none => rfl
          | some landing => exact same landing (List.mem_of_getElem? listed)
        have target : ((landings.map Landing.label).map place)[selector.toNat]?.getD
            (place fallback.label) = place (landings[selector.toNat]?.getD fallback).label := by
          rw [List.getElem?_map, List.getElem?_map]
          cases landings[selector.toNat]? <;> rfl
        rw [chosen.1, chosen.2, ← target]
        rfl
  exact selects.after reaches

/-- **A branch by selector.** -/
theorem mirrors_selection {least : Nat} {landings : List Landing} {fallback : Landing}
    {stage : Stage} (live : stage.reachable = true) (height : running.height = stage.height + 1)
    (enough : ∀ landing ∈ landings ++ [fallback], landing.base + landing.keep ≤ stage.height)
    (realized : Realizes code place position
      (selectionDraft (landings.map fun landing => landing.target stage) (fallback.target stage)
        stage).directives) :
    Mirrors assembly bounds callers least ⟨running.at code position, callers⟩
      (.ofExecution popI32 running) (Selects code place landings fallback callers) := by
  unfold selectionDraft at realized
  -- If the removals differ, the selector picks a landing pad, and the pad removes and branches.
  by_cases uniform : ((landings.map fun landing => landing.target stage).all
      fun target => target.2 == (fallback.target stage).2) = true
  · rw [if_pos uniform] at realized
    refine mirrors_common live height enough ?_ ?_
    · intro landing member
      rw [List.all_map, List.all_eq_true] at uniform
      exact eq_of_beq (uniform landing member)
    · rw [List.map_map] at realized
      exact realized
  · rw [if_neg uniform] at realized
    obtain ⟨-, found, pads⟩ := realizes_append.mp realized
    rw [emitted_replicate_defineLabel] at found pads
    refine (Mirrors.ofStep (step_switch found)).onward ?_
    rintro selector later steps middle ⟨pops, rfl, rfl⟩
    have beneath : later.height = stage.height := by
      have := shifts_popI32 running later selector pops
      omega
    have pad : ((landings.map fun landing => landing.target stage) ++ [fallback.target stage])[
        min selector.toNat (landings.map fun landing => landing.target stage).length]? =
          some ((landings[selector.toNat]?.getD fallback).target stage) := by
      rw [getElem?_selected, List.getElem?_map]
      cases landings[selector.toNat]? <;> rfl
    have target := place_selected place stage.defined
      (landings.map fun landing => landing.target stage).length selector.toNat
    obtain ⟨more, -, reaches⟩ := run_removal live beneath (enough _ (selected_mem _ _ _))
      (realizes_pad pads pad)
    rw [← target] at reaches
    exact ⟨more, _, reaches, Nat.le_add_right 1 more, rfl⟩

end WasmCompiler.Machine

namespace WasmCompiler

open Bytecode (Assembly Op)
open Emission
open Machine
open Machine.Execution

variable {assembly : Assembly} {bounds : Bounds} {code : Array (Op Nat)} {place : Nat → Nat}
  {position : Nat} {running : Running} {callers : List Activation}

/-! ## Jumps -/

/-- **Jumps in live code** branch as their evaluation says. -/
theorem Jump.mirrors_choose {depth least : Nat} {leap : Jump depth} {scope : Scope depth}
    {stage : Stage} (live : stage.reachable = true) (height : running.height = stage.height)
    (takes : leap.takes ≤ stage.height)
    (enough : ∀ level ∈ leap.levels,
      (scope.landing level).base + (scope.landing level).keep ≤ stage.height - leap.takes)
    (realized : Realizes code place position (leap.draft scope stage).directives) :
    Mirrors assembly bounds callers least ⟨running.at code position, callers⟩
      (.ofExecution leap.choose running)
      (Chooses code place scope callers
        (position + (emitted (leap.draft scope stage).directives).length)) := by
  cases leap with
  | always level =>
      obtain ⟨steps, some, reaches⟩ := run_removal live height
        (enough level List.mem_cons_self) realized
      exact ⟨steps, _, reaches, some, rfl⟩
  | ifTrue level =>
      rw [Jump.choose, ofExecution_bind]
      have popped : running.height = (stage.exchange 1 0).height + 1 := by
        simp only [Stage.exchange, Jump.takes] at takes ⊢
        omega
      have live : (stage.exchange 1 0).reachable = true := live
      refine (mirrors_conditional live popped
        (enough level List.mem_cons_self) realized).andThen ?_
      intro condition later steps middle reached
      refine Mirrors.here ?_
      by_cases taken : condition ≠ 0
      · rw [if_pos taken] at reached ⊢
        exact reached
      · rw [if_neg taken] at reached ⊢
        exact reached
  | table levels fallback =>
      rw [Jump.choose, ofExecution_bind]
      have popped : running.height = (stage.exchange 1 0).height + 1 := by
        simp only [Stage.exchange, Jump.takes] at takes ⊢
        omega
      have landings : ∀ landing ∈ levels.map scope.landing ++ [scope.landing fallback],
          landing.base + landing.keep ≤ (stage.exchange 1 0).height := by
        intro landing member
        have listed : landing ∈ (levels ++ [fallback]).map scope.landing := by
          rwa [List.map_append]
        obtain ⟨level, inside, rfl⟩ := List.mem_map.mp listed
        exact enough level inside
      have realized : Realizes code place position (selectionDraft
          ((levels.map scope.landing).map fun landing => landing.target (stage.exchange 1 0))
          ((scope.landing fallback).target (stage.exchange 1 0))
            (stage.exchange 1 0)).directives := by
        rw [List.map_map]
        exact realized
      have live : (stage.exchange 1 0).reachable = true := live
      refine (mirrors_selection live popped landings realized).andThen ?_
      intro selector later steps middle reached
      refine Mirrors.here ?_
      have same : (levels.map scope.landing)[selector.toNat]?.getD (scope.landing fallback) =
          scope.landing (levels[selector.toNat]?.getD fallback) := by
        rw [List.getElem?_map]
        cases levels[selector.toNat]? <;> rfl
      unfold Selects at reached
      rw [same] at reached
      exact reached

/-- Choosing where to go takes the operands that choose. -/
theorem Jump.shifts_choose {depth : Nat} (leap : Jump depth) : Shifts leap.takes 0 leap.choose := by
  cases leap with
  | always level => exact shifts_pure _
  | ifTrue level => exact shifts_popI32.bind fun _ => shifts_pure _
  | table levels fallback => exact shifts_popI32.bind fun _ => shifts_pure _

/-- A jump goes to one of its levels. -/
theorem Jump.mem_levels_of_choose {depth : Nat} {leap : Jump depth} {level : Fin depth}
    {later : Running} (equation : leap.choose running = .ok (some level) later) :
    level ∈ leap.levels := by
  cases leap with
  | always target =>
      cases equation
      exact List.mem_cons_self
  | ifTrue target =>
      obtain ⟨condition, middle, -, equation⟩ := Stateful.bind_eq_ok.mp equation
      by_cases taken : condition ≠ 0
      · rw [if_pos taken] at equation
        cases equation
        exact List.mem_cons_self
      · rw [if_neg taken] at equation
        cases equation
  | table levels fallback =>
      obtain ⟨selector, middle, -, equation⟩ := Stateful.bind_eq_ok.mp equation
      cases equation
      cases found : levels[selector.toNat]? with
      | none => exact List.mem_append_right _ List.mem_cons_self
      | some chosen => exact List.mem_append_left _ (List.mem_of_getElem? found)

/-- Only conditional branches go on to the next instruction. -/
theorem Jump.isTransfer_of_choose {depth : Nat} {leap : Jump depth} {later : Running}
    (equation : leap.choose running = .ok none later) : leap.isTransfer = false := by
  cases leap with
  | ifTrue level => rfl
  | always level => cases equation
  | table levels fallback =>
      obtain ⟨selector, middle, -, equation⟩ := Stateful.bind_eq_ok.mp equation
      cases equation

/-- What is known after a branch that the next instruction may follow. -/
theorem Jump.stage_draft {depth : Nat} {leap : Jump depth} {scope : Scope depth} {stage : Stage}
    (follows : leap.isTransfer = false) :
    (leap.draft scope stage).stage.height = stage.height - leap.takes ∧
      (leap.draft scope stage).stage.reachable = stage.reachable := by
  cases leap with
  | ifTrue level =>
      simp only [Jump.draft, conditionalDraft]
      split <;> exact ⟨rfl, rfl⟩
  | always level | table levels fallback => cases follows

end WasmCompiler
