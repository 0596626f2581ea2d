import WasmCompiler.Proofs.Branches
import WasmCompiler.Proofs.Freshness
import WasmCompiler.Proofs.Independence
import WasmCompiler.Proofs.Patching

/-! # The forms of branches agree

A conditional branch jumps directly, or around a removal of operands and a jump. A branch by
selector removes operands beneath the selector and jumps, or jumps to a landing pad that removes
operands and jumps on. Either way a machine comes to the place of the label with the operands that
the branch leaves, wherever the branch stands and whatever the labels and removals are.

* **`Unwind.applied`** — what a removal leaves of operands;
* **`goesTo_selection`**, **`goesTo_taken`**, **`goesTo_passed`** — branches in code that
  realizes their drafts;
* **`Site.Builds.exists_places`** — the code of a function and the places of its labels;
* **`realizes_secluded`** — a branch is realized where it stands in the function;
* **`branch_forms_agree`** — the branches of every function. -/

namespace WasmCompiler.Emission

/-! ## What a removal leaves -/

/-- **What a removal leaves of operands**: those carried, and those beneath the ones removed. -/
def Unwind.applied (removal : Unwind) (values : List Value) : List Value :=
  values.take removal.keep ++ values.drop (removal.keep + removal.drop)

/-- A removal of nothing leaves everything. -/
theorem Unwind.applied_of_drop_eq_zero {removal : Unwind} (none : removal.drop = 0)
    (values : List Value) : removal.applied values = values := by
  rw [applied, none, Nat.add_zero, List.take_append_drop]

/-- A removal beneath one more operand leaves that one on top. -/
theorem Unwind.applied_cons (drop keep : Nat) (value : Value) (values : List Value) :
    Unwind.applied ⟨drop, keep + 1⟩ (value :: values) =
      value :: Unwind.applied ⟨drop, keep⟩ values := by
  simp only [applied, List.take_succ_cons, List.cons_append]
  rw [Nat.add_right_comm keep 1 drop, List.drop_succ_cons]

end WasmCompiler.Emission

namespace WasmCompiler.Machine

open Bytecode (Assembly Op)
open Emission
open Stateful
open Execution

section

variable (assembly : Assembly) (bounds : Bounds) (running : Running) (callers : List Activation)
  (code : Array (Op Nat))

/-- **Whether a machine goes from a position of some code with some operands to another position
with others.** -/
def GoesTo (position : Nat) (values : List Value) (later : Nat) (left : List Value) : Prop :=
  ∃ steps, run assembly bounds steps ⟨(running.withValues values).at code position, callers⟩ =
    .running ⟨(running.withValues left).at code later, callers⟩

end

section

variable {assembly : Assembly} {bounds : Bounds} {running : Running} {callers : List Activation}
  {code : Array (Op Nat)} {place : Nat → Nat} {position : Nat} {values : List Value}

/-- A machine that goes somewhere goes on from there. -/
theorem GoesTo.trans {middle later : Nat} {between left : List Value}
    (first : GoesTo assembly bounds running callers code position values middle between)
    (second : GoesTo assembly bounds running callers code middle between later left) :
    GoesTo assembly bounds running callers code position values later left := by
  obtain ⟨steps, reaches⟩ := first
  obtain ⟨more, onward⟩ := second
  exact ⟨steps + more, (run_of_running reaches more).trans onward⟩

/-! ## Removals and jumps -/

/-- Removing operands. -/
theorem goesTo_unwind {removal : Unwind} (enough : removal.drop + removal.keep ≤ values.length)
    {following : List (Op Nat)}
    (realized : Realizes code place position (operations (removal.operations ++ following))) :
    ∃ later, GoesTo assembly bounds running callers code position values later
        (removal.applied values) ∧ Realizes code place later (operations following) := by
  obtain ⟨drop, keep⟩ := removal
  have enough : drop + keep ≤ values.length := enough
  -- The machine is told how many operands go; runs are told how many stay at the bottom.
  have depth : values.length - (drop + keep) + keep ≤ (running.withValues values).height := by
    rw [Running.height_withValues]
    omega
  have removes : drop =
      (running.withValues values).height - (values.length - (drop + keep) + keep) := by
    rw [Running.height_withValues]
    omega
  obtain ⟨steps, later, reaches, onward⟩ : ∃ steps later, _ ∧ _ :=
    run_unwind depth removes realized
  refine ⟨later, ⟨steps, ?_⟩, onward⟩
  have beneath : values.length - (values.length - (drop + keep)) = keep + drop := by omega
  rw [reaches, Running.cut_eq, Running.values_withValues, beneath, Running.withValues_withValues]
  rfl

/-- Removing operands and jumping. -/
theorem goesTo_removal {target : Nat × Unwind}
    (enough : target.2.drop + target.2.keep ≤ values.length)
    (realized : Realizes code place position
      (operations (target.2.operations ++ [.jump target.1]))) :
    GoesTo assembly bounds running callers code position values (place target.1)
      (target.2.applied values) := by
  obtain ⟨later, removes, found, -⟩ := goesTo_unwind enough realized
  exact removes.trans ⟨1, run_one (step_jump found)⟩

/-! ## Branches -/

/-- A jump by selector. -/
theorem goesTo_switch {labels : List Nat} {fallback : Nat} {following : List Directive}
    (realized : Realizes code place position (.op (.switch labels fallback) :: following))
    (selector : BitVec 32) :
    GoesTo assembly bounds running callers code position (.i32 selector :: values)
      ((labels.map place)[selector.toNat]?.getD (place fallback)) values := by
  refine ⟨1, run_one ((step_switch realized.1).trans ?_)⟩
  rw [popI32_cons]
  rfl

/-- **A branch by selector**, in either form. -/
theorem goesTo_selection {targets : List (Nat × Unwind)} {fallback : Nat × Unwind} {stage : Stage}
    (realized : Realizes code place position (selectionDraft targets fallback stage).directives)
    {selector : BitVec 32} {chosen : Nat × Unwind}
    (selected : targets[selector.toNat]?.getD fallback = chosen)
    (enough : chosen.2.drop + chosen.2.keep ≤ values.length) :
    GoesTo assembly bounds running callers code position (.i32 selector :: values)
      (place chosen.1) (chosen.2.applied values) := by
  unfold selectionDraft at realized
  by_cases uniform : (targets.all fun target => target.2 == fallback.2) = true
  · rw [if_pos uniform] at realized
    -- What is removed is the same for every target, so it does not matter that it goes first.
    have same : chosen.2 = fallback.2 := by
      rw [← selected]
      cases listed : targets[selector.toNat]? with
      | none => rfl
      | some target =>
          exact eq_of_beq (List.all_eq_true.mp uniform target (List.mem_of_getElem? listed))
    have beneath : fallback.2.drop + (fallback.2.keep + 1) ≤
        ((.i32 selector : Value) :: values).length := by
      rw [← same, List.length_cons]
      omega
    obtain ⟨later, removes, onward⟩ := @goesTo_unwind assembly bounds running callers code place
      position _ ⟨fallback.2.drop, fallback.2.keep + 1⟩ beneath _ realized
    rw [Unwind.applied_cons] at removes
    have target : ((targets.map Prod.fst).map place)[selector.toNat]?.getD (place fallback.1) =
        place chosen.1 := by
      rw [← selected, List.getElem?_map, List.getElem?_map]
      cases targets[selector.toNat]? <;> rfl
    rw [same, ← target]
    exact removes.trans (goesTo_switch onward selector)
  · rw [if_neg uniform] at realized
    obtain ⟨-, found, pads⟩ := realizes_append.mp realized
    rw [emitted_replicate_defineLabel] at found pads
    have pad := getElem?_selected targets fallback selector.toNat
    rw [selected] at pad
    refine (goesTo_switch ⟨found, pads⟩ selector).trans ?_
    rw [place_selected]
    exact goesTo_removal enough (realizes_pad pads pad)

/-- **A conditional branch that is taken**, in either form. -/
theorem goesTo_taken {target : Nat × Unwind} {stage : Stage}
    (realized : Realizes code place position (conditionalDraft target stage).directives)
    {condition : BitVec 32} (taken : condition ≠ 0)
    (enough : target.2.drop + target.2.keep ≤ values.length) :
    GoesTo assembly bounds running callers code position (.i32 condition :: values)
      (place target.1) (target.2.applied values) := by
  unfold conditionalDraft at realized
  by_cases none : target.2.drop = 0
  · rw [if_pos none] at realized
    rw [Unwind.applied_of_drop_eq_zero none]
    refine ⟨1, run_one ((step_jumpIf realized.1).trans ?_)⟩
    rw [popI32_cons]
    simp only [expectI32, arrive, if_pos taken]
  · rw [if_neg none] at realized
    obtain ⟨found, inside⟩ := realized
    obtain ⟨removes, -⟩ := realizes_append.mp inside
    have goes : GoesTo assembly bounds running callers code position (.i32 condition :: values)
        (position + 1) values := by
      refine ⟨1, run_one ((step_jumpUnless found).trans ?_)⟩
      rw [popI32_cons]
      simp only [expectI32, arrive, if_pos taken]
    exact goes.trans (goesTo_removal enough removes)

/-- **A conditional branch that is not taken**, in either form. -/
theorem goesTo_passed {target : Nat × Unwind} {stage : Stage}
    (realized : Realizes code place position (conditionalDraft target stage).directives)
    {condition : BitVec 32} (zero : condition = 0) :
    GoesTo assembly bounds running callers code position (.i32 condition :: values)
      (position + (emitted (conditionalDraft target stage).directives).length) values := by
  have passed : ¬condition ≠ 0 := not_not_intro zero
  unfold conditionalDraft at realized ⊢
  by_cases none : target.2.drop = 0
  · rw [if_pos none] at realized ⊢
    refine ⟨1, run_one ((step_jumpIf realized.1).trans ?_)⟩
    rw [popI32_cons]
    simp only [expectI32, arrive, if_neg passed]
    rfl
  · rw [if_neg none] at realized ⊢
    obtain ⟨found, inside⟩ := realized
    obtain ⟨-, marked, -⟩ := realizes_append.mp inside
    have ending : place stage.defined = position + (emitted (.defineLabel ::
        .op (.jumpUnless stage.defined) :: (operations (target.2.operations ++
          [.jump target.1]) ++ [.markLabel stage.defined]))).length := by
      simp only [marked, emitted, emitted_append, emitted_operations, List.length_cons,
        List.length_append, List.length_nil]
      omega
    refine ⟨1, run_one ((step_jumpUnless found).trans ?_)⟩
    rw [popI32_cons, ← ending]
    simp only [expectI32, arrive, if_neg passed]

end

end WasmCompiler.Machine

namespace WasmCompiler.Emission

open Bytecode (Assembler Function Op OpenFunction)
open Bytecode.Assembler (opening)
open Machine (GoesTo)
open Stateful

/-! ## Places in the code of a function -/

/-- The opening of a function does not matter for places. -/
theorem GivesPlace.opened {directives : List Directive} {label place : Nat}
    (gives : GivesPlace directives label place) (index : Nat) (signature : Signature) :
    GivesPlace (.beginFunction index signature :: directives) label place := by
  obtain ⟨earlier, later, rfl, defined, last, rfl⟩ := gives
  exact ⟨.beginFunction index signature :: earlier, later, rfl, defined, last, rfl⟩

/-- Directives that can all be followed lead where they lead if none is refused. -/
theorem followAll_eq_after {assembler last : Assembler} {directives : List Directive}
    (follows : assembler.followAll directives = .ok last) :
    assembler.after directives = last := by
  induction directives generalizing assembler with
  | nil =>
      cases follows
      rfl
  | cons directive rest restInduction =>
      rw [Assembler.followAll] at follows
      rw [Assembler.after]
      split at follows
      · cases follows
      · next middle first =>
          rw [first]
          exact restInduction follows

/-- **The code of a function** has the operations of its script in order, with places for labels. -/
theorem Site.Builds.exists_places {site : Site} {function : Function}
    (builds : site.Builds function) :
    ∃ place : Nat → Nat,
      function.code =
        ((emitted (scriptOfFunction site).directives).map (Op.relabel place)).toArray ∧
      ∀ op ∈ emitted (scriptOfFunction site).directives, ∀ label ∈ op.targets,
        GivesPlace (scriptOfFunction site).directives label (place label) := by
  obtain ⟨code, split, isCode⟩ := exists_code_of_script builds.succeeds
  have adds := builds.adds (.ofName "")
  rw [split] at adds ⊢
  obtain ⟨middle, opens, closes⟩ := Assembler.followAll_append_eq_ok.mp adds
  -- Between the brackets of the function there are its locals and its code.
  have inside : ∀ directive ∈ site.body.locals.map .declareLocal ++ code,
      directive.isBracket = false := by
    refine List.forall_mem_append.mpr ⟨List.forall_mem_map.mpr fun _ _ => rfl, ?_⟩
    intro directive member
    have := isCode directive member
    cases directive <;> first | rfl | cases this
  obtain ⟨declarations, built⟩ :=
    (Assembler.ofName "").after_opening site.index site.signature inside
  rw [← followAll_eq_after opens, opening, List.cons_append, built, followAll_endFunction] at closes
  -- The function is added, so it has been closed, and every label has a place.
  have closing := Bytecode.closes_afterOpening site.index site.signature
    (site.body.locals.map .declareLocal ++ code)
  cases closed : (OpenFunction.afterOpening site.index site.signature
      (site.body.locals.map .declareLocal ++ code)).close with
  | error error =>
      rw [closed] at closes
      cases closes
  | ok other =>
      rw [closed] at closes closing
      obtain ⟨-, rfl⟩ : declarations = {} ∧ other = function := by
        simpa [Except.map, withFunctions, Assembler.ofName] using closes
      cases closing with
      | @patched place placed =>
          have ops : emitted (opening site.index site.signature site.body.locals ++ code ++
              [.endFunction]) = emitted (site.body.locals.map .declareLocal ++ code) := by
            simp [opening, emitted]
          rw [ops]
          refine ⟨place, rfl, fun op member label names => ?_⟩
          exact (givesPlace_other Directive.noConfusion).mpr
            ((placed op member label names).opened site.index site.signature)

/-- The last place of an item in a list is only one. -/
theorem eq_of_append_cons_eq {α : Type} {earlier later front back : List α} {item : α}
    (whole : earlier ++ item :: later = front ++ item :: back) (last : item ∉ later)
    (lastToo : item ∉ back) : earlier = front := by
  -- If one front were longer, the item behind the other one would not be the last.
  rcases List.append_eq_append_iff.mp whole with ⟨between, rfl, rest⟩ | ⟨between, rfl, rest⟩
  · cases between with
    | nil => rw [List.append_nil]
    | cons first others =>
        rw [List.cons_append, List.cons.injEq] at rest
        exact absurd (rest.2 ▸ List.mem_append_right others List.mem_cons_self) last
  · cases between with
    | nil => rw [List.append_nil]
    | cons first others =>
        rw [List.cons_append, List.cons.injEq] at rest
        exact absurd (rest.2 ▸ List.mem_append_right others List.mem_cons_self) lastToo

/-- A label that a directive marks is among the marks. -/
theorem mem_marks_of_mem {directives : List Directive} {label : Nat}
    (member : .markLabel label ∈ directives) : label ∈ marks directives := by
  obtain ⟨front, back, rfl⟩ := List.append_of_mem member
  rw [marks_append]
  exact List.mem_append_right _ List.mem_cons_self

/-- **Code that is given one after the other is realized** among whatever is given before and after,
if its own marks of labels are the last ones. -/
theorem realizes_segment {place : Nat → Nat} {whole front segment back : List Directive}
    (split : whole = front ++ (segment ++ back))
    (isCode : ∀ directive ∈ segment, directive.isCode = true)
    (unique : (marks segment).Nodup) (last : ∀ label ∈ marks segment, label ∉ marks back)
    (placed : ∀ label ∈ marks segment, GivesPlace whole label (place label)) :
    Realizes ((emitted whole).map (Op.relabel place)).toArray place (emitted front).length
      segment := by
  induction segment generalizing front with
  | nil => trivial
  | cons directive rest restInduction =>
      obtain ⟨here, onward⟩ := List.forall_mem_cons.mp isCode
      have next : whole = (front ++ [directive]) ++ (rest ++ back) := by
        rw [split, List.append_assoc]
        rfl
      -- The position after the first directive is that of the others.
      have later := restInduction next onward
      rw [emitted_append] at later
      have found {op : Op Nat} (ops : emitted [directive] = [op]) :
          ((emitted whole).map (Op.relabel place)).toArray[(emitted front).length]? =
            some (op.relabel place) := by
        rw [next, emitted_append, emitted_append, ops]
        simp
      cases directive with
      | defineLabel => simpa [emitted, Realizes] using later unique last placed
      | markLabel label =>
          obtain ⟨single, unique⟩ := List.nodup_cons.mp unique
          obtain ⟨notBack, last⟩ := List.forall_mem_cons.mp last
          obtain ⟨gives, placed⟩ := List.forall_mem_cons.mp placed
          obtain ⟨earlier, others, again, -, final, equal⟩ := gives
          -- The place of the label is that of its last mark, which is this one.
          have same : earlier = front := by
            refine eq_of_append_cons_eq (again.symm.trans split) final fun member => ?_
            rcases List.mem_append.mp member with member | member
            · exact single (mem_marks_of_mem member)
            · exact notBack (mem_marks_of_mem member)
          refine ⟨by rw [equal, same], ?_⟩
          simpa [emitted] using later unique last placed
      | op | call | callIndirect =>
          refine ⟨found rfl, ?_⟩
          simpa [emitted] using later unique last placed
      | declareModule | beginFunction | declareLocal | endFunction => cases here

/-! ## Branches where they stand -/

/-- The state in which a branch finds where it goes: without the operand that decides. -/
def State.popped (state : State) : State :=
  { state with height := state.height - 1 }

/-- An action that gives code and has a draft has one of code. -/
theorem Emitter.GivesCode.draft {α : Type} {action : Emitter α} (gives : Emitter.GivesCode action)
    {state : State} {value : α} {draft : Draft} {names : List (Nat × Nat)}
    (equation : action state = .ok value (state.advance draft names)) :
    ∀ directive ∈ draft.directives, directive.isCode = true := by
  obtain ⟨given, split, isCode⟩ := gives _ _ _ equation
  have same : given = draft.directives :=
    List.append_cancel_left (split.symm.trans Array.toList_append)
  rwa [same] at isCode

section

variable {place : Nat → Nat} {whole back : List Directive} {draft : Draft}
  (placed : ∀ op ∈ emitted whole, ∀ label ∈ op.targets, GivesPlace whole label (place label))
  (state : State) (split : whole = (state.advance draft []).directives.toList ++ back)

include placed split

/-- The labels that a draft branches to have places, as its operations are among those of the
function. -/
theorem gives_of_target {label : Nat}
    (target : ∃ op ∈ emitted draft.directives, label ∈ op.targets) :
    GivesPlace whole label (place label) := by
  obtain ⟨op, member, names⟩ := target
  refine placed op ?_ label names
  rw [split, State.advance, Array.toList_append, emitted_append, emitted_append]
  exact List.mem_append_left _ (List.mem_append_right _ member)

/-- **A draft that keeps its labels to itself is realized where it stands**, as nothing that is
given later gives places to them. -/
theorem realizes_secluded (defined : ∀ label ∈ state.named, label < state.defined)
    (secluded : Secluded state.stage draft)
    (isCode : ∀ directive ∈ draft.directives, directive.isCode = true)
    (spared : ∀ label ∈ marks back, (state.advance draft []).MayMark label) :
    Realizes ((emitted whole).map (Op.relabel place)).toArray place
      (emitted state.directives.toList).length draft.directives := by
  have parts : whole = state.directives.toList ++ (draft.directives ++ back) := by
    rw [split, State.advance, Array.toList_append, List.append_assoc]
  refine realizes_segment parts isCode secluded.unique (fun label member others => ?_)
    fun label member => gives_of_target placed state split (secluded.aimed label member)
  -- A label of the branch is neither one that stands for one of the body nor a later one.
  obtain ⟨least, most⟩ := secluded.fresh label member
  rcases spared label others with named | undefined
  · exact absurd (defined label named) (Nat.not_lt.mpr least)
  · exact absurd most (Nat.not_lt.mpr undefined)

end

/-- The landing pad of a target ends with a jump to its label. -/
theorem jump_mem_pads {targets : List (Nat × Unwind)} {target : Nat × Unwind}
    (member : target ∈ targets) {pad : Nat} :
    .jump target.1 ∈ emitted (padsDirectives pad targets) := by
  induction targets generalizing pad with
  | nil => cases member
  | cons first rest restInduction =>
      rw [padsDirectives, emitted_append]
      rcases List.mem_cons.mp member with rfl | member
      · refine List.mem_append_left _ ?_
        simp [padDirectives, emitted]
      · exact List.mem_append_right _ (restInduction member)

/-- A branch by selector branches to the labels of its targets. -/
theorem exists_target_selection {targets : List (Nat × Unwind)} {fallback target : Nat × Unwind}
    (stage : Stage) (member : target ∈ targets ++ [fallback]) :
    ∃ op ∈ emitted (selectionDraft targets fallback stage).directives, target.1 ∈ op.targets := by
  unfold selectionDraft
  by_cases uniform : (targets.all fun target => target.2 == fallback.2) = true
  · rw [if_pos uniform, emitted_operations]
    refine ⟨_, List.mem_append_right _ List.mem_cons_self, ?_⟩
    have labels : targets.map Prod.fst ++ [fallback.1] = (targets ++ [fallback]).map Prod.fst := by
      simp
    rw [Op.targets, labels]
    exact List.mem_map_of_mem member
  · rw [if_neg uniform, emitted_append]
    exact ⟨.jump target.1, List.mem_append_right _ (List.mem_cons_of_mem _ (jump_mem_pads member)),
      List.mem_cons_self⟩

/-- A conditional branch branches to its label. -/
theorem exists_target_conditional (target : Nat × Unwind) (stage : Stage) :
    ∃ op ∈ emitted (conditionalDraft target stage).directives, target.1 ∈ op.targets := by
  unfold conditionalDraft
  by_cases none : target.2.drop = 0
  · rw [if_pos none]
    exact ⟨_, List.mem_cons_self, List.mem_cons_self⟩
  · rw [if_neg none]
    refine ⟨.jump target.1, ?_, List.mem_cons_self⟩
    simp [emitted]

namespace Emitter

/-- What a branch by selector finds and gives. -/
theorem branchTable_cases {site : Site} {position : Nat} {branches : List Branch}
    {fallback : Branch} {state later : State}
    (gives : instruction site position (.branchTable branches fallback) state = .ok () later) :
    ∃ targets last, branches.mapM (destination site) state.popped = .ok targets state.popped ∧
      destination site fallback state.popped = .ok last state.popped ∧
      later = state.popped.advance
        ⟨(selectionDraft targets last state.popped.stage).directives,
          (selectionDraft targets last state.popped.stage).stage.transfer (baseOf state.frames)⟩
        [] := by
  obtain ⟨_, popped, pops, gives⟩ := bind_eq_ok.mp gives
  obtain rfl : state.popped = popped := by
    cases pops
    rfl
  obtain ⟨targets, middle, resolved, finds⟩ := bind_eq_ok.mp gives
  obtain rfl := destinations_inspect resolved
  obtain ⟨last, middle, found, follows⟩ := bind_eq_ok.mp finds
  obtain rfl := destination_inspects found
  refine ⟨targets, last, resolved, found, ?_⟩
  rw [bind_of_ok _ (branchTable_apply targets last _), transfer_apply, State.advance_advance]
    at follows
  cases follows
  simp only [List.append_nil]
  rfl

/-- What a conditional branch finds and gives. -/
theorem branchIf_cases {site : Site} {position : Nat} {branch : Branch} {state later : State}
    (gives : instruction site position (.branchIf branch) state = .ok () later) :
    ∃ target, destination site branch state.popped = .ok target state.popped ∧
      later = state.popped.advance (conditionalDraft target state.popped.stage) [] := by
  obtain ⟨_, popped, pops, gives⟩ := bind_eq_ok.mp gives
  obtain rfl : state.popped = popped := by
    cases pops
    rfl
  obtain ⟨target, middle, found, follows⟩ := bind_eq_ok.mp gives
  obtain rfl := destination_inspects found
  have follows := (branchIf_apply target state.popped).symm.trans follows
  cases follows
  exact ⟨target, found, rfl⟩

end Emitter

/-- **Whether a branch lands at a target**: a machine that gets to a position of some code with an
operand that decides and enough others comes to the place of the label, with the others as the
removal of the target leaves them, whatever the rest of the machine is. -/
def Site.Lands (site : Site) (code : Array (Op Nat)) (position : Nat) (operand : BitVec 32)
    (values : List Value) (target : Nat × Unwind) : Prop :=
  target.2.drop + target.2.keep ≤ values.length →
    ∃ place, GivesPlace (scriptOfFunction site).directives target.1 place ∧
      ∀ assembly bounds running callers,
        GoesTo assembly bounds running callers code position (.i32 operand :: values) place
          (target.2.applied values)

/-- **The forms of branches agree.** In every function that is built, a branch by selector lands at
the target that is selected among those that the branch resolves to, the selector being read without
a sign. A conditional branch lands at its target if its operand is not zero; otherwise a machine
comes to the end of the operations of the branch and keeps the other operands. This is so for each
of the forms that emission chooses from. -/
theorem branch_forms_agree {site : Site} {function : Function} (builds : site.Builds function) :
    (∀ position branches fallback,
      site.body.instructions[position]? = some (.branchTable branches fallback) →
      ∃ state targets last, site.ComesTo position state ∧
        branches.mapM (Emitter.destination site) state.popped = .ok targets state.popped ∧
        Emitter.destination site fallback state.popped = .ok last state.popped ∧
        ∀ (selector : BitVec 32) (values : List Value),
          site.Lands function.code (emitted state.directives.toList).length selector values
            (targets[selector.toNat]?.getD last)) ∧
    ∀ position branch, site.body.instructions[position]? = some (.branchIf branch) →
      ∃ state later target, site.ComesTo position state ∧ site.ComesTo (position + 1) later ∧
        Emitter.destination site branch state.popped = .ok target state.popped ∧
        ∀ (condition : BitVec 32) (values : List Value),
          (condition ≠ 0 →
            site.Lands function.code (emitted state.directives.toList).length condition values
              target) ∧
          (condition = 0 → ∀ assembly bounds running callers,
            GoesTo assembly bounds running callers function.code
              (emitted state.directives.toList).length (.i32 condition :: values)
              (emitted later.directives.toList).length values) := by
  obtain ⟨place, code, placed⟩ := builds.exists_places
  rw [code]
  refine ⟨fun position branches fallback found => ?_, fun position branch found => ?_⟩
  · obtain ⟨state, later, back, comes, -, here, defined, split, spared⟩ :=
      Site.exists_stop builds.succeeds found
    obtain ⟨targets, last, resolved, finds, rfl⟩ := Emitter.branchTable_cases here
    have isCode := (Emitter.givesCode_branchTable targets last).draft
      (Emitter.branchTable_apply targets last state.popped)
    -- That the code behind the branch is dead makes no difference to the labels of the branch.
    have realized := realizes_secluded placed state.popped split defined
      ((secluded_selection targets last state.popped.stage).with_stage rfl) isCode spared
    refine ⟨state, targets, last, comes, resolved, finds, fun selector values enough => ?_⟩
    have target := exists_target_selection state.popped.stage
      (Machine.selected_mem targets last selector.toNat)
    exact ⟨_, gives_of_target placed state.popped split target,
      fun assembly bounds running callers => Machine.goesTo_selection realized rfl enough⟩
  · obtain ⟨state, later, back, comes, goesOn, here, defined, split, spared⟩ :=
      Site.exists_stop builds.succeeds found
    obtain ⟨target, finds, rfl⟩ := Emitter.branchIf_cases here
    have isCode := (Emitter.givesCode_branchIf target.1 target.2).draft
      (Emitter.branchIf_apply target state.popped)
    have realized := realizes_secluded placed state.popped split defined
      (secluded_conditional target state.popped.stage) isCode spared
    refine ⟨state, _, target, comes, goesOn, finds, fun condition values => ⟨?_, ?_⟩⟩
    · intro taken enough
      exact ⟨_, gives_of_target placed state.popped split (exists_target_conditional _ _),
        fun assembly bounds running callers => Machine.goesTo_taken realized taken enough⟩
    · intro zero assembly bounds running callers
      have ending : (emitted (state.popped.advance (conditionalDraft target state.popped.stage)
          []).directives.toList).length = (emitted state.directives.toList).length +
            (emitted (conditionalDraft target state.popped.stage).directives).length := by
        simp [State.advance, State.popped]
      rw [ending]
      exact Machine.goesTo_passed realized zero

/-- A body with two blocks and a value between them, which is removed by branches to the outer one
and kept by those to the inner one. -/
def leavingBody : Body :=
  (Code.block 10 .block none
    (.plain 12 (.const (.i32 7))
      (.block 14 .block none
        (.plain 16 (.getLocal 0)
          (.jump 18 (.ifTrue ⟨1, Nat.one_lt_two⟩)
            (.plain 20 (.getLocal 0)
              (.jump 22 (.table [⟨0, Nat.two_pos⟩] ⟨1, Nat.one_lt_two⟩) .empty)))) 25
        (.plain 26 .drop .empty))) 27 .empty).link [] 28

/-- The function with that body. -/
def leavingSite : Site where
  module := { types := [⟨[.i32], []⟩], functions := [0], bodies := [leavingBody] }
  index := 0
  signature := ⟨[.i32], []⟩
  body := leavingBody

/-- What it is compiled to: the conditional branch goes around a removal, and the branch by selector
goes to landing pads. -/
def leavingFunction : Function where
  index := 0
  signature := ⟨[.i32], []⟩
  locals := []
  code := #[.const (.i32 7), .loadArg 0, .jumpUnless 5, .unwind 1 0, .jump 11, .loadArg 0,
    .switch [7] 8, .jump 10, .unwind 1 0, .jump 11, .pop, .ret]

/-- It is compiled to that. -/
theorem builds_leaving : leavingSite.Builds leavingFunction := by
  have follows : (Assembler.ofName "").followAll (scriptOfFunction leavingSite).directives =
      .ok ⟨withFunctions (Assembler.ofName "").assembly [leavingFunction], none⟩ := by
    decide +kernel
  obtain ⟨function, builds, same⟩ := Site.exists_builds (by decide +kernel) follows
  obtain rfl : leavingFunction = function := by
    simpa [withFunctions, Assembler.ofName] using same
  exact builds

/-- A negative selector takes the last target. -/
theorem branch_forms_agree_leaving :
    leavingSite.Builds leavingFunction ∧
      ∀ assembly bounds running callers (value : Value),
        GoesTo assembly bounds running callers leavingFunction.code 6 [.i32 0, value] 10 [value] ∧
        GoesTo assembly bounds running callers leavingFunction.code 6 [.i32 (-1), value] 11 [] ∧
        GoesTo assembly bounds running callers leavingFunction.code 2 [.i32 3, value] 11 [] ∧
        GoesTo assembly bounds running callers leavingFunction.code 2 [.i32 0, value] 5
          [value] := by
  have places : placesAfter 0 #[] (scriptOfFunction leavingSite).directives =
      #[some 11, some 10, some 5, some 7, some 8] := by decide +kernel
  have placed {label place : Nat}
      (gives : GivesPlace (scriptOfFunction leavingSite).directives label place) :
      #[some 11, some 10, some 5, some 7, some 8][label]? = some (some place) :=
    places ▸ getElem?_placesAfter.mpr gives
  obtain ⟨state, targets, last, comes, resolved, finds, selects⟩ :=
    (branch_forms_agree builds_leaving).1 6 _ _ rfl
  obtain ⟨before, later, target, reaches, goesOn, found, decides⟩ :=
    (branch_forms_agree builds_leaving).2 4 _ rfl
  obtain ⟨rfl, rfl, start⟩ : targets = [(1, ⟨0, 0⟩)] ∧ last = (0, ⟨1, 0⟩) ∧
      (emitted state.directives.toList).length = 6 := by
    cases comes
    cases resolved
    cases finds
    exact ⟨rfl, rfl, rfl⟩
  obtain ⟨rfl, first, ending⟩ : target = (0, ⟨1, 0⟩) ∧
      (emitted before.directives.toList).length = 2 ∧
      (emitted later.directives.toList).length = 5 := by
    cases reaches
    cases goesOn
    cases found
    exact ⟨rfl, rfl, rfl⟩
  rw [start] at selects
  rw [first, ending] at decides
  refine ⟨builds_leaving, fun assembly bounds running callers value => ⟨?_, ?_, ?_, ?_⟩⟩
  · obtain ⟨place, gives, goes⟩ := selects 0 [value] (Nat.zero_le _)
    obtain rfl : 10 = place := by simpa using placed gives
    exact goes assembly bounds running callers
  · obtain ⟨place, gives, goes⟩ := selects (-1) [value] (Nat.le_refl _)
    obtain rfl : 11 = place := by simpa using placed gives
    exact goes assembly bounds running callers
  · obtain ⟨place, gives, goes⟩ := (decides 3 [value]).1 (by decide) (Nat.le_refl _)
    obtain rfl : 11 = place := by simpa using placed gives
    exact goes assembly bounds running callers
  · exact (decides 0 [value]).2 rfl assembly bounds running callers

end WasmCompiler.Emission
