import WasmCompiler.Proofs.Drafts
import WasmCompiler.Proofs.Placement
import WasmCompiler.Proofs.Stateful

/-! # Emission follows drafts

Emission walks over the instructions of a linked body and looks up what they refer to. Where those
instructions are the linked form of structured code, it gives the directives of the draft of that
code, up to the first instruction that it refuses; it never finds an instruction unlinked.

* **`Around`** — what emission knows of the blocks around a place agrees with the code;
* **`Follows`** — emission gives a draft, or the first part of it if something is refused;
* **`Emitter.instructions_code`** — emission of a sequence follows its draft. -/

namespace WasmCompiler.Emission

open Stateful

namespace State

/-- What is known in a state, apart from the blocks and the labels of the body. -/
def stage (state : State) : Stage :=
  ⟨state.defined, state.height, state.reachable⟩

/-- The state after a draft, with names for more labels of the body. -/
def advance (state : State) (draft : Draft) (names : List (Nat × Nat)) : State :=
  { state with
    directives := state.directives ++ draft.directives.toArray
    defined := draft.stage.defined
    labels := names ++ state.labels
    height := draft.stage.height
    reachable := draft.stage.reachable }

/-- After a draft the stage is that of the draft. -/
@[simp] theorem stage_advance (state : State) (draft : Draft) (names : List (Nat × Nat)) :
    (state.advance draft names).stage = draft.stage := rfl

/-- A draft leaves the frames. -/
@[simp] theorem frames_advance (state : State) (draft : Draft) (names : List (Nat × Nat)) :
    (state.advance draft names).frames = state.frames := rfl

/-- The labels that it names come before the others. -/
@[simp] theorem labels_advance (state : State) (draft : Draft) (names : List (Nat × Nat)) :
    (state.advance draft names).labels = names ++ state.labels := rfl

/-- Nothing changes by a draft without directives that stays at its stage. -/
@[simp] theorem advance_nil (state : State) : state.advance ⟨[], state.stage⟩ [] = state := by
  simp [advance, stage]

/-- The state with other open blocks. -/
def withFrames (state : State) (frames : List Frame) : State :=
  { state with frames := frames }

/-- Other frames leave the stage. -/
@[simp] theorem stage_withFrames (state : State) (frames : List Frame) :
    (state.withFrames frames).stage = state.stage := rfl

/-- They leave the labels. -/
@[simp] theorem labels_withFrames (state : State) (frames : List Frame) :
    (state.withFrames frames).labels = state.labels := rfl

/-- They leave the directives. -/
@[simp] theorem directives_withFrames (state : State) (frames : List Frame) :
    (state.withFrames frames).directives = state.directives := rfl

/-- The frames are those given. -/
@[simp] theorem frames_withFrames (state : State) (frames : List Frame) :
    (state.withFrames frames).frames = frames := rfl

/-- Of frames given twice the last ones count. -/
@[simp] theorem withFrames_withFrames (state : State) (first second : List Frame) :
    (state.withFrames first).withFrames second = state.withFrames second := rfl

/-- Giving a state its own frames leaves it. -/
@[simp] theorem withFrames_frames (state : State) : state.withFrames state.frames = state := rfl

/-- Two drafts one after the other are one. -/
theorem advance_advance (state : State) (first second : Draft)
    (firstNames secondNames : List (Nat × Nat)) :
    (state.advance first firstNames).advance second secondNames =
      state.advance ⟨first.directives ++ second.directives, second.stage⟩
        (secondNames ++ firstNames) := by
  simp [advance, Array.append_assoc]

end State

namespace Emitter

/-! ## Steps at a state -/

/-- Adding a directive is a draft of it that leaves the stage. -/
theorem emit_apply (directive : Directive) (state : State) :
    emit directive state = .ok () (state.advance ⟨[directive], state.stage⟩ []) := by
  simp [emit, modify_apply, State.advance, State.stage]

/-- So is adding an operation. -/
theorem op_apply (operation : Bytecode.Op Nat) (state : State) :
    op operation state = .ok () (state.advance ⟨[.op operation], state.stage⟩ []) :=
  emit_apply _ _

/-- Taking operands changes nothing but the stage. -/
theorem pop_apply (count : Nat) (state : State) :
    pop count state = .ok () (state.advance ⟨[], state.stage.exchange count 0⟩ []) := by
  simp [pop, modify_apply, State.advance, State.stage, Stage.exchange]

/-- So does leaving operands. -/
theorem push_apply (count : Nat) (state : State) :
    push count state = .ok () (state.advance ⟨[], state.stage.exchange 0 count⟩ []) := by
  simp [push, modify_apply, State.advance, State.stage, Stage.exchange]

/-- The number of operands beneath the innermost block. -/
def baseOf (frames : List Frame) : Nat :=
  (frames.head?.map Frame.base).getD 0

/-- So does a transfer, which leaves the operands of the innermost block. -/
theorem transfer_apply (state : State) :
    transfer state =
      .ok () (state.advance ⟨[], state.stage.transfer (baseOf state.frames)⟩ []) := by
  simp [transfer, modify_apply, State.advance, State.stage, Stage.transfer, baseOf]

/-- Defining a label gives the next number. -/
theorem defineLabel_apply (state : State) :
    defineLabel state =
      .ok state.defined (state.advance ⟨[.defineLabel], state.stage.define 1⟩ []) := by
  rw [defineLabel, bind_of_ok _ (emit_apply _ state)]
  rfl

/-- Defining a label for a block names the next number. -/
theorem defineFor_apply (bodyLabel : Nat) (state : State) :
    defineFor bodyLabel state =
      .ok state.defined
        (state.advance ⟨[.defineLabel], state.stage.define 1⟩ [(bodyLabel, state.defined)]) := by
  rw [defineFor, bind_of_ok _ (defineLabel_apply state)]
  rfl

/-- Adding operations in a row is a draft of them. -/
theorem operations_apply (operations : List (Bytecode.Op Nat)) (state : State) :
    operations.forM op state =
      .ok ⟨⟩ (state.advance ⟨Emission.operations operations, state.stage⟩ []) := by
  induction operations generalizing state with
  | nil => simp [Emission.operations, List.forM, pure_apply]
  | cons operation rest restInduction =>
      simp only [List.forM_eq_forM, List.forM_cons] at restInduction ⊢
      rw [bind_of_ok _ (op_apply operation state), restInduction, State.advance_advance]
      rfl

/-- Removing operands is a draft of the removal, which may have no operations. -/
theorem unwind_apply (removal : Unwind) (state : State) :
    unwind removal state =
      .ok () (state.advance ⟨Emission.operations removal.operations, state.stage⟩ []) := by
  unfold unwind Unwind.operations
  by_cases none : removal.drop = 0
  · rw [if_pos none, if_pos none, pure_apply, Emission.operations, List.map_nil,
      State.advance_nil]
  · rw [if_neg none, if_neg none, op_apply]
    rfl

/-! ## Branches -/

/-- A landing pad is marked, removes operands and branches. -/
theorem landingPad_apply (pad : Nat) (target : Nat × Unwind) (state : State) :
    landingPad pad target state =
      .ok () (state.advance ⟨padDirectives pad target, state.stage⟩ []) := by
  rw [landingPad, bind_of_ok _ (emit_apply _ state), bind_of_ok _ (unwind_apply _ _), op_apply,
    State.advance_advance, State.advance_advance, padDirectives]
  simp only [Emission.operations, State.stage_advance, List.map_append, List.map_cons,
    List.map_nil, List.cons_append, List.nil_append]

/-- Landing pads come one after the other. -/
theorem landingPads_apply (pads : Nat) (targets : List (Nat × Unwind)) (state : State) :
    (((List.range' pads targets.length).zip targets).forM
        fun (pad, target) => landingPad pad target : Emitter PUnit) state =
      .ok ⟨⟩ (state.advance ⟨padsDirectives pads targets, state.stage⟩ []) := by
  induction targets generalizing pads state with
  | nil => simp [padsDirectives, pure_apply]
  | cons target targets targetsInduction =>
      simp only [List.forM_eq_forM, List.length_cons, List.range'_succ, List.zip_cons_cons,
        List.forM_cons] at targetsInduction ⊢
      rw [bind_of_ok _ (landingPad_apply pads target state), targetsInduction,
        State.advance_advance]
      rfl

/-- The labels of landing pads have consecutive numbers. -/
theorem definePads_apply {α : Type} (targets : List α) (state : State) :
    targets.mapM (fun _ => defineLabel) state =
      .ok (List.range' state.defined targets.length)
        (state.advance
          ⟨List.replicate targets.length .defineLabel, state.stage.define targets.length⟩ []) := by
  induction targets generalizing state with
  | nil => simp [pure_apply, Stage.define, State.stage, State.advance]
  | cons target targets targetsInduction =>
      rw [List.mapM_cons, bind_of_ok _ (defineLabel_apply state),
        bind_of_ok _ (targetsInduction _), pure_apply, State.advance_advance]
      simp [List.replicate_succ, List.range'_succ, State.advance, State.stage, Stage.define,
        Nat.add_assoc, Nat.add_comm 1]

/-- **A conditional branch is its draft.** -/
theorem branchIf_apply (target : Nat × Unwind) (state : State) :
    branchIf target.1 target.2 state =
      .ok () (state.advance (conditionalDraft target state.stage) []) := by
  unfold branchIf conditionalDraft
  by_cases none : target.2.drop = 0
  · rw [if_pos none, if_pos none, op_apply]
  · rw [if_neg none, if_neg none, bind_of_ok _ (defineLabel_apply state),
      bind_of_ok _ (op_apply _ _), bind_of_ok _ (unwind_apply _ _), bind_of_ok _ (op_apply _ _),
      emit_apply]
    simp only [State.advance_advance, Emission.operations, State.stage_advance, List.map_append,
      List.map_cons, List.map_nil, List.append_assoc, List.cons_append, List.nil_append]
    rfl

/-- **A branch by selector is its draft.** -/
theorem branchTable_apply (targets : List (Nat × Unwind)) (fallback : Nat × Unwind)
    (state : State) :
    branchTable targets fallback state =
      .ok () (state.advance (selectionDraft targets fallback state.stage) []) := by
  unfold branchTable selectionDraft
  by_cases uniform : (targets.all fun target => target.2 == fallback.2) = true
  · rw [if_pos uniform, if_pos uniform, bind_of_ok _ (unwind_apply _ _), op_apply,
      State.advance_advance]
    simp only [Emission.operations, State.stage_advance, List.map_append, List.map_cons,
      List.map_nil, List.append_nil]
  · rw [if_neg uniform, if_neg uniform, bind_of_ok _ (definePads_apply targets state),
      bind_of_ok _ (defineLabel_apply _), bind_of_ok _ (op_apply _ _),
      bind_of_ok _ (landingPads_apply _ _ _), landingPad_apply]
    simp only [State.advance_advance, State.stage_advance, List.append_nil]
    rw [padsDirectives_concat, List.replicate_succ']
    simp only [State.advance, State.stage, Stage.define, List.append_assoc, List.cons_append,
      List.nil_append, Nat.add_assoc]

/-! ## Instructions without block structure -/

/-- The place of a parameter or a local that exists. -/
def slotAt (site : Site) (index : Nat) : Slot :=
  if index < site.signature.params.length then .arg index
  else .loc (index - site.signature.params.length)

/-- A parameter or local is found within their number. -/
theorem slot_apply {site : Site} {index : UInt32} (inside : index.toNat < site.slotCount)
    (state : State) : slot site index state = .ok (slotAt site index.toNat) state := by
  unfold slot slotAt
  by_cases param : index.toNat < site.signature.params.length
  · rw [if_pos param, if_pos param]
    rfl
  · rw [if_neg param, if_neg param]
    exact congrFun (if_pos inside) state

/-- It is refused beyond their number. -/
theorem slot_error {site : Site} {index : UInt32} (outside : ¬index.toNat < site.slotCount)
    (state : State) :
    slot site index state =
      .error (.localIndexOutOfRange site.index index site.slotCount) state := by
  unfold slot
  have param : ¬index.toNat < site.signature.params.length := by
    unfold Site.slotCount at outside
    omega
  rw [if_neg param]
  exact congrFun (if_neg outside) state

/-- Reading a parameter or local is one operation. -/
theorem load_apply (site : Site) (index : Nat) (state : State) :
    load (slotAt site index) state =
      .ok () (state.advance ⟨[.op (site.loadOp index)], state.stage⟩ []) := by
  unfold slotAt Site.loadOp
  split <;> exact op_apply _ _

/-- So is replacing it. -/
theorem store_apply (site : Site) (index : Nat) (state : State) :
    store (slotAt site index) state =
      .ok () (state.advance ⟨[.op (site.storeOp index)], state.stage⟩ []) := by
  unfold slotAt Site.storeOp
  split <;> exact op_apply _ _

/-- An access to memory is one operation: a store takes two operands, and a load exchanges one. -/
theorem access_apply (accessor : Accessor) (offset : UInt32) (state : State) :
    access accessor offset state =
      .ok () (state.advance
        ⟨[.op (.access accessor offset.toNat)],
          if accessor.isStore then state.stage.exchange 2 0 else state.stage.exchange 1 1⟩ []) := by
  unfold access
  by_cases isStore : accessor.isStore = true
  · rw [if_pos isStore, if_pos isStore, bind_of_ok _ (pop_apply 2 state)]
    show op _ _ = _
    rw [op_apply, State.advance_advance]
    rfl
  · rw [if_neg isStore, if_neg isStore, bind_of_ok _ (pop_apply 1 state),
      bind_of_ok _ (push_apply 1 _)]
    show op _ _ = _
    rw [op_apply, State.advance_advance, State.advance_advance]
    rfl

/-- The type of a global that is declared is found. -/
theorem globalType_apply {site : Site} {index : UInt32} {type : GlobalType}
    (found : site.module.globalType? index.toNat = some type) (state : State) :
    globalType site index state = .ok type state := by
  rw [globalType, found]
  rfl

/-- A global that is not declared is refused. -/
theorem globalType_error {site : Site} {index : UInt32}
    (missing : site.module.globalType? index.toNat = none) (state : State) :
    globalType site index state = .error (.globalIndexOutOfRange site.index index) state := by
  rw [globalType, missing]
  rfl

/-- A parameter or local that is allowed is within their number. -/
theorem of_slot_allowed {site : Site} {index : UInt32} {error : Error}
    (allowed : (if index.toNat < site.slotCount then none else some error) = none) :
    index.toNat < site.slotCount := by
  by_cases inside : index.toNat < site.slotCount
  · exact inside
  · rw [if_neg inside] at allowed
    cases allowed

/-- **Emission of an instruction that is not refused** gives its draft. -/
theorem plain_apply {site : Site} {instruction : PlainInstruction}
    (allowed : instruction.violation? site = none) (state : State) :
    plain site instruction state =
      .ok () (state.advance
        (instruction.draft site (baseOf state.frames) state.stage) []) := by
  -- The actions of an instruction advance one after the other; that nothing is refused says that
  -- what it refers to is found.
  cases instruction with
  | unreachable =>
      rw [plain, bind_of_ok _ (op_apply _ state), transfer_apply, State.advance_advance]
      rfl
  | nop => rw [plain, pure_apply, PlainInstruction.draft, State.advance_nil]
  | ret =>
      rw [plain, bind_of_ok _ (op_apply _ state), transfer_apply, State.advance_advance]
      rfl
  | call function =>
      simp only [PlainInstruction.violation?] at allowed
      cases found : site.module.signature? function.toNat with
      | none =>
          rw [found] at allowed
          cases allowed
      | some signature =>
          simp only [plain, PlainInstruction.draft, found]
          rw [bind_of_ok _ (pop_apply _ state), bind_of_ok _ (push_apply _ _), emit_apply,
            State.advance_advance, State.advance_advance]
          rfl
  | callIndirect typeIndex =>
      simp only [PlainInstruction.violation?] at allowed
      cases found : site.module.types[typeIndex.toNat]? with
      | none =>
          rw [found] at allowed
          cases allowed
      | some signature =>
          simp only [plain, PlainInstruction.draft, found]
          rw [bind_of_ok _ (pop_apply _ state), bind_of_ok _ (push_apply _ _), emit_apply,
            State.advance_advance, State.advance_advance]
          rfl
  | drop =>
      rw [plain, bind_of_ok _ (pop_apply 1 state), op_apply, State.advance_advance]
      rfl
  | select =>
      rw [plain, bind_of_ok _ (pop_apply 3 state), bind_of_ok _ (push_apply 1 _), op_apply,
        State.advance_advance, State.advance_advance]
      rfl
  | getLocal index =>
      have inside := of_slot_allowed allowed
      rw [plain, bind_of_ok _ (slot_apply inside state), bind_of_ok _ (push_apply 1 state),
        load_apply, State.advance_advance]
      rfl
  | setLocal index =>
      have inside := of_slot_allowed allowed
      rw [plain, bind_of_ok _ (slot_apply inside state), bind_of_ok _ (pop_apply 1 state),
        store_apply, State.advance_advance]
      rfl
  | teeLocal index =>
      have inside := of_slot_allowed allowed
      rw [plain, bind_of_ok _ (slot_apply inside state),
        bind_of_ok _ (store_apply site index.toNat state), load_apply, State.advance_advance]
      rfl
  | getGlobal index =>
      simp only [PlainInstruction.violation?] at allowed
      cases found : site.module.globalType? index.toNat with
      | none =>
          rw [found] at allowed
          cases allowed
      | some type =>
          rw [plain, bind_of_ok _ (globalType_apply found state), bind_of_ok _ (push_apply 1 state),
            op_apply, State.advance_advance]
          rfl
  | setGlobal index =>
      simp only [PlainInstruction.violation?] at allowed
      cases found : site.module.globalType? index.toNat with
      | none =>
          rw [found] at allowed
          cases allowed
      | some type =>
          rw [found] at allowed
          have isMutable : type.isMutable = true := by
            by_cases isMutable : type.isMutable = true
            · exact isMutable
            · simp only [if_neg isMutable] at allowed
              cases allowed
          rw [plain, bind_of_ok _ (globalType_apply found state), if_pos isMutable]
          show (pop 1 >>= fun _ => op (.storeGlobal index.toNat)) state = _
          rw [bind_of_ok _ (pop_apply 1 state), op_apply, State.advance_advance]
          rfl
  | access accessor alignment offset => rw [plain, access_apply, PlainInstruction.draft]
  | currentMemory =>
      rw [plain, bind_of_ok _ (push_apply 1 state), op_apply, State.advance_advance]
      rfl
  | growMemory => rw [plain, op_apply, PlainInstruction.draft]
  | const value =>
      rw [plain, bind_of_ok _ (push_apply 1 state), op_apply, State.advance_advance]
      rfl
  | numeric operation =>
      rw [plain, bind_of_ok _ (pop_apply _ state), bind_of_ok _ (push_apply 1 _),
        operations_apply, State.advance_advance, State.advance_advance]
      rfl

/-- One that is refused is beyond their number. -/
theorem of_slot_refused {site : Site} {index : UInt32} {refusal error : Error}
    (refused : (if index.toNat < site.slotCount then none else some refusal) = some error) :
    ¬index.toNat < site.slotCount ∧ refusal = error := by
  by_cases inside : index.toNat < site.slotCount
  · rw [if_pos inside] at refused
    cases refused
  · rw [if_neg inside] at refused
    exact ⟨inside, Option.some.inj refused⟩

/-- **Emission refuses an instruction** before it gives a directive. -/
theorem plain_violation {site : Site} {instruction : PlainInstruction} {error : Error}
    (refused : instruction.violation? site = some error) (state : State) :
    plain site instruction state = .error error state := by
  -- What can be refused is looked up before anything else is done.
  cases instruction with
  | call function =>
      simp only [PlainInstruction.violation?] at refused
      cases found : site.module.signature? function.toNat with
      | none =>
          rw [found] at refused
          cases refused
          simp only [plain, found]
          rfl
      | some signature =>
          rw [found] at refused
          cases refused
  | callIndirect typeIndex =>
      simp only [PlainInstruction.violation?] at refused
      cases found : site.module.types[typeIndex.toNat]? with
      | none =>
          rw [found] at refused
          cases refused
          simp only [plain, found]
          rfl
      | some signature =>
          rw [found] at refused
          cases refused
  | getLocal index =>
      obtain ⟨outside, rfl⟩ := of_slot_refused refused
      exact bind_of_error _ (slot_error outside state)
  | setLocal index =>
      obtain ⟨outside, rfl⟩ := of_slot_refused refused
      exact bind_of_error _ (slot_error outside state)
  | teeLocal index =>
      obtain ⟨outside, rfl⟩ := of_slot_refused refused
      exact bind_of_error _ (slot_error outside state)
  | getGlobal index =>
      simp only [PlainInstruction.violation?] at refused
      cases found : site.module.globalType? index.toNat with
      | none =>
          rw [found] at refused
          cases refused
          exact bind_of_error _ (globalType_error found state)
      | some type =>
          rw [found] at refused
          cases refused
  | setGlobal index =>
      simp only [PlainInstruction.violation?] at refused
      cases found : site.module.globalType? index.toNat with
      | none =>
          rw [found] at refused
          cases refused
          exact bind_of_error _ (globalType_error found state)
      | some type =>
          rw [found] at refused
          rw [plain, bind_of_ok _ (globalType_apply found state)]
          by_cases isMutable : type.isMutable = true
          · simp only [if_pos isMutable] at refused
            cases refused
          · simp only [if_neg isMutable, Option.some.injEq] at refused
            rw [if_neg isMutable, ← refused]
            rfl
  | _ => cases refused

end Emitter

/-! ## Blocks around a place -/

/-- **What emission knows of the blocks around a place**: each is known by its frame, under the
label that branches to it land at. Openers stand before `limit`, and labels of the body below
`bound` have names. -/
inductive Around (site : Site) (names : List (Nat × Nat)) (limit bound : Nat) :
    {depth : Nat} → LabelStack depth → Scope depth → List Frame → Prop where
  /-- Outside every block. -/
  | outermost : Around site names limit bound .empty .outermost []
  /-- Inside one more block. -/
  | inside {depth : Nat} {labels : LabelStack depth} {scope : Scope depth} {frames : List Frame}
      {target bodyLabel : Nat} {landing : Landing} {frame : Frame} {instruction : Instruction}
      (outer : Around site names limit bound labels scope frames)
      (names_opener : Emitter.branchOpener site.body target = frame.opener)
      (found : site.body.instructions[frame.opener]? = some instruction)
      (opens : instruction.isOpener = true)
      (carries : instruction.label? = some bodyLabel)
      (named : names.lookup bodyLabel = some landing.label)
      (known : bodyLabel < bound)
      (earlier : frame.opener < limit)
      (outermore : ∀ other ∈ frames, other.opener < frame.opener)
      (sameBase : frame.base = landing.base)
      (sameKeep : frame.branchArity = landing.keep) :
      Around site names limit bound (labels.push target) (scope.inside landing) (frame :: frames)

namespace Around

variable {site : Site} {names : List (Nat × Nat)} {limit bound depth : Nat}
  {labels : LabelStack depth} {scope : Scope depth} {frames : List Frame}

/-- What is known stays known when more labels get names. -/
theorem mono (around : Around site names limit bound labels scope frames)
    {more : List (Nat × Nat)} {limit' bound' : Nat} (later : limit ≤ limit')
    (higher : bound ≤ bound') (fresh : ∀ entry ∈ more, bound ≤ entry.1) :
    Around site (more ++ names) limit' bound' labels scope frames := by
  induction around with
  | outermost => exact .outermost
  | inside outer names_opener found opens carries named known earlier outermore sameBase sameKeep
      outerInduction =>
      refine .inside outerInduction names_opener found opens carries ?_ (by omega) (by omega)
        outermore sameBase sameKeep
      rw [List.lookup_append, List.lookup_eq_none_iff.mpr, Option.none_or, named]
      intro entry member
      have := fresh entry member
      exact bne_iff_ne.mpr (by omega)

/-- Every frame stands for an opener before the limit. -/
theorem earlier_of_mem (around : Around site names limit bound labels scope frames) {frame : Frame}
    (member : frame ∈ frames) : frame.opener < limit := by
  induction around with
  | outermost => cases member
  | inside outer names_opener found opens carries named known earlier outermore sameBase sameKeep
      outerInduction =>
      rcases List.mem_cons.mp member with rfl | member
      · exact earlier
      · exact outerInduction member

/-- The innermost frame and the innermost landing have the same operands beneath them. -/
theorem baseOf_eq (around : Around site names limit bound labels scope frames) :
    Emitter.baseOf frames = scope.base := by
  cases around with
  | outermost => rfl
  | inside outer names_opener found opens carries named known earlier outermore sameBase sameKeep =>
      exact sameBase

/-- Each level stands for a block whose frame and whose label emission finds. -/
theorem exists_frame (around : Around site names limit bound labels scope frames)
    (level : Fin depth) :
    ∃ frame instruction bodyLabel,
      Emitter.branchOpener site.body (labels.resolve level) = frame.opener ∧
      site.body.instructions[frame.opener]? = some instruction ∧ instruction.isOpener = true ∧
      instruction.label? = some bodyLabel ∧
      names.lookup bodyLabel = some (scope.landing level).label ∧
      frames.find? (fun other => other.opener == frame.opener) = some frame ∧
      frame.base = (scope.landing level).base ∧
      frame.branchArity = (scope.landing level).keep := by
  induction around with
  | outermost => exact level.elim0
  | inside outer names_opener found opens carries named known earlier outermore sameBase sameKeep
      outerInduction =>
      obtain ⟨level, below⟩ := level
      cases level with
      | zero =>
          refine ⟨_, _, _, names_opener, found, opens, carries, named, ?_, sameBase, sameKeep⟩
          exact List.find?_cons_of_pos (by simp)
      | succ level =>
          obtain ⟨frame, instruction, bodyLabel, names_opener, found, opens, carries, named, finds,
            sameBase, sameKeep⟩ := outerInduction ⟨level, Nat.lt_of_succ_lt_succ below⟩
          refine ⟨frame, instruction, bodyLabel, names_opener, found, opens, carries, named, ?_,
            sameBase, sameKeep⟩
          have distinct := outermore frame (List.mem_of_find?_eq_some finds)
          rw [List.find?_cons_of_neg, finds]
          simp only [beq_iff_eq]
          omega

end Around

namespace Emitter

/-- A label that has been named is found. -/
theorem labelFor_apply {site : Site} {position bodyLabel label : Nat} {state : State}
    (named : state.labels.lookup bodyLabel = some label) :
    labelFor site position bodyLabel state = .ok label state := by
  rw [labelFor, bind_of_ok _ (get_apply state), named]
  rfl

/-- So is that of a block, by its opener. -/
theorem blockLabel_apply {site : Site} {opener bodyLabel label : Nat} {instruction : Instruction}
    {state : State} (found : site.body.instructions[opener]? = some instruction)
    (opens : instruction.isOpener = true) (carries : instruction.label? = some bodyLabel)
    (named : state.labels.lookup bodyLabel = some label) :
    blockLabel site opener state = .ok label state := by
  rw [blockLabel, found]
  cases instruction with
  | block type label finish =>
      cases carries
      exact labelFor_apply named
  | loop type label finish =>
      cases carries
      exact labelFor_apply named
  | ifThen type label finish otherwise =>
      cases carries
      exact labelFor_apply named
  | _ => cases opens

/-- **A branch finds its landing.** -/
theorem destination_apply {site : Site} {limit bound depth : Nat} {labels : LabelStack depth}
    {scope : Scope depth} {state : State}
    (around : Around site state.labels limit bound labels scope state.frames) (level : Fin depth) :
    destination site (labels.branch level) state =
      .ok ((scope.landing level).target state.stage) state := by
  obtain ⟨frame, instruction, bodyLabel, names_opener, found, opens, carries, named, finds,
    sameBase, sameKeep⟩ := around.exists_frame level
  simp only [destination, LabelStack.branch, names_opener]
  rw [bind_of_ok _ (blockLabel_apply found opens carries named), bind_of_ok _ (get_apply state),
    finds]
  simp only [Landing.target, Landing.removal, State.stage, sameBase, sameKeep]
  rfl

/-- **Levels of open blocks lead to their landings**, in their order. -/
theorem destinations_apply {site : Site} {limit bound depth : Nat} {labels : LabelStack depth}
    {scope : Scope depth} {state : State}
    (around : Around site state.labels limit bound labels scope state.frames)
    (levels : List (Fin depth)) :
    (levels.map labels.branch).mapM (destination site) state =
      .ok (levels.map fun level => (scope.landing level).target state.stage) state := by
  induction levels with
  | nil => rfl
  | cons level levels levelsInduction =>
      rw [List.map_cons, List.mapM_cons, bind_of_ok _ (destination_apply around level),
        bind_of_ok _ levelsInduction]
      rfl

/-- **Emission of a branch** gives its draft. -/
theorem jump_apply {site : Site} {limit bound depth : Nat} {labels : LabelStack depth}
    {scope : Scope depth} {state : State}
    (around : Around site state.labels limit bound labels scope state.frames)
    (position : Nat) (leap : Jump depth) :
    instruction site position (leap.link labels) state =
      .ok () (state.advance (leap.draft scope state.stage) []) := by
  -- Landings are looked up after the condition or the selector has been taken off the operands.
  cases leap with
  | always level =>
      simp only [Jump.link, instruction]
      rw [bind_of_ok _ (destination_apply around level), bind_of_ok _ (unwind_apply _ state),
        bind_of_ok _ (op_apply _ _), transfer_apply,
        State.advance_advance, State.advance_advance, State.frames_advance, State.frames_advance,
        around.baseOf_eq]
      simp only [Jump.draft, Emission.operations, Landing.target, State.stage_advance,
        List.map_append, List.map_cons, List.map_nil, List.append_nil]
  | ifTrue level =>
      have popped : Around site (state.advance ⟨[], state.stage.exchange 1 0⟩ []).labels limit bound
          labels scope (state.advance ⟨[], state.stage.exchange 1 0⟩ []).frames := around
      simp only [Jump.link, instruction]
      rw [bind_of_ok _ (pop_apply 1 state), bind_of_ok _ (destination_apply popped level),
        branchIf_apply, State.advance_advance]
      rfl
  | table levels fallback =>
      have popped : Around site (state.advance ⟨[], state.stage.exchange 1 0⟩ []).labels limit bound
          labels scope (state.advance ⟨[], state.stage.exchange 1 0⟩ []).frames := around
      simp only [Jump.link, instruction]
      rw [bind_of_ok _ (pop_apply 1 state), bind_of_ok _ (destinations_apply popped levels),
        bind_of_ok _ (destination_apply popped fallback), bind_of_ok _ (branchTable_apply _ _ _),
        transfer_apply, State.advance_advance, State.advance_advance, State.frames_advance,
        State.frames_advance, around.baseOf_eq]
      simp only [Jump.draft, State.stage_advance, List.nil_append, List.append_nil]

/-! ## Marks of blocks -/

/-- The frame of a block that is entered at a stage. -/
def frameOf (opener arity branchArity : Nat) (stage : Stage) : Frame :=
  ⟨opener, stage.height, arity, branchArity, stage.reachable⟩

/-- Entering a block adds its frame. -/
theorem enter_apply (opener : Nat) (type : BlockType) (branchArity : Nat) (state : State) :
    enter opener type branchArity state =
      .ok () (state.withFrames
        (frameOf opener type.arity branchArity state.stage :: state.frames)) := rfl

/-- Opening a block that branches leave defines its label. -/
theorem openBlock_apply (site : Site) (position : Nat) (type : BlockType) (label closer : Nat)
    (state : State) :
    instruction site position (BlockKind.block.opener type label closer) state =
      .ok () ((state.advance ⟨[.defineLabel], state.stage.define 1⟩
        [(label, state.defined)]).withFrames
          (frameOf position type.arity type.arity state.stage :: state.frames)) := by
  show (defineFor label >>= fun _ => enter position type type.arity) state = _
  rw [bind_of_ok _ (defineFor_apply label state), enter_apply]
  rfl

/-- Opening a block that branches repeat marks its label at once. -/
theorem openLoop_apply (site : Site) (position : Nat) (type : BlockType) (label closer : Nat)
    (state : State) :
    instruction site position (BlockKind.loop.opener type label closer) state =
      .ok () ((state.advance ⟨[.defineLabel, .markLabel state.defined], state.stage.define 1⟩
        [(label, state.defined)]).withFrames
          (frameOf position type.arity 0 state.stage :: state.frames)) := by
  show (defineFor label >>= fun start => emit (.markLabel start) >>= fun _ =>
    enter position type 0) state = _
  rw [bind_of_ok _ (defineFor_apply label state), bind_of_ok _ (emit_apply _ _), enter_apply,
    State.advance_advance]
  rfl

/-- Opening a conditional block without a second arm skips to its end if the condition is zero. -/
theorem openConditional_apply (site : Site) (position : Nat) (type : BlockType)
    (label closer : Nat) (state : State) :
    instruction site position (.ifThen type label (some closer) none) state =
      .ok () ((state.advance
        ⟨[.defineLabel, .op (.jumpUnless state.defined)], (state.stage.exchange 1 0).define 1⟩
          [(label, state.defined)]).withFrames
            (frameOf position type.arity type.arity (state.stage.exchange 1 0) ::
              state.frames)) := by
  show (pop 1 >>= fun _ => defineFor label >>= fun exit => op (.jumpUnless exit) >>= fun _ =>
    enter position type type.arity) state = _
  rw [bind_of_ok _ (pop_apply 1 state), bind_of_ok _ (defineFor_apply label _),
    bind_of_ok _ (op_apply _ _), enter_apply, State.advance_advance, State.advance_advance]
  rfl

/-- The state inside the first arm of a conditional block with two. -/
def openedArms (position : Nat) (type : BlockType) (label second : Nat) (state : State) : State :=
  (state.advance
    ⟨[.defineLabel, .defineLabel, .op (.jumpUnless (state.defined + 1))],
      (state.stage.exchange 1 0).define 2⟩
    [(second, state.defined + 1), (label, state.defined)]).withFrames
      (frameOf position type.arity type.arity (state.stage.exchange 1 0) :: state.frames)

/-- Opening a conditional block with a second arm skips to that arm. -/
theorem openArms_apply {site : Site} {divider second opener : Nat}
    (divides : site.body.instructions[divider]? = some (.otherwise second opener))
    (position : Nat) (type : BlockType) (label closer : Nat) (state : State) :
    instruction site position (.ifThen type label (some closer) (some divider)) state =
      .ok () (openedArms position type label second state) := by
  have arm : ∀ state, armLabel site divider state = .ok second state := by
    intro state
    rw [armLabel, divides]
    rfl
  show (pop 1 >>= fun _ => defineFor label >>= fun exit =>
    armLabel site divider >>= fun bodyLabel =>
    defineFor bodyLabel >>= fun second => op (.jumpUnless second) >>= fun _ =>
    enter position type type.arity) state = _
  rw [bind_of_ok _ (pop_apply 1 state), bind_of_ok _ (defineFor_apply label _),
    bind_of_ok _ (arm _), bind_of_ok _ (defineFor_apply second _), bind_of_ok _ (op_apply _ _),
    enter_apply, State.advance_advance, State.advance_advance, State.advance_advance]
  rfl

/-- Where the second arm starts, the first one leaves the block and the label of the second one is
marked. -/
theorem divide_apply {site : Site} {position label opener exitLabel exit second : Nat}
    {instruction : Instruction} {state : State} {frame : Frame} {frames : List Frame}
    (found : site.body.instructions[opener]? = some instruction)
    (opens : instruction.isOpener = true) (carries : instruction.label? = some exitLabel)
    (exitNamed : state.labels.lookup exitLabel = some exit)
    (secondNamed : state.labels.lookup label = some second)
    (framesEquation : state.frames = frame :: frames) :
    Emitter.instruction site position (.otherwise label opener) state =
      .ok () (state.advance
        ⟨[.op (.jump exit), .markLabel second], ⟨state.defined, frame.base, frame.live⟩⟩ []) := by
  rw [Emitter.instruction, bind_of_ok _ (blockLabel_apply found opens carries exitNamed),
    bind_of_ok _ (labelFor_apply secondNamed), bind_of_ok _ (op_apply _ state),
    bind_of_ok _ (emit_apply _ _), bind_of_ok _ (get_apply _), State.advance_advance,
    State.frames_advance, framesEquation]
  rfl

/-- The end of a block that branches leave marks its label and drops its frame. -/
theorem close_apply {site : Site} {position opener exitLabel exit : Nat}
    {instruction : Instruction} {state : State} {frame : Frame} {frames : List Frame}
    (found : site.body.instructions[opener]? = some instruction)
    (opens : instruction.isOpener = true) (carries : instruction.label? = some exitLabel)
    (exitNamed : state.labels.lookup exitLabel = some exit)
    (leaves : isLoop site.body opener = false)
    (framesEquation : state.frames = frame :: frames) :
    Emitter.instruction site position (.finish (some opener)) state =
      .ok () ((state.advance
        ⟨[.markLabel exit], ⟨state.defined, frame.base + frame.arity, frame.live⟩⟩
          []).withFrames frames) := by
  have named : (state.withFrames frames).labels.lookup exitLabel = some exit := exitNamed
  rw [Emitter.instruction, bind_of_ok _ (get_apply state), framesEquation]
  simp only [leaves]
  show (modify (fun state => { state with frames := frames }) >>= fun _ =>
    blockLabel site opener >>= fun exit => emit (.markLabel exit) >>= fun _ => _) state = _
  rw [bind_of_ok _ (modify_apply _ state)]
  show (blockLabel site opener >>= fun exit => emit (.markLabel exit) >>= fun _ => _)
    (state.withFrames frames) = _
  rw [bind_of_ok _ (blockLabel_apply found opens carries named), bind_of_ok _ (emit_apply _ _)]
  rfl

/-- The end of a block that branches repeat just drops its frame. -/
theorem closeLoop_apply {site : Site} {position opener : Nat} {state : State} {frame : Frame}
    {frames : List Frame} (repeats : isLoop site.body opener = true)
    (framesEquation : state.frames = frame :: frames) :
    instruction site position (.finish (some opener)) state =
      .ok () ((state.advance
        ⟨[], ⟨state.defined, frame.base + frame.arity, frame.live⟩⟩ []).withFrames frames) := by
  rw [instruction, bind_of_ok _ (get_apply state), framesEquation]
  simp only [repeats]
  rw [bind_of_ok _ (modify_apply _ state)]
  simp [State.advance, State.withFrames, modify_apply]

end Emitter

/-! ## Sequences -/

/-- **Whether a step of emission follows a draft.** Without a violation it gives the whole draft and
names labels of the body from `bound` on and below `next`; with one it fails by that error, after
the first directives of the draft. -/
def Follows (run : Emitter Unit) (state : State) (violation : Option Error) (draft : Draft)
    (bound next : Nat) : Prop :=
  match violation with
  | none =>
      ∃ names, (∀ entry ∈ names, bound ≤ entry.1 ∧ entry.1 < next) ∧
        run state = .ok () (state.advance draft names)
  | some error =>
      ∃ later more, run state = .error error later ∧
        later.directives = state.directives ++ more.toArray ∧ more <+: draft.directives

namespace Follows

variable {state : State} {violation : Option Error} {draft : Draft} {bound next : Nat}

/-- A step that succeeds and names nothing follows its draft. -/
theorem of_ok {run : Emitter Unit} (equation : run state = .ok () (state.advance draft [])) :
    Follows run state none draft bound next :=
  ⟨[], fun _ member => absurd member List.not_mem_nil, equation⟩

/-- A step that names labels in a range names them in a wider one. -/
theorem widen {run : Emitter Unit} {lower : Nat}
    (follows : Follows run state violation draft bound next) (wider : lower ≤ bound) :
    Follows run state violation draft lower next := by
  cases violation with
  | none =>
      obtain ⟨names, keys, equation⟩ := follows
      refine ⟨names, fun entry member => ?_, equation⟩
      have := keys entry member
      omega
  | some error => exact follows

/-- **Steps that follow drafts one after the other** follow the drafts one after the other. -/
theorem andThen {first second : Emitter Unit} {middle : Nat} {later : Option Error}
    {further : Draft} (follows : Follows first state violation draft bound middle)
    (ordered : bound ≤ middle ∧ middle ≤ next)
    (onward : ∀ names, (∀ entry ∈ names, bound ≤ entry.1 ∧ entry.1 < middle) →
      Follows second (state.advance draft names) later further middle next) :
    Follows (first >>= fun _ => second) state (violation.or later)
      ⟨draft.directives ++ further.directives, further.stage⟩ bound next := by
  cases violation with
  | none =>
      obtain ⟨names, keys, equation⟩ := follows
      have rest := onward names keys
      rw [Option.none_or]
      cases later with
      | none =>
          obtain ⟨moreNames, moreKeys, moreEquation⟩ := rest
          refine ⟨moreNames ++ names, fun entry member => ?_, ?_⟩
          · rcases List.mem_append.mp member with member | member
            · have := moreKeys entry member
              omega
            · have := keys entry member
              omega
          · rw [bind_of_ok _ equation, moreEquation, State.advance_advance]
      | some error =>
          obtain ⟨last, more, errorEquation, directives, front⟩ := rest
          refine ⟨last, draft.directives ++ more, ?_, ?_, ?_⟩
          · rw [bind_of_ok _ equation, errorEquation]
          · rw [directives]
            simp [State.advance, Array.append_assoc]
          · exact (List.prefix_append_right_inj _).mpr front
  | some error =>
      obtain ⟨last, more, errorEquation, directives, front⟩ := follows
      exact ⟨last, more, bind_of_error _ errorEquation, directives,
        front.trans (List.prefix_append _ _)⟩

/-- A step that succeeds and names nothing, and then one that follows a draft. -/
theorem after_ok {first second : Emitter Unit} {further : Draft} (ordered : bound ≤ next)
    (equation : first state = .ok () (state.advance draft []))
    (follows : Follows second (state.advance draft []) violation further bound next) :
    Follows (first >>= fun _ => second) state violation
      ⟨draft.directives ++ further.directives, further.stage⟩ bound next := by
  rw [← @Option.none_or _ violation]
  refine (of_ok equation).andThen ⟨Nat.le_refl bound, ordered⟩ fun names keys => ?_
  -- There is no label from `bound` on and below `bound` that could have got a name.
  obtain rfl : names = [] := List.eq_nil_iff_forall_not_mem.mpr fun entry member => by
    have := keys entry member
    omega
  exact follows

/-- **A block follows its draft** if its inside does: its opener enters the block, and its end
leaves it. -/
theorem bracket (closed : Draft) {first inside last : Emitter Unit} {frame : Frame}
    {opened inner : Draft} {name : List (Nat × Nat)} {middle : Nat}
    (opening : first state =
      .ok () ((state.advance opened name).withFrames (frame :: state.frames)))
    (ordered : bound ≤ middle)
    (nameKeys : ∀ entry ∈ name, bound ≤ entry.1 ∧ entry.1 < next)
    (follows : Follows inside ((state.advance opened name).withFrames (frame :: state.frames))
      violation inner middle next)
    (closing : ∀ names, (∀ entry ∈ names, middle ≤ entry.1 ∧ entry.1 < next) →
      last (((state.advance opened name).withFrames (frame :: state.frames)).advance inner names) =
        .ok () (((state.advance opened name).advance inner names).advance closed [])) :
    Follows (first >>= fun _ => inside >>= fun _ => last) state violation
      ⟨opened.directives ++ (inner.directives ++ closed.directives), closed.stage⟩ bound next := by
  cases violation with
  | none =>
      obtain ⟨names, keys, equation⟩ := follows
      refine ⟨names ++ name, fun entry member => ?_, ?_⟩
      · rcases List.mem_append.mp member with member | member
        · have := keys entry member
          omega
        · exact nameKeys entry member
      · rw [bind_of_ok _ opening, bind_of_ok _ equation, closing names keys,
          State.advance_advance, State.advance_advance, List.append_assoc]
        rfl
  | some error =>
      obtain ⟨later, more, errorEquation, directives, front⟩ := follows
      refine ⟨later, opened.directives ++ more, ?_, ?_, ?_⟩
      · rw [bind_of_ok _ opening, bind_of_error _ errorEquation]
      · rw [directives]
        simp [State.advance, Array.append_assoc]
      · exact (List.prefix_append_right_inj _).mpr (front.trans (List.prefix_append _ _))

end Follows

namespace Emitter

/-- Instructions are emitted one after the other. -/
theorem instructions_cons (site : Site) (position : Nat) (first : Instruction)
    (rest : List Instruction) :
    instructions site position (first :: rest) =
      instruction site position first >>= fun _ => instructions site (position + 1) rest := rfl

/-- Emission of instructions one list after the other. -/
theorem instructions_append (site : Site) (position : Nat) (first second : List Instruction) :
    instructions site position (first ++ second) =
      instructions site position first >>= fun _ =>
        instructions site (position + first.length) second := by
  induction first generalizing position with
  | nil => exact (pure_bind _ _).symm
  | cons instruction rest restInduction =>
      rw [List.cons_append, instructions_cons, instructions_cons, bind_assoc, restInduction,
        List.length_cons, Nat.add_assoc, Nat.add_comm 1]

/-- Emission of the instructions between two marks, of the second mark and of what follows. -/
theorem instructions_between (site : Site) (position : Nat) (opener mark : Instruction)
    (inside after : List Instruction) :
    instructions site position (opener :: (inside ++ mark :: after)) =
      (instruction site position opener >>= fun _ =>
        instructions site (position + 1) inside >>= fun _ =>
          instruction site (position + 1 + inside.length) mark) >>= fun _ =>
        instructions site (position + 1 + inside.length + 1) after := by
  rw [instructions_cons, instructions_append, instructions_cons]
  simp only [bind_assoc]

/-- Emission of the instructions of two arms between three marks, and of what follows. -/
theorem instructions_arms (site : Site) (position : Nat) (opener divider mark : Instruction)
    (arm other after : List Instruction) :
    instructions site position (opener :: (arm ++ divider :: (other ++ mark :: after))) =
      (instruction site position opener >>= fun _ =>
        (instructions site (position + 1) arm >>= fun _ =>
          instruction site (position + 1 + arm.length) divider >>= fun _ =>
            instructions site (position + 1 + arm.length + 1) other) >>= fun _ =>
          instruction site (position + 1 + arm.length + 1 + other.length) mark) >>= fun _ =>
        instructions site (position + 1 + arm.length + 1 + other.length + 1) after := by
  rw [instructions_cons, instructions_append, instructions_cons, instructions_append,
    instructions_cons]
  simp only [bind_assoc]

/-- A name stays the one given to a label of the body when later labels get names. -/
theorem lookup_append_of_fresh {more names : List (Nat × Nat)} {key : Nat}
    (fresh : ∀ entry ∈ more, entry.1 ≠ key) :
    (more ++ names).lookup key = names.lookup key := by
  rw [List.lookup_append, List.lookup_eq_none_iff.mpr, Option.none_or]
  intro entry member
  exact bne_iff_ne.mpr (fresh entry member).symm

/-- The name that a block got at its opener is still known at its end. -/
theorem lookup_exit {names : List (Nat × Nat)} {label next : Nat} (exit : Nat)
    (outer : List (Nat × Nat)) (fresh : ∀ entry ∈ names, label + 1 ≤ entry.1 ∧ entry.1 < next) :
    (names ++ ([(label, exit)] ++ outer)).lookup label = some exit := by
  rw [lookup_append_of_fresh fun entry member => Nat.ne_of_gt (fresh entry member).1]
  exact List.lookup_cons_self

/-- The name of the exit of a conditional block with two arms is known in both. -/
theorem lookup_exit_openedArms {names : List (Nat × Nat)} {label second : Nat} (position : Nat)
    (type : BlockType) (state : State) (ordered : label < second)
    (fresh : ∀ entry ∈ names, label + 1 ≤ entry.1) :
    (names ++ (openedArms position type label second state).labels).lookup label =
      some state.defined := by
  rw [lookup_append_of_fresh fun entry member => Nat.ne_of_gt (fresh entry member)]
  have distinct : (label == second) = false := beq_false_of_ne (Nat.ne_of_lt ordered)
  simp [openedArms, List.lookup_cons, distinct]

/-- The name of the second arm is known after the first one. -/
theorem lookup_second_openedArms {names : List (Nat × Nat)} {second : Nat} (position : Nat)
    (type : BlockType) (label : Nat) (state : State) (fresh : ∀ entry ∈ names, entry.1 < second) :
    (names ++ (openedArms position type label second state).labels).lookup second =
      some (state.defined + 1) := by
  rw [lookup_append_of_fresh fun entry member => Nat.ne_of_lt (fresh entry member)]
  exact List.lookup_cons_self

/-- The opener of an opener is itself. -/
theorem branchOpener_of_isOpener {body : Body} {position : Nat} {instruction : Instruction}
    (found : body.instructions[position]? = some instruction)
    (opens : instruction.isOpener = true) : branchOpener body position = position := by
  rw [branchOpener, found]
  cases instruction <;> first | rfl | cases opens

/-- Whether branches repeat a block is told by its opener. -/
theorem isLoop_opener {body : Body} {position : Nat} {kind : BlockKind} {type : BlockType}
    {label closer : Nat}
    (found : body.instructions[position]? = some (kind.opener type label closer)) :
    isLoop body position = decide (kind = .loop) := by
  rw [isLoop, found]
  cases kind <;> rfl

/-- Branches leave conditional blocks. -/
theorem isLoop_ifThen {body : Body} {position : Nat} {type : BlockType} {label : Nat}
    {closer arm : Option Nat}
    (found : body.instructions[position]? = some (.ifThen type label closer arm)) :
    isLoop body position = false := by
  rw [isLoop, found]

end Emitter

/-- Inside a block there is that block around, and what is around the block. -/
theorem Around.enter {site : Site} {names more : List (Nat × Nat)}
    {position label limit bound : Nat} {depth : Nat} {labels : LabelStack depth}
    {scope : Scope depth} {frames : List Frame} {instruction : Instruction} {target arity : Nat}
    {landing : Landing} {stage : Stage}
    (around : Around site names position label labels scope frames)
    (found : site.body.instructions[position]? = some instruction)
    (opens : instruction.isOpener = true) (carries : instruction.label? = some label)
    (named : (more ++ names).lookup label = some landing.label)
    (fresh : ∀ entry ∈ more, label ≤ entry.1)
    (names_opener : Emitter.branchOpener site.body target = position)
    (sameBase : stage.height = landing.base)
    (later : position < limit) (higher : label < bound) :
    Around site (more ++ names) limit bound (labels.push target) (scope.inside landing)
      (Emitter.frameOf position arity landing.keep stage :: frames) := by
  refine .inside (around.mono (by omega) (by omega) fresh) names_opener found opens carries named
    higher later ?_ sameBase rfl
  exact fun other member => around.earlier_of_mem member

/-- In either arm of a conditional block with two there is the block around, under the names given
at its opener and in the arm before. -/
theorem Around.enter_openedArms {site : Site} {state : State} {names : List (Nat × Nat)}
    {position label second limit bound depth target : Nat} {labels : LabelStack depth}
    {scope : Scope depth} {type : BlockType} {closer arm : Option Nat}
    (around : Around site state.labels position label labels scope state.frames)
    (opens : site.body.instructions[position]? = some (.ifThen type label closer arm))
    (ordered : label < second) (fresh : ∀ entry ∈ names, label + 1 ≤ entry.1)
    (names_opener : Emitter.branchOpener site.body target = position) (later : position < limit)
    (higher : label < bound) :
    Around site (names ++ (Emitter.openedArms position type label second state).labels) limit bound
      (labels.push target)
      (scope.inside ⟨state.defined, (state.stage.exchange 1 0).height, type.arity⟩)
      (Emitter.openedArms position type label second state).frames := by
  have exit := Emitter.lookup_exit_openedArms position type state ordered fresh
  have apart : (names ++ (Emitter.openedArms position type label second state).labels) =
      (names ++ [(second, state.defined + 1), (label, state.defined)]) ++ state.labels :=
    (List.append_assoc names _ state.labels).symm
  rw [apart] at exit ⊢
  refine around.enter opens rfl rfl exit (fun entry member => ?_) names_opener rfl later higher
  rcases List.mem_append.mp member with member | member
  · exact Nat.le_of_succ_le (fresh entry member)
  · simp only [List.mem_cons, List.not_mem_nil, or_false] at member
    rcases member with rfl | rfl
    · exact Nat.le_of_lt ordered
    · exact Nat.le_refl _

namespace Follows

open Emitter

variable {site : Site} {state : State} {violation : Option Error} {inner : Draft}
  {position label closer mark next : Nat} {type : BlockType} {inside : Emitter Unit}

/-- **A block** follows its draft. -/
theorem block
    (opens : site.body.instructions[position]? =
      some (BlockKind.block.opener type label closer))
    (ordered : label < next)
    (follows : Follows inside
      ((state.advance ⟨[.defineLabel], state.stage.define 1⟩
        [(label, state.defined)]).withFrames
          (frameOf position type.arity type.arity state.stage :: state.frames))
      violation inner (label + 1) next) :
    Follows
      (instruction site position (BlockKind.block.opener type label closer) >>= fun _ =>
        inside >>= fun _ => instruction site mark (.finish (some position)))
      state violation
      ⟨.defineLabel :: (inner.directives ++ [.markLabel state.defined]),
        state.stage.leave inner.stage type.arity⟩ label next := by
  have opening := openBlock_apply site position type label closer state
  refine bracket ⟨[.markLabel state.defined], state.stage.leave inner.stage type.arity⟩ opening
    (Nat.le_succ label) (by simpa using ordered) follows fun names fresh => ?_
  have named := lookup_exit state.defined state.labels fresh
  rw [close_apply opens (BlockKind.isOpener_opener _ _ _ _) (BlockKind.label?_opener _ _ _ _) named
    (isLoop_opener opens) rfl]
  rfl

/-- **A loop** follows its draft. -/
theorem loop
    (opens : site.body.instructions[position]? =
      some (BlockKind.loop.opener type label closer))
    (ordered : label < next)
    (follows : Follows inside
      ((state.advance ⟨[.defineLabel, .markLabel state.defined], state.stage.define 1⟩
        [(label, state.defined)]).withFrames
          (frameOf position type.arity 0 state.stage :: state.frames))
      violation inner (label + 1) next) :
    Follows
      (instruction site position (BlockKind.loop.opener type label closer) >>= fun _ =>
        inside >>= fun _ => instruction site mark (.finish (some position)))
      state violation
      ⟨.defineLabel :: .markLabel state.defined :: inner.directives,
        state.stage.leave inner.stage type.arity⟩ label next := by
  have opening := openLoop_apply site position type label closer state
  rw [← List.append_nil inner.directives]
  refine bracket ⟨[], state.stage.leave inner.stage type.arity⟩ opening (Nat.le_succ label)
    (by simpa using ordered) follows fun names fresh => ?_
  rw [closeLoop_apply (isLoop_opener opens) rfl]
  rfl

/-- **A conditional block with one arm** follows its draft. -/
theorem ifThen
    (opens : site.body.instructions[position]? = some (.ifThen type label (some closer) none))
    (ordered : label < next)
    (follows : Follows inside
      ((state.advance
        ⟨[.defineLabel, .op (.jumpUnless state.defined)], (state.stage.exchange 1 0).define 1⟩
        [(label, state.defined)]).withFrames
          (frameOf position type.arity type.arity (state.stage.exchange 1 0) :: state.frames))
      violation inner (label + 1) next) :
    Follows
      (instruction site position (.ifThen type label (some closer) none) >>= fun _ =>
        inside >>= fun _ => instruction site mark (.finish (some position)))
      state violation
      ⟨.defineLabel :: .op (.jumpUnless state.defined) ::
          (inner.directives ++ [.markLabel state.defined]),
        (state.stage.exchange 1 0).leave inner.stage type.arity⟩ label next := by
  have opening := openConditional_apply site position type label closer state
  refine bracket ⟨[.markLabel state.defined],
    (state.stage.exchange 1 0).leave inner.stage type.arity⟩ opening (Nat.le_succ label)
    (by simpa using ordered) follows fun names fresh => ?_
  have named := lookup_exit state.defined state.labels fresh
  rw [close_apply opens rfl rfl named (isLoop_ifThen opens) rfl]
  rfl

/-- The draft of the mark between two arms of a block that was entered at a stage. -/
def dividingDraft (exit second : Nat) (entered ended : Stage) : Draft :=
  ⟨[.op (.jump exit), .markLabel second], entered.leave ended 0⟩

/-- **A conditional block with two arms** follows its draft. -/
theorem ifElse {divider second : Nat} {other : Draft} {otherViolation : Option Error}
    {insideOther : Emitter Unit}
    (opens : site.body.instructions[position]? =
      some (.ifThen type label (some closer) (some divider)))
    (divides : site.body.instructions[divider]? = some (.otherwise second position))
    (ordered : label < second ∧ second < next)
    (follows : Follows inside (openedArms position type label second state) violation inner
      (label + 1) second)
    (followsOther : ∀ names, (∀ entry ∈ names, label + 1 ≤ entry.1 ∧ entry.1 < second) →
      Follows insideOther
        (((openedArms position type label second state).advance inner names).advance
          (dividingDraft state.defined (state.defined + 1) (state.stage.exchange 1 0) inner.stage)
          []) otherViolation other (second + 1) next) :
    Follows
      (instruction site position (.ifThen type label (some closer) (some divider)) >>= fun _ =>
        (inside >>= fun _ => instruction site divider (.otherwise second position) >>= fun _ =>
          insideOther) >>= fun _ => instruction site mark (.finish (some position)))
      state (violation.or otherViolation)
      ⟨.defineLabel :: .defineLabel :: .op (.jumpUnless (state.defined + 1)) ::
          (inner.directives ++ .op (.jump state.defined) :: .markLabel (state.defined + 1) ::
            (other.directives ++ [.markLabel state.defined])),
        (state.stage.exchange 1 0).leave other.stage type.arity⟩ label next := by
  have opening := openArms_apply divides position type label closer state
  have keys : ∀ entry ∈ [(second, state.defined + 1), (label, state.defined)],
      label ≤ entry.1 ∧ entry.1 < next := by
    simp
    omega
  have frames : ∀ {draft : Draft} (names : List (Nat × Nat)),
      ((openedArms position type label second state).advance draft names).frames =
        frameOf position type.arity type.arity (state.stage.exchange 1 0) :: state.frames :=
    fun _ => rfl
  -- To the bracket of the block, the arms and the mark between them are one inside.
  have both : Follows
      (inside >>= fun _ => instruction site divider (.otherwise second position) >>= fun _ =>
        insideOther) (openedArms position type label second state) (violation.or otherViolation)
      ⟨inner.directives ++ (.op (.jump state.defined) :: .markLabel (state.defined + 1) ::
          other.directives), other.stage⟩
      (label + 1) next := by
    have onward : ∀ names, (∀ entry ∈ names, label + 1 ≤ entry.1 ∧ entry.1 < second) →
        Follows (instruction site divider (.otherwise second position) >>= fun _ => insideOther)
          ((openedArms position type label second state).advance inner names) otherViolation
          ⟨.op (.jump state.defined) :: .markLabel (state.defined + 1) :: other.directives,
            other.stage⟩ second next := by
      intro names fresh
      have exit := lookup_exit_openedArms position type state ordered.1 fun entry member =>
        (fresh entry member).1
      have arm := lookup_second_openedArms position type label state fun entry member =>
        (fresh entry member).2
      have divide : instruction site divider (.otherwise second position)
            ((openedArms position type label second state).advance inner names) =
          .ok () (((openedArms position type label second state).advance inner names).advance
            (dividingDraft state.defined (state.defined + 1) (state.stage.exchange 1 0)
              inner.stage) []) :=
        divide_apply opens rfl rfl exit arm (frames names)
      exact (after_ok ordered.2 divide (followsOther names fresh)).widen (Nat.le_succ second)
    exact follows.andThen ⟨by omega, by omega⟩ onward
  have closing : ∀ (draft : Draft) (names : List (Nat × Nat)),
      (∀ entry ∈ names, label + 1 ≤ entry.1 ∧ entry.1 < next) →
      instruction site mark (.finish (some position))
          ((openedArms position type label second state).advance draft names) =
        .ok () ((((openedArms position type label second state).advance draft names).advance
          ⟨[.markLabel state.defined],
            (state.stage.exchange 1 0).leave draft.stage type.arity⟩ []).withFrames
              state.frames) := by
    intro draft names fresh
    have named := lookup_exit_openedArms position type state ordered.1 fun entry member =>
      (fresh entry member).1
    exact close_apply opens rfl rfl named (isLoop_ifThen opens) (frames names)
  have whole := bracket ⟨[.markLabel state.defined],
    (state.stage.exchange 1 0).leave other.stage type.arity⟩ opening (Nat.le_succ label)
    keys both (closing _)
  simpa only [List.append_assoc, List.cons_append, List.nil_append] using whole

end Follows

namespace Emitter

/-- Emission of an instruction without block structure follows its draft. -/
theorem plain_follows (site : Site) (position : Nat) (plain : PlainInstruction) (state : State)
    (label : Nat) :
    Follows (instruction site position (.plain plain)) state (plain.violation? site)
      (plain.draft site (baseOf state.frames) state.stage) label label := by
  cases refused : plain.violation? site with
  | none => exact Follows.of_ok (plain_apply refused state)
  | some error => exact ⟨state, [], plain_violation refused state, by simp, List.nil_prefix⟩

/-- **Emission of structured code** follows its draft: it gives the directives of the draft, up to
the first instruction that it refuses. -/
theorem instructions_code {site : Site} {depth : Nat} {code : Code depth}
    {labels : LabelStack depth} {scope : Scope depth} {position label : Nat} {state : State}
    (placed : code.Placed site.body.instructions.toList labels position label)
    (around : Around site state.labels position label labels scope state.frames) :
    Follows (instructions site position (code.instructions labels position label)) state
      (code.violation? site) (code.draft site scope state.stage) label
      (label + code.labelCount) := by
  -- What is around a place is carried along: after an instruction or a whole block more labels have
  -- names, and inside a block its frame is in front.
  induction code generalizing position label state with
  | empty =>
      refine Follows.of_ok ?_
      rw [Code.draft, State.advance_nil]
      rfl
  | plain offset plain next nextInduction =>
      obtain ⟨here, after⟩ := placed.plain
      have first := plain_follows site position plain state label
      rw [around.baseOf_eq] at first
      refine first.andThen ⟨Nat.le_refl _, Nat.le_add_right _ _⟩ fun names keys => ?_
      refine nextInduction after (around.mono (by omega) (Nat.le_refl _) fun entry member => ?_)
      exact (keys entry member).1
  | jump offset leap next nextInduction =>
      obtain ⟨here, after⟩ := placed.jump
      have first : Follows (instruction site position (leap.link labels)) state none
          (leap.draft scope state.stage) label label :=
        Follows.of_ok (jump_apply around position leap)
      refine first.andThen ⟨Nat.le_refl _, Nat.le_add_right _ _⟩ fun names keys => ?_
      refine nextInduction after (around.mono (by omega) (Nat.le_refl _) fun entry member => ?_)
      exact (keys entry member).1
  | block offset kind type body finish next bodyInduction nextInduction =>
      obtain ⟨opens, within, closes, after⟩ := placed.block
      rw [Array.getElem?_toList] at opens
      have isOpener := kind.isOpener_opener type label (position + 1 + body.size)
      have carries := kind.label?_opener type label (position + 1 + body.size)
      have target := branchOpener_of_isOpener opens isOpener
      have named : ([(label, state.defined)] ++ state.labels).lookup label = some state.defined :=
        List.lookup_cons_self
      simp only [Code.instructions, instructions_between, Code.length_instructions, Code.violation?,
        Code.labelCount, ← Nat.add_assoc]
      have onward : ∀ (draft : Draft) (names : List (Nat × Nat)),
          (∀ entry ∈ names, label ≤ entry.1 ∧ entry.1 < label + 1 + body.labelCount) →
          Around site (state.advance draft names).labels (position + 1 + body.size + 1)
            (label + 1 + body.labelCount) labels scope (state.advance draft names).frames :=
        fun draft names keys => around.mono (by omega) (by omega) fun entry member =>
          (keys entry member).1
      -- Branches to a block keep its result and land at its end, those to a loop keep nothing.
      cases kind with
      | block =>
          have inward : Around site ([(label, state.defined)] ++ state.labels) (position + 1)
              (label + 1) (labels.push position)
              (scope.inside ⟨state.defined, state.stage.height, type.arity⟩)
              (frameOf position type.arity type.arity state.stage :: state.frames) :=
            around.enter opens isOpener carries named (by simp) target rfl
              (Nat.lt_succ_self position) (Nat.lt_succ_self label)
          exact (Follows.block opens (by omega) (bodyInduction within inward)).andThen
            ⟨by omega, by omega⟩ fun names keys => nextInduction after (onward _ names keys)
      | loop =>
          have inward : Around site ([(label, state.defined)] ++ state.labels) (position + 1)
              (label + 1) (labels.push position)
              (scope.inside ⟨state.defined, state.stage.height, 0⟩)
              (frameOf position type.arity 0 state.stage :: state.frames) :=
            around.enter opens isOpener carries named (by simp) target rfl
              (Nat.lt_succ_self position) (Nat.lt_succ_self label)
          exact (Follows.loop opens (by omega) (bodyInduction within inward)).andThen
            ⟨by omega, by omega⟩ fun names keys => nextInduction after (onward _ names keys)
  | ifThen offset type arm finish next armInduction nextInduction =>
      obtain ⟨opens, within, closes, after⟩ := placed.ifThen
      rw [Array.getElem?_toList] at opens
      have target := branchOpener_of_isOpener opens rfl
      have named : ([(label, state.defined)] ++ state.labels).lookup label = some state.defined :=
        List.lookup_cons_self
      simp only [Code.instructions, instructions_between, Code.length_instructions, Code.violation?,
        Code.labelCount, ← Nat.add_assoc]
      have inward : Around site ([(label, state.defined)] ++ state.labels) (position + 1)
          (label + 1) (labels.push position)
          (scope.inside ⟨state.defined, (state.stage.exchange 1 0).height, type.arity⟩)
          (frameOf position type.arity type.arity (state.stage.exchange 1 0) :: state.frames) :=
        around.enter opens rfl rfl named (by simp) target rfl (Nat.lt_succ_self position)
          (Nat.lt_succ_self label)
      refine (Follows.ifThen opens (by omega) (armInduction within inward)).andThen
        ⟨by omega, by omega⟩ fun names keys => nextInduction after ?_
      exact around.mono (by omega) (by omega) fun entry member => (keys entry member).1
  | ifElse offset type arm middle otherwise finish next armInduction otherwiseInduction
      nextInduction =>
      obtain ⟨opens, within, divides, withinOther, closes, after⟩ := placed.ifElse rfl rfl rfl
      rw [Array.getElem?_toList] at opens divides
      have target := branchOpener_of_isOpener opens rfl
      have otherTarget : branchOpener site.body (position + 1 + arm.size) = position := by
        rw [branchOpener, divides]
      simp only [Code.instructions, instructions_arms, Code.length_instructions, Code.violation?,
        Code.labelCount, ← Nat.add_assoc]
      obtain ⟨second, secondEquation⟩ : ∃ second, second = label + 1 + arm.labelCount := ⟨_, rfl⟩
      rw [← secondEquation] at divides withinOther after ⊢
      have inward : Around site ([] ++ (openedArms position type label second state).labels)
          (position + 1) (label + 1) (labels.push position)
          (scope.inside ⟨state.defined, (state.stage.exchange 1 0).height, type.arity⟩)
          (openedArms position type label second state).frames :=
        around.enter_openedArms opens (by omega) (fun _ member => absurd member List.not_mem_nil)
          target (Nat.lt_succ_self position) (Nat.lt_succ_self label)
      have follows := armInduction within inward
      rw [← secondEquation] at follows
      have ordered : label < second ∧ second < second + 1 + otherwise.labelCount := by omega
      -- What is known after the first arm does not depend on the names that it gave.
      have followsOther : ∀ (inner : Draft) (names : List (Nat × Nat)),
          (∀ entry ∈ names, label + 1 ≤ entry.1 ∧ entry.1 < second) →
          Follows _ (((openedArms position type label second state).advance inner names).advance
            (Follows.dividingDraft state.defined (state.defined + 1) (state.stage.exchange 1 0)
              inner.stage) []) (otherwise.violation? site)
            (otherwise.draft site
              (scope.inside ⟨state.defined, (state.stage.exchange 1 0).height, type.arity⟩)
              ((state.stage.exchange 1 0).leave inner.stage 0))
            (second + 1) (second + 1 + otherwise.labelCount) :=
        fun inner names keys => otherwiseInduction withinOther
          (around.enter_openedArms opens ordered.1 (fun entry member => (keys entry member).1)
            otherTarget (by omega) (by omega))
      rw [← Option.or_assoc]
      refine (Follows.ifElse opens divides ordered follows (followsOther _)).andThen
        ⟨by omega, by omega⟩ fun names keys => nextInduction after ?_
      exact around.mono (by omega) (by omega) fun entry member => (keys entry member).1

end Emitter

end WasmCompiler.Emission
