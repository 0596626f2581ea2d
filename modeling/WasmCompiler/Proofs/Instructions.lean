import WasmCompiler.Proofs.Branches

/-! # Runs of instructions without block structure

An instruction that neither calls nor returns becomes operations that neither branch nor call, and
those do together what the instruction does.

* **`PlainInstruction.stage_draft`** — what is known after an instruction is what its balance says;
* **`PlainInstruction.mirrors_effect`** — the operations of an instruction do what it does. -/

namespace WasmCompiler

open Bytecode (Assembly Op)
open Emission
open Machine
open Machine.Execution
open Stateful

variable {assembly : Assembly} {bounds : Bounds} {code : Array (Op Nat)} {place : Nat → Nat}
  {position : Nat} {running : Running} {callers : List Activation} {site : Site}

namespace PlainInstruction

/-! ## What is known after an instruction -/

/-- **The stage after an instruction** that the next one follows. -/
theorem stage_draft {instruction : PlainInstruction} {base : Nat} {stage : Stage}
    (follows : instruction.isTransfer = false)
    (enough : (instruction.exchange site.module site.signature.results.length).1 ≤ stage.height) :
    (instruction.draft site base stage).stage =
      stage.exchange (instruction.exchange site.module site.signature.results.length).1
        (instruction.exchange site.module site.signature.results.length).2 := by
  cases instruction with
  | unreachable | ret => cases follows
  | nop => rfl
  | call function =>
      simp only [draft, exchange]
      cases site.module.signature? function.toNat <;> rfl
  | callIndirect typeIndex =>
      simp only [draft, exchange]
      cases site.module.types[typeIndex.toNat]? <;> rfl
  | teeLocal index | growMemory =>
      -- Nothing changes, but only because there is an operand to take.
      have same : stage.height = stage.height - 1 + 1 := by
        have : 1 ≤ stage.height := enough
        omega
      show stage = { stage with height := stage.height - 1 + 1 }
      rw [← same]
  | access accessor alignment offset =>
      simp only [draft, exchange]
      split <;> rfl
  | _ => rfl

/-! ## Operations of an instruction -/

/-- Instructions that neither call nor return do not depend on the place of the activation. -/
theorem local_effect (bounds : Bounds) {instruction : PlainInstruction}
    (straight : instruction.isStraight = true) : Local (instruction.effect bounds) := by
  cases instruction with
  | unreachable => exact local_throw _
  | nop => exact local_pure ()
  | drop => exact Local.bind local_pop fun _ => local_pure ()
  | select =>
      exact Local.bind local_popI32 fun _ => Local.bind local_pop fun _ =>
        Local.bind local_pop fun _ => local_push bounds _
  | getLocal index | getGlobal index =>
      exact Local.read (fun _ => Local.bind (local_valueAt _ _) fun _ => local_push bounds _)
        fun _ _ _ => rfl
  | setLocal index => exact local_storeSlot index.toNat
  | teeLocal index =>
      exact Local.bind (local_storeSlot index.toNat) fun _ =>
        Local.read (fun _ => Local.bind (local_valueAt _ _) fun _ => local_push bounds _)
          fun _ _ _ => rfl
  | setGlobal index => exact local_storeGlobal index.toNat
  | access accessor alignment offset =>
      exact Local.ite (local_storeMemory accessor offset.toNat)
        (local_loadMemory bounds accessor offset.toNat)
  | currentMemory => exact Local.read (fun _ => local_push bounds _) fun _ _ _ => rfl
  | growMemory => exact local_growMemory bounds
  | const value => exact local_push bounds value
  | numeric operation => exact local_effects bounds fun _ => NumericOp.isStraight_of_mem_lower
  | ret | call | callIndirect => cases straight

/-- One operation. -/
theorem forM_single (op : Op Nat) :
    [op].forM (Execution.effect bounds) = Execution.effect bounds op :=
  bind_pure_unit

/-- Reading a parameter or a local. -/
theorem effect_loadOp (index : Nat)
    (signature : running.activation.function.signature = site.signature) :
    Execution.effect bounds (site.loadOp index) running =
      (do push bounds (← valueAt (← get).activation.slots index) : Execution Unit) running := by
  unfold Site.loadOp
  by_cases param : index < site.signature.params.length
  · rw [if_pos param]
    rfl
  · have whole : running.activation.function.signature.params.length +
        (index - site.signature.params.length) = index := by
      rw [signature]
      omega
    rw [if_neg param, Execution.effect, bind_of_ok _ (get_apply _), bind_of_ok _ (get_apply _)]
    rw [whole]

/-- Replacing a parameter or a local. -/
theorem effect_storeOp (index : Nat)
    (signature : running.activation.function.signature = site.signature) :
    Execution.effect bounds (site.storeOp index) running = storeSlot index running := by
  unfold Site.storeOp
  by_cases param : index < site.signature.params.length
  · rw [if_pos param]
    rfl
  · have whole : running.activation.function.signature.params.length +
        (index - site.signature.params.length) = index := by
      rw [signature]
      omega
    rw [if_neg param, Execution.effect, bind_of_ok _ (get_apply _)]
    rw [whole]

/-- A variable is read without branches. -/
theorem isStraight_loadOp (index : Nat) : (site.loadOp index).isStraight = true := by
  unfold Site.loadOp
  split <;> rfl

/-- It is replaced without branches. -/
theorem isStraight_storeOp (index : Nat) : (site.storeOp index).isStraight = true := by
  unfold Site.storeOp
  split <;> rfl

/-- **An instruction is its operations**, which neither branch nor call. -/
theorem exists_operations {instruction : PlainInstruction} (base : Nat) (stage : Stage)
    (straight : instruction.isStraight = true)
    (signature : running.activation.function.signature = site.signature) :
    ∃ ops, (instruction.draft site base stage).directives = operations ops ∧
      (∀ op ∈ ops, op.isStraight = true) ∧
      ops.forM (Execution.effect bounds) running = instruction.effect bounds running := by
  have single : ∀ op : Op Nat, op.isStraight = true →
      Execution.effect bounds op running = instruction.effect bounds running →
      (instruction.draft site base stage).directives = [.op op] →
      ∃ ops, (instruction.draft site base stage).directives = operations ops ∧
        (∀ op ∈ ops, op.isStraight = true) ∧
        ops.forM (Execution.effect bounds) running = instruction.effect bounds running := by
    intro op opStraight same directives
    refine ⟨[op], directives, fun other member => ?_, ?_⟩
    · rw [List.mem_singleton.mp member]
      exact opStraight
    · rw [forM_single, same]
  cases instruction with
  | ret | call | callIndirect => cases straight
  | nop => exact ⟨[], rfl, fun _ absurd => (nomatch absurd), rfl⟩
  | unreachable => exact single .trap rfl rfl rfl
  | drop => exact single .pop rfl rfl rfl
  | select => exact single .select rfl rfl rfl
  | getLocal index => exact single _ (isStraight_loadOp _) (effect_loadOp _ signature) rfl
  | setLocal index => exact single _ (isStraight_storeOp _) (effect_storeOp _ signature) rfl
  | teeLocal index =>
      refine ⟨[site.storeOp index.toNat, site.loadOp index.toNat], rfl, ?_, ?_⟩
      · intro op member
        rcases List.mem_cons.mp member with rfl | member
        · exact isStraight_storeOp _
        · rw [List.mem_singleton.mp member]
          exact isStraight_loadOp _
      -- The value that was stored is loaded again, by a function that still has the same signature.
      · have both : [site.storeOp index.toNat, site.loadOp index.toNat].forM
            (Execution.effect bounds) = Execution.effect bounds (site.storeOp index.toNat) >>=
              fun _ => Execution.effect bounds (site.loadOp index.toNat) :=
          bind_congr fun _ => forM_single _
        rw [both, PlainInstruction.effect, bind_apply, bind_apply, effect_storeOp _ signature]
        cases stored : storeSlot index.toNat running with
        | error trap later => rfl
        | ok value later =>
            refine effect_loadOp index.toNat ?_
            rw [(local_storeSlot index.toNat).steady stored, signature]
  | getGlobal index => exact single (.loadGlobal index.toNat) rfl rfl rfl
  | setGlobal index => exact single (.storeGlobal index.toNat) rfl rfl rfl
  | access accessor alignment offset =>
      exact single (.access accessor offset.toNat) rfl rfl rfl
  | currentMemory => exact single .currentMemory rfl rfl rfl
  | growMemory => exact single .growMemory rfl rfl rfl
  | const value => exact single (.const value) rfl rfl rfl
  | numeric operation =>
      exact ⟨operation.lower, rfl, fun _ => NumericOp.isStraight_of_mem_lower, rfl⟩

/-- **The operations of an instruction** that neither calls nor returns do what it does. -/
theorem mirrors_effect {instruction : PlainInstruction} {base least : Nat} {stage : Stage}
    (straight : instruction.isStraight = true)
    (signature : running.activation.function.signature = site.signature)
    (realized : Realizes code place position (instruction.draft site base stage).directives) :
    Mirrors assembly bounds callers least ⟨running.at code position, callers⟩
      (.ofExecution (instruction.effect bounds) running) fun _ later _ final =>
        final = ⟨later.at code (position +
          (emitted (instruction.draft site base stage).directives).length), callers⟩ := by
  obtain ⟨ops, directives, opsStraight, same⟩ : ∃ ops,
      (instruction.draft site base stage).directives = operations ops ∧
        (∀ op ∈ ops, op.isStraight = true) ∧
        ops.forM (Execution.effect bounds) running = instruction.effect bounds running :=
    exists_operations base stage straight signature
  rw [directives, emitted_operations]
  rw [directives] at realized
  have mirrors : Mirrors assembly bounds callers least ⟨running.at code position, callers⟩
      (.ofExecution (ops.forM (Execution.effect bounds)) running) fun _ later _ final =>
        final = ⟨later.at code (position + ops.length), callers⟩ :=
    mirrors_operations opsStraight realized
  unfold Evaluation.ofExecution at mirrors ⊢
  rwa [same] at mirrors

end PlainInstruction

end WasmCompiler
