import WasmCompiler.Proofs.Evaluation
import WasmCompiler.Proofs.Labels
import WasmCompiler.Proofs.Stateful

/-! # Actions that do not depend on the place of an activation

Operations that neither branch nor call act on operands, variables and memory. Where in its code an
activation is makes no difference to them, and they stay in their function.

* **`Local`** — an action does not depend on the place of the activation;
* **`local_effect`** — operations that neither branch nor call are such. -/

namespace WasmCompiler.Machine

open Bytecode (Op)
open Stateful
open Execution

/-- The activation at a place of some code for its function. -/
def Running.at (running : Running) (code : Array (Op Nat)) (position : Nat) : Running :=
  { running with
    activation :=
      { running.activation with
        function := { running.activation.function with code := code }
        position := position } }

/-- The outcome at a place of some code. -/
def relocate {α : Type} (code : Array (Op Nat)) (position : Nat) :
    EStateM.Result Trap Running α → EStateM.Result Trap Running α
  | .ok value later => .ok value (later.at code position)
  | .error trap later => .error trap (later.at code position)

/-- **Whether an action does not depend on the place of the activation**, nor leaves the function.
-/
structure Local {α : Type} (action : Execution α) : Prop where
  /-- At another place the outcome is the same, at that place. -/
  relocates : ∀ running code position,
    action (running.at code position) = relocate code position (action running)
  /-- The activation stays in its function. -/
  steady : ∀ {running later value}, action running = .ok value later →
    later.activation.function = running.activation.function

variable {α β : Type}

/-! ## Building actions -/

/-- Giving a value is local. -/
theorem local_pure (value : α) : Local (pure value) where
  relocates _ _ _ := rfl
  steady equation := by
    cases equation
    rfl

/-- So is trapping. -/
theorem local_throw (trap : Trap) : Local (throw trap : Execution α) where
  relocates _ _ _ := rfl
  steady equation := by cases equation

/-- Local actions one after the other are local. -/
theorem Local.bind {first : Execution α} {second : α → Execution β} (start : Local first)
    (onward : ∀ value, Local (second value)) : Local (first >>= second) where
  relocates running code position := by
    rw [bind_apply, bind_apply, start.relocates]
    cases first running with
    | ok value later => exact (onward value).relocates later code position
    | error trap later => rfl
  steady equation := by
    obtain ⟨value, middle, firstEquation, equation⟩ := bind_eq_ok.mp equation
    exact ((onward value).steady equation).trans (start.steady firstEquation)

/-- An action may look at everything but the place. -/
theorem Local.read {action : Running → Execution α} (each : ∀ running, Local (action running))
    (blind : ∀ running code position, action (running.at code position) = action running) :
    Local (get >>= action) where
  relocates running code position := by
    rw [bind_of_ok _ (get_apply _), bind_of_ok _ (get_apply _), blind]
    exact (each running).relocates running code position
  steady {running _ _} equation := (each running).steady equation

/-- An action may change everything but the place and the function. -/
theorem local_modify {change : Running → Running}
    (blind : ∀ running code position,
      change (running.at code position) = (change running).at code position)
    (steady : ∀ running, (change running).activation.function = running.activation.function) :
    Local (modify change) where
  relocates running code position := by
    rw [modify_apply, modify_apply, blind]
    rfl
  steady {running _ _} equation := by
    cases equation
    exact steady running

/-- So is a choice between them. -/
theorem Local.ite {condition : Prop} [Decidable condition] {first second : Execution α}
    (positive : Local first) (negative : Local second) :
    Local (if condition then first else second) := by
  by_cases holds : condition
  · rw [if_pos holds]
    exact positive
  · rw [if_neg holds]
    exact negative

/-- A check lets the rest run or traps. -/
theorem Local.check {condition : Prop} [Decidable condition] {trap : Trap}
    {onward : Unit → Execution α} (rest : Local (onward ())) :
    Local (if condition then onward () else throw trap >>= onward) :=
  Local.ite rest (Local.bind (local_throw trap) fun _ => rest)

/-- A check lets the rest run unless it traps. -/
theorem Local.refuse {condition : Prop} [Decidable condition] {trap : Trap}
    {onward : Unit → Execution α} (rest : Local (onward ())) :
    Local (if condition then throw trap >>= onward else onward ()) :=
  Local.ite (Local.bind (local_throw trap) fun _ => rest) rest

/-- A computation is local. -/
theorem local_ofExcept (result : Except Trap α) : Local (Execution.ofExcept result) := by
  cases result with
  | ok value => exact local_pure value
  | error trap => exact local_throw trap

/-! ## Operands and variables -/

/-- Replacing the operands is local. -/
theorem local_setStack (stack : OperandStack) : Local (setStack stack) :=
  local_modify (fun _ _ _ => rfl) fun _ => rfl

/-- So is taking an operand. -/
theorem local_pop : Local pop := by
  refine Local.read (fun running => ?_) fun _ _ _ => rfl
  split
  · exact local_throw _
  · exact Local.bind (local_setStack _) fun _ => local_pure _

/-- So is taking a 32-bit integer. -/
theorem local_popI32 : Local popI32 :=
  Local.bind local_pop fun _ => local_ofExcept _

/-- So is adding an operand. -/
theorem local_push (bounds : Bounds) (value : Value) : Local (push bounds value) :=
  Local.read (fun _ => Local.ite (local_setStack _) (local_throw _)) fun _ _ _ => rfl

/-- Reading a variable is local. -/
theorem local_valueAt (values : Array Value) (index : Nat) : Local (valueAt values index) := by
  unfold valueAt
  split
  · exact local_pure _
  · exact local_throw _

/-- So is the check before one is replaced. -/
theorem local_checkReplace (values : Array Value) (index : Nat) (value : Value) :
    Local (checkReplace values index value) :=
  Local.bind (local_valueAt values index) fun _ => Local.check (local_pure ())

/-- So is storing into a slot. -/
theorem local_storeSlot (index : Nat) : Local (storeSlot index) :=
  Local.bind local_pop fun _ => Local.read
    (fun _ => Local.bind (local_checkReplace _ _ _) fun _ =>
      local_modify (fun _ _ _ => rfl) fun _ => rfl)
    fun _ _ _ => rfl

/-- So is storing into a global. -/
theorem local_storeGlobal (index : Nat) : Local (storeGlobal index) :=
  Local.bind local_pop fun _ => Local.read
    (fun _ => Local.bind (local_checkReplace _ _ _) fun _ =>
      local_modify (fun _ _ _ => rfl) fun _ => rfl)
    fun _ _ _ => rfl

/-- Removing operands below the kept ones is local. -/
theorem local_unwind (drop keep : Nat) : Local (unwind drop keep) := by
  refine Local.read (fun running => ?_) fun _ _ _ => rfl
  dsimp only
  split
  · exact local_setStack _
  · exact local_throw _

/-! ## Memory -/

/-- Storing into memory is local. -/
theorem local_storeMemory (accessor : Accessor) (offset : Nat) :
    Local (storeMemory accessor offset) := by
  refine Local.bind local_pop fun value => Local.bind local_popI32 fun address =>
    Local.read (fun running => ?_) fun _ _ _ => rfl
  split
  · exact local_throw _
  · exact local_modify (fun _ _ _ => rfl) fun _ => rfl

/-- So is loading from it. -/
theorem local_loadMemory (bounds : Bounds) (accessor : Accessor) (offset : Nat) :
    Local (loadMemory bounds accessor offset) :=
  Local.bind local_popI32 fun _ => Local.read
    (fun _ => Local.bind (local_ofExcept _) fun _ => local_push bounds _) fun _ _ _ => rfl

/-- So is growing it. -/
theorem local_growMemory (bounds : Bounds) : Local (growMemory bounds) :=
  Local.bind local_popI32 fun _ => Local.read
    (fun _ => Local.ite
      (Local.bind (local_modify (fun _ _ _ => rfl) fun _ => rfl) fun _ => local_push bounds _)
      (local_push bounds _))
    fun _ _ _ => rfl

/-! ## Operations -/

/-- A computation on two operands is local. -/
theorem local_applyBinary (bounds : Bounds) (computation : Value → Value → Except Trap Value) :
    Local (applyBinary bounds computation) :=
  Local.bind local_pop fun _ => Local.bind local_pop fun _ =>
    Local.bind (local_ofExcept _) fun _ => local_push bounds _

/-- So is one on a single operand. -/
theorem local_applyUnary (bounds : Bounds) (computation : Value → Except Trap Value) :
    Local (applyUnary bounds computation) :=
  Local.bind local_pop fun _ => Local.bind (local_ofExcept _) fun _ => local_push bounds _

end WasmCompiler.Machine

namespace WasmCompiler.Bytecode.Op

/-- Whether an operation neither branches nor calls nor returns. -/
def isStraight {Target : Type} : Op Target → Bool
  | .jump _ | .jumpIf _ | .jumpUnless _ | .switch _ _ | .call _ | .callIndirect _ | .ret => false
  | _ => true

/-- Computations neither branch nor call nor return. -/
theorem isStraight_of_isComputation {Target : Type} {op : Op Target}
    (computes : op.isComputation = true) : op.isStraight = true := by
  cases op <;> first | rfl | cases computes

end WasmCompiler.Bytecode.Op

namespace WasmCompiler.Machine

open Bytecode (Op)
open Execution

/-- **Operations that neither branch nor call nor return** do not depend on the place. -/
theorem local_effect (bounds : Bounds) {op : Op Nat} (straight : op.isStraight = true) :
    Local (effect bounds op) := by
  cases op with
  | loadArg index =>
      exact Local.read (fun _ => Local.bind (local_valueAt _ _) fun _ => local_push bounds _)
        fun _ _ _ => rfl
  | storeArg index => exact local_storeSlot index
  | loadLocal index =>
      exact Local.read (fun _ => Local.bind (local_valueAt _ _) fun _ => local_push bounds _)
        fun _ _ _ => rfl
  | storeLocal index => exact Local.read (fun _ => local_storeSlot _) fun _ _ _ => rfl
  | loadGlobal index =>
      exact Local.read (fun _ => Local.bind (local_valueAt _ _) fun _ => local_push bounds _)
        fun _ _ _ => rfl
  | storeGlobal index => exact local_storeGlobal index
  | const value => exact local_push bounds value
  | pop => exact Local.bind local_pop fun _ => local_pure ()
  | select =>
      exact Local.bind local_popI32 fun _ => Local.bind local_pop fun _ =>
        Local.bind local_pop fun _ => local_push bounds _
  | compare op => exact local_applyBinary bounds _
  | arith op =>
      cases op <;> first | exact local_applyBinary bounds _ | exact local_applyUnary bounds _
  | convert op => exact local_applyUnary bounds _
  | intrinsic op => exact Local.ite (local_applyBinary bounds _) (local_applyUnary bounds _)
  | unwind drop keep => exact local_unwind drop keep
  | access accessor offset =>
      exact Local.ite (local_storeMemory accessor offset) (local_loadMemory bounds accessor offset)
  | currentMemory => exact Local.read (fun _ => local_push bounds _) fun _ _ _ => rfl
  | growMemory => exact local_growMemory bounds
  | trap => exact local_throw _
  | jump | jumpIf | jumpUnless | switch | call | callIndirect | ret => cases straight

/-- Such operations one after the other do not depend on the place. -/
theorem local_effects (bounds : Bounds) {ops : List (Op Nat)}
    (straight : ∀ op ∈ ops, op.isStraight = true) : Local (ops.forM (effect bounds)) := by
  induction ops with
  | nil => exact local_pure _
  | cons op rest restInduction =>
      exact Local.bind (local_effect bounds (straight op List.mem_cons_self)) fun _ =>
        restInduction fun other member => straight other (List.mem_cons_of_mem _ member)

/-! ## Calls and results -/

/-- Checking arguments is local. -/
theorem local_checkArguments (params : List ValueType) (arguments : List Value) :
    Local (checkArguments params arguments) := by
  induction params generalizing arguments with
  | nil => exact local_pure ()
  | cons param params paramsInduction =>
      cases arguments with
      | nil => exact local_pure ()
      | cons argument arguments => exact Local.check (paramsInduction arguments)

/-- So is taking them from the operands. -/
theorem local_takeArguments (signature : Signature) : Local (takeArguments signature) :=
  Local.read
    (fun _ => Local.refuse (Local.bind (local_setStack _) fun _ =>
      Local.bind (local_checkArguments _ _) fun _ => local_pure _))
    fun _ _ _ => rfl

/-- Reading an entry of the table is local. -/
theorem local_tableEntry (slot : Nat) : Local (tableEntry slot) := by
  refine Local.read (fun running => ?_) fun _ _ _ => rfl
  split
  · exact local_throw _
  · exact local_throw _
  · exact local_pure _

/-- Taking the result of a function is local. -/
theorem local_takeResult : Local takeResult := by
  refine Local.read (fun running => ?_) fun _ _ _ => rfl
  split
  · exact local_pure _
  · exact Local.bind local_pop fun value => Local.check (local_pure _)

/-- So is handing a result to the caller. -/
theorem local_give (bounds : Bounds) (result : Option Value) : Local (give bounds result) := by
  cases result with
  | none => exact local_pure ()
  | some value => exact local_push bounds value

end WasmCompiler.Machine

namespace WasmCompiler

open Machine
open Machine.Execution

variable (program : Program)

/-- What comes before a direct call is local. -/
theorem Program.local_direct (function : Nat) : Local (program.direct function) := by
  unfold Program.direct
  split
  · exact local_throw _
  · exact Local.bind (local_takeArguments _) fun _ => local_pure _

/-- So is what comes before an indirect one. -/
theorem Program.local_indirect (typeIndex : Nat) : Local (program.indirect typeIndex) := by
  unfold Program.indirect
  split
  · exact local_throw _
  · exact Local.bind local_popI32 fun _ => Local.bind (local_tableEntry _) fun _ =>
      Local.ite (Local.bind (local_takeArguments _) fun _ => local_pure _) (local_throw _)

/-- Choosing where a branch goes is local. -/
theorem Jump.local_choose {depth : Nat} (leap : Jump depth) : Local leap.choose := by
  cases leap with
  | always level => exact local_pure _
  | ifTrue level => exact Local.bind local_popI32 fun _ => local_pure _
  | table levels fallback => exact Local.bind local_popI32 fun _ => local_pure _

end WasmCompiler
