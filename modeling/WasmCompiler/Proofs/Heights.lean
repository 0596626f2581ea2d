import WasmCompiler.Proofs.Balance
import WasmCompiler.Proofs.Locality
import WasmCompiler.Proofs.Operands

/-! # Numbers of operands

How an action changes the number of operands, if it does not trap. For every instruction this is
what its balance says.

* **`Shifts`** — an action takes some operands and leaves others;
* **`PlainInstruction.shifts_effect`** — instructions exchange operands as their balance says. -/

namespace WasmCompiler.Machine

open Bytecode (Op)
open Stateful
open Execution

variable {α β : Type}

/-- **Whether an action takes and leaves operands in these numbers**, or traps. -/
def Shifts (takes leaves : Nat) (action : Execution α) : Prop :=
  ∀ (running later : Running) (value : α), action running = .ok value later →
    later.height + takes = running.height + leaves

/-! ## Building actions -/

/-- Giving a value takes and leaves nothing. -/
theorem shifts_pure (value : α) : Shifts 0 0 (pure value) := by
  intro running later result equation
  cases equation
  rfl

/-- An action that traps takes and leaves any numbers, since it does not go on. -/
theorem shifts_throw (takes leaves : Nat) (trap : Trap) :
    Shifts takes leaves (throw trap : Execution α) := by
  intro running later result equation
  cases equation

/-- Actions in a row take and leave the sums. -/
theorem Shifts.bind {takes leaves moreTakes moreLeaves : Nat} {first : Execution α}
    {second : α → Execution β} (start : Shifts takes leaves first)
    (onward : ∀ value, Shifts moreTakes moreLeaves (second value)) :
    Shifts (takes + moreTakes) (leaves + moreLeaves) (first >>= second) := by
  intro running later result equation
  obtain ⟨value, middle, firstEquation, equation⟩ := bind_eq_ok.mp equation
  have before := start running middle value firstEquation
  have after := onward value middle later result equation
  omega

/-- An action may look at the state that it starts in. -/
theorem Shifts.read {takes leaves : Nat} {action : Running → Execution α}
    (each : ∀ running, Shifts takes leaves (action running)) :
    Shifts takes leaves (get >>= action) := by
  intro running later result equation
  obtain ⟨value, middle, firstEquation, equation⟩ := bind_eq_ok.mp equation
  cases firstEquation
  exact each running running later result equation

/-- A change that leaves the number of operands takes and leaves nothing. -/
theorem shifts_modify {change : Running → Running}
    (same : ∀ running, (change running).height = running.height) :
    Shifts 0 0 (modify change : Execution Unit) := by
  intro running later result equation
  cases equation
  exact same running

/-- A choice takes and leaves what both sides do. -/
theorem Shifts.ite {takes leaves : Nat} {condition : Prop} [Decidable condition]
    {first second : Execution α} (positive : Shifts takes leaves first)
    (negative : Shifts takes leaves second) :
    Shifts takes leaves (if condition then first else second) := by
  by_cases holds : condition
  · rw [if_pos holds]
    exact positive
  · rw [if_neg holds]
    exact negative

/-- A check lets the rest run or traps. -/
theorem Shifts.check {takes leaves : Nat} {condition : Prop} [Decidable condition] {trap : Trap}
    {onward : Unit → Execution α} (rest : Shifts takes leaves (onward ())) :
    Shifts takes leaves (if condition then onward () else throw trap >>= onward) := by
  refine Shifts.ite rest fun running later value equation => ?_
  cases equation

/-- Only the difference of the two numbers matters. -/
theorem Shifts.mono {takes leaves moreTakes moreLeaves : Nat} {action : Execution α}
    (shifts : Shifts takes leaves action) (same : takes + moreLeaves = leaves + moreTakes) :
    Shifts moreTakes moreLeaves action := by
  intro running later result equation
  have := shifts running later result equation
  omega

/-- Going on after a computation takes and leaves nothing. -/
theorem shifts_ofExcept (result : Except Trap α) : Shifts 0 0 (Execution.ofExcept result) := by
  cases result with
  | ok value => exact shifts_pure value
  | error trap => exact shifts_throw 0 0 trap

/-! ## Operands and variables -/

/-- Taking an operand takes one. -/
theorem shifts_pop : Shifts 1 0 pop := by
  intro running later value equation
  rw [pop_apply] at equation
  split at equation
  · cases equation
  · next same =>
      cases equation
      rw [Running.height_eq running, same]
      rfl

/-- So does taking a 32-bit integer. -/
theorem shifts_popI32 : Shifts 1 0 popI32 :=
  shifts_pop.bind fun _ => shifts_ofExcept _

/-- Adding an operand leaves one. -/
theorem shifts_push (bounds : Bounds) (value : Value) : Shifts 0 1 (push bounds value) := by
  intro running later result equation
  rw [push_apply] at equation
  split at equation
  · cases equation
    rw [Running.height_eq running]
    rfl
  · cases equation

/-- Reading a variable takes and leaves nothing. -/
theorem shifts_valueAt (values : Array Value) (index : Nat) :
    Shifts 0 0 (valueAt values index) := by
  unfold valueAt
  split
  · exact shifts_pure _
  · exact shifts_throw 0 0 _

/-- Nor does a check before a replacement. -/
theorem shifts_checkReplace (values : Array Value) (index : Nat) (value : Value) :
    Shifts 0 0 (checkReplace values index value) :=
  (shifts_valueAt values index).bind fun _ =>
    Shifts.check (shifts_pure ())

/-- Replacing an argument or a local takes its new value. -/
theorem shifts_storeSlot (index : Nat) : Shifts 1 0 (storeSlot index) :=
  Shifts.mono (shifts_pop.bind fun _ => Shifts.read fun _ =>
    (shifts_checkReplace _ _ _).bind fun _ => shifts_modify fun _ => rfl) rfl

/-- So does replacing a global. -/
theorem shifts_storeGlobal (index : Nat) : Shifts 1 0 (storeGlobal index) :=
  Shifts.mono (shifts_pop.bind fun _ => Shifts.read fun _ =>
    (shifts_checkReplace _ _ _).bind fun _ => shifts_modify fun _ => rfl) rfl

/-- Reading a variable leaves its value. -/
theorem shifts_load (bounds : Bounds) (values : Array Value) (index : Nat) :
    Shifts 0 1 (do push bounds (← valueAt values index) : Execution Unit) :=
  (shifts_valueAt values index).bind fun value => shifts_push bounds value

/-! ## Memory -/

/-- Storing to memory takes the value and the address. -/
theorem shifts_storeMemory (accessor : Accessor) (offset : Nat) :
    Shifts 2 0 (storeMemory accessor offset) := by
  refine Shifts.mono (shifts_pop.bind fun value => shifts_popI32.bind fun address =>
    Shifts.read fun running => (?_ : Shifts 0 0 _)) rfl
  split
  · exact shifts_throw 0 0 _
  · exact shifts_modify fun _ => rfl

/-- Loading from memory takes the address and leaves the value. -/
theorem shifts_loadMemory (bounds : Bounds) (accessor : Accessor) (offset : Nat) :
    Shifts 1 1 (loadMemory bounds accessor offset) :=
  Shifts.mono (shifts_popI32.bind fun _ => Shifts.read fun _ =>
    (shifts_ofExcept _).bind fun value => shifts_push bounds value) rfl

/-- Adding pages takes their number and leaves the one before. -/
theorem shifts_growMemory (bounds : Bounds) : Shifts 1 1 (growMemory bounds) := by
  have grows : ∀ delta : BitVec 32, Shifts 0 1 (do
      let memory := (← get).store.memory
      if memory.canGrow delta.toNat then
        modify fun running =>
          { running with
            store := { running.store with memory := running.store.memory.extend delta.toNat } }
        push bounds (.i32 (BitVec.ofNat 32 memory.pages))
      else push bounds (.i32 (-1)) : Execution Unit) := by
    intro delta
    refine Shifts.read fun running => Shifts.ite ?_ (shifts_push bounds _)
    refine Shifts.mono (Shifts.bind (shifts_modify ?_) fun _ => shifts_push bounds _) rfl
    exact fun _ => rfl
  exact shifts_popI32.bind fun delta => grows delta

/-! ## Computations -/

/-- A computation on two operands takes both and leaves its result. -/
theorem shifts_applyBinary (bounds : Bounds) (computation : Value → Value → Except Trap Value) :
    Shifts 2 1 (applyBinary bounds computation) :=
  Shifts.mono (shifts_pop.bind fun _ => shifts_pop.bind fun _ =>
    (shifts_ofExcept _).bind fun value => shifts_push bounds value) rfl

/-- A computation on one operand takes it and leaves its result. -/
theorem shifts_applyUnary (bounds : Bounds) (computation : Value → Except Trap Value) :
    Shifts 1 1 (applyUnary bounds computation) :=
  Shifts.mono (shifts_pop.bind fun _ => (shifts_ofExcept _).bind fun value =>
    shifts_push bounds value) rfl

end WasmCompiler.Machine

namespace WasmCompiler.Bytecode.Op

/-- The numbers of operands that an operation takes and leaves that neither branches nor calls. -/
def exchange {Target : Type} : Op Target → Nat × Nat
  | .loadArg _ | .loadLocal _ | .loadGlobal _ | .const _ | .currentMemory => (0, 1)
  | .storeArg _ | .storeLocal _ | .storeGlobal _ | .pop => (1, 0)
  | .select => (3, 1)
  | .compare _ => (2, 1)
  | .arith .neg | .convert _ | .growMemory => (1, 1)
  | .arith _ => (2, 1)
  | .intrinsic op => if Machine.isBinary op then (2, 1) else (1, 1)
  | .unwind drop _ => (drop, 0)
  | .access accessor _ => if accessor.isStore then (2, 0) else (1, 1)
  | _ => (0, 0)

/-- The numbers of operands that operations take and leave one after the other. -/
def exchanges {Target : Type} : List (Op Target) → Nat × Nat
  | [] => (0, 0)
  | op :: rest => (op.exchange.1 + (exchanges rest).1, op.exchange.2 + (exchanges rest).2)

end WasmCompiler.Bytecode.Op

namespace WasmCompiler.Machine

open Bytecode (Op)
open Stateful
open Execution

/-! ## Operations -/

/-- Removing operands takes those that are removed. -/
theorem shifts_unwind (drop keep : Nat) : Shifts drop 0 (unwind drop keep) := by
  intro running later result equation
  rw [unwind, bind_of_ok _ (get_apply _)] at equation
  split at equation
  · next fits =>
      cases equation
      show running.activation.stack.height - drop + drop = running.activation.stack.height + 0
      omega
  · cases equation

/-- **Operations that neither branch nor call** exchange operands in their numbers. -/
theorem shifts_effect (bounds : Bounds) {op : Op Nat} (straight : op.isStraight = true) :
    Shifts op.exchange.1 op.exchange.2 (effect bounds op) := by
  cases op with
  | loadArg index | loadLocal index | loadGlobal index =>
      exact Shifts.read fun _ => shifts_load bounds _ _
  | storeArg index => exact shifts_storeSlot index
  | storeLocal index => exact Shifts.read fun _ => shifts_storeSlot _
  | storeGlobal index => exact shifts_storeGlobal index
  | const value => exact shifts_push bounds value
  | pop => exact shifts_pop.bind fun _ => shifts_pure ()
  | select =>
      exact Shifts.mono (shifts_popI32.bind fun _ => shifts_pop.bind fun _ =>
        shifts_pop.bind fun _ => shifts_push bounds _) rfl
  | compare op => exact shifts_applyBinary bounds _
  | arith op =>
      cases op <;> first | exact shifts_applyBinary bounds _ | exact shifts_applyUnary bounds _
  | convert op => exact shifts_applyUnary bounds _
  | intrinsic op =>
      simp only [Op.exchange, effect]
      split
      · exact shifts_applyBinary bounds _
      · exact shifts_applyUnary bounds _
  | unwind drop keep => exact shifts_unwind drop keep
  | access accessor offset =>
      simp only [Op.exchange, effect]
      split
      · exact shifts_storeMemory accessor offset
      · exact shifts_loadMemory bounds accessor offset
  | currentMemory => exact Shifts.read fun _ => shifts_push bounds _
  | growMemory => exact shifts_growMemory bounds
  | trap => exact shifts_throw 0 0 _
  | jump | jumpIf | jumpUnless | switch | call | callIndirect | ret => cases straight

/-- Such operations one after the other. -/
theorem shifts_effects (bounds : Bounds) {ops : List (Op Nat)}
    (straight : ∀ op ∈ ops, op.isStraight = true) :
    Shifts (Op.exchanges ops).1 (Op.exchanges ops).2 (ops.forM (effect bounds)) := by
  induction ops with
  | nil => exact shifts_pure _
  | cons op rest restInduction =>
      exact Shifts.bind (shifts_effect bounds (straight op List.mem_cons_self)) fun _ =>
        restInduction fun other member => straight other (List.mem_cons_of_mem _ member)

end WasmCompiler.Machine

/-! ## Instructions -/

namespace WasmCompiler

open Bytecode (Op)
open Machine
open Machine.Execution

section

variable {Target : Type}

/-- The operations of a comparison of integers take one operand more than they leave. -/
theorem IntComparison.exchanges_lower (op : IntComparison) :
    (Op.exchanges (op.lower : List (Op Target))).1 + 1 =
      (Op.exchanges (op.lower : List (Op Target))).2 + 2 := by
  rcases op with _ | _ | signedness | signedness | signedness | signedness <;>
    first | rfl | cases signedness <;> rfl

/-- So do those of a binary operation on integers. -/
theorem IntBinary.exchanges_lower (type : IntType) (op : IntBinary) :
    (Op.exchanges (op.lower type : List (Op Target))).1 + 1 =
      (Op.exchanges (op.lower type : List (Op Target))).2 + 2 := by
  cases type <;>
    rcases op with _ | _ | _ | signedness | signedness | _ | _ | _ | _ | signedness | _ | _ <;>
    first | rfl | cases signedness <;> rfl

/-- Those of a conversion leave as many as they take. -/
theorem NumericConversion.exchanges_lower (op : NumericConversion) :
    (Op.exchanges (op.lower : List (Op Target))).1 + 1 =
      (Op.exchanges (op.lower : List (Op Target))).2 + 1 := by
  cases op with
  | truncate target source signedness => cases target <;> cases signedness <;> rfl
  | extend signedness => cases signedness <;> rfl
  | convert target source signedness => cases target <;> cases signedness <;> rfl
  | _ => rfl

/-- Numeric operations take their operands and leave one result. -/
theorem NumericOp.exchanges_lower (operation : NumericOp) :
    (Op.exchanges (operation.lower : List (Op Target))).1 + 1 =
      (Op.exchanges (operation.lower : List (Op Target))).2 + operation.operandCount := by
  cases operation with
  | eqz type => rfl
  | intCompare type op => exact op.exchanges_lower
  | floatCompare type op => cases op <;> rfl
  | intUnary type op => cases op <;> rfl
  | intBinary type op => exact op.exchanges_lower type
  | floatUnary type op => cases op <;> rfl
  | floatBinary type op => cases op <;> rfl
  | conversion op => exact op.exchanges_lower

/-- Numeric operations become operations that neither branch nor call. -/
theorem NumericOp.isStraight_of_mem_lower {operation : NumericOp} {op : Op Target}
    (member : op ∈ operation.lower) : op.isStraight = true :=
  Op.isStraight_of_isComputation (operation.isComputation_of_mem_lower member)

end

namespace PlainInstruction

/-- Whether an instruction neither calls nor returns. -/
def isStraight : PlainInstruction → Bool
  | .ret | .call _ | .callIndirect _ => false
  | _ => true

/-- **Instructions that neither call nor return** exchange operands as their balance says. -/
theorem shifts_effect (module : Module) (results : Nat) (bounds : Bounds)
    {instruction : PlainInstruction} (straight : instruction.isStraight = true) :
    Shifts (instruction.exchange module results).1 (instruction.exchange module results).2
      (instruction.effect bounds) := by
  cases instruction with
  | unreachable => exact shifts_throw 0 0 _
  | nop => exact shifts_pure ()
  | drop => exact shifts_pop.bind fun _ => shifts_pure ()
  | select =>
      exact Shifts.mono (shifts_popI32.bind fun _ => shifts_pop.bind fun _ =>
        shifts_pop.bind fun _ => shifts_push bounds _) rfl
  | getLocal index | getGlobal index => exact Shifts.read fun _ => shifts_load bounds _ _
  | setLocal index => exact shifts_storeSlot index.toNat
  | teeLocal index =>
      exact (shifts_storeSlot index.toNat).bind fun _ => Shifts.read fun _ => shifts_load bounds _ _
  | setGlobal index => exact shifts_storeGlobal index.toNat
  | access accessor alignment offset =>
      simp only [exchange, effect]
      split
      · exact shifts_storeMemory accessor offset.toNat
      · exact shifts_loadMemory bounds accessor offset.toNat
  | currentMemory => exact Shifts.read fun _ => shifts_push bounds _
  | growMemory => exact shifts_growMemory bounds
  | const value => exact shifts_push bounds value
  | numeric operation =>
      refine (shifts_effects bounds fun op => NumericOp.isStraight_of_mem_lower).mono ?_
      exact operation.exchanges_lower
  | ret | call | callIndirect => cases straight

end PlainInstruction

/-! ## Calls -/

/-- Checking arguments takes and leaves nothing. -/
theorem shifts_checkArguments (params : List ValueType) (arguments : List Value) :
    Shifts 0 0 (checkArguments params arguments) := by
  induction params generalizing arguments with
  | nil => exact shifts_pure ()
  | cons param params paramsInduction =>
      cases arguments with
      | nil => exact shifts_pure ()
      | cons argument arguments => exact Shifts.check (paramsInduction arguments)

/-- Taking arguments takes as many as there are parameters. -/
theorem shifts_takeArguments (signature : Signature) :
    Shifts signature.params.length 0 (takeArguments signature) := by
  intro running later arguments equation
  rw [takeArguments_apply] at equation
  split at equation
  · cases equation
  · next enough =>
      have checks : Shifts 0 0 (checkArguments signature.params
          (running.values.take signature.params.length).reverse >>= fun _ =>
        pure (running.values.take signature.params.length).reverse) :=
        (shifts_checkArguments _ _).bind fun _ => shifts_pure _
      have after := checks _ later arguments equation
      rw [Running.height_withValues, List.length_drop, ← Running.height_eq] at after
      omega

/-- Looking into the table takes and leaves nothing. -/
theorem shifts_tableEntry (slot : Nat) : Shifts 0 0 (tableEntry slot) := by
  refine Shifts.read fun running => ?_
  split
  · exact shifts_throw 0 0 _
  · exact shifts_throw 0 0 _
  · exact shifts_pure _

/-- Giving a result leaves it, if there is one. -/
theorem shifts_give (bounds : Bounds) (result : Option Value) :
    Shifts 0 result.toList.length (give bounds result) := by
  cases result with
  | none => exact shifts_pure ()
  | some value => exact shifts_push bounds value

namespace Program

variable (program : Program)

/-- A direct call takes its arguments. -/
theorem shifts_direct {function : Nat} {signature : Signature}
    (found : program.module.signature? function = some signature) :
    Shifts signature.params.length 0 (program.direct function) := by
  unfold Program.direct
  rw [found]
  exact (shifts_takeArguments signature).bind fun _ => shifts_pure _

/-- A call through the table takes its arguments and the slot. -/
theorem shifts_indirect {typeIndex : Nat} {signature : Signature}
    (found : program.module.types[typeIndex]? = some signature) :
    Shifts (signature.params.length + 1) 0 (program.indirect typeIndex) := by
  unfold Program.indirect
  rw [found]
  have takes : ∀ function : Nat, Shifts signature.params.length 0
      (do return (function, ← takeArguments signature) : Execution (Nat × List Value)) :=
    fun function => (shifts_takeArguments signature).bind fun _ => shifts_pure _
  refine Shifts.mono (shifts_popI32.bind fun slot => (shifts_tableEntry slot.toNat).bind
    fun function => Shifts.ite (takes function) (shifts_throw _ _ _)) ?_
  omega

end Program

end WasmCompiler
