import WasmCompiler.Bytecode.Assembly
import WasmCompiler.Machine.Memory
import WasmCompiler.Machine.Numeric
import WasmCompiler.Machine.OperandStack

/-! # Activations

One call of a function while it runs, and the effect of its operations on it and on the store that
all calls share. Operations that call or return only say so: what follows is up to the machine. -/

namespace WasmCompiler.Machine

open Bytecode (Assembly Function Op)

/-- The resources that an instance may use. -/
structure Bounds where
  /-- The greatest number of activations at once. -/
  maxCallDepth : Nat := 1024
  /-- The greatest number of operands of one activation. -/
  maxValueStack : Nat := 1048576
  /-- The greatest table that an instance may have. -/
  maxTableSize : Nat := 1048576
  deriving DecidableEq

/-- What all activations share. -/
structure Store where
  /-- The memory. -/
  memory : Memory
  /-- The values of the globals. -/
  globals : Array Value := #[]
  /-- The function in each slot of the table. -/
  table : Array (Option Nat) := #[]
  /-- The count of activations. -/
  depth : Nat := 0
  deriving DecidableEq

namespace Store

/-- The store after a call has counted its activation. -/
def countUp (store : Store) : Store :=
  { store with depth := store.depth + 1 }

/-- The store after a call has taken its activation off the count again. The count is not zero
before that, since a call takes off what it has counted. -/
def countDown (store : Store) : Store :=
  { store with depth := store.depth - 1 }

end Store

/-- One call of a function. -/
structure Activation where
  /-- The function. -/
  function : Function
  /-- The count of activations when it was entered, itself included. -/
  depth : Nat
  /-- The position of the next operation. -/
  position : Nat
  /-- The arguments, followed by the locals. -/
  slots : Array Value
  /-- The operands. -/
  stack : OperandStack

/-- The innermost activation with the store. -/
structure Running where
  /-- The activation. -/
  activation : Activation
  /-- The store. -/
  store : Store

/-- A part of the execution of an operation. A trap keeps the store. -/
abbrev Execution := EStateM Trap Running

/-- What an operation asks of the machine. -/
inductive Signal where
  /-- To go on with the next operation. -/
  | next
  /-- To call a function that has the signature and arguments of its types. -/
  | call (function : Nat) (arguments : List Value)
  /-- To return to the caller. -/
  | done (result : Option Value)

namespace Execution

variable (assembly : Assembly) (bounds : Bounds)

/-! ## Operands -/

/-- Goes on unless a computation trapped. -/
def ofExcept {α : Type} : Except Trap α → Execution α
  | .ok value => pure value
  | .error trap => throw trap

/-- Changes the operands. -/
def setStack (stack : OperandStack) : Execution Unit :=
  modify fun running => { running with activation := { running.activation with stack := stack } }

/-- Takes the top operand. -/
def pop : Execution Value := do
  match (← get).activation.stack.pop? with
  | none => throw .stackUnderflow
  | some (value, stack) =>
      setStack stack
      return value

/-- Takes the top operand, which has to be a 32-bit integer. -/
def popI32 : Execution (BitVec 32) := do
  ofExcept (expectI32 (← pop))

/-- Adds an operand, unless there are too many. -/
def push (value : Value) : Execution Unit := do
  let activation := (← get).activation
  if activation.stack.height < bounds.maxValueStack then setStack (activation.stack.push value)
  else throw (.callStackExhausted activation.depth)

/-! ## Variables -/

/-- The value at an index of some variables. -/
def valueAt (values : Array Value) (index : Nat) : Execution Value :=
  match values[index]? with
  | some value => return value
  | none => throw .stackUnderflow

/-- Checks that a value may replace the one at an index: a variable keeps its type. -/
def checkReplace (values : Array Value) (index : Nat) (value : Value) : Execution Unit := do
  let current ← valueAt values index
  unless current.type = value.type do throw (.typeMismatch current.type)

/-- Replaces an argument or a local by the top operand. -/
def storeSlot (index : Nat) : Execution Unit := do
  let value ← pop
  checkReplace (← get).activation.slots index value
  modify fun running =>
    { running with
      activation :=
        { running.activation with slots := running.activation.slots.setIfInBounds index value } }

/-- Replaces a global by the top operand. -/
def storeGlobal (index : Nat) : Execution Unit := do
  let value ← pop
  checkReplace (← get).store.globals index value
  modify fun running =>
    { running with
      store := { running.store with globals := running.store.globals.setIfInBounds index value } }

/-! ## Control -/

/-- Goes to a position. -/
def jump (target : Nat) : Execution Unit :=
  modify fun running =>
    { running with activation := { running.activation with position := target } }

/-- Removes operands from beneath the top ones. -/
def unwind (drop keep : Nat) : Execution Unit := do
  let stack := (← get).activation.stack
  if fits : drop + keep ≤ stack.height then setStack (stack.unwind drop keep fits)
  else throw .stackUnderflow

/-- Checks arguments against the types of parameters. -/
def checkArguments : (params : List ValueType) → (arguments : List Value) → Execution Unit
  | param :: params, argument :: arguments => do
      unless argument.type = param do throw (.typeMismatch param)
      checkArguments params arguments
  | _, _ => return

/-- Takes the arguments of a call from the operands. -/
def prepareCall (function : Nat) (signature : Signature) : Execution Signal := do
  let stack := (← get).activation.stack
  let count := signature.params.length
  if stack.height < count then throw .stackUnderflow
  let arguments := stack.top count
  setStack (stack.drop count)
  checkArguments signature.params arguments
  return .call function arguments

/-- The function in a slot of the table. -/
def tableEntry (slot : Nat) : Execution Nat := do
  match (← get).store.table[slot]? with
  | none => throw (.undefinedElement slot)
  | some none => throw (.uninitializedElement slot)
  | some (some function) => return function

/-- Calls the function in the table slot that the top operand names. -/
def prepareIndirectCall (typeIndex : Nat) : Execution Signal := do
  match assembly.types[typeIndex]? with
  | none => throw (.undefinedElement typeIndex)
  | some expected =>
      let slot := (← popI32).toNat
      let function ← tableEntry slot
      if assembly.signature? function = some expected then prepareCall function expected
      else throw (.indirectCallTypeMismatch slot expected)

/-- Takes the result of the function from the operands. -/
def finish : Execution Signal := do
  match (← get).activation.function.signature.result? with
  | none => return .done none
  | some type =>
      let value ← pop
      unless value.type = type do throw (.typeMismatch type)
      return .done (some value)

/-! ## Memory -/

/-- Stores the top operand to memory at the address beneath it. -/
def storeMemory (accessor : Accessor) (offset : Nat) : Execution Unit := do
  let value ← pop
  let address := (← popI32).toNat
  match (← get).store.memory.storeTrap? accessor address offset value with
  | some trap => throw trap
  | none =>
      modify fun running =>
        { running with
          store :=
            { running.store with
              memory := running.store.memory.stored accessor address offset value } }

/-- Loads an operand from memory at the address on top. -/
def loadMemory (accessor : Accessor) (offset : Nat) : Execution Unit := do
  let address := (← popI32).toNat
  push bounds (← ofExcept ((← get).store.memory.load accessor address offset))

/-- Adds as many pages as the top operand says. -/
def growMemory : Execution Unit := do
  let delta := (← popI32).toNat
  let memory := (← get).store.memory
  if memory.canGrow delta then
    modify fun running =>
      { running with
        store := { running.store with memory := running.store.memory.extend delta } }
    push bounds (.i32 (BitVec.ofNat 32 memory.pages))
  else push bounds (.i32 (-1))

/-! ## Operations -/

/-- Takes two operands and adds the result of a computation on them. -/
def applyBinary (computation : Value → Value → Except Trap Value) : Execution Unit := do
  let right ← pop
  let left ← pop
  push bounds (← ofExcept (computation left right))

/-- Takes an operand and adds the result of a computation on it. -/
def applyUnary (computation : Value → Except Trap Value) : Execution Unit := do
  push bounds (← ofExcept (computation (← pop)))

/-- Executes an operation that neither calls nor returns. -/
def effect : Op Nat → Execution Unit
  | .loadArg index => do push bounds (← valueAt (← get).activation.slots index)
  | .storeArg index => storeSlot index
  | .loadLocal index => do
      let activation := (← get).activation
      push bounds
        (← valueAt activation.slots (activation.function.signature.params.length + index))
  | .storeLocal index => do
      storeSlot ((← get).activation.function.signature.params.length + index)
  | .loadGlobal index => do push bounds (← valueAt (← get).store.globals index)
  | .storeGlobal index => storeGlobal index
  | .const value => push bounds value
  | .pop => do
      let _ ← pop
  | .select => do
      let condition ← popI32
      let second ← pop
      let first ← pop
      push bounds (if condition ≠ 0 then first else second)
  | .compare op => applyBinary bounds (compare op)
  | .arith .neg => applyUnary bounds fun value => .ok (negate value)
  | .arith op => applyBinary bounds (arith op)
  | .convert op => applyUnary bounds (convert op)
  | .intrinsic op =>
      if isBinary op then applyBinary bounds (binary op) else applyUnary bounds (unary op)
  | .jump target => jump target
  | .jumpIf target => do if (← popI32) ≠ 0 then jump target
  | .jumpUnless target => do if (← popI32) = 0 then jump target
  | .switch targets fallback => do
      let selector := (← popI32).toNat
      jump (targets[selector]?.getD fallback)
  | .unwind drop keep => unwind drop keep
  | .access accessor offset =>
      if accessor.isStore then storeMemory accessor offset
      else loadMemory bounds accessor offset
  | .currentMemory => do
      push bounds (.i32 (BitVec.ofNat 32 (← get).store.memory.pages))
  | .growMemory => growMemory bounds
  | .trap => throw .unreachable
  | .call _ | .callIndirect _ | .ret => return

/-- Executes an operation. -/
def execute : Op Nat → Execution Signal
  | .call function =>
      match assembly.signature? function with
      | none => throw (.undefinedElement function)
      | some signature => prepareCall function signature
  | .callIndirect typeIndex => prepareIndirectCall assembly typeIndex
  | .ret => finish
  | op => do
      effect bounds op
      return .next

/-- Executes the next operation; a function whose operations are used up returns. -/
def next : Execution Signal := do
  let activation := (← get).activation
  match activation.function.code[activation.position]? with
  | none => finish
  | some op =>
      jump (activation.position + 1)
      execute assembly bounds op

end Execution

end WasmCompiler.Machine
