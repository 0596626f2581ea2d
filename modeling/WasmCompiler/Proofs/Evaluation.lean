import WasmCompiler.Machine.Run
import WasmCompiler.Emission.Numeric
import WasmCompiler.Module

/-! # Evaluation of structured code

The meaning of a module by the trees of its functions. A sequence is evaluated from left to right; a
branch ends the blocks inside the one that it names, and that block then goes on after its end, or
from its start if it is a loop, with the operands that it was entered with beneath those that the
branch carries. A call evaluates the tree of the callee. Nothing is laid out, so there are no
positions and no labels, and dead code plays no part. Activations are counted where they begin and
taken off the count where they are over, however that is.

Instructions without block structure act on operands, variables and memory as operations of the
machine do, within the same bounds; numeric instructions act as their sequence of computations.

* **`Program`** — a module with the trees of its functions;
* **`Program.evaluate`** — evaluation of a sequence within some number of loops and calls;
* **`Program.call`** — evaluation of a function. -/

namespace WasmCompiler

open Machine
open Machine.Execution

/-! ## Programs -/

/-- A module with the code of the functions that it defines, as trees. -/
structure Program where
  /-- The module. -/
  module : Module
  /-- The code of each defined function. -/
  trees : List (Code 0)

/-- A function that a program defines. -/
structure Definition where
  /-- The types of the arguments and results. -/
  signature : Signature
  /-- The types of the locals. -/
  locals : List ValueType
  /-- The code. -/
  tree : Code 0

namespace Program

variable (program : Program)

/-- **Whether the trees are those that the bodies of the module are the linked form of.** -/
structure Reads : Prop where
  /-- There is a tree for each body. -/
  count : program.trees.length = program.module.bodies.length
  /-- Each body is the linked form of its tree. -/
  linked : ∀ (position : Nat) (tree : Code 0) (body : Body),
    program.trees[position]? = some tree → program.module.bodies[position]? = some body →
    ∃ finish, body = tree.link body.locals finish

/-- The definition of a function index, if it is that of a defined function. -/
def definition? (index : Nat) : Option Definition :=
  if program.module.importedFunctionCount ≤ index then do
    let position := index - program.module.importedFunctionCount
    let typeIndex ← program.module.functions[position]?
    let signature ← program.module.types[typeIndex.toNat]?
    let body ← program.module.bodies[position]?
    let tree ← program.trees[position]?
    return ⟨signature, body.locals, tree⟩
  else none

end Program

/-! ## Outcomes -/

/-- How code inside `depth` blocks ends. -/
inductive Exit (depth : Nat) where
  /-- At its end. -/
  | next
  /-- With a branch to an enclosing block. -/
  | branch (level : Fin depth)
  /-- With a return. -/
  | ret

/-- What an evaluation leads to. -/
inductive Evaluation (α : Type) where
  /-- It ends. -/
  | ended (value : α) (running : Running)
  /-- It traps. -/
  | trapped (trap : Trap) (store : Store)
  /-- It does not end within the loops and calls allowed. -/
  | unfinished

namespace Evaluation

variable {α β : Type} {depth : Nat}

/-- An evaluation that goes on with another one if it ends. -/
def andThen (first : Evaluation α) (second : α → Running → Evaluation β) : Evaluation β :=
  match first with
  | .ended value running => second value running
  | .trapped trap store => .trapped trap store
  | .unfinished => .unfinished

/-- The evaluation of a part of the execution of an operation. -/
def ofExecution (action : Execution α) (running : Running) : Evaluation α :=
  match action running with
  | .ok value later => .ended value later
  | .error trap later => .trapped trap later.store

/-- The end of a call, whose activation is taken off the count however it ends. -/
def countDown : Evaluation α → Evaluation α
  | .ended value running => .ended value { running with store := running.store.countDown }
  | .trapped trap store => .trapped trap store.countDown
  | .unfinished => .unfinished

/-- **The end of a block**: what comes after its code ends, and what comes after a branch to it. -/
def leaving (inside : Evaluation (Exit (depth + 1)))
    (caught onward : Running → Evaluation (Exit depth)) : Evaluation (Exit depth) :=
  inside.andThen fun exit running =>
    match exit with
    | .next => onward running
    | .branch ⟨0, _⟩ => caught running
    | .branch ⟨level + 1, below⟩ => .ended (.branch ⟨level, Nat.lt_of_succ_lt_succ below⟩) running
    | .ret => .ended .ret running

end Evaluation

/-! ## Operands -/

namespace Machine

/-- The operands of a list. -/
def OperandStack.ofValues (values : List Value) : OperandStack :=
  ⟨values, values.length, rfl⟩

/-- The operands after a branch: the top ones on those that the block was entered with. -/
def OperandStack.cut (stack : OperandStack) (base keep : Nat) : OperandStack :=
  .ofValues (stack.values.take keep ++ stack.values.drop (stack.values.length - base))

namespace Running

/-- The number of operands. -/
def height (running : Running) : Nat :=
  running.activation.stack.height

/-- The activation with other operands. -/
def withStack (running : Running) (stack : OperandStack) : Running :=
  { running with activation := { running.activation with stack := stack } }

/-- What is left after a branch to a block that was entered with `base` operands. -/
def cut (running : Running) (base keep : Nat) : Running :=
  running.withStack (running.activation.stack.cut base keep)

end Running

end Machine

/-! ## Instructions -/

/-- What an instruction does that neither branches nor calls. -/
def PlainInstruction.effect (bounds : Bounds) : PlainInstruction → Execution Unit
  | .unreachable => throw .unreachable
  | .nop | .ret | .call _ | .callIndirect _ => return
  | .drop => do
      let _ ← pop
  | .select => do
      let condition ← popI32
      let second ← pop
      let first ← pop
      push bounds (if condition ≠ 0 then first else second)
  | .getLocal index => do push bounds (← valueAt (← get).activation.slots index.toNat)
  | .setLocal index => storeSlot index.toNat
  | .teeLocal index => do
      storeSlot index.toNat
      push bounds (← valueAt (← get).activation.slots index.toNat)
  | .getGlobal index => do push bounds (← valueAt (← get).store.globals index.toNat)
  | .setGlobal index => storeGlobal index.toNat
  | .access accessor _ offset =>
      if accessor.isStore then storeMemory accessor offset.toNat
      else loadMemory bounds accessor offset.toNat
  | .currentMemory => do push bounds (.i32 (BitVec.ofNat 32 (← get).store.memory.pages))
  | .growMemory => Execution.growMemory bounds
  | .const value => push bounds value
  | .numeric operation => operation.lower.forM (Execution.effect bounds)

/-- The level that a jump branches to, if it does. -/
def Jump.choose {depth : Nat} : Jump depth → Execution (Option (Fin depth))
  | .always level => return some level
  | .ifTrue level => do return if (← popI32) ≠ 0 then some level else none
  | .table levels fallback => do
      let selector := (← popI32).toNat
      return some (levels[selector]?.getD fallback)

/-! ## Calls -/

namespace Machine.Execution

/-- Takes the arguments of a call from the operands. -/
def takeArguments (signature : Signature) : Execution (List Value) := do
  let stack := (← get).activation.stack
  if stack.height < signature.params.length then throw .stackUnderflow
  setStack (stack.drop signature.params.length)
  checkArguments signature.params (stack.top signature.params.length)
  return stack.top signature.params.length

/-- Takes the result of the function from the operands. -/
def takeResult : Execution (Option Value) := do
  match (← get).activation.function.signature.result? with
  | none => return none
  | some type =>
      let value ← pop
      unless value.type = type do throw (.typeMismatch type)
      return some value

/-- Gives a result to the caller. -/
def give (bounds : Bounds) (result : Option Value) : Execution Unit :=
  match result with
  | none => return
  | some value => push bounds value

end Machine.Execution

namespace Program

variable (program : Program) (bounds : Bounds)

/-- The function that a direct call calls, and its arguments. -/
def direct (function : Nat) : Execution (Nat × List Value) := do
  match program.module.signature? function with
  | none => throw (.undefinedElement function)
  | some signature => return (function, ← takeArguments signature)

/-- The function that a call through the table calls, and its arguments. -/
def indirect (typeIndex : Nat) : Execution (Nat × List Value) := do
  match program.module.types[typeIndex]? with
  | none => throw (.undefinedElement typeIndex)
  | some expected =>
      let slot := (← popI32).toNat
      let function ← tableEntry slot
      if program.module.signature? function = some expected then
        return (function, ← takeArguments expected)
      else throw (.indirectCallTypeMismatch slot expected)

/-- The activation of a function that is called where `depth` activations are counted, and its code.
-/
def enter (function : Nat) (arguments : List Value) (depth : Nat) :
    Except Trap (Activation × Code 0) :=
  match program.module.importedFunctions[function]? with
  | some entry => .error (.unresolvedImport entry.moduleName entry.field)
  | none =>
      match program.definition? function with
      | none => .error (.undefinedElement function)
      | some definition =>
          if depth < bounds.maxCallDepth then
            .ok
              ({ function := ⟨function, definition.signature, definition.locals, #[]⟩
                 depth := depth + 1
                 position := 0
                 slots := (arguments ++ definition.locals.map Value.zero).toArray
                 stack := .empty },
                definition.tree)
          else .error (.callStackExhausted depth)

section

variable (again : {depth : Nat} → Code depth → Running → Evaluation (Exit depth))

/-- The result of a function, whose code is evaluated by `again`. -/
def resultOf (function : Nat) (arguments : List Value) (store : Store) :
    Evaluation (Option Value) :=
  match program.enter bounds function arguments store.depth with
  | .error trap => .trapped trap store
  | .ok (activation, tree) =>
      ((again tree ⟨activation, store.countUp⟩).andThen fun _ => .ofExecution takeResult).countDown

/-- A call by a running function: the callee works on the same store and leaves its result. -/
def invoke (callee : Execution (Nat × List Value)) (running : Running) : Evaluation Unit :=
  (Evaluation.ofExecution callee running).andThen fun (function, arguments) caller =>
    (program.resultOf bounds again function arguments caller.store).andThen fun result last =>
      .ofExecution (give bounds result) ⟨caller.activation, last.store⟩

/-- An instruction without block structure, and whether the next one follows. -/
def plain (instruction : PlainInstruction) (running : Running) : Evaluation Bool :=
  match instruction with
  | .ret => .ended false running
  | .call function =>
      (program.invoke bounds again (program.direct function.toNat) running).andThen fun _ =>
        .ended true
  | .callIndirect typeIndex =>
      (program.invoke bounds again (program.indirect typeIndex.toNat) running).andThen fun _ =>
        .ended true
  | instruction =>
      (Evaluation.ofExecution (instruction.effect bounds) running).andThen fun _ => .ended true

/-- **Evaluation of a sequence**, in which `again` evaluates the code of callees and repeats
loops. -/
def evaluateWith : {depth : Nat} → Code depth → Running → Evaluation (Exit depth)
  | _, .empty, running => .ended .next running
  | _, .plain _ instruction next, running =>
      (program.plain bounds again instruction running).andThen fun follows running =>
        if follows then evaluateWith next running else .ended .ret running
  | _, .jump _ leap next, running =>
      (Evaluation.ofExecution leap.choose running).andThen fun chosen running =>
        match chosen with
        | some level => .ended (.branch level) running
        | none => evaluateWith next running
  | _, .block _ .block type body _ next, running =>
      (evaluateWith body running).leaving
        (fun later => evaluateWith next (later.cut running.height type.arity))
        (evaluateWith next)
  | _, .block offset .loop type body finish next, running =>
      (evaluateWith body running).leaving
        (fun later =>
          again (.block offset .loop type body finish next) (later.cut running.height 0))
        (evaluateWith next)
  | _, .ifThen _ type arm _ next, running =>
      (Evaluation.ofExecution popI32 running).andThen fun condition running =>
        if condition ≠ 0 then
          (evaluateWith arm running).leaving
            (fun later => evaluateWith next (later.cut running.height type.arity))
            (evaluateWith next)
        else evaluateWith next running
  | _, .ifElse _ type arm _ otherwise _ next, running =>
      (Evaluation.ofExecution popI32 running).andThen fun condition running =>
        (if condition ≠ 0 then evaluateWith arm running
          else evaluateWith otherwise running).leaving
            (fun later => evaluateWith next (later.cut running.height type.arity))
            (evaluateWith next)

end

/-- **Evaluation of a sequence** within some depth of loops and calls. -/
def evaluate : (fuel : Nat) → {depth : Nat} → Code depth → Running → Evaluation (Exit depth)
  | 0, _, _, _ => .unfinished
  | fuel + 1, _, code, running => program.evaluateWith bounds (evaluate fuel) code running

/-- **Evaluation of a function** that is called from outside, within some depth of loops and
calls. -/
def call (fuel function : Nat) (arguments : List Value) (store : Store) :
    Evaluation (Option Value) :=
  program.resultOf bounds (program.evaluate bounds fuel) function arguments store

end Program

end WasmCompiler
