import WasmCompiler.Machine.Run

/-! # Instances

An assembly ready to run: its memory, globals and table are in place and its start function has run.
Calls from outside go through exports, and what they change stays for later calls, also after a
trap. -/

namespace WasmCompiler.Machine

open Bytecode (Assembly)

/-- How a computation with a bound on its steps ends. -/
inductive Outcome (α : Type) where
  /-- With a result. -/
  | returned (result : α)
  /-- With a trap. -/
  | trapped (trap : Trap)
  /-- Not within the steps allowed. -/
  | unfinished

/-- An assembly with its state. -/
structure Instance where
  /-- The assembly. -/
  assembly : Assembly
  /-- The resources that it may use. -/
  bounds : Bounds
  /-- The state. -/
  store : Store

/-! ## Instantiation -/

/-- The limits of the table and of the memory: those of the last import, or else of the module's
own definition. -/
structure Resources where
  /-- The limits of the table, if there is one. -/
  table : Option Limits
  /-- The limits of the memory, if there is one. -/
  memory : Option Limits

/-- Takes an import into account. Nothing provides globals. -/
def Resources.provide (resources : Resources) (entry : Import) : Except Trap Resources :=
  match entry.kind with
  | .function _ => .ok resources
  | .table limits => .ok { resources with table := some limits }
  | .memory limits => .ok { resources with memory := some limits }
  | .global _ => .error (.unresolvedImport entry.moduleName entry.field)

/-- The memory of given limits, or an empty one that cannot grow. -/
def createMemory (limits : Option Limits) : Except Trap Memory :=
  match limits with
  | some limits => Memory.create limits.initial.toNat (limits.maximum.map UInt32.toNat)
  | none => Memory.create 0 (some 0)

/-- The empty table of given limits. -/
def createTable (bounds : Bounds) (limits : Option Limits) : Except Trap (Array (Option Nat)) :=
  let size := (limits.map fun limits => limits.initial.toNat).getD 0
  if size ≤ bounds.maxTableSize then .ok (Array.replicate size none)
  else .error (.tableLimitExceeded size bounds.maxTableSize)

/-- The value of an initializer, given the globals before it. -/
def evaluate (globals : Array Value) : Initializer → Except Trap Value
  | .constant value => .ok value
  | .getGlobal index =>
      match globals[index.toNat]? with
      | some value => .ok value
      | none => .error (.unresolvedImport "" s!"global{index}")

/-- Adds a global to those before it. -/
def addGlobal (globals : Array Value) (global : Global) : Except Trap (Array Value) := do
  let value ← evaluate globals global.initial
  unless value.type = global.type.content do throw (.typeMismatch global.type.content)
  return globals.push value

/-- The first slot or address of a segment. -/
def segmentStart (globals : Array Value) (offset : Initializer) : Except Trap Nat := do
  return (← expectI32 (← evaluate globals offset)).toNat

/-- Puts functions into slots of a table from one on; slot numbers wrap around at 32 bits. -/
def fillTable (table : Array (Option Nat)) (start : Nat) :
    List UInt32 → Except Trap (Array (Option Nat))
  | [] => .ok table
  | function :: functions =>
      let slot := start % Nat.pow 2 32
      if slot < table.size then
        fillTable (table.setIfInBounds slot (some function.toNat)) (slot + 1) functions
      else .error (.undefinedElement slot)

/-- Puts a segment into a table. -/
def addElements (globals : Array Value) (table : Array (Option Nat)) (segment : ElementSegment) :
    Except Trap (Array (Option Nat)) := do
  fillTable table (← segmentStart globals segment.offset) segment.functions

/-- Puts a segment into a memory. -/
def addData (globals : Array Value) (memory : Memory) (segment : DataSegment) :
    Except Trap Memory := do
  memory.write (← segmentStart globals segment.offset) segment.bytes

/-- The state before the start function runs. -/
def initialStore (assembly : Assembly) (bounds : Bounds) : Except Trap Store := do
  let resources ← assembly.imports.foldlM Resources.provide ⟨assembly.table, assembly.memory⟩
  let memory ← createMemory resources.memory
  let table ← createTable bounds resources.table
  let globals ← assembly.globals.foldlM addGlobal #[]
  let table ← assembly.elements.foldlM (addElements globals) table
  let memory ← assembly.data.foldlM (addData globals) memory
  return { memory := memory, globals := globals, table := table }

/-- Makes an instance, whose start function may take a number of steps. -/
def instantiate (steps : Nat) (assembly : Assembly) (bounds : Bounds := {}) : Outcome Instance :=
  match initialStore assembly bounds with
  | .error trap => .trapped trap
  | .ok store =>
      match assembly.start with
      | none => .returned ⟨assembly, bounds, store⟩
      | some function =>
          match call assembly bounds steps function.toNat [] store with
          | .finished _ store => .returned ⟨assembly, bounds, store⟩
          | .trapped trap _ => .trapped trap
          | .running _ => .unfinished

/-! ## Calls -/

namespace Instance

variable (inst : Instance)

/-- The exported function of a name and its signature. -/
def exportedFunction? (name : String) : Option (Nat × Signature) :=
  match inst.assembly.export? name with
  | some (.function index) =>
      (inst.assembly.signature? index.toNat).map fun signature => (index.toNat, signature)
  | _ => none

/-- Calls an exported function, which may take a number of steps, and tells the instance after. -/
def invoke (steps : Nat) (name : String) (arguments : List Value) :
    Outcome (Option Value) × Instance :=
  match inst.exportedFunction? name with
  | none => (.trapped (.noSuchExport name), inst)
  | some (function, signature) =>
      if arguments.map Value.type = signature.params then
        let ⟨assembly, bounds, store⟩ := inst
        match call assembly bounds steps function arguments store with
        | .finished result store => (.returned result, ⟨assembly, bounds, store⟩)
        | .trapped trap store => (.trapped trap, ⟨assembly, bounds, store⟩)
        | .running state => (.unfinished, ⟨assembly, bounds, state.running.store⟩)
      else (.trapped (.argumentMismatch name signature), inst)

/-- The value of a global. -/
def global? (index : Nat) : Option Value :=
  inst.store.globals[index]?

end Instance

end WasmCompiler.Machine
