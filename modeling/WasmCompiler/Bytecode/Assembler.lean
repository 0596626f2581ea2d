import WasmCompiler.Bytecode.Assembly
import WasmCompiler.Emission.Script

/-! # Assembling

Building an assembly step by step. Branches name labels while a function is open; closing it puts
the place that each label was given last in the label's stead. Outside a function there is nothing
to add to, and the steps that would do so change nothing. -/

namespace WasmCompiler.Bytecode

open Emission (Directive Script)

/-- A function that is being built. -/
structure OpenFunction where
  /-- The index of the function. -/
  index : Nat
  /-- The signature of the function. -/
  signature : Signature
  /-- The types of its locals so far. -/
  locals : Array ValueType := #[]
  /-- Its operations so far, whose targets are labels. -/
  code : Array (Op Nat) := #[]
  /-- The place given to each label that has been defined. -/
  places : Array (Option Nat) := #[]
  deriving DecidableEq

namespace OpenFunction

/-- The place of a label, which must have been given. -/
def place (function : OpenFunction) (label : Nat) : Except Emission.Error Nat :=
  match function.places[label]? with
  | some (some place) => .ok place
  | _ => .error (.unmarkedLabel function.index label)

/-- The function with places for labels. -/
def close (function : OpenFunction) : Except Emission.Error Function := do
  let code ← function.code.toList.mapM (Op.mapTargets function.place)
  return ⟨function.index, function.signature, function.locals.toList, code.toArray⟩

end OpenFunction

/-- An assembly that is being built. -/
structure Assembler where
  /-- The assembly so far. -/
  assembly : Assembly
  /-- The open function, if there is one. -/
  current : Option OpenFunction := none
  deriving DecidableEq

namespace Assembler

/-- An empty assembly of the given name. -/
def ofName (name : String) : Assembler :=
  { assembly := { name := name } }

/-- Takes over the declarations of a module. -/
def declareModule (assembler : Assembler) (module : Module) : Assembler :=
  { assembler with
    assembly := { assembler.assembly with toDeclarations := module.toDeclarations } }

/-- Opens a function and drops the one that was open. -/
def beginFunction (assembler : Assembler) (index : Nat) (signature : Signature) : Assembler :=
  { assembler with current := some { index := index, signature := signature } }

/-- Changes the open function, if there is one. -/
def modifyFunction (assembler : Assembler) (change : OpenFunction → OpenFunction) : Assembler :=
  { assembler with current := assembler.current.map change }

/-- Adds a local. -/
def declareLocal (assembler : Assembler) (type : ValueType) : Assembler :=
  assembler.modifyFunction fun function =>
    { function with locals := function.locals.push type }

/-- Adds an operation. -/
def emit (assembler : Assembler) (op : Op Nat) : Assembler :=
  assembler.modifyFunction fun function => { function with code := function.code.push op }

/-- The number of the label defined next; 0 outside a function. -/
def nextLabel (assembler : Assembler) : Nat :=
  match assembler.current with
  | some function => function.places.size
  | none => 0

/-- Defines a label. -/
def defineLabel (assembler : Assembler) : Assembler :=
  assembler.modifyFunction fun function => { function with places := function.places.push none }

/-- Gives a label the place of the next operation; a label that is not defined is ignored. -/
def markLabel (assembler : Assembler) (label : Nat) : Assembler :=
  assembler.modifyFunction fun function =>
    { function with places := function.places.setIfInBounds label (some function.code.size) }

/-- Closes the open function. One whose labels are not all given a place is dropped. -/
def endFunction (assembler : Assembler) : Option Emission.Error × Assembler :=
  match assembler.current with
  | none => (none, assembler)
  | some function =>
      match function.close with
      | .error error => (some error, { assembler with current := none })
      | .ok function =>
          (none,
            { assembly :=
                { assembler.assembly with functions := assembler.assembly.functions.push function }
              current := none })

/-- Follows a directive. -/
def follow (assembler : Assembler) : Directive → Option Emission.Error × Assembler
  | .declareModule module => (none, assembler.declareModule module)
  | .beginFunction index signature => (none, assembler.beginFunction index signature)
  | .declareLocal type => (none, assembler.declareLocal type)
  | .defineLabel => (none, assembler.defineLabel)
  | .markLabel label => (none, assembler.markLabel label)
  | .op op => (none, assembler.emit op)
  | .call function _ => (none, assembler.emit (.call function))
  | .callIndirect typeIndex _ => (none, assembler.emit (.callIndirect typeIndex))
  | .endFunction => assembler.endFunction

/-- Follows directives up to the first error. -/
def followAll (assembler : Assembler) : List Directive → Except Emission.Error Assembler
  | [] => .ok assembler
  | directive :: directives =>
      match assembler.follow directive with
      | (some error, _) => .error error
      | (none, assembler) => assembler.followAll directives

end Assembler

/-- The assembly that a script builds under a name. -/
def assemble (name : String) (script : Script) : Except Emission.Error Assembly := do
  let assembler ← (Assembler.ofName name).followAll script.directives
  match script.failure with
  | some error => throw error
  | none => return assembler.assembly

end WasmCompiler.Bytecode
