import WasmCompiler.Bytecode.Op
import WasmCompiler.Emission.Error
import WasmCompiler.Module

/-! # Scripts

What emission has to say to whatever builds code: directives in order, up to the end or to the first
error. Labels are numbered from 0 in each function, in the order in which they are defined. -/

namespace WasmCompiler.Emission

/-- One step in building the code of a module. -/
inductive Directive where
  /-- Comes first and once. -/
  | declareModule (module : Module)
  /-- Opens a function. -/
  | beginFunction (index : Nat) (signature : Signature)
  /-- Adds a local to the open function. -/
  | declareLocal (type : ValueType)
  /-- Defines the next label of the open function. -/
  | defineLabel
  /-- Gives a label the place of the operation that comes next. -/
  | markLabel (label : Nat)
  /-- Adds an operation whose targets are labels. -/
  | op (op : Bytecode.Op Nat)
  /-- Adds a call of a function of the given signature. -/
  | call (function : Nat) (signature : Signature)
  /-- Adds a call through the table with the given signature. -/
  | callIndirect (typeIndex : Nat) (signature : Signature)
  /-- Closes the open function. -/
  | endFunction
  deriving DecidableEq

/-- Directives up to the end or to the first error. -/
structure Script where
  /-- The directives in order. -/
  directives : List Directive := []
  /-- The error after the last directive, if there is one. -/
  failure : Option Error := none
  deriving DecidableEq

namespace Script

/-- A script that goes on with another one unless it fails. -/
def andThen (first second : Script) : Script :=
  match first.failure with
  | some _ => first
  | none => ⟨first.directives ++ second.directives, second.failure⟩

end Script

end WasmCompiler.Emission
