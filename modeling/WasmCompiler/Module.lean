import WasmCompiler.Body.Linked
import WasmCompiler.Declarations

/-! # Modules

A decoded module: its declarations, the signature of each function that it defines, and the bodies
of those functions. -/

namespace WasmCompiler

/-- A decoded module. -/
structure Module extends Declarations where
  /-- The signature index of each defined function. -/
  functions : List UInt32 := []
  /-- The bodies of the defined functions. -/
  bodies : List Body := []
  deriving DecidableEq

namespace Module

/-- The only version of the format. -/
def version : Nat := 1

variable (module : Module)

/-- The number of functions, imported and defined. -/
def functionCount : Nat :=
  module.importedFunctionCount + module.functions.length

/-- The signature index of a function, imported or defined. -/
def functionType? (index : Nat) : Option UInt32 :=
  (module.importedFunctionTypes ++ module.functions)[index]?

/-- The signature of a function, imported or defined. -/
def signature? (index : Nat) : Option Signature := do
  let typeIndex ← module.functionType? index
  module.types[typeIndex.toNat]?

end Module

end WasmCompiler
