import WasmCompiler.Bytecode.Op
import WasmCompiler.Declarations

/-! # Assemblies

The compiled form of a module: its declarations under a name, and the operations of every function
that it defines. -/

namespace WasmCompiler.Bytecode

/-- A compiled function. -/
structure Function where
  /-- The index of the function among imported and defined ones. -/
  index : Nat
  /-- The types of the arguments and results. -/
  signature : Signature
  /-- The types of the locals. -/
  locals : List ValueType
  /-- The operations, whose targets are positions among them. -/
  code : Array (Op Nat)
  deriving DecidableEq

/-- A compiled module. -/
structure Assembly extends Declarations where
  /-- The name that listings start with. -/
  name : String
  /-- The defined functions, whose indices follow those of the imported ones. -/
  functions : Array Function := #[]
  deriving DecidableEq

namespace Assembly

variable (assembly : Assembly)

/-- The import of a function index, if it is that of an imported function. -/
def importedFunction? (index : Nat) : Option Import :=
  assembly.importedFunctions[index]?

/-- The definition of a function index, if it is that of a defined function. -/
def function? (index : Nat) : Option Function :=
  if assembly.importedFunctionCount ≤ index then
    assembly.functions[index - assembly.importedFunctionCount]?
  else none

/-- The signature of a function, imported or defined. -/
def signature? (index : Nat) : Option Signature :=
  match assembly.importedFunctionTypes[index]? with
  | some typeIndex => assembly.types[typeIndex.toNat]?
  | none => (assembly.function? index).map Function.signature

end Assembly

end WasmCompiler.Bytecode
