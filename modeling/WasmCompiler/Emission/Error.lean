/-! # Emission errors

Why a decoded module cannot be compiled. -/

namespace WasmCompiler.Emission

/-- Why a decoded module cannot be compiled. -/
inductive Error where
  /-- The numbers of declared functions and of bodies differ. -/
  | functionCountMismatch (declared bodies : Nat)
  /-- There is no such signature. -/
  | typeIndexOutOfRange (index : UInt32)
  /-- A call of a function that does not exist. -/
  | functionIndexOutOfRange (function : Nat) (index : UInt32)
  /-- There is no such parameter or local. -/
  | localIndexOutOfRange (function : Nat) (index : UInt32) (count : Nat)
  /-- There is no such global. -/
  | globalIndexOutOfRange (function : Nat) (index : UInt32)
  /-- An instruction refers to others in a way that linking never does. -/
  | unlinkedInstruction (function position offset : Nat)
  /-- A branch goes to a label that no position was given to. -/
  | unmarkedLabel (function label : Nat)
  /-- A global that code may not replace is replaced. -/
  | immutableGlobal (function : Nat) (index : UInt32)
  deriving DecidableEq

/-- The sentence shown for an error. -/
def Error.message : Error → String
  | .functionCountMismatch declared bodies =>
      s!"function section declares {declared} functions but the code section has {bodies} bodies"
  | .typeIndexOutOfRange index => s!"type index {index} is out of range"
  | .functionIndexOutOfRange function index =>
      s!"function {function}: call to undefined function {index}"
  | .localIndexOutOfRange function index count =>
      s!"function {function}: local {index} is out of range ({count} params and locals)"
  | .globalIndexOutOfRange function index =>
      s!"function {function}: global {index} is out of range"
  | .unlinkedInstruction function position offset =>
      s!"function {function}: instruction #{position} at offset {offset} was never linked"
  | .unmarkedLabel function label => s!"function {function}: label {label} used but never marked"
  | .immutableGlobal function index =>
      s!"function {function}: set_global on immutable global {index}"

end WasmCompiler.Emission
