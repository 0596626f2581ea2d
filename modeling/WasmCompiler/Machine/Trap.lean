import WasmCompiler.ValueType

/-! # Traps

Why an assembly cannot be instantiated, or why a call ends without a result. -/

namespace WasmCompiler.Machine

/-- Why execution stopped. -/
inductive Trap where
  /-- An operation that always traps. -/
  | unreachable
  /-- An access past the end of memory. -/
  | outOfBoundsAccess (address size : Nat)
  /-- A memory that starts out larger than its maximum. -/
  | memoryLimitExceeded (pages maximum : Nat)
  /-- A table larger than an instance may have. -/
  | tableLimitExceeded (size maximum : Nat)
  /-- An integer division by zero. -/
  | integerDivideByZero
  /-- A result that does not fit in an integer. -/
  | integerOverflow
  /-- A conversion to an integer of what is not a number. -/
  | invalidConversionToInteger
  /-- An operand, a local or a global that is not there. -/
  | stackUnderflow
  /-- A value of another type than expected. -/
  | typeMismatch (expected : ValueType)
  /-- A table slot, a signature or a function that does not exist. -/
  | undefinedElement (index : Nat)
  /-- A table slot without a function. -/
  | uninitializedElement (index : Nat)
  /-- A table slot whose function has another signature than expected. -/
  | indirectCallTypeMismatch (index : Nat) (expected : Signature)
  /-- Something imported that nothing provides. -/
  | unresolvedImport (moduleName field : String)
  /-- Too many calls or too many operands. -/
  | callStackExhausted (depth : Nat)
  /-- No function is exported under the name. -/
  | noSuchExport (name : String)
  /-- Arguments that do not match the signature of an export. -/
  | argumentMismatch (name : String) (signature : Signature)
  deriving DecidableEq

/-- The sentence shown for a trap. -/
def Trap.message : Trap → String
  | .unreachable => "unreachable executed"
  | .outOfBoundsAccess address size =>
      s!"out of bounds memory access at {address} ({size} bytes)"
  | .memoryLimitExceeded pages maximum =>
      s!"memory of {pages} pages exceeds its maximum of {maximum}"
  | .tableLimitExceeded size maximum =>
      s!"table of {size} elements exceeds the limit of {maximum}"
  | .integerDivideByZero => "integer divide by zero"
  | .integerOverflow => "integer overflow"
  | .invalidConversionToInteger => "invalid conversion to integer"
  | .stackUnderflow => "value stack underflow"
  | .typeMismatch expected => s!"type mismatch, expected {expected.name}"
  | .undefinedElement index => s!"undefined table element {index}"
  | .uninitializedElement index => s!"uninitialized table element {index}"
  | .indirectCallTypeMismatch index expected =>
      s!"indirect call through element {index} does not match {expected.text}"
  | .unresolvedImport moduleName field =>
      s!"import \"{moduleName}\" \"{field}\" is not resolved"
  | .callStackExhausted depth => s!"call stack exhausted at depth {depth}"
  | .noSuchExport name => s!"no exported function named \"{name}\""
  | .argumentMismatch name signature => s!"arguments do not match {name}{signature.text}"

end WasmCompiler.Machine
