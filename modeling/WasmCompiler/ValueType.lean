/-! # Value types and signatures

The four types of values, and the types of functions over them. -/

namespace WasmCompiler

/-- The type of a value. -/
inductive ValueType where
  /-- 32-bit integers. -/
  | i32
  /-- 64-bit integers. -/
  | i64
  /-- 32-bit floating-point numbers. -/
  | f32
  /-- 64-bit floating-point numbers. -/
  | f64
  deriving DecidableEq

namespace ValueType

/-- The name of a type. -/
def name : ValueType → String
  | .i32 => "i32"
  | .i64 => "i64"
  | .f32 => "f32"
  | .f64 => "f64"

/-- The byte that stands for a type in a module. -/
def toByte : ValueType → UInt8
  | .i32 => 0x7f
  | .i64 => 0x7e
  | .f32 => 0x7d
  | .f64 => 0x7c

/-- The type that a byte stands for. -/
def ofByte? (byte : UInt8) : Option ValueType :=
  if byte = 0x7f then some .i32
  else if byte = 0x7e then some .i64
  else if byte = 0x7d then some .f32
  else if byte = 0x7c then some .f64
  else none

/-- A value type is found by its own byte. -/
@[simp] theorem ofByte?_toByte (type : ValueType) : ofByte? type.toByte = some type := by
  cases type <;> rfl

end ValueType

/-- How the bits of an integer are read as a number. -/
inductive Signedness where
  /-- In two's complement. -/
  | signed
  /-- As a plain binary number. -/
  | unsigned
  deriving DecidableEq

/-- The value that a block leaves behind; none for an empty block. -/
abbrev BlockType := Option ValueType

/-- The number of values that a block leaves behind. -/
def BlockType.arity (type : BlockType) : Nat :=
  if type.isSome then 1 else 0

/-- The type of a function. -/
structure Signature where
  /-- The types of the arguments. -/
  params : List ValueType := []
  /-- The types of the results; modules hold no signature with more than one. -/
  results : List ValueType := []
  deriving DecidableEq

namespace Signature

/-- The type of the result, if there is one. -/
def result? (signature : Signature) : Option ValueType :=
  signature.results.head?

/-- The text of a signature, such as `(i32, f64) -> i32`. -/
def text (signature : Signature) : String :=
  let params := "(" ++ ", ".intercalate (signature.params.map ValueType.name) ++ ")"
  match signature.result? with
  | some result => params ++ " -> " ++ result.name
  | none => params

end Signature

end WasmCompiler
