import WasmCompiler.Floating.Arithmetic
import WasmCompiler.Floating.Text
import WasmCompiler.ValueType

/-! # Values

Typed scalars: the constants of a module and the operands of the machine. A value keeps its bits, so
two values are equal exactly when they have the same type and the same bits; `Value.equal` compares
them as numbers. -/

namespace WasmCompiler

/-- A scalar of one of the four types, by its bits. -/
inductive Value where
  /-- A 32-bit integer. -/
  | i32 (bits : BitVec 32)
  /-- A 64-bit integer. -/
  | i64 (bits : BitVec 64)
  /-- A 32-bit floating-point number. -/
  | f32 (bits : BitVec 32)
  /-- A 64-bit floating-point number. -/
  | f64 (bits : BitVec 64)
  deriving DecidableEq

namespace Value

/-- The type of a value. -/
def type : Value → ValueType
  | .i32 _ => .i32
  | .i64 _ => .i64
  | .f32 _ => .f32
  | .f64 _ => .f64

/-- The bits of a value as a number. -/
def toBits : Value → Nat
  | .i32 bits => bits.toNat
  | .i64 bits => bits.toNat
  | .f32 bits => bits.toNat
  | .f64 bits => bits.toNat

/-- The value that locals of a type start out with. -/
def zero : ValueType → Value
  | .i32 => .i32 0
  | .i64 => .i64 0
  | .f32 => .f32 0
  | .f64 => .f64 0

/-- The zero of a type has that type. -/
@[simp] theorem type_zero (type : ValueType) : (zero type).type = type := by
  cases type <;> rfl

/-- Whether two values have the same type and are equal as numbers. -/
def equal : Value → Value → Bool
  | .i32 left, .i32 right => left == right
  | .i64 left, .i64 right => left == right
  | .f32 left, .f32 right => Floating.binary32.equal left.toNat right.toNat
  | .f64 left, .f64 right => Floating.binary64.equal left.toNat right.toNat
  | _, _ => false

/-! ## Text -/

/-- Floating-point numbers are written positionally from 0.0001 up to, but not including, 10 to the
power of 16, always with a fraction; the others have an exponent after a bare `e`. -/
def layout : Floating.Layout where
  leastPositional := -4
  positionalLimit := 16
  exponentMark := "e"
  emptyFraction := ".0"
  infinity := "inf"
  nan := "NaN"

/-- The text of a value: integers are signed, floating-point numbers have the fewest digits that
read back. -/
def text : Value → String
  | .i32 bits => toString bits.toInt
  | .i64 bits => toString bits.toInt
  | .f32 bits => layout.write Floating.binary32 bits.toNat
  | .f64 bits => layout.write Floating.binary64 bits.toNat

/-- The signed integer of `width` bits spelled by a text. -/
def readInteger? (width : Nat) (text : String) : Option (BitVec width) := do
  let (negative, digits) := Floating.splitSign text.toList
  let magnitude ← Floating.readDigits? digits
  let value : Int := if negative then -magnitude else magnitude
  guard (-Nat.pow 2 (width - 1) ≤ value ∧ value < Nat.pow 2 (width - 1))
  return BitVec.ofInt width value

/-- The value of a type spelled by a text. -/
def read? (type : ValueType) (text : String) : Option Value :=
  match type with
  | .i32 => (readInteger? 32 text).map .i32
  | .i64 => (readInteger? 64 text).map .i64
  | .f32 => (Floating.readWord? Floating.binary32 text).map fun word => .f32 (BitVec.ofNat 32 word)
  | .f64 => (Floating.readWord? Floating.binary64 text).map fun word => .f64 (BitVec.ofNat 64 word)

end Value

end WasmCompiler
