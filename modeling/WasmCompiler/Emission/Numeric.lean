import WasmCompiler.Bytecode.Op
import WasmCompiler.NumericOp

/-! # Numeric operations in bytecode

Every numeric operation of a module becomes a short sequence of operations of the bytecode, without
branches. Comparisons that the bytecode lacks are the negation of their opposites, and shift counts
are masked to the width of the operand. -/

namespace WasmCompiler

open Bytecode

variable {Target : Type}

namespace Emission

/-- Turns a condition into its opposite. -/
def negated (op : Comparison) : List (Op Target) :=
  [.compare op, .const (.i32 0), .compare .eq]

/-- A shift whose count is taken modulo the width of the operand; counts are 32-bit integers. -/
def shift (type : IntType) (op : Arithmetic) : List (Op Target) :=
  match type with
  | .i32 => [.const (.i32 31), .arith .and, .arith op]
  | .i64 => [.const (.i64 63), .arith .and, .convert .i4, .arith op]

end Emission

open Emission

/-- The operations of an integer comparison. -/
def IntComparison.lower : IntComparison → List (Op Target)
  | .eq => [.compare .eq]
  | .ne => negated .eq
  | .lt .signed => [.compare .lt]
  | .lt .unsigned => [.compare .ltUn]
  | .gt .signed => [.compare .gt]
  | .gt .unsigned => [.compare .gtUn]
  | .le .signed => negated .gt
  | .le .unsigned => negated .gtUn
  | .ge .signed => negated .lt
  | .ge .unsigned => negated .ltUn

/-- The operations of a floating-point comparison. A comparison without sign holds for unordered
operands, so its negation does not. -/
def FloatComparison.lower : FloatComparison → List (Op Target)
  | .eq => [.compare .eq]
  | .ne => negated .eq
  | .lt => [.compare .lt]
  | .gt => [.compare .gt]
  | .le => negated .gtUn
  | .ge => negated .ltUn

/-- The operations of a count of bits. -/
def IntUnary.lower : IntUnary → List (Op Target)
  | .clz => [.intrinsic .clz]
  | .ctz => [.intrinsic .ctz]
  | .popcnt => [.intrinsic .popcnt]

/-- The operations of a computation on two integers. -/
def IntBinary.lower (type : IntType) : IntBinary → List (Op Target)
  | .add => [.arith .add]
  | .sub => [.arith .sub]
  | .mul => [.arith .mul]
  | .div .signed => [.arith .div]
  | .div .unsigned => [.arith .divUn]
  | .rem .signed => [.arith .rem]
  | .rem .unsigned => [.arith .remUn]
  | .and => [.arith .and]
  | .or => [.arith .or]
  | .xor => [.arith .xor]
  | .shl => shift type .shl
  | .shr .signed => shift type .shr
  | .shr .unsigned => shift type .shrUn
  | .rotl => [.intrinsic .rotl]
  | .rotr => [.intrinsic .rotr]

/-- The operations of a computation on one floating-point number. -/
def FloatUnary.lower : FloatUnary → List (Op Target)
  | .abs => [.intrinsic .abs]
  | .neg => [.arith .neg]
  | .ceil => [.intrinsic .ceil]
  | .floor => [.intrinsic .floor]
  | .trunc => [.intrinsic .trunc]
  | .nearest => [.intrinsic .nearest]
  | .sqrt => [.intrinsic .sqrt]

/-- The operations of a computation on two floating-point numbers. -/
def FloatBinary.lower : FloatBinary → List (Op Target)
  | .add => [.arith .add]
  | .sub => [.arith .sub]
  | .mul => [.arith .mul]
  | .div => [.arith .div]
  | .min => [.intrinsic .min]
  | .max => [.intrinsic .max]
  | .copysign => [.intrinsic .copysign]

/-- The operations of a conversion. -/
def NumericConversion.lower : NumericConversion → List (Op Target)
  | .wrap => [.convert .i4]
  | .truncate .i32 _ .signed => [.convert .ovfI4]
  | .truncate .i32 _ .unsigned => [.convert .ovfU4]
  | .truncate .i64 _ .signed => [.convert .ovfI8]
  | .truncate .i64 _ .unsigned => [.convert .ovfU8]
  | .extend .signed => [.convert .i8]
  | .extend .unsigned => [.convert .u8]
  | .convert .f32 _ .signed | .demote => [.convert .r4]
  | .convert .f32 _ .unsigned => [.convert .r4Un]
  | .convert .f64 _ .signed | .promote => [.convert .r8]
  | .convert .f64 _ .unsigned => [.convert .r8Un]
  | .bitsOfFloat _ | .floatOfBits _ => [.intrinsic .reinterpret]

/-- The operations of a numeric operation. -/
def NumericOp.lower : NumericOp → List (Op Target)
  | .eqz type => [.const (.zero type.toValueType), .compare .eq]
  | .intCompare _ op => op.lower
  | .floatCompare _ op => op.lower
  | .intUnary _ op => op.lower
  | .intBinary type op => op.lower type
  | .floatUnary _ op => op.lower
  | .floatBinary _ op => op.lower
  | .conversion op => op.lower

end WasmCompiler
