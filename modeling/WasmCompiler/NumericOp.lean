import WasmCompiler.ValueType

/-! # Numeric operations of a module

The comparisons, computations and conversions that instructions name, with their opcodes and text
names. Operations of one family differ only in the width of their operands. -/

namespace WasmCompiler

/-- The width of integer operands. -/
inductive IntType where
  /-- 32 bits. -/
  | i32
  /-- 64 bits. -/
  | i64
  deriving DecidableEq

/-- The width of floating-point operands. -/
inductive FloatType where
  /-- 32 bits. -/
  | f32
  /-- 64 bits. -/
  | f64
  deriving DecidableEq

/-- The value type of an integer width. -/
def IntType.toValueType : IntType → ValueType
  | .i32 => .i32
  | .i64 => .i64

/-- The value type of a floating-point width. -/
def FloatType.toValueType : FloatType → ValueType
  | .f32 => .f32
  | .f64 => .f64

/-- A comparison of two integers. -/
inductive IntComparison where
  /-- Equal or not. -/
  | eq | ne
  /-- Less. -/
  | lt (signedness : Signedness)
  /-- Greater. -/
  | gt (signedness : Signedness)
  /-- Less or equal. -/
  | le (signedness : Signedness)
  /-- Greater or equal. -/
  | ge (signedness : Signedness)
  deriving DecidableEq

/-- A comparison of two floating-point numbers. -/
inductive FloatComparison where
  | eq | ne | lt | gt | le | ge
  deriving DecidableEq

/-- A count of bits of one integer: leading zeros, trailing zeros, ones. -/
inductive IntUnary where
  | clz | ctz | popcnt
  deriving DecidableEq

/-- A computation on two integers. -/
inductive IntBinary where
  | add | sub | mul
  /-- The quotient, rounded toward zero. -/
  | div (signedness : Signedness)
  /-- The remainder, with the sign of the dividend. -/
  | rem (signedness : Signedness)
  | and | or | xor | shl
  /-- A shift to the right that keeps the sign, or not. -/
  | shr (signedness : Signedness)
  | rotl | rotr
  deriving DecidableEq

/-- A computation on one floating-point number. -/
inductive FloatUnary where
  | abs | neg | ceil | floor | trunc | nearest | sqrt
  deriving DecidableEq

/-- A computation on two floating-point numbers. -/
inductive FloatBinary where
  | add | sub | mul | div | min | max | copysign
  deriving DecidableEq

/-- A conversion between value types. -/
inductive NumericConversion where
  /-- The low 32 bits of a 64-bit integer. -/
  | wrap
  /-- The integer part of a number, which must fit in the target. -/
  | truncate (target : IntType) (source : FloatType) (signedness : Signedness)
  /-- A 32-bit integer widened to 64 bits. -/
  | extend (signedness : Signedness)
  /-- The number nearest to an integer. -/
  | convert (target : FloatType) (source : IntType) (signedness : Signedness)
  /-- The 32-bit number nearest to a 64-bit one. -/
  | demote
  /-- A 32-bit number as a 64-bit one. -/
  | promote
  /-- The bits of a number as an integer. -/
  | bitsOfFloat (source : FloatType)
  /-- The number that has the bits of an integer. -/
  | floatOfBits (source : IntType)
  deriving DecidableEq

/-- A numeric operation of a module. -/
inductive NumericOp where
  /-- Whether an integer is zero. -/
  | eqz (type : IntType)
  /-- A comparison of integers. -/
  | intCompare (type : IntType) (op : IntComparison)
  /-- A comparison of floating-point numbers. -/
  | floatCompare (type : FloatType) (op : FloatComparison)
  /-- A count of bits. -/
  | intUnary (type : IntType) (op : IntUnary)
  /-- A computation on two integers. -/
  | intBinary (type : IntType) (op : IntBinary)
  /-- A computation on one floating-point number. -/
  | floatUnary (type : FloatType) (op : FloatUnary)
  /-- A computation on two floating-point numbers. -/
  | floatBinary (type : FloatType) (op : FloatBinary)
  /-- A conversion. -/
  | conversion (op : NumericConversion)
  deriving DecidableEq

/-! ## Opcodes -/

/-- The integer comparisons, in the order of their opcodes. -/
def IntComparison.all : List IntComparison :=
  [.eq, .ne, .lt .signed, .lt .unsigned, .gt .signed, .gt .unsigned,
    .le .signed, .le .unsigned, .ge .signed, .ge .unsigned]

/-- The floating-point comparisons, in the order of their opcodes. -/
def FloatComparison.all : List FloatComparison :=
  [.eq, .ne, .lt, .gt, .le, .ge]

/-- The counts of bits, in the order of their opcodes. -/
def IntUnary.all : List IntUnary :=
  [.clz, .ctz, .popcnt]

/-- The computations on two integers, in the order of their opcodes. -/
def IntBinary.all : List IntBinary :=
  [.add, .sub, .mul, .div .signed, .div .unsigned, .rem .signed, .rem .unsigned, .and, .or, .xor,
    .shl, .shr .signed, .shr .unsigned, .rotl, .rotr]

/-- The computations on one floating-point number, in the order of their opcodes. -/
def FloatUnary.all : List FloatUnary :=
  [.abs, .neg, .ceil, .floor, .trunc, .nearest, .sqrt]

/-- The computations on two floating-point numbers, in the order of their opcodes. -/
def FloatBinary.all : List FloatBinary :=
  [.add, .sub, .mul, .div, .min, .max, .copysign]

/-- The conversions, in the order of their opcodes. -/
def NumericConversion.all : List NumericConversion :=
  [.wrap,
    .truncate .i32 .f32 .signed, .truncate .i32 .f32 .unsigned,
    .truncate .i32 .f64 .signed, .truncate .i32 .f64 .unsigned,
    .extend .signed, .extend .unsigned,
    .truncate .i64 .f32 .signed, .truncate .i64 .f32 .unsigned,
    .truncate .i64 .f64 .signed, .truncate .i64 .f64 .unsigned,
    .convert .f32 .i32 .signed, .convert .f32 .i32 .unsigned,
    .convert .f32 .i64 .signed, .convert .f32 .i64 .unsigned,
    .demote,
    .convert .f64 .i32 .signed, .convert .f64 .i32 .unsigned,
    .convert .f64 .i64 .signed, .convert .f64 .i64 .unsigned,
    .promote, .bitsOfFloat .f32, .bitsOfFloat .f64, .floatOfBits .i32, .floatOfBits .i64]

namespace NumericOp

/-- Every numeric operation, in the order of their opcodes. -/
def all : List NumericOp :=
  [.eqz .i32] ++ IntComparison.all.map (.intCompare .i32) ++
  [.eqz .i64] ++ IntComparison.all.map (.intCompare .i64) ++
  FloatComparison.all.map (.floatCompare .f32) ++ FloatComparison.all.map (.floatCompare .f64) ++
  IntUnary.all.map (.intUnary .i32) ++ IntBinary.all.map (.intBinary .i32) ++
  IntUnary.all.map (.intUnary .i64) ++ IntBinary.all.map (.intBinary .i64) ++
  FloatUnary.all.map (.floatUnary .f32) ++ FloatBinary.all.map (.floatBinary .f32) ++
  FloatUnary.all.map (.floatUnary .f64) ++ FloatBinary.all.map (.floatBinary .f64) ++
  NumericConversion.all.map .conversion

/-- The opcode of the first numeric operation. -/
def firstOpcode : Nat := 0x45

/-- The opcode of an operation. -/
def opcode (op : NumericOp) : UInt8 :=
  (firstOpcode + all.idxOf op).toUInt8

/-- The operation of an opcode. -/
def ofOpcode? (opcode : UInt8) : Option NumericOp :=
  if firstOpcode ≤ opcode.toNat then all[opcode.toNat - firstOpcode]? else none

/-- The number of operands of an operation; every operation has one result. -/
def operandCount : NumericOp → Nat
  | .eqz _ | .intUnary .. | .floatUnary .. | .conversion _ => 1
  | .intCompare .. | .floatCompare .. | .intBinary .. | .floatBinary .. => 2

end NumericOp

/-! ## Text names -/

/-- The suffix of a name that tells the two readings of an integer apart. -/
def Signedness.suffix : Signedness → String
  | .signed => "_s"
  | .unsigned => "_u"

/-- The name of a comparison. -/
def IntComparison.name : IntComparison → String
  | .eq => "eq"
  | .ne => "ne"
  | .lt signedness => "lt" ++ signedness.suffix
  | .gt signedness => "gt" ++ signedness.suffix
  | .le signedness => "le" ++ signedness.suffix
  | .ge signedness => "ge" ++ signedness.suffix

/-- The name of a comparison. -/
def FloatComparison.name : FloatComparison → String
  | .eq => "eq"
  | .ne => "ne"
  | .lt => "lt"
  | .gt => "gt"
  | .le => "le"
  | .ge => "ge"

/-- The name of a count of bits. -/
def IntUnary.name : IntUnary → String
  | .clz => "clz"
  | .ctz => "ctz"
  | .popcnt => "popcnt"

/-- The name of a computation. -/
def IntBinary.name : IntBinary → String
  | .add => "add"
  | .sub => "sub"
  | .mul => "mul"
  | .div signedness => "div" ++ signedness.suffix
  | .rem signedness => "rem" ++ signedness.suffix
  | .and => "and"
  | .or => "or"
  | .xor => "xor"
  | .shl => "shl"
  | .shr signedness => "shr" ++ signedness.suffix
  | .rotl => "rotl"
  | .rotr => "rotr"

/-- The name of a computation. -/
def FloatUnary.name : FloatUnary → String
  | .abs => "abs"
  | .neg => "neg"
  | .ceil => "ceil"
  | .floor => "floor"
  | .trunc => "trunc"
  | .nearest => "nearest"
  | .sqrt => "sqrt"

/-- The name of a computation. -/
def FloatBinary.name : FloatBinary → String
  | .add => "add"
  | .sub => "sub"
  | .mul => "mul"
  | .div => "div"
  | .min => "min"
  | .max => "max"
  | .copysign => "copysign"

/-- The name of an integer width. -/
def IntType.name (type : IntType) : String :=
  type.toValueType.name

/-- The name of a floating-point width. -/
def FloatType.name (type : FloatType) : String :=
  type.toValueType.name

/-- The name of a conversion: the target type, what is done, and the source type. -/
def NumericConversion.name : NumericConversion → String
  | .wrap => "i32.wrap/i64"
  | .truncate target source signedness =>
      target.name ++ ".trunc" ++ signedness.suffix ++ "/" ++ source.name
  | .extend signedness => "i64.extend" ++ signedness.suffix ++ "/i32"
  | .convert target source signedness =>
      target.name ++ ".convert" ++ signedness.suffix ++ "/" ++ source.name
  | .demote => "f32.demote/f64"
  | .promote => "f64.promote/f32"
  | .bitsOfFloat .f32 => "i32.reinterpret/f32"
  | .bitsOfFloat .f64 => "i64.reinterpret/f64"
  | .floatOfBits .i32 => "f32.reinterpret/i32"
  | .floatOfBits .i64 => "f64.reinterpret/i64"

/-- The name of a numeric operation. -/
def NumericOp.mnemonic : NumericOp → String
  | .eqz type => type.name ++ ".eqz"
  | .intCompare type op => type.name ++ "." ++ op.name
  | .floatCompare type op => type.name ++ "." ++ op.name
  | .intUnary type op => type.name ++ "." ++ op.name
  | .intBinary type op => type.name ++ "." ++ op.name
  | .floatUnary type op => type.name ++ "." ++ op.name
  | .floatBinary type op => type.name ++ "." ++ op.name
  | .conversion op => op.name

end WasmCompiler
