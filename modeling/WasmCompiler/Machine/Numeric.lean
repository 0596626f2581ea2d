import WasmCompiler.Bytecode.Op
import WasmCompiler.Machine.Trap

/-! # Computations of the machine

Comparisons, computations and conversions on values. Integers are words in two's complement that
wrap around; floating-point numbers are computed exactly and rounded once. Operands whose types do
not fit the operation trap, and the trap names the type of the first operand. -/

namespace WasmCompiler.Machine

open Bytecode
open Floating (binary32 binary64 Format Datum)

/-- The trap for operands whose types do not fit. -/
def mismatch {α : Type} (value : Value) : Except Trap α :=
  .error (.typeMismatch value.type)

/-- A condition as a value. -/
def ofCondition (condition : Bool) : Value :=
  .i32 (if condition then 1 else 0)

/-- The 32-bit integer that a value has to be. -/
def expectI32 : Value → Except Trap (BitVec 32)
  | .i32 bits => .ok bits
  | _ => .error (.typeMismatch .i32)

/-! ## Integers -/

section Integers

variable {width : Nat}

/-- A computation on two integers of one width. Shifts are not among them, since their counts are
32-bit integers. -/
def intArith (op : Arithmetic) (left right : BitVec width) : Except Trap (BitVec width) :=
  match op with
  | .add => .ok (left + right)
  | .sub => .ok (left - right)
  | .mul => .ok (left * right)
  | .div =>
      if right = 0 then .error .integerDivideByZero
      else if left = BitVec.intMin width ∧ right = -1 then .error .integerOverflow
      else .ok (left.sdiv right)
  | .divUn => if right = 0 then .error .integerDivideByZero else .ok (left / right)
  | .rem => if right = 0 then .error .integerDivideByZero else .ok (left.srem right)
  | .remUn => if right = 0 then .error .integerDivideByZero else .ok (left % right)
  | .and => .ok (left &&& right)
  | .or => .ok (left ||| right)
  | .xor => .ok (left ^^^ right)
  | .shl | .shr | .shrUn | .neg => .error (.typeMismatch .i32)

/-- A shift by a count taken modulo the width; none if the computation is not a shift. -/
def shift? (op : Arithmetic) (value : BitVec width) (count : BitVec 32) : Option (BitVec width) :=
  let amount := count.toNat % width
  match op with
  | .shl => some (value <<< amount)
  | .shr => some (value.sshiftRight amount)
  | .shrUn => some (value >>> amount)
  | _ => none

/-- A comparison of two integers of one width. -/
def intCompare (op : Comparison) (left right : BitVec width) : Bool :=
  match op with
  | .eq => left == right
  | .gt => right.slt left
  | .gtUn => right.ult left
  | .lt => left.slt right
  | .ltUn => left.ult right

/-- A computation on one integer; none if there is no such computation. -/
def intUnary? (op : Intrinsic) (value : BitVec width) : Option (BitVec width) :=
  match op with
  | .clz => some value.clz
  | .ctz => some value.ctz
  | .popcnt => some value.cpop
  | _ => none

/-- A rotation by a count taken modulo the width; none if the computation is not a rotation. -/
def rotate? (op : Intrinsic) (value count : BitVec width) : Option (BitVec width) :=
  let amount := count.toNat % width
  match op with
  | .rotl => some (value.rotateLeft amount)
  | .rotr => some (value.rotateRight amount)
  | _ => none

end Integers

/-! ## Floating-point numbers -/

/-- A computation on two numbers; none if there is no such computation. -/
def floatArith? (format : Format) (op : Arithmetic) (left right : Nat) : Option Nat :=
  match op with
  | .add => some (format.add left right)
  | .sub => some (format.sub left right)
  | .mul => some (format.mul left right)
  | .div => some (format.div left right)
  | _ => none

/-- A comparison of two numbers; the forms without sign also hold for unordered ones. -/
def floatCompare (format : Format) (op : Comparison) (left right : Nat) : Bool :=
  match op with
  | .eq => format.equal left right
  | .gt => format.less right left
  | .gtUn => !format.lessOrEqual left right
  | .lt => format.less left right
  | .ltUn => !format.lessOrEqual right left

/-- A computation on one number; none if there is no such computation. -/
def floatUnary? (format : Format) (op : Intrinsic) (word : Nat) : Option Nat :=
  match op with
  | .abs => some (format.abs word)
  | .ceil => some (format.roundToIntegral .up word)
  | .floor => some (format.roundToIntegral .down word)
  | .trunc => some (format.roundToIntegral .towardZero word)
  | .nearest => some (format.roundToIntegral .nearestEven word)
  | .sqrt => some (format.sqrt word)
  | _ => none

/-- A choice or a mixture of two numbers; none if there is no such computation. -/
def floatBinary? (format : Format) (op : Intrinsic) (left right : Nat) : Option Nat :=
  match op with
  | .min => some (format.minimum left right)
  | .max => some (format.maximum left right)
  | .copysign => some (format.copySign left right)
  | _ => none

/-- The integer part of a number, which must lie between two bounds, the upper one left out. -/
def truncate (datum : Datum) (low high : Int) : Except Trap Int :=
  if datum.isNan then .error .invalidConversionToInteger
  else
    match datum.truncate? with
    | some integer =>
        if low ≤ integer ∧ integer < high then .ok integer else .error .integerOverflow
    | none => .error .integerOverflow

/-! ## Values -/

/-- The outcome of a computation that may not exist for the type of a value. -/
def orMismatch {α : Type} (value : Value) (result : Option α) : Except Trap α :=
  match result with
  | some result => .ok result
  | none => mismatch value

/-- The 32-bit number of a word. -/
def ofWord32 (word : Nat) : Value :=
  .f32 (BitVec.ofNat 32 word)

/-- The 64-bit number of a word. -/
def ofWord64 (word : Nat) : Value :=
  .f64 (BitVec.ofNat 64 word)

/-- A computation on two values. -/
def arith (op : Arithmetic) (left right : Value) : Except Trap Value :=
  match left, right with
  | .i32 x, .i32 y =>
      match shift? op x y with
      | some shifted => .ok (.i32 shifted)
      | none => (intArith op x y).map .i32
  | .i64 x, .i32 y => (orMismatch left (shift? op x y)).map .i64
  | .i64 x, .i64 y => (intArith op x y).map .i64
  | .f32 x, .f32 y =>
      (orMismatch left (floatArith? binary32 op x.toNat y.toNat)).map ofWord32
  | .f64 x, .f64 y =>
      (orMismatch left (floatArith? binary64 op x.toNat y.toNat)).map ofWord64
  | _, _ => mismatch left

/-- The value with the opposite sign. -/
def negate : Value → Value
  | .i32 x => .i32 (-x)
  | .i64 x => .i64 (-x)
  | .f32 x => ofWord32 (binary32.negate x.toNat)
  | .f64 x => ofWord64 (binary64.negate x.toNat)

/-- A comparison of two values. -/
def compare (op : Comparison) (left right : Value) : Except Trap Value :=
  match left, right with
  | .i32 x, .i32 y => .ok (ofCondition (intCompare op x y))
  | .i64 x, .i64 y => .ok (ofCondition (intCompare op x y))
  | .f32 x, .f32 y => .ok (ofCondition (floatCompare binary32 op x.toNat y.toNat))
  | .f64 x, .f64 y => .ok (ofCondition (floatCompare binary64 op x.toNat y.toNat))
  | _, _ => mismatch left

/-- The exact datum of a floating-point value. -/
def datum? : Value → Option Datum
  | .f32 x => some (binary32.decode x.toNat)
  | .f64 x => some (binary64.decode x.toNat)
  | .i32 _ | .i64 _ => none

/-- A conversion of a value. -/
def convert (op : Conversion) (value : Value) : Except Trap Value :=
  let truncated (toValue : Int → Value) (low high : Int) : Except Trap Value := do
    return toValue (← truncate (← orMismatch value (datum? value)) low high)
  match op with
  | .i4 =>
      match value with
      | .i64 x => .ok (.i32 (x.setWidth 32))
      | .i32 x => .ok (.i32 x)
      | _ => mismatch value
  | .i8 =>
      match value with
      | .i32 x => .ok (.i64 (x.signExtend 64))
      | _ => mismatch value
  | .u8 =>
      match value with
      | .i32 x => .ok (.i64 (x.setWidth 64))
      | _ => mismatch value
  | .r4 =>
      match value with
      | .i32 x => .ok (ofWord32 (binary32.ofInt x.toInt))
      | .i64 x => .ok (ofWord32 (binary32.ofInt x.toInt))
      | .f64 x => .ok (ofWord32 (binary32.encode (binary64.decode x.toNat)))
      | .f32 _ => mismatch value
  | .r8 =>
      match value with
      | .i32 x => .ok (ofWord64 (binary64.ofInt x.toInt))
      | .i64 x => .ok (ofWord64 (binary64.ofInt x.toInt))
      | .f32 x => .ok (ofWord64 (binary64.encode (binary32.decode x.toNat)))
      | .f64 _ => mismatch value
  | .r4Un =>
      match value with
      | .i32 x => .ok (ofWord32 (binary32.ofInt x.toNat))
      | .i64 x => .ok (ofWord32 (binary32.ofInt x.toNat))
      | _ => mismatch value
  | .r8Un =>
      match value with
      | .i32 x => .ok (ofWord64 (binary64.ofInt x.toNat))
      | .i64 x => .ok (ofWord64 (binary64.ofInt x.toNat))
      | _ => mismatch value
  | .ovfI4 => truncated (fun integer => .i32 (.ofInt 32 integer)) (-Nat.pow 2 31) (Nat.pow 2 31)
  | .ovfU4 => truncated (fun integer => .i32 (.ofInt 32 integer)) 0 (Nat.pow 2 32)
  | .ovfI8 => truncated (fun integer => .i64 (.ofInt 64 integer)) (-Nat.pow 2 63) (Nat.pow 2 63)
  | .ovfU8 => truncated (fun integer => .i64 (.ofInt 64 integer)) 0 (Nat.pow 2 64)

/-- The value of the other kind with the same bits. -/
def reinterpret : Value → Value
  | .i32 x => .f32 x
  | .i64 x => .f64 x
  | .f32 x => .i32 x
  | .f64 x => .i64 x

/-- An intrinsic of one operand. -/
def unary (op : Intrinsic) (value : Value) : Except Trap Value :=
  if op = .reinterpret then .ok (reinterpret value)
  else
    match value with
    | .i32 x => (orMismatch value (intUnary? op x)).map .i32
    | .i64 x => (orMismatch value (intUnary? op x)).map .i64
    | .f32 x => (orMismatch value (floatUnary? binary32 op x.toNat)).map ofWord32
    | .f64 x => (orMismatch value (floatUnary? binary64 op x.toNat)).map ofWord64

/-- An intrinsic of two operands. -/
def binary (op : Intrinsic) (left right : Value) : Except Trap Value :=
  match left, right with
  | .i32 x, .i32 y => (orMismatch left (rotate? op x y)).map .i32
  | .i64 x, .i64 y => (orMismatch left (rotate? op x y)).map .i64
  | .f32 x, .f32 y => (orMismatch left (floatBinary? binary32 op x.toNat y.toNat)).map ofWord32
  | .f64 x, .f64 y => (orMismatch left (floatBinary? binary64 op x.toNat y.toNat)).map ofWord64
  | _, _ => mismatch left

/-- Whether an intrinsic has two operands. -/
def isBinary : Intrinsic → Bool
  | .rotl | .rotr | .min | .max | .copysign => true
  | _ => false

end WasmCompiler.Machine
