import WasmCompiler.Accessor
import WasmCompiler.Value

/-! # Operations of the bytecode

The instruction set of the machine. Comparisons and computations take the type of their operands as
they find it; forms ending in `Un` read integers without sign and hold for unordered numbers. The
type of branch targets is a parameter: labels while a function is built, positions afterwards. -/

namespace WasmCompiler.Bytecode

/-- A comparison of two operands of one type. -/
inductive Comparison where
  | eq | gt | gtUn | lt | ltUn
  deriving DecidableEq

/-- A computation on two operands, or on one for `neg`. -/
inductive Arithmetic where
  | add | sub | mul | div | divUn | rem | remUn | and | or | xor | shl | shr | shrUn | neg
  deriving DecidableEq

/-- A conversion; those with `ovf` trap where the integer does not fit. -/
inductive Conversion where
  | i4 | i8 | u8 | r4 | r8 | r4Un | r8Un | ovfI4 | ovfU4 | ovfI8 | ovfU8
  deriving DecidableEq

/-- A computation that the machine provides as a call. -/
inductive Intrinsic where
  | clz | ctz | popcnt | rotl | rotr | abs | ceil | floor | trunc | nearest | sqrt | min | max
  | copysign | reinterpret
  deriving DecidableEq

/-- An operation, with branch targets of the given type. -/
inductive Op (Target : Type) where
  /-- Pushes an argument. -/
  | loadArg (index : Nat)
  /-- Pops into an argument. -/
  | storeArg (index : Nat)
  /-- Pushes a local. -/
  | loadLocal (index : Nat)
  /-- Pops into a local. -/
  | storeLocal (index : Nat)
  /-- Pushes a global. -/
  | loadGlobal (index : Nat)
  /-- Pops into a global. -/
  | storeGlobal (index : Nat)
  /-- Pushes a constant. -/
  | const (value : Value)
  /-- Discards the top operand. -/
  | pop
  /-- Pops a condition and two operands and pushes the first if the condition is not zero, else the
  second. -/
  | select
  /-- Pops two operands and pushes whether they compare so. -/
  | compare (op : Comparison)
  /-- Pops the operands and pushes the result. -/
  | arith (op : Arithmetic)
  /-- Converts the top operand. -/
  | convert (op : Conversion)
  /-- Pops the operands and pushes the result. -/
  | intrinsic (op : Intrinsic)
  /-- Branches. -/
  | jump (target : Target)
  /-- Pops a condition and branches if it is not zero. -/
  | jumpIf (target : Target)
  /-- Pops a condition and branches if it is zero. -/
  | jumpUnless (target : Target)
  /-- Pops a selector and branches to the target of that number, or else to the last one. -/
  | switch (targets : List Target) (fallback : Target)
  /-- Removes operands from beneath the top ones. -/
  | unwind (drop keep : Nat)
  /-- Loads from or stores to memory at an offset from the address on the stack. -/
  | access (accessor : Accessor) (offset : Nat)
  /-- Pushes the number of pages. -/
  | currentMemory
  /-- Pops a number of pages to add and pushes the number before, or -1. -/
  | growMemory
  /-- Calls a function. -/
  | call (function : Nat)
  /-- Pops a table slot and calls the function in it, which must have the signature. -/
  | callIndirect (typeIndex : Nat)
  /-- Returns. -/
  | ret
  /-- Traps. -/
  | trap
  deriving DecidableEq

namespace Op

variable {α β : Type}

/-- The targets that an operation may branch to, in order. -/
def targets : Op α → List α
  | .jump target | .jumpIf target | .jumpUnless target => [target]
  | .switch targets fallback => targets ++ [fallback]
  | _ => []

/-- Replaces every target, in order, by the outcome of a function that may fail. -/
def mapTargets {ε : Type} (patch : α → Except ε β) : Op α → Except ε (Op β)
  | .loadArg index => .ok (.loadArg index)
  | .storeArg index => .ok (.storeArg index)
  | .loadLocal index => .ok (.loadLocal index)
  | .storeLocal index => .ok (.storeLocal index)
  | .loadGlobal index => .ok (.loadGlobal index)
  | .storeGlobal index => .ok (.storeGlobal index)
  | .const value => .ok (.const value)
  | .pop => .ok .pop
  | .select => .ok .select
  | .compare op => .ok (.compare op)
  | .arith op => .ok (.arith op)
  | .convert op => .ok (.convert op)
  | .intrinsic op => .ok (.intrinsic op)
  | .jump target => do return .jump (← patch target)
  | .jumpIf target => do return .jumpIf (← patch target)
  | .jumpUnless target => do return .jumpUnless (← patch target)
  | .switch targets fallback => do
      let targets ← targets.mapM patch
      return .switch targets (← patch fallback)
  | .unwind drop keep => .ok (.unwind drop keep)
  | .access accessor offset => .ok (.access accessor offset)
  | .currentMemory => .ok .currentMemory
  | .growMemory => .ok .growMemory
  | .call function => .ok (.call function)
  | .callIndirect typeIndex => .ok (.callIndirect typeIndex)
  | .ret => .ok .ret
  | .trap => .ok .trap

end Op

/-! ## Mnemonics -/

/-- Every comparison. -/
def Comparison.all : List Comparison :=
  [.eq, .gt, .gtUn, .lt, .ltUn]

/-- The mnemonic of a comparison. -/
def Comparison.mnemonic : Comparison → String
  | .eq => "ceq"
  | .gt => "cgt"
  | .gtUn => "cgt.un"
  | .lt => "clt"
  | .ltUn => "clt.un"

/-- Every computation. -/
def Arithmetic.all : List Arithmetic :=
  [.add, .sub, .mul, .div, .divUn, .rem, .remUn, .and, .or, .xor, .shl, .shr, .shrUn, .neg]

/-- The mnemonic of a computation. -/
def Arithmetic.mnemonic : Arithmetic → String
  | .add => "add"
  | .sub => "sub"
  | .mul => "mul"
  | .div => "div"
  | .divUn => "div.un"
  | .rem => "rem"
  | .remUn => "rem.un"
  | .and => "and"
  | .or => "or"
  | .xor => "xor"
  | .shl => "shl"
  | .shr => "shr"
  | .shrUn => "shr.un"
  | .neg => "neg"

/-- Every conversion. -/
def Conversion.all : List Conversion :=
  [.i4, .i8, .u8, .r4, .r8, .r4Un, .r8Un, .ovfI4, .ovfU4, .ovfI8, .ovfU8]

/-- The mnemonic of a conversion. -/
def Conversion.mnemonic : Conversion → String
  | .i4 => "conv.i4"
  | .i8 => "conv.i8"
  | .u8 => "conv.u8"
  | .r4 => "conv.r4"
  | .r8 => "conv.r8"
  | .r4Un => "conv.r4.un"
  | .r8Un => "conv.r8.un"
  | .ovfI4 => "conv.ovf.i4"
  | .ovfU4 => "conv.ovf.u4"
  | .ovfI8 => "conv.ovf.i8"
  | .ovfU8 => "conv.ovf.u8"

/-- Every intrinsic. -/
def Intrinsic.all : List Intrinsic :=
  [.clz, .ctz, .popcnt, .rotl, .rotr, .abs, .ceil, .floor, .trunc, .nearest, .sqrt, .min, .max,
    .copysign, .reinterpret]

/-- The mnemonic of an intrinsic. -/
def Intrinsic.mnemonic : Intrinsic → String
  | .clz => "clz"
  | .ctz => "ctz"
  | .popcnt => "popcnt"
  | .rotl => "rotl"
  | .rotr => "rotr"
  | .abs => "abs"
  | .ceil => "ceil"
  | .floor => "floor"
  | .trunc => "trunc"
  | .nearest => "nearest"
  | .sqrt => "sqrt"
  | .min => "min"
  | .max => "max"
  | .copysign => "copysign"
  | .reinterpret => "reinterpret"

end WasmCompiler.Bytecode
