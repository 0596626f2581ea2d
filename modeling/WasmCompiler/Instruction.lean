import WasmCompiler.Accessor
import WasmCompiler.NumericOp
import WasmCompiler.Value

/-! # Instructions

Plain instructions mean the same wherever they stand. Operators add the marks of block structure, as
a module encodes them: branches count enclosing blocks. -/

namespace WasmCompiler

/-- An instruction that takes no part in the nesting of blocks. -/
inductive PlainInstruction where
  /-- Traps. -/
  | unreachable
  /-- Does nothing. -/
  | nop
  /-- Leaves the function. -/
  | ret
  /-- Calls a function. -/
  | call (function : UInt32)
  /-- Calls the function in a table slot, which must have the signature of the given index. -/
  | callIndirect (typeIndex : UInt32)
  /-- Discards a value. -/
  | drop
  /-- Keeps one of two values. -/
  | select
  /-- Reads a parameter or a local. -/
  | getLocal (index : UInt32)
  /-- Replaces a parameter or a local. -/
  | setLocal (index : UInt32)
  /-- Replaces a parameter or a local and keeps the value. -/
  | teeLocal (index : UInt32)
  /-- Reads a global. -/
  | getGlobal (index : UInt32)
  /-- Replaces a global. -/
  | setGlobal (index : UInt32)
  /-- Loads from or stores to memory; the alignment is a hint. -/
  | access (accessor : Accessor) (alignment offset : UInt32)
  /-- The number of pages of memory. -/
  | currentMemory
  /-- Adds pages to memory. -/
  | growMemory
  /-- A constant. -/
  | const (value : Value)
  /-- A numeric operation. -/
  | numeric (op : NumericOp)
  deriving DecidableEq

/-- An instruction as a module encodes it. -/
inductive Operator where
  /-- An instruction without block structure. -/
  | plain (instruction : PlainInstruction)
  /-- Opens a block that branches leave. -/
  | block (type : BlockType)
  /-- Opens a block that branches repeat. -/
  | loop (type : BlockType)
  /-- Opens a conditional block. -/
  | ifThen (type : BlockType)
  /-- Starts the second arm of a conditional block. -/
  | otherwise
  /-- Closes a block or the body. -/
  | finish
  /-- Branches to an enclosing block, the innermost having depth 0. -/
  | branch (depth : UInt32)
  /-- Branches if a condition holds. -/
  | branchIf (depth : UInt32)
  /-- Branches to the block that an operand selects, or to the last one. -/
  | branchTable (depths : List UInt32) (fallback : UInt32)
  deriving DecidableEq

/-- A family of neighbouring opcodes. -/
inductive OpcodeFamily where
  | control | parametric | variable | memory | numeric
  deriving DecidableEq

namespace OpcodeFamily

/-- The least and the greatest opcode of a family. -/
def range : OpcodeFamily → Nat × Nat
  | .control => (0x00, 0x11)
  | .parametric => (0x1a, 0x1b)
  | .variable => (0x20, 0x24)
  | .memory => (0x28, 0x40)
  | .numeric => (0x41, 0xbf)

/-- Whether an opcode lies in the range of a family. -/
def contains (family : OpcodeFamily) (opcode : UInt8) : Bool :=
  decide (family.range.1 ≤ opcode.toNat ∧ opcode.toNat ≤ family.range.2)

/-- The family of an opcode. -/
def ofOpcode? (opcode : UInt8) : Option OpcodeFamily :=
  [.control, .parametric, .variable, .memory, .numeric].find? (contains · opcode)

end OpcodeFamily

end WasmCompiler
