import WasmCompiler.Binary.Cursor
import WasmCompiler.Instruction

/-! # Operators in binary form

An operator is an opcode and its immediates. A window of operators is read into a stream that ends
where the window does or at the first error. -/

namespace WasmCompiler.Binary

/-- An operator with the place and the opcode that it was read from. -/
structure Token where
  /-- The absolute offset of the opcode. -/
  offset : Nat
  /-- The opcode. -/
  opcode : UInt8
  /-- The operator. -/
  operator : Operator
  deriving DecidableEq

namespace Decoder

/-! ## Types -/

/-- The byte of a value type. -/
def valueType : Decoder ValueType := do
  let offset ← position
  let byte ← byte
  match ValueType.ofByte? byte with
  | some type => return type
  | none => throw (.invalidValueType offset byte)

/-- The byte of an empty block. -/
def emptyBlockByte : UInt8 := 0x40

/-- The byte of a block type. -/
def blockType : Decoder BlockType := do
  let offset ← position
  let byte ← byte
  if byte = emptyBlockByte then return none
  match ValueType.ofByte? byte with
  | some type => return some type
  | none => throw (.invalidValueType offset byte)

/-! ## Operators -/

/-- A byte that has to be zero. -/
def reserved : Decoder Unit := do
  let offset ← position
  unless (← byte) = 0 do throw (.nonZeroReserved offset)

/-- The rest of an operator of the control family. -/
def controlOperator (offset : Nat) (opcode : UInt8) : Decoder Operator :=
  match opcode.toNat with
  | 0x00 => return .plain .unreachable
  | 0x01 => return .plain .nop
  | 0x02 => return .block (← blockType)
  | 0x03 => return .loop (← blockType)
  | 0x04 => return .ifThen (← blockType)
  | 0x05 => return .otherwise
  | 0x0b => return .finish
  | 0x0c => return .branch (← unsigned32)
  | 0x0d => return .branchIf (← unsigned32)
  | 0x0e => do
      let depths ← vector unsigned32
      return .branchTable depths (← unsigned32)
  | 0x0f => return .plain .ret
  | 0x10 => return .plain (.call (← unsigned32))
  | 0x11 => do
      let typeIndex ← unsigned32
      reserved
      return .plain (.callIndirect typeIndex)
  | _ => throw (.illegalOpcode offset opcode)

/-- The rest of an instruction of the variable family. -/
def variableInstruction (offset : Nat) (opcode : UInt8) : Decoder PlainInstruction :=
  match opcode.toNat with
  | 0x20 => return .getLocal (← unsigned32)
  | 0x21 => return .setLocal (← unsigned32)
  | 0x22 => return .teeLocal (← unsigned32)
  | 0x23 => return .getGlobal (← unsigned32)
  | 0x24 => return .setGlobal (← unsigned32)
  | _ => throw (.illegalOpcode offset opcode)

/-- The rest of an instruction of the memory family. -/
def memoryInstruction (offset : Nat) (opcode : UInt8) : Decoder PlainInstruction :=
  match opcode.toNat with
  | 0x3f => do
      reserved
      return .currentMemory
  | 0x40 => do
      reserved
      return .growMemory
  | _ =>
      match Accessor.ofOpcode? opcode with
      | some accessor => do
          let alignment ← unsigned32
          return .access accessor alignment (← unsigned32)
      | none => throw (.illegalOpcode offset opcode)

/-- The opcode and the rest of a constant, if the opcode is that of one. -/
def constant? (opcode : UInt8) : Option (Decoder Value) :=
  match opcode.toNat with
  | 0x41 => some do return .i32 (BitVec.ofInt 32 (← signed 32))
  | 0x42 => some do return .i64 (BitVec.ofInt 64 (← signed 64))
  | 0x43 => some do return .f32 (← word32)
  | 0x44 => some do return .f64 (← word64)
  | _ => none

/-- The rest of an instruction of the numeric family. -/
def numericInstruction (offset : Nat) (opcode : UInt8) : Decoder PlainInstruction :=
  match constant? opcode with
  | some constant => return .const (← constant)
  | none =>
      match NumericOp.ofOpcode? opcode with
      | some op => return .numeric op
      | none => throw (.illegalOpcode offset opcode)

/-- The operator of an opcode, with its immediates. -/
def operatorOf (offset : Nat) (opcode : UInt8) : Decoder Operator :=
  match OpcodeFamily.ofOpcode? opcode with
  | some .control => controlOperator offset opcode
  | some .parametric => return .plain (if opcode = 0x1a then .drop else .select)
  | some .variable => return .plain (← variableInstruction offset opcode)
  | some .memory => return .plain (← memoryInstruction offset opcode)
  | some .numeric => return .plain (← numericInstruction offset opcode)
  | none => throw (.illegalOpcode offset opcode)

/-- The next operator. -/
def token : Decoder Token := do
  let offset ← position
  let opcode ← byte
  return ⟨offset, opcode, ← operatorOf offset opcode⟩

end Decoder

/-! ## Streams of operators -/

/-- The operators of a window in order. -/
inductive TokenStream where
  /-- The window ends here. -/
  | exhausted (position : Nat)
  /-- No operator can be read from the given offset on; reading stopped at a later position. -/
  | failed (offset : Nat) (error : Error) (position : Nat)
  /-- An operator and those after it. -/
  | next (token : Token) (rest : TokenStream)

namespace TokenStream

/-- The offset of the first operator of a stream, or where it would start. -/
def offset : TokenStream → Nat
  | .exhausted position => position
  | .failed offset _ _ => offset
  | .next token _ => token.offset

/-- Whether the window has bytes left. -/
def hasBytes : TokenStream → Bool
  | .exhausted _ => false
  | .failed .. | .next .. => true

/-- Puts operators, last one first, in front of a stream. -/
def reverseOnto : List Token → TokenStream → TokenStream
  | [], stream => stream
  | token :: tokens, stream => reverseOnto tokens (.next token stream)

/-- Reads operators in reverse order until the window ends or an operator cannot be read. -/
def readOnto : (fuel : Nat) → (read : List Token) → Cursor → TokenStream
  | 0, read, cursor => reverseOnto read (.exhausted cursor.position)
  | fuel + 1, read, cursor =>
      if cursor.rest.isEmpty then reverseOnto read (.exhausted cursor.position)
      else
        match Decoder.token cursor with
        | .ok token after => readOnto fuel (token :: read) after
        | .error error after => reverseOnto read (.failed cursor.position error after.position)

/-- The operators of a window. Each takes at least one byte, so there are no more operators than
bytes. -/
def ofCursor (cursor : Cursor) : TokenStream :=
  readOnto cursor.remaining [] cursor

end TokenStream

end WasmCompiler.Binary
