/-! # Decoding errors

Why bytes are not a module, with the absolute offset at which that shows. -/

namespace WasmCompiler.Binary

/-- Something that a module has at most one of, imports included. -/
inductive Singleton where
  /-- The table. -/
  | table
  /-- The memory. -/
  | memory
  deriving DecidableEq

/-- The name of a singleton. -/
def Singleton.name : Singleton → String
  | .table => "table"
  | .memory => "memory"

/-- Why bytes are not a module or a part of one. Every error carries an absolute offset. -/
inductive Error where
  /-- The first eight bytes are not the mark and the version of the format. -/
  | badHeader (offset : Nat)
  /-- The variable-length integer that starts here does not end in time or does not fit. -/
  | malformedVarint (offset bits : Nat)
  /-- No operator has this opcode. -/
  | illegalOpcode (offset : Nat) (opcode : UInt8)
  /-- The second arm of a conditional block ends with this opcode, which starts a third one. -/
  | thirdArm (offset : Nat) (opcode : UInt8)
  /-- A branch names more levels than there are open blocks. -/
  | invalidBranchTarget (offset : Nat) (depth : UInt32) (openBlocks : Nat)
  /-- A body goes on after its end. -/
  | trailingBytes (offset : Nat)
  /-- A signature has more than one result. -/
  | tooManyResults (offset : Nat) (count : UInt32)
  /-- A module has a second table or memory. -/
  | repeatedSingleton (offset : Nat) (kind : Singleton)
  /-- The input ends too early. -/
  | unexpectedEnd (offset : Nat)
  /-- No section has this number. -/
  | unknownSection (offset : Nat) (id : UInt8)
  /-- A section follows one that it has to precede, or is a second one of its kind. -/
  | sectionOutOfOrder (offset : Nat) (id : UInt8)
  /-- A section ends before its declared length. -/
  | sectionTooLong (offset : Nat) (id : UInt8)
  /-- No value type has this byte. -/
  | invalidValueType (offset : Nat) (byte : UInt8)
  /-- An entry of the type section is not a signature. -/
  | invalidTypeForm (offset : Nat) (form : UInt8)
  /-- A table of something other than functions. -/
  | invalidElementType (offset : Nat) (byte : UInt8)
  /-- No kind of import or export has this byte. -/
  | invalidExternalKind (offset : Nat) (kind : UInt8)
  /-- A segment of a table or memory other than the first. -/
  | nonZeroIndex (offset : Nat) (kind : Singleton) (index : UInt32)
  /-- A reserved byte is not zero. -/
  | nonZeroReserved (offset : Nat)
  /-- The mark of a second arm stands outside a conditional block. -/
  | unexpectedElse (offset : Nat)
  /-- Too many blocks are open. -/
  | nestingTooDeep (offset : Nat)
  /-- An opcode that constant expressions do not have. -/
  | invalidInitializer (offset : Nat) (opcode : UInt8)
  /-- A name is not UTF-8. -/
  | invalidUtf8 (offset : Nat)
  /-- A function declares too many locals. -/
  | tooManyLocals (offset count : Nat)
  deriving DecidableEq

namespace Error

/-- The offset at which an error shows. -/
def offset : Error → Nat
  | .badHeader offset | .malformedVarint offset _ | .illegalOpcode offset _ | .thirdArm offset _
  | .invalidBranchTarget offset _ _ | .trailingBytes offset | .tooManyResults offset _
  | .repeatedSingleton offset _ | .unexpectedEnd offset | .unknownSection offset _
  | .sectionOutOfOrder offset _ | .sectionTooLong offset _ | .invalidValueType offset _
  | .invalidTypeForm offset _ | .invalidElementType offset _ | .invalidExternalKind offset _
  | .nonZeroIndex offset _ _ | .nonZeroReserved offset | .unexpectedElse offset
  | .nestingTooDeep offset | .invalidInitializer offset _ | .invalidUtf8 offset
  | .tooManyLocals offset _ => offset

/-- A byte in two hexadecimal digits after `0x`. -/
def hex (byte : UInt8) : String :=
  "0x" ++ String.ofList [Nat.digitChar (byte.toNat / 16), Nat.digitChar (byte.toNat % 16)]

/-- The sentence shown for an error. -/
def message : Error → String
  | .badHeader offset => s!"bad module header at offset {offset}: expected \\0asm version 1"
  | .malformedVarint offset bits => s!"malformed varint{bits} at offset {offset}"
  | .illegalOpcode offset opcode => s!"illegal opcode {hex opcode} at offset {offset}"
  | .thirdArm offset opcode =>
      s!"if block terminated by opcode {hex opcode} at offset {offset}, expected else or end"
  | .invalidBranchTarget offset depth openBlocks =>
      s!"branch at offset {offset} targets depth {depth} with {openBlocks} block(s) open"
  | .trailingBytes offset => s!"function body has trailing bytes at offset {offset}"
  | .tooManyResults offset count =>
      s!"function type at offset {offset} declares {count} results, at most 1 is supported"
  | .repeatedSingleton offset kind =>
      s!"more than one {kind.name} declared at offset {offset}"
  | .unexpectedEnd offset => s!"unexpected end of input at offset {offset}"
  | .unknownSection offset id => s!"unknown section id {id} at offset {offset}"
  | .sectionOutOfOrder offset id => s!"section {id} at offset {offset} is out of order or repeated"
  | .sectionTooLong offset id =>
      s!"section {id} payload not fully consumed, stopped at offset {offset}"
  | .invalidValueType offset byte => s!"invalid value type {hex byte} at offset {offset}"
  | .invalidTypeForm offset form => s!"invalid type form {hex form} at offset {offset}"
  | .invalidElementType offset byte => s!"invalid element type {hex byte} at offset {offset}"
  | .invalidExternalKind offset kind => s!"invalid external kind {kind} at offset {offset}"
  | .nonZeroIndex offset kind index =>
      s!"{kind.name} index {index} at offset {offset} must be 0"
  | .nonZeroReserved offset => s!"reserved byte at offset {offset} must be zero"
  | .unexpectedElse offset => s!"else at offset {offset} does not close an if block"
  | .nestingTooDeep offset => s!"blocks nested too deeply at offset {offset}"
  | .invalidInitializer offset opcode =>
      s!"invalid constant expression opcode {hex opcode} at offset {offset}"
  | .invalidUtf8 offset => s!"invalid UTF-8 string at offset {offset}"
  | .tooManyLocals offset count => s!"too many locals ({count}) declared at offset {offset}"

end Error

end WasmCompiler.Binary
