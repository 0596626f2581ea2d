import WasmCompiler.ValueType

/-! # Memory accessors

Typed loads and stores of linear memory. A full access moves all bits of a value; a part moves the
low bits of an integer, which a load widens again by sign or by zeros. -/

namespace WasmCompiler

/-- The low bits of an integer that a narrow access moves. -/
inductive Part where
  /-- The low 8 bits of a 32-bit integer. -/
  | byteOf32
  /-- The low 16 bits of a 32-bit integer. -/
  | halfOf32
  /-- The low 8 bits of a 64-bit integer. -/
  | byteOf64
  /-- The low 16 bits of a 64-bit integer. -/
  | halfOf64
  /-- The low 32 bits of a 64-bit integer. -/
  | wordOf64
  deriving DecidableEq

namespace Part

/-- The type of the integer. -/
def type : Part → ValueType
  | .byteOf32 | .halfOf32 => .i32
  | .byteOf64 | .halfOf64 | .wordOf64 => .i64

/-- The number of bytes of the part. -/
def width : Part → Nat
  | .byteOf32 | .byteOf64 => 1
  | .halfOf32 | .halfOf64 => 2
  | .wordOf64 => 4

end Part

/-- The number of bytes of a value. -/
def ValueType.width : ValueType → Nat
  | .i32 | .f32 => 4
  | .i64 | .f64 => 8

/-- A typed access to memory. -/
inductive Accessor where
  /-- Loads a value of the type. -/
  | load (type : ValueType)
  /-- Loads a part and widens it. -/
  | loadPart (part : Part) (signedness : Signedness)
  /-- Stores a value of the type. -/
  | store (type : ValueType)
  /-- Stores a part and leaves the other bits out. -/
  | storePart (part : Part)
  deriving DecidableEq

namespace Accessor

/-- Every accessor, in the order of their opcodes. -/
def all : List Accessor :=
  [.load .i32, .load .i64, .load .f32, .load .f64,
    .loadPart .byteOf32 .signed, .loadPart .byteOf32 .unsigned,
    .loadPart .halfOf32 .signed, .loadPart .halfOf32 .unsigned,
    .loadPart .byteOf64 .signed, .loadPart .byteOf64 .unsigned,
    .loadPart .halfOf64 .signed, .loadPart .halfOf64 .unsigned,
    .loadPart .wordOf64 .signed, .loadPart .wordOf64 .unsigned,
    .store .i32, .store .i64, .store .f32, .store .f64,
    .storePart .byteOf32, .storePart .halfOf32,
    .storePart .byteOf64, .storePart .halfOf64, .storePart .wordOf64]

/-- The opcode of the first accessor. -/
def firstOpcode : Nat := 0x28

/-- The opcode of an accessor. -/
def opcode (accessor : Accessor) : UInt8 :=
  (firstOpcode + all.idxOf accessor).toUInt8

/-- The accessor of an opcode. -/
def ofOpcode? (opcode : UInt8) : Option Accessor :=
  if firstOpcode ≤ opcode.toNat then all[opcode.toNat - firstOpcode]? else none

/-- Whether the access writes memory. -/
def isStore : Accessor → Bool
  | .load _ | .loadPart _ _ => false
  | .store _ | .storePart _ => true

/-- The number of bytes accessed. -/
def width : Accessor → Nat
  | .load type | .store type => type.width
  | .loadPart part _ | .storePart part => part.width

/-- The type of the value that is loaded or stored. -/
def type : Accessor → ValueType
  | .load type | .store type => type
  | .loadPart part _ | .storePart part => part.type

/-! ## Names -/

/-- The name of the instruction that uses the accessor. -/
def mnemonic (accessor : Accessor) : String :=
  let bits := 8 * accessor.width
  let type := accessor.type.name
  match accessor with
  | .load _ => s!"{type}.load"
  | .loadPart _ .signed => s!"{type}.load{bits}_s"
  | .loadPart _ .unsigned => s!"{type}.load{bits}_u"
  | .store _ => s!"{type}.store"
  | .storePart _ => s!"{type}.store{bits}"

/-- The name of the accessor in listings. -/
def name (accessor : Accessor) : String :=
  let bits := 8 * accessor.width
  let typeBits := 8 * accessor.type.width
  match accessor with
  | .load .f32 => "LoadSingle"
  | .load .f64 => "LoadDouble"
  | .load _ | .loadPart _ .signed => s!"Load{bits}BitAsSigned{typeBits}"
  | .loadPart _ .unsigned => s!"Load{bits}BitAsUnsigned{typeBits}"
  | .store .f32 => "StoreSingle"
  | .store .f64 => "StoreDouble"
  | .store _ | .storePart _ => s!"Store{bits}BitFrom{typeBits}"

end Accessor

end WasmCompiler
