import WasmCompiler.Accessor
import WasmCompiler.LittleEndian
import WasmCompiler.Machine.Trap
import WasmCompiler.Value

/-! # Linear memory

A run of bytes that grows by pages. Accesses name their first byte by an address and an offset,
added without wrapping, and numbers are kept lowest byte first. -/

namespace WasmCompiler.Machine

/-- The number of bytes of a page. -/
def pageSize : Nat := 65536

/-- The greatest number of pages that addresses of 32 bits reach. -/
def maxPages : Nat := 65536

/-- A linear memory. -/
structure Memory where
  /-- The bytes by address. -/
  bytes : Array UInt8
  /-- The greatest number of pages. -/
  maximum : Nat
  deriving DecidableEq

namespace Memory

/-! ## Size -/

/-- A memory of zeros. -/
def create (initial : Nat) (maximum : Option Nat) : Except Trap Memory :=
  let maximum := min (maximum.getD maxPages) maxPages
  if initial ≤ maximum then .ok ⟨Array.replicate (initial * pageSize) 0, maximum⟩
  else .error (.memoryLimitExceeded initial maximum)

/-- The number of bytes. -/
def size (memory : Memory) : Nat :=
  memory.bytes.size

/-- The number of pages. -/
def pages (memory : Memory) : Nat :=
  memory.size / pageSize

/-- Whether pages can be added. -/
def canGrow (memory : Memory) (delta : Nat) : Bool :=
  memory.pages + delta ≤ memory.maximum

/-- Adds pages of zeros. -/
def extend (memory : Memory) (delta : Nat) : Memory :=
  { memory with bytes := memory.bytes ++ Array.replicate (delta * pageSize) 0 }

/-- Adds pages of zeros if the maximum allows it, and tells the number of pages before. -/
def grow? (memory : Memory) (delta : Nat) : Option (Nat × Memory) :=
  if memory.canGrow delta then some (memory.pages, memory.extend delta) else none

/-! ## Bytes -/

/-- Why bytes cannot be accessed, if they cannot. The end of a range is any number: only `read` can
be asked for one beyond 64 bits, and answers that it is out of bounds. -/
def rangeTrap? (memory : Memory) (start width : Nat) : Option Trap :=
  if start + width ≤ memory.size then none else some (.outOfBoundsAccess start width)

/-- Puts bytes in place from an address on. -/
def overwrite (bytes : Array UInt8) (start : Nat) : List UInt8 → Array UInt8
  | [] => bytes
  | byte :: rest => overwrite (bytes.setIfInBounds start byte) (start + 1) rest

/-- Writes bytes. -/
def write (memory : Memory) (start : Nat) (data : List UInt8) : Except Trap Memory :=
  match memory.rangeTrap? start data.length with
  | some trap => .error trap
  | none => .ok { memory with bytes := overwrite memory.bytes start data }

/-- Reads bytes. -/
def read (memory : Memory) (start width : Nat) : Except Trap (List UInt8) :=
  match memory.rangeTrap? start width with
  | some trap => .error trap
  | none => .ok (memory.bytes.extract start (start + width)).toList

/-! ## Values -/

/-- The value of a full access whose bytes spell a number. -/
def valueOf (type : ValueType) (number : Nat) : Value :=
  match type with
  | .i32 => .i32 (BitVec.ofNat 32 number)
  | .i64 => .i64 (BitVec.ofNat 64 number)
  | .f32 => .f32 (BitVec.ofNat 32 number)
  | .f64 => .f64 (BitVec.ofNat 64 number)

/-- The number of a part, widened to any width above that of the part. -/
def widen (part : Part) (signedness : Signedness) (number : Nat) (width : Nat) : BitVec width :=
  match signedness with
  | .unsigned => BitVec.ofNat width number
  | .signed => (BitVec.ofNat (8 * part.width) number).signExtend width

/-- The value that an accessor loads from bytes that spell a number; none for stores. -/
def loaded? (accessor : Accessor) (number : Nat) : Option Value :=
  match accessor with
  | .load type => some (valueOf type number)
  | .loadPart part signedness =>
      match part with
      | .byteOf32 | .halfOf32 => some (.i32 (widen part signedness number 32))
      | .byteOf64 | .halfOf64 | .wordOf64 => some (.i64 (widen part signedness number 64))
  | .store _ | .storePart _ => none

/-- Loads a value. -/
def load (memory : Memory) (accessor : Accessor) (address offset : Nat) : Except Trap Value := do
  let bytes ← memory.read (address + offset) accessor.width
  match loaded? accessor (LittleEndian.toNat bytes) with
  | some value => return value
  | none => throw (.typeMismatch accessor.type)

/-- Why a value cannot be stored, if it cannot. -/
def storeTrap? (memory : Memory) (accessor : Accessor) (address offset : Nat) (value : Value) :
    Option Trap :=
  match memory.rangeTrap? (address + offset) accessor.width with
  | some trap => some trap
  | none =>
      if accessor.isStore ∧ value.type = accessor.type then none
      else some (.typeMismatch accessor.type)

/-- The memory after a value has been stored. -/
def stored (memory : Memory) (accessor : Accessor) (address offset : Nat) (value : Value) :
    Memory :=
  let data := LittleEndian.ofNat accessor.width value.toBits
  { memory with bytes := overwrite memory.bytes (address + offset) data }

/-- Stores a value. -/
def store (memory : Memory) (accessor : Accessor) (address offset : Nat) (value : Value) :
    Except Trap Memory :=
  match memory.storeTrap? accessor address offset value with
  | some trap => .error trap
  | none => .ok (memory.stored accessor address offset value)

end Memory

end WasmCompiler.Machine
