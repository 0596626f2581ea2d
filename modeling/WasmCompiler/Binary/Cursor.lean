import WasmCompiler.Binary.Error
import WasmCompiler.LittleEndian
import WasmCompiler.Value
import WasmCompiler.Varint

/-! # Cursors

Reading from a window of a module. A cursor knows its absolute position, so errors name offsets of
the whole module however deeply the window is nested. A failed read leaves the cursor where reading
stopped: integers of fixed width use up the window, variable-length integers stop after the byte
that made them fail, and runs of bytes that are too long for the window do not move. -/

namespace WasmCompiler.Binary

/-- A place in a window. -/
structure Cursor where
  /-- The absolute offset of the next byte. -/
  position : Nat
  /-- The bytes of the window from there on. -/
  rest : List UInt8
  deriving DecidableEq

namespace Cursor

/-- A cursor at the start of a whole input. -/
def ofBytes (bytes : List UInt8) : Cursor :=
  ⟨0, bytes⟩

/-- The number of bytes left in the window. -/
def remaining (cursor : Cursor) : Nat :=
  cursor.rest.length

/-- The absolute offset of the end of the window. -/
def limit (cursor : Cursor) : Nat :=
  cursor.position + cursor.remaining

/-- The next byte, if there is one. -/
def peek? (cursor : Cursor) : Option UInt8 :=
  cursor.rest.head?

/-- The cursor after some bytes, at most those of the window. -/
def advance (cursor : Cursor) (count : Nat) : Cursor :=
  ⟨cursor.position + min count cursor.remaining, cursor.rest.drop count⟩

end Cursor

/-- A computation that reads from a cursor. An error keeps the cursor where reading stopped. -/
abbrev Decoder := EStateM Error Cursor

namespace Decoder

/-! ## Bytes -/

/-- The absolute offset of the next byte. -/
def position : Decoder Nat := do
  return (← get).position

/-- The next byte. -/
def byte : Decoder UInt8 := fun cursor =>
  match cursor.rest with
  | [] => .error (.unexpectedEnd cursor.position) cursor
  | first :: rest => .ok first ⟨cursor.position + 1, rest⟩

/-- The next `count` bytes as a window of their own. -/
def window (count : Nat) : Decoder Cursor := fun cursor =>
  let front := cursor.rest.take count
  if front.length = count then
    .ok ⟨cursor.position, front⟩ ⟨cursor.position + count, cursor.rest.drop count⟩
  else .error (.unexpectedEnd cursor.position) cursor

/-- The next `count` bytes. -/
def bytes (count : Nat) : Decoder (List UInt8) := do
  return (← window count).rest

/-- The next `count` bytes of an integer of fixed width. -/
def fixedWidth (count : Nat) : Decoder (List UInt8) := fun cursor =>
  match bytes count cursor with
  | .ok front cursor => .ok front cursor
  | .error _ cursor =>
      let last := cursor.advance cursor.remaining
      .error (.unexpectedEnd last.position) last

/-- Four bytes, lowest first. -/
def word32 : Decoder (BitVec 32) := do
  return BitVec.ofNat 32 (LittleEndian.toNat (← fixedWidth 4))

/-- Eight bytes, lowest first. -/
def word64 : Decoder (BitVec 64) := do
  return BitVec.ofNat 64 (LittleEndian.toNat (← fixedWidth 8))

/-! ## Variable-length integers -/

/-- Takes a variable-length integer from the cursor. -/
def varint {α : Type} (bits : Nat) (read : List UInt8 → Varint.Reading α) : Decoder α :=
  fun cursor =>
    let reading := read cursor.rest
    let after := cursor.advance reading.consumed
    match reading.result with
    | .ok value => .ok value after
    | .error .endOfInput => .error (.unexpectedEnd after.position) after
    | .error (.unterminated _) | .error (.overflow _) =>
        .error (.malformedVarint cursor.position bits) after

/-- An unsigned integer of `bits` bits. -/
def unsigned (bits : Nat) : Decoder Nat :=
  varint bits (Varint.readUnsigned bits)

/-- A signed integer of `bits` bits. -/
def signed (bits : Nat) : Decoder Int :=
  varint bits (Varint.readSigned bits)

/-- A single bit. -/
def flag : Decoder Bool := do
  return (← unsigned 1) == 1

/-- An unsigned integer of 7 bits. -/
def unsigned7 : Decoder UInt8 := do
  return (← unsigned 7).toUInt8

/-- An unsigned integer of 32 bits: an index, a count or a size. -/
def unsigned32 : Decoder UInt32 := do
  return (← unsigned 32).toUInt32

/-! ## Compounds -/

/-- Reads `count` items, after those already read in reverse order. -/
def repeatOnto {α : Type} (item : Decoder α) : (count : Nat) → (read : List α) → Decoder (List α)
  | 0, read => return read.reverse
  | count + 1, read => do repeatOnto item count ((← item) :: read)

/-- Reads a count and then that many items. -/
def vector {α : Type} (item : Decoder α) : Decoder (List α) := do
  repeatOnto item (← unsigned32).toNat []

/-- A name: its length in bytes, then the bytes in UTF-8. -/
def name : Decoder String := do
  let count ← unsigned32
  let offset ← position
  let text ← bytes count.toNat
  match String.fromUTF8? ⟨text.toArray⟩ with
  | some name => return name
  | none => throw (.invalidUtf8 offset)

/-- Fails with the given error, at the next offset, unless the window is used up. -/
def expectEnd (error : (offset : Nat) → Error) : Decoder Unit := do
  let cursor ← get
  unless cursor.rest.isEmpty do throw (error cursor.position)

/-- Runs a decoder on a window of its own and leaves the cursor as it is. -/
def within {α : Type} (window : Cursor) (decoder : Decoder α) : Decoder α := fun cursor =>
  match decoder window with
  | .ok value _ => .ok value cursor
  | .error error _ => .error error cursor

/-- The outcome of a decoder on a cursor, without the cursor afterwards. -/
def outcome {α : Type} (decoder : Decoder α) (cursor : Cursor) : Except Error α :=
  match decoder cursor with
  | .ok value _ => .ok value
  | .error error _ => .error error

end Decoder

end WasmCompiler.Binary
