import WasmCompiler.Binary.Body
import WasmCompiler.Module

/-! # Sections in binary form

A module is a header and sections in ascending order, each with its length. Every kind of section
adds one part of the module. Sections of number 0 may stand anywhere and are passed over. -/

namespace WasmCompiler.Binary

/-- A kind of section that adds to a module. -/
inductive SectionKind where
  | types | imports | functions | table | memory | globals | exports | start | elements | code
  | data
  deriving DecidableEq

namespace SectionKind

/-- Every kind of section, in the order of their numbers. -/
def all : List SectionKind :=
  [.types, .imports, .functions, .table, .memory, .globals, .exports, .start, .elements, .code,
    .data]

/-- The number of the sections that are passed over. -/
def customId : UInt8 := 0

/-- The number of a kind of section. -/
def id (kind : SectionKind) : UInt8 :=
  (all.idxOf kind + 1).toUInt8

/-- The kind of section that has a number. -/
def ofId? (id : UInt8) : Option SectionKind :=
  if id = customId then none else all[id.toNat - 1]?

/-- A kind of section is found by its own number. -/
@[simp] theorem ofId?_id (kind : SectionKind) : ofId? kind.id = some kind := by
  cases kind <;> rfl

end SectionKind

namespace Decoder

/-! ## Types -/

/-- The byte that starts a signature. -/
def signatureForm : UInt8 := 0x60

/-- A signature. -/
def signature : Decoder Signature := do
  let offset ← position
  let form ← byte
  unless form = signatureForm do throw (.invalidTypeForm offset form)
  let params ← vector valueType
  let resultsOffset ← position
  let count ← unsigned32
  if 1 < count then throw (.tooManyResults resultsOffset count)
  let results ← repeatOnto valueType count.toNat []
  return ⟨params, results⟩

/-- The limits of a table or a memory. -/
def limits : Decoder Limits := do
  let bounded ← flag
  let initial ← unsigned32
  if bounded then return ⟨initial, some (← unsigned32)⟩
  return ⟨initial, none⟩

/-- The byte of the only type of table elements. -/
def functionElementByte : UInt8 := 0x70

/-- The type of a table: its limits after the type of its elements. -/
def tableType : Decoder Limits := do
  let offset ← position
  let byte ← byte
  unless byte = functionElementByte do throw (.invalidElementType offset byte)
  limits

/-- The type of a global. -/
def globalType : Decoder GlobalType := do
  let content ← valueType
  return ⟨content, ← flag⟩

/-- The opcode that reads a global. -/
def getGlobalOpcode : UInt8 := 0x23

/-- The opcode that ends a constant expression. -/
def finishOpcode : UInt8 := 0x0b

/-- A constant expression: one constant or global, and the end. -/
def initializer : Decoder Initializer := do
  let offset ← position
  let opcode ← byte
  let initial ← match constant? opcode with
    | some constant => Initializer.constant <$> constant
    | none =>
        if opcode = getGlobalOpcode then Initializer.getGlobal <$> unsigned32
        else throw (.invalidInitializer offset opcode)
  let offset ← position
  let opcode ← byte
  unless opcode = finishOpcode do throw (.invalidInitializer offset opcode)
  return initial

/-! ## Entries -/

/-- An import, given those before it. -/
def importEntry (earlier : List Import) : Decoder Import := do
  let offset ← position
  let moduleName ← name
  let field ← name
  let kindOffset ← position
  let kind ← match (← byte).toNat with
    | 0 => ImportKind.function <$> unsigned32
    | 1 => do
        if earlier.any fun entry => entry.table?.isSome then
          throw (.repeatedSingleton offset .table)
        ImportKind.table <$> tableType
    | 2 => do
        if earlier.any fun entry => entry.memory?.isSome then
          throw (.repeatedSingleton offset .memory)
        ImportKind.memory <$> limits
    | 3 => ImportKind.global <$> globalType
    | kind => throw (.invalidExternalKind kindOffset kind.toUInt8)
  return ⟨moduleName, field, kind⟩

/-- Reads imports after those already read, last one first. -/
def importsOnto : (count : Nat) → (read : List Import) → Decoder (List Import)
  | 0, read => return read.reverse
  | count + 1, read => do importsOnto count ((← importEntry read) :: read)

/-- A section that holds at most one entry, if the module has none yet. -/
def singleton (kind : Singleton) (present : Bool) (entry : Decoder Limits) :
    Decoder (Option Limits) := do
  let offset ← position
  let count ← unsigned32
  if count = 0 then return none
  if present then throw (.repeatedSingleton offset kind)
  let limits ← entry
  if 1 < count then throw (.repeatedSingleton offset kind)
  return some limits

/-- A global with its first value. -/
def globalEntry : Decoder Global := do
  let type ← globalType
  return ⟨type, ← initializer⟩

/-- An entity by its kind and index. -/
def entity : Decoder Entity := do
  let offset ← position
  let kind ← byte
  let index ← unsigned32
  match kind.toNat with
  | 0 => return .function index
  | 1 => return .table index
  | 2 => return .memory index
  | 3 => return .global index
  | _ => throw (.invalidExternalKind offset kind)

/-- An export. -/
def exportEntry : Decoder Export := do
  let name ← name
  return ⟨name, ← entity⟩

/-- The index of the table or memory that a segment fills, which has to be the first. -/
def segmentIndex (kind : Singleton) : Decoder Unit := do
  let offset ← position
  let index ← unsigned32
  unless index = 0 do throw (.nonZeroIndex offset kind index)

/-- A segment of the table. -/
def elementSegment : Decoder ElementSegment := do
  segmentIndex .table
  let offset ← initializer
  return ⟨offset, ← vector unsigned32⟩

/-- A segment of the memory. -/
def dataSegment : Decoder DataSegment := do
  segmentIndex .memory
  let offset ← initializer
  let size ← unsigned32
  return ⟨offset, ← bytes size.toNat⟩

/-- A function body with its length. -/
def codeEntry : Decoder Body := do
  let size ← unsigned32
  let entry ← window size.toNat
  within entry body

/-! ## Modules -/

/-- Adds the payload of a section to a module. -/
def payload (kind : SectionKind) (module : Module) : Decoder Module := do
  match kind with
  | .types => return { module with types := ← vector signature }
  | .imports => return { module with imports := ← importsOnto (← unsigned32).toNat [] }
  | .functions => return { module with functions := ← vector unsigned32 }
  | .table => return { module with table := ← singleton .table module.hasTable tableType }
  | .memory => return { module with memory := ← singleton .memory module.hasMemory limits }
  | .globals => return { module with globals := ← vector globalEntry }
  | .exports => return { module with exports := ← vector exportEntry }
  | .start => return { module with start := some (← unsigned32) }
  | .elements => return { module with elements := ← vector elementSegment }
  | .code => return { module with bodies := ← vector codeEntry }
  | .data => return { module with data := ← vector dataSegment }

/-- A section, given the number of the last one that counts in the order and the module so far;
the results are those after the section. -/
def nextSection (last : UInt8) (module : Module) : Decoder (UInt8 × Module) := do
  let offset ← position
  let id ← unsigned7
  let length ← unsigned32
  let contents ← window length.toNat
  if id = SectionKind.customId then return (last, module)
  match SectionKind.ofId? id with
  | none => throw (.unknownSection offset id)
  | some kind =>
      if id ≤ last then throw (.sectionOutOfOrder offset id)
      let module ← within contents do
        let module ← payload kind module
        expectEnd (.sectionTooLong · id)
        return module
      return (id, module)

/-- Sections up to the end of the window. -/
def sections : (fuel : Nat) → (last : UInt8) → Module → Decoder Module
  | 0, _, module => return module
  | fuel + 1, last, module => do
      if (← get).rest.isEmpty then return module
      let (last, module) ← nextSection last module
      sections fuel last module

/-- The bytes that start every module. -/
def magic : List UInt8 := [0x00, 0x61, 0x73, 0x6d]

/-- The bytes of the version. -/
def versionBytes : List UInt8 := [Module.version.toUInt8, 0x00, 0x00, 0x00]

/-- Four bytes of the header. -/
def headerField (expected : List UInt8) : Decoder Unit := fun cursor =>
  if cursor.rest.take expected.length = expected then .ok () (cursor.advance expected.length)
  else .error (.badHeader cursor.position) cursor

/-- A module that takes up the whole window. Each section takes at least one byte, so there are no
more sections than bytes. -/
def module : Decoder Module := do
  headerField magic
  headerField versionBytes
  sections (← get).remaining 0 {}

end Decoder

/-- The module that some bytes are. -/
def decodeModule (bytes : List UInt8) : Except Error Module :=
  Decoder.module.outcome (Cursor.ofBytes bytes)

end WasmCompiler.Binary
