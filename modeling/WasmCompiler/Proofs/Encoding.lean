import WasmCompiler.Binary.Section
import WasmCompiler.Proofs.Grammar

/-! # The binary form of modules

The reference layout of a module: the header and then its sections in ascending order, those that
would be empty left out. Lengths are exact, integers are in their shortest form, names are in UTF-8,
and locals are grouped into the longest runs of one type.

* **`encodeModule`** — the bytes of a module;
* **`Module.placed`** — a module with the positions that its opcodes have in those bytes;
* **`OpcodesAt`** — what it means that offsets are such positions;
* **`Encodable`** — the modules that have a binary form. -/

namespace WasmCompiler

namespace Binary

open Varint

/-! ## Integers, runs and names -/

/-- An index, a count or a size. -/
def encodeIndex (index : UInt32) : List UInt8 :=
  unsignedForm index.toNat

/-- A single bit. -/
def encodeFlag (set : Bool) : List UInt8 :=
  unsignedForm set.toNat

/-- Bytes after their number. -/
def encodeSized (bytes : List UInt8) : List UInt8 :=
  unsignedForm bytes.length ++ bytes

/-- Items after their number. -/
def encodeVector {α : Type} (item : α → List UInt8) (values : List α) : List UInt8 :=
  unsignedForm values.length ++ values.flatMap item

/-- A name in UTF-8 after its length. -/
def encodeName (name : String) : List UInt8 :=
  encodeSized name.toUTF8.data.toList

/-! ## Types and constant expressions -/

/-- The byte of a value type. -/
def encodeValueType (type : ValueType) : List UInt8 :=
  [type.toByte]

/-- A signature. -/
def encodeSignature (signature : Signature) : List UInt8 :=
  Decoder.signatureForm ::
    (encodeVector encodeValueType signature.params ++
      encodeVector encodeValueType signature.results)

/-- The limits of a table or a memory: whether there is a greatest size comes first. -/
def encodeLimits (limits : Limits) : List UInt8 :=
  encodeFlag limits.maximum.isSome ++
    (encodeIndex limits.initial ++ limits.maximum.toList.flatMap encodeIndex)

/-- The type of a table. -/
def encodeTableType (limits : Limits) : List UInt8 :=
  Decoder.functionElementByte :: encodeLimits limits

/-- The type of a global. -/
def encodeGlobalType (type : GlobalType) : List UInt8 :=
  encodeValueType type.content ++ encodeFlag type.isMutable

/-- The instruction that gives a constant. -/
def encodeConstant : Value → List UInt8
  | .i32 bits => 0x41 :: signedForm bits.toInt
  | .i64 bits => 0x42 :: signedForm bits.toInt
  | .f32 bits => 0x43 :: LittleEndian.ofNat 4 bits.toNat
  | .f64 bits => 0x44 :: LittleEndian.ofNat 8 bits.toNat

/-- A constant expression. -/
def encodeInitializer : Initializer → List UInt8
  | .constant value => encodeConstant value ++ [Decoder.finishOpcode]
  | .getGlobal index => Decoder.getGlobalOpcode :: (encodeIndex index ++ [Decoder.finishOpcode])

/-! ## Entries -/

/-- What an import stands for. -/
def encodeImportKind : ImportKind → List UInt8
  | .function typeIndex => 0 :: encodeIndex typeIndex
  | .table limits => 1 :: encodeTableType limits
  | .memory limits => 2 :: encodeLimits limits
  | .global type => 3 :: encodeGlobalType type

/-- An import. -/
def encodeImport (entry : Import) : List UInt8 :=
  encodeName entry.moduleName ++ (encodeName entry.field ++ encodeImportKind entry.kind)

/-- A global with its first value. -/
def encodeGlobal (entry : Global) : List UInt8 :=
  encodeGlobalType entry.type ++ encodeInitializer entry.initial

/-- An entity by its kind and index. -/
def encodeEntity : Entity → List UInt8
  | .function index => 0 :: encodeIndex index
  | .table index => 1 :: encodeIndex index
  | .memory index => 2 :: encodeIndex index
  | .global index => 3 :: encodeIndex index

/-- An export. -/
def encodeExport (entry : Export) : List UInt8 :=
  encodeName entry.name ++ encodeEntity entry.entity

/-- A segment of the table, after the index 0. -/
def encodeElementSegment (segment : ElementSegment) : List UInt8 :=
  encodeIndex 0 ++ (encodeInitializer segment.offset ++ encodeVector encodeIndex segment.functions)

/-- A segment of the memory, after the index 0. -/
def encodeDataSegment (segment : DataSegment) : List UInt8 :=
  encodeIndex 0 ++ (encodeInitializer segment.offset ++ encodeSized segment.bytes)

/-! ## Bodies -/

/-- An instruction without block structure. -/
def encodePlain : PlainInstruction → List UInt8
  | .unreachable => [0x00]
  | .nop => [0x01]
  | .ret => [0x0f]
  | .call function => 0x10 :: encodeIndex function
  | .callIndirect typeIndex => 0x11 :: (encodeIndex typeIndex ++ [0])
  | .drop => [0x1a]
  | .select => [0x1b]
  | .getLocal index => 0x20 :: encodeIndex index
  | .setLocal index => 0x21 :: encodeIndex index
  | .teeLocal index => 0x22 :: encodeIndex index
  | .getGlobal index => 0x23 :: encodeIndex index
  | .setGlobal index => 0x24 :: encodeIndex index
  | .access accessor alignment offset =>
      accessor.opcode :: (encodeIndex alignment ++ encodeIndex offset)
  | .currentMemory => [0x3f, 0]
  | .growMemory => [0x40, 0]
  | .const value => encodeConstant value
  | .numeric op => [op.opcode]

/-- An operator: its opcode and its immediates. -/
def encodeOperator : Operator → List UInt8
  | .plain instruction => encodePlain instruction
  | .block type => [0x02, Decoder.blockTypeByte type]
  | .loop type => [0x03, Decoder.blockTypeByte type]
  | .ifThen type => [0x04, Decoder.blockTypeByte type]
  | .otherwise => [0x05]
  | .finish => [0x0b]
  | .branch depth => 0x0c :: encodeIndex depth
  | .branchIf depth => 0x0d :: encodeIndex depth
  | .branchTable depths fallback =>
      0x0e :: (encodeVector encodeIndex depths ++ encodeIndex fallback)

/-- The longest runs of equal values, each with its length. -/
def runs {α : Type} [DecidableEq α] : List α → List (Nat × α)
  | [] => []
  | value :: values =>
      match runs values with
      | [] => [(1, value)]
      | (count, other) :: rest =>
          if value = other then (count + 1, other) :: rest else (1, value) :: (count, other) :: rest

/-- A run of locals of one type. -/
def encodeRun (run : Nat × ValueType) : List UInt8 :=
  unsignedForm run.1 ++ encodeValueType run.2

/-- The locals of a body. -/
def encodeLocals (locals : List ValueType) : List UInt8 :=
  encodeVector encodeRun (runs locals)

/-- A body: its locals and its operators in order, the end among them. -/
def encodeBody (body : Body) : List UInt8 :=
  encodeLocals body.locals ++ body.operators.flatMap encodeOperator

/-! ## Sections -/

/-- Whether a module has nothing that a section of a kind would hold. -/
def SectionKind.isEmpty (module : Module) : SectionKind → Bool
  | .types => module.types.isEmpty
  | .imports => module.imports.isEmpty
  | .functions => module.functions.isEmpty
  | .table => module.table.isNone
  | .memory => module.memory.isNone
  | .globals => module.globals.isEmpty
  | .exports => module.exports.isEmpty
  | .start => module.start.isNone
  | .elements => module.elements.isEmpty
  | .code => module.bodies.isEmpty
  | .data => module.data.isEmpty

/-- What a section of a kind holds. -/
def encodePayload (module : Module) : SectionKind → List UInt8
  | .types => encodeVector encodeSignature module.types
  | .imports => encodeVector encodeImport module.imports
  | .functions => encodeVector encodeIndex module.functions
  | .table => encodeVector encodeTableType module.table.toList
  | .memory => encodeVector encodeLimits module.memory.toList
  | .globals => encodeVector encodeGlobal module.globals
  | .exports => encodeVector encodeExport module.exports
  | .start => module.start.toList.flatMap encodeIndex
  | .elements => encodeVector encodeElementSegment module.elements
  | .code => encodeVector (fun body => encodeSized (encodeBody body)) module.bodies
  | .data => encodeVector encodeDataSegment module.data

/-- A section with its number and its length, unless it would be empty. -/
def encodeSection (module : Module) (kind : SectionKind) : List UInt8 :=
  if kind.isEmpty module then [] else kind.id :: encodeSized (encodePayload module kind)

/-- The bytes that start every module. -/
def header : List UInt8 :=
  Decoder.magic ++ Decoder.versionBytes

/-- **The binary form of a module.** -/
def encodeModule (module : Module) : List UInt8 :=
  header ++ SectionKind.all.flatMap (encodeSection module)

end Binary

/-! ## Positions of opcodes -/

/-- The positions of operators that follow each other from a position on. -/
def Operator.positions : (position : Nat) → List Operator → List Nat
  | _, [] => []
  | position, operator :: operators =>
      position :: positions (position + (Binary.encodeOperator operator).length) operators

namespace Body

/-- A body without the positions of its opcodes. -/
def withoutOffsets (body : Body) : Body :=
  { body with offsets := #[] }

/-- A body with the positions of its opcodes if its binary form starts at a position. -/
def placed (body : Body) (position : Nat) : Body :=
  let start := position + (Binary.encodeLocals body.locals).length
  { body with offsets := (Operator.positions start body.operators).toArray }

/-- Bodies with the positions of their opcodes if their entries follow each other from a position
on. Each entry starts with the length of the body. -/
def allPlaced : (position : Nat) → List Body → List Body
  | _, [] => []
  | position, body :: bodies =>
      let size := (Binary.encodeBody body).length
      let start := position + (Varint.unsignedForm size).length
      body.placed start :: allPlaced (start + size) bodies

/-- Whether a body is linked code, whatever the positions of its opcodes, in which no block lies
inside 1024 others. -/
def IsLinked (body : Body) : Prop :=
  ∃ (code : Code 0) (finish : Nat), code.NestedWithin 1024 ∧
    body.withoutOffsets = (code.link body.locals finish).withoutOffsets

end Body

namespace Module

/-- A module without the positions of its opcodes. -/
def withoutOffsets (module : Module) : Module :=
  { module with bodies := module.bodies.map Body.withoutOffsets }

/-- The position of the first entry of the code section, if there is one. -/
def codePosition (module : Module) : Nat :=
  let before := Binary.SectionKind.all.takeWhile (· ≠ .code)
  let payload := Binary.encodePayload module .code
  Binary.header.length + (before.flatMap (Binary.encodeSection module)).length + 1 +
    (Varint.unsignedForm payload.length).length +
    (Varint.unsignedForm module.bodies.length).length

/-- **A module with the absolute positions of its opcodes** in its binary form. -/
def placed (module : Module) : Module :=
  { module with bodies := Body.allPlaced module.codePosition module.bodies }

end Module

namespace Binary

/-- **Whether the offsets of a body are the positions of its opcodes** in some bytes: every
instruction has one, and its opcode and immediates stand there. -/
def OpcodesAt (bytes : List UInt8) (body : Body) : Prop :=
  body.offsets.size = body.size ∧
    ∀ (place : Nat) (operator : Operator), body.operators[place]? = some operator →
      ∃ offset, body.offsets[place]? = some offset ∧ encodeOperator operator <+: bytes.drop offset

/-! ## What has a binary form -/

/-- Whether a number of things can be written down. -/
def IsCount (count : Nat) : Prop :=
  count < 2 ^ 32

/-- Whether the length of a name can be written down. -/
def IsName (name : String) : Prop :=
  IsCount name.toUTF8.data.toList.length

/-- Whether the levels of a table of branches can be counted. -/
def HasCounts : Operator → Prop
  | .branchTable depths _ => IsCount depths.length
  | _ => True

/-- Whether a signature has a binary form. -/
structure EncodableSignature (signature : Signature) : Prop where
  /-- The arguments can be counted. -/
  params : IsCount signature.params.length
  /-- There is at most one result. -/
  results : signature.results.length ≤ 1

/-- Whether a body has a binary form. -/
structure EncodableBody (body : Body) : Prop where
  /-- There are not too many locals. -/
  locals : body.locals.length ≤ 50000
  /-- The instructions are linked code. -/
  linked : body.IsLinked
  /-- The tables of branches can be counted. -/
  tables : ∀ operator ∈ body.operators, HasCounts operator
  /-- The size can be written down. -/
  size : IsCount (encodeBody body).length

/-- Whether what a section of a kind would hold has a binary form. -/
def SectionKind.Fits (module : Module) : SectionKind → Prop
  | .types => IsCount module.types.length ∧ ∀ type ∈ module.types, EncodableSignature type
  | .imports => IsCount module.imports.length ∧
      ∀ entry ∈ module.imports, IsName entry.moduleName ∧ IsName entry.field
  | .functions => IsCount module.functions.length
  | .table | .memory | .start => True
  | .globals => IsCount module.globals.length
  | .exports => IsCount module.exports.length ∧ ∀ entry ∈ module.exports, IsName entry.name
  | .elements => IsCount module.elements.length ∧
      ∀ segment ∈ module.elements, IsCount segment.functions.length
  | .code => IsCount module.bodies.length ∧ ∀ body ∈ module.bodies, EncodableBody body
  | .data => IsCount module.data.length ∧ ∀ segment ∈ module.data, IsCount segment.bytes.length

/-- **Whether a module has a binary form.** -/
structure Encodable (module : Module) : Prop where
  /-- There is at most one table, imports included. -/
  tables : (module.imports.filterMap Import.table?).length + module.table.toList.length ≤ 1
  /-- There is at most one memory, imports included. -/
  memories : (module.imports.filterMap Import.memory?).length + module.memory.toList.length ≤ 1
  /-- Everything has a binary form. -/
  contents : ∀ kind : SectionKind, kind.Fits module
  /-- The lengths of the sections can be written down. -/
  payloads : ∀ kind, IsCount (encodePayload module kind).length

end Binary

end WasmCompiler
