import WasmCompiler.Value

/-! # Declarations of a module

Everything that a module says beside the code of its functions, and that an assembly keeps as it is:
signatures, imports, the table and the memory, globals, exports, the start function and the
segments. Function and global indices count imports first, then definitions. -/

namespace WasmCompiler

/-- The sizes between which a table or a memory may vary. -/
structure Limits where
  /-- The size at the start. -/
  initial : UInt32
  /-- The greatest size, if there is a bound. -/
  maximum : Option UInt32 := none
  deriving DecidableEq

/-- The type of a global. -/
structure GlobalType where
  /-- The type of its value. -/
  content : ValueType
  /-- Whether code may replace its value. -/
  isMutable : Bool
  deriving DecidableEq

/-- The expression that gives a global its first value or a segment its place. -/
inductive Initializer where
  /-- A constant. -/
  | constant (value : Value)
  /-- The value of an earlier global. -/
  | getGlobal (index : UInt32)
  deriving DecidableEq

/-- The constant of an initializer that is one. -/
def Initializer.constant? : Initializer → Option Value
  | .constant value => some value
  | .getGlobal _ => none

/-- What an import stands for. -/
inductive ImportKind where
  /-- A function with the signature of that index. -/
  | function (typeIndex : UInt32)
  /-- A table. -/
  | table (limits : Limits)
  /-- A memory. -/
  | memory (limits : Limits)
  /-- A global. -/
  | global (type : GlobalType)
  deriving DecidableEq

/-- Something that a module needs from outside. -/
structure Import where
  /-- The name of the providing module. -/
  moduleName : String
  /-- The name within that module. -/
  field : String
  /-- What is imported. -/
  kind : ImportKind
  deriving DecidableEq

/-- A global that a module defines. -/
structure Global where
  /-- Its type. -/
  type : GlobalType
  /-- Its first value. -/
  initial : Initializer
  deriving DecidableEq

/-- An entity by its kind and its index among those of its kind. -/
inductive Entity where
  /-- A function. -/
  | function (index : UInt32)
  /-- A table. -/
  | table (index : UInt32)
  /-- A memory. -/
  | memory (index : UInt32)
  /-- A global. -/
  | global (index : UInt32)
  deriving DecidableEq

/-- An entity that a module offers under a name. -/
structure Export where
  /-- The name. -/
  name : String
  /-- What is offered. -/
  entity : Entity
  deriving DecidableEq

/-- A run of table slots and the functions that they hold at the start. -/
structure ElementSegment where
  /-- The first slot. -/
  offset : Initializer
  /-- The functions in order. -/
  functions : List UInt32
  deriving DecidableEq

/-- A run of memory and the bytes that it holds at the start. -/
structure DataSegment where
  /-- The first address. -/
  offset : Initializer
  /-- The bytes in order. -/
  bytes : List UInt8
  deriving DecidableEq

/-- What a module declares beside its code. -/
structure Declarations where
  /-- The signatures that type indices refer to. -/
  types : List Signature := []
  /-- The imports in order. -/
  imports : List Import := []
  /-- The size of the table that the module defines. -/
  table : Option Limits := none
  /-- The size in pages of the memory that the module defines. -/
  memory : Option Limits := none
  /-- The globals that the module defines. -/
  globals : List Global := []
  /-- The exports in order. -/
  exports : List Export := []
  /-- The function that instantiation calls. -/
  start : Option UInt32 := none
  /-- The segments of the table. -/
  elements : List ElementSegment := []
  /-- The segments of the memory. -/
  data : List DataSegment := []
  deriving DecidableEq

/-! ## Imports by kind -/

/-- The signature index of an imported function. -/
def Import.functionType? (entry : Import) : Option UInt32 :=
  match entry.kind with
  | .function typeIndex => some typeIndex
  | _ => none

/-- The type of an imported global. -/
def Import.globalType? (entry : Import) : Option GlobalType :=
  match entry.kind with
  | .global type => some type
  | _ => none

/-- The limits of an imported table. -/
def Import.table? (entry : Import) : Option Limits :=
  match entry.kind with
  | .table limits => some limits
  | _ => none

/-- The limits of an imported memory. -/
def Import.memory? (entry : Import) : Option Limits :=
  match entry.kind with
  | .memory limits => some limits
  | _ => none

namespace Declarations

variable (declarations : Declarations)

/-- The imported functions in order; they have the first function indices. -/
def importedFunctions : List Import :=
  declarations.imports.filter fun entry => entry.functionType?.isSome

/-- The signature indices of the imported functions. -/
def importedFunctionTypes : List UInt32 :=
  declarations.imports.filterMap Import.functionType?

/-- The types of the imported globals; they have the first global indices. -/
def importedGlobalTypes : List GlobalType :=
  declarations.imports.filterMap Import.globalType?

/-- The number of imported functions. -/
def importedFunctionCount : Nat :=
  declarations.importedFunctionTypes.length

/-- The type of a global, imported or defined. -/
def globalType? (index : Nat) : Option GlobalType :=
  (declarations.importedGlobalTypes ++ declarations.globals.map Global.type)[index]?

/-- The number of globals, imported and defined. -/
def globalCount : Nat :=
  declarations.importedGlobalTypes.length + declarations.globals.length

/-- Whether there is a table, imported or defined. -/
def hasTable : Bool :=
  declarations.table.isSome || declarations.imports.any fun entry => entry.table?.isSome

/-- Whether there is a memory, imported or defined. -/
def hasMemory : Bool :=
  declarations.memory.isSome || declarations.imports.any fun entry => entry.memory?.isSome

/-- The entity of the first export with a name. -/
def export? (name : String) : Option Entity :=
  (declarations.exports.find? fun entry => entry.name == name).map Export.entity

end Declarations

/-! ## Text -/

/-- The text of an initializer in listings. -/
def Initializer.text : Initializer → String
  | .constant value =>
      match value with
      | .i32 _ => s!"I32Const({value.text})"
      | .i64 _ => s!"I64Const({value.text})"
      | .f32 _ => s!"F32Const({value.text})"
      | .f64 _ => s!"F64Const({value.text})"
  | .getGlobal index => s!"GetGlobal({index})"

/-- The text of an entity in listings. -/
def Entity.text : Entity → String
  | .function index => s!"Function({index})"
  | .table index => s!"Table({index})"
  | .memory index => s!"Memory({index})"
  | .global index => s!"Global({index})"

/-- The text of limits in listings. -/
def Limits.text (limits : Limits) : String :=
  match limits.maximum with
  | some maximum => s!"{limits.initial} max {maximum}"
  | none => s!"{limits.initial}"

/-- The text of a global type in listings. -/
def GlobalType.text (type : GlobalType) : String :=
  (if type.isMutable then "mut " else "") ++ type.content.name

end WasmCompiler
