import WasmCompiler.Bytecode.Assembly

/-! # Listings

The text of an assembly: its declarations, one to a line, and then its functions, each operation
after its position. -/

namespace WasmCompiler.Bytecode

/-- The name of a position: at least four hexadecimal digits. -/
def positionText (position : Nat) : String :=
  let digits := Nat.toDigits 16 position
  "IL_" ++ String.ofList (List.replicate (4 - digits.length) '0' ++ digits)

/-- The text of an operation. -/
def Op.text : Op Nat → String
  | .loadArg index => s!"ldarg {index}"
  | .storeArg index => s!"starg {index}"
  | .loadLocal index => s!"ldloc {index}"
  | .storeLocal index => s!"stloc {index}"
  | .loadGlobal index => s!"ldsfld global{index}"
  | .storeGlobal index => s!"stsfld global{index}"
  | .const value =>
      match value with
      | .i32 _ => s!"ldc.i4 {value.text}"
      | .i64 _ => s!"ldc.i8 {value.text}"
      | .f32 _ => s!"ldc.r4 {value.text}"
      | .f64 _ => s!"ldc.r8 {value.text}"
  | .pop => "pop"
  | .select => "select"
  | .compare op => op.mnemonic
  | .arith op => op.mnemonic
  | .convert op => op.mnemonic
  | .intrinsic op => "call " ++ op.mnemonic
  | .jump target => "br " ++ positionText target
  | .jumpIf target => "brtrue " ++ positionText target
  | .jumpUnless target => "brfalse " ++ positionText target
  | .switch targets fallback =>
      "switch (" ++ ", ".intercalate (targets.map positionText) ++ ") " ++ positionText fallback
  | .unwind drop keep => s!"unwind {drop} keep {keep}"
  | .access accessor offset =>
      if offset = 0 then s!"call {accessor.name}" else s!"call {accessor.name} offset={offset}"
  | .currentMemory => "call CurrentMemory"
  | .growMemory => "call GrowMemory"
  | .call function => s!"call func{function}"
  | .callIndirect typeIndex => s!"calli type{typeIndex}"
  | .ret => "ret"
  | .trap => "throw unreachable"

/-- Lines as text, each with the end of its line. -/
def unlines (lines : List String) : String :=
  String.join (lines.map (· ++ "\n"))

/-- The lines of operations, the first of which has the given position. A position is shown as a
32-bit number. -/
def codeLines (position : Nat) : List (Op Nat) → List String
  | [] => []
  | op :: code =>
      ("  " ++ positionText (UInt32.ofNat position).toNat ++ ": " ++ op.text) ::
        codeLines (position + 1) code

/-- The line that declares locals, if there are any. -/
def localsLines (locals : List ValueType) : List String :=
  if locals.isEmpty then []
  else ["  .locals (" ++ ", ".intercalate (locals.map ValueType.name) ++ ")"]

/-- The lines of a function. -/
def Function.lines (function : Function) : List String :=
  [s!".method func{function.index} " ++ function.signature.text, "\x7b"] ++
    localsLines function.locals ++ codeLines 0 function.code.toList ++ ["\x7d"]

/-- The text of a function. -/
def Function.text (function : Function) : String :=
  unlines function.lines

namespace Assembly

variable (assembly : Assembly)

/-- What a listing says about the kind of an import. -/
def importKindText : ImportKind → String
  | .function typeIndex =>
      match assembly.types[typeIndex.toNat]? with
      | some signature => "func " ++ signature.text
      | none => s!"func type{typeIndex}"
  | .table limits => "table " ++ limits.text
  | .memory limits => "memory " ++ limits.text
  | .global type => "global " ++ type.text

/-- The line of an import. -/
def importLine (entry : Import) : String :=
  s!".import \"{entry.moduleName}\" \"{entry.field}\" " ++ assembly.importKindText entry.kind

/-- The line of a global. -/
def globalLine (index : Nat) (global : Global) : String :=
  s!".global {index} " ++ global.type.text ++ " = " ++ global.initial.text

/-- The line of a segment of the table. -/
def elementLine (segment : ElementSegment) : String :=
  let functions := ", ".intercalate (segment.functions.map fun index => toString index.toNat)
  ".elem " ++ segment.offset.text ++ " [" ++ functions ++ "]"

/-- The line of a segment of the memory. -/
def dataLine (segment : DataSegment) : String :=
  ".data " ++ segment.offset.text ++ s!" {segment.bytes.length} bytes"

/-- The lines of everything but the functions. -/
def declarationLines : List String :=
  [".assembly " ++ assembly.name] ++
  assembly.imports.map assembly.importLine ++
  assembly.memory.toList.map (".memory " ++ ·.text) ++
  assembly.table.toList.map (".table " ++ ·.text) ++
  assembly.globals.mapIdx globalLine ++
  assembly.exports.map (fun entry => s!".export \"{entry.name}\" " ++ entry.entity.text) ++
  assembly.start.toList.map (fun index => s!".entrypoint func{index}") ++
  assembly.elements.map elementLine ++
  assembly.data.map dataLine

/-- The text of an assembly; an empty line precedes each function. -/
def text : String :=
  unlines (assembly.declarationLines ++
    assembly.functions.toList.flatMap fun function => "" :: function.lines)

end Assembly

end WasmCompiler.Bytecode
