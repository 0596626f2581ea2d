import WasmCompiler.Binary.Section
import WasmCompiler.Bytecode.Assembler
import WasmCompiler.Emission.Function

/-! # Compilation

From the bytes of a module to an assembly: decoding, emission and assembling, one after another. -/

namespace WasmCompiler

/-- Why bytes cannot be compiled. -/
inductive CompilationError where
  /-- The bytes are not a module. -/
  | decoding (error : Binary.Error)
  /-- The module cannot be emitted. -/
  | emission (error : Emission.Error)
  deriving DecidableEq

namespace CompilationError

/-- The sentence of the error itself. -/
def cause : CompilationError → String
  | .decoding error => error.message
  | .emission error => error.message

/-- The sentence of the error after the stage that it comes from. -/
def message : CompilationError → String
  | .decoding error => "decode error: " ++ error.message
  | .emission error => "emit error: " ++ error.message

end CompilationError

/-- The assembly that a module compiles to, under a name. -/
def Module.compile (module : Module) (name : String) : Except Emission.Error Bytecode.Assembly :=
  Bytecode.assemble name (Emission.script module)

/-- The assembly that the bytes of a module compile to, under a name. -/
def compile (name : String) (bytes : List UInt8) : Except CompilationError Bytecode.Assembly :=
  match Binary.decodeModule bytes with
  | .error error => .error (.decoding error)
  | .ok module =>
      match module.compile name with
      | .error error => .error (.emission error)
      | .ok assembly => .ok assembly

end WasmCompiler
