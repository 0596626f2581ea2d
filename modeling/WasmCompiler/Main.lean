import WasmCompiler.Command

/-! # Command line

`compile INPUT NAME` writes the listing of a module to `NAME.jasm`; `run INPUT EXPORT ARGUMENTS`
compiles a module and calls one of its exports. -/

namespace WasmCompiler.CommandLine

/-- The reason why a file operation failed. -/
def fileErrorReason : IO.Error → String
  | .noFileOrDirectory .. => "No such file or directory (os error 2)"
  | error => toString error

/-- The number of steps that a call may take. -/
def stepLimit : Nat := Nat.pow 2 62

/-- Prints the sentences of an error. -/
def fail (sentences : List String) : IO UInt32 := do
  IO.eprintln (Report.errorLine sentences)
  return 1

/-- Carries out a report. -/
def carryOut : Report → IO UInt32
  | .failure sentences => fail sentences
  | .success line => do
      IO.println line
      return 0
  | .listing file contents line => do
      match ← (IO.FS.writeFile file contents).toBaseIO with
      | .error error =>
          match Report.unwritable file (fileErrorReason error) with
          | .failure sentences => fail sentences
          | _ => return 1
      | .ok _ =>
          IO.println line
          return 0

end WasmCompiler.CommandLine

open WasmCompiler CommandLine

/-- Runs the command that the arguments spell. -/
def main (arguments : List String) : IO UInt32 := do
  match Command.ofList? arguments with
  | none =>
      IO.eprintln "usage: compile INPUT NAME | run [--max-call-depth N] INPUT EXPORT [ARGUMENT]..."
      return 2
  | some command =>
      let contents ← (IO.FS.readBinFile command.input).toBaseIO
      let contents := (contents.map fun bytes => bytes.toList).mapError fileErrorReason
      carryOut (command.report stepLimit contents)
