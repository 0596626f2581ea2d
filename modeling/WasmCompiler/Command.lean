import WasmCompiler.Bytecode.Listing
import WasmCompiler.Compilation
import WasmCompiler.Machine.Instance
import WasmCompiler.Text.Quoted

/-! # Commands

What the command line does, apart from reading and writing files: a command and the contents of its
input lead to what is printed, to a listing to be written, and to an exit status. -/

namespace WasmCompiler

open Bytecode (Assembly)

/-- A command with its arguments. -/
inductive Command where
  /-- Compiles a module and writes its listing under a name. -/
  | compile (input outputName : String)
  /-- Compiles a module and calls one of its exports. -/
  | run (input exportName : String) (arguments : List String) (maxCallDepth : Nat)
  deriving DecidableEq

/-- What a command leads to. -/
inductive Report where
  /-- A line of output. -/
  | success (line : String)
  /-- A file to be written before a line of output. -/
  | listing (file contents line : String)
  /-- The sentences of an error, the most general first. -/
  | failure (sentences : List String)
  deriving DecidableEq

namespace Report

/-- The line that shows an error. -/
def errorLine (sentences : List String) : String :=
  "error: " ++ ": ".intercalate sentences

/-- The report of a file that cannot be written. -/
def unwritable (file reason : String) : Report :=
  .failure ["writing " ++ file, reason]

end Report

/-! ## Execution -/

namespace Command

/-- The path of the input of a command. -/
def input : Command → String
  | .compile input _ => input
  | .run input _ _ _ => input

/-- The assembly of a module, or the sentences of the error. -/
def compileInput (name input : String) (contents : Except String (List UInt8)) :
    Except (List String) Assembly :=
  let context := "compiling " ++ input
  match contents with
  | .error reason => .error [context, reason]
  | .ok bytes =>
      (WasmCompiler.compile name bytes).mapError fun error =>
        [context, error.message, error.cause]

/-- Reads arguments by the types of parameters. -/
def readArguments : List ValueType → List String → Except (List String) (List Value)
  | type :: types, text :: texts =>
      match Value.read? type text with
      | some value => do return value :: (← readArguments types texts)
      | none => .error ["cannot read " ++ Text.quoted text ++ " as " ++ type.name]
  | _, _ => .ok []

/-- The signature of an exported function. -/
def exportedSignature (assembly : Assembly) (exportName : String) :
    Except (List String) Signature :=
  match assembly.export? exportName with
  | some (.function index) =>
      match assembly.signature? index.toNat with
      | some signature => .ok signature
      | none => .error [s!"export {exportName} names a missing function"]
  | _ => .error [s!"no exported function named {exportName}"]

/-- The line that shows the result of a call. -/
def resultLine : Option Value → String
  | some value => value.text
  | none => "()"

/-- Runs an export of an assembly, within a number of steps. -/
def runExport (steps : Nat) (assembly : Assembly) (exportName : String) (arguments : List String)
    (maxCallDepth : Nat) : Except (List String) String := do
  let signature ← exportedSignature assembly exportName
  let count := signature.params.length
  unless count = arguments.length do
    throw [s!"{exportName}{signature.text} takes {count} arguments, got {arguments.length}"]
  let values ← readArguments signature.params arguments
  let unfinished := ["the call takes too many steps"]
  match Machine.instantiate steps assembly { maxCallDepth := maxCallDepth } with
  | .trapped trap => throw ["instantiating", trap.message]
  | .unfinished => throw unfinished
  | .returned inst =>
      match (inst.invoke steps exportName values).1 with
      | .trapped trap => throw ["calling " ++ exportName, trap.message]
      | .unfinished => throw unfinished
      | .returned result => return resultLine result

/-- The report of a command, given the contents of its input or why they cannot be read. -/
def report (steps : Nat) (command : Command) (contents : Except String (List UInt8)) : Report :=
  match command with
  | .compile input outputName =>
      match compileInput outputName input contents with
      | .error sentences => .failure sentences
      | .ok assembly =>
          let file := outputName ++ ".jasm"
          .listing file assembly.text file
  | .run input exportName arguments maxCallDepth =>
      let line := do
        let assembly ← compileInput input input contents
        runExport steps assembly exportName arguments maxCallDepth
      match line with
      | .error sentences => .failure sentences
      | .ok line => .success line

end Command

/-! ## Command lines -/

/-- Arguments of a command line, told apart from its only option. -/
structure Words where
  /-- The arguments that are not options, in order. -/
  operands : List String := []
  /-- The value of the option for the depth of calls, if it is given. -/
  maxCallDepth : Option Nat := none
  deriving DecidableEq

/-- Tells the arguments of a command line apart; after two dashes no argument is an option. -/
def Words.ofList? : List String → Option Words
  | [] => some {}
  | "--" :: operands => some { operands := operands }
  | "--max-call-depth" :: value :: rest => do
      let depth ← value.toNat?
      return { (← ofList? rest) with maxCallDepth := some depth }
  | operand :: rest =>
      match operand.splitOn "--max-call-depth=" with
      | ["", value] => do
          let depth ← value.toNat?
          return { (← ofList? rest) with maxCallDepth := some depth }
      | _ =>
          if operand.startsWith "-" then none
          else do
            let words ← ofList? rest
            return { words with operands := operand :: words.operands }

/-- The command that a command line spells. -/
def Command.ofList? : List String → Option Command
  | "compile" :: rest => do
      match ← Words.ofList? rest with
      | ⟨[input, outputName], none⟩ => some (.compile input outputName)
      | _ => none
  | "run" :: rest => do
      match ← Words.ofList? rest with
      | ⟨input :: exportName :: arguments, depth⟩ =>
          some (.run input exportName arguments (depth.getD ({} : Machine.Bounds).maxCallDepth))
      | _ => none
  | _ => none

end WasmCompiler
