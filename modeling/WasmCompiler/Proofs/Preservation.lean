import WasmCompiler.Proofs.Simulation

/-! # Compilation preserves meaning

The assembly of a module whose code is balanced does what the trees of its functions mean: a call
returns or traps in a machine exactly if its evaluation does, with the same result or trap and the
same store.

* **`compilesTo_of_compile`** — the assembly is the compiled form of the trees;
* **`exists_reads`** — every decoded module can be read as trees;
* **`call_iff_evaluation`** — calls do what evaluation says. -/

namespace WasmCompiler

open Bytecode (Assembly)
open Emission hiding State
open Machine
open Machine.Execution

/-! ## The compiled form of trees -/

/-- The trees of a decoded module. -/
theorem exists_reads {module : Module} (wellRead : Binary.WellRead module) :
    ∃ program : Program, program.module = module ∧ program.Reads := by
  have readable : ∀ body : Body, ∃ tree : Code 0, body ∈ module.bodies →
      ∃ finish, body = tree.link body.locals finish := by
    intro body
    by_cases member : body ∈ module.bodies
    · obtain ⟨tree, finish, linked⟩ := exists_link (wellRead.bodies body member)
      exact ⟨tree, fun _ => ⟨finish, linked⟩⟩
    · exact ⟨.empty, fun absurd => (member absurd).elim⟩
  obtain ⟨read, linked⟩ := Classical.axiomOfChoice readable
  refine ⟨⟨module, module.bodies.map read⟩, rfl, List.length_map _, ?_⟩
  intro position tree body found there
  have found : (module.bodies.map read)[position]? = some tree := found
  have there : module.bodies[position]? = some body := there
  rw [List.getElem?_map, there] at found
  cases found
  exact linked body (List.mem_of_getElem? there)

/-- The compiled form of a body is that of every tree that the body is the linked form of. -/
theorem Emission.CompiledFrom.function_eq {module : Module} {index : Nat} {typeIndex : UInt32}
    {body : Body} {function : Bytecode.Function}
    (compiled : CompiledFrom module index (typeIndex, body) function)
    {tree : Code 0} {finish : Nat} (linked : body = tree.link body.locals finish) :
    ∃ signature, module.types[typeIndex.toNat]? = some signature ∧
      tree.violation? ⟨module, index, signature, body⟩ = none ∧
      function = Site.function ⟨module, index, signature, body⟩ tree := by
  obtain ⟨signature, code, codeFinish, declared, codeLinked, allowed, rfl⟩ := compiled
  have treeAllowed : tree.violation? ⟨module, index, signature, body⟩ = none := by
    rw [← Body.violation?_of_link _ linked, Body.violation?_of_link _ codeLinked, allowed]
  refine ⟨signature, declared, treeAllowed, ?_⟩
  have scripts := (@scriptOfFunction_link ⟨module, index, signature, body⟩ code codeFinish
    codeLinked allowed).symm.trans (scriptOfFunction_link linked treeAllowed)
  have directives : Site.directives ⟨module, index, signature, body⟩ code =
      Site.directives ⟨module, index, signature, body⟩ tree :=
    congrArg Script.directives scripts
  have drafts := List.append_cancel_left (List.append_cancel_right directives)
  rw [Site.function, Site.function, drafts]

/-- **Whether functions are the compiled forms of the trees of a program**, one by one. -/
def Program.Compiled (program : Program) (functions : List Bytecode.Function) : Prop :=
  ∀ position,
    (program.module.functions[position]? = none ∧ functions[position]? = none) ∨
      ∃ typeIndex body tree signature, program.module.functions[position]? = some typeIndex ∧
        program.module.bodies[position]? = some body ∧ program.trees[position]? = some tree ∧
        program.module.types[typeIndex.toNat]? = some signature ∧
        tree.violation? ⟨program.module, program.module.importedFunctionCount + position, signature,
          body⟩ = none ∧
        functions[position]? = some (Site.function ⟨program.module,
          program.module.importedFunctionCount + position, signature, body⟩ tree)

/-- The compiled forms of bodies are those of the trees that the bodies are the linked form of. -/
theorem Emission.CompiledAll.compiled {program : Program} {functions : List Bytecode.Function}
    (reads : program.Reads)
    (counts : program.module.functions.length = program.module.bodies.length)
    (compiled : CompiledAll program.module program.module.importedFunctionCount
      (program.module.functions.zip program.module.bodies) functions) :
    program.Compiled functions := by
  intro position
  -- Types, bodies, trees and compiled functions are equally many.
  by_cases inside : position < program.module.functions.length
  · right
    have insideBodies : position < program.module.bodies.length := counts ▸ inside
    have insideTrees : position < program.trees.length := reads.count ▸ insideBodies
    have listed := List.getElem?_eq_getElem inside
    have there := List.getElem?_eq_getElem insideBodies
    have read := List.getElem?_eq_getElem insideTrees
    obtain ⟨finish, linked⟩ := reads.linked position _ _ read there
    have entry : (program.module.functions.zip program.module.bodies)[position]? =
        some (program.module.functions[position], program.module.bodies[position]) :=
      List.getElem?_zip_eq_some.mpr ⟨listed, there⟩
    obtain ⟨function, found, compiledFrom⟩ := compiled.getElem? entry
    obtain ⟨signature, declares, allowed, same⟩ := compiledFrom.function_eq linked
    exact ⟨_, _, _, signature, listed, there, read, declares, allowed,
      found.trans (congrArg some same)⟩
  · left
    have short : functions.length ≤ position := by
      rw [compiled.length_eq, List.length_zip]
      omega
    exact ⟨List.getElem?_eq_none (Nat.le_of_not_lt inside), List.getElem?_eq_none short⟩

/-- The functions of an assembly with the declarations of a module. -/
theorem function?_withFunctions (module : Module) (name : String)
    (functions : List Bytecode.Function) (index : Nat) :
    (withFunctions (declared module name) functions).function? index =
      if module.importedFunctionCount ≤ index then
        functions[index - module.importedFunctionCount]?
      else none := by
  have same : (withFunctions (declared module name) functions).functions = functions.toArray := by
    simp [withFunctions, declared]
  unfold Assembly.function?
  rw [same, List.getElem?_toArray]
  rfl

/-- Function indices are those of imports, or count on from them. -/
theorem index_cases (module : Module) (index : Nat) :
    ¬module.importedFunctionCount ≤ index ∨
      ∃ position, index = module.importedFunctionCount + position := by
  rcases Nat.lt_or_ge index module.importedFunctionCount with below | above
  · exact .inl (Nat.not_le_of_lt below)
  · exact .inr (Nat.exists_eq_add_of_le above)

namespace Program

variable {program : Program} {functions : List Bytecode.Function} {position : Nat}

/-- A program defines what its module lists. -/
theorem definition?_add {typeIndex : UInt32} {body : Body} {tree : Code 0} {signature : Signature}
    (listed : program.module.functions[position]? = some typeIndex)
    (there : program.module.bodies[position]? = some body)
    (read : program.trees[position]? = some tree)
    (declares : program.module.types[typeIndex.toNat]? = some signature) :
    program.definition? (program.module.importedFunctionCount + position) =
      some ⟨signature, body.locals, tree⟩ := by
  rw [definition?, if_pos (Nat.le_add_right _ _), Nat.add_sub_cancel_left]
  simp only [listed, there, read, Option.bind_eq_bind, Option.bind_some, declares]
  rfl

/-- A program does not define what its module does not list. -/
theorem definition?_add_none (unlisted : program.module.functions[position]? = none) :
    program.definition? (program.module.importedFunctionCount + position) = none := by
  rw [definition?, if_pos (Nat.le_add_right _ _), Nat.add_sub_cancel_left]
  simp only [unlisted]
  rfl

/-- The signature of a function that a module defines. -/
theorem signature?_add (module : Module) (position : Nat) :
    module.signature? (module.importedFunctionCount + position) =
      module.functions[position]?.bind fun typeIndex => module.types[typeIndex.toNat]? := by
  have defined : module.functionType? (module.importedFunctionCount + position) =
      module.functions[position]? := by
    have past : module.importedFunctionTypes.length ≤ module.importedFunctionCount + position :=
      Nat.le_add_right _ _
    rw [Module.functionType?, List.getElem?_append_right past]
    show module.functions[_ - module.importedFunctionCount]? = _
    rw [Nat.add_sub_cancel_left]
  rw [Module.signature?, defined]
  rfl

/-- **An assembly with the compiled forms of trees** is the compiled form of their program. -/
theorem Compiled.compilesTo {name : String} (compiled : program.Compiled functions)
    (single : ∀ signature ∈ program.module.types, signature.results.length ≤ 1) :
    program.CompilesTo (withFunctions (declared program.module name) functions) where
  types := rfl
  single := single
  imported := rfl
  signatures index := by
    have imports : (withFunctions (declared program.module name) functions).importedFunctionTypes =
        program.module.importedFunctionTypes := rfl
    rw [Assembly.signature?, function?_withFunctions, imports]
    rcases index_cases program.module index with imported | ⟨position, rfl⟩
    · have below : index < program.module.importedFunctionTypes.length := Nat.lt_of_not_le imported
      rw [List.getElem?_eq_getElem below, Module.signature?, Module.functionType?,
        List.getElem?_append_left below, List.getElem?_eq_getElem below]
      rfl
    · have past : program.module.importedFunctionTypes[
          program.module.importedFunctionCount + position]? = none :=
        List.getElem?_eq_none (Nat.le_add_right _ _)
      rw [past, signature?_add]
      simp only [if_pos (Nat.le_add_right _ _), Nat.add_sub_cancel_left]
      rcases compiled position with ⟨unlisted, missing⟩ |
        ⟨typeIndex, body, tree, signature, listed, -, -, declares, -, found⟩
      · rw [unlisted, missing]
        rfl
      · rw [listed, found, Option.bind_some, declares]
        rfl
  undefined index missing := by
    rw [function?_withFunctions]
    rcases index_cases program.module index with imported | ⟨position, rfl⟩
    · exact if_neg imported
    · rw [if_pos (Nat.le_add_right _ _), Nat.add_sub_cancel_left]
      rcases compiled position with ⟨-, past⟩ |
        ⟨typeIndex, body, tree, signature, listed, there, read, declares, -, -⟩
      · exact past
      · rw [definition?_add listed there read declares] at missing
        cases missing
  defined index definition known := by
    rw [function?_withFunctions]
    rcases index_cases program.module index with imported | ⟨position, rfl⟩
    · rw [definition?, if_neg imported] at known
      cases known
    · rw [if_pos (Nat.le_add_right _ _), Nat.add_sub_cancel_left, signature?_add]
      rcases compiled position with ⟨unlisted, -⟩ |
        ⟨typeIndex, body, tree, signature, listed, there, read, declares, allowed, found⟩
      · rw [definition?_add_none unlisted] at known
        cases known
      · rw [definition?_add listed there read declares] at known
        cases known
        refine ⟨?_, body, rfl, allowed, found⟩
        rw [listed, Option.bind_some, declares]

end Program

/-- **An assembly** has the declarations of its module and the compiled forms of the bodies. -/
theorem exists_functions_of_compile {name : String} {bytes : List UInt8} {module : Module}
    {assembly : Assembly} (compiles : compile name bytes = .ok assembly)
    (decoded : Binary.decodeModule bytes = .ok module) :
    ∃ functions, module.functions.length = module.bodies.length ∧
      CompiledAll module module.importedFunctionCount (module.functions.zip module.bodies)
        functions ∧
      assembly = withFunctions (declared module name) functions := by
  have wellRead := Binary.wellRead_of_decodeModule decoded
  have compiles : module.compile name = .ok assembly := by
    rw [compile, decoded] at compiles
    simp only at compiles
    split at compiles
    · cases compiles
    · next equation =>
        cases compiles
        exact equation
  cases refused : moduleViolation? module with
  | some error =>
      rw [compile_of_refused wellRead refused] at compiles
      cases compiles
  | none =>
      obtain ⟨functions, counts, compiled, equation⟩ := compile_of_allowed wellRead refused name
      rw [equation] at compiles
      cases compiles
      exact ⟨functions, counts, compiled, rfl⟩

/-- The declarations of an assembly are those of its module. -/
theorem toDeclarations_of_compile {name : String} {bytes : List UInt8} {module : Module}
    {assembly : Assembly} (compiles : compile name bytes = .ok assembly)
    (decoded : Binary.decodeModule bytes = .ok module) :
    assembly.toDeclarations = module.toDeclarations := by
  obtain ⟨functions, -, -, rfl⟩ := exists_functions_of_compile compiles decoded
  rfl

/-- A module in which nothing is refused has an assembly. -/
theorem exists_compile {bytes : List UInt8} {module : Module}
    (decoded : Binary.decodeModule bytes = .ok module) (allowed : moduleViolation? module = none)
    (name : String) :
    ∃ functions, compile name bytes = .ok (withFunctions (declared module name) functions) := by
  obtain ⟨functions, -, -, compiles⟩ :=
    compile_of_allowed (Binary.wellRead_of_decodeModule decoded) allowed name
  refine ⟨functions, ?_⟩
  rw [compile, decoded]
  simp only
  rw [compiles]

/-- **The assembly of a module is the compiled form of the trees of the module.** -/
theorem compilesTo_of_compile {name : String} {bytes : List UInt8} {assembly : Assembly}
    {program : Program} (compiles : compile name bytes = .ok assembly)
    (decoded : Binary.decodeModule bytes = .ok program.module) (reads : program.Reads) :
    program.CompilesTo assembly := by
  obtain ⟨functions, counts, compiled, rfl⟩ := exists_functions_of_compile compiles decoded
  exact (compiled.compiled reads counts).compilesTo (Binary.wellRead_of_decodeModule decoded).types

/-! ## Calls from outside -/

section

variable {program : Program} {assembly : Assembly} {bounds : Bounds} {fuel function : Nat}
  {arguments : List Value} {store : Store}

/-- **Whether a machine does in a call what an evaluation says.** -/
def CallFollows (assembly : Assembly) (bounds : Bounds) (least function : Nat)
    (arguments : List Value) (store : Store) : Evaluation (Option Value) → Prop
  | .ended result last => ∃ steps,
      Machine.call assembly bounds steps function arguments store = .finished result last.store
  | .trapped trap last => ∃ steps,
      Machine.call assembly bounds steps function arguments store = .trapped trap last
  | .unfinished => ∃ steps state, least ≤ steps ∧
      Machine.call assembly bounds steps function arguments store = .running state

/-- A call that enters a function runs it. -/
theorem call_of_enter {next : Activation} (steps : Nat)
    (enters : Machine.enter assembly bounds function arguments store.depth = .ok next) :
    Machine.call assembly bounds steps function arguments store =
      run assembly bounds steps ⟨⟨next, store.countUp⟩, []⟩ := by
  rw [Machine.call, enters]

/-- A call that cannot enter a function traps. -/
theorem call_of_enter_error {trap : Trap} (steps : Nat)
    (fails : Machine.enter assembly bounds function arguments store.depth = .error trap) :
    Machine.call assembly bounds steps function arguments store = .trapped trap store := by
  rw [Machine.call, fails]

/-- **A machine does what the evaluation of a call says.** -/
theorem call_of_evaluation (compiled : program.CompilesTo assembly) (balanced : program.Balanced) :
    CallFollows assembly bounds fuel function arguments store
      (program.call bounds fuel function arguments store) := by
  unfold Program.call Program.resultOf
  cases entered : program.enter bounds function arguments store.depth with
  | error trap => exact ⟨0, call_of_enter_error 0 (compiled.enter_error entered)⟩
  | ok entry =>
      obtain ⟨activation, tree⟩ := entry
      obtain ⟨next, signature, enters, -, body⟩ := mirrors_body compiled balanced
        (tracked compiled balanced bounds fuel) entered store.countUp []
      dsimp only
      -- The body says how the run of the callee ends; only its result is left to be taken.
      cases evaluated : program.evaluate bounds fuel tree ⟨activation, store.countUp⟩ with
      | unfinished =>
          rw [evaluated] at body
          obtain ⟨steps, later, enough, reaches⟩ := body
          exact ⟨steps, later, enough, (call_of_enter steps enters).trans reaches⟩
      | trapped trap last =>
          rw [evaluated] at body
          obtain ⟨steps, traps⟩ := body
          exact ⟨steps, (call_of_enter steps enters).trans traps⟩
      | ended exit last =>
          rw [evaluated] at body
          obtain ⟨steps, state, reaches, -, returns⟩ := body
          simp only [Evaluation.andThen, Evaluation.ofExecution]
          cases taken : takeResult last with
          | ok result later =>
              rw [taken] at returns
              exact ⟨steps + 1, (call_of_enter _ enters).trans (run_of_step reaches returns rfl)⟩
          | error trap later =>
              rw [taken] at returns
              exact ⟨steps + 1, (call_of_enter _ enters).trans (run_of_step reaches returns rfl)⟩

/-- A call that has ended stays so. -/
theorem call_of_ended {steps : Nat} {progress : Progress}
    (ends : Machine.call assembly bounds steps function arguments store = progress)
    (ended : progress.isEnded = true) (more : Nat) :
    Machine.call assembly bounds (steps + more) function arguments store = progress := by
  cases entered : Machine.enter assembly bounds function arguments store.depth with
  | error trap =>
      rw [call_of_enter_error _ entered] at ends ⊢
      exact ends
  | ok activation =>
      rw [call_of_enter _ entered] at ends ⊢
      exact run_of_ended ends ended more

/-- Calls that have ended have ended in the same way. -/
theorem call_unique {first second : Nat} {progress other : Progress}
    (ends : Machine.call assembly bounds first function arguments store = progress)
    (ended : progress.isEnded = true)
    (others : Machine.call assembly bounds second function arguments store = other)
    (otherEnded : other.isEnded = true) : other = progress := by
  rw [← call_of_ended ends ended second, Nat.add_comm, call_of_ended others otherEnded first]

/-- How a call has ended that is evaluated to an end. -/
def Evaluation.progress? : Evaluation (Option Value) → Option Progress
  | .ended result last => some (.finished result last.store)
  | .trapped trap last => some (.trapped trap last)
  | .unfinished => none

/-- **Calls end as they are evaluated**, and if they end at all. -/
theorem call_iff_progress? (compiled : program.CompilesTo assembly) (balanced : program.Balanced)
    {progress : Progress} (ended : progress.isEnded = true) :
    (∃ steps, Machine.call assembly bounds steps function arguments store = progress) ↔
      ∃ fuel, (program.call bounds fuel function arguments store).progress? = some progress := by
  constructor
  · rintro ⟨steps, ends⟩
    refine ⟨steps, ?_⟩
    have follows := @call_of_evaluation program assembly bounds steps function arguments store
      compiled balanced
    cases evaluated : program.call bounds steps function arguments store with
    | ended result last =>
        rw [evaluated] at follows
        obtain ⟨more, other⟩ := follows
        exact congrArg some (call_unique ends ended other rfl)
    | trapped trap last =>
        rw [evaluated] at follows
        obtain ⟨more, other⟩ := follows
        exact congrArg some (call_unique ends ended other rfl)
    | unfinished =>
        -- a machine that has not ended after as many steps would have ended by then
        rw [evaluated] at follows
        obtain ⟨more, state, enough, other⟩ := follows
        obtain ⟨rest, rfl⟩ := Nat.exists_eq_add_of_le enough
        rw [call_of_ended ends ended rest] at other
        rw [other] at ended
        cases ended
  · rintro ⟨fuel, evaluated⟩
    have follows := @call_of_evaluation program assembly bounds fuel function arguments store
      compiled balanced
    cases outcome : program.call bounds fuel function arguments store with
    | ended result last =>
        rw [outcome] at follows evaluated
        cases evaluated
        exact follows
    | trapped trap last =>
        rw [outcome] at follows evaluated
        cases evaluated
        exact follows
    | unfinished =>
        rw [outcome] at evaluated
        cases evaluated

/-- An evaluation that ends with a result. -/
theorem Evaluation.progress?_eq_finished {evaluation : Evaluation (Option Value)}
    {result : Option Value} {last : Store} :
    evaluation.progress? = some (.finished result last) ↔
      ∃ running, evaluation = .ended result running ∧ running.store = last := by
  constructor
  · intro equation
    cases evaluation with
    | ended value running =>
        cases equation
        exact ⟨running, rfl, rfl⟩
    | trapped trap store => cases equation
    | unfinished => cases equation
  · rintro ⟨running, rfl, rfl⟩
    rfl

/-- An evaluation that traps. -/
theorem Evaluation.progress?_eq_trapped {evaluation : Evaluation (Option Value)} {trap : Trap}
    {last : Store} :
    evaluation.progress? = some (.trapped trap last) ↔ evaluation = .trapped trap last := by
  cases evaluation <;> simp [Evaluation.progress?]

end

/-- **Compilation preserves meaning.** The assembly of a module does what the trees of its bodies
mean, if their code is balanced: whatever the store is, a call of a function with any arguments
returns from the machine exactly if its evaluation ends, with the same result and the same store,
and traps exactly if its evaluation traps, with the same trap and the same store. -/
theorem call_iff_evaluation {name : String} {bytes : List UInt8} {module : Module}
    {assembly : Assembly} (decoded : Binary.decodeModule bytes = .ok module)
    (compiles : compile name bytes = .ok assembly) :
    (∃ program : Program, program.module = module ∧ program.Reads) ∧
    ∀ program : Program, program.module = module → program.Reads → program.Balanced →
      ∀ (bounds : Bounds) (store : Store) (function : Nat) (arguments : List Value),
        (∀ result last,
          (∃ steps, Machine.call assembly bounds steps function arguments store =
              .finished result last) ↔
            ∃ fuel running, program.call bounds fuel function arguments store =
              .ended result running ∧ running.store = last) ∧
        ∀ trap last,
          (∃ steps, Machine.call assembly bounds steps function arguments store =
              .trapped trap last) ↔
            ∃ fuel, program.call bounds fuel function arguments store = .trapped trap last := by
  refine ⟨exists_reads (Binary.wellRead_of_decodeModule decoded), ?_⟩
  rintro program rfl reads balanced bounds store function arguments
  have compiled := compilesTo_of_compile compiles decoded reads
  refine ⟨fun result last => ?_, fun trap last => ?_⟩
  · rw [call_iff_progress? compiled balanced rfl]
    exact exists_congr fun fuel => Evaluation.progress?_eq_finished
  · rw [call_iff_progress? compiled balanced rfl]
    exact exists_congr fun fuel => Evaluation.progress?_eq_trapped

/-- The bytes of a module whose only function branches out of a block with the result on an operand
that is left over. -/
def leftoverBytes : List UInt8 :=
  [0x00, 0x61, 0x73, 0x6d, 0x01, 0x00, 0x00, 0x00, 0x01, 0x05, 0x01, 0x60, 0x00, 0x01, 0x7f,
    0x03, 0x02, 0x01, 0x00, 0x0a, 0x0d, 0x01, 0x0b, 0x00, 0x02, 0x7f, 0x41, 0x01, 0x41, 0x07,
    0x0c, 0x00, 0x0b, 0x0b]

/-- The code of that function. -/
def leftoverCode : Code 0 :=
  .block 24 .block (some .i32)
    (.plain 26 (.const (.i32 1)) (.plain 28 (.const (.i32 7)) (.jump 30 (.always 0) .empty)))
    32 .empty

/-- The module with that function. -/
def leftover : Program where
  module :=
    { types := [{ results := [.i32] }], functions := [0], bodies := [leftoverCode.link [] 33] }
  trees := [leftoverCode]

/-- A branch that carries a result out of a block leaves what lies beneath it behind, in the machine
as in its evaluation. -/
theorem call_iff_evaluation_leftover :
    Binary.decodeModule leftoverBytes = .ok leftover.module ∧ leftover.Reads ∧ leftover.Balanced ∧
      ∃ assembly, compile "leftover" leftoverBytes = .ok assembly ∧
        ∀ store, store.depth = 0 → ∃ steps, Machine.call assembly {} steps 0 [] store =
          .finished (some (.i32 7)) store := by
  have decoded : Binary.decodeModule leftoverBytes = .ok leftover.module := rfl
  have reads : leftover.Reads := by
    refine ⟨rfl, fun position tree body read there => ?_⟩
    cases position with
    | zero =>
        cases read
        cases there
        exact ⟨33, rfl⟩
    | succ position => cases read
  have balanced : leftover.Balanced := by
    intro index definition known
    cases index with
    | zero =>
        cases known
        exact ⟨⟨Nat.zero_le _, fun _ => ⟨Nat.zero_le _, fun _ => ⟨Nat.zero_le _,
          fun level listed => by rw [List.mem_singleton.mp listed]; decide,
          fun absurd => nomatch absurd⟩⟩⟩, rfl⟩
    | succ index => cases known
  have allowed : moduleViolation? leftover.module = none := rfl
  obtain ⟨functions, compiles⟩ := exists_compile decoded allowed "leftover"
  refine ⟨decoded, reads, balanced, _, compiles, fun store idle => ?_⟩
  obtain ⟨-, calls⟩ := call_iff_evaluation decoded compiles
  have ends := (calls leftover rfl reads balanced {} store 0 []).1 (some (.i32 7)) store
  rw [ends]
  obtain ⟨memory, globals, table, depth⟩ := store
  cases idle
  exact ⟨1, _, rfl, rfl⟩

end WasmCompiler
