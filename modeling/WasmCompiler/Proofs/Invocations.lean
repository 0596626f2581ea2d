import WasmCompiler.Machine.Instance
import WasmCompiler.Proofs.Soundness

/-! # Soundness of instances

An instance of a compiled module whose code satisfies the typing rules never traps for want of an
operand or for the type of one: not in its start function, and not in any function that is invoked,
whatever has been invoked before. The invariant is that the globals hold values of their types. It
holds when the start function is called, and every call keeps it, whether the call returns or traps.

* **`fits_of_initialStore`** — the globals start out with values of their types;
* **`Reachable`** — the instances that invocations lead to;
* **`isSound_of_typed`** — no run in such an instance traps for a reason of types. -/

namespace WasmCompiler

open Bytecode (Assembly)
open Emission hiding State
open Machine

/-! ## Globals at the start -/

/-- Only a module without imported globals can be instantiated. -/
theorem globalTypes_of_provide {imports : List Import} {resources last : Resources}
    (provides : imports.foldlM Resources.provide resources = .ok last) :
    imports.filterMap Import.globalType? = [] := by
  induction imports generalizing resources with
  | nil => rfl
  | cons entry imports importsInduction =>
      rw [List.foldlM_cons] at provides
      obtain ⟨middle, provided, others⟩ := Binary.except_bind_eq_ok provides
      have none : entry.globalType? = none := by
        unfold Resources.provide at provided
        unfold Import.globalType?
        cases kind : entry.kind with
        | global type =>
            rw [kind] at provided
            cases provided
        | _ => rfl
      rw [List.filterMap_cons_none none]
      exact importsInduction others

/-- A global is added with the value of its initializer, which has the type of its declaration. -/
theorem addGlobal_eq_ok {global : Global} {globals later : Array Value}
    (adds : addGlobal globals global = .ok later) :
    ∃ value, evaluate globals global.initial = .ok value ∧ value.type = global.type.content ∧
      later = globals.push value := by
  unfold addGlobal at adds
  obtain ⟨value, evaluates, adds⟩ := Binary.except_bind_eq_ok adds
  by_cases same : value.type = global.type.content
  · rw [if_pos same] at adds
    cases adds
    exact ⟨value, evaluates, same, rfl⟩
  · rw [if_neg same] at adds
    cases adds

/-- A global that is added has the type of its declaration. -/
theorem types_of_addGlobal {global : Global} {globals later : Array Value}
    (adds : addGlobal globals global = .ok later) :
    later.toList.map Value.type = globals.toList.map Value.type ++ [global.type.content] := by
  obtain ⟨value, -, same, rfl⟩ := addGlobal_eq_ok adds
  rw [Array.toList_push, List.map_append, List.map_singleton, same]

/-- Globals that are added one after the other have the types of their declarations. -/
theorem types_of_addGlobals {declared : List Global} {globals last : Array Value}
    (adds : declared.foldlM addGlobal globals = .ok last) :
    last.toList.map Value.type =
      globals.toList.map Value.type ++ declared.map fun global => global.type.content := by
  induction declared generalizing globals with
  | nil =>
      cases adds
      rw [List.map_nil, List.append_nil]
  | cons global declared declaredInduction =>
      rw [List.foldlM_cons] at adds
      obtain ⟨later, added, others⟩ := Binary.except_bind_eq_ok adds
      rw [declaredInduction others, types_of_addGlobal added, List.append_assoc]
      rfl

/-- **The stages in which an initial store is made**, each of which succeeds: the limits are found,
the memory and the table created, the globals added, and the segments put into the table and the
memory. No activation is counted. -/
theorem stages_of_initialStore {assembly : Assembly} {bounds : Bounds} {store : Store}
    (initial : initialStore assembly bounds = .ok store) :
    ∃ resources memory table,
      assembly.imports.foldlM Resources.provide ⟨assembly.table, assembly.memory⟩ = .ok resources ∧
        createMemory resources.memory = .ok memory ∧
        createTable bounds resources.table = .ok table ∧
        assembly.globals.foldlM addGlobal #[] = .ok store.globals ∧
        assembly.elements.foldlM (addElements store.globals) table = .ok store.table ∧
        assembly.data.foldlM (addData store.globals) memory = .ok store.memory ∧
        store.depth = 0 := by
  unfold initialStore at initial
  obtain ⟨resources, provides, initial⟩ := Binary.except_bind_eq_ok initial
  obtain ⟨memory, createsMemory, initial⟩ := Binary.except_bind_eq_ok initial
  obtain ⟨table, createsTable, initial⟩ := Binary.except_bind_eq_ok initial
  obtain ⟨globals, adds, initial⟩ := Binary.except_bind_eq_ok initial
  obtain ⟨filled, fills, initial⟩ := Binary.except_bind_eq_ok initial
  obtain ⟨written, writes, initial⟩ := Binary.except_bind_eq_ok initial
  cases initial
  exact
    ⟨resources, memory, table, provides, createsMemory, createsTable, adds, fills, writes, rfl⟩

/-- **The globals of an initial store** are those that the assembly defines, added one after the
other; none is imported. -/
theorem globals_of_initialStore {assembly : Assembly} {bounds : Bounds} {store : Store}
    (initial : initialStore assembly bounds = .ok store) :
    assembly.importedGlobalTypes = [] ∧
      assembly.globals.foldlM addGlobal #[] = .ok store.globals := by
  obtain ⟨_, _, _, provides, -, -, adds, -⟩ := stages_of_initialStore initial
  exact ⟨globalTypes_of_provide provides, adds⟩

/-- **The globals start out with values of the types that the assembly declares**, and none is
imported. -/
theorem types_of_initialStore {assembly : Assembly} {bounds : Bounds} {store : Store}
    (initial : initialStore assembly bounds = .ok store) :
    assembly.importedGlobalTypes = [] ∧
      store.globals.toList.map Value.type =
        assembly.globals.map fun global => global.type.content := by
  obtain ⟨imported, adds⟩ := globals_of_initialStore initial
  exact ⟨imported, types_of_addGlobals adds⟩

/-- The globals of a module start out with values of their types. -/
theorem fits_of_initialStore {module : Module} {assembly : Assembly} {bounds : Bounds}
    {store : Store} (same : assembly.toDeclarations = module.toDeclarations)
    (initial : initialStore assembly bounds = .ok store) : store.Fits module := by
  obtain ⟨imported, types⟩ := types_of_initialStore initial
  rw [same] at imported types
  intro index
  have listed : store.globals[index]?.map Value.type =
      module.globals[index]?.map fun global => global.type.content := by
    rw [← Array.getElem?_toList, ← List.getElem?_map, types, List.getElem?_map]
  have declares : module.globalType? index = module.globals[index]?.map Global.type := by
    rw [Declarations.globalType?, imported, List.nil_append, List.getElem?_map]
  show store.globals[index]?.map Value.type = (module.globalType? index).map GlobalType.content
  rw [listed, declares, Option.map_map]
  rfl

/-! ## Calls -/

section

variable {program : Program} {assembly : Assembly} {bounds : Bounds} {steps function : Nat}
  {arguments : List Value} {store last : Store} {signature : Signature}

/-- A call of a typed function that returns keeps the globals at their types. -/
theorem fits_of_finished (compiled : program.CompilesTo assembly) (typed : program.Typed)
    (calls : program.Calls signature (function, arguments)) (globals : store.Fits program.module)
    {result : Option Value}
    (returns : Machine.call assembly bounds steps function arguments store =
      .finished result last) : last.Fits program.module := by
  obtain ⟨fuel, evaluated⟩ := (call_iff_progress? compiled typed.balanced rfl).mp ⟨steps, returns⟩
  obtain ⟨running, ended, rfl⟩ := Evaluation.progress?_eq_finished.mp evaluated
  have sound : (program.call bounds fuel function arguments store).Sound program.module _ :=
    Program.soundCalls typed compiled.single bounds fuel signature function arguments store calls
      globals
  rw [ended] at sound
  exact sound.2

/-- **A call of a typed function traps for no reason of types**, and keeps the globals at theirs. -/
theorem isSound_of_trapped (compiled : program.CompilesTo assembly) (typed : program.Typed)
    (calls : program.Calls signature (function, arguments)) (globals : store.Fits program.module)
    {trap : Trap}
    (traps : Machine.call assembly bounds steps function arguments store = .trapped trap last) :
    trap.isSound = true ∧ last.Fits program.module := by
  obtain ⟨fuel, evaluated⟩ := (call_iff_progress? compiled typed.balanced rfl).mp ⟨steps, traps⟩
  have sound : (program.call bounds fuel function arguments store).Sound program.module _ :=
    Program.soundCalls typed compiled.single bounds fuel signature function arguments store calls
      globals
  rw [Evaluation.progress?_eq_trapped.mp evaluated] at sound
  exact sound

/-- The start function is called as its signature says. -/
theorem Program.Typed.calls_start (typed : program.Typed) {start : UInt32}
    (starts : program.module.start = some start) : program.Calls {} (start.toNat, []) :=
  ⟨typed.start start starts, rfl⟩

end

/-! ## Invocations -/

namespace Machine

/-- **The instances that invocations lead to**: one whose start function has returned, and what each
invocation that ends leaves, whether it returns or traps. The steps only bound a run: nothing
follows an invocation that does not end. -/
inductive Reachable (assembly : Assembly) (bounds : Bounds) : Instance → Prop where
  /-- An instance is made. -/
  | instantiated {steps : Nat} {inst : Instance}
      (returns : instantiate steps assembly bounds = .returned inst) :
      Reachable assembly bounds inst
  /-- An invocation returns. -/
  | returned {inst later : Instance} {steps : Nat} {name : String} {arguments : List Value}
      {result : Option Value} (before : Reachable assembly bounds inst)
      (returns : inst.invoke steps name arguments = (.returned result, later)) :
      Reachable assembly bounds later
  /-- An invocation traps. -/
  | trapped {inst later : Instance} {steps : Nat} {name : String} {arguments : List Value}
      {trap : Trap} (before : Reachable assembly bounds inst)
      (traps : inst.invoke steps name arguments = (.trapped trap, later)) :
      Reachable assembly bounds later

namespace Instance

/-- How an invocation ends whose call has come to some progress, and the instance after. -/
def after (inst : Instance) : Progress → Outcome (Option Value) × Instance
  | .finished result store => (.returned result, { inst with store := store })
  | .trapped trap store => (.trapped trap, { inst with store := store })
  | .running state => (.unfinished, { inst with store := state.running.store })

/-- An exported function has the signature that the assembly says. -/
theorem signature?_of_exported {inst : Instance} {name : String} {function : Nat}
    {signature : Signature} (exported : inst.exportedFunction? name = some (function, signature)) :
    inst.assembly.signature? function = some signature := by
  unfold exportedFunction? at exported
  split at exported
  · obtain ⟨declared, found, same⟩ := Option.map_eq_some_iff.mp exported
    cases same
    exact found
  · cases exported

/-- **An invocation is refused or calls a function** with arguments of the types of its
parameters. -/
theorem invoke_cases (inst : Instance) (steps : Nat) (name : String) (arguments : List Value) :
    (∃ trap, trap.isSound = true ∧ inst.invoke steps name arguments = (.trapped trap, inst)) ∨
      ∃ function signature, inst.exportedFunction? name = some (function, signature) ∧
        arguments.map Value.type = signature.params ∧
        inst.invoke steps name arguments =
          inst.after (call inst.assembly inst.bounds steps function arguments inst.store) := by
  unfold invoke
  cases exported : inst.exportedFunction? name with
  | none => exact .inl ⟨.noSuchExport name, rfl, rfl⟩
  | some entry =>
      obtain ⟨function, signature⟩ := entry
      by_cases typed : arguments.map Value.type = signature.params
      · refine .inr ⟨function, signature, rfl, typed, ?_⟩
        simp only [if_pos typed]
        cases call inst.assembly inst.bounds steps function arguments inst.store <;> rfl
      · refine .inl ⟨.argumentMismatch name signature, rfl, ?_⟩
        simp only [if_neg typed]

/-- **Whether an instance fits a module**: it is one of its assembly, and its globals hold values of
their types. -/
structure Fits (module : Module) (assembly : Assembly) (inst : Instance) : Prop where
  /-- The assembly. -/
  assembly : inst.assembly = assembly
  /-- The globals. -/
  globals : inst.store.Fits module

/-- Whether an invocation is sound: it traps for no reason of types, and the instance fits after
it. -/
def Settles (module : Module) (assembly : Assembly) : Outcome (Option Value) × Instance → Prop
  | (.returned _, later) => later.Fits module assembly
  | (.trapped trap, later) => trap.isSound = true ∧ later.Fits module assembly
  | (.unfinished, _) => True

variable {program : Program} {assembly : Assembly}

/-- **Invocations of an instance that fits are sound.** -/
theorem Fits.settles (compiled : program.CompilesTo assembly) (typed : program.Typed)
    {inst : Instance} (fits : inst.Fits program.module assembly) (steps : Nat) (name : String)
    (arguments : List Value) :
    Settles program.module assembly (inst.invoke steps name arguments) := by
  rcases inst.invoke_cases steps name arguments with ⟨trap, sound, refused⟩ |
    ⟨function, signature, exported, passed, called⟩
  · rw [refused]
    exact ⟨sound, fits⟩
  · have declared := signature?_of_exported exported
    rw [fits.assembly, compiled.signatures] at declared
    rw [called, fits.assembly]
    cases outcome : call assembly inst.bounds steps function arguments inst.store with
    | finished result last =>
        have globals := fits_of_finished compiled typed ⟨declared, passed⟩ fits.globals outcome
        exact ⟨fits.assembly, globals⟩
    | trapped trap last =>
        obtain ⟨sound, globals⟩ :=
          isSound_of_trapped compiled typed ⟨declared, passed⟩ fits.globals outcome
        exact ⟨sound, fits.assembly, globals⟩
    | running state => exact trivial

end Instance

/-- An instance is made if its start function returns. -/
theorem instantiate_of_finished {assembly : Assembly} {bounds : Bounds} {steps : Nat}
    {store last : Store} {start : UInt32} {result : Option Value}
    (initial : initialStore assembly bounds = .ok store) (starts : assembly.start = some start)
    (returns : call assembly bounds steps start.toNat [] store = .finished result last) :
    instantiate steps assembly bounds = .returned ⟨assembly, bounds, last⟩ := by
  unfold instantiate
  rw [initial]
  simp only [starts]
  rw [returns]

/-- **An instance that is made fits its module**, since its start function keeps the globals at
their types. -/
theorem fits_of_instantiate {program : Program} {assembly : Assembly} {bounds : Bounds}
    {steps : Nat} {inst : Instance} (compiled : program.CompilesTo assembly)
    (typed : program.Typed)
    (same : assembly.toDeclarations = program.module.toDeclarations)
    (returns : instantiate steps assembly bounds = .returned inst) :
    inst.Fits program.module assembly := by
  unfold instantiate at returns
  cases initial : initialStore assembly bounds with
  | error trap =>
      rw [initial] at returns
      cases returns
  | ok store =>
      have globals := fits_of_initialStore same initial
      rw [initial] at returns
      -- The start function runs on a store that fits, and calls keep it fitting.
      cases starts : assembly.start with
      | none =>
          simp only [starts] at returns
          cases returns
          exact ⟨rfl, globals⟩
      | some start =>
          simp only [starts] at returns
          rw [same] at starts
          split at returns
          · next finished =>
              cases returns
              exact
                ⟨rfl, fits_of_finished compiled typed (typed.calls_start starts) globals finished⟩
          · cases returns
          · cases returns

/-- **Instances that invocations lead to fit their module.** -/
theorem fits_of_reachable {program : Program} {assembly : Assembly} {bounds : Bounds}
    {inst : Instance} (compiled : program.CompilesTo assembly) (typed : program.Typed)
    (same : assembly.toDeclarations = program.module.toDeclarations)
    (reachable : Reachable assembly bounds inst) : inst.Fits program.module assembly := by
  induction reachable with
  | instantiated returns => exact fits_of_instantiate compiled typed same returns
  | @returned inst later steps name arguments result before returns fits =>
      have settles := fits.settles compiled typed steps name arguments
      rw [returns] at settles
      exact settles
  | @trapped inst later steps name arguments trap before traps fits =>
      have settles := fits.settles compiled typed steps name arguments
      rw [traps] at settles
      exact settles.2

/-- A sound trap is neither for a missing operand nor for the type of one. -/
theorem Trap.isSound_iff {trap : Trap} :
    trap.isSound = true ↔ trap ≠ .stackUnderflow ∧ ∀ type, trap ≠ .typeMismatch type := by
  cases trap <;> simp [Trap.isSound]

end Machine

/-- **Typed modules never trap for a reason of types.** The assembly of a module whose code
satisfies the typing rules never looks for an operand that is missing, nor finds one of another type
than it expects: not when its start function is called from the initial state, and not when a
function is invoked by any name with any arguments, in any instance that any invocations have led
to, within any resources. -/
theorem isSound_of_typed {name : String} {bytes : List UInt8} {module : Module}
    {assembly : Assembly} (decoded : Binary.decodeModule bytes = .ok module)
    (compiles : compile name bytes = .ok assembly) :
    (∃ program : Program, program.module = module ∧ program.Reads) ∧
    ∀ program : Program, program.module = module → program.Reads → program.Typed →
      ∀ bounds : Bounds,
        (∀ start store steps trap last, assembly.start = some start →
          initialStore assembly bounds = .ok store →
          Machine.call assembly bounds steps start.toNat [] store = .trapped trap last →
          trap ≠ .stackUnderflow ∧ ∀ type, trap ≠ .typeMismatch type) ∧
        ∀ inst : Instance, Reachable assembly bounds inst →
          ∀ steps exported arguments trap later,
            inst.invoke steps exported arguments = (.trapped trap, later) →
            trap ≠ .stackUnderflow ∧ ∀ type, trap ≠ .typeMismatch type := by
  refine ⟨exists_reads (Binary.wellRead_of_decodeModule decoded), ?_⟩
  rintro program rfl reads typed bounds
  have compiled := compilesTo_of_compile compiles decoded reads
  have same := toDeclarations_of_compile compiles decoded
  constructor
  · intro start store steps trap last starts initial traps
    rw [same] at starts
    have globals := fits_of_initialStore same initial
    have sound := isSound_of_trapped compiled typed (typed.calls_start starts) globals traps
    exact Trap.isSound_iff.mp sound.1
  · intro inst reachable steps exported arguments trap later traps
    have fits := fits_of_reachable compiled typed same reachable
    have settles := fits.settles compiled typed steps exported arguments
    rw [traps] at settles
    exact Trap.isSound_iff.mp settles.1

/-! ## A module with a start function -/

/-- Whether bytes are those of a module. -/
def decodesTo (bytes : List UInt8) (module : Module) : Bool :=
  match Binary.decodeModule bytes with
  | .ok read => decide (read = module)
  | .error _ => false

/-- Bytes of a module are decoded as it. -/
theorem decodeModule_of_decodesTo {bytes : List UInt8} {module : Module}
    (decodes : decodesTo bytes module = true) : Binary.decodeModule bytes = .ok module := by
  unfold decodesTo at decodes
  split at decodes
  · next equation => rw [equation, of_decide_eq_true decodes]
  · cases decodes

/-- The bytes of a module whose start function sets a global, and whose other function branches out
of a block with the sum of its argument and the global, if the argument is not zero. -/
def counterBytes : List UInt8 :=
  [0x00, 0x61, 0x73, 0x6d, 0x01, 0x00, 0x00, 0x00, 0x01, 0x09, 0x02, 0x60, 0x00, 0x00, 0x60, 0x01,
    0x7f, 0x01, 0x7f, 0x03, 0x03, 0x02, 0x00, 0x01, 0x06, 0x06, 0x01, 0x7f, 0x01, 0x41, 0x05, 0x0b,
    0x07, 0x07, 0x01, 0x03, 0x61, 0x64, 0x64, 0x00, 0x01, 0x08, 0x01, 0x00, 0x0a, 0x17, 0x02, 0x06,
    0x00, 0x41, 0x07, 0x24, 0x00, 0x0b, 0x0e, 0x00, 0x02, 0x7f, 0x20, 0x00, 0x23, 0x00, 0x6a, 0x20,
    0x00, 0x0d, 0x00, 0x0b, 0x0b]

/-- The code of the start function. -/
def counterStart : Code 0 :=
  .plain 49 (.const (.i32 7)) (.plain 51 (.setGlobal 0) .empty)

/-- The code of the other function. -/
def counterAdd : Code 0 :=
  .block 56 .block (some .i32)
    (.plain 58 (.getLocal 0) (.plain 60 (.getGlobal 0) (.plain 62 (.numeric (.intBinary .i32 .add))
      (.plain 63 (.getLocal 0) (.jump 65 (.ifTrue ⟨0, Nat.zero_lt_one⟩) .empty)))))
    67 .empty

/-- The module with both functions. -/
def counter : Program where
  module :=
    { types := [{}, { params := [.i32], results := [.i32] }]
      functions := [0, 1]
      globals := [⟨⟨.i32, true⟩, .constant (.i32 5)⟩]
      exports := [⟨"add", .function 1⟩]
      start := some 0
      bodies := [counterStart.link [] 53, counterAdd.link [] 68] }
  trees := [counterStart, counterAdd]

/-- The start function satisfies the typing rules. -/
theorem counterStart_typed {context : TypingContext}
    (global : (context.module.globalType? 0).map GlobalType.content = some .i32)
    {carried : Fin 0 → List ValueType} : counterStart.Typed context carried [] [] :=
  ⟨[], [.i32], [.i32], .const _, ⟨[], rfl, fun _ => rfl⟩,
    [.i32], [], [], .setGlobal global, ⟨[], rfl, fun _ => rfl⟩, rfl⟩

/-- So does the other function. -/
theorem counterAdd_typed {context : TypingContext}
    (global : (context.module.globalType? 0).map GlobalType.content = some .i32)
    (slot : context.slots[0]? = some .i32) {carried : Fin 0 → List ValueType} :
    counterAdd.Typed context carried [] [.i32] := by
  refine ⟨⟨[], [.i32], [.i32], .getLocal slot, ⟨[], rfl, fun _ => rfl⟩, ?_⟩, rfl⟩
  refine ⟨[], [.i32], [.i32, .i32], .getGlobal global, ⟨[.i32], rfl, fun _ => rfl⟩, ?_⟩
  refine
    ⟨[.i32, .i32], [.i32], [.i32], .numeric (.intBinary .i32 .add), ⟨[], rfl, fun _ => rfl⟩, ?_⟩
  refine ⟨[], [.i32], [.i32, .i32], .getLocal slot, ⟨[.i32], rfl, fun _ => rfl⟩, ?_⟩
  exact ⟨[.i32, .i32], [.i32], [.i32], .ifTrue _, ⟨[], rfl, fun _ => rfl⟩, rfl⟩

/-- The instance of a module that sets a global in its start function can be made, and no invocation
in it or in what later ones leave traps for a reason of types. -/
theorem isSound_of_typed_counter :
    Binary.decodeModule counterBytes = .ok counter.module ∧ counter.Reads ∧ counter.Typed ∧
      ∃ assembly, compile "counter" counterBytes = .ok assembly ∧
        (∃ inst, Reachable assembly {} inst) ∧
        ∀ inst : Instance, Reachable assembly {} inst →
          ∀ steps arguments trap later,
            inst.invoke steps "add" arguments = (.trapped trap, later) →
            trap ≠ .stackUnderflow ∧ ∀ type, trap ≠ .typeMismatch type := by
  have decoded : Binary.decodeModule counterBytes = .ok counter.module :=
    decodeModule_of_decodesTo (by decide +kernel)
  have reads : counter.Reads := by
    refine ⟨rfl, fun position tree body read there => ?_⟩
    match position with
    | 0 =>
        cases read
        cases there
        exact ⟨53, rfl⟩
    | 1 =>
        cases read
        cases there
        exact ⟨68, rfl⟩
    | position + 2 => cases read
  have typed : counter.Typed := by
    refine ⟨fun index definition known => ?_, fun start starts => ?_⟩
    · match index with
      | 0 =>
          cases known
          exact counterStart_typed rfl
      | 1 =>
          cases known
          exact counterAdd_typed rfl rfl
      | index + 2 => cases known
    · cases starts
      rfl
  have allowed : moduleViolation? counter.module = none := by decide +kernel
  obtain ⟨functions, compiles⟩ := exists_compile decoded allowed "counter"
  refine ⟨decoded, reads, typed, _, compiles, ?_, ?_⟩
  · have compiled := compilesTo_of_compile compiles decoded reads
    -- the start function sets the global from 5 to 7
    obtain ⟨steps, returns⟩ := (@call_iff_progress? counter _ {} (0 : UInt32).toNat []
      ⟨⟨#[], 0⟩, #[.i32 5], #[], 0⟩ compiled typed.balanced
      (.finished none ⟨⟨#[], 0⟩, #[.i32 7], #[], 0⟩) rfl).mpr ⟨1, rfl⟩
    exact ⟨_, .instantiated (instantiate_of_finished rfl rfl returns)⟩
  · intro inst reachable steps arguments trap later traps
    obtain ⟨-, sound⟩ := isSound_of_typed decoded compiles
    exact (sound counter rfl reads typed {}).2 inst reachable steps "add" arguments trap later traps

end WasmCompiler
