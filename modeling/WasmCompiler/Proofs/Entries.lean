import WasmCompiler.Proofs.Lookups

/-! # Arguments at the entry of functions

A function reads its arguments and its locals from the same slots, and only the number of its
parameters tells them apart. Invocations and calls from inside check arguments against the signature
of the callee. The start function is called with no arguments and without a check: if it has
parameters, its locals stand where it looks for arguments.

* **`EntriesMatch`** — every activation starts with the arguments that its function has parameters
  for, and its slots stay apart;
* **`entriesMatch_iff`** — that is so exactly if the start function has no parameters. -/

namespace WasmCompiler

open Bytecode (Assembly Function Op)
open Machine
open Machine.Execution

namespace Machine

variable {assembly : Assembly} {bounds : Bounds}

/-! ## Slots of types -/

/-- **Whether the slots of an activation have the types of its function**: those of the parameters,
followed by those of the locals. -/
def Activation.Typed (activation : Activation) : Prop :=
  activation.slots.toList.map Value.type =
    activation.function.signature.params ++ activation.function.locals

/-- **An activation starts out with typed slots exactly if the arguments match the parameters.** -/
theorem typed_iff_of_enter {function depth : Nat} {arguments : List Value} {activation : Activation}
    (enters : enter assembly bounds function arguments depth = .ok activation) :
    activation.Typed ↔ arguments.map Value.type = activation.function.signature.params := by
  obtain ⟨definition, -, -, -, rfl⟩ := enter_eq_ok enters
  have zeros : (definition.locals.map Value.zero).map Value.type = definition.locals := by
    rw [List.map_map]
    exact List.map_id'' Value.type_zero _
  rw [Activation.Typed, List.map_append, zeros]
  exact List.append_left_inj _

/-- Slots stay typed, whatever the function executes. -/
theorem carried_typed (outside : Nat) : Carried assembly bounds outside Activation.Typed :=
  .of_evolves (fun enters _ passed => (typed_iff_of_enter enters).mpr passed)
    fun evolves typed => by
      rw [Activation.Typed, evolves.slots, evolves.function]
      exact typed

/-! ## Entries -/

/-- **The states that calls from outside go through**, of an assembly and within resources. -/
def Occurs (assembly : Assembly) (bounds : Bounds) (state : State) : Prop :=
  ∃ function arguments store steps, Outside assembly bounds function arguments store ∧
    call assembly bounds steps function arguments store = .running state

/-- **Whether every activation starts with matching arguments**, however its function comes to be
executed, so that arguments and locals stay apart. -/
structure EntriesMatch (assembly : Assembly) (bounds : Bounds) : Prop where
  /-- The start function, which is called with no arguments, is entered with one value of its type
  for each parameter. -/
  start : ∀ start store activation, assembly.start = some start →
    initialStore assembly bounds = .ok store →
    enter assembly bounds start.toNat [] store.depth = .ok activation →
    ([] : List Value).map Value.type = activation.function.signature.params
  /-- So is the function that an invocation calls, unless the invocation is refused. -/
  invoked : ∀ inst steps name arguments, Reachable assembly bounds inst →
    (∃ trap, inst.invoke steps name arguments = (.trapped trap, inst)) ∨
      ∃ function, Outside assembly bounds function arguments inst.store ∧
        inst.invoke steps name arguments =
          inst.after (call assembly bounds steps function arguments inst.store) ∧
        ∀ activation, enter assembly bounds function arguments inst.store.depth = .ok activation →
          arguments.map Value.type = activation.function.signature.params
  /-- So is a function that is called from inside, directly or through the table. -/
  inside : ∀ state callee arguments later activation, Occurs assembly bounds state →
    next assembly bounds state.running = .ok (.call callee arguments) later →
    enter assembly bounds callee arguments later.store.depth = .ok activation →
    arguments.map Value.type = activation.function.signature.params
  /-- At every step the slots of every activation hold values of the types of the parameters,
  followed by values of the types of the locals. -/
  slots : ∀ state, Occurs assembly bounds state →
    ∀ activation ∈ state.activations, activation.Typed
  /-- No operation on an argument is one on a local. -/
  apart : ∀ state, Occurs assembly bounds state → ∀ activation ∈ state.activations, ∀ index,
    (.loadArg index ∈ activation.function.code ∨ .storeArg index ∈ activation.function.code) →
    index < activation.function.signature.params.length

/-- A state that occurs is one that some call from outside goes through. -/
theorem Occurs.visits {state : State} (occurs : Occurs assembly bounds state) :
    ∃ function arguments store, Outside assembly bounds function arguments store ∧
      Visits assembly bounds function arguments store state := by
  obtain ⟨function, arguments, store, steps, outside, calls⟩ := occurs
  exact ⟨function, arguments, store, outside, visits_of_call calls⟩

/-- **What the initial store satisfies and the code preserves holds of every store that occurs.** -/
theorem Occurs.holds {holds : Store → Prop} (preserves : Preserves assembly bounds holds)
    (initially : ∀ store, initialStore assembly bounds = .ok store → holds store) {state : State}
    (occurs : Occurs assembly bounds state) : holds state.running.store := by
  obtain ⟨function, arguments, store, outside, visits⟩ := occurs.visits
  exact preserves.visits (outside.holds preserves initially) visits

/-- Arguments that a call passes for a known signature match the parameters of the callee. -/
theorem types_of_signature? {function depth : Nat} {signature : Signature} {arguments : List Value}
    {activation : Activation} (known : assembly.signature? function = some signature)
    (passed : arguments.map Value.type = signature.params)
    (enters : enter assembly bounds function arguments depth = .ok activation) :
    arguments.map Value.type = activation.function.signature.params := by
  rw [passed, signature_of_enter enters known]

/-- Arguments that a running function passes match the parameters of the callee. -/
theorem types_of_call {callee : Nat} {arguments : List Value} {running later : Running}
    {activation : Activation}
    (executes : next assembly bounds running = .ok (.call callee arguments) later)
    (enters : enter assembly bounds callee arguments later.store.depth = .ok activation) :
    arguments.map Value.type = activation.function.signature.params := by
  obtain ⟨signature, known, passed⟩ := proper_of_next executes
  exact types_of_signature? known passed enters

/-- An exported function of an instance that invocations lead to is known to the assembly. -/
theorem Reachable.signature?_of_exported {inst : Instance}
    (reachable : Reachable assembly bounds inst) {name : String} {function : Nat}
    {signature : Signature} (exported : inst.exportedFunction? name = some (function, signature)) :
    assembly.signature? function = some signature := by
  have known := Instance.signature?_of_exported exported
  rwa [reachable.sound.program] at known

/-- **An invocation is refused, or calls a function from outside** with arguments that match its
parameters. -/
theorem Reachable.invoked {inst : Instance} (reachable : Reachable assembly bounds inst)
    (steps : Nat) (name : String) (arguments : List Value) :
    (∃ trap, inst.invoke steps name arguments = (.trapped trap, inst)) ∨
      ∃ function, Outside assembly bounds function arguments inst.store ∧
        inst.invoke steps name arguments =
          inst.after (call assembly bounds steps function arguments inst.store) ∧
        ∀ activation, enter assembly bounds function arguments inst.store.depth = .ok activation →
          arguments.map Value.type = activation.function.signature.params := by
  rcases inst.invoke_cases steps name arguments with ⟨trap, -, refused⟩ |
    ⟨function, signature, exported, passed, called⟩
  · exact .inl ⟨trap, refused⟩
  · have known := reachable.signature?_of_exported exported
    rw [reachable.sound.program, reachable.sound.resources] at called
    exact .inr ⟨function, .invoked reachable exported passed, called, fun activation enters =>
      types_of_signature? known passed enters⟩

/-! ## Start functions without parameters -/

section

variable
    (starts : ∀ start store activation, assembly.start = some start →
      initialStore assembly bounds = .ok store →
      enter assembly bounds start.toNat [] store.depth = .ok activation →
      activation.function.signature.params = [])

include starts

/-- Arguments of a call from outside match the parameters, if the start function has none. -/
theorem Outside.types {function : Nat} {arguments : List Value} {store : Store}
    {activation : Activation}
    (outside : Outside assembly bounds function arguments store)
    (enters : enter assembly bounds function arguments store.depth = .ok activation) :
    arguments.map Value.type = activation.function.signature.params := by
  cases outside with
  | start isStart initial => exact (starts _ _ _ isStart initial enters).symm
  | invoked reachable exported passed =>
      exact types_of_signature? (reachable.signature?_of_exported exported) passed enters

/-- **Slots are typed at every step** of a call from outside, if the start function has no
parameters. -/
theorem Occurs.typed {state : State} (occurs : Occurs assembly bounds state) :
    ∀ activation ∈ state.activations, activation.Typed := by
  obtain ⟨function, arguments, store, outside, visits⟩ := occurs.visits
  -- Calls from inside check their arguments, so only the first activation depends on the caller.
  exact visits.forall_activations (carried_typed store.depth) fun activation enters =>
    (typed_iff_of_enter enters).mpr (outside.types starts enters)

end

/-- **Operations on arguments stay within the parameters** of closed functions. -/
theorem Occurs.apart {state : State}
    (closed : ∀ function ∈ assembly.functions, function.Closed assembly)
    (occurs : Occurs assembly bounds state) {activation : Activation}
    (member : activation ∈ state.activations) {index : Nat}
    (among : .loadArg index ∈ activation.function.code ∨
      .storeArg index ∈ activation.function.code) :
    index < activation.function.signature.params.length := by
  obtain ⟨function, arguments, store, -, visits⟩ := occurs.visits
  have inCode := closed _ (visits.within closed activation member).function
  rcases among with loads | stores
  · exact inCode.refers _ loads
  · exact inCode.refers _ stores

end Machine

/-- **Every activation of a compiled module starts with matching arguments exactly if its start
function has no parameters**, where it is entered: from outside and from inside, within any
resources. -/
theorem entriesMatch_iff {name : String} {bytes : List UInt8} {assembly : Assembly}
    (compiles : compile name bytes = .ok assembly) (bounds : Bounds) :
    EntriesMatch assembly bounds ↔
      ∀ start store activation, assembly.start = some start →
        initialStore assembly bounds = .ok store →
        enter assembly bounds start.toNat [] store.depth = .ok activation →
        activation.function.signature.params = [] := by
  constructor
  -- The start function is called with no arguments, which match only if there are no parameters.
  · intro entries start store activation isStart initial enters
    exact (entries.start start store activation isStart initial enters).symm
  · intro starts
    have closed := closed_of_compile compiles
    refine ⟨?_, ?_, ?_, fun state occurs => occurs.typed starts, ?_⟩
    · intro start store activation isStart initial enters
      exact (starts start store activation isStart initial enters).symm
    · intro inst steps name arguments reachable
      exact reachable.invoked steps name arguments
    · intro state callee arguments later activation occurs executes enters
      exact types_of_call executes enters
    · intro state occurs activation member index among
      exact occurs.apart closed member among

/-- The function that the start function calls starts with its argument, which its operations on
arguments find before its local. -/
theorem entriesMatch_iff_doubling :
    compile "doubling" doublingBytes = .ok doubling ∧ EntriesMatch doubling {} := by
  refine ⟨compile_doubling, (entriesMatch_iff compile_doubling {}).mpr ?_⟩
  intro start store activation isStart initial enters
  cases isStart
  rw [depth_of_initialStore initial] at enters
  cases enters
  rfl

/-! ## A start function with a parameter -/

/-- The bytes of a module whose start function has a parameter and a local, and sets a global to its
argument. -/
def aliasingBytes : List UInt8 :=
  [0x00, 0x61, 0x73, 0x6d, 0x01, 0x00, 0x00, 0x00, 0x01, 0x05, 0x01, 0x60, 0x01, 0x7f, 0x00, 0x03,
    0x02, 0x01, 0x00, 0x06, 0x06, 0x01, 0x7f, 0x01, 0x41, 0x05, 0x0b, 0x08, 0x01, 0x00, 0x0a, 0x0a,
    0x01, 0x08, 0x01, 0x01, 0x7f, 0x20, 0x00, 0x24, 0x00, 0x0b]

/-- The assembly of the module. -/
def aliasing : Assembly where
  name := "aliasing"
  types := [⟨[.i32], []⟩]
  globals := [⟨⟨.i32, true⟩, .constant (.i32 5)⟩]
  start := some 0
  functions := #[⟨0, ⟨[.i32], []⟩, [.i32], #[.loadArg 0, .storeGlobal 0, .ret]⟩]

/-- **A start function with a parameter starts without an argument**: what it reads as its argument
is its local. -/
theorem not_entriesMatch_aliasing :
    compile "aliasing" aliasingBytes = .ok aliasing ∧ ¬EntriesMatch aliasing {} ∧
      instantiate 3 aliasing = .returned ⟨aliasing, {}, ⟨⟨#[], 0⟩, #[.i32 0], #[], 0⟩⟩ := by
  refine ⟨compile_of_assemblesTo (by decide +kernel), fun entries => ?_, rfl⟩
  exact absurd (entries.start 0 ⟨⟨#[], 0⟩, #[.i32 5], #[], 0⟩ _ rfl rfl rfl) nofun

end WasmCompiler
