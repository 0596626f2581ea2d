import WasmCompiler.Proofs.Closure
import WasmCompiler.Proofs.Instances

/-! # Lookups of closed assemblies

The code of a closed assembly leads nowhere else: while its functions run there is always a next
operation, since the code ends with a return and branches stay in it, and the references of the next
operation find what they refer to. Globals are found because an instance has all that its assembly
declares: none can be imported.

* **`Leads`** — where an action may lead a function;
* **`Activation.Within`** — the function is one of the assembly, and there is a next operation;
* **`Op.Finds`** — the references of an operation find what they refer to;
* **`assemblies_closed`** — those of compiled modules do at every step of a call from outside. -/

namespace WasmCompiler.Machine

open Bytecode (Assembly Function Op)
open Stateful
open Execution

variable {assembly : Assembly} {bounds : Bounds}

/-! ## Positions -/

/-- **Whether an action leads only to some targets**, or stays at its place. -/
def Leads (targets : List Nat) {α : Type} (action : Execution α) : Prop :=
  ∀ (running later : Running) (value : α), action running = .ok value later →
    later.activation.position = running.activation.position ∨
      later.activation.position ∈ targets

section

variable {targets : List Nat} {α β : Type}

/-- An action that does not depend on the place stays there. -/
theorem Local.leads {action : Execution α} (isLocal : Local action) : Leads targets action := by
  intro running later value equation
  have moved : action running =
      relocate running.activation.function.code running.activation.position (action running) :=
    isLocal.relocates running running.activation.function.code running.activation.position
  rw [equation] at moved
  injection moved with _ same
  rw [same]
  exact .inl rfl

/-- Actions one after the other lead only where each does. -/
theorem Leads.bind {first : Execution α} {second : α → Execution β} (start : Leads targets first)
    (onward : ∀ value, Leads targets (second value)) : Leads targets (first >>= second) := by
  intro running last result equation
  obtain ⟨value, later, starts, follows⟩ := bind_eq_ok.mp equation
  rcases onward value later last result follows with same | member
  · rw [same]
    exact start running later value starts
  · exact .inr member

/-- So does a choice between them. -/
theorem Leads.ite {condition : Prop} [Decidable condition] {first second : Execution α}
    (positive : Leads targets first) (negative : Leads targets second) :
    Leads targets (if condition then first else second) := by
  by_cases holds : condition
  · rw [if_pos holds]
    exact positive
  · rw [if_neg holds]
    exact negative

/-- A jump leads to its target. -/
theorem leads_jump {target : Nat} (member : target ∈ targets) : Leads targets (jump target) := by
  intro running later value equation
  cases equation
  exact .inr member

end

/-- What comes before a direct call is local. -/
theorem local_prepareCall (function : Nat) (signature : Signature) :
    Local (prepareCall function signature) := by
  rw [prepareCall_eq]
  exact (local_takeArguments signature).bind fun _ => local_pure _

/-- So is what comes before an indirect one. -/
theorem local_prepareIndirectCall (assembly : Assembly) (typeIndex : Nat) :
    Local (prepareIndirectCall assembly typeIndex) := by
  unfold prepareIndirectCall
  split
  · exact local_throw _
  · exact local_popI32.bind fun _ => (local_tableEntry _).bind fun function =>
      Local.ite (local_prepareCall function _) (local_throw _)

/-- The selected target is one of those listed, or the last one. -/
theorem getD_mem_targets (targets : List Nat) (selector fallback : Nat) :
    targets[selector]?.getD fallback ∈ targets ++ [fallback] := by
  cases found : targets[selector]? with
  | none => exact List.mem_append_right _ List.mem_cons_self
  | some target => exact List.mem_append_left _ (List.mem_of_getElem? found)

/-- **An operation leads only to its targets.** -/
theorem leads_execute (op : Op Nat) : Leads op.targets (execute assembly bounds op) := by
  have stays : Leads op.targets (pure () : Execution Unit) := (local_pure ()).leads
  have goesOn : ∀ _ : Unit, Leads op.targets (pure .next : Execution Signal) :=
    fun _ => (local_pure Signal.next).leads
  cases op with
  | jump target => exact (leads_jump List.mem_cons_self).bind goesOn
  | jumpIf target =>
      exact Leads.bind (local_popI32.leads.bind fun _ =>
        Leads.ite (leads_jump List.mem_cons_self) stays) goesOn
  | jumpUnless target =>
      exact Leads.bind (local_popI32.leads.bind fun _ =>
        Leads.ite (leads_jump List.mem_cons_self) stays) goesOn
  | switch targets fallback =>
      exact Leads.bind (local_popI32.leads.bind fun _ =>
        leads_jump (getD_mem_targets targets _ fallback)) goesOn
  | call function =>
      rw [execute]
      split
      · exact (local_throw _).leads
      · exact (local_prepareCall _ _).leads
  | callIndirect typeIndex => exact (local_prepareIndirectCall assembly typeIndex).leads
  | ret =>
      rw [execute, finish_eq]
      exact (local_takeResult.bind fun _ => local_pure _).leads
  -- Everything else has no targets and goes on at the next operation.
  | _ => exact Leads.bind (local_effect bounds rfl).leads goesOn

/-- A return is the only operation that returns. -/
theorem exists_done_of_ret {running later : Running} {signal : Signal}
    (executes : execute assembly bounds .ret running = .ok signal later) :
    ∃ result, signal = .done result := by
  rw [execute, finish_eq] at executes
  obtain ⟨result, middle, -, equation⟩ := bind_eq_ok.mp executes
  cases equation
  exact ⟨result, rfl⟩

/-! ## Activations of closed functions -/

/-- **Whether an activation is in the code of a function of the assembly**, with the locals of the
function among its slots. -/
structure Activation.Within (assembly : Assembly) (activation : Activation) : Prop where
  /-- The function is one of the assembly. -/
  function : activation.function ∈ assembly.functions
  /-- There is a next operation. -/
  position : activation.position < activation.function.code.size
  /-- There are slots for the locals. -/
  locals : activation.function.locals.length ≤ activation.slots.size

/-- Executing the next operation starts at the position after it. -/
theorem execute_of_next {running later : Running} {signal : Signal} {op : Op Nat}
    (found : running.activation.function.code[running.activation.position]? = some op)
    (executes : next assembly bounds running = .ok signal later) :
    execute assembly bounds op
        (running.at running.activation.function.code (running.activation.position + 1)) =
      .ok signal later :=
  (next_apply found).symm.trans executes

/-- Functions that evolve stay in the assembly and keep the slots for their locals. -/
theorem Activation.Within.evolve {earlier later : Running} (evolves : earlier.Evolves bounds later)
    (within : earlier.activation.Within assembly)
    (position : later.activation.position < earlier.activation.function.code.size) :
    later.activation.Within assembly where
  function := evolves.function ▸ within.function
  position := evolves.function ▸ position
  locals := by
    rw [evolves.function, evolves.size_slots]
    exact within.locals

/-- Activations start within the code of closed functions. -/
theorem within_of_enter (closed : ∀ function ∈ assembly.functions, function.Closed assembly)
    {function depth : Nat} {arguments : List Value} {activation : Activation}
    (enters : enter assembly bounds function arguments depth = .ok activation) :
    activation.Within assembly := by
  obtain ⟨definition, found, -, -, rfl⟩ := enter_eq_ok enters
  have member := mem_of_function? found
  refine ⟨member, (closed definition member).size_pos, ?_⟩
  rw [List.size_toArray, List.length_append, List.length_map]
  exact Nat.le_add_left _ _

/-- **Activations stay within the code** of closed functions until they return. -/
theorem carried_within (closed : ∀ function ∈ assembly.functions, function.Closed assembly)
    (outside : Nat) :
    Carried assembly bounds outside (Activation.Within assembly) where
  enters enters _ _ := within_of_enter closed enters
  executes {earlier later signal} executes onward within := by
    refine within.evolve ((steady_next assembly).ok executes) ?_
    -- The function goes on at the next position, which exists after anything but a return, or at a
    -- target.
    have inCode := closed _ within.function
    have found := Array.getElem?_eq_getElem within.position
    have executed := execute_of_next found executes
    rcases leads_execute _ _ _ _ executed with same | member
    · rw [same]
      refine inCode.succ_lt_size found fun isRet => ?_
      rw [isRet] at executed
      obtain ⟨result, done⟩ := exists_done_of_ret executed
      exact onward result done
    · exact inCode.targets _ (Array.getElem_mem within.position) _ member
  gives {earlier later result} gives within := by
    refine within.evolve ((steady_give result).ok gives) ?_
    have stays : Leads [] (give bounds result) := (local_give bounds result).leads
    rcases stays _ _ _ gives with same | absurd
    · rw [same]
      exact within.position
    · cases absurd

/-- **There is a next operation in every activation** of a call, of a function of the assembly. -/
theorem Visits.within (closed : ∀ function ∈ assembly.functions, function.Closed assembly)
    {function : Nat} {arguments : List Value} {store : Store} {state : State}
    (visits : Visits assembly bounds function arguments store state) :
    ∀ activation ∈ state.activations, activation.Within assembly :=
  visits.forall_activations (carried_within closed store.depth) fun _ enters =>
    within_of_enter closed enters

/-! ## References of the next operation -/

/-- **The number of arguments that an activation has been entered with**: there are slots for them
and for the locals. -/
def Activation.argumentCount (activation : Activation) : Nat :=
  activation.slots.size - activation.function.locals.length

end WasmCompiler.Machine

namespace WasmCompiler.Bytecode

open Machine

/-- **Whether the references of an operation find what they refer to** in a running function. A call
finds its signature, and the import or the definition that it is the signature of. -/
def Op.Finds (assembly : Assembly) (running : Running) : Op Nat → Prop
  | .loadArg index | .storeArg index =>
      ∃ value, running.activation.slots[index]? = some value
  | .loadLocal index | .storeLocal index =>
      ∃ value, running.activation.slots[
        running.activation.function.signature.params.length + index]? = some value
  | .loadGlobal index | .storeGlobal index => ∃ value, running.store.globals[index]? = some value
  | .call callee =>
      -- One index finds the signature among all functions, and the callee among imports or
      -- definitions.
      (∃ signature, assembly.signature? callee = some signature) ∧
        ((∃ entry, assembly.importedFunction? callee = some entry) ∨
          ∃ function, assembly.function? callee = some function)
  | .callIndirect typeIndex => ∃ signature, assembly.types[typeIndex]? = some signature
  | _ => True

/-- A function that has a signature is imported or defined. -/
theorem Assembly.imported_or_defined {assembly : Assembly} {index : Nat} {signature : Signature}
    (known : assembly.signature? index = some signature) :
    (∃ entry, assembly.importedFunction? index = some entry) ∨
      ∃ function, assembly.function? index = some function := by
  unfold Assembly.signature? at known
  split at known
  · next typeIndex listed =>
      obtain ⟨below, -⟩ := List.getElem?_eq_some_iff.mp listed
      rw [← length_importedFunctions] at below
      exact .inl ⟨_, List.getElem?_eq_getElem below⟩
  · obtain ⟨function, found, -⟩ := Option.map_eq_some_iff.mp known
    exact .inr ⟨function, found⟩

/-- **What refers to what there is finds it**, in an activation that has been entered with one
argument per parameter and in an instance that has all globals. -/
theorem Op.Refers.finds {assembly : Assembly} {running : Running} {op : Op Nat}
    (refers : op.Refers assembly running.activation.function)
    (within : running.activation.Within assembly)
    (complete : running.activation.argumentCount =
      running.activation.function.signature.params.length)
    (globals : running.store.globals.size = assembly.globalCount) : op.Finds assembly running := by
  have slots : running.activation.slots.size =
      running.activation.function.signature.params.length +
        running.activation.function.locals.length := by
    rw [← complete, Activation.argumentCount, Nat.sub_add_cancel within.locals]
  have found {values : Array Value} {index : Nat} (inside : index < values.size) :
      ∃ value, values[index]? = some value :=
    ⟨_, Array.getElem?_eq_getElem inside⟩
  cases op with
  | loadArg index | storeArg index =>
      exact found (slots ▸ Nat.lt_of_lt_of_le refers (Nat.le_add_right _ _))
  | loadLocal index | storeLocal index => exact found (slots ▸ Nat.add_lt_add_left refers _)
  | loadGlobal index | storeGlobal index => exact found (globals ▸ refers)
  | call callee =>
      obtain ⟨signature, known⟩ := Option.isSome_iff_exists.mp refers
      exact ⟨⟨signature, known⟩, Assembly.imported_or_defined known⟩
  | callIndirect typeIndex => exact ⟨_, List.getElem?_eq_getElem refers⟩
  | _ => trivial

end WasmCompiler.Bytecode

namespace WasmCompiler

open Bytecode (Assembly Op)
open Machine

/-! ## A module with calls, locals and a global -/

/-- Whether bytes compile to an assembly. -/
def assemblesTo (name : String) (bytes : List UInt8) (assembly : Assembly) : Bool :=
  match compile name bytes with
  | .ok built => decide (built = assembly)
  | .error _ => false

/-- Bytes whose check for an assembly succeeds are compiled to it. -/
theorem compile_of_assemblesTo {name : String} {bytes : List UInt8} {assembly : Assembly}
    (assembles : assemblesTo name bytes assembly = true) : compile name bytes = .ok assembly := by
  unfold assemblesTo at assembles
  split at assembles
  · next equation => rw [equation, of_decide_eq_true assembles]
  · cases assembles

/-- The bytes of a module whose start function sets a global to what its other function gives for 3,
which is twice its argument, kept in a local on the way. -/
def doublingBytes : List UInt8 :=
  [0x00, 0x61, 0x73, 0x6d, 0x01, 0x00, 0x00, 0x00, 0x01, 0x09, 0x02, 0x60, 0x00, 0x00, 0x60, 0x01,
    0x7f, 0x01, 0x7f, 0x03, 0x03, 0x02, 0x00, 0x01, 0x06, 0x06, 0x01, 0x7f, 0x01, 0x41, 0x05, 0x0b,
    0x07, 0x0a, 0x01, 0x06, 0x64, 0x6f, 0x75, 0x62, 0x6c, 0x65, 0x00, 0x01, 0x08, 0x01, 0x00, 0x0a,
    0x16, 0x02, 0x08, 0x00, 0x41, 0x03, 0x10, 0x01, 0x24, 0x00, 0x0b, 0x0b, 0x01, 0x01, 0x7f, 0x20,
    0x00, 0x22, 0x01, 0x20, 0x01, 0x6a, 0x0b]

/-- The start function. -/
def doublingStart : Bytecode.Function :=
  ⟨0, {}, [], #[.const (.i32 3), .call 1, .storeGlobal 0, .ret]⟩

/-- The other function. -/
def doublingDouble : Bytecode.Function :=
  ⟨1, ⟨[.i32], [.i32]⟩, [.i32],
    #[.loadArg 0, .storeLocal 0, .loadLocal 0, .loadLocal 0, .arith .add, .ret]⟩

/-- The assembly of the module. -/
def doubling : Assembly where
  name := "doubling"
  types := [{}, ⟨[.i32], [.i32]⟩]
  globals := [⟨⟨.i32, true⟩, .constant (.i32 5)⟩]
  exports := [⟨"double", .function 1⟩]
  start := some 0
  functions := #[doublingStart, doublingDouble]

/-- The bytes of the doubling module are compiled to its assembly. -/
theorem compile_doubling : compile "doubling" doublingBytes = .ok doubling :=
  compile_of_assemblesTo (by decide +kernel)

/-- Its initial store. -/
def doublingStore : Store :=
  ⟨⟨#[], 0⟩, #[.i32 5], #[], 0⟩

/-- The start function is called from outside. -/
theorem outside_doubling : Outside doubling {} 0 [] doublingStore :=
  @Outside.start doubling {} 0 doublingStore rfl rfl

/-! ## Assemblies of modules -/

/-- **The assembly of a module is closed.** The code of each of its functions ends with a return,
and targets and references of its operations do not lead out of the code and of the assembly. So in
every call from outside, at every step, there is a next operation, and in an activation that has
been entered with one argument per parameter its references find what they refer to. -/
theorem assemblies_closed {name : String} {bytes : List UInt8} {assembly : Assembly}
    (compiles : compile name bytes = .ok assembly) :
    (∀ function ∈ assembly.functions, function.Closed assembly) ∧
    ∀ bounds function arguments store, Outside assembly bounds function arguments store →
      ∀ steps state, Machine.call assembly bounds steps function arguments store = .running state →
        ∃ op, state.running.activation.function.code[state.running.activation.position]? =
            some op ∧
          (state.running.activation.argumentCount =
              state.running.activation.function.signature.params.length →
            op.Finds assembly state.running) := by
  have closed := closed_of_compile compiles
  refine ⟨closed, fun bounds function arguments store outside steps state calls => ?_⟩
  have visits := visits_of_call calls
  have within := visits.within closed state.running.activation List.mem_cons_self
  refine ⟨_, Array.getElem?_eq_getElem within.position, fun complete => ?_⟩
  have refers := (closed _ within.function).refers _ (Array.getElem_mem within.position)
  -- Globals are counted in the store at the start of the call, and no operation adds or removes
  -- one.
  exact refers.finds within complete (outside.sound.evolve visits.evolves).size_globals

/-- In the call of the start function, the function that it calls finds its argument, since it has
been entered with one. -/
theorem assemblies_closed_doubling :
    ∃ (state : State) (op : Op Nat),
      Machine.call doubling {} 2 0 [] doublingStore = .running state ∧
      state.running.activation.function = doublingDouble ∧
      state.running.activation.argumentCount = 1 ∧ op = .loadArg 0 ∧
      op.Finds doubling state.running := by
  obtain ⟨-, looks⟩ := assemblies_closed compile_doubling
  have calls : Machine.call doubling {} 2 0 [] doublingStore =
      .running
        ⟨⟨⟨doublingDouble, 2, 0, #[.i32 3, .i32 0], .empty⟩, { doublingStore with depth := 2 }⟩,
        [⟨doublingStart, 1, 2, #[], .empty⟩]⟩ := rfl
  obtain ⟨op, found, finds⟩ := looks {} 0 [] doublingStore outside_doubling 2 _ calls
  exact ⟨_, op, calls, rfl, rfl, (Option.some.inj found).symm, finds rfl⟩

end WasmCompiler
