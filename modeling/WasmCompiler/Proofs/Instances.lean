import WasmCompiler.Proofs.Activations

/-! # What instances keep

An assembly may have been compiled or built by hand, so its code may trap anywhere, at any depth of
calls. Whatever a call does and however it ends, the instance stays in order: no activation is left
on the count, globals keep their types, the table stays, and memory only grows, by whole pages and
up to its maximum.

* **`Store.Sound`** — what holds of a store between calls, and at every step in a call;
* **`Reachable.holds`** — what the initial store satisfies and the code preserves holds in every
  instance;
* **`Reachable.idle`** — no activation is counted between calls;
* **`Outside`** — the calls that reach an assembly from outside;
* **`instances_endure`** — what holds of an instance over any invocations. -/

namespace WasmCompiler.Machine

open Bytecode (Assembly Function)

variable {assembly : Assembly} {bounds : Bounds}

/-! ## The store at the start -/

/-- **Whether a store is one of an assembly**, whose globals have types and whose memory has whole
pages. -/
structure Store.Sound (assembly : Assembly) (store : Store) : Prop where
  /-- The globals, imported and defined, hold values of the types that the assembly declares. -/
  globals : store.globals.toList.map Value.type =
    (assembly.importedGlobalTypes ++ assembly.globals.map Global.type).map GlobalType.content
  /-- The memory has whole pages and no more than its maximum. -/
  memory : store.memory.Whole

/-- A store stays sound however it evolves. -/
theorem Store.Sound.evolve {earlier later : Store} (sound : earlier.Sound assembly)
    (evolves : earlier.Evolves later) : later.Sound assembly :=
  ⟨evolves.globals.trans sound.globals, evolves.memory.whole sound.memory⟩

/-- There are as many globals as the assembly declares. -/
theorem Store.Sound.size_globals {store : Store} (sound : store.Sound assembly) :
    store.globals.size = assembly.globalCount := by
  have counts := congrArg List.length sound.globals
  rwa [List.length_map, List.length_map, List.length_append, List.length_map,
    Array.length_toList] at counts

namespace Memory

/-- A memory is created with its pages of zeros, if the limit allows them, which becomes its
maximum. -/
theorem create_eq_ok {initial : Nat} {maximum : Option Nat} {memory : Memory}
    (creates : create initial maximum = .ok memory) :
    initial ≤ min (maximum.getD maxPages) maxPages ∧
      memory = ⟨Array.replicate (initial * pageSize) 0, min (maximum.getD maxPages) maxPages⟩ := by
  unfold create at creates
  simp only at creates
  split at creates
  · next allowed =>
      cases creates
      exact ⟨allowed, rfl⟩
  · cases creates

/-- A memory is created with whole pages within its maximum. -/
theorem whole_create {initial : Nat} {maximum : Option Nat} {memory : Memory}
    (creates : create initial maximum = .ok memory) : memory.Whole := by
  obtain ⟨allowed, created⟩ := create_eq_ok creates
  have counted : memory.size = initial * pageSize := by
    rw [created]
    exact Array.size_replicate
  refine ⟨counted ▸ Nat.dvd_mul_left _ _, ?_⟩
  rw [counted, created]
  exact Nat.mul_le_mul_right _ allowed

/-- The memory of an assembly starts out with whole pages. -/
theorem whole_createMemory {limits : Option Limits} {memory : Memory}
    (creates : createMemory limits = .ok memory) : memory.Whole := by
  unfold createMemory at creates
  split at creates
  · exact whole_create creates
  · exact whole_create creates

/-- Bytes that can be accessed are there. -/
theorem rangeTrap?_eq_none {memory : Memory} {start width : Nat}
    (allowed : memory.rangeTrap? start width = none) :
    start + width ≤ memory.size := by
  unfold rangeTrap? at allowed
  split at allowed
  · next fits => exact fits
  · cases allowed

/-- Bytes that are written take the place of others. -/
theorem write_eq_ok {memory later : Memory} {start : Nat} {data : List UInt8}
    (writes : memory.write start data = .ok later) :
    start + data.length ≤ memory.size ∧
      later = { memory with bytes := overwrite memory.bytes start data } := by
  unfold write at writes
  split at writes
  · cases writes
  · next allowed =>
      cases writes
      exact ⟨rangeTrap?_eq_none allowed, rfl⟩

/-- Writing bytes takes nothing away. -/
theorem grows_write {memory later : Memory} {start : Nat} {data : List UInt8}
    (writes : memory.write start data = .ok later) : memory.Grows later := by
  obtain ⟨-, rfl⟩ := write_eq_ok writes
  exact grows_overwrite memory start data

/-- Nor do the segments of a module. -/
theorem grows_addData {globals : Array Value} {segments : List DataSegment} {memory last : Memory}
    (adds : segments.foldlM (addData globals) memory = .ok last) : memory.Grows last := by
  induction segments generalizing memory with
  | nil =>
      cases adds
      exact .refl _
  | cons segment segments segmentsInduction =>
      rw [List.foldlM_cons] at adds
      obtain ⟨later, added, others⟩ := Binary.except_bind_eq_ok adds
      obtain ⟨start, -, writes⟩ := Binary.except_bind_eq_ok added
      exact (grows_write writes).trans (segmentsInduction others)

end Memory

/-- **The initial store is sound.** -/
theorem sound_of_initialStore {store : Store} (initial : initialStore assembly bounds = .ok store) :
    store.Sound assembly := by
  obtain ⟨imported, types⟩ := types_of_initialStore initial
  refine ⟨?_, ?_⟩
  · rw [imported, List.nil_append, List.map_map, types]
    rfl
  -- After the memory is created, only data segments are written to it.
  obtain ⟨_, _, _, -, creates, -, -, -, adds, -⟩ := stages_of_initialStore initial
  exact (Memory.grows_addData adds).whole (Memory.whole_createMemory creates)

/-- No activation is counted in the initial store. -/
theorem depth_of_initialStore {store : Store} (initial : initialStore assembly bounds = .ok store) :
    store.depth = 0 := by
  obtain ⟨_, _, _, -, -, -, -, -, -, idle⟩ := stages_of_initialStore initial
  exact idle

/-! ## Invocations -/

namespace Instance

/-- **However a call ends**, the instance after it is one of the same assembly and resources, with
the store that the call leaves. -/
theorem after_same (inst : Instance) (progress : Progress) :
    (inst.after progress).2.assembly = inst.assembly ∧
      (inst.after progress).2.bounds = inst.bounds ∧
      (inst.after progress).2.store = progress.store := by
  cases progress <;> exact ⟨rfl, rfl, rfl⟩

/-- A call that ends leaves as many activations counted as there are outside of it. -/
theorem after_counts (inst : Instance) {progress : Progress} {outside : Nat}
    (counts : progress.Counts outside) (ends : (inst.after progress).1 ≠ .unfinished) :
    (inst.after progress).2.store.depth = outside := by
  cases progress with
  | running state => exact absurd rfl ends
  | finished result last => exact counts
  | trapped trap last => exact counts

/-- An instance is told a result only by a call that finishes with it. -/
theorem finished_of_after (inst : Instance) {progress : Progress} {result : Option Value}
    (returns : (inst.after progress).1 = .returned result) :
    ∃ last, progress = .finished result last := by
  cases progress with
  | running state => cases returns
  | finished given last =>
      cases returns
      exact ⟨last, rfl⟩
  | trapped trap last => cases returns

/-- An invocation leaves the instance one of the same assembly and resources. -/
theorem invoke_same (inst : Instance) (steps : Nat) (name : String) (arguments : List Value) :
    (inst.invoke steps name arguments).2.assembly = inst.assembly ∧
      (inst.invoke steps name arguments).2.bounds = inst.bounds := by
  rcases inst.invoke_cases steps name arguments with ⟨trap, -, refused⟩ |
    ⟨function, signature, -, -, called⟩
  · rw [refused]
    exact ⟨rfl, rfl⟩
  · obtain ⟨same, sameBounds, -⟩ := inst.after_same
      (call inst.assembly inst.bounds steps function arguments inst.store)
    rw [called]
    exact ⟨same, sameBounds⟩

end Instance

/-- **What the code of an instance preserves still holds after an invocation**, however it ends. -/
theorem Preserves.invoke {holds : Store → Prop} {inst : Instance}
    (preserves : Preserves inst.assembly inst.bounds holds) (before : holds inst.store)
    (steps : Nat) (name : String) (arguments : List Value) :
    holds (inst.invoke steps name arguments).2.store := by
  rcases inst.invoke_cases steps name arguments with ⟨trap, -, refused⟩ |
    ⟨function, signature, -, -, called⟩
  · rw [refused]
    exact before
  · obtain ⟨-, -, left⟩ := inst.after_same
      (Machine.call inst.assembly inst.bounds steps function arguments inst.store)
    rw [called, left]
    exact preserves.call before steps

namespace Instance

/-- **However an invocation ends**, the store has evolved. -/
theorem evolves_invoke (inst : Instance) (steps : Nat) (name : String) (arguments : List Value) :
    inst.store.Evolves (inst.invoke steps name arguments).2.store :=
  (preserves_evolves inst.store).invoke (.refl inst.store) steps name arguments

/-- **However an invocation ends**, by a return or by a trap, it leaves as many activations counted
as it found. -/
theorem depth_invoke {inst later : Instance} {steps : Nat} {name : String} {arguments : List Value}
    {outcome : Outcome (Option Value)}
    (invokes : inst.invoke steps name arguments = (outcome, later)) (ends : outcome ≠ .unfinished) :
    later.store.depth = inst.store.depth := by
  rcases inst.invoke_cases steps name arguments with ⟨trap, -, refused⟩ |
    ⟨function, signature, -, -, called⟩
  · rw [refused] at invokes
    cases invokes
    rfl
  · have counts := inst.after_counts
      (counts_call inst.assembly inst.bounds steps function arguments inst.store)
    rw [called] at invokes
    rw [invokes] at counts
    exact counts ends

/-- **An invocation that returns** gives a value exactly if the signature has a result, of that
type. -/
theorem type_of_returned {inst later : Instance} {steps : Nat} {name : String}
    {arguments : List Value} {result : Option Value}
    (returns : inst.invoke steps name arguments = (.returned result, later)) :
    ∃ function signature, inst.exportedFunction? name = some (function, signature) ∧
      result.map Value.type = signature.result? := by
  rcases inst.invoke_cases steps name arguments with ⟨trap, -, refused⟩ |
    ⟨function, signature, exported, -, called⟩
  · rw [refused] at returns
    cases returns
  · rw [called] at returns
    obtain ⟨last, finished⟩ := inst.finished_of_after (congrArg Prod.fst returns)
    exact ⟨function, signature, exported,
      type_of_finished (signature?_of_exported exported) finished⟩

end Instance

/-! ## Instances that invocations lead to -/

/-- **An instance that is made** has the initial store, or the one that its start function leaves
when it returns. -/
theorem instantiate_cases {steps : Nat} {inst : Instance}
    (returns : instantiate steps assembly bounds = .returned inst) :
    ∃ store, initialStore assembly bounds = .ok store ∧
      (inst = ⟨assembly, bounds, store⟩ ∨
        ∃ start result last, assembly.start = some start ∧
          call assembly bounds steps start.toNat [] store = .finished result last ∧
          inst = ⟨assembly, bounds, last⟩) := by
  unfold instantiate at returns
  cases initial : initialStore assembly bounds with
  | error trap =>
      rw [initial] at returns
      cases returns
  | ok store =>
      refine ⟨store, rfl, ?_⟩
      rw [initial] at returns
      cases starts : assembly.start with
      | none =>
          simp only [starts] at returns
          cases returns
          exact .inl rfl
      | some start =>
          simp only [starts] at returns
          split at returns
          -- There is an instance only if the start function returns.
          · next finished =>
              cases returns
              exact .inr ⟨start, _, _, rfl, finished, rfl⟩
          · cases returns
          · cases returns

/-- An instance that is made is one of the assembly and the resources. -/
theorem instantiate_same {steps : Nat} {inst : Instance}
    (returns : instantiate steps assembly bounds = .returned inst) :
    inst.assembly = assembly ∧ inst.bounds = bounds := by
  obtain ⟨store, -, rfl | ⟨start, result, last, -, -, rfl⟩⟩ := instantiate_cases returns <;>
    exact ⟨rfl, rfl⟩

/-- Every instance that invocations lead to is one of the assembly and the resources. -/
theorem Reachable.same {inst : Instance} (reachable : Reachable assembly bounds inst) :
    inst.assembly = assembly ∧ inst.bounds = bounds := by
  induction reachable with
  | instantiated returns => exact instantiate_same returns
  | @returned inst later steps name arguments result before returns same =>
      have after := inst.invoke_same steps name arguments
      rw [returns] at after
      exact ⟨after.1.trans same.1, after.2.trans same.2⟩
  | @trapped inst later steps name arguments trap before traps same =>
      have after := inst.invoke_same steps name arguments
      rw [traps] at after
      exact ⟨after.1.trans same.1, after.2.trans same.2⟩

/-- **What holds of the initial store and is preserved by the code holds in every instance** that
invocations lead to, also by trapping. -/
theorem Reachable.holds {holds : Store → Prop} (preserves : Preserves assembly bounds holds)
    (initially : ∀ store, initialStore assembly bounds = .ok store → holds store) {inst : Instance}
    (reachable : Reachable assembly bounds inst) : holds inst.store := by
  induction reachable with
  | @instantiated steps inst returns =>
      obtain ⟨store, initial, rfl | ⟨start, result, last, -, finished, rfl⟩⟩ :=
        instantiate_cases returns
      · exact initially store initial
      · have after : holds (call assembly bounds steps start.toNat [] store).store :=
          preserves.call (initially store initial) steps
        rw [finished] at after
        exact after
  | @returned inst later steps name arguments result before returns earlier =>
      obtain ⟨rfl, rfl⟩ := before.same
      have after := preserves.invoke earlier steps name arguments
      rwa [returns] at after
  | @trapped inst later steps name arguments trap before traps earlier =>
      obtain ⟨rfl, rfl⟩ := before.same
      have after := preserves.invoke earlier steps name arguments
      rwa [traps] at after

/-- **No activation is counted between calls**, whatever has been invoked and however it ended. -/
theorem Reachable.idle {inst : Instance} (reachable : Reachable assembly bounds inst) :
    inst.store.depth = 0 := by
  induction reachable with
  | @instantiated steps inst returns =>
      obtain ⟨store, initial, rfl | ⟨start, result, last, -, finished, rfl⟩⟩ :=
        instantiate_cases returns
      · exact depth_of_initialStore initial
      · have counts := counts_call assembly bounds steps start.toNat [] store
        rw [finished] at counts
        exact Eq.trans counts (depth_of_initialStore initial)
  | returned before returns idle => exact (Instance.depth_invoke returns nofun).trans idle
  | trapped before traps idle => exact (Instance.depth_invoke traps nofun).trans idle

/-! ## Instances in order -/

/-- **Whether an instance is in order**: it is one of the assembly and the resources, and its store
is sound. -/
structure Instance.Sound (assembly : Assembly) (bounds : Bounds) (inst : Instance) : Prop where
  /-- The assembly. -/
  program : inst.assembly = assembly
  /-- The resources. -/
  resources : inst.bounds = bounds
  /-- The store. -/
  store : inst.store.Sound assembly

/-- Soundness is preserved by any code. -/
theorem preserves_sound : Preserves assembly bounds (Store.Sound assembly) :=
  .of_evolves fun evolves sound => sound.evolve evolves

/-- **Instances that invocations lead to are in order.** -/
theorem Reachable.sound {inst : Instance} (reachable : Reachable assembly bounds inst) :
    inst.Sound assembly bounds where
  program := reachable.same.1
  resources := reachable.same.2
  store := reachable.holds preserves_sound fun _ initial => sound_of_initialStore initial

/-! ## Calls from outside -/

/-- **The calls that reach an assembly from outside**: that of its start function on the initial
store, and those that invocations make, in the instances that invocations lead to. -/
inductive Outside (assembly : Assembly) (bounds : Bounds) :
    (function : Nat) → (arguments : List Value) → (store : Store) → Prop where
  /-- The start function is called. -/
  | start {function : UInt32} {store : Store} (starts : assembly.start = some function)
      (initial : initialStore assembly bounds = .ok store) :
      Outside assembly bounds function.toNat [] store
  /-- An exported function is invoked. -/
  | invoked {inst : Instance} {name : String} {function : Nat} {signature : Signature}
      {arguments : List Value} (reachable : Reachable assembly bounds inst)
      (exported : inst.exportedFunction? name = some (function, signature))
      (passed : arguments.map Value.type = signature.params) :
      Outside assembly bounds function arguments inst.store

variable {function : Nat} {arguments : List Value} {store : Store}

/-- **Calls from outside find a store** of which everything holds that the initial one satisfies and
the code preserves. -/
theorem Outside.holds {holds : Store → Prop} (preserves : Preserves assembly bounds holds)
    (initially : ∀ store, initialStore assembly bounds = .ok store → holds store)
    (outside : Outside assembly bounds function arguments store) : holds store := by
  cases outside with
  | start starts initial => exact initially store initial
  | invoked reachable exported passed => exact reachable.holds preserves initially

/-- Calls from outside find a sound store. -/
theorem Outside.sound (outside : Outside assembly bounds function arguments store) :
    store.Sound assembly :=
  outside.holds preserves_sound fun _ initial => sound_of_initialStore initial

/-! ## Depths and operands -/

/-- **No activation of a call is deeper than allowed.** -/
theorem Visits.depth_le {state : State}
    (visits : Visits assembly bounds function arguments store state) :
    ∀ activation ∈ state.activations, activation.depth ≤ bounds.maxCallDepth := by
  refine visits.forall_of_evolves (fun enters => ?_) fun evolves below => evolves.depth ▸ below
  -- A function is entered only below the greatest depth, and is one deeper than its caller.
  obtain ⟨definition, -, -, below, rfl⟩ := enter_eq_ok enters
  exact below

/-- **No more activations are counted than allowed**, at any step in a call. -/
theorem Visits.count_le {state : State}
    (visits : Visits assembly bounds function arguments store state) :
    state.running.store.depth ≤ bounds.maxCallDepth := by
  have counted : state.running.activation.depth = state.running.store.depth :=
    visits.nested.1.trans visits.counts.symm
  exact counted ▸ visits.depth_le state.running.activation List.mem_cons_self

/-- **No activation of a call has more operands than allowed.** -/
theorem Visits.height_le {state : State}
    (visits : Visits assembly bounds function arguments store state) :
    ∀ activation ∈ state.activations, activation.stack.height ≤ bounds.maxValueStack := by
  refine visits.forall_of_evolves (fun enters => ?_) fun evolves bounded => evolves.height bounded
  obtain ⟨definition, -, -, -, rfl⟩ := enter_eq_ok enters
  exact Nat.zero_le _

/-! ## Invocations of instances -/

/-- **What holds of an instance over any invocations**, of any assembly and within any resources. No
activation is counted before an invocation, nor after it, whether it returns or traps. However it
ends, the table and the number of globals are as before, every global holds a value of its declared
type, and memory has whole pages, no fewer than before and no more than its maximum. At every step
in the call, the count is the number of activations and no more than allowed, and no activation is
deeper or has more operands than allowed. An invocation that returns gives a value exactly if the
signature has a result, of that type. -/
theorem instances_endure (assembly : Assembly) (bounds : Bounds) {inst later : Instance}
    {steps : Nat} {name : String} {arguments : List Value} {outcome : Outcome (Option Value)}
    (reachable : Reachable assembly bounds inst)
    (invokes : inst.invoke steps name arguments = (outcome, later)) :
    (inst.store.depth = 0 ∧ (outcome ≠ .unfinished → later.store.depth = 0)) ∧
    (later.store.table = inst.store.table ∧
      later.store.globals.size = inst.store.globals.size ∧
      later.store.globals.toList.map Value.type =
        (assembly.importedGlobalTypes ++ assembly.globals.map Global.type).map GlobalType.content ∧
      pageSize ∣ later.store.memory.size ∧ inst.store.memory.size ≤ later.store.memory.size ∧
      later.store.memory.maximum = inst.store.memory.maximum ∧
      later.store.memory.size ≤ later.store.memory.maximum * pageSize) ∧
    (∀ function signature within state,
      inst.exportedFunction? name = some (function, signature) →
      call assembly bounds within function arguments inst.store = .running state →
      state.running.store.depth = state.activations.length ∧
        state.running.store.depth ≤ bounds.maxCallDepth ∧ Nested 0 state.activations ∧
        ∀ activation ∈ state.activations,
          activation.depth ≤ bounds.maxCallDepth ∧
            activation.stack.height ≤ bounds.maxValueStack) ∧
    ∀ result, outcome = .returned result →
      ∃ function signature, inst.exportedFunction? name = some (function, signature) ∧
        result.map Value.type = signature.result? := by
  have before := reachable.sound.store
  have idle := reachable.idle
  refine ⟨⟨idle, fun ends => (Instance.depth_invoke invokes ends).trans idle⟩, ?_, ?_, ?_⟩
  · have evolves := inst.evolves_invoke steps name arguments
    rw [invokes] at evolves
    have after := before.evolve evolves
    exact ⟨evolves.table, after.size_globals.trans before.size_globals.symm, after.globals,
      after.memory.pages, evolves.memory.size, evolves.memory.maximum, after.memory.bounded⟩
  · intro function signature within state exported calls
    have visits := visits_of_call calls
    have counts := visits.counts
    have nested := visits.nested
    rw [idle, Nat.zero_add] at counts
    rw [idle] at nested
    exact ⟨counts, visits.count_le, nested, fun activation member =>
      ⟨visits.depth_le activation member, visits.height_le activation member⟩⟩
  · rintro result rfl
    exact Instance.type_of_returned invokes

/-- A function that calls another one. -/
def endlessOuter : Function :=
  ⟨0, {}, [], #[.call 1, .ret]⟩

/-- The other one, which grows the memory, sets the global to the number of pages before, and calls
the first one. -/
def endlessInner : Function :=
  ⟨1, {}, [], #[.const (.i32 1), .growMemory, .storeGlobal 0, .call 0, .ret]⟩

/-- An assembly built by hand, whose two functions call each other without end. -/
def endlessCalls : Assembly where
  name := "endless"
  types := [{}]
  memory := some ⟨0, some 2⟩
  globals := [⟨⟨.i32, true⟩, .constant (.i32 7)⟩]
  exports := [⟨"grow", .function 0⟩]
  functions := #[endlessOuter, endlessInner]

/-- A call that traps where it calls too deep leaves the instance in order, with the memory that it
has grown and the global that it has set. The trap goes through the caller and takes both
activations off the count. -/
theorem instances_endure_endlessCalls :
    ∃ inst later : Instance, Reachable endlessCalls { maxCallDepth := 2 } inst ∧
      inst.invoke 5 "grow" [] = (.trapped (.callStackExhausted 2), later) ∧
      later.store.depth = 0 ∧
      later.store.globals = #[.i32 0] ∧ later.store.memory.maximum = 2 ∧
      pageSize ∣ later.store.memory.size ∧ inst.store.memory.size ≤ later.store.memory.size ∧
      later.store.memory.size ≤ 2 * pageSize ∧
      ∃ state, call endlessCalls { maxCallDepth := 2 } 4 0 [] inst.store = .running state ∧
        state.activations.length = 2 ∧ state.running.store.depth = 2 := by
  have made : instantiate 0 endlessCalls { maxCallDepth := 2 } =
      .returned ⟨endlessCalls, { maxCallDepth := 2 }, ⟨⟨#[], 2⟩, #[.i32 7], #[], 0⟩⟩ := rfl
  have invoked : Instance.invoke ⟨endlessCalls, { maxCallDepth := 2 },
      ⟨⟨#[], 2⟩, #[.i32 7], #[], 0⟩⟩ 5 "grow" [] =
        (.trapped (.callStackExhausted 2), ⟨endlessCalls, { maxCallDepth := 2 },
          ⟨Memory.extend ⟨#[], 2⟩ 1, #[.i32 0], #[], 0⟩⟩) := rfl
  have reachable := Reachable.instantiated made
  obtain ⟨⟨-, idle⟩, ⟨-, -, -, pages, grown, -, bounded⟩, inside, -⟩ :=
    instances_endure endlessCalls { maxCallDepth := 2 } reachable invoked
  have calls : call endlessCalls { maxCallDepth := 2 } 4 0 [] ⟨⟨#[], 2⟩, #[.i32 7], #[], 0⟩ =
      .running ⟨⟨⟨endlessInner, 2, 3, #[], .empty⟩, ⟨Memory.extend ⟨#[], 2⟩ 1, #[.i32 0], #[], 2⟩⟩,
        [⟨endlessOuter, 1, 1, #[], .empty⟩]⟩ := rfl
  have counts := (inside 0 {} 4 _ rfl calls).1
  exact ⟨_, _, reachable, invoked, idle nofun, rfl, rfl, pages, grown, bounded, _, calls, rfl,
    counts⟩

end WasmCompiler.Machine
