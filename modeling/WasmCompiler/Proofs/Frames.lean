import WasmCompiler.Proofs.Runs

/-! # What operations leave as it is

Whatever operation a function executes, well typed or not, much stays as it is: the function, the
number of activations, the types of variables, the table. Memory only grows, by whole pages and up
to its maximum, and no operand is added beyond the bound. That holds of the state that an operation
leaves, also where it traps in the middle.

* **`Store.Evolves`**, **`Running.Evolves`** — what may become of a store and of a running function;
* **`Allows`** — a relation between states allows every change that operations make;
* **`Steady`** — an action leads only to what a relation allows, whether it succeeds or traps;
* **`Allows.relates_next`** — so does the next operation, whatever it is, for a relation that allows
  what the code may write;
* **`steady_next`** — in particular it leads only to what may become of a running function. -/

namespace WasmCompiler.Machine

open Bytecode (Assembly Op)
open Stateful
open Execution

/-! ## Memory -/

namespace Memory

/-- **Whether a memory has whole pages** and no more than its maximum. -/
structure Whole (memory : Memory) : Prop where
  /-- The pages are whole. -/
  pages : pageSize ∣ memory.size
  /-- There are no more than the maximum. -/
  bounded : memory.size ≤ memory.maximum * pageSize

/-- **What may become of a memory**: it may grow, as long as it has whole pages and no more than its
maximum. -/
structure Grows (earlier later : Memory) : Prop where
  /-- The maximum stays. -/
  maximum : later.maximum = earlier.maximum
  /-- No byte is taken away. -/
  size : earlier.size ≤ later.size
  /-- Pages stay whole, within the maximum. -/
  whole : earlier.Whole → later.Whole

/-- A memory may stay as it is. -/
theorem Grows.refl (memory : Memory) : memory.Grows memory :=
  ⟨rfl, Nat.le_refl _, id⟩

/-- It may grow again after it has grown. -/
theorem Grows.trans {earlier middle later : Memory} (first : earlier.Grows middle)
    (second : middle.Grows later) : earlier.Grows later where
  maximum := second.maximum.trans first.maximum
  size := Nat.le_trans first.size second.size
  whole := second.whole ∘ first.whole

/-- Bytes that are written leave the size. -/
@[simp] theorem size_overwrite (bytes : Array UInt8) (start : Nat) (data : List UInt8) :
    (overwrite bytes start data).size = bytes.size := by
  induction data generalizing bytes start with
  | nil => rfl
  | cons byte rest restInduction => rw [overwrite, restInduction, Array.size_setIfInBounds]

/-- Bytes that are written take the place of others. -/
theorem grows_overwrite (memory : Memory) (start : Nat) (data : List UInt8) :
    memory.Grows { memory with bytes := overwrite memory.bytes start data } where
  maximum := rfl
  size := Nat.le_of_eq (size_overwrite _ _ _).symm
  whole whole := by
    have same : ({ memory with bytes := overwrite memory.bytes start data } : Memory).size =
        memory.size := size_overwrite _ _ _
    exact ⟨same ▸ whole.pages, same ▸ whole.bounded⟩

/-- Pages that are added count in full. -/
theorem size_extend (memory : Memory) (delta : Nat) :
    (memory.extend delta).size = memory.size + delta * pageSize := by
  simp [size, extend]

/-- Pages that are added leave the maximum. -/
theorem maximum_extend (memory : Memory) (delta : Nat) :
    (memory.extend delta).maximum = memory.maximum := by
  -- `rfl` on the goal itself would compare the two memories first, and so their bytes.
  obtain ⟨bytes, maximum⟩ := memory
  have kept : (extend ⟨bytes, maximum⟩ delta).maximum = maximum := rfl
  exact kept

/-- Whole pages are as many as fit. -/
theorem Whole.pages_mul {memory : Memory} (whole : memory.Whole) :
    memory.pages * pageSize = memory.size :=
  Nat.div_mul_cancel whole.pages

/-- Pages that the maximum allows may be added. -/
theorem grows_extend {memory : Memory} {delta : Nat} (allowed : memory.canGrow delta = true) :
    memory.Grows (memory.extend delta) where
  maximum := maximum_extend memory delta
  size := by
    rw [size_extend]
    exact Nat.le_add_right _ _
  whole whole := by
    have counted : (memory.extend delta).size = (memory.pages + delta) * pageSize := by
      rw [size_extend, Nat.add_mul, whole.pages_mul]
    refine ⟨counted ▸ Nat.dvd_mul_left _ _, ?_⟩
    rw [counted, maximum_extend]
    exact Nat.mul_le_mul_right _ (of_decide_eq_true allowed)

end Memory

/-! ## Stores and running functions -/

/-- **What may become of a store.** -/
structure Store.Evolves (earlier later : Store) : Prop where
  /-- Globals keep their number and their types. -/
  globals : later.globals.toList.map Value.type = earlier.globals.toList.map Value.type
  /-- The table stays. -/
  table : later.table = earlier.table
  /-- Memory may grow. -/
  memory : earlier.memory.Grows later.memory

/-- A store may stay as it is. -/
theorem Store.Evolves.refl (store : Store) : store.Evolves store :=
  ⟨rfl, rfl, .refl _⟩

/-- It may evolve again after it has evolved. -/
theorem Store.Evolves.trans {earlier middle later : Store} (first : earlier.Evolves middle)
    (second : middle.Evolves later) : earlier.Evolves later where
  globals := second.globals.trans first.globals
  table := second.table.trans first.table
  memory := first.memory.trans second.memory

/-- **What may become of a running function** by its own operations. -/
structure Running.Evolves (bounds : Bounds) (earlier later : Running) : Prop where
  /-- The function stays. -/
  function : later.activation.function = earlier.activation.function
  /-- So does the number of activations when it was entered. -/
  depth : later.activation.depth = earlier.activation.depth
  /-- So does the count of activations. -/
  count : later.store.depth = earlier.store.depth
  /-- Arguments and locals keep their number and their types. -/
  slots : later.activation.slots.toList.map Value.type =
    earlier.activation.slots.toList.map Value.type
  /-- Operands stay within the bound. -/
  height : earlier.height ≤ bounds.maxValueStack → later.height ≤ bounds.maxValueStack
  /-- The store evolves. -/
  store : earlier.store.Evolves later.store

namespace Running.Evolves

variable {bounds : Bounds}

/-- A running function may stay as it is. -/
theorem refl (running : Running) : running.Evolves bounds running :=
  ⟨rfl, rfl, rfl, rfl, id, .refl _⟩

/-- It may evolve again after it has evolved. -/
theorem trans {earlier middle later : Running} (first : earlier.Evolves bounds middle)
    (second : middle.Evolves bounds later) : earlier.Evolves bounds later where
  function := second.function.trans first.function
  depth := second.depth.trans first.depth
  count := second.count.trans first.count
  slots := second.slots.trans first.slots
  height := second.height ∘ first.height
  store := first.store.trans second.store

/-- Arguments and locals keep their number. -/
theorem size_slots {earlier later : Running} (evolves : earlier.Evolves bounds later) :
    later.activation.slots.size = earlier.activation.slots.size := by
  have counts := congrArg List.length evolves.slots
  rwa [List.length_map, List.length_map, Array.length_toList, Array.length_toList] at counts

end Running.Evolves

/-! ## Relations that allow what operations do -/

/-- **Whether a relation between the states of a running function allows every change that
operations make**: operands within the bound, any place in the code, other values of the same types
for arguments and locals, and a memory that has grown. Of the globals only those that may be written
get other values of their types. -/
structure Allows (bounds : Bounds) (written : Nat → Prop) (relates : Running → Running → Prop) :
    Prop where
  /-- Nothing need change. -/
  refl (running : Running) : relates running running
  /-- Changes may follow each other. -/
  trans {earlier middle later : Running} :
    relates earlier middle → relates middle later → relates earlier later
  /-- Operands may be replaced. -/
  operands (running : Running) (stack : OperandStack) :
    (running.height ≤ bounds.maxValueStack → stack.height ≤ bounds.maxValueStack) →
    relates running (running.withStack stack)
  /-- The place may be any other. -/
  place (running : Running) (position : Nat) :
    relates running
      { running with activation := { running.activation with position := position } }
  /-- Arguments and locals may be replaced. -/
  slots (running : Running) (values : Array Value) :
    values.toList.map Value.type = running.activation.slots.toList.map Value.type →
    relates running { running with activation := { running.activation with slots := values } }
  /-- A global that may be written may be replaced. -/
  globals (running : Running) (index : Nat) (value : Value) : written index →
    (running.store.globals.setIfInBounds index value).toList.map Value.type =
      running.store.globals.toList.map Value.type →
    relates running
      { running with
        store :=
          { running.store with globals := running.store.globals.setIfInBounds index value } }
  /-- Memory may grow. -/
  memory (running : Running) (memory : Memory) : running.store.memory.Grows memory →
    relates running { running with store := { running.store with memory := memory } }

/-- **Evolving allows every change**, also to any global. -/
theorem allows_evolves (bounds : Bounds) :
    Allows bounds (fun _ => True) (Running.Evolves bounds) where
  refl := .refl
  trans := .trans
  operands _ _ height := ⟨rfl, rfl, rfl, rfl, height, .refl _⟩
  place _ _ := ⟨rfl, rfl, rfl, rfl, id, .refl _⟩
  slots _ _ types := ⟨rfl, rfl, rfl, types, id, .refl _⟩
  globals _ _ _ _ types := ⟨rfl, rfl, rfl, rfl, id, types, rfl, .refl _⟩
  memory _ _ grows := ⟨rfl, rfl, rfl, rfl, id, rfl, rfl, grows⟩

/-! ## Steady actions -/

/-- The state that an action leaves, whether it succeeds or traps. -/
def leftBy {α : Type} : EStateM.Result Trap Running α → Running
  | .ok _ later => later
  | .error _ later => later

/-- **Whether an action leads only to what a relation allows.** -/
def Steady (relates : Running → Running → Prop) {α : Type} (action : Execution α) : Prop :=
  ∀ running : Running, relates running (leftBy (action running))

section

variable {α : Type} {relates : Running → Running → Prop}

/-- An action that succeeds leads to what the relation allows. -/
theorem Steady.ok {action : Execution α} (steady : Steady relates action) {running later : Running}
    {value : α} (equation : action running = .ok value later) : relates running later := by
  have allowed := steady running
  rwa [equation] at allowed

/-- So does one that traps, where it traps. -/
theorem Steady.error {action : Execution α} (steady : Steady relates action)
    {running later : Running} {trap : Trap} (equation : action running = .error trap later) :
    relates running later := by
  have allowed := steady running
  rwa [equation] at allowed

/-- An action may look at the state that it starts in. -/
theorem Steady.read {action : Running → Execution α}
    (each : ∀ running : Running, Steady relates (action running)) :
    Steady relates (get >>= action) :=
  fun running => each running running

/-- What follows may depend on a condition. -/
theorem relates_dite {running : Running} {condition : Prop} [Decidable condition]
    {first : condition → Execution α} {second : ¬condition → Execution α}
    (positive : ∀ holds, relates running (leftBy (first holds running)))
    (negative : ∀ fails, relates running (leftBy (second fails running))) :
    relates running
      (leftBy ((if holds : condition then first holds else second holds) running)) := by
  by_cases holds : condition
  · rw [dif_pos holds]
    exact positive holds
  · rw [dif_neg holds]
    exact negative holds

/-- A choice is steady if both sides are. -/
theorem Steady.ite {condition : Prop} [Decidable condition] {first second : Execution α}
    (positive : Steady relates first) (negative : Steady relates second) :
    Steady relates (if condition then first else second) :=
  fun running => relates_dite (fun _ => positive running) fun _ => negative running

end

/-- A variable that is replaced by a value of its type leaves the types as they are. -/
theorem map_type_setIfInBounds {values : Array Value} {index : Nat} {current value : Value}
    (found : values[index]? = some current) (same : current.type = value.type) :
    (values.setIfInBounds index value).toList.map Value.type = values.toList.map Value.type := by
  refine List.ext_getElem? fun other => ?_
  rw [List.getElem?_map, List.getElem?_map, Array.getElem?_toList, Array.getElem?_toList,
    Array.getElem?_setIfInBounds]
  by_cases here : index = other
  · subst here
    obtain ⟨inside, -⟩ := Array.getElem?_eq_some_iff.mp found
    rw [if_pos rfl, if_pos inside, found, Option.map_some, Option.map_some, same]
  · rw [if_neg here]

/-- What a check before a replacement comes to. -/
theorem checkReplace_cases (values : Array Value) (index : Nat) (value : Value)
    (running : Running) :
    (∃ trap, checkReplace values index value running = .error trap running) ∨
      (checkReplace values index value running = .ok () running ∧
        (values.setIfInBounds index value).toList.map Value.type =
          values.toList.map Value.type) := by
  rw [checkReplace, valueAt]
  cases found : values[index]? with
  | none => exact .inl ⟨_, rfl⟩
  | some current =>
      by_cases same : current.type = value.type
      · refine .inr ⟨?_, map_type_setIfInBounds found same⟩
        exact congrFun (if_pos same) running
      · exact .inl ⟨_, congrFun (if_neg same) running⟩

namespace Allows

variable {α β : Type} {bounds : Bounds} {written : Nat → Prop} {relates : Running → Running → Prop}
  (allows : Allows bounds written relates)

include allows

/-- Giving a value changes nothing. -/
theorem steady_pure (value : α) : Steady relates (pure value) :=
  fun running => allows.refl running

/-- Nor does a trap. -/
theorem steady_throw (trap : Trap) : Steady relates (throw trap : Execution α) :=
  fun running => allows.refl running

/-- Steady actions are steady one after the other, also if the first one traps. -/
theorem bind {first : Execution α} {second : α → Execution β} (start : Steady relates first)
    (onward : ∀ value, Steady relates (second value)) : Steady relates (first >>= second) := by
  intro running
  rw [bind_apply]
  cases equation : first running with
  | ok value later => exact allows.trans (start.ok equation) (onward value later)
  -- The second action does not run, so what the first one has done stands.
  | error trap later => exact start.error equation

/-- A check lets the rest run or traps. -/
theorem check {condition : Prop} [Decidable condition] {trap : Trap}
    {onward : Unit → Execution α} (rest : Steady relates (onward ())) :
    Steady relates (if condition then onward () else throw trap >>= onward) :=
  Steady.ite rest (allows.bind (allows.steady_throw trap) fun _ => rest)

/-- Going on after a computation changes nothing, whether or not it trapped. -/
theorem steady_ofExcept (result : Except Trap α) :
    Steady relates (Execution.ofExcept result) := by
  cases result with
  | ok value => exact allows.steady_pure value
  | error trap => exact allows.steady_throw trap

/-! ### Operands -/

/-- Taking an operand is steady. -/
theorem steady_pop : Steady relates pop := by
  intro running
  rw [pop_apply]
  cases equation : running.values with
  | nil => exact allows.refl running
  | cons value rest =>
      refine allows.operands running _ fun bounded => ?_
      rw [Running.height_eq, equation] at bounded
      exact Nat.le_trans (Nat.le_succ _) bounded

/-- So is taking a 32-bit integer, also if the operand is none. -/
theorem steady_popI32 : Steady relates popI32 :=
  allows.bind allows.steady_pop fun _ => allows.steady_ofExcept _

/-- Adding an operand is steady: there is room for it, or it traps. -/
theorem steady_push (value : Value) : Steady relates (push bounds value) := by
  intro running
  rw [push_apply]
  by_cases room : running.height < bounds.maxValueStack
  · rw [if_pos room]
    refine allows.operands running _ fun _ => ?_
    rw [Running.height_eq] at room
    exact room
  · rw [if_neg room]
    exact allows.refl running

/-- Removing operands is steady. -/
theorem steady_unwind (drop keep : Nat) : Steady relates (unwind drop keep) := by
  intro running
  rw [unwind, bind_of_ok _ (get_apply _)]
  refine relates_dite (fun fits => ?_) fun _ => allows.refl running
  exact allows.operands running _ (Nat.le_trans (Nat.sub_le _ _))

/-! ### Variables -/

/-- Reading a variable changes nothing. -/
theorem steady_valueAt (values : Array Value) (index : Nat) :
    Steady relates (valueAt values index) := by
  unfold valueAt
  split
  · exact allows.steady_pure _
  · exact allows.steady_throw _

/-- Replacing an argument or a local is steady: it keeps its type. -/
theorem steady_storeSlot (index : Nat) : Steady relates (storeSlot index) := by
  -- The operand is gone by the time the types are compared, also where they differ.
  refine allows.bind allows.steady_pop fun value running => ?_
  rw [bind_of_ok _ (get_apply _)]
  rcases checkReplace_cases running.activation.slots index value running with
    ⟨trap, refused⟩ | ⟨checked, types⟩
  · rw [bind_of_error _ refused]
    exact allows.refl running
  · rw [bind_of_ok _ checked]
    exact allows.slots running _ types

/-- Only this operation writes a global, the one that it names. -/
theorem steady_storeGlobal {index : Nat} (isWritten : written index) :
    Steady relates (storeGlobal index) := by
  refine allows.bind allows.steady_pop fun value running => ?_
  rw [bind_of_ok _ (get_apply _)]
  rcases checkReplace_cases running.store.globals index value running with
    ⟨trap, refused⟩ | ⟨checked, types⟩
  · rw [bind_of_error _ refused]
    exact allows.refl running
  · rw [bind_of_ok _ checked]
    exact allows.globals running index value isWritten types

/-! ### Memory accesses -/

/-- Storing to memory is steady: no byte is taken away. -/
theorem steady_storeMemory (accessor : Accessor) (offset : Nat) :
    Steady relates (storeMemory accessor offset) := by
  refine allows.bind allows.steady_pop fun value =>
    allows.bind allows.steady_popI32 fun address running => ?_
  rw [bind_of_ok _ (get_apply _)]
  cases running.store.memory.storeTrap? accessor address.toNat offset value with
  | some trap => exact allows.refl running
  | none => exact allows.memory running _ (Memory.grows_overwrite _ _ _)

/-- Loading from memory is steady. -/
theorem steady_loadMemory (accessor : Accessor) (offset : Nat) :
    Steady relates (loadMemory bounds accessor offset) :=
  allows.bind allows.steady_popI32 fun _ => Steady.read fun _ =>
    allows.bind (allows.steady_ofExcept _) fun _ => allows.steady_push _

/-- Adding pages is steady: there are no more than the maximum allows. -/
theorem steady_growMemory : Steady relates (growMemory bounds) := by
  refine allows.bind allows.steady_popI32 fun delta running => ?_
  rw [bind_of_ok _ (get_apply _)]
  refine relates_dite (fun allowed => ?_) fun _ => allows.steady_push _ running
  rw [bind_of_ok _ (modify_apply _ running)]
  -- If there is no room for the number of pages, the memory stays as large as it has grown.
  exact allows.trans (allows.memory running _ (Memory.grows_extend allowed))
    (allows.steady_push _ _)

/-! ### Operations -/

/-- A computation on two operands is steady. -/
theorem steady_applyBinary (computation : Value → Value → Except Trap Value) :
    Steady relates (applyBinary bounds computation) :=
  allows.bind allows.steady_pop fun _ => allows.bind allows.steady_pop fun _ =>
    allows.bind (allows.steady_ofExcept _) fun _ => allows.steady_push _

/-- A computation on one operand is steady. -/
theorem steady_applyUnary (computation : Value → Except Trap Value) :
    Steady relates (applyUnary bounds computation) :=
  allows.bind allows.steady_pop fun _ => allows.bind (allows.steady_ofExcept _) fun _ =>
    allows.steady_push _

/-- A branch is steady. -/
theorem steady_jump (target : Nat) : Steady relates (jump target) :=
  fun running => allows.place running target

/-- Reading a variable onto the operands is steady. -/
theorem steady_load (values : Running → Array Value) (index : Running → Nat) :
    Steady relates (do
      let running ← get
      push bounds (← valueAt (values running) (index running))) :=
  Steady.read fun _ => allows.bind (allows.steady_valueAt _ _) fun _ => allows.steady_push _

/-- **Operations that neither call nor return are steady**, if a global that they write may be
written. -/
theorem steady_effect {op : Op Nat} (stores : ∀ index, op = .storeGlobal index → written index) :
    Steady relates (effect bounds op) := by
  cases op with
  | loadArg index =>
      exact allows.steady_load (fun running => running.activation.slots) fun _ => index
  | storeArg index => exact allows.steady_storeSlot index
  | loadLocal index =>
      exact allows.steady_load (fun running => running.activation.slots)
        fun running => running.activation.function.signature.params.length + index
  | storeLocal index => exact Steady.read fun _ => allows.steady_storeSlot _
  | loadGlobal index =>
      exact allows.steady_load (fun running => running.store.globals) fun _ => index
  | storeGlobal index => exact allows.steady_storeGlobal (stores index rfl)
  | const value => exact allows.steady_push value
  | pop => exact allows.bind allows.steady_pop fun _ => allows.steady_pure ()
  | select =>
      exact allows.bind allows.steady_popI32 fun _ => allows.bind allows.steady_pop fun _ =>
        allows.bind allows.steady_pop fun _ => allows.steady_push _
  | compare op => exact allows.steady_applyBinary _
  | arith op =>
      cases op <;> first | exact allows.steady_applyBinary _ | exact allows.steady_applyUnary _
  | convert op => exact allows.steady_applyUnary _
  | intrinsic op =>
      exact Steady.ite (allows.steady_applyBinary _) (allows.steady_applyUnary _)
  | jump target => exact allows.steady_jump target
  | jumpIf target =>
      exact allows.bind allows.steady_popI32 fun _ =>
        Steady.ite (allows.steady_jump target) (allows.steady_pure ())
  | jumpUnless target =>
      exact allows.bind allows.steady_popI32 fun _ =>
        Steady.ite (allows.steady_jump target) (allows.steady_pure ())
  | switch targets fallback =>
      exact allows.bind allows.steady_popI32 fun _ => allows.steady_jump _
  | unwind drop keep => exact allows.steady_unwind drop keep
  | access accessor offset =>
      exact Steady.ite (allows.steady_storeMemory accessor offset)
        (allows.steady_loadMemory accessor offset)
  | currentMemory => exact Steady.read fun _ => allows.steady_push _
  | growMemory => exact allows.steady_growMemory
  | trap => exact allows.steady_throw _
  -- These have no effect of their own: `execute` sees to them.
  | call | callIndirect | ret => exact allows.steady_pure ()

/-! ### Calls and returns -/

/-- Checking arguments changes nothing. -/
theorem steady_checkArguments (params : List ValueType) (arguments : List Value) :
    Steady relates (checkArguments params arguments) := by
  induction params generalizing arguments with
  | nil => exact allows.steady_pure ()
  | cons param params paramsInduction =>
      cases arguments with
      | nil => exact allows.steady_pure ()
      | cons argument arguments => exact allows.check (paramsInduction arguments)

/-- Taking arguments is steady. -/
theorem steady_takeArguments (signature : Signature) :
    Steady relates (takeArguments signature) := by
  intro running
  rw [takeArguments_apply]
  split
  · exact allows.refl running
  · have checks : Steady relates (checkArguments signature.params
        (running.values.take signature.params.length).reverse >>= fun _ =>
          pure (running.values.take signature.params.length).reverse) :=
      allows.bind (allows.steady_checkArguments _ _) fun _ => allows.steady_pure _
    refine allows.trans (allows.operands running _ fun bounded => ?_) (checks _)
    rw [Running.height_eq] at bounded
    rw [OperandStack.height_ofValues, List.length_drop]
    exact Nat.le_trans (Nat.sub_le _ _) bounded

/-- Looking into the table changes nothing. -/
theorem steady_tableEntry (slot : Nat) : Steady relates (tableEntry slot) := by
  refine Steady.read fun running => ?_
  split
  · exact allows.steady_throw _
  · exact allows.steady_throw _
  · exact allows.steady_pure _

/-- Taking the result is steady. -/
theorem steady_takeResult : Steady relates takeResult := by
  refine Steady.read fun running => ?_
  split
  · exact allows.steady_pure _
  · exact allows.bind allows.steady_pop fun value => allows.check (allows.steady_pure _)

/-- Preparing a call is steady. -/
theorem steady_prepareCall (function : Nat) (signature : Signature) :
    Steady relates (prepareCall function signature) := by
  rw [prepareCall_eq]
  exact allows.bind (allows.steady_takeArguments signature) fun _ => allows.steady_pure _

/-- So is preparing one through the table. -/
theorem steady_prepareIndirectCall (assembly : Assembly) (typeIndex : Nat) :
    Steady relates (prepareIndirectCall assembly typeIndex) := by
  unfold prepareIndirectCall
  split
  · exact allows.steady_throw _
  · exact allows.bind allows.steady_popI32 fun _ =>
      allows.bind (allows.steady_tableEntry _) fun function =>
        Steady.ite (allows.steady_prepareCall function _) (allows.steady_throw _)

/-- So is finishing a function. -/
theorem steady_finish : Steady relates finish := by
  rw [finish_eq]
  exact allows.bind allows.steady_takeResult fun _ => allows.steady_pure _

/-- **Every operation is steady**, if it replaces only globals that may be written. -/
theorem steady_execute (assembly : Assembly) {op : Op Nat}
    (stores : ∀ index, op = .storeGlobal index → written index) :
    Steady relates (execute assembly bounds op) := by
  cases op with
  | call function =>
      rw [execute]
      split
      · exact allows.steady_throw _
      · exact allows.steady_prepareCall _ _
  | callIndirect typeIndex => exact allows.steady_prepareIndirectCall assembly typeIndex
  | ret => exact allows.steady_finish
  | _ => exact allows.bind (allows.steady_effect stores) fun _ => allows.steady_pure _

/-- **The next operation leads only to what the relation allows**, whatever it is, if the globals
that the code writes may be written. -/
theorem relates_next (assembly : Assembly) (running : Running)
    (stores : ∀ index, .storeGlobal index ∈ running.activation.function.code → written index) :
    relates running (leftBy (next assembly bounds running)) := by
  rw [next, bind_of_ok _ (get_apply _)]
  cases found : running.activation.function.code[running.activation.position]? with
  -- Past the end of the code a function returns.
  | none => exact allows.steady_finish running
  | some op =>
      have listed (index : Nat) (isStore : op = .storeGlobal index) : written index :=
        stores index (isStore ▸ Array.mem_of_getElem? found)
      exact allows.bind (allows.steady_jump _) (fun _ => allows.steady_execute assembly listed)
        running

end Allows

/-- **The next operation leads only to what may become of a running function**, whatever it is. -/
theorem steady_next {bounds : Bounds} (assembly : Assembly) :
    Steady (Running.Evolves bounds) (next assembly bounds) :=
  fun running => (allows_evolves bounds).relates_next assembly running fun _ _ => trivial

/-- So does a result that a callee gives. -/
theorem steady_give {bounds : Bounds} (result : Option Value) :
    Steady (Running.Evolves bounds) (give bounds result) := by
  cases result with
  | none => exact (allows_evolves bounds).steady_pure ()
  | some value => exact (allows_evolves bounds).steady_push value

end WasmCompiler.Machine
