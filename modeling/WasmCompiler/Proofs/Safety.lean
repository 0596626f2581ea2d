import WasmCompiler.Proofs.Heights
import WasmCompiler.Proofs.Retyping

/-! # Safety of instructions

A running function fits its types if its arguments, its locals, the globals and its operands have
them. Instructions keep it so, with the operands that their types say, and whatever they trap for is
not a matter of types. The globals keep their types also when an instruction traps, since they
outlive the call.

* **`Running.Fits`** — a running function fits its types;
* **`Safe`** — an action keeps it so or traps soundly;
* **`PlainInstruction.HasType.safe`** — instructions are safe. -/

namespace WasmCompiler.Machine

open Bytecode (Op Arithmetic Intrinsic Conversion)
open Stateful
open Execution

/-! ## Values of types -/

/-- Whether variables hold values of types, by index. -/
def Holds (values : Array Value) (types : Nat → Option ValueType) : Prop :=
  ∀ index, values[index]?.map Value.type = types index

/-- A variable of a type holds a value of the type. -/
theorem Holds.exists_value {values : Array Value} {types : Nat → Option ValueType}
    (holds : Holds values types) {index : Nat} {type : ValueType}
    (typed : types index = some type) : ∃ value, values[index]? = some value ∧ value.type = type :=
  Option.map_eq_some_iff.mp ((holds index).trans typed)

/-- Variables hold values of their types after one is replaced by a value of its type. -/
theorem Holds.replace {values : Array Value} {types : Nat → Option ValueType}
    (holds : Holds values types) {index : Nat} {value : Value}
    (typed : types index = some value.type) : Holds (values.setIfInBounds index value) types := by
  intro other
  rw [Array.getElem?_setIfInBounds]
  by_cases same : index = other
  · subst same
    obtain ⟨current, found, -⟩ := holds.exists_value typed
    obtain ⟨inside, -⟩ := Array.getElem?_eq_some_iff.mp found
    rw [if_pos rfl, if_pos inside, typed]
    rfl
  · rw [if_neg same]
    exact holds other

/-- Whether the globals hold values of the types that a module declares. -/
def Store.Fits (module : Module) (store : Store) : Prop :=
  Holds store.globals fun index => (module.globalType? index).map GlobalType.content

/-- **Whether a running function fits its types**, with operands of the types given. -/
structure Running.Fits (context : TypingContext) (operands : List ValueType) (running : Running) :
    Prop where
  /-- The function has the results that its code is typed for. -/
  results : running.activation.function.signature.results = context.results
  /-- The arguments and the locals. -/
  slots : Holds running.activation.slots fun index => context.slots[index]?
  /-- The globals. -/
  globals : running.store.Fits context.module
  /-- The operands. -/
  operands : running.values.map Value.type = operands

namespace Running.Fits

variable {context : TypingContext} {operands : List ValueType} {running : Running}

/-- Only operands are replaced. -/
theorem withValues (fits : running.Fits context operands) (values : List Value) :
    (running.withValues values).Fits context (values.map Value.type) where
  results := fits.results
  slots := fits.slots
  globals := fits.globals
  operands := rfl

/-- There are as many operands as types. -/
theorem height_eq (fits : running.Fits context operands) : running.height = operands.length := by
  rw [Running.height_eq, ← fits.operands, List.length_map]

end Running.Fits

/-! ## Safe actions -/

variable {α β : Type} {context : TypingContext} {takes middle leaves : List ValueType}

/-- **Whether an outcome is safe**: a value with a property and operands of some types, or a trap
for another reason than types. -/
def Lands (context : TypingContext) (leaves : List ValueType) (meets : α → Prop) :
    EStateM.Result Trap Running α → Prop
  | .ok value later => meets value ∧ later.Fits context leaves
  | .error trap later => trap.isSound = true ∧ later.store.Fits context.module

/-- **Whether an action is safe** at operands of some types. -/
def Safe (context : TypingContext) (takes : List ValueType) (action : Execution α)
    (leaves : List ValueType) (meets : α → Prop) : Prop :=
  ∀ running : Running, running.Fits context takes → Lands context leaves meets (action running)

/-- Giving a value with the property is safe. -/
theorem safe_pure {meets : α → Prop} {value : α} (met : meets value) :
    Safe context leaves (pure value) leaves meets :=
  fun _ fits => ⟨met, fits⟩

/-- So is trapping for a reason other than types. -/
theorem safe_throw {meets : α → Prop} {trap : Trap} (sound : trap.isSound = true) :
    Safe context takes (throw trap) leaves meets :=
  fun _ fits => ⟨sound, fits.globals⟩

/-- **An action that is safe where another one ends** may follow it. -/
theorem Safe.bind {first : Execution α} {second : α → Execution β} {meets : α → Prop}
    {meetsNext : β → Prop} (start : Safe context takes first middle meets)
    (onward : ∀ value, meets value → Safe context middle (second value) leaves meetsNext) :
    Safe context takes (first >>= second) leaves meetsNext := by
  intro running fits
  have lands := start running fits
  rw [bind_apply]
  cases equation : first running with
  | ok value later =>
      rw [equation] at lands
      exact onward value lands.1 later lands.2
  | error trap later =>
      rw [equation] at lands
      exact lands

/-- An action may depend on a state that fits the types. -/
theorem Safe.read {action : Running → Execution α} {meets : α → Prop}
    (each : ∀ running : Running, running.Fits context takes →
      Safe context takes (action running) leaves meets) :
    Safe context takes (get >>= action) leaves meets :=
  fun running fits => each running fits running fits

/-- So is a change that keeps the operands and the store of their types. -/
theorem safe_modify {change : Running → Running}
    (keeps : ∀ running : Running, running.Fits context takes →
      (change running).Fits context leaves) :
    Safe context takes (modify change : Execution Unit) leaves fun _ => True :=
  fun running fits => ⟨trivial, keeps running fits⟩

/-- So is a choice between safe actions. -/
theorem Safe.ite {condition : Prop} [Decidable condition] {first second : Execution α}
    {meets : α → Prop} (positive : Safe context takes first leaves meets)
    (negative : Safe context takes second leaves meets) :
    Safe context takes (if condition then first else second) leaves meets := by
  by_cases holds : condition
  · rw [if_pos holds]
    exact positive
  · rw [if_neg holds]
    exact negative

/-- A check that succeeds lets the rest run. -/
theorem Safe.check {condition : Prop} [Decidable condition] (holds : condition) {trap : Trap}
    {onward : Unit → Execution α} {meets : α → Prop}
    (rest : Safe context takes (onward ()) leaves meets) :
    Safe context takes (if condition then onward () else throw trap >>= onward) leaves meets := by
  rw [if_pos holds]
  exact rest

/-- A computation that gives a value of a type is safe. -/
theorem safe_ofExcept {type : ValueType} {result : Except Trap Value} (gives : Gives type result) :
    Safe context leaves (Execution.ofExcept result) leaves fun value => value.type = type := by
  cases result with
  | ok value => exact safe_pure gives
  | error trap => exact safe_throw gives

/-! ## Operands -/

variable {rest : List ValueType} {type : ValueType}

/-- **Taking an operand.** -/
theorem safe_pop : Safe context (type :: rest) pop rest fun value => value.type = type := by
  intro running fits
  rw [pop_apply]
  cases equation : running.values with
  | nil =>
      have missing := fits.operands
      rw [equation] at missing
      cases missing
  | cons value values =>
      have typed := fits.operands
      rw [equation] at typed
      obtain ⟨first, others⟩ := List.cons_eq_cons.mp typed
      exact ⟨first, others ▸ fits.withValues values⟩

/-- Taking a 32-bit integer. -/
theorem safe_popI32 : Safe context (.i32 :: rest) popI32 rest fun _ => True := by
  refine safe_pop.bind fun value typed => ?_
  cases value with
  | i32 bits => exact safe_pure trivial
  | i64 bits => cases typed
  | f32 bits => cases typed
  | f64 bits => cases typed

/-- **Adding an operand.** -/
theorem safe_push (bounds : Bounds) {value : Value} (typed : value.type = type) :
    Safe context rest (push bounds value) (type :: rest) fun _ => True := by
  intro running fits
  rw [push_apply]
  by_cases room : running.height < bounds.maxValueStack
  · rw [if_pos room]
    have later := fits.withValues (value :: running.values)
    rw [List.map_cons, typed, fits.operands] at later
    exact ⟨trivial, later⟩
  · rw [if_neg room]
    exact ⟨rfl, fits.globals⟩

/-! ## Variables -/

/-- Reading a variable that is typed gives a value of its type. -/
theorem safe_valueAt {values : Array Value} {types : Nat → Option ValueType} {index : Nat}
    (holds : Holds values types) (typed : types index = some type) :
    Safe context leaves (valueAt values index) leaves fun value => value.type = type := by
  obtain ⟨value, found, same⟩ := holds.exists_value typed
  unfold valueAt
  rw [found]
  exact safe_pure same

/-- A value of the type of a variable may replace it. -/
theorem safe_checkReplace {values : Array Value} {types : Nat → Option ValueType} {index : Nat}
    {value : Value} (holds : Holds values types) (typed : types index = some value.type) :
    Safe context leaves (checkReplace values index value) leaves fun _ => True :=
  (safe_valueAt holds typed).bind fun _ same => Safe.check same (safe_pure trivial)

/-- Reading a variable. -/
theorem safe_load (bounds : Bounds) {values : Array Value} {types : Nat → Option ValueType}
    {index : Nat} (holds : Holds values types) (typed : types index = some type) :
    Safe context rest (do push bounds (← valueAt values index)) (type :: rest) fun _ => True :=
  (safe_valueAt holds typed).bind fun _ same => safe_push bounds same

/-- Replacing an argument or a local. -/
theorem safe_storeSlot {index : Nat} (typed : context.slots[index]? = some type) :
    Safe context (type :: rest) (storeSlot index) rest fun _ => True := by
  refine safe_pop.bind fun value same => Safe.read fun running fits => ?_
  have fitting : context.slots[index]? = some value.type := same ▸ typed
  refine (safe_checkReplace fits.slots fitting).bind fun _ _ =>
    safe_modify fun later laterFits => ?_
  exact { laterFits with slots := laterFits.slots.replace fitting }

/-- Replacing a global. -/
theorem safe_storeGlobal {index : Nat}
    (typed : (context.module.globalType? index).map GlobalType.content = some type) :
    Safe context (type :: rest) (storeGlobal index) rest fun _ => True := by
  refine safe_pop.bind fun value same => Safe.read fun running fits => ?_
  have fitting : (context.module.globalType? index).map GlobalType.content = some value.type :=
    same ▸ typed
  refine (safe_checkReplace fits.globals fitting).bind fun _ _ =>
    safe_modify fun later laterFits => ?_
  exact { laterFits with globals := laterFits.globals.replace fitting }

/-! ## Memory -/

/-- An access traps for its range only. -/
theorem isSound_of_rangeTrap? {memory : Memory} {start width : Nat} {trap : Trap}
    (traps : memory.rangeTrap? start width = some trap) : trap.isSound = true := by
  unfold Memory.rangeTrap? at traps
  split at traps
  · cases traps
  · cases traps
    rfl

/-- A load has a value of the type of its accessor. -/
theorem exists_loaded {accessor : Accessor} (loads : accessor.isStore = false) (number : Nat) :
    ∃ value, Memory.loaded? accessor number = some value ∧ value.type = accessor.type := by
  cases accessor with
  | load type => exact ⟨_, rfl, by cases type <;> rfl⟩
  | loadPart part signedness => cases part <;> exact ⟨_, rfl, rfl⟩
  | store type => cases loads
  | storePart part => cases loads

/-- Loading gives a value of the type that the accessor names. -/
theorem gives_load {memory : Memory} {accessor : Accessor} {address offset : Nat}
    (loads : accessor.isStore = false) :
    Gives accessor.type (memory.load accessor address offset) := by
  unfold Memory.load Memory.read
  cases range : memory.rangeTrap? (address + offset) accessor.width with
  | some trap => exact isSound_of_rangeTrap? range
  | none =>
      obtain ⟨value, loaded, typed⟩ := exists_loaded loads (LittleEndian.toNat
        (memory.bytes.extract (address + offset) (address + offset + accessor.width)).toList)
      simp only [bind, Except.bind, loaded]
      exact typed

/-- Storing a value of the type never traps for it. -/
theorem isSound_of_storeTrap? {memory : Memory} {accessor : Accessor} {address offset : Nat}
    {value : Value} {trap : Trap} (stores : accessor.isStore = true)
    (typed : value.type = accessor.type)
    (traps : memory.storeTrap? accessor address offset value = some trap) :
    trap.isSound = true := by
  unfold Memory.storeTrap? at traps
  cases range : memory.rangeTrap? (address + offset) accessor.width with
  | some other =>
      rw [range] at traps
      cases traps
      exact isSound_of_rangeTrap? range
  | none =>
      rw [range] at traps
      simp only [stores, typed, and_self, if_true] at traps
      cases traps

/-- Memory has no part in types. -/
theorem Running.Fits.withMemory {running : Running} (fits : running.Fits context leaves)
    (memory : Memory) :
    ({ running with store := { running.store with memory := memory } } : Running).Fits context
      leaves :=
  { fits with }

/-- Storing into memory takes a value and an address. -/
theorem safe_storeMemory {accessor : Accessor} {offset : Nat} (stores : accessor.isStore = true) :
    Safe context (accessor.type :: .i32 :: rest) (storeMemory accessor offset) rest
      fun _ => True := by
  refine safe_pop.bind fun value typed => safe_popI32.bind fun address _ =>
    Safe.read fun running fits => ?_
  dsimp only
  split
  · next trap traps => exact safe_throw (isSound_of_storeTrap? stores typed traps)
  · exact safe_modify fun later laterFits => laterFits.withMemory _

/-- Loading from memory takes an address and leaves a value. -/
theorem safe_loadMemory (bounds : Bounds) {accessor : Accessor} {offset : Nat}
    (loads : accessor.isStore = false) :
    Safe context (.i32 :: rest) (loadMemory bounds accessor offset) (accessor.type :: rest)
      fun _ => True :=
  safe_popI32.bind fun _ _ => Safe.read fun _ _ =>
    (safe_ofExcept (gives_load loads)).bind fun _ same => safe_push bounds same

/-- Growing memory takes a number of pages and leaves one. -/
theorem safe_growMemory (bounds : Bounds) :
    Safe context (.i32 :: rest) (growMemory bounds) (.i32 :: rest) fun _ => True :=
  safe_popI32.bind fun _ _ => Safe.read fun _ _ => Safe.ite
    ((safe_modify fun _ fits => fits.withMemory _).bind fun _ _ => safe_push bounds rfl)
    (safe_push bounds rfl)

/-! ## Computations -/

/-- A computation that gives values of a type is safe on an operand that has such a result. -/
theorem safe_applyUnary (bounds : Bounds) {computation : Value → Except Trap Value}
    {resultType? : ValueType → Option ValueType}
    (gives : ∀ value type, resultType? value.type = some type → Gives type (computation value))
    (retypes : Bytecode.retypeUnary resultType? takes = some leaves) :
    Safe context takes (applyUnary bounds computation) leaves fun _ => True := by
  cases takes with
  | nil => cases retypes
  | cons source rest =>
      obtain ⟨target, known, rfl⟩ := Option.map_eq_some_iff.mp retypes
      refine safe_pop.bind fun value same => ?_
      exact (safe_ofExcept (gives value target (same ▸ known))).bind fun _ typed =>
        safe_push bounds typed

/-- So is one on two operands. -/
theorem safe_applyBinary (bounds : Bounds) {computation : Value → Value → Except Trap Value}
    {resultType? : ValueType → ValueType → Option ValueType}
    (gives : ∀ left right type, resultType? left.type right.type = some type →
      Gives type (computation left right))
    (retypes : Bytecode.retypeBinary resultType? takes = some leaves) :
    Safe context takes (applyBinary bounds computation) leaves fun _ => True := by
  match takes, retypes with
  | [], retypes => cases retypes
  | [_], retypes => cases retypes
  | right :: left :: rest, retypes =>
      obtain ⟨target, known, rfl⟩ := Option.map_eq_some_iff.mp retypes
      refine safe_pop.bind fun second sameSecond => safe_pop.bind fun first sameFirst => ?_
      subst sameSecond
      subst sameFirst
      exact (safe_ofExcept (gives first second target known)).bind fun _ typed =>
        safe_push bounds typed

/-- **Constants and computations are safe** at operands of fitting types. -/
theorem safe_effect (bounds : Bounds) {op : Op Nat} (retypes : op.retype takes = some leaves) :
    Safe context takes (effect bounds op) leaves fun _ => True := by
  cases op with
  | const value =>
      cases retypes
      exact safe_push bounds rfl
  | compare op => exact safe_applyBinary bounds (fun _ _ _ => gives_compare) retypes
  | arith op =>
      -- Negation is the only arithmetic operation that takes one operand.
      by_cases negates : op = .neg
      · subst negates
        refine safe_applyUnary bounds (fun value type known => ?_) retypes
        exact (type_negate value).trans (Option.some.inj known)
      · have computes : effect bounds (.arith op) = applyBinary bounds (arith op) := by
          cases op <;> first | rfl | exact absurd rfl negates
        have binary : Bytecode.retypeBinary op.resultType? takes = some leaves := by
          cases op <;> first | exact retypes | exact absurd rfl negates
        rw [computes]
        exact safe_applyBinary bounds (fun _ _ _ => gives_arith) binary
  | convert op => exact safe_applyUnary bounds (fun _ _ => gives_convert) retypes
  | intrinsic op =>
      simp only [Op.retype] at retypes
      simp only [effect]
      split
      · next two =>
          rw [if_pos two] at retypes
          exact safe_applyBinary bounds (fun _ _ _ => gives_binary) retypes
      · next one =>
          rw [if_neg one] at retypes
          exact safe_applyUnary bounds (fun _ _ => gives_unary) retypes
  | _ => cases retypes

/-- Constants and computations one after the other. -/
theorem safe_effects (bounds : Bounds) {ops : List (Op Nat)}
    (retypes : Bytecode.retypeAll ops takes = some leaves) :
    Safe context takes (ops.forM (effect bounds)) leaves fun _ => True := by
  induction ops generalizing takes with
  | nil =>
      cases retypes
      exact safe_pure trivial
  | cons op ops opsInduction =>
      obtain ⟨middle, first, others⟩ := Option.bind_eq_some_iff.mp retypes
      exact (safe_effect bounds first).bind fun _ _ => opsInduction others

end WasmCompiler.Machine

namespace WasmCompiler

open Machine
open Machine.Execution

/-! ## Instructions -/

/-- **Instructions that neither call nor return are safe** at operands of their types. -/
theorem PlainInstruction.HasType.safe {context : TypingContext} {instruction : PlainInstruction}
    {takes leaves : List ValueType} (typed : instruction.HasType context takes leaves)
    (straight : instruction.isStraight = true) (bounds : Bounds) (rest : List ValueType) :
    Safe context (takes ++ rest) (instruction.effect bounds) (leaves ++ rest) fun _ => True := by
  cases typed with
  | unreachable => exact safe_throw rfl
  | nop => exact safe_pure trivial
  | ret => cases straight
  | call found => cases straight
  | callIndirect found => cases straight
  | drop type => exact safe_pop.bind fun _ _ => safe_pure trivial
  | select type =>
      refine safe_popI32.bind fun condition _ => safe_pop.bind fun second typedSecond =>
        safe_pop.bind fun first typedFirst => safe_push bounds ?_
      by_cases chosen : condition ≠ 0
      · rw [if_pos chosen]
        exact typedFirst
      · rw [if_neg chosen]
        exact typedSecond
  | getLocal found => exact Safe.read fun _ fits => safe_load bounds fits.slots found
  | setLocal found => exact safe_storeSlot found
  | teeLocal found =>
      exact (safe_storeSlot found).bind fun _ _ =>
        Safe.read fun _ fits => safe_load bounds fits.slots found
  | getGlobal found => exact Safe.read fun _ fits => safe_load bounds fits.globals found
  | setGlobal found => exact safe_storeGlobal found
  | load loads =>
      simp only [PlainInstruction.effect, loads]
      exact safe_loadMemory bounds loads
  | store stores =>
      simp only [PlainInstruction.effect, stores]
      exact safe_storeMemory stores
  | currentMemory => exact Safe.read fun _ _ => safe_push bounds rfl
  | growMemory => exact safe_growMemory bounds
  | const value => exact safe_push bounds rfl
  | numeric operation => exact safe_effects bounds (operation.retypes_lower rest)

end WasmCompiler
