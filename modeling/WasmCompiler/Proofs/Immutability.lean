import WasmCompiler.Proofs.Entries

/-! # Globals that keep their values

Operations replace globals without a look at their types: the machine has no notion of a global that
cannot be replaced. That the globals declared so keep their values is left to emission, which
refuses an instruction that would replace one, and counts imported globals first where the machine
counts only defined ones. The two agree because nothing provides globals: an assembly that imports
one has no instances.

* **`Declarations.StartsAs`** — the value that the initializer of a global stands for;
* **`Op.Respects`** — an operation replaces only globals that are declared mutable;
* **`Running.Keeps`** — a global holds the value that it held;
* **`immutable_globals_keep`** — immutable globals hold the value that they start with in every
  instance and at every step of every call. -/

namespace WasmCompiler

open Bytecode (Assembly Function Op)
open Emission hiding State
open Machine

/-! ## Values at the start -/

/-- **The value that a global starts with**, among the imported and the defined ones. Only a defined
global has a value of its own, or that of a global before it. -/
inductive Declarations.StartsAs (declarations : Declarations) :
    (index : Nat) → (value : Value) → Prop
    where
  /-- The initializer is a constant. -/
  | constant {position : Nat} {global : Global} {value : Value}
      (found : declarations.globals[position]? = some global)
      (initial : global.initial = .constant value) :
      StartsAs declarations (declarations.importedGlobalTypes.length + position) value
  /-- The initializer stands for an earlier global. -/
  | getGlobal {position : Nat} {global : Global} {earlier : UInt32} {value : Value}
      (found : declarations.globals[position]? = some global)
      (initial : global.initial = .getGlobal earlier)
      (before : earlier.toNat < declarations.importedGlobalTypes.length + position)
      (starts : StartsAs declarations earlier.toNat value) :
      StartsAs declarations (declarations.importedGlobalTypes.length + position) value

namespace Declarations

variable {declarations : Declarations}

/-- **A global starts with at most one value.** -/
theorem StartsAs.unique {index : Nat} {first second : Value}
    (one : declarations.StartsAs index first) (other : declarations.StartsAs index second) :
    first = second := by
  -- On what the first value was taken from; the initializer at a place is the same for both.
  induction one generalizing second with
  | @constant position global value found initial =>
      generalize place : declarations.importedGlobalTypes.length + position = index at other
      cases other with
      | constant foundOther initialOther =>
          cases Nat.add_left_cancel place
          cases found.symm.trans foundOther
          exact Initializer.constant.inj (initial.symm.trans initialOther)
      | getGlobal foundOther initialOther =>
          cases Nat.add_left_cancel place
          cases found.symm.trans foundOther
          cases initial.symm.trans initialOther
  | @getGlobal position global earlier value found initial before starts startsInduction =>
      generalize place : declarations.importedGlobalTypes.length + position = index at other
      cases other with
      | constant foundOther initialOther =>
          cases Nat.add_left_cancel place
          cases found.symm.trans foundOther
          cases initial.symm.trans initialOther
      | getGlobal foundOther initialOther _ startsOther =>
          cases Nat.add_left_cancel place
          cases found.symm.trans foundOther
          cases initial.symm.trans initialOther
          exact startsInduction startsOther

end Declarations

section

variable {assembly : Assembly} {globals last : Array Value}

/-- A global that is added starts with the value of its initializer, if those before it do. -/
theorem startsAs_of_addGlobal {global : Global} (imported : assembly.importedGlobalTypes = [])
    (found : assembly.globals[globals.size]? = some global)
    (before : ∀ index value, globals[index]? = some value → assembly.StartsAs index value)
    (adds : addGlobal globals global = .ok last) :
    last.size = globals.size + 1 ∧
      ∀ index value, last[index]? = some value → assembly.StartsAs index value := by
  obtain ⟨added, evaluates, -, rfl⟩ := addGlobal_eq_ok adds
  refine ⟨Array.size_push _, fun index value holds => ?_⟩
  have place : assembly.importedGlobalTypes.length + globals.size = globals.size := by
    rw [imported, List.length_nil, Nat.zero_add]
  rw [Array.getElem?_push] at holds
  split at holds
  · next isLast =>
      cases holds
      rw [isLast, ← place]
      cases initial : global.initial with
      | constant constant =>
          rw [initial] at evaluates
          cases evaluates
          exact .constant found initial
      | getGlobal earlier =>
          rw [initial, evaluate] at evaluates
          split at evaluates
          · next holdsEarlier =>
              cases evaluates
              obtain ⟨inside, -⟩ := Array.getElem?_eq_some_iff.mp holdsEarlier
              exact .getGlobal found initial (place.symm ▸ inside) (before _ _ holdsEarlier)
          · cases evaluates
  · exact before index value holds

/-- Globals that are added one after the other start with the values of their initializers. -/
theorem startsAs_of_addGlobals (imported : assembly.importedGlobalTypes = []) {rest : List Global}
    (remain : assembly.globals.drop globals.size = rest)
    (before : ∀ index value, globals[index]? = some value → assembly.StartsAs index value)
    (adds : rest.foldlM addGlobal globals = .ok last) :
    ∀ index value, last[index]? = some value → assembly.StartsAs index value := by
  induction rest generalizing globals with
  | nil =>
      cases adds
      exact before
  | cons global rest restInduction =>
      rw [List.foldlM_cons] at adds
      obtain ⟨later, added, others⟩ := Binary.except_bind_eq_ok adds
      have found : assembly.globals[globals.size]? = some global := by
        have head := congrArg List.head? remain
        rwa [List.head?_drop, List.head?_cons] at head
      obtain ⟨grown, after⟩ := startsAs_of_addGlobal imported found before added
      refine restInduction ?_ after others
      rw [grown, ← List.drop_drop, remain, List.drop_one, List.tail_cons]

/-- **The globals of an initial store hold the values that they start with.** -/
theorem startsAs_of_initialStore {bounds : Bounds} {store : Store} {index : Nat} {value : Value}
    (initial : initialStore assembly bounds = .ok store)
    (holds : store.globals[index]? = some value) : assembly.StartsAs index value := by
  obtain ⟨imported, adds⟩ := globals_of_initialStore initial
  refine startsAs_of_addGlobals imported rfl (fun _ _ found => ?_) adds index value holds
  -- There is no global before the first one.
  simp at found

end

/-! ## Operations that replace globals -/

/-- **Whether an operation replaces only globals that are declared mutable.** -/
def Bytecode.Op.Respects {Target : Type} (declarations : Declarations) : Op Target → Prop
  | .storeGlobal index =>
      ∀ type, declarations.globalType? index = some type → type.isMutable = true
  | _ => True

namespace Bytecode.Op

variable {Target : Type} {declarations : Declarations} {op : Op Target}

/-- Targets make no difference. -/
theorem Respects.relabel {Other : Type} (respects : op.Respects declarations)
    (place : Target → Other) : (op.relabel place).Respects declarations := by
  cases op <;> exact respects

/-- Operations of control replace no global. -/
theorem respects_of_isControl (control : op.isControl = true) : op.Respects declarations := by
  cases op <;> trivial

/-- Nor do computations. -/
theorem respects_of_isComputation (computes : op.isComputation = true) :
    op.Respects declarations := by
  cases op <;> trivial

end Bytecode.Op

/-- **An instruction that is not refused** replaces only globals that are declared mutable. -/
theorem PlainInstruction.respects_draft (site : Site) (base : Nat) (stage : Stage)
    {instruction : PlainInstruction} (allowed : instruction.violation? site = none) :
    Emits (Op.Respects site.module.toDeclarations)
      (instruction.draft site base stage).directives := by
  have loads (index : Nat) : (site.loadOp index).Respects site.module.toDeclarations := by
    unfold Site.loadOp
    split <;> trivial
  have stores (index : Nat) : (site.storeOp index).Respects site.module.toDeclarations := by
    unfold Site.storeOp
    split <;> trivial
  have permitted := (violation?_eq_none instruction).mp allowed
  cases instruction with
  | setGlobal index => exact List.forall_mem_singleton.mpr permitted.2
  | nop => exact emits_nil
  | call callee =>
      simp only [draft]
      split
      · exact emits_nil
      · exact List.forall_mem_singleton.mpr trivial
  | callIndirect typeIndex =>
      simp only [draft]
      split
      · exact emits_nil
      · exact List.forall_mem_singleton.mpr trivial
  | getLocal index => exact List.forall_mem_singleton.mpr (loads _)
  | setLocal index => exact List.forall_mem_singleton.mpr (stores _)
  | teeLocal index => exact emits_op.mpr ⟨stores _, List.forall_mem_singleton.mpr (loads _)⟩
  | numeric operation =>
      exact emits_operations.mpr fun op member =>
        Op.respects_of_isComputation (operation.isComputation_of_mem_lower member)
  | _ => exact List.forall_mem_singleton.mpr trivial

/-- **The code of a compiled module** replaces only globals that are declared mutable. -/
theorem respects_of_compile {name : String} {bytes : List UInt8} {module : Module}
    {assembly : Assembly} (decoded : Binary.decodeModule bytes = .ok module)
    (compiles : compile name bytes = .ok assembly) :
    ∀ function ∈ assembly.functions, ∀ op ∈ function.code, op.Respects module.toDeclarations := by
  intro function member
  obtain ⟨position, entry, signature, code, finish, -, -, allowed, rfl⟩ :=
    exists_compiledFrom compiles decoded member
  exact Site.forall_mem_code _ code (fun place _ respects => respects.relabel place)
    (fun _ => Op.respects_of_isControl)
    (fun base stage _ => PlainInstruction.respects_draft _ base stage) allowed

/-! ## Globals that no operation replaces -/

namespace Machine

variable {assembly : Assembly} {bounds : Bounds} {index : Nat}

/-- **Whether a global holds what it held**, in a later state of a running function. -/
def Running.Keeps (index : Nat) (earlier later : Running) : Prop :=
  later.store.globals[index]? = earlier.store.globals[index]?

/-- Keeping a global allows every change but a replacement of that global. -/
theorem allows_keeps (bounds : Bounds) (index : Nat) :
    Allows bounds (· ≠ index) (Running.Keeps index) where
  refl _ := rfl
  trans first second := Eq.trans second first
  operands _ _ _ := rfl
  place _ _ := rfl
  slots _ _ _ := rfl
  globals _ _ _ other _ := Array.getElem?_setIfInBounds_ne other
  memory _ _ _ := rfl

/-- **A global that no function of the assembly replaces is kept by its code.** -/
theorem preserves_global (unwritten : ∀ function ∈ assembly.functions,
      .storeGlobal index ∉ function.code) (value : Value) :
    Preserves assembly bounds fun store => store.globals[index]? = some value where
  executes running member holds := by
    have kept : running.Keeps index (leftBy (Execution.next assembly bounds running)) :=
      (allows_keeps bounds index).relates_next assembly running fun other stores same =>
        unwritten _ member (same ▸ stores)
    exact Eq.trans kept holds
  counts _ _ holds := holds

end Machine

/-! ## Compiled modules -/

/-- What compiled code keeps of an immutable global: its value. -/
theorem preserves_immutable {name : String} {bytes : List UInt8} {module : Module}
    {assembly : Assembly} (decoded : Binary.decodeModule bytes = .ok module)
    (compiles : compile name bytes = .ok assembly) {bounds : Bounds} {index : Nat}
    {type : GlobalType} (declared : module.globalType? index = some type)
    (fixed : type.isMutable = false) (value : Value) :
    Preserves assembly bounds fun store => store.globals[index]? = some value := by
  refine preserves_global (fun function member stores => ?_) value
  have isMutable := respects_of_compile decoded compiles function member _ stores type declared
  rw [fixed] at isMutable
  cases isMutable

/-- A global that a module declares holds, in every initial store, the one value that it starts
with. -/
theorem exists_startsAs {assembly : Assembly} {bounds : Bounds} {store : Store} {module : Module}
    (initial : initialStore assembly bounds = .ok store)
    (same : assembly.toDeclarations = module.toDeclarations) {index : Nat} {type : GlobalType}
    (declared : module.globalType? index = some type) :
    ∃ value, store.globals[index]? = some value ∧
      ∀ other, module.StartsAs index other ↔ other = value := by
  have inside : index < store.globals.size := by
    rw [(sound_of_initialStore initial).size_globals, same,
      ← PlainInstruction.globalType?_isSome, declared]
    rfl
  have holds : store.globals[index]? = some store.globals[index] :=
    Array.getElem?_eq_getElem inside
  have starts := startsAs_of_initialStore initial holds
  rw [same] at starts
  refine ⟨_, holds, fun other => ⟨fun startsOther => startsOther.unique starts, ?_⟩⟩
  rintro rfl
  exact starts

/-- **Immutable globals keep their values.** In the assembly of a module, a global that is declared
immutable holds the value that its initializer stands for: in every instance that any invocations
have led to, also by trapping, and at every step of every call from outside, the start function
included, within any resources. -/
theorem immutable_globals_keep {name : String} {bytes : List UInt8} {module : Module}
    {assembly : Assembly} (decoded : Binary.decodeModule bytes = .ok module)
    (compiles : compile name bytes = .ok assembly) (bounds : Bounds) {index : Nat}
    {type : GlobalType} (declared : module.globalType? index = some type)
    (fixed : type.isMutable = false) :
    (∀ inst : Instance, Reachable assembly bounds inst →
      ∃ value, inst.global? index = some value ∧
        ∀ other, module.StartsAs index other ↔ other = value) ∧
    ∀ state : State, Occurs assembly bounds state →
      ∃ value, state.running.store.globals[index]? = some value ∧
        ∀ other, module.StartsAs index other ↔ other = value := by
  have same := toDeclarations_of_compile compiles decoded
  -- All stores have the global of the initial one, so it is enough that its value is the right one.
  have preserves : Preserves assembly bounds fun store =>
      ∃ value, store.globals[index]? = some value ∧
        ∀ other, module.StartsAs index other ↔ other = value := by
    have each (value : Value) :
        Preserves assembly bounds fun store => store.globals[index]? = some value :=
      preserves_immutable decoded compiles declared fixed value
    constructor
    · rintro running member ⟨value, holds, starts⟩
      exact ⟨value, (each value).executes running member holds, starts⟩
    · rintro store depth ⟨value, holds, starts⟩
      exact ⟨value, holds, starts⟩
  have initially : ∀ store, initialStore assembly bounds = .ok store →
      ∃ value, store.globals[index]? = some value ∧
        ∀ other, module.StartsAs index other ↔ other = value :=
    fun store initial => exists_startsAs initial same declared
  exact ⟨fun inst reachable => reachable.holds preserves initially,
    fun state occurs => occurs.holds preserves initially⟩

/-- The bytes of a module with two immutable globals, one of which takes its value, which is not a
number, from the other. The start function replaces a third global, and so does an exported
function, which then traps. -/
def bumpingBytes : List UInt8 :=
  [0x00, 0x61, 0x73, 0x6d, 0x01, 0x00, 0x00, 0x00, 0x01, 0x04, 0x01, 0x60, 0x00, 0x00, 0x03, 0x03,
    0x02, 0x00, 0x00, 0x06, 0x13, 0x03, 0x7d, 0x00, 0x43, 0x01, 0x00, 0xa0, 0x7f, 0x0b, 0x7d, 0x00,
    0x23, 0x00, 0x0b, 0x7f, 0x01, 0x41, 0x00, 0x0b, 0x07, 0x08, 0x01, 0x04, 0x62, 0x75, 0x6d, 0x70,
    0x00, 0x01, 0x08, 0x01, 0x00, 0x0a, 0x10, 0x02, 0x06, 0x00, 0x41, 0x05, 0x24, 0x02, 0x0b, 0x07,
    0x00, 0x41, 0x09, 0x24, 0x02, 0x00, 0x0b]

/-- The assembly of the module. -/
def bumping : Assembly where
  name := "bumping"
  types := [{}]
  globals := [⟨⟨.f32, false⟩, .constant (.f32 0x7fa00001)⟩, ⟨⟨.f32, false⟩, .getGlobal 0⟩,
    ⟨⟨.i32, true⟩, .constant (.i32 0)⟩]
  exports := [⟨"bump", .function 1⟩]
  start := some 0
  functions := #[⟨0, {}, [], #[.const (.i32 5), .storeGlobal 2, .ret]⟩,
    ⟨1, {}, [], #[.const (.i32 9), .storeGlobal 2, .trap, .ret]⟩]

/-- Its instances, by the value of the global that is replaced. -/
def bumpingInstance (bits : BitVec 32) : Instance :=
  ⟨bumping, {}, ⟨⟨#[], 0⟩, #[.f32 0x7fa00001, .f32 0x7fa00001, .i32 bits], #[], 0⟩⟩

/-- After the start function has replaced the third global and an exported function has done so and
trapped, the second global has the bits that it starts with. -/
theorem immutable_globals_keep_bumping :
    compile "bumping" bumpingBytes = .ok bumping ∧ Reachable bumping {} (bumpingInstance 5) ∧
      Reachable bumping {} (bumpingInstance 9) ∧
      ∀ other, bumping.StartsAs 1 other ↔ other = .f32 0x7fa00001 := by
  have compiles : compile "bumping" bumpingBytes = .ok bumping :=
    compile_of_assemblesTo (by decide +kernel)
  have made : instantiate 3 bumping = .returned (bumpingInstance 5) := rfl
  have invoked : (bumpingInstance 5).invoke 3 "bump" [] =
      (.trapped .unreachable, bumpingInstance 9) := rfl
  have reachable := Reachable.trapped (.instantiated made) invoked
  obtain ⟨module, decoded⟩ := exists_module_of_compile compiles
  have same := toDeclarations_of_compile compiles decoded
  have declared : module.globalType? 1 = some ⟨.f32, false⟩ := by
    rw [← same]
    rfl
  obtain ⟨instances, -⟩ := immutable_globals_keep decoded compiles {} declared rfl
  obtain ⟨value, holds, starts⟩ := instances _ reachable
  cases holds
  rw [← same] at starts
  exact ⟨compiles, .instantiated made, reachable, starts⟩

end WasmCompiler
