import WasmCompiler.Proofs.Instances

/-! # Wider bounds

The bounds of an instance are looked at in three places only: where an operand is added, where a
function is entered and where the table is made. Each of them goes on in the same way under wider
bounds or had trapped under the narrow ones. So runs under both keep step with each other until the
narrow bounds are exhausted, and a run that never exhausts them is the same under the wide ones.

* **`Bounds.Within`** — bounds are no wider than others;
* **`Execution.KeepsStep`** — an action does the same under wider bounds, or exhausts the narrow
  ones;
* **`step_keepsStep`**, **`call_keepsStep`** — so does one step of the machine, and a whole call;
* **`headroom_changes_nothing`** — what this means for instances and their invocations. -/

namespace WasmCompiler.Machine

open Bytecode (Assembly Op)
open Stateful

/-- **Whether bounds are no wider than others**, each of them. -/
structure Bounds.Within (narrow wide : Bounds) : Prop where
  /-- The number of activations. -/
  callDepth : narrow.maxCallDepth ≤ wide.maxCallDepth
  /-- The number of operands. -/
  valueStack : narrow.maxValueStack ≤ wide.maxValueStack
  /-- The size of the table. -/
  tableSize : narrow.maxTableSize ≤ wide.maxTableSize

variable {narrow wide : Bounds} {assembly : Assembly}

/-! ## Actions -/

namespace Execution

variable {α β : Type}

/-- **Whether an action under narrow bounds keeps step with the one under wide bounds**: wherever it
starts, both do the same, or the narrow bounds are exhausted. -/
def KeepsStep (underNarrow underWide : Execution α) : Prop :=
  ∀ running, underWide running = underNarrow running ∨
    ∃ depth later, underNarrow running = .error (.callStackExhausted depth) later

namespace KeepsStep

/-- An action that has nothing to do with bounds. -/
theorem refl (action : Execution α) : KeepsStep action action :=
  fun _ => .inl rfl

/-- **Sequences keep step** if their parts do. -/
theorem bind {first firstWide : Execution α} {second secondWide : α → Execution β}
    (start : KeepsStep first firstWide)
    (onward : ∀ value, KeepsStep (second value) (secondWide value)) :
    KeepsStep (first >>= second) (firstWide >>= secondWide) := by
  intro running
  rcases start running with same | ⟨depth, later, exhausted⟩
  · rw [bind_apply, bind_apply, same]
    -- Both have come to the same place, from where the second parts keep step.
    cases first running with
    | ok value later => exact onward value later
    | error trap later => exact .inl rfl
  · exact .inr ⟨depth, later, bind_of_error second exhausted⟩

/-- What comes first may have nothing to do with bounds. -/
theorem after (first : Execution α) {second secondWide : α → Execution β}
    (onward : ∀ value, KeepsStep (second value) (secondWide value)) :
    KeepsStep (first >>= second) (first >>= secondWide) :=
  (refl first).bind onward

/-- A choice keeps step if both sides do. -/
theorem ite {condition : Prop} [Decidable condition]
    {first firstWide second secondWide : Execution α}
    (positive : KeepsStep first firstWide) (negative : KeepsStep second secondWide) :
    KeepsStep (if condition then first else second)
      (if condition then firstWide else secondWide) := by
  by_cases holds : condition
  · simpa only [if_pos holds] using positive
  · simpa only [if_neg holds] using negative

end KeepsStep

open KeepsStep

/-- **Adding an operand keeps step**: it fits under the wide bound if it fits under the narrow
one. -/
theorem keepsStep_push (within : narrow.Within wide) (value : Value) :
    KeepsStep (push narrow value) (push wide value) := by
  intro running
  rw [push_apply, push_apply]
  by_cases room : running.height < narrow.maxValueStack
  · have roomToo : running.height < wide.maxValueStack :=
      Nat.lt_of_lt_of_le room within.valueStack
    exact .inl (by rw [if_pos room, if_pos roomToo])
  · exact .inr ⟨_, _, if_neg room⟩

/-- A computation on two operands keeps step. -/
theorem keepsStep_applyBinary (within : narrow.Within wide)
    (computation : Value → Value → Except Trap Value) :
    KeepsStep (applyBinary narrow computation) (applyBinary wide computation) :=
  after _ fun _ => after _ fun _ => after _ fun _ => keepsStep_push within _

/-- A computation on one operand keeps step. -/
theorem keepsStep_applyUnary (within : narrow.Within wide)
    (computation : Value → Except Trap Value) :
    KeepsStep (applyUnary narrow computation) (applyUnary wide computation) :=
  after _ fun _ => after _ fun _ => keepsStep_push within _

/-- A load keeps step. -/
theorem keepsStep_loadMemory (within : narrow.Within wide) (accessor : Accessor) (offset : Nat) :
    KeepsStep (loadMemory narrow accessor offset) (loadMemory wide accessor offset) :=
  after _ fun _ => after _ fun _ => after _ fun _ => keepsStep_push within _

/-- Memory grows by its own maximum, not by the bounds; only the operand that tells of it may be one
too many. -/
theorem keepsStep_growMemory (within : narrow.Within wide) :
    KeepsStep (growMemory narrow) (growMemory wide) :=
  after _ fun _ => after _ fun _ =>
    ite (after _ fun _ => keepsStep_push within _) (keepsStep_push within _)

/-- **Operations that neither call nor return keep step.** -/
theorem keepsStep_effect (within : narrow.Within wide) (op : Op Nat) :
    KeepsStep (effect narrow op) (effect wide op) := by
  cases op with
  | loadArg | loadLocal | loadGlobal =>
      exact after _ fun _ => after _ fun _ => keepsStep_push within _
  | const value => exact keepsStep_push within value
  | select => exact after _ fun _ => after _ fun _ => after _ fun _ => keepsStep_push within _
  | compare op => exact keepsStep_applyBinary within _
  | arith op =>
      cases op with
      | neg => exact keepsStep_applyUnary within _
      | _ => exact keepsStep_applyBinary within _
  | convert op => exact keepsStep_applyUnary within _
  | intrinsic op => exact ite (keepsStep_applyBinary within _) (keepsStep_applyUnary within _)
  | access accessor offset => exact ite (refl _) (keepsStep_loadMemory within accessor offset)
  | currentMemory => exact after _ fun _ => keepsStep_push within _
  | growMemory => exact keepsStep_growMemory within
  -- The others add no operand.
  | _ => exact refl _

/-- **Every operation keeps step.** -/
theorem keepsStep_execute (within : narrow.Within wide) (op : Op Nat) :
    KeepsStep (execute assembly narrow op) (execute assembly wide op) := by
  cases op with
  | call | callIndirect | ret => exact refl _
  | _ => exact (keepsStep_effect within _).bind fun _ => refl _

/-- **The next operation keeps step.** -/
theorem keepsStep_next (within : narrow.Within wide) :
    KeepsStep (next assembly narrow) (next assembly wide) := by
  refine after _ fun running => ?_
  simp only
  split
  · exact refl _
  · exact after _ fun _ => keepsStep_execute within _

end Execution

open Execution

/-! ## Runs -/

variable (assembly)

/-- **Whether progress under narrow bounds keeps step** with that under wide bounds: both are the
same, or the narrow bounds are exhausted. -/
def Progress.KeepsStep (underNarrow underWide : Progress) : Prop :=
  underWide = underNarrow ∨ ∃ depth store, underNarrow = .trapped (.callStackExhausted depth) store

/-- Where the narrow bounds are exhausted, the trap goes through all callers. -/
theorem raise_keepsStep (depth : Nat) (store : Store) (callers : List Activation)
    (underWide : Progress) :
    (raise (.callStackExhausted depth) store callers).KeepsStep underWide :=
  .inr ⟨depth, _, raise_eq _ store callers⟩

/-- A function is entered under wide bounds as under the narrow ones, unless that is one call too
many. -/
theorem enter_keepsStep (within : narrow.Within wide) (function : Nat) (arguments : List Value)
    (depth : Nat) :
    enter assembly wide function arguments depth = enter assembly narrow function arguments depth ∨
      enter assembly narrow function arguments depth = .error (.callStackExhausted depth) := by
  unfold enter
  cases assembly.importedFunction? function with
  | some entry => exact .inl rfl
  | none =>
      cases assembly.function? function with
      | none => exact .inl rfl
      | some definition =>
          by_cases room : depth < narrow.maxCallDepth
          · have roomToo : depth < wide.maxCallDepth := Nat.lt_of_lt_of_le room within.callDepth
            simp only [if_pos room, if_pos roomToo, true_or]
          · exact .inr (if_neg room)

/-- A caller takes a result under wide bounds as under the narrow ones, unless that is one operand
too many. -/
theorem resume_keepsStep (within : narrow.Within wide) (result : Option Value) (store : Store)
    (caller : Activation) (callers : List Activation) :
    (resume narrow result store caller callers).KeepsStep
      (resume wide result store caller callers) := by
  cases result with
  | none => exact .inl rfl
  | some value =>
      rw [resume, resume]
      rcases keepsStep_push within value ⟨caller, store⟩ with same | ⟨depth, later, exhausted⟩
      · exact .inl (by simp only [same])
      · rw [exhausted]
        exact raise_keepsStep depth later.store callers _

/-- **One step keeps step.** -/
theorem step_keepsStep (within : narrow.Within wide) (state : State) :
    (step assembly narrow state).KeepsStep (step assembly wide state) := by
  unfold step
  have keeps : KeepsStep (next assembly narrow) (next assembly wide) := keepsStep_next within
  -- Either the operation does the same within both bounds, or the narrow ones are exhausted here.
  rcases keeps state.running with same | ⟨depth, later, exhausted⟩
  · rw [same]
    cases next assembly narrow state.running with
    | error trap later => exact .inl rfl
    | ok signal later =>
        cases signal with
        | next => exact .inl rfl
        | call function arguments =>
            simp only [obey]
            rcases enter_keepsStep assembly within function arguments later.store.depth with
              same | exhausted
            · exact .inl (by simp only [same])
            · rw [exhausted]
              exact raise_keepsStep _ later.store state.callers _
        | done result =>
            cases state.callers with
            | nil => exact .inl rfl
            | cons caller callers =>
                exact resume_keepsStep within result later.store.countDown caller callers
  · rw [exhausted]
    exact raise_keepsStep depth later.store state.callers _

/-- **A run keeps step**, however many steps it takes. -/
theorem run_keepsStep (within : narrow.Within wide) (steps : Nat) (state : State) :
    (run assembly narrow steps state).KeepsStep (run assembly wide steps state) := by
  induction steps generalizing state with
  | zero => exact .inl rfl
  | succ steps stepsInduction =>
      unfold run
      rcases step_keepsStep assembly within state with same | ⟨depth, store, exhausted⟩
      · rw [same]
        cases step assembly narrow state with
        | running middle => exact stepsInduction middle
        | finished | trapped => exact .inl rfl
      -- The run under narrow bounds ends here, whatever the other one goes on to do.
      · exact .inr ⟨depth, store, by rw [exhausted]⟩

/-- **A call keeps step.** -/
theorem call_keepsStep (within : narrow.Within wide) (steps function : Nat)
    (arguments : List Value) (store : Store) :
    (call assembly narrow steps function arguments store).KeepsStep
      (call assembly wide steps function arguments store) := by
  unfold call
  rcases enter_keepsStep assembly within function arguments store.depth with same | exhausted
  · rw [same]
    cases enter assembly narrow function arguments store.depth with
    | error trap => exact .inl rfl
    | ok activation => exact run_keepsStep assembly within steps _
  · exact .inr ⟨store.depth, store, by rw [exhausted]⟩

/-! ## Instances -/

/-- **Whether a computation makes the same of a table under wide bounds** as under the narrow ones,
or finds it too large for those. -/
def SameTable (narrow : Bounds) {α : Type} (underNarrow underWide : Except Trap α) : Prop :=
  underWide = underNarrow ∨
    ∃ size, underNarrow = .error (.tableLimitExceeded size narrow.maxTableSize)

namespace SameTable

variable {α β : Type}

/-- What comes after the table may have nothing to do with bounds. -/
theorem bind {first firstWide : Except Trap α} (same : SameTable narrow first firstWide)
    (second : α → Except Trap β) : SameTable narrow (first >>= second) (firstWide >>= second) := by
  rcases same with rfl | ⟨size, rfl⟩
  · exact .inl rfl
  · exact .inr ⟨size, rfl⟩

/-- So may what comes before. -/
theorem after (first : Except Trap α) {second secondWide : α → Except Trap β}
    (onward : ∀ value, SameTable narrow (second value) (secondWide value)) :
    SameTable narrow (first >>= second) (first >>= secondWide) := by
  cases first with
  | error trap => exact .inl rfl
  | ok value => exact onward value

end SameTable

/-- A table that is not too large for the narrow bounds is not for wide ones. -/
theorem sameTable_createTable (within : narrow.Within wide) (limits : Option Limits) :
    SameTable narrow (createTable narrow limits) (createTable wide limits) := by
  unfold createTable
  by_cases room : (limits.map fun limits => limits.initial.toNat).getD 0 ≤ narrow.maxTableSize
  · have roomToo := Nat.le_trans room within.tableSize
    exact .inl (by simp only [if_pos room, if_pos roomToo])
  · exact .inr ⟨_, if_neg room⟩

/-- **The initial state is the same**, unless its table is too large for the narrow bounds. -/
theorem sameTable_initialStore (within : narrow.Within wide) :
    SameTable narrow (initialStore assembly narrow) (initialStore assembly wide) :=
  .after _ fun resources => .after _ fun _ => (sameTable_createTable within resources.table).bind _

/-- A result that is changed leaves the way in which a computation ends. -/
def Outcome.map {α β : Type} (change : α → β) : Outcome α → Outcome β
  | .returned result => .returned (change result)
  | .trapped trap => .trapped trap
  | .unfinished => .unfinished

/-- An instance with other bounds. -/
def Instance.withBounds (inst : Instance) (bounds : Bounds) : Instance :=
  { inst with bounds := bounds }

/-- **The same instance is made under wide bounds**, or making it fails in the same way, unless the
narrow bounds are exhausted or the table is too large for them. -/
theorem instantiate_keepsStep (within : narrow.Within wide) (steps : Nat) :
    instantiate steps assembly wide =
        (instantiate steps assembly narrow).map (·.withBounds wide) ∨
      (∃ depth, instantiate steps assembly narrow = .trapped (.callStackExhausted depth)) ∨
      ∃ size, instantiate steps assembly narrow =
        .trapped (.tableLimitExceeded size narrow.maxTableSize) := by
  unfold instantiate
  rcases sameTable_initialStore assembly within with same | ⟨size, tooLarge⟩
  · rw [same]
    cases initialStore assembly narrow with
    | error trap => exact .inl rfl
    | ok store =>
        cases assembly.start with
        | none => exact .inl rfl
        | some function =>
            -- The start function is called with the same store.
            rcases call_keepsStep assembly within steps function.toNat [] store with
              same | ⟨depth, later, exhausted⟩
            · left
              simp only [same]
              cases call assembly narrow steps function.toNat [] store <;> rfl
            · exact .inr (.inl ⟨depth, by simp only [exhausted]⟩)
  · exact .inr (.inr ⟨size, by rw [tooLarge]⟩)

/-- **An invocation ends in the same way under wide bounds** and leaves the same store, unless the
narrow bounds are exhausted. -/
theorem invoke_keepsStep (inst : Instance) (within : inst.bounds.Within wide) (steps : Nat)
    (name : String) (arguments : List Value) :
    (inst.withBounds wide).invoke steps name arguments =
        ((inst.invoke steps name arguments).1,
          (inst.invoke steps name arguments).2.withBounds wide) ∨
      ∃ depth, (inst.invoke steps name arguments).1 = .trapped (.callStackExhausted depth) := by
  obtain ⟨assembly, narrow, store⟩ := inst
  -- Which function is called does not depend on the bounds.
  have exported : ((⟨assembly, narrow, store⟩ : Instance).withBounds wide).exportedFunction? name =
      (⟨assembly, narrow, store⟩ : Instance).exportedFunction? name := rfl
  unfold Instance.invoke
  rw [exported]
  cases (⟨assembly, narrow, store⟩ : Instance).exportedFunction? name with
  | none => exact .inl rfl
  | some entry =>
      obtain ⟨function, signature⟩ := entry
      by_cases typed : arguments.map Value.type = signature.params
      · simp only [if_pos typed, Instance.withBounds]
        rcases call_keepsStep assembly within steps function arguments store with
          same | ⟨depth, later, exhausted⟩
        · left
          rw [same]
          cases call assembly narrow steps function arguments store <;> rfl
        · exact .inr ⟨depth, by rw [exhausted]⟩
      · left
        simp only [if_neg typed]

/-- **Wider bounds change nothing about what stays within the narrow ones.** If narrow bounds are
neither exhausted nor too small for the table, making an instance ends in the same way under wide
bounds, with the same trap or with the same instance but for its bounds. An invocation, of whatever
instance, that does not exhaust narrow bounds ends in the same way under wide bounds, with the same
result or trap, and leaves the same memory, globals and table. -/
theorem headroom_changes_nothing (within : narrow.Within wide) (steps : Nat) :
    (∀ assembly : Assembly,
      (∀ depth, instantiate steps assembly narrow ≠ .trapped (.callStackExhausted depth)) →
      (∀ size, instantiate steps assembly narrow ≠
        .trapped (.tableLimitExceeded size narrow.maxTableSize)) →
      instantiate steps assembly wide =
        (instantiate steps assembly narrow).map (·.withBounds wide)) ∧
    ∀ (inst : Instance) (name : String) (arguments : List Value), inst.bounds = narrow →
      (∀ depth, (inst.invoke steps name arguments).1 ≠ .trapped (.callStackExhausted depth)) →
      (inst.withBounds wide).invoke steps name arguments =
        ((inst.invoke steps name arguments).1,
          (inst.invoke steps name arguments).2.withBounds wide) := by
  constructor
  · intro assembly withinCalls withinTable
    rcases instantiate_keepsStep assembly within steps with
      same | ⟨depth, exhausted⟩ | ⟨size, tooLarge⟩
    · exact same
    · exact absurd exhausted (withinCalls depth)
    · exact absurd tooLarge (withinTable size)
  · rintro inst name arguments rfl withinCalls
    rcases invoke_keepsStep inst within steps name arguments with same | ⟨depth, exhausted⟩
    · exact same
    · exact absurd exhausted (withinCalls depth)

/-- An assembly with a table of two slots, whose start function sets the global, and whose exported
function calls another one that sets it again and gives a result. -/
def callingTwice : Assembly where
  name := "twice"
  types := [{}, ⟨[], [.i32]⟩]
  table := some ⟨2, none⟩
  globals := [⟨⟨.i32, true⟩, .constant (.i32 7)⟩]
  exports := [⟨"outer", .function 1⟩]
  start := some 0
  functions := #[⟨0, {}, [], #[.const (.i32 3), .storeGlobal 0, .ret]⟩,
    ⟨1, ⟨[], [.i32]⟩, [], #[.call 2, .ret]⟩,
    ⟨2, ⟨[], [.i32]⟩, [], #[.loadGlobal 0, .const (.i32 5), .storeGlobal 0, .ret]⟩]

/-- The least bounds that the assembly stays within. -/
def leastBounds : Bounds where
  maxCallDepth := 2
  maxValueStack := 2
  maxTableSize := 2

/-- Under the usual bounds the assembly does what it does under the least ones; with one call fewer
the least ones are exhausted. -/
theorem headroom_changes_nothing_callingTwice :
    leastBounds.Within {} ∧
      (∃ inst, instantiate 3 callingTwice leastBounds = .returned inst ∧
        instantiate 3 callingTwice {} = .returned (inst.withBounds {}) ∧
        inst.store.globals = #[.i32 3] ∧
        ∃ later, inst.invoke 6 "outer" [] = (.returned (some (.i32 3)), later) ∧
          later.store.globals = #[.i32 5] ∧
          (inst.withBounds {}).invoke 6 "outer" [] =
            (.returned (some (.i32 3)), later.withBounds {})) ∧
      ∃ inst, instantiate 3 callingTwice { leastBounds with maxCallDepth := 1 } = .returned inst ∧
        (inst.invoke 6 "outer" []).1 = .trapped (.callStackExhausted 1) := by
  have within : leastBounds.Within {} := ⟨by decide, by decide, by decide⟩
  have made : instantiate 3 callingTwice leastBounds =
      .returned ⟨callingTwice, leastBounds, ⟨⟨#[], 0⟩, #[.i32 3], #[none, none], 0⟩⟩ := rfl
  have invoked : Instance.invoke
      ⟨callingTwice, leastBounds, ⟨⟨#[], 0⟩, #[.i32 3], #[none, none], 0⟩⟩ 6 "outer" [] =
      (.returned (some (.i32 3)),
        ⟨callingTwice, leastBounds, ⟨⟨#[], 0⟩, #[.i32 5], #[none, none], 0⟩⟩) := rfl
  have madeWide := (headroom_changes_nothing within 3).1 callingTwice
    (fun _ exhausted => by rw [made] at exhausted; cases exhausted)
    (fun _ tooLarge => by rw [made] at tooLarge; cases tooLarge)
  have invokedWide := (headroom_changes_nothing within 6).2
    ⟨callingTwice, leastBounds, ⟨⟨#[], 0⟩, #[.i32 3], #[none, none], 0⟩⟩ "outer" [] rfl
    (fun _ exhausted => by rw [invoked] at exhausted; cases exhausted)
  rw [made] at madeWide
  rw [invoked] at invokedWide
  exact ⟨within, ⟨_, made, madeWide, rfl, _, invoked, rfl, invokedWide⟩, _, rfl, rfl⟩

end WasmCompiler.Machine
