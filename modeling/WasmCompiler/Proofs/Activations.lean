import WasmCompiler.Proofs.Frames
import WasmCompiler.Proofs.Invocations

/-! # Activations of a call

What holds of every state that a call from outside goes through, whatever the code. A step either
goes on in the function that runs, enters one that it calls, or goes back to its caller, so
activations are nested; and what a function gives to a callee or to its caller has been checked
against the signature.

* **`Signal.Proper`** — what a function may ask of the machine;
* **`Transition`** — the three ways in which a step goes on;
* **`counts_step`**, **`counts_run`** — the count of activations is right at every step, and a call
  leaves it as it found it, whether it returns or traps;
* **`Visits`** — the states that a call goes through;
* **`Visits.forall_activations`** — what a property of activations has to satisfy to hold of all of
  them;
* **`Preserves`** — what a property of stores has to satisfy to hold of the store throughout. -/

namespace WasmCompiler.Machine

open Bytecode (Assembly Function Op)
open Stateful
open Execution

variable {assembly : Assembly} {bounds : Bounds}

/-! ## Signals -/

/-- **Whether a signal of a function is proper**: a call passes arguments of the types of the
callee's parameters, and a return gives a value of the result type if the function has one. -/
def Signal.Proper (assembly : Assembly) (function : Function) : Signal → Prop
  | .next => True
  | .call callee arguments =>
      -- The callee may be imported, so there need not be a definition with this signature.
      ∃ signature, assembly.signature? callee = some signature ∧
        arguments.map Value.type = signature.params
  | .done result => result.map Value.type = function.signature.result?

/-- Arguments that pass the checks have the types of the parameters. -/
theorem types_of_checkArguments {params : List ValueType} {arguments : List Value}
    {running later : Running} (checked : checkArguments params arguments running = .ok () later)
    (counts : arguments.length = params.length) : arguments.map Value.type = params := by
  -- Arguments and parameters are checked in pairs, up to the end of the shorter of the two lists.
  induction params generalizing arguments with
  | nil => rw [List.length_eq_zero_iff.mp counts, List.map_nil]
  | cons param params paramsInduction =>
      cases arguments with
      | nil => cases counts
      | cons argument arguments =>
          by_cases same : argument.type = param
          · have others : checkArguments params arguments running = .ok () later :=
              (congrFun (if_pos same) running).symm.trans checked
            rw [List.map_cons, same, paramsInduction others (Nat.succ.inj counts)]
          · cases (congrFun (if_neg same) running).symm.trans checked

/-- **Arguments that are taken have the types of the parameters.** -/
theorem types_of_takeArguments {signature : Signature} {running later : Running}
    {arguments : List Value} (taken : takeArguments signature running = .ok arguments later) :
    arguments.map Value.type = signature.params := by
  rw [takeArguments_apply] at taken
  by_cases short : running.height < signature.params.length
  · rw [if_pos short] at taken
    cases taken
  · rw [if_neg short] at taken
    obtain ⟨⟨⟩, middle, checked, equation⟩ := bind_eq_ok.mp taken
    cases equation
    refine types_of_checkArguments checked ?_
    rw [Running.height_eq] at short
    rw [List.length_reverse, List.length_take, Nat.min_eq_left (Nat.le_of_not_lt short)]

/-- **A result that is taken has the type that the function returns.** -/
theorem type_of_takeResult {running later : Running} {result : Option Value}
    (taken : takeResult running = .ok result later) :
    result.map Value.type = running.activation.function.signature.result? := by
  rw [takeResult, bind_of_ok _ (get_apply _)] at taken
  cases returns : running.activation.function.signature.result? with
  | none =>
      simp only [returns] at taken
      cases taken
      rfl
  | some type =>
      simp only [returns] at taken
      obtain ⟨value, middle, -, taken⟩ := bind_eq_ok.mp taken
      by_cases same : value.type = type
      · cases (congrFun (if_pos same) middle).symm.trans taken
        exact congrArg some same
      · cases (congrFun (if_neg same) middle).symm.trans taken

/-- A call that has been prepared passes arguments of the types of the parameters. -/
theorem proper_of_prepareCall {callee : Nat} {signature : Signature} {function : Function}
    (known : assembly.signature? callee = some signature) {running later : Running}
    {signal : Signal} (prepares : prepareCall callee signature running = .ok signal later) :
    signal.Proper assembly function := by
  rw [prepareCall_eq] at prepares
  obtain ⟨arguments, middle, taken, equation⟩ := bind_eq_ok.mp prepares
  cases equation
  exact ⟨signature, known, types_of_takeArguments taken⟩

/-- So does a call through the table: the callee has the signature that is expected. -/
theorem proper_of_prepareIndirectCall {typeIndex : Nat} {function : Function}
    {running later : Running} {signal : Signal}
    (prepares : prepareIndirectCall assembly typeIndex running = .ok signal later) :
    signal.Proper assembly function := by
  unfold prepareIndirectCall at prepares
  cases declared : assembly.types[typeIndex]? with
  | none =>
      rw [declared] at prepares
      cases prepares
  | some expected =>
      rw [declared] at prepares
      obtain ⟨selector, popped, -, prepares⟩ := bind_eq_ok.mp prepares
      obtain ⟨callee, looked, -, prepares⟩ := bind_eq_ok.mp prepares
      -- Arguments are taken by the expected signature, which has to be that of the callee.
      by_cases same : assembly.signature? callee = some expected
      · exact proper_of_prepareCall same ((congrFun (if_pos same) looked).symm.trans prepares)
      · cases (congrFun (if_neg same) looked).symm.trans prepares

/-- A function that finishes gives a result of the type that it returns. -/
theorem proper_of_finish {running later : Running} {signal : Signal}
    (finishes : finish running = .ok signal later) :
    signal.Proper assembly running.activation.function := by
  rw [finish_eq] at finishes
  obtain ⟨result, middle, taken, equation⟩ := bind_eq_ok.mp finishes
  cases equation
  exact type_of_takeResult taken

/-- Whatever operation it comes from, a signal is proper for the function that executes it. -/
theorem proper_of_execute {op : Op Nat} {running later : Running} {signal : Signal}
    (executes : execute assembly bounds op running = .ok signal later) :
    signal.Proper assembly running.activation.function := by
  cases op with
  | call callee =>
      rw [execute] at executes
      cases known : assembly.signature? callee with
      | none =>
          rw [known] at executes
          cases executes
      | some signature =>
          rw [known] at executes
          exact proper_of_prepareCall known executes
  | callIndirect typeIndex => exact proper_of_prepareIndirectCall executes
  | ret => exact proper_of_finish executes
  | _ =>
      obtain ⟨⟨⟩, middle, -, equation⟩ := bind_eq_ok.mp executes
      cases equation
      trivial

/-- **What a function asks of the machine is proper.** -/
theorem proper_of_next {running later : Running} {signal : Signal}
    (executes : next assembly bounds running = .ok signal later) :
    signal.Proper assembly running.activation.function := by
  rw [next, bind_of_ok _ (get_apply _)] at executes
  cases found : running.activation.function.code[running.activation.position]? with
  | none =>
      simp only [found] at executes
      exact proper_of_finish executes
  | some op =>
      simp only [found] at executes
      obtain ⟨⟨⟩, middle, jumped, executes⟩ := bind_eq_ok.mp executes
      have proper := proper_of_execute executes
      -- Moving to the next position leaves the function.
      cases jumped
      exact proper

/-! ## Entering a function -/

/-- **An activation that is entered** is one of a function of the assembly, at its start, with the
arguments before the locals. -/
theorem enter_eq_ok {function depth : Nat} {arguments : List Value} {activation : Activation}
    (enters : enter assembly bounds function arguments depth = .ok activation) :
    ∃ definition, assembly.function? function = some definition ∧
      assembly.importedFunction? function = none ∧ depth < bounds.maxCallDepth ∧
      activation =
        ⟨definition, depth + 1, 0, (arguments ++ definition.locals.map Value.zero).toArray,
          .empty⟩ := by
  unfold enter at enters
  cases imported : assembly.importedFunction? function with
  | some entry =>
      rw [imported] at enters
      cases enters
  | none =>
      cases known : assembly.function? function with
      | none =>
          simp only [imported, known] at enters
          cases enters
      | some definition =>
          simp only [imported, known] at enters
          by_cases shallow : depth < bounds.maxCallDepth
          · rw [if_pos shallow] at enters
            cases enters
            exact ⟨definition, rfl, rfl, shallow, rfl⟩
          · rw [if_neg shallow] at enters
            cases enters

/-- A function of an assembly is one of those listed. -/
theorem mem_of_function? {index : Nat} {function : Function}
    (found : assembly.function? index = some function) : function ∈ assembly.functions := by
  unfold Assembly.function? at found
  split at found
  · exact Array.mem_of_getElem? found
  · cases found

/-- There are as many imported functions as signature indices of theirs. -/
theorem length_importedFunctions (declarations : Declarations) :
    declarations.importedFunctions.length = declarations.importedFunctionTypes.length := by
  rw [Declarations.importedFunctions, Declarations.importedFunctionTypes,
    List.length_filterMap_eq_countP, List.countP_eq_length_filter]

/-- **An activation that is entered runs a function of the signature** that calls of it go by. -/
theorem signature_of_enter {function depth : Nat} {arguments : List Value} {activation : Activation}
    {signature : Signature}
    (enters : enter assembly bounds function arguments depth = .ok activation)
    (known : assembly.signature? function = some signature) :
    activation.function.signature = signature := by
  obtain ⟨definition, found, imported, -, rfl⟩ := enter_eq_ok enters
  have undeclared : assembly.importedFunctionTypes[function]? = none :=
    List.getElem?_eq_none (length_importedFunctions assembly.toDeclarations ▸
      List.getElem?_eq_none_iff.mp imported)
  rw [Assembly.signature?, undeclared] at known
  simp only [found] at known
  exact Option.some.inj known

/-! ## Steps -/

/-- **How a step goes on**: in the function that runs, in one that it calls, or in its caller. -/
inductive Transition (assembly : Assembly) (bounds : Bounds) : State → State → Prop where
  /-- The function goes on. -/
  | onward {earlier later : Running} {callers : List Activation}
      (executes : next assembly bounds earlier = .ok .next later) :
      Transition assembly bounds ⟨earlier, callers⟩ ⟨later, callers⟩
  /-- Another one is entered. -/
  | calls {earlier caller : Running} {callers : List Activation} {function : Nat}
      {arguments : List Value} {activation : Activation}
      (executes : next assembly bounds earlier = .ok (.call function arguments) caller)
      (enters : enter assembly bounds function arguments caller.store.depth = .ok activation) :
      Transition assembly bounds ⟨earlier, callers⟩
        ⟨⟨activation, caller.store.countUp⟩, caller.activation :: callers⟩
  /-- The caller goes on. -/
  | returns {earlier callee later : Running} {caller : Activation} {callers : List Activation}
      {result : Option Value}
      (executes : next assembly bounds earlier = .ok (.done result) callee)
      (gives : give bounds result ⟨caller, callee.store.countDown⟩ = .ok () later) :
      Transition assembly bounds ⟨earlier, caller :: callers⟩ ⟨later, callers⟩

/-- What a step comes to. Nothing is said of a trap but where it leaves the store: see `store_step`.
-/
def Moves (assembly : Assembly) (bounds : Bounds) (state : State) : Progress → Prop
  | .running later => Transition assembly bounds state later
  | .finished result last =>
      -- Only the outermost activation finishes a call.
      state.callers = [] ∧
        ∃ callee, next assembly bounds state.running = .ok (.done result) callee ∧
          last = callee.store.countDown
  | .trapped _ _ => True

/-- Nothing is said of a step that traps. -/
theorem moves_raise (state : State) (trap : Trap) (store : Store) (callers : List Activation) :
    Moves assembly bounds state (raise trap store callers) := by
  rw [raise_eq]
  trivial

/-- Going back to a caller gives it the result or traps. -/
theorem moves_resume {earlier callee : Running} {caller : Activation} {callers : List Activation}
    {result : Option Value}
    (executes : next assembly bounds earlier = .ok (.done result) callee) :
    Moves assembly bounds ⟨earlier, caller :: callers⟩
      (resume bounds result callee.store.countDown caller callers) := by
  cases result with
  | none => exact .returns executes rfl
  | some value =>
      rw [resume]
      cases gives : push bounds value ⟨caller, callee.store.countDown⟩ with
      | ok given later => exact .returns executes gives
      | error trap later => exact moves_raise _ _ _ _

/-- **What a step comes to**, in terms of the operation that it executes. -/
theorem moves_step (state : State) :
    Moves assembly bounds state (step assembly bounds state) := by
  obtain ⟨running, callers⟩ := state
  rw [step]
  cases executes : next assembly bounds running with
  | error trap later => exact moves_raise _ _ _ _
  | ok signal later =>
      cases signal with
      | next => exact .onward executes
      | call function arguments =>
          simp only [obey]
          cases enters : enter assembly bounds function arguments later.store.depth with
          | error trap => exact moves_raise _ _ _ _
          | ok activation => exact .calls executes enters
      | done result =>
          cases callers with
          | nil => exact ⟨rfl, later, executes, rfl⟩
          | cons caller callers => exact moves_resume executes

/-- A step that goes on is one of those. -/
theorem Transition.step_eq {earlier later : State}
    (moves : Transition assembly bounds earlier later) :
    step assembly bounds earlier = .running later := by
  cases moves with
  | onward executes =>
      rw [step, executes]
      rfl
  | calls executes enters =>
      rw [step, executes]
      simp only [obey, enters]
  | @returns earlier callee later caller callers result executes gives =>
      have resumes : step assembly bounds ⟨earlier, caller :: callers⟩ =
          resume bounds result callee.store.countDown caller callers := by
        rw [step, executes]
        rfl
      rw [resumes]
      cases result with
      | none =>
          cases gives
          rfl
      | some value =>
          have pushes : push bounds value ⟨caller, callee.store.countDown⟩ = .ok () later := gives
          rw [resume, pushes]

/-! ## The count of activations -/

/-- The activations of a state, innermost first. -/
def State.activations (state : State) : List Activation :=
  state.running.activation :: state.callers

/-- **Whether a call counts its activations** on top of those outside of it: each one while it goes
on, and none once it has ended. -/
def Progress.Counts (outside : Nat) : Progress → Prop
  | .running state => state.running.store.depth = outside + state.activations.length
  | .finished _ last => last.depth = outside
  | .trapped _ last => last.depth = outside

variable {outside : Nat}

/-- **A trap takes all activations off the count**, that of the function that traps and those of its
callers. -/
theorem counts_raise {trap : Trap} {store : Store} {callers : List Activation}
    (counted : store.depth = outside + (callers.length + 1)) :
    (raise trap store callers).Counts outside := by
  rw [raise_eq]
  show store.depth - (callers.length + 1) = outside
  omega

/-- Going back to a caller keeps the count of those that are left, also if it traps. -/
theorem counts_resume {result : Option Value} {store : Store} {caller : Activation}
    {callers : List Activation} (counted : store.depth = outside + (callers.length + 1)) :
    (resume bounds result store caller callers).Counts outside := by
  cases result with
  | none => exact counted
  | some value =>
      rw [resume]
      cases gives : push bounds value ⟨caller, store⟩ with
      | ok given later =>
          have same : later.store.depth = store.depth :=
            ((steady_give (some value)).ok gives).count
          exact same.trans counted
      | error trap later =>
          have same : later.store.depth = store.depth :=
            ((steady_give (some value)).error gives).count
          exact counts_raise (same.trans counted)

/-- **A step keeps the count right**: a call counts one activation more, a return one less, and a
trap takes off all of them. -/
theorem counts_step {state : State} (counted : (Progress.running state).Counts outside) :
    (step assembly bounds state).Counts outside := by
  obtain ⟨running, callers⟩ := state
  have before : running.store.depth = outside + (callers.length + 1) := counted
  rw [step]
  cases executes : next assembly bounds running with
  | error trap later =>
      have same := ((steady_next assembly).error executes).count
      exact counts_raise (same.trans before)
  | ok signal later =>
      have middle := ((steady_next assembly).ok executes).count.trans before
      cases signal with
      | next => exact middle
      | call function arguments =>
          simp only [obey]
          cases enter assembly bounds function arguments later.store.depth with
          | error trap => exact counts_raise middle
          | ok activation => exact congrArg (· + 1) middle
      | done result =>
          have less : later.store.countDown.depth = outside + callers.length :=
            congrArg (· - 1) middle
          cases callers with
          | nil => exact less
          | cons caller callers => exact counts_resume less

/-- **A run keeps the count right**, wherever it gets to. -/
theorem counts_run (steps : Nat) {state : State}
    (counted : (Progress.running state).Counts outside) :
    (run assembly bounds steps state).Counts outside :=
  holds_run (fun _ before => counts_step before) steps counted

/-- **A call from outside leaves the count as it found it**, whether it returns or traps. -/
theorem counts_call (assembly : Assembly) (bounds : Bounds) (steps function : Nat)
    (arguments : List Value) (store : Store) :
    (call assembly bounds steps function arguments store).Counts store.depth := by
  cases enters : enter assembly bounds function arguments store.depth with
  | error trap =>
      rw [call_of_enter_error steps enters]
      rfl
  | ok activation =>
      rw [call_of_enter steps enters]
      exact counts_run steps rfl

/-! ## The store after a step -/

/-- The store that a call leaves, or has come to. -/
def Progress.store : Progress → Store
  | .running state => state.running.store
  | .finished _ last => last
  | .trapped _ last => last

/-- A trap leaves the store but for the count of activations. -/
theorem store_raise (trap : Trap) (store : Store) (callers : List Activation) :
    (raise trap store callers).store = store.uncount (callers.length + 1) := by
  rw [raise_eq]
  rfl

/-- Going back to a caller leaves the store but for the count of activations, also if the caller has
no room for the result. -/
theorem store_resume (result : Option Value) (store : Store) (caller : Activation)
    (callers : List Activation) :
    ∃ depth, (resume bounds result store caller callers).store =
      { store with depth := depth } := by
  cases result with
  | none => exact ⟨store.depth, rfl⟩
  | some value =>
      rw [resume, push_apply]
      by_cases room : (⟨caller, store⟩ : Running).height < bounds.maxValueStack
      · rw [if_pos room]
        exact ⟨store.depth, rfl⟩
      · rw [if_neg room]
        exact ⟨_, store_raise _ store callers⟩

/-- **Only the next operation changes the store in a step**: entering a function and going back to a
caller leave it but for the count of activations, whether they succeed or trap. -/
theorem store_step (state : State) :
    ∃ depth, (step assembly bounds state).store =
      { (leftBy (next assembly bounds state.running)).store with depth := depth } := by
  obtain ⟨running, callers⟩ := state
  rw [step]
  cases executes : next assembly bounds running with
  | error trap later => exact ⟨_, store_raise trap later.store callers⟩
  | ok signal later =>
      cases signal with
      | next => exact ⟨later.store.depth, rfl⟩
      | call function arguments =>
          simp only [obey]
          cases enter assembly bounds function arguments later.store.depth with
          | error trap => exact ⟨_, store_raise trap later.store callers⟩
          | ok activation => exact ⟨_, rfl⟩
      | done result =>
          cases callers with
          | nil => exact ⟨_, rfl⟩
          | cons caller callers => exact store_resume result later.store.countDown caller callers

/-! ## Calls from outside -/

/-- **The states that a call from outside goes through.** -/
inductive Visits (assembly : Assembly) (bounds : Bounds) (function : Nat) (arguments : List Value)
    (store : Store) : State → Prop where
  /-- The function is entered. -/
  | entered {activation : Activation}
      (enters : enter assembly bounds function arguments store.depth = .ok activation) :
      Visits assembly bounds function arguments store ⟨⟨activation, store.countUp⟩, []⟩
  /-- A step goes on. -/
  | moved {earlier later : State}
      (before : Visits assembly bounds function arguments store earlier)
      (moves : Transition assembly bounds earlier later) :
      Visits assembly bounds function arguments store later

variable {function : Nat} {arguments : List Value} {store : Store}

/-- What a call comes to: a state that it goes through, or an end that one of them steps to. -/
def Reaches (assembly : Assembly) (bounds : Bounds) (function : Nat) (arguments : List Value)
    (store : Store) : Progress → Prop
  | .running state => Visits assembly bounds function arguments store state
  | ended => ∃ state, Visits assembly bounds function arguments store state ∧
      step assembly bounds state = ended

/-- A step from a state that a call goes through gets to another one or ends the call. -/
theorem reaches_step {state : State}
    (visits : Visits assembly bounds function arguments store state) :
    Reaches assembly bounds function arguments store (step assembly bounds state) := by
  have moves : Moves assembly bounds state (step assembly bounds state) := moves_step state
  cases stepped : step assembly bounds state with
  | running later =>
      rw [stepped] at moves
      exact visits.moved moves
  | finished result last => exact ⟨state, visits, stepped⟩
  | trapped trap last => exact ⟨state, visits, stepped⟩

/-- So does a run from such a state. -/
theorem reaches_run {state : State} (visits : Visits assembly bounds function arguments store state)
    (steps : Nat) :
    Reaches assembly bounds function arguments store (run assembly bounds steps state) :=
  holds_run (fun _ before => reaches_step before) steps visits

/-- **What a call comes to**: it traps before anything changes, or enters the function and goes
through states that it visits. -/
theorem call_cases (assembly : Assembly) (bounds : Bounds) (steps function : Nat)
    (arguments : List Value) (store : Store) :
    (∃ trap, call assembly bounds steps function arguments store = .trapped trap store) ∨
      ∃ activation, enter assembly bounds function arguments store.depth = .ok activation ∧
        Reaches assembly bounds function arguments store
          (call assembly bounds steps function arguments store) := by
  cases enters : enter assembly bounds function arguments store.depth with
  | error trap => exact .inl ⟨trap, call_of_enter_error steps enters⟩
  | ok activation =>
      refine .inr ⟨activation, rfl, ?_⟩
      rw [call_of_enter steps enters]
      exact reaches_run (.entered enters) steps

/-- **A call goes through the states that it visits.** -/
theorem visits_of_call {steps : Nat} {state : State}
    (calls : call assembly bounds steps function arguments store = .running state) :
    Visits assembly bounds function arguments store state := by
  rcases call_cases assembly bounds steps function arguments store with ⟨trap, refused⟩ |
    ⟨activation, -, reaches⟩
  · rw [refused] at calls
    cases calls
  · rw [calls] at reaches
    exact reaches

/-! ## Activations -/

/-- **At every step in a call the count is that of its activations** and of those outside of it. -/
theorem Visits.counts {state : State}
    (visits : Visits assembly bounds function arguments store state) :
    state.running.store.depth = store.depth + state.activations.length := by
  induction visits with
  | entered enters => rfl
  | @moved earlier later before moves counted =>
      have after : (step assembly bounds earlier).Counts store.depth := counts_step counted
      rw [moves.step_eq] at after
      exact after

/-- **Whether activations are nested**: the depth of each is the number of those from it outward, on
top of those outside of the call. -/
def Nested (outside : Nat) : List Activation → Prop
  | [] => True
  | activation :: callers =>
      activation.depth = outside + (callers.length + 1) ∧ Nested outside callers

/-- **The activations of a call are nested.** -/
theorem Visits.nested {state : State}
    (visits : Visits assembly bounds function arguments store state) :
    Nested store.depth state.activations := by
  induction visits with
  | entered enters =>
      obtain ⟨definition, -, -, -, rfl⟩ := enter_eq_ok enters
      exact ⟨rfl, trivial⟩
  | moved before moves nested =>
      cases moves with
      | onward executes =>
          have same := ((steady_next assembly).ok executes).depth
          exact ⟨same.trans nested.1, nested.2⟩
      | calls executes enters =>
          have evolves := (steady_next assembly).ok executes
          -- The count is taken when the callee is entered, so it includes the caller.
          have counted := evolves.count.trans before.counts
          obtain ⟨definition, -, -, -, rfl⟩ := enter_eq_ok enters
          exact ⟨congrArg (· + 1) counted, evolves.depth.trans nested.1, nested.2⟩
      | returns executes gives =>
          have same := ((steady_give _).ok gives).depth
          exact ⟨same.trans nested.2.1, nested.2.2⟩

/-- **Whether a property of activations is carried along**: it holds where a function is entered
from another one with arguments of the types of its parameters, and no operation and no result that
a callee gives takes it away. -/
structure Carried (assembly : Assembly) (bounds : Bounds) (outside : Nat)
    (holds : Activation → Prop) : Prop where
  /-- It holds where a function is entered from another one. -/
  enters {function depth : Nat} {arguments : List Value} {activation : Activation} :
    enter assembly bounds function arguments depth = .ok activation → outside < depth →
    arguments.map Value.type = activation.function.signature.params → holds activation
  -- Nothing is asked of a return: the activation that it leaves is never executed again.
  /-- Operations that do not return keep it. -/
  executes {earlier later : Running} {signal : Signal} :
    next assembly bounds earlier = .ok signal later → (∀ result, signal ≠ .done result) →
    holds earlier.activation → holds later.activation
  /-- Results of callees keep it. -/
  gives {earlier later : Running} {result : Option Value} :
    give bounds result earlier = .ok () later → holds earlier.activation → holds later.activation

/-- What running functions keep however they evolve is carried along. -/
theorem Carried.of_evolves {holds : Activation → Prop}
    (enters : ∀ {function depth arguments activation},
      enter assembly bounds function arguments depth = .ok activation → outside < depth →
      arguments.map Value.type = activation.function.signature.params → holds activation)
    (evolves : ∀ {earlier later : Running}, earlier.Evolves bounds later →
      holds earlier.activation → holds later.activation) :
    Carried assembly bounds outside holds where
  enters := enters
  executes equation _ := evolves ((steady_next assembly).ok equation)
  gives equation := evolves ((steady_give _).ok equation)

/-- **A property that is carried along holds of all activations of a call**, if it holds of the
first one. -/
theorem Visits.forall_activations {holds : Activation → Prop}
    (carried : Carried assembly bounds store.depth holds)
    (first : ∀ activation, enter assembly bounds function arguments store.depth = .ok activation →
      holds activation) {state : State}
    (visits : Visits assembly bounds function arguments store state) :
    ∀ activation ∈ state.activations, holds activation := by
  induction visits with
  | entered enters => exact List.forall_mem_singleton.mpr (first _ enters)
  | moved before moves all =>
      cases moves with
      | onward executes =>
          obtain ⟨inner, outer⟩ := List.forall_mem_cons.mp all
          have goesOn := carried.executes executes (fun _ => nofun) inner
          exact List.forall_mem_cons.mpr ⟨goesOn, outer⟩
      | calls executes enters =>
          obtain ⟨inner, outer⟩ := List.forall_mem_cons.mp all
          have caller := carried.executes executes (fun _ => nofun) inner
          have counted := ((steady_next assembly).ok executes).count.trans before.counts
          obtain ⟨signature, known, typed⟩ := proper_of_next executes
          rw [← signature_of_enter enters known] at typed
          -- The caller is counted, so the callee is not the outermost activation.
          have deeper := counted ▸ Nat.lt_add_of_pos_right (Nat.succ_pos _)
          have callee := carried.enters enters deeper typed
          exact List.forall_mem_cons.mpr ⟨callee, List.forall_mem_cons.mpr ⟨caller, outer⟩⟩
      | returns executes gives =>
          obtain ⟨-, outer⟩ := List.forall_mem_cons.mp all
          obtain ⟨caller, callers⟩ := List.forall_mem_cons.mp outer
          exact List.forall_mem_cons.mpr ⟨carried.gives gives caller, callers⟩

/-- What every activation starts with and keeps holds of all activations of a call. -/
theorem Visits.forall_of_evolves {holds : Activation → Prop}
    (starts : ∀ {function depth arguments activation},
      enter assembly bounds function arguments depth = .ok activation → holds activation)
    (evolves : ∀ {earlier later : Running}, earlier.Evolves bounds later →
      holds earlier.activation → holds later.activation) {state : State}
    (visits : Visits assembly bounds function arguments store state) :
    ∀ activation ∈ state.activations, holds activation :=
  visits.forall_activations (.of_evolves (fun enters _ _ => starts enters) evolves)
    fun _ enters => starts enters

/-- **The outermost activation of a call** is one of the function that is called. -/
theorem Visits.function_of_outermost {definition : Function}
    (known : assembly.function? function = some definition) {state : State}
    (visits : Visits assembly bounds function arguments store state) :
    ∀ activation ∈ state.activations, activation.depth = store.depth + 1 →
      activation.function = definition := by
  -- What is carried along has the depth for a condition, so that callees satisfy it trivially.
  refine visits.forall_activations (.of_evolves (fun enters inside _ outermost => ?_)
    fun evolves same outermost => ?_) fun activation enters _ => ?_
  · obtain ⟨callee, -, -, -, rfl⟩ := enter_eq_ok enters
    exact absurd (Nat.succ.inj outermost) (Nat.ne_of_gt inside)
  · exact evolves.function.trans (same (evolves.depth.symm.trans outermost))
  · obtain ⟨entered, found, -, -, rfl⟩ := enter_eq_ok enters
    exact Option.some.inj (found.symm.trans known)

/-- **A call that returns gives a value exactly if the function has a result**, and one of that
type. -/
theorem type_of_finished {steps : Nat} {signature : Signature} {result : Option Value}
    {last : Store} (known : assembly.signature? function = some signature)
    (returns : call assembly bounds steps function arguments store = .finished result last) :
    result.map Value.type = signature.result? := by
  rcases call_cases assembly bounds steps function arguments store with ⟨trap, refused⟩ |
    ⟨activation, enters, reaches⟩
  · rw [refused] at returns
    cases returns
  · have declared := signature_of_enter enters known
    obtain ⟨definition, found, -, -, rfl⟩ := enter_eq_ok enters
    rw [returns] at reaches
    obtain ⟨⟨running, callers⟩, visits, stepped⟩ := reaches
    have moves :
        Moves assembly bounds ⟨running, callers⟩ (step assembly bounds ⟨running, callers⟩) :=
      moves_step _
    rw [stepped] at moves
    -- The activation that returns has no callers, so its depth is that of the outermost one.
    obtain ⟨rfl, callee, executes, rfl⟩ := moves
    have same := visits.function_of_outermost found running.activation List.mem_cons_self
      visits.nested.1
    have proper : result.map Value.type = running.activation.function.signature.result? :=
      proper_of_next executes
    rw [proper, same, declared]

/-! ## Stores -/

/-- **Every activation of a call runs a function of the assembly.** -/
theorem Visits.mem_functions {state : State}
    (visits : Visits assembly bounds function arguments store state) :
    ∀ activation ∈ state.activations, activation.function ∈ assembly.functions := by
  refine visits.forall_of_evolves (fun enters => ?_) fun evolves member => evolves.function ▸ member
  obtain ⟨definition, found, -, -, rfl⟩ := enter_eq_ok enters
  exact mem_of_function? found

/-- **Whether the code of an assembly preserves a property of stores**: every operation of its
functions does, whether it succeeds or traps, and the property does not depend on the count of
activations. -/
structure Preserves (assembly : Assembly) (bounds : Bounds) (holds : Store → Prop) : Prop where
  /-- Operations preserve it. -/
  executes (running : Running) : running.activation.function ∈ assembly.functions →
    holds running.store → holds (leftBy (next assembly bounds running)).store
  /-- Calls and returns do. -/
  counts (store : Store) (depth : Nat) : holds store → holds { store with depth := depth }

namespace Preserves

variable {holds : Store → Prop}

/-- What every way of evolving preserves is preserved. -/
theorem of_evolves (evolves : ∀ {earlier later : Store}, earlier.Evolves later → holds earlier →
    holds later) : Preserves assembly bounds holds where
  executes running _ before := evolves ((steady_next assembly) running).store before
  counts store depth before :=
    have kept : store.Evolves { store with depth := depth } := ⟨rfl, rfl, .refl _⟩
    evolves kept before

/-- A step preserves what the code does. -/
theorem step (preserves : Preserves assembly bounds holds) {state : State}
    (visits : Visits assembly bounds function arguments store state)
    (before : holds state.running.store) : holds (Machine.step assembly bounds state).store := by
  obtain ⟨depth, same⟩ := @store_step assembly bounds state
  rw [same]
  refine preserves.counts _ depth ?_
  exact preserves.executes _ (visits.mem_functions _ List.mem_cons_self) before

/-- **What holds of the store before a call holds at every step in it.** -/
theorem visits (preserves : Preserves assembly bounds holds) (before : holds store) {state : State}
    (visits : Visits assembly bounds function arguments store state) :
    holds state.running.store := by
  induction visits with
  | entered enters => exact preserves.counts store (store.depth + 1) before
  | @moved earlier later visits moves holdsEarlier =>
      have after := preserves.step visits holdsEarlier
      rw [moves.step_eq] at after
      exact after

/-- **What holds of the store before a call holds of the one that it leaves**, whether the call
returns, traps or goes on. -/
theorem call (preserves : Preserves assembly bounds holds) (before : holds store) (steps : Nat) :
    holds (Machine.call assembly bounds steps function arguments store).store := by
  rcases call_cases assembly bounds steps function arguments store with ⟨trap, refused⟩ |
    ⟨activation, -, reaches⟩
  · rw [refused]
    exact before
  · cases ends : Machine.call assembly bounds steps function arguments store with
    | running state =>
        rw [ends] at reaches
        exact preserves.visits before reaches
    | finished result last =>
        rw [ends] at reaches
        obtain ⟨state, visits, stepped⟩ := reaches
        exact congrArg Progress.store stepped ▸
          preserves.step visits (preserves.visits before visits)
    | trapped trap last =>
        rw [ends] at reaches
        obtain ⟨state, visits, stepped⟩ := reaches
        exact congrArg Progress.store stepped ▸
          preserves.step visits (preserves.visits before visits)

end Preserves

/-- Evolving from a store is preserved. -/
theorem preserves_evolves (earlier : Store) : Preserves assembly bounds earlier.Evolves :=
  .of_evolves fun evolves before => before.trans evolves

/-- **The store in a call has evolved** from the one at its start. -/
theorem Visits.evolves {state : State}
    (visits : Visits assembly bounds function arguments store state) :
    store.Evolves state.running.store :=
  (preserves_evolves store).visits (.refl store) visits

end WasmCompiler.Machine
