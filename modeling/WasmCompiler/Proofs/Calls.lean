import WasmCompiler.Proofs.Arrivals
import WasmCompiler.Proofs.Scripts

/-! # Calls

A machine calls a function as its evaluation does: it finds the same function with the same
arguments, runs the operations of its code, and goes on in the caller with the same result.

* **`Program.CompilesTo`** — an assembly is the compiled form of a program;
* **`mirrors_body`** — a call up to its return;
* **`mirrors_invoke`** — a call by a running function. -/

namespace WasmCompiler

open Bytecode (Assembly Op)
open Emission hiding State
open Machine
open Machine.Execution
open Stateful

/-! ## Compiled programs -/

/-- **Whether an assembly is the compiled form of a program** whose signatures have at most one
result each. -/
structure Program.CompilesTo (program : Program) (assembly : Assembly) : Prop where
  /-- The signatures that type indices refer to. -/
  types : assembly.types = program.module.types
  /-- Signatures have at most one result. -/
  single : ∀ signature ∈ program.module.types, signature.results.length ≤ 1
  /-- The imported functions. -/
  imported : assembly.importedFunctions = program.module.importedFunctions
  /-- The signatures of functions. -/
  signatures : ∀ index, assembly.signature? index = program.module.signature? index
  /-- Functions that the program does not define. -/
  undefined : ∀ index, program.definition? index = none → assembly.function? index = none
  /-- Functions that the program defines. -/
  defined : ∀ index definition, program.definition? index = some definition →
    program.module.signature? index = some definition.signature ∧
      ∃ body : Body, definition.locals = body.locals ∧
        definition.tree.violation? ⟨program.module, index, definition.signature, body⟩ = none ∧
        assembly.function? index =
          some (Site.function ⟨program.module, index, definition.signature, body⟩ definition.tree)

namespace Program.CompilesTo

variable {program : Program} {assembly : Assembly} {bounds : Bounds}

/-- Functions have at most one result. -/
theorem single_of_signature? (compiled : program.CompilesTo assembly) {index : Nat}
    {signature : Signature} (found : program.module.signature? index = some signature) :
    signature.results.length ≤ 1 := by
  unfold Module.signature? at found
  obtain ⟨typeIndex, -, declared⟩ := Option.bind_eq_some_iff.mp found
  exact compiled.single signature (List.mem_of_getElem? declared)

/-! ## Finding the callee -/

/-- A direct call finds the same function. -/
theorem execute_call (compiled : program.CompilesTo assembly) (function : Nat) :
    execute assembly bounds (.call function) =
      program.direct function >>= fun (function, arguments) => pure (.call function arguments) := by
  unfold Program.direct
  rw [execute, compiled.signatures]
  cases program.module.signature? function with
  | none => rfl
  | some signature => simp only [prepareCall_eq, bind_assoc, pure_bind]

/-- A call through the table finds the same function. -/
theorem execute_callIndirect (compiled : program.CompilesTo assembly) (typeIndex : Nat) :
    execute assembly bounds (.callIndirect typeIndex) =
      program.indirect typeIndex >>= fun (function, arguments) =>
        pure (.call function arguments) := by
  unfold Program.indirect
  rw [execute, prepareIndirectCall, compiled.types]
  cases program.module.types[typeIndex]? with
  | none => rfl
  | some expected =>
      simp only [bind_assoc]
      refine bind_congr fun selector => bind_congr fun function => ?_
      rw [compiled.signatures]
      by_cases same : program.module.signature? function = some expected
      · simp only [if_pos same, prepareCall_eq, bind_assoc, pure_bind]
      · simp only [if_neg same]
        rfl

end Program.CompilesTo

namespace Program

/-- A direct call calls a function of the signature that it names. -/
theorem signature?_of_direct (program : Program) {index function : Nat} {signature : Signature}
    (found : program.module.signature? index = some signature) {running later : Running}
    {arguments : List Value}
    (chosen : program.direct index running = .ok (function, arguments) later) :
    program.module.signature? function = some signature := by
  unfold Program.direct at chosen
  rw [found] at chosen
  obtain ⟨taken, middle, -, equation⟩ := bind_eq_ok.mp chosen
  cases equation
  exact found

/-- A call through the table calls a function of the signature that it names. -/
theorem signature?_of_indirect (program : Program) {typeIndex function : Nat}
    {signature : Signature} (found : program.module.types[typeIndex]? = some signature)
    {running later : Running} {arguments : List Value}
    (chosen : program.indirect typeIndex running = .ok (function, arguments) later) :
    program.module.signature? function = some signature := by
  unfold Program.indirect at chosen
  rw [found] at chosen
  obtain ⟨selector, popped, -, chosen⟩ := bind_eq_ok.mp chosen
  obtain ⟨index, looked, -, chosen⟩ := bind_eq_ok.mp chosen
  by_cases same : program.module.signature? index = some signature
  · rw [if_pos same] at chosen
    obtain ⟨taken, middle, -, equation⟩ := bind_eq_ok.mp chosen
    cases equation
    exact same
  · rw [if_neg same] at chosen
    cases chosen

end Program

namespace Program.CompilesTo

variable {program : Program} {assembly : Assembly} {bounds : Bounds}

/-! ## Entering the callee -/

/-- A call that fails to enter a function fails in the same way. -/
theorem enter_error (compiled : program.CompilesTo assembly) {function depth : Nat}
    {arguments : List Value} {trap : Trap}
    (failed : program.enter bounds function arguments depth = .error trap) :
    Machine.enter assembly bounds function arguments depth = .error trap := by
  unfold Program.enter at failed
  unfold Machine.enter Assembly.importedFunction?
  rw [compiled.imported]
  cases imported : program.module.importedFunctions[function]? with
  | some entry =>
      rw [imported] at failed
      cases failed
      rfl
  | none =>
      simp only [imported] at failed ⊢
      cases known : program.definition? function with
      | none =>
          rw [known] at failed
          rw [compiled.undefined function known]
          cases failed
          rfl
      | some definition =>
          obtain ⟨-, body, -, -, found⟩ := compiled.defined function definition known
          simp only [known] at failed
          simp only [found]
          split at failed
          · cases failed
          · next deep =>
              rw [if_neg deep]
              cases failed
              rfl

/-- **A call that enters a function** enters its compiled form. -/
theorem enter_ok (compiled : program.CompilesTo assembly) {function depth : Nat}
    {arguments : List Value} {activation : Activation} {tree : Code 0}
    (entered : program.enter bounds function arguments depth = .ok (activation, tree)) :
    ∃ site : Site, site.module = program.module ∧
      program.module.signature? function = some site.signature ∧
      program.definition? function = some ⟨site.signature, site.body.locals, tree⟩ ∧
      activation.function.signature = site.signature ∧
      activation.stack = .empty ∧ tree.violation? site = none ∧
      ∀ store, Machine.enter assembly bounds function arguments depth =
        .ok ((⟨activation, store⟩ : Running).at (site.function tree).code 0).activation := by
  unfold Program.enter at entered
  unfold Machine.enter Assembly.importedFunction?
  rw [compiled.imported]
  cases imported : program.module.importedFunctions[function]? with
  | some entry =>
      rw [imported] at entered
      cases entered
  | none =>
      simp only [imported] at entered ⊢
      cases known : program.definition? function with
      | none =>
          rw [known] at entered
          cases entered
      | some definition =>
          obtain ⟨declared, body, locals, allowed, found⟩ :=
            compiled.defined function definition known
          simp only [known] at entered
          simp only [found]
          split at entered
          · next shallow =>
              cases entered
              refine ⟨⟨program.module, function, definition.signature, body⟩, rfl, declared, ?_,
                rfl, rfl, allowed, fun store => ?_⟩
              · rw [← locals]
              · rw [if_pos shallow, locals]
                rfl
          · cases entered

end Program.CompilesTo

/-! ## The body of the callee -/

/-- **Whether a machine follows the evaluation** of a program within some depth of loops and calls,
wherever code is situated. -/
def Program.Tracked (program : Program) (assembly : Assembly) (bounds : Bounds) (fuel : Nat) :
    Prop :=
  ∀ (call : Call) (depth : Nat) (tree : Code depth) (scope : Scope depth) (stage : Stage)
    (position goal : Nat) (running : Running),
    call.site.module = program.module → Situated call tree scope stage position goal →
    call.Runs running → running.height = stage.height →
    Mirrors assembly bounds call.callers fuel (call.state running position)
      (program.evaluate bounds fuel tree running)
      (Arrives call scope ((tree.draft call.site scope stage).ending position) goal)

variable {program : Program} {assembly : Assembly} {bounds : Bounds} {fuel : Nat}

/-- The code of a function is situated at the start of its compiled form. -/
theorem situated_function {site : Site} {tree : Code 0} {index : Nat} (callers : List Activation)
    (balanced : program.Balanced) (module : site.module = program.module)
    (known : program.definition? index = some ⟨site.signature, site.body.locals, tree⟩)
    (allowed : tree.violation? site = none) :
    Situated ⟨site, (site.function tree).code, placeIn (site.draft tree).directives, callers⟩ tree
        .outermost ⟨0, 0, true⟩ 0 site.signature.results.length ∧
      (site.function tree).code[(tree.draft site .outermost ⟨0, 0, true⟩).ending 0]? =
        some .ret := by
  obtain ⟨realized, found, -⟩ := realizes_append.mp (Bytecode.realizes_ofDirectives site.index
    site.signature site.body.locals (site.disciplined_draft tree))
  refine ⟨⟨rfl, fun level => level.elim0, Nat.le_refl 0, ?_, allowed, realized⟩, found⟩
  have balancedTree := balanced index _ known
  have same : (fun level : Fin 0 => (Scope.outermost.landing level).keep) =
      fun level => level.elim0 := funext fun level => level.elim0
  rw [module, same]
  exact balancedTree

/-- **A call up to its return.** -/
theorem mirrors_body (compiled : program.CompilesTo assembly) (balanced : program.Balanced)
    (tracked : program.Tracked assembly bounds fuel) {function depth : Nat}
    {arguments : List Value} {activation : Activation} {tree : Code 0}
    (entered : program.enter bounds function arguments depth = .ok (activation, tree))
    (store : Store) (callers : List Activation) :
    ∃ next signature, Machine.enter assembly bounds function arguments depth = .ok next ∧
      program.module.signature? function = some signature ∧
      Mirrors assembly bounds callers fuel ⟨⟨next, store⟩, callers⟩
        (program.evaluate bounds fuel tree ⟨activation, store⟩) fun _ last _ final =>
          last.activation.function.signature = signature ∧
            step assembly bounds final = returnTo bounds callers (takeResult last) := by
  obtain ⟨site, module, declared, known, runs, empty, allowed, enters⟩ :=
    compiled.enter_ok entered
  obtain ⟨situated, found⟩ := situated_function callers balanced module known allowed
  refine ⟨_, site.signature, enters store, declared, ?_⟩
  have height : (⟨activation, store⟩ : Running).height = 0 := by
    rw [Running.height, empty]
    rfl
  refine (tracked _ 0 tree _ _ _ _ ⟨activation, store⟩ module situated runs height).weaken
    (Nat.le_refl _) ?_
  rintro exit last steps final ⟨lastRuns, arrives⟩
  refine ⟨lastRuns, ?_⟩
  -- Both ways out of a body return: falling off its end, and a return inside.
  match exit, arrives with
  | .next, ⟨_, equation⟩ =>
      rw [equation]
      exact step_ret found
  | .branch level, _ => exact level.elim0
  | .ret, ⟨position, there, equation⟩ =>
      rw [equation]
      exact step_ret there

/-! ## The return to the caller -/

/-- A function gives as many results as its signature says. -/
theorem length_of_takeResult {signature : Signature} (single : signature.results.length ≤ 1)
    {running later : Running} {result : Option Value}
    (runs : running.activation.function.signature = signature)
    (equation : takeResult running = .ok result later) :
    result.toList.length = signature.results.length := by
  rw [takeResult, bind_of_ok _ (get_apply _), runs] at equation
  obtain ⟨params, results⟩ := signature
  match results, single with
  | [], _ =>
      cases equation
      rfl
  | [type], _ =>
      obtain ⟨value, middle, -, equation⟩ := bind_eq_ok.mp equation
      by_cases same : value.type = type
      · have done : (pure (some value) : Execution (Option Value)) middle = .ok result later := by
          rwa [if_pos same] at equation
        cases done
        rfl
      · have failed : (throw (.typeMismatch type) : Execution (Option Value)) middle =
            .ok result later := by
          rwa [if_neg same] at equation
        cases failed

/-- Going on in the caller gives it the result. -/
theorem resume_eq (result : Option Value) (store : Store) (caller : Running)
    (code : Array (Op Nat)) (position : Nat) (callers : List Activation) :
    resume bounds result store (caller.at code position).activation callers =
      arrive code (fun _ => position) callers (give bounds result ⟨caller.activation, store⟩) := by
  cases result with
  | none => rfl
  | some value =>
      have relocates := (local_push bounds value).relocates ⟨caller.activation, store⟩ code position
      have here : (⟨(caller.at code position).activation, store⟩ : Running) =
          (⟨caller.activation, store⟩ : Running).at code position := rfl
      rw [resume, here]
      simp only [relocates, give]
      cases push bounds value ⟨caller.activation, store⟩ <;> rfl

/-- What is left of a call after its return: the result for the caller. -/
theorem mirrors_return {code : Array (Op Nat)} {position least : Nat} {callers : List Activation}
    {caller last : Running} {state : State}
    (returns : step assembly bounds state =
      returnTo bounds ((caller.at code position).activation :: callers) (takeResult last)) :
    Mirrors assembly bounds callers least state
      ((Evaluation.ofExecution takeResult last).countDown.andThen fun result later =>
        .ofExecution (give bounds result) ⟨caller.activation, later.store⟩)
      fun _ final _ reached => ∃ result later, takeResult last = .ok result later ∧
        give bounds result ⟨caller.activation, later.store.countDown⟩ = .ok () final ∧
          reached = ⟨final.at code position, callers⟩ := by
  unfold Evaluation.ofExecution
  cases taken : takeResult last with
  | error trap later =>
      rw [taken] at returns
      have traps : step assembly bounds state = raise trap later.store.countDown callers := returns
      exact ⟨1, run_of_raise rfl traps⟩
  | ok result later =>
      rw [taken] at returns
      have resumes : step assembly bounds state =
          arrive code (fun _ => position) callers
            (give bounds result ⟨caller.activation, later.store.countDown⟩) :=
        returns.trans (resume_eq result later.store.countDown caller code position callers)
      refine (Mirrors.ofStep resumes).weaken (Nat.le_refl _) ?_
      rintro ⟨⟩ final steps reached ⟨gives, -, equation⟩
      exact ⟨result, later, rfl, gives, equation⟩

/-- **What a callee does before its return** is followed as well as what the caller does after it. A
trap of the callee goes through the caller, so it takes one more activation off the count. -/
theorem mirrors_callee {α β γ : Type} {least : Nat} {state : State} {caller : Activation}
    {callers : List Activation} {evaluation : Evaluation α}
    {meets : α → Running → Nat → State → Prop} {second : α → Running → Evaluation β}
    {third : β → Running → Evaluation γ} {goal : γ → Running → Nat → State → Prop}
    (mirrors : Mirrors assembly bounds (caller :: callers) least state evaluation meets)
    (onward : ∀ value running steps later, meets value running steps later →
      Mirrors assembly bounds callers (least - steps) later
        ((second value running).countDown.andThen third)
        fun result last more final => goal result last (steps + more) final) :
    Mirrors assembly bounds callers least state
      ((evaluation.andThen second).countDown.andThen third) goal := by
  cases evaluation with
  | ended value running =>
      obtain ⟨steps, later, reaches, met⟩ := mirrors
      exact Mirrors.after reaches (onward value running steps later met)
  | trapped trap store => exact mirrors
  | unfinished => exact mirrors

/-- **A call by a running function.** -/
theorem mirrors_invoke (compiled : program.CompilesTo assembly) (balanced : program.Balanced)
    (tracked : program.Tracked assembly bounds fuel) {op : Op Nat}
    {callee : Execution (Nat × List Value)} {takes : Nat} {signature : Signature}
    {code : Array (Op Nat)} {position : Nat} {running : Running} {callers : List Activation}
    (found : code[position]? = some op) (local_callee : Local callee)
    (executes : execute assembly bounds op =
      callee >>= fun (function, arguments) => pure (.call function arguments))
    (names : ∀ {later function arguments}, callee running = .ok (function, arguments) later →
      program.module.signature? function = some signature)
    (shifts : Shifts takes 0 callee) :
    Mirrors assembly bounds callers (fuel + 1) ⟨running.at code position, callers⟩
      (program.invoke bounds (program.evaluate bounds fuel) callee running) fun _ later _ final =>
        later.activation.function = running.activation.function ∧
          later.height + takes = running.height + signature.results.length ∧
            final = ⟨later.at code (position + 1), callers⟩ := by
  have calls : step assembly bounds ⟨running.at code position, callers⟩ = _ :=
    step_call found local_callee executes
  unfold Program.invoke Program.resultOf
  rw [Evaluation.ofExecution]
  cases chosen : callee running with
  | error trap later =>
      rw [chosen] at calls
      exact ⟨1, run_of_raise rfl calls⟩
  | ok target caller =>
      obtain ⟨function, arguments⟩ := target
      rw [chosen] at calls
      simp only [Evaluation.andThen, callFrom] at calls ⊢
      cases entered : program.enter bounds function arguments caller.store.depth with
      | error trap =>
          rw [compiled.enter_error entered] at calls
          exact ⟨1, run_of_raise rfl calls⟩
      | ok entry =>
          -- The callee runs above the caller; its result goes back when its last state returns.
          obtain ⟨activation, tree⟩ := entry
          obtain ⟨next, declared, enters, named, body⟩ := mirrors_body compiled balanced tracked
            entered caller.store.countUp ((caller.at code (position + 1)).activation :: callers)
          have same : declared = signature :=
            Option.some.inj (named.symm.trans (names chosen))
          subst same
          rw [enters] at calls
          refine Mirrors.after (run_one calls) ?_
          refine mirrors_callee body ?_
          rintro _ last steps state ⟨runs, returns⟩
          refine (mirrors_return returns).weaken (Nat.le_refl _) ?_
          rintro ⟨⟩ final more reached ⟨result, later, taken, gives, equation⟩
          have single := compiled.single_of_signature? named
          have count := length_of_takeResult single runs taken
          have given := shifts_give bounds result _ _ _ gives
          have before := shifts running caller (function, arguments) chosen
          have stays : caller.activation.function = running.activation.function :=
            local_callee.steady chosen
          refine ⟨((local_give bounds result).steady gives).trans stays, ?_, equation⟩
          have height : (⟨caller.activation, later.store.countDown⟩ : Running).height =
              caller.height := rfl
          omega

end WasmCompiler
