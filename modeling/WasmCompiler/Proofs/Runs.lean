import WasmCompiler.Proofs.Assembling
import WasmCompiler.Proofs.Heights

/-! # Runs of realized code

What a machine does at a position of the code of its function, operation by operation. The running
function is given without its code and its position, which the machine adds.

* **`holds_run`** — what every step preserves, a run preserves;
* **`raise_eq`** — a trap ends the run, and takes the activations off the count;
* **`step_jump`**, **`step_jumpIf`**, **`step_switch`** — branches;
* **`Mirrors`** — a machine does what an evaluation says;
* **`mirrors_operations`** — operations that neither branch nor call. -/

namespace WasmCompiler.Machine

open Bytecode (Assembly Op)
open Emission (Directive Realizes operations emitted realizes_append emitted_operations)
open Stateful
open Execution

variable {assembly : Assembly} {bounds : Bounds} {code : Array (Op Nat)} {position : Nat}
  {running : Running} {callers : List Activation}

/-! ## Runs -/

/-- A run goes on from where its first part ends. -/
theorem run_of_running {steps : Nat} {state middle : State}
    (reaches : run assembly bounds steps state = .running middle) (more : Nat) :
    run assembly bounds (steps + more) state = run assembly bounds more middle := by
  induction steps generalizing state with
  | zero =>
      cases reaches
      rw [Nat.zero_add]
  | succ steps stepsInduction =>
      rw [Nat.succ_add, run]
      rw [run] at reaches
      cases equation : step assembly bounds state with
      | running next =>
          rw [equation] at reaches
          exact stepsInduction reaches
      | finished result store =>
          rw [equation] at reaches
          cases reaches
      | trapped trap store =>
          rw [equation] at reaches
          cases reaches

/-- Whether a run has ended. -/
def Progress.isEnded : Progress → Bool
  | .running _ => false
  | .finished _ _ | .trapped _ _ => true

/-- A run that has ended stays so. -/
theorem run_of_ended {steps : Nat} {state : State} {progress : Progress}
    (ends : run assembly bounds steps state = progress) (ended : progress.isEnded = true)
    (more : Nat) : run assembly bounds (steps + more) state = progress := by
  induction steps generalizing state with
  | zero =>
      cases ends
      cases ended
  | succ steps stepsInduction =>
      rw [Nat.succ_add, run]
      rw [run] at ends
      cases equation : step assembly bounds state with
      | running next =>
          rw [equation] at ends
          exact stepsInduction ends
      | finished result store =>
          rw [equation] at ends
          exact ends
      | trapped trap store =>
          rw [equation] at ends
          exact ends

/-- The last step of a run. -/
theorem run_of_step {steps : Nat} {state middle : State} {progress : Progress}
    (reaches : run assembly bounds steps state = .running middle)
    (equation : step assembly bounds middle = progress) (ended : progress.isEnded = true) :
    run assembly bounds (steps + 1) state = progress := by
  rw [run_of_running reaches, run, equation]
  cases progress with
  | running later => cases ended
  | finished result last => rfl
  | trapped trap last => rfl

/-- A run of one step. -/
theorem run_one {state next : State} (equation : step assembly bounds state = .running next) :
    run assembly bounds 1 state = .running next := by
  rw [run, equation]
  rfl

/-- **What every step preserves, a run preserves**, whether it goes on or ends. -/
theorem holds_run {holds : Progress → Prop}
    (preserves : ∀ state, holds (.running state) → holds (step assembly bounds state)) (steps : Nat)
    {state : State} (before : holds (.running state)) :
    holds (run assembly bounds steps state) := by
  -- A run steps first and then goes on, so the state it starts from varies in the induction.
  induction steps generalizing state with
  | zero => exact before
  | succ steps stepsInduction =>
      have after := preserves state before
      rw [run]
      cases stepped : step assembly bounds state with
      | running later =>
          rw [stepped] at after
          exact stepsInduction after
      | finished result last =>
          rw [stepped] at after
          exact after
      | trapped trap last =>
          rw [stepped] at after
          exact after

/-! ## Traps -/

/-- The store without some of the activations in its count. -/
def Store.uncount (store : Store) (activations : Nat) : Store :=
  { store with depth := store.depth - activations }

/-- **A trap ends the run**, and takes as many activations off the count as it goes through. -/
theorem raise_eq (trap : Trap) (store : Store) (callers : List Activation) :
    raise trap store callers = .trapped trap (store.uncount (callers.length + 1)) := by
  induction callers generalizing store with
  | nil => rfl
  | cons caller callers callersInduction =>
      have together : store.countDown.uncount (callers.length + 1) =
          store.uncount ((caller :: callers).length + 1) := by
        simp only [Store.uncount, Store.countDown, List.length_cons, Nat.sub_sub, Nat.add_comm]
      rw [raise, callersInduction, together]

/-- A run whose last step traps. -/
theorem run_of_raise {steps : Nat} {state middle : State} {trap : Trap} {store : Store}
    (reaches : run assembly bounds steps state = .running middle)
    (traps : step assembly bounds middle = raise trap store callers) :
    run assembly bounds (steps + 1) state = raise trap store callers := by
  rw [raise_eq] at traps ⊢
  exact run_of_step reaches traps rfl

/-! ## Operations -/

/-- The next operation runs with the position after it. -/
theorem next_apply {op : Op Nat} (found : code[position]? = some op) :
    next assembly bounds (running.at code position) =
      execute assembly bounds op (running.at code (position + 1)) := by
  rw [next, bind_of_ok _ (get_apply _)]
  have here : (running.at code position).activation.function.code[
      (running.at code position).activation.position]? = some op := found
  rw [here]
  rfl

/-- The step of a machine at an operation. -/
theorem step_apply {op : Op Nat} (found : code[position]? = some op) :
    step assembly bounds ⟨running.at code position, callers⟩ =
      obey assembly bounds callers
        (execute assembly bounds op (running.at code (position + 1))) := by
  rw [step, next_apply found]

/-- What a machine does after an action whose outcome says where to go. -/
def arrive {α : Type} (code : Array (Op Nat)) (target : α → Nat) (callers : List Activation) :
    EStateM.Result Trap Running α → Progress
  | .ok value later => .running ⟨later.at code (target value), callers⟩
  | .error trap later => raise trap later.store callers

/-- The step at an operation that neither branches nor calls. -/
theorem step_straight {op : Op Nat} (found : code[position]? = some op)
    (straight : op.isStraight = true) :
    step assembly bounds ⟨running.at code position, callers⟩ =
      arrive code (fun _ => position + 1) callers (effect bounds op running) := by
  have executes : execute assembly bounds op = effect bounds op >>= fun _ => pure .next := by
    cases op <;> first | rfl | cases straight
  rw [step_apply found, executes, bind_apply, (local_effect bounds straight).relocates]
  cases effect bounds op running <;> rfl

/-- The step at a branch. -/
theorem step_jump {target : Nat} (found : code[position]? = some (.jump target)) :
    step assembly bounds ⟨running.at code position, callers⟩ =
      .running ⟨running.at code target, callers⟩ := by
  rw [step_apply found]
  rfl

/-- The step at a branch that is taken if an operand is not zero. -/
theorem step_jumpIf {target : Nat} (found : code[position]? = some (.jumpIf target)) :
    step assembly bounds ⟨running.at code position, callers⟩ =
      arrive code (fun condition => if condition ≠ 0 then target else position + 1) callers
        (popI32 running) := by
  have executes : execute assembly bounds (.jumpIf target) =
      popI32 >>= fun condition => (if condition ≠ 0 then jump target else pure ()) >>= fun _ =>
        pure .next := by
    simp only [execute, effect, bind_assoc]
  rw [step_apply found, executes, bind_apply, local_popI32.relocates]
  cases popI32 running with
  | error trap later => rfl
  | ok condition later =>
      simp only [relocate, arrive]
      by_cases taken : condition ≠ 0
      · simp only [if_pos taken]
        rfl
      · simp only [if_neg taken]
        rfl

/-- The step at a branch that is taken if an operand is zero. -/
theorem step_jumpUnless {target : Nat} (found : code[position]? = some (.jumpUnless target)) :
    step assembly bounds ⟨running.at code position, callers⟩ =
      arrive code (fun condition => if condition ≠ 0 then position + 1 else target) callers
        (popI32 running) := by
  have executes : execute assembly bounds (.jumpUnless target) =
      popI32 >>= fun condition => (if condition = 0 then jump target else pure ()) >>= fun _ =>
        pure .next := by
    simp only [execute, effect, bind_assoc]
  rw [step_apply found, executes, bind_apply, local_popI32.relocates]
  cases popI32 running with
  | error trap later => rfl
  | ok condition later =>
      simp only [relocate, arrive]
      by_cases zero : condition = 0
      · rw [if_neg (not_not_intro zero)]
        simp only [if_pos zero]
        rfl
      · rw [if_pos zero]
        simp only [if_neg zero]
        rfl

/-- The step at a branch by selector. -/
theorem step_switch {targets : List Nat} {fallback : Nat}
    (found : code[position]? = some (.switch targets fallback)) :
    step assembly bounds ⟨running.at code position, callers⟩ =
      arrive code (fun selector => targets[selector.toNat]?.getD fallback) callers
        (popI32 running) := by
  have executes : execute assembly bounds (.switch targets fallback) =
      popI32 >>= fun selector => jump (targets[selector.toNat]?.getD fallback) >>= fun _ =>
        pure .next := by
    simp only [execute, effect, bind_assoc]
  rw [step_apply found, executes, bind_apply, local_popI32.relocates]
  cases popI32 running <;> rfl

/-! ## Calls and returns -/

/-- What a machine does after a function has returned. -/
def returnTo (bounds : Bounds) (callers : List Activation) :
    EStateM.Result Trap Running (Option Value) → Progress
  | .error trap later => raise trap later.store callers
  | .ok result later =>
      match callers with
      | [] => .finished result later.store.countDown
      | caller :: callers => resume bounds result later.store.countDown caller callers

/-- Finishing takes the result. -/
theorem finish_eq : finish = takeResult >>= fun result => pure (.done result) := by
  unfold finish takeResult
  rw [bind_assoc]
  refine bind_congr fun running => ?_
  cases running.activation.function.signature.result? with
  | none => rfl
  | some type =>
      simp only [bind_assoc]
      refine bind_congr fun value => ?_
      by_cases same : value.type = type
      · simp only [if_pos same, pure_bind]
      · simp only [if_neg same, bind_assoc, pure_bind]

/-- Preparing a call takes the arguments. -/
theorem prepareCall_eq (function : Nat) (signature : Signature) :
    prepareCall function signature =
      takeArguments signature >>= fun arguments => pure (.call function arguments) := by
  unfold prepareCall takeArguments
  rw [bind_assoc]
  refine bind_congr fun running => ?_
  by_cases short : running.activation.stack.height < signature.params.length
  · simp only [if_pos short, bind_assoc, pure_bind]
  · simp only [if_neg short, bind_assoc, pure_bind]

/-- The step at a return. -/
theorem step_ret (found : code[position]? = some .ret) :
    step assembly bounds ⟨running.at code position, callers⟩ =
      returnTo bounds callers (takeResult running) := by
  have executes : execute assembly bounds .ret =
      takeResult >>= fun result => pure (.done result) := finish_eq
  rw [step_apply found, executes, bind_apply, local_takeResult.relocates]
  cases takeResult running with
  | error trap later => rfl
  | ok result later => cases callers <;> rfl

/-- What a machine does after the callee and its arguments have been found. -/
def callFrom (assembly : Assembly) (bounds : Bounds) (code : Array (Op Nat)) (position : Nat)
    (callers : List Activation) : EStateM.Result Trap Running (Nat × List Value) → Progress
  | .error trap later => raise trap later.store callers
  | .ok (function, arguments) later =>
      match enter assembly bounds function arguments later.store.depth with
      | .error trap => raise trap later.store callers
      | .ok activation =>
          .running
            ⟨⟨activation, later.store.countUp⟩, (later.at code position).activation :: callers⟩

/-- The step at a call. -/
theorem step_call {op : Op Nat} {callee : Execution (Nat × List Value)}
    (found : code[position]? = some op) (local_callee : Local callee)
    (executes : execute assembly bounds op =
      callee >>= fun (function, arguments) => pure (.call function arguments)) :
    step assembly bounds ⟨running.at code position, callers⟩ =
      callFrom assembly bounds code (position + 1) callers (callee running) := by
  rw [step_apply found, executes, bind_apply, local_callee.relocates]
  cases callee running with
  | error trap later => rfl
  | ok chosen later => rfl

end WasmCompiler.Machine

/-- Operations without targets stay what they are. -/
theorem WasmCompiler.Bytecode.Op.relabel_of_isStraight {place : Nat → Nat} {op : Op Nat}
    (straight : op.isStraight = true) : op.relabel place = op := by
  cases op <;> first | rfl | cases straight

namespace WasmCompiler.Machine

open Bytecode (Assembly Op)
open Emission (Realizes operations)
open Stateful
open Execution

variable {assembly : Assembly} {bounds : Bounds} {code : Array (Op Nat)} {position : Nat}
  {running : Running} {callers : List Activation}

/-! ## Following an evaluation -/

/-- **Whether a machine does what an evaluation says**: it gets to a state that meets the end of the
evaluation in some number of steps, or traps as the evaluation does, which goes through the callers,
or runs for as many steps as asked at least if the evaluation is not finished. -/
def Mirrors (assembly : Assembly) (bounds : Bounds) (callers : List Activation) (least : Nat)
    (state : State) {α : Type} (evaluation : Evaluation α)
    (meets : α → Running → (steps : Nat) → State → Prop) : Prop :=
  match evaluation with
  | .ended value running =>
      ∃ steps later,
        run assembly bounds steps state = .running later ∧ meets value running steps later
  | .trapped trap store => ∃ steps, run assembly bounds steps state = raise trap store callers
  | .unfinished => ∃ steps later, least ≤ steps ∧ run assembly bounds steps state = .running later

namespace Mirrors

variable {α β : Type} {least : Nat} {state : State} {evaluation : Evaluation α}
  {meets : α → Running → Nat → State → Prop}

/-- What ends at once is met where the machine is. -/
theorem here {value : α} (met : meets value running 0 state) :
    Mirrors assembly bounds callers least state (.ended value running) meets :=
  ⟨0, state, rfl, met⟩

/-- A machine may make more steps after the end. -/
theorem onward (mirrors : Mirrors assembly bounds callers least state evaluation meets)
    {goal : α → Running → Nat → State → Prop}
    (reaches : ∀ value running steps middle, meets value running steps middle →
      ∃ more final, run assembly bounds more middle = .running final ∧
        goal value running (steps + more) final) :
    Mirrors assembly bounds callers least state evaluation goal := by
  cases evaluation with
  | ended value running =>
      obtain ⟨steps, middle, first, met⟩ := mirrors
      obtain ⟨more, final, second, reached⟩ := reaches _ _ _ _ met
      exact ⟨steps + more, final, (run_of_running first more).trans second, reached⟩
  | trapped trap store => exact mirrors
  | unfinished => exact mirrors

/-- A machine may be asked for fewer steps, and for less at the end. -/
theorem weaken (mirrors : Mirrors assembly bounds callers least state evaluation meets)
    {fewer : Nat} {weaker : α → Running → Nat → State → Prop} (less : fewer ≤ least)
    (implies : ∀ value running steps later, meets value running steps later →
      weaker value running steps later) :
    Mirrors assembly bounds callers fewer state evaluation weaker := by
  cases evaluation with
  | ended value running =>
      obtain ⟨steps, later, reaches, met⟩ := mirrors
      exact ⟨steps, later, reaches, implies _ _ _ _ met⟩
  | trapped trap store => exact mirrors
  | unfinished =>
      obtain ⟨steps, later, enough, reaches⟩ := mirrors
      exact ⟨steps, later, Nat.le_trans less enough, reaches⟩

/-- The end that a machine meets is that of the evaluation. -/
theorem known (mirrors : Mirrors assembly bounds callers least state evaluation meets) :
    Mirrors assembly bounds callers least state evaluation fun value running steps later =>
      evaluation = .ended value running ∧ meets value running steps later := by
  cases evaluation with
  | ended value running =>
      obtain ⟨steps, later, reaches, met⟩ := mirrors
      exact ⟨steps, later, reaches, rfl, met⟩
  | trapped trap store => exact mirrors
  | unfinished => exact mirrors

/-- A machine that has made some steps goes on as the evaluation says. -/
theorem after {steps : Nat} {middle : State}
    (reaches : run assembly bounds steps state = .running middle)
    (mirrors : Mirrors assembly bounds callers (least - steps) middle evaluation
      fun value running more later => meets value running (steps + more) later) :
    Mirrors assembly bounds callers least state evaluation meets := by
  cases evaluation with
  | ended value running =>
      obtain ⟨more, later, onward, met⟩ := mirrors
      exact ⟨steps + more, later, (run_of_running reaches more).trans onward, met⟩
  | trapped trap store =>
      obtain ⟨more, onward⟩ := mirrors
      exact ⟨steps + more, (run_of_running reaches more).trans onward⟩
  | unfinished =>
      obtain ⟨more, later, enough, onward⟩ := mirrors
      exact ⟨steps + more, later, by omega, (run_of_running reaches more).trans onward⟩

/-- **Evaluations one after the other** are followed one after the other. -/
theorem andThen (mirrors : Mirrors assembly bounds callers least state evaluation meets)
    {second : α → Running → Evaluation β} {goal : β → Running → Nat → State → Prop}
    (onward : ∀ value running steps later, meets value running steps later →
      Mirrors assembly bounds callers (least - steps) later (second value running)
        fun result last more final => goal result last (steps + more) final) :
    Mirrors assembly bounds callers least state (evaluation.andThen second) goal := by
  cases evaluation with
  | ended value running =>
      obtain ⟨steps, later, reaches, met⟩ := mirrors
      exact after reaches (onward value running steps later met)
  | trapped trap store => exact mirrors
  | unfinished => exact mirrors

/-- An action is followed by one step that does it. -/
theorem ofStep {action : Execution α} {target : α → Nat}
    (equation : step assembly bounds state = arrive code target callers (action running)) :
    Mirrors assembly bounds callers least state (.ofExecution action running)
      fun value later steps final =>
        action running = .ok value later ∧ steps = 1 ∧
          final = ⟨later.at code (target value), callers⟩ := by
  unfold Evaluation.ofExecution
  cases outcome : action running with
  | ok value later =>
      rw [outcome] at equation
      exact ⟨1, _, run_one equation, rfl, rfl, rfl⟩
  | error trap later =>
      rw [outcome] at equation
      exact ⟨1, run_of_raise rfl equation⟩

end Mirrors

/-- An action is evaluated to an end exactly if it succeeds. -/
theorem ofExecution_eq_ended {α : Type} {action : Execution α} {running later : Running}
    {value : α} :
    Evaluation.ofExecution action running = .ended value later ↔
      action running = .ok value later := by
  unfold Evaluation.ofExecution
  cases action running <;> simp

/-- Actions one after the other are evaluated one after the other. -/
theorem ofExecution_bind {α β : Type} (first : Execution α) (second : α → Execution β)
    (running : Running) :
    Evaluation.ofExecution (first >>= second) running =
      (Evaluation.ofExecution first running).andThen fun value =>
        .ofExecution (second value) := by
  unfold Evaluation.ofExecution Evaluation.andThen
  rw [bind_apply]
  cases first running <;> rfl

/-! ## Operations that neither branch nor call -/

/-- **Operations that neither branch nor call** run one after the other. -/
theorem mirrors_operations {place : Nat → Nat} {ops : List (Op Nat)} {least : Nat}
    (straight : ∀ op ∈ ops, op.isStraight = true)
    (realized : Realizes code place position (operations ops)) :
    Mirrors assembly bounds callers least ⟨running.at code position, callers⟩
      (.ofExecution (ops.forM (effect bounds)) running) fun _ later _ final =>
        final = ⟨later.at code (position + ops.length), callers⟩ := by
  induction ops generalizing running position least with
  | nil => exact Mirrors.here rfl
  | cons op rest restInduction =>
      obtain ⟨found, onward⟩ := realized
      have here := straight op List.mem_cons_self
      rw [Bytecode.Op.relabel_of_isStraight here] at found
      have unfolds : (op :: rest).forM (effect bounds) =
          effect bounds op >>= fun _ => rest.forM (effect bounds) := rfl
      rw [unfolds, ofExecution_bind]
      refine (Mirrors.ofStep (step_straight found here)).andThen ?_
      rintro value later steps middle ⟨-, -, rfl⟩
      refine (restInduction (fun other member => straight other (List.mem_cons_of_mem _ member))
        onward).weaken (Nat.le_refl _) ?_
      rintro value last more final rfl
      rw [List.length_cons, Nat.add_assoc, Nat.add_comm 1]

end WasmCompiler.Machine
