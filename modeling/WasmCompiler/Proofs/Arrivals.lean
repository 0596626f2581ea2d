import WasmCompiler.Proofs.Instructions

/-! # Arrivals

Where a machine is in the code of a function when a part of the structured code of that function
starts, and where it is when the part ends: after the part, at the landing of a branch with the
operands that the branch leaves, or at a return.

* **`Situated`** — balanced code is live at a position of the code of its function;
* **`Arrives`** — where a machine is at the end;
* **`mirrors_leaving`** — the end of a block. -/

namespace WasmCompiler

open Bytecode (Assembly Op)
open Emission hiding State
open Machine

/-- A call of a compiled function. -/
structure Call where
  /-- The function. -/
  site : Site
  /-- Its operations. -/
  code : Array (Op Nat)
  /-- The places of its labels. -/
  place : Nat → Nat
  /-- The activations that wait for its result. -/
  callers : List Activation

namespace Call

variable (call : Call)

/-- The machine at a position of the function. -/
def state (running : Running) (position : Nat) : State :=
  ⟨running.at call.code position, call.callers⟩

/-- Whether an activation is one of the function. -/
def Runs (running : Running) : Prop :=
  running.activation.function.signature = call.site.signature

/-- An activation stays one of the function by actions that do not depend on its place. -/
theorem Runs.of_local {call : Call} {running later : Running} {α : Type}
    {action : Execution α} {value : α} (runs : call.Runs running) (local_action : Local action)
    (equation : action running = .ok value later) : call.Runs later := by
  unfold Runs at runs ⊢
  rw [local_action.steady equation, runs]

/-- An activation stays one of the function whatever a branch removes. -/
theorem Runs.cut {call : Call} {running : Running} (runs : call.Runs running) (base keep : Nat) :
    call.Runs (running.cut base keep) :=
  runs

end Call

/-! ## Balanced code at a position -/

/-- **Whether balanced code is live at a position**, and has to leave `goal` operands. -/
structure Situated (call : Call) {depth : Nat} (tree : Code depth) (scope : Scope depth)
    (stage : Stage) (position goal : Nat) : Prop where
  /-- The code can be reached. -/
  live : stage.reachable = true
  /-- Blocks further out have been entered with fewer operands. -/
  nested : ∀ level, (scope.landing level).base ≤ scope.base
  /-- The operands that the innermost block was entered with are still there. -/
  above : scope.base ≤ stage.height
  /-- The code is balanced. -/
  balanced : tree.Balanced call.site.module call.site.signature.results.length
    (fun level => (scope.landing level).keep) scope.base stage.height goal
  /-- Nothing in the code is refused. -/
  allowed : tree.violation? call.site = none
  /-- The operations of the code stand at the position. -/
  realized : Realizes call.code call.place position (tree.draft call.site scope stage).directives

/-- The position after the operations of a draft. -/
def Emission.Draft.ending (draft : Draft) (position : Nat) : Nat :=
  position + (emitted draft.directives).length

/-- The operations of a draft that goes on with another one end with those of the other one. -/
theorem Emission.Draft.ending_andThen (first : Draft) (second : Stage → Draft) (position : Nat) :
    (first.andThen second).ending position =
      (second first.stage).ending (first.ending position) := by
  simp only [ending, directives_andThen, emitted_append, List.length_append, Nat.add_assoc]

/-! ## Ends of code -/

/-- **Where a machine is when code ends**: at a position after it with `goal` operands, or at the
landing of a branch, or at a return. -/
def Arrives (call : Call) {depth : Nat} (scope : Scope depth) (ending goal : Nat)
    (exit : Exit depth) (later : Running) (steps : Nat) (final : State) : Prop :=
  call.Runs later ∧
    match exit with
    | .next => later.height = goal ∧ final = call.state later ending
    | .branch level =>
        1 ≤ steps ∧ (scope.landing level).base + (scope.landing level).keep ≤ later.height ∧
          final = call.state (later.cut (scope.landing level).base (scope.landing level).keep)
            (call.place (scope.landing level).label)
    | .ret => ∃ position, call.code[position]? = some .ret ∧ final = call.state later position

variable {assembly : Assembly} {bounds : Bounds} {call : Call} {depth : Nat} {scope : Scope depth}
  {landing : Landing} {ending goal : Nat}

/-- A machine that has made more steps before has arrived all the same. -/
theorem Arrives.after {exit : Exit depth} {later : Running} {steps : Nat} {final : State}
    (arrives : Arrives call scope ending goal exit later steps final) (before : Nat) :
    Arrives call scope ending goal exit later (before + steps) final := by
  obtain ⟨runs, arrives⟩ := arrives
  refine ⟨runs, ?_⟩
  cases exit with
  | next => exact arrives
  | branch level =>
      obtain ⟨moved, enough, equation⟩ := arrives
      exact ⟨by omega, enough, equation⟩
  | ret => exact arrives

/-- A machine that has made some steps arrives where the rest of the evaluation says. -/
theorem mirrors_after {least steps : Nat} {state middle : State}
    {evaluation : Evaluation (Exit depth)}
    (reaches : run assembly bounds steps state = .running middle)
    (mirrors : Mirrors assembly bounds call.callers (least - steps) middle evaluation
      (Arrives call scope ending goal)) :
    Mirrors assembly bounds call.callers least state evaluation (Arrives call scope ending goal) :=
  Mirrors.after reaches
    (mirrors.weaken (Nat.le_refl _) fun _ _ _ _ arrives => arrives.after steps)

/-- What follows an evaluation arrives where the rest of the evaluation says. -/
theorem mirrors_andThen {α : Type} {least : Nat} {state : State} {evaluation : Evaluation α}
    {meets : α → Running → Nat → State → Prop} {second : α → Running → Evaluation (Exit depth)}
    (mirrors : Mirrors assembly bounds call.callers least state evaluation meets)
    (onward : ∀ value running steps later, meets value running steps later →
      Mirrors assembly bounds call.callers least later (second value running)
        (Arrives call scope ending goal)) :
    Mirrors assembly bounds call.callers least state (evaluation.andThen second)
      (Arrives call scope ending goal) :=
  mirrors.andThen fun value running steps later met =>
    (onward value running steps later met).weaken (Nat.sub_le _ _)
      fun _ _ _ _ arrives => arrives.after steps

/-- **The end of a block.** What comes after a branch to the block may take it that the machine has
made a step. -/
theorem mirrors_leaving {least middle inner : Nat} {state : State}
    {inside : Evaluation (Exit (depth + 1))} {caught onward : Running → Evaluation (Exit depth)}
    (mirrors : Mirrors assembly bounds call.callers least state inside
      (Arrives call (scope.inside landing) middle inner))
    (atLanding : ∀ later, call.Runs later → landing.base + landing.keep ≤ later.height →
      Mirrors assembly bounds call.callers (least - 1)
        (call.state (later.cut landing.base landing.keep) (call.place landing.label))
        (caught later) (Arrives call scope ending goal))
    (atEnd : ∀ later, call.Runs later → later.height = inner →
      Mirrors assembly bounds call.callers least (call.state later middle) (onward later)
        (Arrives call scope ending goal)) :
    Mirrors assembly bounds call.callers least state (inside.leaving caught onward)
      (Arrives call scope ending goal) := by
  refine mirrors.andThen ?_
  rintro exit later steps final ⟨runs, arrives⟩
  match exit, arrives with
  | .next, ⟨height, equation⟩ =>
      subst equation
      exact (atEnd later runs height).weaken (Nat.sub_le _ _)
        fun _ _ _ _ arrives => arrives.after steps
  | .branch ⟨0, _⟩, ⟨moved, enough, equation⟩ =>
      subst equation
      exact (atLanding later runs enough).weaken (by omega)
        fun _ _ _ _ arrives => arrives.after steps
  | .branch ⟨level + 1, below⟩, ⟨moved, enough, equation⟩ =>
      exact Mirrors.here ⟨runs, moved, enough, equation⟩
  | .ret, arrives => exact Mirrors.here ⟨runs, arrives⟩

end WasmCompiler
