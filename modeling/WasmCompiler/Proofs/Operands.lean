import WasmCompiler.Proofs.Evaluation
import WasmCompiler.Proofs.Stateful

/-! # Operands as a list

What the actions on operands give, in terms of the list of operands.

* **`pop_apply`**, **`push_apply`** — taking and adding an operand;
* **`takeArguments_apply`** — taking the arguments of a call. -/

namespace WasmCompiler.Machine

open Stateful
open Execution

namespace OperandStack

/-- A stack is told by its operands. -/
@[simp] theorem ofValues_values (stack : OperandStack) : .ofValues stack.values = stack :=
  OperandStack.ext rfl

/-- A stack that is made of values is as high as there are values. -/
@[simp] theorem height_ofValues (values : List Value) :
    (ofValues values).height = values.length := rfl

/-- An empty stack has no operand to take. -/
theorem pop?_of_nil {stack : OperandStack} (none : stack.values = []) : stack.pop? = .none := by
  unfold pop?
  split
  · rfl
  · next equation =>
      rw [none] at equation
      cases equation

/-- From any other the first is taken. -/
theorem pop?_of_cons {stack : OperandStack} {value : Value} {rest : List Value}
    (some : stack.values = value :: rest) : stack.pop? = .some (value, .ofValues rest) := by
  unfold pop?
  split
  · next equation =>
      rw [some] at equation
      cases equation
  · next equation =>
      rw [some] at equation
      cases equation
      exact congrArg Option.some (Prod.ext rfl (OperandStack.ext rfl))

end OperandStack

namespace Running

/-- The operands, top first. -/
def values (running : Running) : List Value :=
  running.activation.stack.values

/-- The running function with other operands. -/
def withValues (running : Running) (values : List Value) : Running :=
  running.withStack (.ofValues values)

/-- The height of the operands is their number. -/
theorem height_eq (running : Running) : running.height = running.values.length :=
  running.activation.stack.height_eq

/-- Operands that are put in place are there. -/
@[simp] theorem values_withValues (running : Running) (values : List Value) :
    (running.withValues values).values = values := rfl

/-- So is their height. -/
@[simp] theorem height_withValues (running : Running) (values : List Value) :
    (running.withValues values).height = values.length := rfl

/-- Only those put in place last are there. -/
@[simp] theorem withValues_withValues (running : Running) (first second : List Value) :
    (running.withValues first).withValues second = running.withValues second := rfl

/-- Putting operands back where they are changes nothing. -/
@[simp] theorem withValues_values (running : Running) :
    running.withValues running.values = running := by
  rw [withValues, values, OperandStack.ofValues_values]
  rfl

end Running

/-- Changing the operands. -/
theorem setStack_apply (stack : OperandStack) (running : Running) :
    setStack stack running = .ok () (running.withValues stack.values) := by
  rw [Running.withValues, OperandStack.ofValues_values]
  rfl

/-- **Taking the top operand.** -/
theorem pop_apply (running : Running) :
    pop running =
      match running.values with
      | [] => .error .stackUnderflow running
      | value :: rest => .ok value (running.withValues rest) := by
  rw [pop, bind_of_ok _ (get_apply _)]
  cases equation : running.values with
  | nil =>
      rw [OperandStack.pop?_of_nil equation]
      rfl
  | cons value rest =>
      rw [OperandStack.pop?_of_cons equation]
      rfl

/-- Taking the top operand as a 32-bit integer. -/
theorem popI32_apply (running : Running) :
    popI32 running =
      match running.values with
      | [] => .error .stackUnderflow running
      | value :: rest =>
          match expectI32 value with
          | .ok bits => .ok bits (running.withValues rest)
          | .error trap => .error trap (running.withValues rest) := by
  rw [popI32, bind_apply, pop_apply]
  cases running.values with
  | nil => rfl
  | cons value rest =>
      simp only
      cases expectI32 value <;> rfl

/-- **Adding an operand.** -/
theorem push_apply (bounds : Bounds) (value : Value) (running : Running) :
    push bounds value running =
      if running.height < bounds.maxValueStack then
        .ok () (running.withValues (value :: running.values))
      else .error (.callStackExhausted running.activation.depth) running := by
  rw [push, bind_of_ok _ (get_apply _)]
  by_cases fits : running.height < bounds.maxValueStack
  · rw [if_pos fits]
    exact (congrFun (if_pos fits) running).trans (setStack_apply _ _)
  · rw [if_neg fits]
    exact congrFun (if_neg fits) running

/-- **Taking the arguments of a call.** -/
theorem takeArguments_apply (signature : Signature) (running : Running) :
    takeArguments signature running =
      if running.height < signature.params.length then .error .stackUnderflow running
      else
        (checkArguments signature.params
            (running.values.take signature.params.length).reverse >>= fun _ =>
          pure (running.values.take signature.params.length).reverse)
          (running.withValues (running.values.drop signature.params.length)) := by
  rw [takeArguments, bind_of_ok _ (get_apply _)]
  by_cases short : running.height < signature.params.length
  · rw [if_pos short]
    exact congrFun (if_pos short) running
  · rw [if_neg short]
    exact (congrFun (if_neg short) running).trans (bind_of_ok _ (setStack_apply _ _))

end WasmCompiler.Machine
