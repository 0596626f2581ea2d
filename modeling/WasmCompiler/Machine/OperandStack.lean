import WasmCompiler.Value

/-! # Operand stacks

The operands of an activation, top first, together with their number, so that the limit on it costs
nothing to check. -/

namespace WasmCompiler.Machine

/-- The operands of an activation. -/
structure OperandStack where
  /-- The operands, top first. -/
  values : List Value
  /-- The number of operands. -/
  height : Nat
  /-- The number is that of the operands. -/
  height_eq : height = values.length

namespace OperandStack

/-- No operands. -/
def empty : OperandStack :=
  ⟨[], 0, rfl⟩

/-- Adds an operand at the top. -/
def push (stack : OperandStack) (value : Value) : OperandStack :=
  ⟨value :: stack.values, stack.height + 1, by simp [stack.height_eq]⟩

/-- The top operand and the others, if there is one. -/
def pop? (stack : OperandStack) : Option (Value × OperandStack) :=
  match equation : stack.values with
  | [] => none
  | value :: values =>
      some (value, ⟨values, stack.height - 1, by simp [stack.height_eq, equation]⟩)

/-- Removes operands from beneath the top ones. -/
def unwind (stack : OperandStack) (drop keep : Nat) (fits : drop + keep ≤ stack.height) :
    OperandStack :=
  ⟨stack.values.take keep ++ stack.values.drop (keep + drop), stack.height - drop, by
    have := stack.height_eq
    simp only [List.length_append, List.length_take, List.length_drop]
    omega⟩

/-- Removes the top operands. -/
def drop (stack : OperandStack) (count : Nat) : OperandStack :=
  ⟨stack.values.drop count, stack.height - count, by
    simp only [List.length_drop, stack.height_eq]⟩

/-- The top operands, the topmost last. -/
def top (stack : OperandStack) (count : Nat) : List Value :=
  (stack.values.take count).reverse

/-- Stacks with the same operands are the same. -/
@[ext] theorem ext {left right : OperandStack} (equal : left.values = right.values) :
    left = right := by
  obtain ⟨leftValues, leftHeight, leftEquation⟩ := left
  obtain ⟨rightValues, rightHeight, rightEquation⟩ := right
  cases equal
  cases leftEquation
  cases rightEquation
  rfl

end OperandStack

end WasmCompiler.Machine
