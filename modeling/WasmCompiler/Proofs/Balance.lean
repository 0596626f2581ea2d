import WasmCompiler.Proofs.Evaluation

/-! # Balance of structured code

The number of operands at a place of structured code can be told from the code alone. Code is
balanced if this number never falls short of what an instruction takes or a branch carries, counted
from the start of the innermost block, and if every block leaves behind as many operands as its type
says. Code after an unconditional transfer is dead up to the end of its block, and nothing is asked
of it.

* **`Code.Balanced`** — a sequence is balanced;
* **`Program.Balanced`** — every function of a program is. -/

namespace WasmCompiler

/-! ## Operands of instructions -/

namespace PlainInstruction

variable (module : Module) (results : Nat)

/-- The numbers of operands that an instruction takes and leaves, in a function with `results`
results. -/
def exchange : PlainInstruction → Nat × Nat
  | .unreachable | .nop => (0, 0)
  | .ret => (results, 0)
  | .call function =>
      match module.signature? function.toNat with
      | some signature => (signature.params.length, signature.results.length)
      | none => (0, 0)
  | .callIndirect typeIndex =>
      match module.types[typeIndex.toNat]? with
      | some signature => (signature.params.length + 1, signature.results.length)
      | none => (0, 0)
  | .drop => (1, 0)
  | .select => (3, 1)
  | .getLocal _ | .getGlobal _ | .currentMemory | .const _ => (0, 1)
  | .setLocal _ | .setGlobal _ => (1, 0)
  | .teeLocal _ | .growMemory => (1, 1)
  | .access accessor _ _ => if accessor.isStore then (2, 0) else (1, 1)
  | .numeric operation => (operation.operandCount, 1)

/-- Whether the next instruction does not follow. -/
def isTransfer : PlainInstruction → Bool
  | .unreachable | .ret => true
  | _ => false

end PlainInstruction

namespace Jump

variable {depth : Nat}

/-- The number of operands that choose where a jump goes. -/
def takes : Jump depth → Nat
  | .always _ => 0
  | .ifTrue _ | .table _ _ => 1

/-- The levels that a jump may branch to. -/
def levels : Jump depth → List (Fin depth)
  | .always level | .ifTrue level => [level]
  | .table levels fallback => levels ++ [fallback]

/-- Whether the next instruction does not follow. -/
def isTransfer : Jump depth → Bool
  | .always _ | .table _ _ => true
  | .ifTrue _ => false

end Jump

/-- The number of values that a branch to a block carries. -/
def BlockKind.carries (kind : BlockKind) (type : BlockType) : Nat :=
  match kind with
  | .block => type.arity
  | .loop => 0

/-! ## Balanced code -/

/-- **Whether a sequence is balanced.** There are `height` operands at its start, `base` of them
from before the innermost block, and there have to be `goal` at its end. A branch to a level carries
as many as `carried` says. -/
def Code.Balanced (module : Module) (results : Nat) : {depth : Nat} → Code depth →
    (carried : Fin depth → Nat) → (base height goal : Nat) → Prop
  | _, .empty, _, _, height, goal => height = goal
  | _, .plain _ instruction next, carried, base, height, goal =>
      base + (instruction.exchange module results).1 ≤ height ∧
        (instruction.isTransfer = false → next.Balanced module results carried base
          (height - (instruction.exchange module results).1 +
            (instruction.exchange module results).2) goal)
  | _, .jump _ leap next, carried, base, height, goal =>
      base + leap.takes ≤ height ∧
        (∀ level ∈ leap.levels, base + carried level ≤ height - leap.takes) ∧
        (leap.isTransfer = false →
          next.Balanced module results carried base (height - leap.takes) goal)
  | _, .block _ kind type body _ next, carried, base, height, goal =>
      body.Balanced module results (Fin.cases (kind.carries type) carried) height height
          (height + type.arity) ∧
        next.Balanced module results carried base (height + type.arity) goal
  | _, .ifThen _ type arm _ next, carried, base, height, goal =>
      base + 1 ≤ height ∧ type = none ∧
        arm.Balanced module results (Fin.cases type.arity carried) (height - 1) (height - 1)
          (height - 1 + type.arity) ∧
        next.Balanced module results carried base (height - 1 + type.arity) goal
  | _, .ifElse _ type arm _ otherwise _ next, carried, base, height, goal =>
      base + 1 ≤ height ∧
        arm.Balanced module results (Fin.cases type.arity carried) (height - 1) (height - 1)
          (height - 1 + type.arity) ∧
        otherwise.Balanced module results (Fin.cases type.arity carried) (height - 1) (height - 1)
          (height - 1 + type.arity) ∧
        next.Balanced module results carried base (height - 1 + type.arity) goal

/-- Whether the code of a function is balanced. -/
def Definition.Balanced (module : Module) (definition : Definition) : Prop :=
  definition.tree.Balanced module definition.signature.results.length (fun level => level.elim0)
    0 0 definition.signature.results.length

/-- **Whether the code of every function of a program is balanced.** -/
def Program.Balanced (program : Program) : Prop :=
  ∀ index definition, program.definition? index = some definition →
    definition.Balanced program.module

end WasmCompiler
