import WasmCompiler.Body.Code
import WasmCompiler.Body.LabelStack

/-! # Linked bodies

The code of a function as one sequence of instructions that refer to each other by position: openers
point forward to the marks that end them, and ends and branches point back at openers. Linking lays
structured code out in this form. -/

namespace WasmCompiler

/-- Where a branch goes. -/
structure Branch where
  /-- The level of the block, the innermost having level 0. -/
  depth : Nat
  /-- The position of the mark that opened the block, or the second arm. -/
  target : Nat
  deriving DecidableEq

/-- An instruction of a linked body. Labels number the openers and the marks between arms. -/
inductive Instruction where
  /-- An instruction without block structure. -/
  | plain (instruction : PlainInstruction)
  /-- Opens a block that branches leave. -/
  | block (type : BlockType) (label : Nat) (finish : Option Nat)
  /-- Opens a block that branches repeat. -/
  | loop (type : BlockType) (label : Nat) (finish : Option Nat)
  /-- Opens a conditional block. -/
  | ifThen (type : BlockType) (label : Nat) (finish otherwise : Option Nat)
  /-- Starts the second arm of the conditional block opened at a position. -/
  | otherwise (label : Nat) (opener : Nat)
  /-- Closes the block opened at a position, or the body. -/
  | finish (opener : Option Nat)
  /-- An unconditional branch. -/
  | branch (target : Branch)
  /-- A branch taken if an operand is not zero. -/
  | branchIf (target : Branch)
  /-- A branch that an operand selects, the last one if it selects none. -/
  | branchTable (targets : List Branch) (fallback : Branch)
  deriving DecidableEq

/-- The body of a function: the types of its locals and its instructions in order. -/
structure Body where
  /-- The types of the locals. -/
  locals : List ValueType := []
  /-- The instructions. -/
  instructions : Array Instruction := #[]
  /-- The offset in the module of each instruction's opcode. -/
  offsets : Array Nat := #[]
  /-- The number of labels. -/
  labelCount : Nat := 0
  deriving DecidableEq

namespace Body

/-- The number of instructions. -/
def size (body : Body) : Nat :=
  body.instructions.size

/-- The offset of the instruction at a position, 0 if there is none. -/
def offset (body : Body) (position : Nat) : Nat :=
  body.offsets[position]?.getD 0

/-- Adds an instruction. -/
def push (body : Body) (offset : Nat) (instruction : Instruction) : Body :=
  { body with
    instructions := body.instructions.push instruction
    offsets := body.offsets.push offset }

/-- Adds an instruction that carries the next label. -/
def pushLabelled (body : Body) (offset : Nat) (instruction : (label : Nat) → Instruction) : Body :=
  { body.push offset (instruction body.labelCount) with labelCount := body.labelCount + 1 }

end Body

/-! ## Linking -/

/-- The branch to a level, with the opener that it goes to. -/
def LabelStack.branch {depth : Nat} (labels : LabelStack depth) (level : Fin depth) : Branch :=
  ⟨level, labels.resolve level⟩

/-- The linked form of a jump. -/
def Jump.link {depth : Nat} (labels : LabelStack depth) : Jump depth → Instruction
  | .always level => .branch (labels.branch level)
  | .ifTrue level => .branchIf (labels.branch level)
  | .table levels fallback => .branchTable (levels.map labels.branch) (labels.branch fallback)

namespace Code

/-- Lays out a sequence at the end of a body. The position of a mark that ends a block or an arm
follows from the size of what it ends. -/
def linkOnto : {depth : Nat} → Code depth → LabelStack depth → Body → Body
  | _, .empty, _, body => body
  | _, .plain offset instruction next, labels, body =>
      next.linkOnto labels (body.push offset (.plain instruction))
  | _, .jump offset leap next, labels, body =>
      next.linkOnto labels (body.push offset (leap.link labels))
  | _, .block offset kind type inside finish next, labels, body =>
      let opener := body.size
      let closer := opener + 1 + inside.size
      let opened := body.pushLabelled offset fun label =>
        match kind with
        | .block => .block type label (some closer)
        | .loop => .loop type label (some closer)
      let filled := inside.linkOnto (labels.push opener) opened
      next.linkOnto labels (filled.push finish (.finish (some opener)))
  | _, .ifThen offset type arm finish next, labels, body =>
      let opener := body.size
      let closer := opener + 1 + arm.size
      let opened := body.pushLabelled offset fun label => .ifThen type label (some closer) none
      let filled := arm.linkOnto (labels.push opener) opened
      next.linkOnto labels (filled.push finish (.finish (some opener)))
  | _, .ifElse offset type arm middle otherwise finish next, labels, body =>
      let opener := body.size
      let divider := opener + 1 + arm.size
      let closer := divider + 1 + otherwise.size
      let opened := body.pushLabelled offset fun label =>
        .ifThen type label (some closer) (some divider)
      let filled := arm.linkOnto (labels.push opener) opened
      let divided := filled.pushLabelled middle fun label => .otherwise label opener
      let completed := otherwise.linkOnto (labels.push divider) divided
      next.linkOnto labels (completed.push finish (.finish (some opener)))

/-- The body whose code is a whole function, closed at the given offset. -/
def link (locals : List ValueType) (code : Code 0) (finish : Nat) : Body :=
  (code.linkOnto .empty { locals := locals }).push finish (.finish none)

end Code

end WasmCompiler
