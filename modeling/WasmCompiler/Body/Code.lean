import WasmCompiler.Instruction

/-! # Structured code

The code of a function as a tree of nested blocks. The type counts the enclosing blocks, so every
branch names one of them. Each instruction keeps the offset of its opcode in the module. -/

namespace WasmCompiler

/-- Whether branches to a block leave it or repeat it. -/
inductive BlockKind where
  /-- Branches leave the block. -/
  | block
  /-- Branches repeat the block. -/
  | loop
  deriving DecidableEq

/-- A branch out of `depth` enclosing blocks, by levels counted from the innermost one. -/
inductive Jump (depth : Nat) where
  /-- An unconditional branch. -/
  | always (level : Fin depth)
  /-- A branch taken if an operand is not zero. -/
  | ifTrue (level : Fin depth)
  /-- A branch that an operand selects, the last one if it selects none. -/
  | table (levels : List (Fin depth)) (fallback : Fin depth)
  deriving DecidableEq

/-- A sequence of instructions inside `depth` blocks. Every form but the empty one ends with the
instructions that follow it. -/
inductive Code : (depth : Nat) → Type where
  /-- No instructions. -/
  | empty {depth : Nat} : Code depth
  /-- An instruction without block structure. -/
  | plain {depth : Nat} (offset : Nat) (instruction : PlainInstruction) (next : Code depth) :
      Code depth
  /-- A branch. -/
  | jump {depth : Nat} (offset : Nat) (leap : Jump depth) (next : Code depth) : Code depth
  /-- A block, with the offset of its end. -/
  | block {depth : Nat} (offset : Nat) (kind : BlockKind) (type : BlockType)
      (body : Code (depth + 1)) (finish : Nat) (next : Code depth) : Code depth
  /-- A conditional block with one arm. -/
  | ifThen {depth : Nat} (offset : Nat) (type : BlockType) (arm : Code (depth + 1))
      (finish : Nat) (next : Code depth) : Code depth
  /-- A conditional block with two arms, with the offset of the mark between them. -/
  | ifElse {depth : Nat} (offset : Nat) (type : BlockType) (arm : Code (depth + 1))
      (middle : Nat) (otherwise : Code (depth + 1)) (finish : Nat) (next : Code depth) : Code depth
  deriving DecidableEq

namespace Code

/-- Puts the instructions of a sequence, last one first, in front of another sequence. -/
def reverseOnto : {depth : Nat} → Code depth → Code depth → Code depth
  | _, .empty, done => done
  | _, .plain offset instruction next, done => next.reverseOnto (.plain offset instruction done)
  | _, .jump offset leap next, done => next.reverseOnto (.jump offset leap done)
  | _, .block offset kind type body finish next, done =>
      next.reverseOnto (.block offset kind type body finish done)
  | _, .ifThen offset type arm finish next, done =>
      next.reverseOnto (.ifThen offset type arm finish done)
  | _, .ifElse offset type arm middle otherwise finish next, done =>
      next.reverseOnto (.ifElse offset type arm middle otherwise finish done)

/-- A sequence in the opposite order; the insides of blocks stay as they are. -/
def reverse {depth : Nat} (code : Code depth) : Code depth :=
  code.reverseOnto .empty

/-- Adds to a count the marks and instructions of a sequence: an opener and an end for each block,
and a mark between two arms. -/
def countOnto : {depth : Nat} → Code depth → Nat → Nat
  | _, .empty, count => count
  | _, .plain _ _ next, count => next.countOnto (count + 1)
  | _, .jump _ _ next, count => next.countOnto (count + 1)
  | _, .block _ _ _ body _ next, count => next.countOnto (body.countOnto (count + 1) + 1)
  | _, .ifThen _ _ arm _ next, count => next.countOnto (arm.countOnto (count + 1) + 1)
  | _, .ifElse _ _ arm _ otherwise _ next, count =>
      next.countOnto (otherwise.countOnto (arm.countOnto (count + 1) + 1) + 1)

/-- The number of marks and instructions of a sequence. -/
def size {depth : Nat} (code : Code depth) : Nat :=
  code.countOnto 0

end Code

end WasmCompiler
