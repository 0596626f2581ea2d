import WasmCompiler.Binary.Operator
import WasmCompiler.Body.Linked

/-! # Function bodies in binary form

A body declares its locals in groups and goes on with operators up to the end that closes it. The
operators are put together into structured code from left to right, so the error reported is the
first in the order of the bytes. -/

namespace WasmCompiler.Binary

/-- The greatest number of blocks that may be open at once. -/
def maxNesting : Nat := 1024

/-- The greatest number of locals that a function may declare. -/
def maxLocals : Nat := 50000

/-! ## Nesting -/

/-- The open blocks around a place, each with what precedes it in its own block, last instruction
first. -/
inductive Context : (depth : Nat) → Type where
  /-- Outside every block. -/
  | top : Context 0
  /-- Inside a block. -/
  | block {depth : Nat} (offset : Nat) (kind : BlockKind) (type : BlockType)
      (before : Code depth) (outer : Context depth) : Context (depth + 1)
  /-- Inside the first arm of a conditional block. -/
  | firstArm {depth : Nat} (offset : Nat) (type : BlockType)
      (before : Code depth) (outer : Context depth) : Context (depth + 1)
  /-- Inside the second arm of a conditional block. -/
  | secondArm {depth : Nat} (offset : Nat) (type : BlockType) (arm : Code (depth + 1))
      (middle : Nat) (before : Code depth) (outer : Context depth) : Context (depth + 1)

/-- Structured code that has been closed. -/
structure ClosedCode where
  /-- The code. -/
  code : Code 0
  /-- The offset of the mark that closes it. -/
  finish : Nat
  /-- The operators after that mark. -/
  rest : TokenStream

/-- The level that a branch names among the open blocks. -/
def levelOf (depth offset : Nat) (level : UInt32) : Except Error (Fin depth) :=
  if below : level.toNat < depth then .ok ⟨level.toNat, below⟩
  else .error (.invalidBranchTarget offset level depth)

/-- Refuses to open a block inside too many others. -/
def checkNesting (depth offset : Nat) : Except Error Unit :=
  if depth < maxNesting then .ok () else .error (.nestingTooDeep offset)

/-- Puts operators together, given the blocks that are open and the code, last instruction first,
that precedes the operators in the innermost one. -/
def TokenStream.assemble : {depth : Nat} → TokenStream → Context depth → Code depth →
    Except Error ClosedCode
  | _, .exhausted position, _, _ => .error (.unexpectedEnd position)
  | _, .failed _ error _, _, _ => .error error
  | depth, .next token stream, context, done =>
      let offset := token.offset
      match token.operator with
      | .plain instruction => stream.assemble context (.plain offset instruction done)
      | .block type => do
          checkNesting depth offset
          stream.assemble (.block offset .block type done context) .empty
      | .loop type => do
          checkNesting depth offset
          stream.assemble (.block offset .loop type done context) .empty
      | .ifThen type => do
          checkNesting depth offset
          stream.assemble (.firstArm offset type done context) .empty
      | .otherwise =>
          match context, done with
          | .firstArm opener type before outer, done =>
              stream.assemble (.secondArm opener type done.reverse offset before outer) .empty
          | .secondArm .., _ => .error (.thirdArm offset 0x05)
          | .top, _ | .block .., _ => .error (.unexpectedElse offset)
      | .finish =>
          match context, done with
          | .top, done => .ok ⟨done.reverse, offset, stream⟩
          | .block opener kind type before outer, done =>
              stream.assemble outer (.block opener kind type done.reverse offset before)
          | .firstArm opener type before outer, done =>
              stream.assemble outer (.ifThen opener type done.reverse offset before)
          | .secondArm opener type arm middle before outer, done =>
              stream.assemble outer
                (.ifElse opener type arm middle done.reverse offset before)
      | .branch level => do
          let level ← levelOf depth offset level
          stream.assemble context (.jump offset (.always level) done)
      | .branchIf level => do
          let level ← levelOf depth offset level
          stream.assemble context (.jump offset (.ifTrue level) done)
      | .branchTable levels fallback => do
          let levels ← levels.mapM (levelOf depth offset)
          let fallback ← levelOf depth offset fallback
          stream.assemble context (.jump offset (.table levels fallback) done)

namespace Decoder

/-- Reads groups of locals of one type, given the number of locals declared before and those
locals in reverse order. -/
def localsOnto : (groups declared : Nat) → (read : List ValueType) → Decoder (List ValueType)
  | 0, _, read => return read.reverse
  | groups + 1, declared, read => do
      let offset ← position
      let count ← unsigned32
      let total := declared + count.toNat
      if maxLocals < total then throw (.tooManyLocals offset total)
      let type ← valueType
      localsOnto groups total (List.replicate count.toNat type ++ read)

/-- The structured code that takes up the rest of the window, with the offset of its end. -/
def code : Decoder (Code 0 × Nat) := do
  match (TokenStream.ofCursor (← get)).assemble .top .empty with
  | .error error => throw error
  | .ok closed =>
      if closed.rest.hasBytes then throw (.trailingBytes closed.rest.offset)
      return (closed.code, closed.finish)

/-- The function body that takes up the rest of the window. -/
def body : Decoder Body := do
  let groups ← unsigned32
  let locals ← localsOnto groups.toNat 0 []
  let (code, finish) ← code
  return code.link locals finish

end Decoder

/-- The body that some bytes are. -/
def decodeBody (bytes : List UInt8) : Except Error Body :=
  Decoder.body.outcome (Cursor.ofBytes bytes)

end WasmCompiler.Binary
