import WasmCompiler.Body.Linked

/-! # The layout of structured code

Linking writes structured code at the end of a body. This file says what it writes as a function of
the code alone, of the openers around it and of the position and the label that come next:

* **`Code.instructions`** — the instructions of a sequence, in order;
* **`Code.offsets`** — the offsets of their opcodes;
* **`Code.labelCount`** — the number of labels that the sequence takes.

`Code.link_eq` puts the three together for a whole function. -/

namespace WasmCompiler

/-- The instruction that opens a block of a kind. -/
def BlockKind.opener (kind : BlockKind) (type : BlockType) (label finish : Nat) : Instruction :=
  match kind with
  | .block => .block type label (some finish)
  | .loop => .loop type label (some finish)

namespace Code

/-! ## Sizes -/

/-- Counting onto a number adds the size. -/
theorem countOnto_eq {depth : Nat} (code : Code depth) (count : Nat) :
    code.countOnto count = count + code.size := by
  unfold size
  -- The count that is carried along is arbitrary, since what follows starts from another one.
  induction code generalizing count with
  | empty => rfl
  | plain offset instruction next nextInduction =>
      simp only [countOnto]
      rw [nextInduction (count + 1), nextInduction (0 + 1)]
      omega
  | jump offset leap next nextInduction =>
      simp only [countOnto]
      rw [nextInduction (count + 1), nextInduction (0 + 1)]
      omega
  | block offset kind type body finish next bodyInduction nextInduction =>
      simp only [countOnto]
      rw [nextInduction, bodyInduction (count + 1), nextInduction (_ + 1), bodyInduction (0 + 1)]
      omega
  | ifThen offset type arm finish next armInduction nextInduction =>
      simp only [countOnto]
      rw [nextInduction, armInduction (count + 1), nextInduction (_ + 1), armInduction (0 + 1)]
      omega
  | ifElse offset type arm middle otherwise finish next armInduction otherwiseInduction
      nextInduction =>
      simp only [countOnto]
      rw [nextInduction, otherwiseInduction, armInduction (count + 1), nextInduction (_ + 1),
        otherwiseInduction (_ + 1), armInduction (0 + 1)]
      omega

/-- Empty code has no instructions. -/
@[simp] theorem size_empty {depth : Nat} : (empty : Code depth).size = 0 := rfl

/-- A plain instruction takes one place. -/
@[simp] theorem size_plain {depth : Nat} (offset : Nat) (instruction : PlainInstruction)
    (next : Code depth) : (plain offset instruction next).size = next.size + 1 :=
  (countOnto_eq next 1).trans (Nat.add_comm 1 _)

/-- A branch takes one place. -/
@[simp] theorem size_jump {depth : Nat} (offset : Nat) (leap : Jump depth) (next : Code depth) :
    (jump offset leap next).size = next.size + 1 :=
  (countOnto_eq next 1).trans (Nat.add_comm 1 _)

/-- A block takes the places of its body and one on either side. -/
@[simp] theorem size_block {depth : Nat} (offset : Nat) (kind : BlockKind) (type : BlockType)
    (body : Code (depth + 1)) (finish : Nat) (next : Code depth) :
    (block offset kind type body finish next).size = body.size + next.size + 2 := by
  have counted : (block offset kind type body finish next).size =
      next.countOnto (body.countOnto 1 + 1) := rfl
  rw [counted, countOnto_eq, countOnto_eq]
  omega

/-- A conditional block takes the places of its arm and one on either side. -/
@[simp] theorem size_ifThen {depth : Nat} (offset : Nat) (type : BlockType)
    (arm : Code (depth + 1)) (finish : Nat) (next : Code depth) :
    (ifThen offset type arm finish next).size = arm.size + next.size + 2 := by
  have counted : (ifThen offset type arm finish next).size =
      next.countOnto (arm.countOnto 1 + 1) := rfl
  rw [counted, countOnto_eq, countOnto_eq]
  omega

/-- A conditional block with two arms takes one more place, between the arms. -/
@[simp] theorem size_ifElse {depth : Nat} (offset : Nat) (type : BlockType)
    (arm : Code (depth + 1)) (middle : Nat) (otherwise : Code (depth + 1)) (finish : Nat)
    (next : Code depth) :
    (ifElse offset type arm middle otherwise finish next).size =
      arm.size + otherwise.size + next.size + 3 := by
  have counted : (ifElse offset type arm middle otherwise finish next).size =
      next.countOnto (otherwise.countOnto (arm.countOnto 1 + 1) + 1) := rfl
  rw [counted, countOnto_eq, countOnto_eq, countOnto_eq]
  omega

/-! ## What linking writes -/

/-- The number of labels of a sequence: one for each opener and one for each mark between arms. -/
def labelCount : {depth : Nat} → Code depth → Nat
  | _, .empty => 0
  | _, .plain _ _ next => next.labelCount
  | _, .jump _ _ next => next.labelCount
  | _, .block _ _ _ body _ next => 1 + body.labelCount + next.labelCount
  | _, .ifThen _ _ arm _ next => 1 + arm.labelCount + next.labelCount
  | _, .ifElse _ _ arm _ otherwise _ next =>
      1 + arm.labelCount + 1 + otherwise.labelCount + next.labelCount

/-- The instructions of a sequence that starts at a position and takes its labels from a number
on. -/
def instructions : {depth : Nat} → Code depth → LabelStack depth → (position label : Nat) →
    List Instruction
  | _, .empty, _, _, _ => []
  | _, .plain _ instruction next, labels, position, label =>
      .plain instruction :: next.instructions labels (position + 1) label
  | _, .jump _ leap next, labels, position, label =>
      leap.link labels :: next.instructions labels (position + 1) label
  | _, .block _ kind type body _ next, labels, position, label =>
      let closer := position + 1 + body.size
      kind.opener type label closer ::
        (body.instructions (labels.push position) (position + 1) (label + 1) ++
          .finish (some position) ::
            next.instructions labels (closer + 1) (label + 1 + body.labelCount))
  | _, .ifThen _ type arm _ next, labels, position, label =>
      let closer := position + 1 + arm.size
      .ifThen type label (some closer) none ::
        (arm.instructions (labels.push position) (position + 1) (label + 1) ++
          .finish (some position) ::
            next.instructions labels (closer + 1) (label + 1 + arm.labelCount))
  | _, .ifElse _ type arm _ otherwise _ next, labels, position, label =>
      let divider := position + 1 + arm.size
      let closer := divider + 1 + otherwise.size
      let second := label + 1 + arm.labelCount
      .ifThen type label (some closer) (some divider) ::
        (arm.instructions (labels.push position) (position + 1) (label + 1) ++
          .otherwise second position ::
            (otherwise.instructions (labels.push divider) (divider + 1) (second + 1) ++
              .finish (some position) ::
                next.instructions labels (closer + 1) (second + 1 + otherwise.labelCount)))

/-- The offsets of the opcodes of a sequence. -/
def offsets : {depth : Nat} → Code depth → List Nat
  | _, .empty => []
  | _, .plain offset _ next => offset :: next.offsets
  | _, .jump offset _ next => offset :: next.offsets
  | _, .block offset _ _ body finish next => offset :: (body.offsets ++ finish :: next.offsets)
  | _, .ifThen offset _ arm finish next => offset :: (arm.offsets ++ finish :: next.offsets)
  | _, .ifElse offset _ arm middle otherwise finish next =>
      offset :: (arm.offsets ++ middle :: (otherwise.offsets ++ finish :: next.offsets))

/-- A sequence has as many instructions as its size says. -/
@[simp] theorem length_instructions {depth : Nat} (code : Code depth) (labels : LabelStack depth)
    (position label : Nat) :
    (code.instructions labels position label).length = code.size := by
  induction code generalizing position label with
  | empty => rfl
  | plain offset instruction next nextInduction =>
      simp only [instructions, List.length_cons, nextInduction, size_plain]
  | jump offset leap next nextInduction =>
      simp only [instructions, List.length_cons, nextInduction, size_jump]
  | block offset kind type body finish next bodyInduction nextInduction =>
      simp only [instructions, List.length_cons, List.length_append, bodyInduction, nextInduction,
        size_block]
      omega
  | ifThen offset type arm finish next armInduction nextInduction =>
      simp only [instructions, List.length_cons, List.length_append, armInduction, nextInduction,
        size_ifThen]
      omega
  | ifElse offset type arm middle otherwise finish next armInduction otherwiseInduction
      nextInduction =>
      simp only [instructions, List.length_cons, List.length_append, armInduction,
        otherwiseInduction, nextInduction, size_ifElse]
      omega

/-- A sequence has as many offsets as its size says. -/
@[simp] theorem length_offsets {depth : Nat} (code : Code depth) :
    code.offsets.length = code.size := by
  induction code with
  | empty => rfl
  | plain offset instruction next nextInduction =>
      simp only [offsets, List.length_cons, nextInduction, size_plain]
  | jump offset leap next nextInduction =>
      simp only [offsets, List.length_cons, nextInduction, size_jump]
  | block offset kind type body finish next bodyInduction nextInduction =>
      simp only [offsets, List.length_cons, List.length_append, bodyInduction, nextInduction,
        size_block]
      omega
  | ifThen offset type arm finish next armInduction nextInduction =>
      simp only [offsets, List.length_cons, List.length_append, armInduction, nextInduction,
        size_ifThen]
      omega
  | ifElse offset type arm middle otherwise finish next armInduction otherwiseInduction
      nextInduction =>
      simp only [offsets, List.length_cons, List.length_append, armInduction,
        otherwiseInduction, nextInduction, size_ifElse]
      omega

end Code

namespace Body

/-- A body with more instructions at its end, their offsets and the labels that they take. -/
def extend (body : Body) (instructions : List Instruction) (offsets : List Nat) (labels : Nat) :
    Body :=
  { body with
    instructions := body.instructions ++ instructions.toArray
    offsets := body.offsets ++ offsets.toArray
    labelCount := body.labelCount + labels }

/-- Extending a body by nothing leaves it. -/
@[simp] theorem extend_nil (body : Body) : body.extend [] [] 0 = body := by
  simp [extend]

/-- A body is extended by as many instructions as are given. -/
@[simp] theorem size_extend (body : Body) (instructions : List Instruction) (offsets : List Nat)
    (labels : Nat) :
    (body.extend instructions offsets labels).size = body.size + instructions.length := by
  simp [extend, size]

/-- It is extended by as many labels as are given. -/
@[simp] theorem labelCount_extend (body : Body) (instructions : List Instruction)
    (offsets : List Nat) (labels : Nat) :
    (body.extend instructions offsets labels).labelCount = body.labelCount + labels := rfl

/-- Adding an instruction extends a body by one. -/
theorem push_eq_extend (body : Body) (offset : Nat) (instruction : Instruction) :
    body.push offset instruction = body.extend [instruction] [offset] 0 := by
  simp [push, extend]

/-- Adding an instruction with the next label extends a body by one, with one label. -/
theorem pushLabelled_eq_extend (body : Body) (offset : Nat) (instruction : Nat → Instruction) :
    body.pushLabelled offset instruction =
      body.extend [instruction body.labelCount] [offset] 1 := by
  simp [pushLabelled, push, extend]

/-- Two extensions in a row are one. -/
@[simp] theorem extend_extend (body : Body) (first second : List Instruction)
    (firstOffsets secondOffsets : List Nat) (firstLabels secondLabels : Nat) :
    (body.extend first firstOffsets firstLabels).extend second secondOffsets secondLabels =
      body.extend (first ++ second) (firstOffsets ++ secondOffsets)
        (firstLabels + secondLabels) := by
  simp [extend, Array.append_assoc, Nat.add_assoc]

end Body

namespace Code

/-- **Linking extends the body** by the instructions, offsets and labels of the sequence. -/
theorem linkOnto_eq {depth : Nat} (code : Code depth) (labels : LabelStack depth) (body : Body) :
    code.linkOnto labels body =
      body.extend (code.instructions labels body.size body.labelCount) code.offsets
        code.labelCount := by
  -- The body so far is arbitrary: positions and labels continue from what it holds.
  induction code generalizing body with
  | empty => simp [linkOnto, instructions, offsets, labelCount]
  | plain offset instruction next nextInduction =>
      simp only [linkOnto, nextInduction, Body.push_eq_extend, Body.size_extend,
        Body.labelCount_extend, Body.extend_extend, instructions, offsets, labelCount,
        List.length_cons, List.length_nil, List.cons_append, List.nil_append, Nat.add_zero,
        Nat.zero_add]
  | jump offset leap next nextInduction =>
      simp only [linkOnto, nextInduction, Body.push_eq_extend, Body.size_extend,
        Body.labelCount_extend, Body.extend_extend, instructions, offsets, labelCount,
        List.length_cons, List.length_nil, List.cons_append, List.nil_append, Nat.add_zero,
        Nat.zero_add]
  | block offset kind type inside finish next insideInduction nextInduction =>
      simp only [linkOnto, nextInduction, insideInduction, Body.push_eq_extend,
        Body.pushLabelled_eq_extend, Body.size_extend, Body.labelCount_extend,
        Body.extend_extend, instructions, offsets, labelCount, List.length_cons, List.length_nil,
        List.length_append, length_instructions, List.nil_append, List.append_assoc,
        List.cons_append, Nat.zero_add, Nat.add_zero]
      simp only [Nat.add_assoc, Nat.add_comm, Nat.add_left_comm]
      cases kind <;> rfl
  | ifThen offset type arm finish next armInduction nextInduction =>
      simp only [linkOnto, nextInduction, armInduction, Body.push_eq_extend,
        Body.pushLabelled_eq_extend, Body.size_extend, Body.labelCount_extend,
        Body.extend_extend, instructions, offsets, labelCount, List.length_cons, List.length_nil,
        List.length_append, length_instructions, List.nil_append, List.append_assoc,
        List.cons_append, Nat.zero_add, Nat.add_zero]
      simp only [Nat.add_assoc, Nat.add_comm, Nat.add_left_comm]
  | ifElse offset type arm middle otherwise finish next armInduction otherwiseInduction
      nextInduction =>
      simp only [linkOnto, nextInduction, armInduction, otherwiseInduction, Body.push_eq_extend,
        Body.pushLabelled_eq_extend, Body.size_extend, Body.labelCount_extend,
        Body.extend_extend, instructions, offsets, labelCount, List.length_cons, List.length_nil,
        List.length_append, length_instructions, List.nil_append, List.append_assoc,
        List.cons_append, Nat.zero_add, Nat.add_zero]
      simp only [Nat.add_assoc, Nat.add_comm, Nat.add_left_comm]

/-- **A linked function**: its instructions and the mark that closes it. -/
theorem link_eq (locals : List ValueType) (code : Code 0) (finish : Nat) :
    code.link locals finish =
      { locals := locals
        instructions := (code.instructions .empty 0 0 ++ [Instruction.finish none]).toArray
        offsets := (code.offsets ++ [finish]).toArray
        labelCount := code.labelCount } := by
  simp [link, linkOnto_eq, Body.push, Body.extend, Body.size]

end Code

end WasmCompiler
