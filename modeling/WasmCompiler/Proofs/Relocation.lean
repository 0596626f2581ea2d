import WasmCompiler.Proofs.Grouping

/-! # Bodies at a position

A linked body whose opcodes were read elsewhere is the same code with other offsets. Moving it to
the place where it is encoded gives what is read there.

* **`Code.mapOffsets`** — the same code with other offsets;
* **`Code.moved`** — code with the offsets that it has if it is encoded at a position;
* **`Code.marks_moved`** — its operators follow each other from there on;
* **`exists_body`** — an encoded body is read as it is placed;
* **`encodableBody_of_body`** — what is read as a body can be encoded, in no more bytes. -/

namespace WasmCompiler

open Binary

/-! ## Operators in a row -/

/-- Operators that follow each other from a position on, with their positions. -/
def Operator.marksFrom : (position : Nat) → List Operator → List (Nat × Operator)
  | _, [] => []
  | position, operator :: operators =>
      (position, operator) :: marksFrom (position + (encodeOperator operator).length) operators

namespace Operator

/-- Every operator has a position. -/
theorem length_positions (position : Nat) (operators : List Operator) :
    (positions position operators).length = operators.length := by
  induction operators generalizing position with
  | nil => rfl
  | cons operator operators operatorsInduction => exact congrArg Nat.succ (operatorsInduction _)

/-- The positions of operators are those that they are marked with. -/
theorem map_fst_marksFrom (position : Nat) (operators : List Operator) :
    (marksFrom position operators).map Prod.fst = positions position operators := by
  induction operators generalizing position with
  | nil => rfl
  | cons operator operators operatorsInduction =>
      rw [marksFrom, positions, List.map_cons, operatorsInduction]

/-- Operators after others start where those end. -/
theorem marksFrom_append (position : Nat) (first second : List Operator) :
    marksFrom position (first ++ second) =
      marksFrom position first ++
        marksFrom (position + (first.flatMap encodeOperator).length) second := by
  induction first generalizing position with
  | nil => rfl
  | cons operator first firstInduction =>
      rw [List.cons_append, marksFrom, firstInduction, marksFrom, List.flatMap_cons,
        List.length_append, Nat.add_assoc]
      rfl

end Operator

namespace Binary

/-- Encoded operators are nothing but operators. -/
theorem lexes_marksFrom {operators : List Operator}
    (counts : ∀ operator ∈ operators, HasCounts operator) (position : Nat) :
    Lexes position (operators.flatMap encodeOperator) (Operator.marksFrom position operators) := by
  induction operators generalizing position with
  | nil => exact .nil
  | cons operator operators operatorsInduction =>
      obtain ⟨first, others⟩ := List.forall_mem_cons.mp counts
      exact .cons (spellsOperator_encodeOperator first) (operatorsInduction others _)

/-- Operators are not shorter than they are encoded. -/
theorem least_lexes {position : Nat} {bytes : List UInt8} {marks : List (Nat × Operator)}
    (lexes : Lexes position bytes marks) :
    (∀ operator ∈ marks.map Prod.snd, HasCounts operator) ∧
      ((marks.map Prod.snd).flatMap encodeOperator).length ≤ bytes.length := by
  induction lexes with
  | nil => exact ⟨List.forall_mem_nil _, Nat.le_refl 0⟩
  | cons spells later laterInduction =>
      obtain ⟨others, shorter⟩ := laterInduction
      obtain ⟨counts, least⟩ := spells.least
      exact ⟨List.forall_mem_cons.mpr ⟨counts, others⟩, length_append_le least shorter⟩

end Binary

/-! ## Code with other offsets -/

namespace Code

/-- Code with changed offsets. -/
@[simp] def mapOffsets (change : Nat → Nat) : {depth : Nat} → Code depth → Code depth
  | _, .empty => .empty
  | _, .plain offset instruction next =>
      .plain (change offset) instruction (next.mapOffsets change)
  | _, .jump offset leap next => .jump (change offset) leap (next.mapOffsets change)
  | _, .block offset kind type body finish next =>
      .block (change offset) kind type (body.mapOffsets change) (change finish)
        (next.mapOffsets change)
  | _, .ifThen offset type arm finish next =>
      .ifThen (change offset) type (arm.mapOffsets change) (change finish) (next.mapOffsets change)
  | _, .ifElse offset type arm middle otherwise finish next =>
      .ifElse (change offset) type (arm.mapOffsets change) (change middle)
        (otherwise.mapOffsets change) (change finish) (next.mapOffsets change)

variable (change : Nat → Nat) {depth : Nat} (code : Code depth)

/-- Code with other offsets has as many instructions. -/
@[simp] theorem size_mapOffsets : (code.mapOffsets change).size = code.size := by
  induction code with
  | empty => rfl
  | plain offset instruction next nextInduction => simp only [mapOffsets, size_plain, nextInduction]
  | jump offset leap next nextInduction => simp only [mapOffsets, size_jump, nextInduction]
  | block offset kind type body finish next bodyInduction nextInduction =>
      simp only [mapOffsets, size_block, bodyInduction, nextInduction]
  | ifThen offset type arm finish next armInduction nextInduction =>
      simp only [mapOffsets, size_ifThen, armInduction, nextInduction]
  | ifElse offset type arm middle otherwise finish next armInduction otherwiseInduction
      nextInduction =>
      simp only [mapOffsets, size_ifElse, armInduction, otherwiseInduction, nextInduction]

/-- It has as many labels. -/
@[simp] theorem labelCount_mapOffsets : (code.mapOffsets change).labelCount = code.labelCount := by
  induction code with
  | empty => rfl
  | plain offset instruction next nextInduction => simp only [mapOffsets, labelCount, nextInduction]
  | jump offset leap next nextInduction => simp only [mapOffsets, labelCount, nextInduction]
  | block offset kind type body finish next bodyInduction nextInduction =>
      simp only [mapOffsets, labelCount, bodyInduction, nextInduction]
  | ifThen offset type arm finish next armInduction nextInduction =>
      simp only [mapOffsets, labelCount, armInduction, nextInduction]
  | ifElse offset type arm middle otherwise finish next armInduction otherwiseInduction
      nextInduction =>
      simp only [mapOffsets, labelCount, armInduction, otherwiseInduction, nextInduction]

/-- **Instructions refer to each other by position**, so they are the same with other offsets. -/
theorem instructions_mapOffsets (labels : LabelStack depth) (place label : Nat) :
    (code.mapOffsets change).instructions labels place label =
      code.instructions labels place label := by
  induction code generalizing place label with
  | empty => rfl
  | plain offset instruction next nextInduction =>
      simp only [mapOffsets, instructions, nextInduction]
  | jump offset leap next nextInduction => simp only [mapOffsets, instructions, nextInduction]
  | block offset kind type body finish next bodyInduction nextInduction =>
      simp only [mapOffsets, instructions, bodyInduction, nextInduction, size_mapOffsets,
        labelCount_mapOffsets]
  | ifThen offset type arm finish next armInduction nextInduction =>
      simp only [mapOffsets, instructions, armInduction, nextInduction, size_mapOffsets,
        labelCount_mapOffsets]
  | ifElse offset type arm middle otherwise finish next armInduction otherwiseInduction
      nextInduction =>
      simp only [mapOffsets, instructions, armInduction, otherwiseInduction, nextInduction,
        size_mapOffsets, labelCount_mapOffsets]

/-- It is nested as deep. -/
theorem nestedWithin_mapOffsets {limit : Nat} :
    (code.mapOffsets change).NestedWithin limit ↔ code.NestedWithin limit := by
  induction code with
  | empty => rfl
  | plain offset instruction next nextInduction => exact nextInduction
  | jump offset leap next nextInduction => exact nextInduction
  | block offset kind type body finish next bodyInduction nextInduction =>
      simp only [mapOffsets, NestedWithin, bodyInduction, nextInduction]
  | ifThen offset type arm finish next armInduction nextInduction =>
      simp only [mapOffsets, NestedWithin, armInduction, nextInduction]
  | ifElse offset type arm middle otherwise finish next armInduction otherwiseInduction
      nextInduction =>
      simp only [mapOffsets, NestedWithin, armInduction, otherwiseInduction, nextInduction]

/-- Its offsets are the changed ones. -/
theorem offsets_mapOffsets :
    (code.mapOffsets change).offsets = code.offsets.map change := by
  induction code with
  | empty => rfl
  | plain offset instruction next nextInduction =>
      simp only [mapOffsets, offsets, List.map_cons, nextInduction]
  | jump offset leap next nextInduction =>
      simp only [mapOffsets, offsets, List.map_cons, nextInduction]
  | block offset kind type body finish next bodyInduction nextInduction =>
      simp only [mapOffsets, offsets, List.map_cons, List.map_append, bodyInduction, nextInduction]
  | ifThen offset type arm finish next armInduction nextInduction =>
      simp only [mapOffsets, offsets, List.map_cons, List.map_append, armInduction, nextInduction]
  | ifElse offset type arm middle otherwise finish next armInduction otherwiseInduction
      nextInduction =>
      simp only [mapOffsets, offsets, List.map_cons, List.map_append, armInduction,
        otherwiseInduction, nextInduction]

end Code

/-- A body with changed offsets. -/
def Body.mapOffsets (change : Nat → Nat) (body : Body) : Body :=
  { body with offsets := body.offsets.map change }

/-- **A linked function with other offsets** is the linked form of the same code with these. -/
theorem Code.link_mapOffsets (change : Nat → Nat) (locals : List ValueType) (code : Code 0)
    (finish : Nat) :
    (code.mapOffsets change).link locals (change finish) =
      (code.link locals finish).mapOffsets change := by
  have offsets : (code.mapOffsets change).offsets ++ [change finish] =
      (code.offsets ++ [finish]).map change := by
    rw [offsets_mapOffsets, List.map_append, List.map_singleton]
  rw [link_eq, link_eq, offsets, instructions_mapOffsets, labelCount_mapOffsets, Body.mapOffsets,
    List.map_toArray]

/-! ## Code at another position -/

namespace Code

/-- The number of bytes that code is encoded in. -/
def width {depth : Nat} (code : Code depth) : Nat :=
  ((code.marks.map Prod.snd).flatMap encodeOperator).length

/-- **Code with the offsets that it has at a position.** -/
def moved : {depth : Nat} → Code depth → (position : Nat) → Code depth
  | _, .empty, _ => .empty
  | _, .plain _ instruction next, position =>
      .plain position instruction
        (next.moved (position + (encodeOperator (.plain instruction)).length))
  | _, .jump _ leap next, position =>
      .jump position leap (next.moved (position + (encodeOperator leap.operator).length))
  | _, .block _ kind type body _ next, position =>
      let closer := position + 2 + body.width
      .block position kind type (body.moved (position + 2)) closer (next.moved (closer + 1))
  | _, .ifThen _ type arm _ next, position =>
      let closer := position + 2 + arm.width
      .ifThen position type (arm.moved (position + 2)) closer (next.moved (closer + 1))
  | _, .ifElse _ type arm _ otherwise _ next, position =>
      let divider := position + 2 + arm.width
      let closer := divider + 1 + otherwise.width
      .ifElse position type (arm.moved (position + 2)) divider (otherwise.moved (divider + 1))
        closer (next.moved (closer + 1))

/-- A block is opened by two bytes. -/
theorem length_encode_opener (kind : BlockKind) (type : BlockType) :
    (encodeOperator (kind.operator type)).length = 2 := by
  cases kind <;> rfl

/-- **The operators of moved code** follow each other. -/
theorem marks_moved {depth : Nat} (code : Code depth) (position : Nat) :
    (code.moved position).marks = Operator.marksFrom position (code.marks.map Prod.snd) := by
  -- Positions follow from the lengths of what is written in front.
  induction code generalizing position with
  | empty => rfl
  | plain offset instruction next nextInduction =>
      simp only [moved, marks, List.map_cons, Operator.marksFrom, nextInduction]
  | jump offset leap next nextInduction =>
      simp only [moved, marks, List.map_cons, Operator.marksFrom, nextInduction]
  | block offset kind type body finish next bodyInduction nextInduction =>
      simp only [moved, marks, List.map_cons, List.map_append, Operator.marksFrom,
        Operator.marksFrom_append, bodyInduction, nextInduction, length_encode_opener]
      rfl
  | ifThen offset type arm finish next armInduction nextInduction =>
      simp only [moved, marks, List.map_cons, List.map_append, Operator.marksFrom,
        Operator.marksFrom_append, armInduction, nextInduction]
      rfl
  | ifElse offset type arm middle otherwise finish next armInduction otherwiseInduction
      nextInduction =>
      simp only [moved, marks, List.map_cons, List.map_append, Operator.marksFrom,
        Operator.marksFrom_append, armInduction, otherwiseInduction, nextInduction]
      rfl

/-- **Moved code is the same** up to its offsets. -/
theorem mapOffsets_moved {depth : Nat} (code : Code depth) (position : Nat) :
    (code.moved position).mapOffsets (fun _ => 0) = code.mapOffsets fun _ => 0 := by
  induction code generalizing position with
  | empty => rfl
  | plain offset instruction next nextInduction => simp only [moved, mapOffsets, nextInduction]
  | jump offset leap next nextInduction => simp only [moved, mapOffsets, nextInduction]
  | block offset kind type body finish next bodyInduction nextInduction =>
      simp only [moved, mapOffsets, bodyInduction, nextInduction]
  | ifThen offset type arm finish next armInduction nextInduction =>
      simp only [moved, mapOffsets, armInduction, nextInduction]
  | ifElse offset type arm middle otherwise finish next armInduction otherwiseInduction
      nextInduction =>
      simp only [moved, mapOffsets, armInduction, otherwiseInduction, nextInduction]

/-- Code that is moved has as many labels. -/
theorem labelCount_moved {depth : Nat} (code : Code depth) (position : Nat) :
    (code.moved position).labelCount = code.labelCount := by
  rw [← labelCount_mapOffsets fun _ => 0, mapOffsets_moved, labelCount_mapOffsets]

/-- It has the same instructions. -/
theorem instructions_moved {depth : Nat} (code : Code depth) (position : Nat)
    (labels : LabelStack depth) (place label : Nat) :
    (code.moved position).instructions labels place label =
      code.instructions labels place label := by
  rw [← instructions_mapOffsets fun _ => 0, mapOffsets_moved, instructions_mapOffsets]

/-- It is nested as deep. -/
theorem nestedWithin_moved {limit depth : Nat} (code : Code depth) (position : Nat) :
    (code.moved position).NestedWithin limit ↔ code.NestedWithin limit := by
  rw [← nestedWithin_mapOffsets fun _ => 0, mapOffsets_moved, nestedWithin_mapOffsets]

/-- The operators of a function that is encoded at a position follow each other from there on. -/
theorem marks_moved_finish (code : Code 0) (position : Nat) :
    (code.moved position).marks ++ [(position + code.width, .finish)] =
      Operator.marksFrom position (code.marks.map Prod.snd ++ [.finish]) := by
  rw [marks_moved, Operator.marksFrom_append]
  rfl

/-- **A moved function** is the same up to its offsets, which are the positions of its opcodes. -/
theorem link_moved (locals : List ValueType) (code : Code 0) (finish position : Nat) :
    (code.moved position).link locals (position + code.width) =
      { code.link locals finish with
        offsets :=
          (Operator.positions position (code.marks.map Prod.snd ++ [.finish])).toArray } := by
  have offsets : (code.moved position).offsets ++ [position + code.width] =
      Operator.positions position (code.marks.map Prod.snd ++ [.finish]) := by
    rw [← Operator.map_fst_marksFrom, ← marks_moved_finish, List.map_append, map_fst_marks]
    rfl
  rw [link_eq, link_eq, offsets, instructions_moved, labelCount_moved]

end Code

namespace Binary

open Decoder Varint

/-! ## Bodies -/

/-- **An encoded body** is read as it is placed. -/
theorem exists_body {body : Body} (encodable : EncodableBody body) (position : Nat) :
    ∃ later, Decoder.body ⟨position, encodeBody body⟩ = .ok (body.placed position) later := by
  obtain ⟨code, finish, nested, same⟩ := encodable.linked
  obtain ⟨groups, vector, few, spelled⟩ := exists_groups encodable.locals
  have instructions := congrArg Body.instructions same
  have labels := congrArg Body.labelCount same
  simp only [Body.withoutOffsets] at instructions labels
  have operators : body.operators = code.marks.map Prod.snd ++ [.finish] := by
    rw [← Code.operators_link body.locals code finish, Body.operators, instructions]
    rfl
  let start := position + (encodeLocals body.locals).length
  have lexes := lexes_marksFrom encodable.tables start
  -- Moving the code to its place gives the body that differs in its offsets only.
  have placed : body.placed position =
      (code.moved start).link body.locals (start + code.width) := by
    rw [Code.link_moved body.locals code finish start, ← operators, Body.placed, instructions,
      labels, Code.link_eq]
  refine ⟨⟨start, body.operators.flatMap encodeOperator⟩, Decoder.body_eq_ok_iff.mpr
    ⟨encodeLocals body.locals, groups, code.moved start, start + code.width, rfl, rfl, vector, few,
      (Code.nestedWithin_moved code start).mpr nested, ?_, ?_⟩⟩
  · rw [Code.marks_moved_finish, ← operators]
    exact lexes
  · rw [spelled]
    exact placed

/-- **What is read as a body** can be encoded, in no more bytes. -/
theorem encodableBody_of_body {cursor later : Cursor} {body : Body}
    (equation : Decoder.body cursor = .ok body later) (size : IsCount cursor.rest.length) :
    EncodableBody body ∧ (encodeBody body).length ≤ cursor.rest.length := by
  obtain ⟨front, groups, code, finish, rest, -, vector, few, nested, lexes, rfl⟩ :=
    Decoder.body_eq_ok_iff.mp equation
  obtain ⟨counts, shorter⟩ := least_lexes lexes
  have least := least_locals vector
  have locals : (code.link (groups.flatMap LocalGroup.locals) finish).locals =
      groups.flatMap LocalGroup.locals := by
    rw [Code.link_eq]
  have operators := Code.operators_link (groups.flatMap LocalGroup.locals) code finish
  rw [List.map_append, List.map_cons, List.map_nil, ← operators] at counts shorter
  have short : (encodeBody (code.link (groups.flatMap LocalGroup.locals) finish)).length ≤
      cursor.rest.length := by
    rw [encodeBody, locals, rest]
    exact length_append_le least shorter
  refine ⟨⟨?_, ⟨code, finish, nested, ?_⟩, counts, short.trans_lt size⟩, short⟩
  · rw [locals, length_flatMap_locals]
    exact few
  · rw [locals]

/-! ## Entries of the code section -/

/-- A window of its own is read without moving on. -/
theorem reads_within {α : Type} {decoder : Decoder α} {window later : Cursor} {value : α}
    (equation : decoder window = .ok value later) (position : Nat) :
    Reads (within window decoder) position [] value := by
  intro rest
  unfold within
  rw [equation]
  rfl

/-- What is read in a window of its own is read there. -/
theorem admits_within {α : Type} {decoder : Decoder α} {window : Cursor} :
    Admits (within window decoder) fun bytes value =>
      bytes = [] ∧ ∃ later, decoder window = .ok value later := by
  intro cursor later value equation
  unfold within at equation
  split at equation
  · next result after inside =>
      cases equation
      exact ⟨[], rfl, rfl, rfl, after, inside⟩
  · cases equation

/-- Placing bodies keeps their number. -/
theorem length_allPlaced (position : Nat) (bodies : List Body) :
    (Body.allPlaced position bodies).length = bodies.length := by
  induction bodies generalizing position with
  | nil => rfl
  | cons body bodies bodiesInduction => exact congrArg Nat.succ (bodiesInduction _)

/-- Encoded bodies are read as they are placed. -/
theorem readsEach_codeEntry {bodies : List Body} (each : ∀ body ∈ bodies, EncodableBody body)
    (position : Nat) :
    ReadsEach codeEntry position (bodies.flatMap fun body => encodeSized (encodeBody body))
      (Body.allPlaced position bodies) := by
  induction bodies generalizing position with
  | nil => exact .nil
  | cons body bodies bodiesInduction =>
      obtain ⟨first, others⟩ := List.forall_mem_cons.mp each
      obtain ⟨index, whole⟩ := spellsIndex_count first.size
      let start := position + (unsignedForm (encodeBody body).length).length
      obtain ⟨last, equation⟩ := exists_body first start
      have reads : Reads codeEntry position (encodeSized (encodeBody body))
          (body.placed start) := by
        refine (reads_unsigned32 position index).bind ?_
        exact (reads_window _ whole.symm).thenNothing (reads_within equation _)
      have stop : position + (encodeSized (encodeBody body)).length =
          start + (encodeBody body).length := by
        rw [encodeSized, List.length_append, Nat.add_assoc]
      have later := bodiesInduction others (start + (encodeBody body).length)
      exact .cons reads (stop ▸ later)

/-- What is read as an entry of the code section can be encoded, in no more bytes. -/
theorem admits_codeEntry : Admits codeEntry fun bytes body =>
    EncodableBody body ∧ (encodeSized (encodeBody body)).length ≤ bytes.length := by
  refine admits_unsigned32.bind fun size front spells => (admits_window size.toNat).bind ?_
  rintro window back ⟨length, rest⟩
  refine admits_within.imp ?_
  rintro _ body ⟨rfl, later, equation⟩
  obtain ⟨isCount, least⟩ := least_sized spells length
  rw [← rest] at isCount
  obtain ⟨encodable, short⟩ := encodableBody_of_body equation isCount
  refine ⟨encodable, ?_⟩
  rw [rest] at short
  have counts := length_unsignedForm_mono short
  rw [List.append_nil]
  exact Nat.le_trans (length_append_le counts short) least

end Binary

end WasmCompiler
