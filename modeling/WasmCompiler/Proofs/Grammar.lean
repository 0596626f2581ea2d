import WasmCompiler.Proofs.Operators

/-! # The grammar of function bodies

A body is a count and groups of locals, then operators nested in each other, then the end.

* **`Decoder.code_eq_ok_iff`** — what is read as code is the operators of code that is nested within
  the limit, and every such code is read;
* **`IsSequence`** — the grammar of nested operators, on bytes;
* **`IsBody`** — the grammar of bodies;
* **`decodeBody_iff_isBody`** — exactly the bytes of the grammar are decoded, to the locals and the
  operators of their derivation. -/

namespace WasmCompiler

namespace Code

/-! ## Sequences in the opposite order -/

/-- A reversed sequence in the opposite order goes back in front of what follows it. -/
theorem reverseOnto_reverseOnto {depth : Nat} (code done tail : Code depth) :
    (code.reverseOnto done).reverseOnto tail =
      done.reverseOnto (code.reverse.reverseOnto tail) := by
  unfold reverse
  induction code with
  | empty => rfl
  | plain offset instruction next nextInduction =>
      simp only [reverseOnto]
      rw [nextInduction, nextInduction (.plain offset instruction .empty)]
      rfl
  | jump offset leap next nextInduction =>
      simp only [reverseOnto]
      rw [nextInduction, nextInduction (.jump offset leap .empty)]
      rfl
  | block offset kind type body finish next bodyInduction nextInduction =>
      simp only [reverseOnto]
      rw [nextInduction, nextInduction (.block offset kind type body finish .empty)]
      rfl
  | ifThen offset type arm finish next armInduction nextInduction =>
      simp only [reverseOnto]
      rw [nextInduction, nextInduction (.ifThen offset type arm finish .empty)]
      rfl
  | ifElse offset type arm middle otherwise finish next armInduction otherwiseInduction
      nextInduction =>
      simp only [reverseOnto]
      rw [nextInduction, nextInduction (.ifElse offset type arm middle otherwise finish .empty)]
      rfl

/-- Reversing twice gives the sequence back. -/
theorem reverse_reverse {depth : Nat} (code : Code depth) : code.reverse.reverse = code := by
  induction code with
  | empty => rfl
  | plain offset instruction next nextInduction =>
      exact (reverseOnto_reverseOnto next (.plain offset instruction .empty) .empty).trans
        (congrArg (plain offset instruction) nextInduction)
  | jump offset leap next nextInduction =>
      exact (reverseOnto_reverseOnto next (.jump offset leap .empty) .empty).trans
        (congrArg (jump offset leap) nextInduction)
  | block offset kind type body finish next bodyInduction nextInduction =>
      exact (reverseOnto_reverseOnto next (.block offset kind type body finish .empty) .empty).trans
        (congrArg (block offset kind type body finish) nextInduction)
  | ifThen offset type arm finish next armInduction nextInduction =>
      exact (reverseOnto_reverseOnto next (.ifThen offset type arm finish .empty) .empty).trans
        (congrArg (ifThen offset type arm finish) nextInduction)
  | ifElse offset type arm middle otherwise finish next armInduction otherwiseInduction
      nextInduction =>
      exact (reverseOnto_reverseOnto next
        (.ifElse offset type arm middle otherwise finish .empty) .empty).trans
        (congrArg (ifElse offset type arm middle otherwise finish) nextInduction)

end Code

namespace Binary

open Decoder Varint

/-! ## Assembling the operators of code -/

/-- Every level within the limit is found. -/
theorem levelOf_val {depth : Nat} (shallow : depth ≤ maxNesting) (offset : Nat)
    (level : Fin depth) : levelOf depth offset level.val.toUInt32 = .ok level := by
  have whole : level.val.toUInt32.toNat = level.val := by
    refine UInt32.toNat_ofNat_of_lt (level.isLt.trans_le (shallow.trans ?_))
    decide
  unfold levelOf
  rw [dif_pos (by rw [whole]; exact level.isLt)]
  exact congrArg _ (Fin.ext whole)

/-- Levels that name open blocks are all found. -/
theorem mapM_levelOf_val {depth : Nat} (shallow : depth ≤ maxNesting) (offset : Nat)
    (levels : List (Fin depth)) :
    (levels.map fun level => level.val.toUInt32).mapM (levelOf depth offset) = .ok levels := by
  induction levels with
  | nil => rfl
  | cons level levels levelsInduction =>
      rw [List.map_cons, List.mapM_cons, levelOf_val shallow, levelsInduction]
      rfl

/-- A block may be opened within the limit. -/
theorem checkNesting_of_lt {depth : Nat} (shallow : depth < maxNesting) (offset : Nat) :
    checkNesting depth offset = .ok () :=
  if_pos shallow

namespace TokenStream

/-- A stream with an operator starts with it. -/
theorem exists_next_of_marks {stream : TokenStream} {offset : Nat} {operator : Operator}
    {marks : List (Nat × Operator)} (equation : stream.marks = (offset, operator) :: marks) :
    ∃ opcode rest, stream = .next ⟨offset, opcode, operator⟩ rest ∧ rest.marks = marks := by
  cases stream with
  | exhausted position => cases equation
  | failed offset error position => cases equation
  | next token rest =>
      obtain ⟨offset, opcode, operator⟩ := token
      cases equation
      exact ⟨opcode, rest, rfl, rfl⟩

section Steps

variable {depth : Nat} (offset position : Nat) (opcode : UInt8) (type : BlockType)
  (rest : TokenStream) (context : Context depth) (done : Code depth)

/-- The opener of a block starts its inside. -/
theorem assemble_opener (shallow : depth < maxNesting) (kind : BlockKind) :
    (TokenStream.next ⟨offset, opcode, kind.operator type⟩ rest).assemble context done =
      rest.assemble (.block offset kind type done context) .empty := by
  cases kind <;> simp only [assemble, BlockKind.operator, checkNesting_of_lt shallow] <;> rfl

/-- The opener of a conditional block starts its first arm. -/
theorem assemble_ifThen (shallow : depth < maxNesting) :
    (TokenStream.next ⟨offset, opcode, .ifThen type⟩ rest).assemble context done =
      rest.assemble (.firstArm offset type done context) .empty := by
  simp only [assemble, checkNesting_of_lt shallow]
  rfl

/-- The mark between two arms ends the first one and starts the second. -/
theorem assemble_otherwise (arm : Code (depth + 1)) :
    (TokenStream.next ⟨position, opcode, .otherwise⟩ rest).assemble
        (.firstArm offset type done context) (arm.reverseOnto .empty) =
      rest.assemble (.secondArm offset type arm position done context) .empty := by
  simp only [assemble]
  rw [show (arm.reverseOnto .empty).reverse = arm from arm.reverse_reverse]

/-- The end of a block adds it to the code before it. -/
theorem assemble_finish_block (kind : BlockKind) (body : Code (depth + 1)) :
    (TokenStream.next ⟨position, opcode, .finish⟩ rest).assemble
        (.block offset kind type done context) (body.reverseOnto .empty) =
      rest.assemble context (.block offset kind type body position done) := by
  simp only [assemble]
  rw [show (body.reverseOnto .empty).reverse = body from body.reverse_reverse]

/-- The end of a conditional block with one arm adds it to the code before it. -/
theorem assemble_finish_firstArm (arm : Code (depth + 1)) :
    (TokenStream.next ⟨position, opcode, .finish⟩ rest).assemble
        (.firstArm offset type done context) (arm.reverseOnto .empty) =
      rest.assemble context (.ifThen offset type arm position done) := by
  simp only [assemble]
  rw [show (arm.reverseOnto .empty).reverse = arm from arm.reverse_reverse]

/-- The end of a conditional block with two arms adds it to the code before it. -/
theorem assemble_finish_secondArm (arm otherwise : Code (depth + 1)) (middle : Nat) :
    (TokenStream.next ⟨position, opcode, .finish⟩ rest).assemble
        (.secondArm offset type arm middle done context) (otherwise.reverseOnto .empty) =
      rest.assemble context (.ifElse offset type arm middle otherwise position done) := by
  simp only [assemble]
  rw [show (otherwise.reverseOnto .empty).reverse = otherwise from otherwise.reverse_reverse]

/-- A branch within the limit is added to the code before it. -/
theorem assemble_jump (shallow : depth ≤ maxNesting) (leap : Jump depth) :
    (TokenStream.next ⟨offset, opcode, leap.operator⟩ rest).assemble context done =
      rest.assemble context (.jump offset leap done) := by
  cases leap with
  | always level =>
      simp only [assemble, Jump.operator, levelOf_val shallow]
      rfl
  | ifTrue level =>
      simp only [assemble, Jump.operator, levelOf_val shallow]
      rfl
  | table levels fallback =>
      simp only [assemble, Jump.operator, levelOf_val shallow, mapM_levelOf_val shallow]
      rfl

end Steps

/-- **The operators of code are put together as it** in front of the operators that follow, within
whatever blocks are open. -/
theorem assemble_code {depth : Nat} {code : Code depth} (nested : code.NestedWithin maxNesting)
    (shallow : depth ≤ maxNesting) (context : Context depth) (done : Code depth)
    {stream : TokenStream} {tail : List (Nat × Operator)}
    (marks : stream.marks = code.marks ++ tail) :
    ∃ rest : TokenStream, rest.marks = tail ∧ (stream.IsWhole → rest.IsWhole) ∧
      stream.assemble context done = rest.assemble context (code.reverseOnto done) := by
  -- The induction is on the code, so that a block is put together in one case: its opener, its
  -- inside, its end and what follows it each take their own part of the stream.
  induction code generalizing stream tail with
  | empty => exact ⟨stream, marks, id, rfl⟩
  | plain offset instruction next nextInduction =>
      obtain ⟨opcode, later, rfl, laterMarks⟩ := exists_next_of_marks marks
      exact nextInduction nested shallow context (.plain offset instruction done) laterMarks
  | jump offset leap next nextInduction =>
      obtain ⟨opcode, later, rfl, laterMarks⟩ := exists_next_of_marks marks
      obtain ⟨rest, restMarks, whole, equation⟩ :=
        nextInduction nested shallow context (.jump offset leap done) laterMarks
      refine ⟨rest, restMarks, whole, ?_⟩
      rw [assemble_jump _ _ _ _ _ shallow, equation]
      rfl
  | block offset kind type body finish next bodyInduction nextInduction =>
      obtain ⟨below, bodyNested, nextNested⟩ := nested
      rw [Code.marks, List.cons_append, List.append_assoc, List.cons_append] at marks
      obtain ⟨opcode, inside, rfl, insideMarks⟩ := exists_next_of_marks marks
      obtain ⟨closing, closingMarks, closingWhole, bodyEquation⟩ :=
        bodyInduction bodyNested below (.block offset kind type done context) .empty insideMarks
      obtain ⟨closer, after, rfl, afterMarks⟩ := exists_next_of_marks closingMarks
      obtain ⟨rest, restMarks, whole, nextEquation⟩ :=
        nextInduction nextNested shallow context (.block offset kind type body finish done)
          afterMarks
      refine ⟨rest, restMarks, fun isWhole => whole (closingWhole isWhole), ?_⟩
      rw [assemble_opener _ _ _ _ _ _ below, bodyEquation, assemble_finish_block, nextEquation]
      rfl
  | ifThen offset type arm finish next armInduction nextInduction =>
      obtain ⟨below, armNested, nextNested⟩ := nested
      rw [Code.marks, List.cons_append, List.append_assoc, List.cons_append] at marks
      obtain ⟨opcode, inside, rfl, insideMarks⟩ := exists_next_of_marks marks
      obtain ⟨closing, closingMarks, closingWhole, armEquation⟩ :=
        armInduction armNested below (.firstArm offset type done context) .empty insideMarks
      obtain ⟨closer, after, rfl, afterMarks⟩ := exists_next_of_marks closingMarks
      obtain ⟨rest, restMarks, whole, nextEquation⟩ :=
        nextInduction nextNested shallow context (.ifThen offset type arm finish done) afterMarks
      refine ⟨rest, restMarks, fun isWhole => whole (closingWhole isWhole), ?_⟩
      rw [assemble_ifThen _ _ _ _ _ _ below, armEquation, assemble_finish_firstArm, nextEquation]
      rfl
  | ifElse offset type arm middle otherwise finish next armInduction otherwiseInduction
      nextInduction =>
      obtain ⟨below, armNested, otherwiseNested, nextNested⟩ := nested
      rw [Code.marks, List.cons_append, List.append_assoc, List.cons_append, List.append_assoc,
        List.cons_append] at marks
      obtain ⟨opcode, inside, rfl, insideMarks⟩ := exists_next_of_marks marks
      obtain ⟨dividing, dividingMarks, dividingWhole, armEquation⟩ :=
        armInduction armNested below (.firstArm offset type done context) .empty insideMarks
      obtain ⟨divider, second, rfl, secondMarks⟩ := exists_next_of_marks dividingMarks
      obtain ⟨closing, closingMarks, closingWhole, otherwiseEquation⟩ :=
        otherwiseInduction otherwiseNested below (.secondArm offset type arm middle done context)
          .empty secondMarks
      obtain ⟨closer, after, rfl, afterMarks⟩ := exists_next_of_marks closingMarks
      obtain ⟨rest, restMarks, whole, nextEquation⟩ :=
        nextInduction nextNested shallow context
          (.ifElse offset type arm middle otherwise finish done) afterMarks
      refine ⟨rest, restMarks,
        fun isWhole => whole (closingWhole (dividingWhole isWhole)), ?_⟩
      rw [assemble_ifThen _ _ _ _ _ _ below, armEquation, assemble_otherwise, otherwiseEquation,
        assemble_finish_secondArm, nextEquation]
      rfl

/-- Closed code ends where the stream does if nothing follows it. -/
theorem isWhole_of_assemble {stream : TokenStream} {depth : Nat} {context : Context depth}
    {done : Code depth} {closed : ClosedCode}
    (equation : stream.assemble context done = .ok closed) (whole : closed.rest.IsWhole) :
    stream.IsWhole := by
  induction stream generalizing depth with
  | exhausted position => exact trivial
  | failed offset error position => cases equation
  | next token rest restInduction =>
      rcases assemble_next_eq_ok equation with
        ⟨rfl, operator, contextEquation, rfl⟩ | ⟨later, context', done', puts, onward⟩
      · exact whole
      · exact restInduction onward

/-- A stream has no bytes left exactly if all of it was read and no operator is left. -/
theorem hasBytes_eq_false_iff {stream : TokenStream} :
    stream.hasBytes = false ↔ stream.IsWhole ∧ stream.marks = [] := by
  cases stream with
  | exhausted position => exact ⟨fun _ => ⟨trivial, rfl⟩, fun _ => rfl⟩
  | failed offset error position => exact ⟨nofun, fun ended => ended.1.elim⟩
  | next token rest => exact ⟨nofun, fun ended => nomatch ended.2⟩

end TokenStream

/-- Code that takes up a window is closed code with nothing after it. -/
theorem Decoder.code_apply (cursor : Cursor) :
    Decoder.code cursor =
      match (TokenStream.ofCursor cursor).assemble .top .empty with
      | .error error => .error error cursor
      | .ok closed =>
          if closed.rest.hasBytes = true then .error (.trailingBytes closed.rest.offset) cursor
          else .ok (closed.code, closed.finish) cursor := by
  unfold Decoder.code
  rw [Stateful.bind_of_ok _ (Stateful.get_apply cursor)]
  cases (TokenStream.ofCursor cursor).assemble .top .empty with
  | error error => rfl
  | ok closed =>
      by_cases left : closed.rest.hasBytes = true
      · simp only [left]
        rfl
      · simp only [left]
        rfl

/-- **What is read as code** is exactly the operators of code that is nested within the limit, and
the end after them; nothing else is left in the window. -/
theorem Decoder.code_eq_ok_iff {cursor later : Cursor} {code : Code 0} {finish : Nat} :
    Decoder.code cursor = .ok (code, finish) later ↔
      later = cursor ∧ code.NestedWithin maxNesting ∧
        Lexes cursor.position cursor.rest (code.marks ++ [(finish, .finish)]) := by
  constructor
  · intro equation
    have nested := (Decoder.code_eq_ok equation).1
    rw [Decoder.code_apply] at equation
    split at equation
    · cases equation
    · next closed assembled =>
        split at equation
        · cases equation
        · next used =>
            cases equation
            have ended := TokenStream.hasBytes_eq_false_iff.mp (Bool.eq_false_iff.mpr used)
            have marks := TokenStream.assemble_marks assembled
            rw [ended.2] at marks
            have lexes := TokenStream.lexes_readOnto (Nat.le_refl cursor.remaining)
              (TokenStream.isWhole_of_assemble assembled ended.1)
            exact ⟨rfl, nested, marks ▸ lexes⟩
  · rintro ⟨rfl, nested, lexes⟩
    -- The stream of the bytes has the operators of the code in front, and the last one closes it.
    obtain ⟨whole, marks⟩ := TokenStream.readOnto_of_lexes lexes (Nat.le_refl _)
    obtain ⟨closing, closingMarks, closingWhole, assembled⟩ :=
      TokenStream.assemble_code nested (Nat.zero_le _) .top .empty marks
    obtain ⟨closer, rest, rfl, restMarks⟩ := TokenStream.exists_next_of_marks closingMarks
    have closed : (TokenStream.ofCursor later).assemble .top .empty =
        .ok ⟨code, finish, rest⟩ := by
      refine assembled.trans ?_
      simp only [TokenStream.assemble]
      rw [show (code.reverseOnto .empty).reverse = code from code.reverse_reverse]
    have used : rest.hasBytes = false :=
      TokenStream.hasBytes_eq_false_iff.mpr ⟨closingWhole whole, restMarks⟩
    rw [Decoder.code_apply, closed]
    simp only [used]
    rfl

/-! ## The grammar of code -/

/-- The opcode that opens a block of a kind. -/
def blockOpcode : BlockKind → UInt8
  | .block => 0x02
  | .loop => 0x03

/-- **The grammar of operators** inside a number of enclosing blocks, with the operators in the
order of the bytes. -/
inductive IsSequence : (depth : Nat) → List UInt8 → List Operator → Prop
  /-- No operators. -/
  | empty {depth : Nat} : IsSequence depth [] []
  /-- An instruction with its immediates. -/
  | plain {depth : Nat} {front next : List UInt8} {instruction : PlainInstruction}
      {operators : List Operator} (spells : SpellsPlain front instruction)
      (later : IsSequence depth next operators) :
      IsSequence depth (front ++ next) (.plain instruction :: operators)
  /-- A branch out of fewer blocks than there are. -/
  | branch {depth : Nat} {front next : List UInt8} {level : UInt32} {operators : List Operator}
      (index : SpellsIndex front level) (below : level.toNat < depth)
      (later : IsSequence depth next operators) :
      IsSequence depth (0x0c :: (front ++ next)) (.branch level :: operators)
  /-- A conditional branch out of fewer blocks than there are. -/
  | branchIf {depth : Nat} {front next : List UInt8} {level : UInt32} {operators : List Operator}
      (index : SpellsIndex front level) (below : level.toNat < depth)
      (later : IsSequence depth next operators) :
      IsSequence depth (0x0d :: (front ++ next)) (.branchIf level :: operators)
  /-- A table of branches out of fewer blocks than there are. -/
  | branchTable {depth : Nat} {front last next : List UInt8} {levels : List UInt32}
      {fallback : UInt32} {operators : List Operator} (vector : IsVector SpellsIndex front levels)
      (index : SpellsIndex last fallback)
      (below : ∀ level ∈ fallback :: levels, level.toNat < depth)
      (later : IsSequence depth next operators) :
      IsSequence depth (0x0e :: (front ++ last ++ next)) (.branchTable levels fallback :: operators)
  /-- A block up to its end. -/
  | block {depth : Nat} (kind : BlockKind) (type : BlockType) {inside next : List UInt8}
      {body operators : List Operator} (shallow : depth < 1024)
      (nested : IsSequence (depth + 1) inside body) (later : IsSequence depth next operators) :
      IsSequence depth (blockOpcode kind :: blockTypeByte type :: (inside ++ 0x0b :: next))
        (kind.operator type :: (body ++ .finish :: operators))
  /-- A conditional block up to its end. -/
  | ifThen {depth : Nat} (type : BlockType) {inside next : List UInt8}
      {arm operators : List Operator} (shallow : depth < 1024)
      (nested : IsSequence (depth + 1) inside arm) (later : IsSequence depth next operators) :
      IsSequence depth (0x04 :: blockTypeByte type :: (inside ++ 0x0b :: next))
        (.ifThen type :: (arm ++ .finish :: operators))
  /-- A conditional block with two arms up to its end. -/
  | ifElse {depth : Nat} (type : BlockType) {first second next : List UInt8}
      {arm otherwise operators : List Operator} (shallow : depth < 1024)
      (nested : IsSequence (depth + 1) first arm)
      (alternative : IsSequence (depth + 1) second otherwise)
      (later : IsSequence depth next operators) :
      IsSequence depth (0x04 :: blockTypeByte type :: (first ++ 0x05 :: (second ++ 0x0b :: next)))
        (.ifThen type :: (arm ++ .otherwise :: (otherwise ++ .finish :: operators)))

/-- The level of a branch within the limit. -/
theorem toNat_level {depth : Nat} (shallow : depth ≤ maxNesting) (level : Fin depth) :
    level.val.toUInt32.toNat = level.val :=
  UInt32.toNat_ofNat_of_lt (level.isLt.trans_le (shallow.trans (by decide)))

/-- A block has one opener. -/
theorem spellsOperator_opener_iff {kind : BlockKind} {type : BlockType} {bytes : List UInt8} :
    SpellsOperator bytes (kind.operator type) ↔ bytes = [blockOpcode kind, blockTypeByte type] := by
  constructor
  · intro spells
    cases kind <;> cases spells <;> rfl
  · rintro rfl
    cases kind
    · exact .block type
    · exact .loop type

/-- An operator in front of others stands at the position where they start. -/
theorem Lexes.exists_front {position offset : Nat} {bytes : List UInt8} {operator : Operator}
    {marks : List (Nat × Operator)} (lexes : Lexes position bytes ((offset, operator) :: marks)) :
    ∃ front back, bytes = front ++ back ∧ SpellsOperator front operator ∧
      Lexes (position + front.length) back marks := by
  cases lexes with
  | cons spells later => exact ⟨_, _, rfl, spells, later⟩

/-- Positions are compared as numbers. -/
theorem Lexes.at_eq {position other : Nat} {bytes : List UInt8} {marks : List (Nat × Operator)}
    (lexes : Lexes position bytes marks) (same : position = other) : Lexes other bytes marks :=
  same ▸ lexes

/-- A branch of code and the operators after it are a sequence if those after it are. -/
theorem IsSequence.jump {depth : Nat} {leap : Jump depth} {front next : List UInt8}
    {operators : List Operator} (shallow : depth ≤ maxNesting)
    (spells : SpellsOperator front leap.operator) (later : IsSequence depth next operators) :
    IsSequence depth (front ++ next) (leap.operator :: operators) := by
  have below (level : Fin depth) : level.val.toUInt32.toNat < depth := by
    rw [toNat_level shallow]
    exact level.isLt
  cases leap with
  | always level =>
      cases spells with
      | branch index => exact .branch index (below level) later
  | ifTrue level =>
      cases spells with
      | branchIf index => exact .branchIf index (below level) later
  | table levels fallback =>
      cases spells with
      | branchTable vector index =>
          refine .branchTable vector index (fun level member => ?_) later
          rcases List.mem_cons.mp member with rfl | member
          · exact below fallback
          · obtain ⟨inner, -, rfl⟩ := List.mem_map.mp member
            exact below inner

/-- **The operators of code are a sequence of the grammar**, whatever follows them. -/
theorem isSequence_of_lexes {depth : Nat} {code : Code depth}
    (nested : code.NestedWithin maxNesting) (shallow : depth ≤ maxNesting) {position : Nat}
    {bytes : List UInt8} {tail : List (Nat × Operator)}
    (lexes : Lexes position bytes (code.marks ++ tail)) :
    ∃ front back, bytes = front ++ back ∧ IsSequence depth front (code.marks.map Prod.snd) ∧
      Lexes (position + front.length) back tail := by
  -- Operators are taken off the bytes one at a time; a block takes its opener, its inside and its
  -- end before what follows it.
  induction code generalizing position bytes tail with
  | empty => exact ⟨[], bytes, rfl, .empty, lexes⟩
  | plain offset instruction next nextInduction =>
      obtain ⟨first, after, rfl, spells, later⟩ := lexes.exists_front
      obtain ⟨front, back, rfl, sequence, rest⟩ := nextInduction nested shallow later
      cases spells with
      | plain spells =>
          refine ⟨first ++ front, back, (List.append_assoc ..).symm, .plain spells sequence, ?_⟩
          rw [List.length_append, ← Nat.add_assoc]
          exact rest
  | jump offset leap next nextInduction =>
      obtain ⟨first, after, rfl, spells, later⟩ := lexes.exists_front
      obtain ⟨front, back, rfl, sequence, rest⟩ := nextInduction nested shallow later
      refine ⟨first ++ front, back, (List.append_assoc ..).symm, sequence.jump shallow spells, ?_⟩
      rw [List.length_append, ← Nat.add_assoc]
      exact rest
  | block offset kind type body finish next bodyInduction nextInduction =>
      obtain ⟨below, bodyNested, nextNested⟩ := nested
      simp only [Code.marks, List.cons_append, List.append_assoc, List.map_cons,
        List.map_append] at lexes ⊢
      obtain ⟨opener, _, rfl, opens, inside⟩ := lexes.exists_front
      obtain ⟨filling, _, rfl, bodySequence, closing⟩ := bodyInduction bodyNested below inside
      obtain ⟨closer, _, rfl, closes, after⟩ := closing.exists_front
      obtain ⟨front, back, rfl, sequence, rest⟩ := nextInduction nextNested shallow after
      obtain rfl := spellsOperator_opener_iff.mp opens
      cases closes
      refine ⟨_, back, ?_, .block kind type below bodySequence sequence, rest.at_eq ?_⟩
      · simp
      · simp only [List.length_append, List.length_cons, List.length_nil]
        omega
  | ifThen offset type arm finish next armInduction nextInduction =>
      obtain ⟨below, armNested, nextNested⟩ := nested
      simp only [Code.marks, List.cons_append, List.append_assoc, List.map_cons,
        List.map_append] at lexes ⊢
      obtain ⟨opener, _, rfl, opens, inside⟩ := lexes.exists_front
      obtain ⟨filling, _, rfl, armSequence, closing⟩ := armInduction armNested below inside
      obtain ⟨closer, _, rfl, closes, after⟩ := closing.exists_front
      obtain ⟨front, back, rfl, sequence, rest⟩ := nextInduction nextNested shallow after
      cases opens
      cases closes
      refine ⟨_, back, ?_, .ifThen type below armSequence sequence, rest.at_eq ?_⟩
      · simp
      · simp only [List.length_append, List.length_cons, List.length_nil]
        omega
  | ifElse offset type arm middle otherwise finish next armInduction otherwiseInduction
      nextInduction =>
      obtain ⟨below, armNested, otherwiseNested, nextNested⟩ := nested
      simp only [Code.marks, List.cons_append, List.append_assoc, List.map_cons,
        List.map_append] at lexes ⊢
      obtain ⟨opener, _, rfl, opens, inside⟩ := lexes.exists_front
      obtain ⟨first, _, rfl, armSequence, dividing⟩ := armInduction armNested below inside
      obtain ⟨divider, _, rfl, divides, beyond⟩ := dividing.exists_front
      obtain ⟨second, _, rfl, otherwiseSequence, closing⟩ :=
        otherwiseInduction otherwiseNested below beyond
      obtain ⟨closer, _, rfl, closes, after⟩ := closing.exists_front
      obtain ⟨front, back, rfl, sequence, rest⟩ := nextInduction nextNested shallow after
      cases opens
      cases divides
      cases closes
      refine ⟨_, back, ?_, .ifElse type below armSequence otherwiseSequence sequence,
        rest.at_eq ?_⟩
      · simp
      · simp only [List.length_append, List.length_cons, List.length_nil]
        omega

/-! ## Code at a position -/

/-- **Whether bytes at a position spell code**, whatever operators follow it. -/
def SpellsCode {depth : Nat} (position : Nat) (bytes : List UInt8) (code : Code depth) : Prop :=
  ∀ back tail, Lexes (position + bytes.length) back tail →
    Lexes position (bytes ++ back) (code.marks ++ tail)

/-- No operators spell empty code. -/
theorem spellsCode_empty {depth : Nat} (position : Nat) :
    SpellsCode position [] (.empty : Code depth) :=
  fun _ _ rest => rest

namespace SpellsCode

variable {depth position : Nat} {next : List UInt8} {code : Code depth}

/-- An instruction in front of code. -/
theorem plain {front : List UInt8} {instruction : PlainInstruction}
    (spells : SpellsPlain front instruction)
    (later : SpellsCode (position + front.length) next code) :
    SpellsCode position (front ++ next) (.plain position instruction code) := by
  intro back tail rest
  rw [List.length_append, ← Nat.add_assoc] at rest
  rw [List.append_assoc]
  exact .cons (.plain spells) (later back tail rest)

/-- A branch in front of code. -/
theorem jump {front : List UInt8} {leap : Jump depth} (spells : SpellsOperator front leap.operator)
    (later : SpellsCode (position + front.length) next code) :
    SpellsCode position (front ++ next) (.jump position leap code) := by
  intro back tail rest
  rw [List.length_append, ← Nat.add_assoc] at rest
  rw [List.append_assoc]
  exact .cons spells (later back tail rest)

/-- A block in front of code. -/
theorem block (kind : BlockKind) (type : BlockType) {inside : List UInt8}
    {body : Code (depth + 1)} (filling : SpellsCode (position + 2) inside body)
    (later : SpellsCode (position + 2 + inside.length + 1) next code) :
    SpellsCode position (blockOpcode kind :: blockTypeByte type :: (inside ++ 0x0b :: next))
      (.block position kind type body (position + 2 + inside.length) code) := by
  intro back tail rest
  have after := later back tail (rest.at_eq (by
    simp only [List.length_append, List.length_cons]
    omega))
  have opener : SpellsOperator [blockOpcode kind, blockTypeByte type] (kind.operator type) :=
    spellsOperator_opener_iff.mpr rfl
  have opened := Lexes.cons opener (filling _ _ (.cons .finish after))
  simpa [Code.marks] using opened

/-- A conditional block in front of code. -/
theorem ifThen (type : BlockType) {inside : List UInt8} {arm : Code (depth + 1)}
    (filling : SpellsCode (position + 2) inside arm)
    (later : SpellsCode (position + 2 + inside.length + 1) next code) :
    SpellsCode position (0x04 :: blockTypeByte type :: (inside ++ 0x0b :: next))
      (.ifThen position type arm (position + 2 + inside.length) code) := by
  intro back tail rest
  have after := later back tail (rest.at_eq (by
    simp only [List.length_append, List.length_cons]
    omega))
  have opened := Lexes.cons (.ifThen type) (filling _ _ (.cons .finish after))
  simpa [Code.marks] using opened

/-- A conditional block with two arms in front of code. -/
theorem ifElse (type : BlockType) {first second : List UInt8} {arm otherwise : Code (depth + 1)}
    (filling : SpellsCode (position + 2) first arm)
    (alternative : SpellsCode (position + 2 + first.length + 1) second otherwise)
    (later : SpellsCode (position + 2 + first.length + 1 + second.length + 1) next code) :
    SpellsCode position
      (0x04 :: blockTypeByte type :: (first ++ 0x05 :: (second ++ 0x0b :: next)))
      (.ifElse position type arm (position + 2 + first.length) otherwise
        (position + 2 + first.length + 1 + second.length) code) := by
  intro back tail rest
  have after := later back tail (rest.at_eq (by
    simp only [List.length_append, List.length_cons]
    omega))
  have divided := Lexes.cons .otherwise (alternative _ _ (.cons .finish after))
  have opened := Lexes.cons (.ifThen type) (filling _ _ divided)
  simpa [Code.marks] using opened

end SpellsCode

/-- **A sequence of the grammar spells code** at every position. -/
theorem exists_code_of_isSequence {depth : Nat} {bytes : List UInt8} {operators : List Operator}
    (sequence : IsSequence depth bytes operators) (position : Nat) :
    ∃ code : Code depth, code.NestedWithin maxNesting ∧ code.marks.map Prod.snd = operators ∧
      SpellsCode position bytes code := by
  -- The offsets of the code come from the position, which each part hands on to the next.
  induction sequence generalizing position with
  | empty => exact ⟨.empty, trivial, rfl, spellsCode_empty position⟩
  | plain spells later laterInduction =>
      rename_i depth front next instruction operators
      obtain ⟨code, nested, same, rest⟩ := laterInduction _
      exact ⟨.plain position instruction code, nested, congrArg _ same, .plain spells rest⟩
  | branch index below later laterInduction =>
      rename_i depth front next level operators
      obtain ⟨code, nested, same, rest⟩ := laterInduction _
      let leap : Jump depth := .always ⟨level.toNat, below⟩
      have operator : leap.operator = .branch level := congrArg Operator.branch UInt32.ofNat_toNat
      have spells : SpellsOperator (0x0c :: front) leap.operator := operator ▸ .branch index
      refine ⟨.jump position leap code, nested, ?_, .jump spells rest⟩
      rw [Code.marks, List.map_cons, same, operator]
  | branchIf index below later laterInduction =>
      rename_i depth front next level operators
      obtain ⟨code, nested, same, rest⟩ := laterInduction _
      let leap : Jump depth := .ifTrue ⟨level.toNat, below⟩
      have operator : leap.operator = .branchIf level :=
        congrArg Operator.branchIf UInt32.ofNat_toNat
      have spells : SpellsOperator (0x0d :: front) leap.operator := operator ▸ .branchIf index
      refine ⟨.jump position leap code, nested, ?_, .jump spells rest⟩
      rw [Code.marks, List.map_cons, same, operator]
  | branchTable vector index below later laterInduction =>
      rename_i depth front last next levels fallback operators
      obtain ⟨code, nested, same, rest⟩ := laterInduction _
      have first : fallback.toNat < depth := below fallback List.mem_cons_self
      have others : ∀ level ∈ levels, level.toNat < depth :=
        fun level member => below level (List.mem_cons_of_mem _ member)
      let leap : Jump depth :=
        .table (levels.pmap (fun level below => ⟨level.toNat, below⟩) others)
          ⟨fallback.toNat, first⟩
      have operator : leap.operator = .branchTable levels fallback := by
        simp [Jump.operator, leap, List.map_pmap]
      have spells : SpellsOperator (0x0e :: (front ++ last)) leap.operator :=
        operator ▸ .branchTable vector index
      refine ⟨.jump position leap code, nested, ?_, .jump spells rest⟩
      rw [Code.marks, List.map_cons, same, operator]
  | block kind type shallow nested later nestedInduction laterInduction =>
      obtain ⟨body, bodyNested, bodySame, inside⟩ := nestedInduction (position + 2)
      obtain ⟨code, codeNested, codeSame, rest⟩ := laterInduction _
      refine ⟨.block position kind type body _ code, ?_, ?_, .block kind type inside rest⟩
      · exact And.intro shallow ⟨bodyNested, codeNested⟩
      · simp only [Code.marks, List.map_cons, List.map_append, bodySame, codeSame]
  | ifThen type shallow nested later nestedInduction laterInduction =>
      obtain ⟨arm, armNested, armSame, inside⟩ := nestedInduction (position + 2)
      obtain ⟨code, codeNested, codeSame, rest⟩ := laterInduction _
      refine ⟨.ifThen position type arm _ code, ?_, ?_, .ifThen type inside rest⟩
      · exact And.intro shallow ⟨armNested, codeNested⟩
      · simp only [Code.marks, List.map_cons, List.map_append, armSame, codeSame]
  | ifElse type shallow nested alternative later nestedInduction alternativeInduction
      laterInduction =>
      obtain ⟨arm, armNested, armSame, first⟩ := nestedInduction (position + 2)
      obtain ⟨otherwise, otherwiseNested, otherwiseSame, second⟩ := alternativeInduction _
      obtain ⟨code, codeNested, codeSame, rest⟩ := laterInduction _
      refine ⟨.ifElse position type arm _ otherwise _ code, ?_, ?_,
        .ifElse type first second rest⟩
      · exact And.intro shallow ⟨armNested, otherwiseNested, codeNested⟩
      · simp only [Code.marks, List.map_cons, List.map_append, armSame, otherwiseSame, codeSame]

/-! ## Locals -/

/-- A group of locals of one type. -/
structure LocalGroup where
  /-- How many locals there are. -/
  count : UInt32
  /-- Their type. -/
  type : ValueType

/-- The locals of a group. -/
def LocalGroup.locals (group : LocalGroup) : List ValueType :=
  List.replicate group.count.toNat group.type

/-- Whether bytes spell a group of locals. -/
def SpellsGroup (bytes : List UInt8) (group : LocalGroup) : Prop :=
  ∃ front, bytes = front ++ [group.type.toByte] ∧ SpellsIndex front group.count

/-- The number of locals of some groups. -/
def localCount (groups : List LocalGroup) : Nat :=
  (groups.map fun group => group.count.toNat).sum

namespace Decoder

/-- Groups of locals are read if there are not too many locals. -/
theorem reads_localsOnto {bytes : List UInt8} {groups : List LocalGroup}
    (items : Items SpellsGroup bytes groups) {declared : Nat}
    (few : declared + localCount groups ≤ maxLocals) (read : List ValueType) (position : Nat) :
    Reads (localsOnto groups.length declared read) position bytes
      (read.reverse ++ groups.flatMap LocalGroup.locals) := by
  induction items generalizing declared read position with
  | nil =>
      rw [List.flatMap_nil, List.append_nil]
      exact reads_pure _ _
  | cons holds later laterInduction =>
      rename_i front back group groups
      obtain ⟨count, rfl, index⟩ := holds
      have total : declared + group.count.toNat + localCount groups =
          declared + localCount (group :: groups) := by
        rw [localCount, localCount, List.map_cons, List.sum_cons]
        omega
      have fits : ¬maxLocals < declared + group.count.toNat := by omega
      have onward := laterInduction (total.trans_le few)
        (List.replicate group.count.toNat group.type ++ read)
        (position + (count ++ [group.type.toByte]).length)
      rw [List.reverse_append, List.reverse_replicate, List.append_assoc] at onward
      rw [List.length_append, ← Nat.add_assoc] at onward
      rw [List.append_assoc]
      refine .afterPosition ((reads_unsigned32 position index).bind (.refuse fits ?_))
      exact (reads_valueType _ group.type).bind onward

/-- **Groups of locals are admitted exactly as they are spelled**, as long as the locals are not too
many. -/
theorem admits_localsOnto (count : Nat) {declared : Nat} (few : declared ≤ maxLocals)
    (read : List ValueType) :
    Admits (localsOnto count declared read) fun bytes locals =>
      ∃ groups, groups.length = count ∧ Items SpellsGroup bytes groups ∧
        declared + localCount groups ≤ maxLocals ∧
        locals = read.reverse ++ groups.flatMap LocalGroup.locals := by
  induction count generalizing declared read with
  | zero => exact admits_pure ⟨[], rfl, .nil, few, (List.append_nil _).symm⟩
  | succ count countInduction =>
      refine .afterPosition fun offset => admits_unsigned32.bind fun quantity front index => ?_
      refine .refuse fun fits => admits_valueType.bind ?_
      rintro type _ rfl
      refine (countInduction (Nat.le_of_not_lt fits) _).imp ?_
      rintro back locals ⟨groups, length, items, within, rfl⟩
      have group : SpellsGroup (front ++ [type.toByte]) ⟨quantity, type⟩ := ⟨front, rfl, index⟩
      refine ⟨⟨quantity, type⟩ :: groups, congrArg Nat.succ length, ?_, ?_, ?_⟩
      · rw [← List.append_assoc]
        exact .cons group items
      · rw [localCount, List.map_cons, List.sum_cons, ← Nat.add_assoc]
        exact within
      · rw [List.reverse_append, List.reverse_replicate, List.append_assoc]
        rfl

/-! ## Bodies -/

/-- **What is read as a body**: groups of locals and then code that takes up the rest. -/
theorem body_eq_ok_iff {cursor later : Cursor} {body : Body} :
    Decoder.body cursor = .ok body later ↔
      ∃ (front : List UInt8) (groups : List LocalGroup) (code : Code 0) (finish : Nat),
        cursor.rest = front ++ later.rest ∧ later.position = cursor.position + front.length ∧
        IsVector SpellsGroup front groups ∧ localCount groups ≤ maxLocals ∧
        code.NestedWithin maxNesting ∧
        Lexes later.position later.rest (code.marks ++ [(finish, .finish)]) ∧
        body = code.link (groups.flatMap LocalGroup.locals) finish := by
  constructor
  · intro equation
    obtain ⟨count, middle, countEquation, equation⟩ := Stateful.bind_eq_ok.mp equation
    obtain ⟨locals, start, localsEquation, equation⟩ := Stateful.bind_eq_ok.mp equation
    obtain ⟨⟨code, finish⟩, last, codeEquation, equation⟩ := Stateful.bind_eq_ok.mp equation
    cases equation
    obtain ⟨first, firstRest, firstPosition, index⟩ := admits_unsigned32 _ _ _ countEquation
    obtain ⟨second, secondRest, secondPosition, groups, length, items, few, rfl⟩ :=
      admits_localsOnto count.toNat (Nat.zero_le _) [] _ _ _ localsEquation
    obtain ⟨rfl, nested, lexes⟩ := code_eq_ok_iff.mp codeEquation
    rw [Nat.zero_add] at few
    refine ⟨first ++ second, groups, code, finish, ?_, ?_, ⟨first, second, rfl, ?_, items⟩, few,
      nested, lexes, rfl⟩
    · rw [firstRest, secondRest, List.append_assoc]
    · rw [secondPosition, firstPosition, List.length_append, Nat.add_assoc]
    · rw [length]
      exact index
  · rintro ⟨front, groups, code, finish, rest, position, ⟨first, second, rfl, count, items⟩, few,
      nested, lexes, rfl⟩
    obtain ⟨index, whole⟩ := spellsIndex_of_count count
    have locals := reads_localsOnto items ((Nat.zero_add _).trans_le few) []
      (cursor.position + first.length) later.rest
    have counted := reads_unsigned32 cursor.position index (second ++ later.rest)
    have start : cursor = ⟨cursor.position, first ++ (second ++ later.rest)⟩ := by
      rw [← List.append_assoc, ← rest]
    have stop : (⟨cursor.position + first.length + second.length, later.rest⟩ : Cursor) =
        later := by
      rw [Nat.add_assoc, ← List.length_append, ← position]
    have coded : Decoder.code later = .ok (code, finish) later :=
      code_eq_ok_iff.mpr ⟨rfl, nested, lexes⟩
    rw [stop, ← whole] at locals
    unfold Decoder.body
    rw [start, Stateful.bind_of_ok _ counted, Stateful.bind_of_ok _ locals,
      Stateful.bind_of_ok _ coded]
    rfl

end Decoder

/-! ## The grammar of bodies -/

/-- **The grammar of bodies**: a counted list of groups of at most 50000 locals, operators outside
every block, and the end. The locals are those of the groups in order, and the operators are those
of the code in the order of the bytes. -/
def IsBody (bytes : List UInt8) (locals : List ValueType) (operators : List Operator) : Prop :=
  ∃ (front code : List UInt8) (groups : List LocalGroup) (inner : List Operator),
    bytes = front ++ (code ++ [0x0b]) ∧ IsVector SpellsGroup front groups ∧
      localCount groups ≤ 50000 ∧ IsSequence 0 code inner ∧
      locals = groups.flatMap LocalGroup.locals ∧ operators = inner ++ [.finish]

end Binary

/-- The operator that an instruction is the linked form of. -/
def Instruction.operator : Instruction → Operator
  | .plain instruction => .plain instruction
  | .block type _ _ => .block type
  | .loop type _ _ => .loop type
  | .ifThen type _ _ _ => .ifThen type
  | .otherwise _ _ => .otherwise
  | .finish _ => .finish
  | .branch target => .branch target.depth.toUInt32
  | .branchIf target => .branchIf target.depth.toUInt32
  | .branchTable targets fallback =>
      .branchTable (targets.map fun target => target.depth.toUInt32) fallback.depth.toUInt32

/-- The operators of a body in order. -/
def Body.operators (body : Body) : List Operator :=
  body.instructions.toList.map Instruction.operator

/-- Linking a jump keeps its operator. -/
theorem Jump.operator_link {depth : Nat} (leap : Jump depth) (labels : LabelStack depth) :
    (leap.link labels).operator = leap.operator := by
  cases leap with
  | always level => rfl
  | ifTrue level => rfl
  | table levels fallback =>
      simp [Jump.link, Instruction.operator, Jump.operator, LabelStack.branch]

/-- **Linking keeps the operators** of code. -/
theorem Code.map_operator_instructions {depth : Nat} (code : Code depth)
    (labels : LabelStack depth) (position label : Nat) :
    (code.instructions labels position label).map Instruction.operator =
      code.marks.map Prod.snd := by
  induction code generalizing position label with
  | empty => rfl
  | plain offset instruction next nextInduction =>
      simp only [instructions, marks, List.map_cons, nextInduction, Instruction.operator]
  | jump offset leap next nextInduction =>
      simp only [instructions, marks, List.map_cons, nextInduction, Jump.operator_link]
  | block offset kind type body finish next bodyInduction nextInduction =>
      simp only [instructions, marks, List.map_cons, List.map_append, bodyInduction,
        nextInduction, Instruction.operator]
      cases kind <;> rfl
  | ifThen offset type arm finish next armInduction nextInduction =>
      simp only [instructions, marks, List.map_cons, List.map_append, armInduction,
        nextInduction, Instruction.operator]
  | ifElse offset type arm middle otherwise finish next armInduction otherwiseInduction
      nextInduction =>
      simp only [instructions, marks, List.map_cons, List.map_append, armInduction,
        otherwiseInduction, nextInduction, Instruction.operator]

/-- The operators of a linked function are those of its code and the end. -/
theorem Code.operators_link (locals : List ValueType) (code : Code 0) (finish : Nat) :
    (code.link locals finish).operators = code.marks.map Prod.snd ++ [.finish] := by
  rw [Body.operators, link_eq, List.map_append, map_operator_instructions]
  rfl

namespace Binary

/-- The end alone. -/
theorem lexes_finish_iff {position finish : Nat} {bytes : List UInt8} :
    Lexes position bytes [(finish, .finish)] ↔ finish = position ∧ bytes = [0x0b] := by
  constructor
  · intro lexes
    cases lexes with
    | cons spells later =>
        cases spells
        cases later
        exact ⟨rfl, rfl⟩
  · rintro ⟨rfl, rfl⟩
    exact .cons .finish .nil

/-- Bytes are a body exactly if a body is read from their start. -/
theorem decodeBody_eq_ok_iff {bytes : List UInt8} {body : Body} :
    decodeBody bytes = .ok body ↔ ∃ later, Decoder.body (.ofBytes bytes) = .ok body later := by
  unfold decodeBody Decoder.outcome
  cases Decoder.body (.ofBytes bytes) with
  | ok value later => simp
  | error error later => simp

/-- **Exactly the bytes of the grammar are decoded.** Bytes decode to a body with given locals and
operators just if the grammar derives these from the bytes. -/
theorem decodeBody_iff_isBody (bytes : List UInt8) (locals : List ValueType)
    (operators : List Operator) :
    (∃ body, decodeBody bytes = .ok body ∧ body.locals = locals ∧ body.operators = operators) ↔
      IsBody bytes locals operators := by
  constructor
  · rintro ⟨body, decoded, rfl, rfl⟩
    obtain ⟨later, equation⟩ := decodeBody_eq_ok_iff.mp decoded
    obtain ⟨front, groups, code, finish, rest, -, vector, few, nested, lexes, rfl⟩ :=
      Decoder.body_eq_ok_iff.mp equation
    obtain ⟨inside, back, split, sequence, last⟩ :=
      isSequence_of_lexes nested (Nat.zero_le _) lexes
    obtain ⟨-, rfl⟩ := lexes_finish_iff.mp last
    refine ⟨front, inside, groups, _, ?_, vector, few, sequence, ?_, Code.operators_link ..⟩
    · rw [← split]
      exact rest
    · rw [Code.link_eq]
  · rintro ⟨front, inside, groups, inner, rfl, vector, few, sequence, rfl, rfl⟩
    obtain ⟨code, nested, same, spells⟩ := exists_code_of_isSequence sequence front.length
    have lexes := spells [0x0b] [(front.length + inside.length, .finish)]
      (lexes_finish_iff.mpr ⟨rfl, rfl⟩)
    refine ⟨code.link (groups.flatMap LocalGroup.locals) (front.length + inside.length),
      decodeBody_eq_ok_iff.mpr ⟨⟨front.length, inside ++ [0x0b]⟩, ?_⟩, ?_, ?_⟩
    · exact Decoder.body_eq_ok_iff.mpr ⟨front, groups, code, _, rfl, (Nat.zero_add _).symm, vector,
        few, nested, lexes, rfl⟩
    · rw [Code.link_eq]
    · rw [Code.operators_link, same]

end Binary

end WasmCompiler
