import WasmCompiler.Proofs.Layout
import WasmCompiler.Proofs.Progression

/-! # Operators and the code that they form

Putting operators together neither loses nor invents any, and it opens no block inside too many
others. Written out with their offsets, the operators read so far, those to come and those of the
code that is closed in the end are the same list:

* **`TokenStream.assemble_marks`** — the operators of a stream are those of its code;
* **`TokenStream.assemble_nestedWithin`** — that code is nested at most `maxNesting` deep;
* **`structured_of_decodeBody`** — a decoded body is the linked form of such code, and its offsets
  ascend. -/

namespace WasmCompiler

/-! ## Operators of structured code -/

/-- The operator that a jump is encoded as. -/
def Jump.operator {depth : Nat} : Jump depth → Operator
  | .always level => .branch level.val.toUInt32
  | .ifTrue level => .branchIf level.val.toUInt32
  | .table levels fallback =>
      .branchTable (levels.map fun level => level.val.toUInt32) fallback.val.toUInt32

/-- The operator that opens a block of a kind. -/
def BlockKind.operator (kind : BlockKind) (type : BlockType) : Operator :=
  match kind with
  | .block => .block type
  | .loop => .loop type

namespace Code

/-- The operators of a sequence in the order in which a module encodes them, with their offsets. -/
def marks : {depth : Nat} → Code depth → List (Nat × Operator)
  | _, .empty => []
  | _, .plain offset instruction next => (offset, .plain instruction) :: next.marks
  | _, .jump offset leap next => (offset, leap.operator) :: next.marks
  | _, .block offset kind type body finish next =>
      (offset, kind.operator type) :: (body.marks ++ (finish, .finish) :: next.marks)
  | _, .ifThen offset type arm finish next =>
      (offset, .ifThen type) :: (arm.marks ++ (finish, .finish) :: next.marks)
  | _, .ifElse offset type arm middle otherwise finish next =>
      (offset, .ifThen type) ::
        (arm.marks ++ (middle, .otherwise) ::
          (otherwise.marks ++ (finish, .finish) :: next.marks))

/-- The offsets of a sequence are those of its operators. -/
theorem map_fst_marks {depth : Nat} (code : Code depth) :
    code.marks.map Prod.fst = code.offsets := by
  induction code with
  | empty => rfl
  | plain offset instruction next nextInduction =>
      simp only [marks, offsets, List.map_cons, nextInduction]
  | jump offset leap next nextInduction =>
      simp only [marks, offsets, List.map_cons, nextInduction]
  | block offset kind type body finish next bodyInduction nextInduction =>
      simp only [marks, offsets, List.map_cons, List.map_append, bodyInduction, nextInduction]
  | ifThen offset type arm finish next armInduction nextInduction =>
      simp only [marks, offsets, List.map_cons, List.map_append, armInduction, nextInduction]
  | ifElse offset type arm middle otherwise finish next armInduction otherwiseInduction
      nextInduction =>
      simp only [marks, offsets, List.map_cons, List.map_append, armInduction,
        otherwiseInduction, nextInduction]

/-- Whether no block of a sequence is opened inside `limit` others or more. -/
def NestedWithin (limit : Nat) : {depth : Nat} → Code depth → Prop
  | _, .empty => True
  | _, .plain _ _ next => next.NestedWithin limit
  | _, .jump _ _ next => next.NestedWithin limit
  | depth, .block _ _ _ body _ next =>
      depth < limit ∧ body.NestedWithin limit ∧ next.NestedWithin limit
  | depth, .ifThen _ _ arm _ next =>
      depth < limit ∧ arm.NestedWithin limit ∧ next.NestedWithin limit
  | depth, .ifElse _ _ arm _ otherwise _ next =>
      depth < limit ∧ arm.NestedWithin limit ∧ otherwise.NestedWithin limit ∧
        next.NestedWithin limit

/-! ## Sequences in the opposite order -/

/-- The operators of a reversed sequence come in front of those of the code after it. -/
theorem marks_reverseOnto {depth : Nat} (code done : Code depth) :
    (code.reverseOnto done).marks = code.reverse.marks ++ done.marks := by
  unfold reverse
  -- What is done is arbitrary, so the hypothesis serves for both sides.
  induction code with
  | empty => rfl
  | plain offset instruction next nextInduction =>
      simp only [reverseOnto]
      rw [nextInduction (.plain offset instruction done),
        nextInduction (.plain offset instruction .empty)]
      simp only [marks, List.append_assoc, List.cons_append, List.nil_append]
  | jump offset leap next nextInduction =>
      simp only [reverseOnto]
      rw [nextInduction (.jump offset leap done), nextInduction (.jump offset leap .empty)]
      simp only [marks, List.append_assoc, List.cons_append, List.nil_append]
  | block offset kind type body finish next bodyInduction nextInduction =>
      simp only [reverseOnto]
      rw [nextInduction (.block offset kind type body finish done),
        nextInduction (.block offset kind type body finish .empty)]
      simp only [marks, List.append_assoc, List.cons_append, List.nil_append]
  | ifThen offset type arm finish next armInduction nextInduction =>
      simp only [reverseOnto]
      rw [nextInduction (.ifThen offset type arm finish done),
        nextInduction (.ifThen offset type arm finish .empty)]
      simp only [marks, List.append_assoc, List.cons_append, List.nil_append]
  | ifElse offset type arm middle otherwise finish next armInduction otherwiseInduction
      nextInduction =>
      simp only [reverseOnto]
      rw [nextInduction (.ifElse offset type arm middle otherwise finish done),
        nextInduction (.ifElse offset type arm middle otherwise finish .empty)]
      simp only [marks, List.append_assoc, List.cons_append, List.nil_append]

/-- Empty code that is turned around has no operators. -/
@[simp] theorem marks_reverse_empty {depth : Nat} :
    (empty : Code depth).reverse.marks = [] := rfl

/-- One more instruction in front of a sequence is one more at the end of the reversed one. -/
theorem marks_reverse_plain {depth : Nat} (offset : Nat) (instruction : PlainInstruction)
    (next : Code depth) :
    (plain offset instruction next).reverse.marks =
      next.reverse.marks ++ [(offset, .plain instruction)] := by
  rw [reverse, reverseOnto, marks_reverseOnto]
  rfl

/-- One more branch in front of a sequence is one more at the end of the reversed one. -/
theorem marks_reverse_jump {depth : Nat} (offset : Nat) (leap : Jump depth) (next : Code depth) :
    (jump offset leap next).reverse.marks = next.reverse.marks ++ [(offset, leap.operator)] := by
  rw [reverse, reverseOnto, marks_reverseOnto]
  rfl

/-- One more block in front of a sequence is one more at the end of the reversed one. -/
theorem marks_reverse_block {depth : Nat} (offset : Nat) (kind : BlockKind) (type : BlockType)
    (body : Code (depth + 1)) (finish : Nat) (next : Code depth) :
    (block offset kind type body finish next).reverse.marks =
      next.reverse.marks ++
        (offset, kind.operator type) :: (body.marks ++ [(finish, .finish)]) := by
  rw [reverse, reverseOnto, marks_reverseOnto]
  rfl

/-- One more conditional block in front of a sequence is one more at the end of the reversed
one. -/
theorem marks_reverse_ifThen {depth : Nat} (offset : Nat) (type : BlockType)
    (arm : Code (depth + 1)) (finish : Nat) (next : Code depth) :
    (ifThen offset type arm finish next).reverse.marks =
      next.reverse.marks ++ (offset, .ifThen type) :: (arm.marks ++ [(finish, .finish)]) := by
  rw [reverse, reverseOnto, marks_reverseOnto]
  rfl

/-- One more conditional block with two arms in front of a sequence is one more at the end of the
reversed one. -/
theorem marks_reverse_ifElse {depth : Nat} (offset : Nat) (type : BlockType)
    (arm : Code (depth + 1)) (middle : Nat) (otherwise : Code (depth + 1)) (finish : Nat)
    (next : Code depth) :
    (ifElse offset type arm middle otherwise finish next).reverse.marks =
      next.reverse.marks ++
        (offset, .ifThen type) ::
          (arm.marks ++ (middle, .otherwise) :: (otherwise.marks ++ [(finish, .finish)])) := by
  rw [reverse, reverseOnto, marks_reverseOnto]
  rfl

/-- Reversing a sequence opens no block deeper. -/
theorem nestedWithin_reverseOnto {limit depth : Nat} {code done : Code depth}
    (codeNested : code.NestedWithin limit) (doneNested : done.NestedWithin limit) :
    (code.reverseOnto done).NestedWithin limit := by
  induction code with
  | empty => exact doneNested
  | plain offset instruction next nextInduction => exact nextInduction codeNested doneNested
  | jump offset leap next nextInduction => exact nextInduction codeNested doneNested
  | block offset kind type body finish next bodyInduction nextInduction =>
      obtain ⟨below, bodyNested, nextNested⟩ := codeNested
      exact nextInduction nextNested ⟨below, bodyNested, doneNested⟩
  | ifThen offset type arm finish next armInduction nextInduction =>
      obtain ⟨below, armNested, nextNested⟩ := codeNested
      exact nextInduction nextNested ⟨below, armNested, doneNested⟩
  | ifElse offset type arm middle otherwise finish next armInduction otherwiseInduction
      nextInduction =>
      obtain ⟨below, armNested, otherwiseNested, nextNested⟩ := codeNested
      exact nextInduction nextNested ⟨below, armNested, otherwiseNested, doneNested⟩

/-- Code that is turned around is nested as deep. -/
theorem nestedWithin_reverse {limit depth : Nat} {code : Code depth}
    (nested : code.NestedWithin limit) : code.reverse.NestedWithin limit :=
  nestedWithin_reverseOnto nested trivial

end Code

namespace Binary

/-! ## Putting operators together -/

/-- The operators of a stream with their offsets. -/
def TokenStream.marks : TokenStream → List (Nat × Operator)
  | .exhausted _ | .failed .. => []
  | .next token rest => (token.offset, token.operator) :: rest.marks

namespace Context

/-- The operators that have opened the blocks around a place and those before them. -/
def marks : {depth : Nat} → Context depth → List (Nat × Operator)
  | _, .top => []
  | _, .block offset kind type before outer =>
      outer.marks ++ before.reverse.marks ++ [(offset, kind.operator type)]
  | _, .firstArm offset type before outer =>
      outer.marks ++ before.reverse.marks ++ [(offset, .ifThen type)]
  | _, .secondArm offset type arm middle before outer =>
      outer.marks ++ before.reverse.marks ++
        ((offset, .ifThen type) :: (arm.marks ++ [(middle, .otherwise)]))

/-- Whether the blocks around a place and those before them are nested less than a limit deep. -/
def NestedWithin (limit : Nat) : {depth : Nat} → Context depth → Prop
  | _, .top => True
  | depth + 1, .block _ _ _ before outer =>
      depth < limit ∧ before.NestedWithin limit ∧ outer.NestedWithin limit
  | depth + 1, .firstArm _ _ before outer =>
      depth < limit ∧ before.NestedWithin limit ∧ outer.NestedWithin limit
  | depth + 1, .secondArm _ _ arm _ before outer =>
      depth < limit ∧ arm.NestedWithin limit ∧ before.NestedWithin limit ∧
        outer.NestedWithin limit

end Context

/-- A level is that of the branch. -/
theorem levelOf_eq_ok {depth offset : Nat} {level : UInt32} {resolved : Fin depth}
    (equation : levelOf depth offset level = .ok resolved) : resolved.val.toUInt32 = level := by
  unfold levelOf at equation
  split at equation
  · cases equation
    exact UInt32.ofNat_toNat
  · cases equation

/-- The levels of a table are those of the branch. -/
theorem mapM_levelOf_eq_ok {depth offset : Nat} {levels : List UInt32}
    {resolved : List (Fin depth)} (equation : levels.mapM (levelOf depth offset) = .ok resolved) :
    resolved.map (fun level => level.val.toUInt32) = levels := by
  induction levels generalizing resolved with
  | nil =>
      cases equation
      rfl
  | cons level levels levelsInduction =>
      rw [List.mapM_cons] at equation
      cases headEquation : levelOf depth offset level with
      | error error =>
          rw [headEquation] at equation
          cases equation
      | ok head =>
          cases tailEquation : levels.mapM (levelOf depth offset) with
          | error error =>
              rw [headEquation, tailEquation] at equation
              cases equation
          | ok tail =>
              rw [headEquation, tailEquation] at equation
              cases equation
              rw [List.map_cons, levelOf_eq_ok headEquation, levelsInduction tailEquation]

/-- **What an operator does** to the open blocks and to the code in the innermost one, short of
closing the whole. -/
inductive Puts (token : Token) : {depth later : Nat} → Context depth → Code depth →
    Context later → Code later → Prop
  /-- An instruction comes to the code. -/
  | plain {depth : Nat} {context : Context depth} {done : Code depth}
      {instruction : PlainInstruction} (operator : token.operator = .plain instruction) :
      Puts token context done context (.plain token.offset instruction done)
  /-- A branch comes to the code. -/
  | jump {depth : Nat} {context : Context depth} {done : Code depth} {leap : Jump depth}
      (operator : token.operator = leap.operator) :
      Puts token context done context (.jump token.offset leap done)
  /-- A block is opened. -/
  | block {depth : Nat} {context : Context depth} {done : Code depth} {type : BlockType}
      (kind : BlockKind) (operator : token.operator = kind.operator type)
      (shallow : depth < maxNesting) :
      Puts token context done (.block token.offset kind type done context) .empty
  /-- A conditional block is opened. -/
  | ifThen {depth : Nat} {context : Context depth} {done : Code depth} {type : BlockType}
      (operator : token.operator = .ifThen type) (shallow : depth < maxNesting) :
      Puts token context done (.firstArm token.offset type done context) .empty
  /-- A second arm is opened. -/
  | otherwise {depth offset : Nat} {type : BlockType} {before : Code depth}
      {outer : Context depth} {done : Code (depth + 1)} (operator : token.operator = .otherwise) :
      Puts token (.firstArm offset type before outer) done
        (.secondArm offset type done.reverse token.offset before outer) .empty
  /-- A block is closed. -/
  | finishBlock {depth offset : Nat} {kind : BlockKind} {type : BlockType} {before : Code depth}
      {outer : Context depth} {done : Code (depth + 1)} (operator : token.operator = .finish) :
      Puts token (.block offset kind type before outer) done outer
        (.block offset kind type done.reverse token.offset before)
  /-- A conditional block with one arm is closed. -/
  | finishFirst {depth offset : Nat} {type : BlockType} {before : Code depth}
      {outer : Context depth} {done : Code (depth + 1)} (operator : token.operator = .finish) :
      Puts token (.firstArm offset type before outer) done outer
        (.ifThen offset type done.reverse token.offset before)
  /-- A conditional block with two arms is closed. -/
  | finishSecond {depth offset : Nat} {type : BlockType} {arm : Code (depth + 1)} {middle : Nat}
      {before : Code depth} {outer : Context depth} {done : Code (depth + 1)}
      (operator : token.operator = .finish) :
      Puts token (.secondArm offset type arm middle before outer) done outer
        (.ifElse offset type arm middle done.reverse token.offset before)

/-- Nesting that is checked is not too deep. -/
theorem checkNesting_bind_eq_ok {α : Type} {depth offset : Nat} {next : Except Error α} {value : α}
    (equation : (do checkNesting depth offset; next) = .ok value) :
    depth < maxNesting ∧ next = .ok value := by
  unfold checkNesting at equation
  split at equation
  · next shallow => exact ⟨shallow, equation⟩
  · cases equation

/-- A sequence succeeds if both parts do. -/
theorem except_bind_eq_ok {ε α β : Type} {first : Except ε α} {second : α → Except ε β}
    {result : β} (equation : (first >>= second) = .ok result) :
    ∃ value, first = .ok value ∧ second value = .ok result := by
  cases first with
  | error error => cases equation
  | ok value => exact ⟨value, rfl, equation⟩

/-- It fails if one part does. -/
theorem except_bind_eq_error {ε α β : Type} {first : Except ε α} {second : α → Except ε β}
    {error : ε} (equation : (first >>= second) = .error error) :
    first = .error error ∨ ∃ value, first = .ok value ∧ second value = .error error := by
  cases first with
  | error other =>
      cases equation
      exact .inl rfl
  | ok value => exact .inr ⟨value, rfl, equation⟩

/-- **An operator in front of a stream** either closes the whole or does its part, and the stream
goes on from there. -/
theorem assemble_next_eq_ok {depth : Nat} {token : Token} {stream : TokenStream}
    {context : Context depth} {done : Code depth} {closed : ClosedCode}
    (equation : (TokenStream.next token stream).assemble context done = .ok closed) :
    (∃ sameDepth : depth = 0, token.operator = .finish ∧ sameDepth ▸ context = .top ∧
        closed = ⟨(sameDepth ▸ done).reverse, token.offset, stream⟩) ∨
      ∃ (later : Nat) (context' : Context later) (done' : Code later),
        Puts token context done context' done' ∧ stream.assemble context' done' = .ok closed := by
  unfold TokenStream.assemble at equation
  simp only at equation
  split at equation
  · next instruction operator => exact .inr ⟨_, _, _, .plain operator, equation⟩
  · next type operator =>
      obtain ⟨shallow, equation⟩ := checkNesting_bind_eq_ok equation
      exact .inr ⟨_, _, _, .block .block operator shallow, equation⟩
  · next type operator =>
      obtain ⟨shallow, equation⟩ := checkNesting_bind_eq_ok equation
      exact .inr ⟨_, _, _, .block .loop operator shallow, equation⟩
  · next type operator =>
      obtain ⟨shallow, equation⟩ := checkNesting_bind_eq_ok equation
      exact .inr ⟨_, _, _, .ifThen operator shallow, equation⟩
  · next operator =>
      split at equation
      · exact .inr ⟨_, _, _, .otherwise operator, equation⟩
      · cases equation
      · cases equation
      · cases equation
  · next operator =>
      split at equation
      · cases equation
        exact .inl ⟨rfl, operator, rfl, rfl⟩
      · exact .inr ⟨_, _, _, .finishBlock operator, equation⟩
      · exact .inr ⟨_, _, _, .finishFirst operator, equation⟩
      · exact .inr ⟨_, _, _, .finishSecond operator, equation⟩
  · next level operator =>
      obtain ⟨resolved, levelEquation, equation⟩ := except_bind_eq_ok equation
      refine .inr ⟨_, _, _, .jump ?_, equation⟩
      rw [operator, Jump.operator, levelOf_eq_ok levelEquation]
  · next level operator =>
      obtain ⟨resolved, levelEquation, equation⟩ := except_bind_eq_ok equation
      refine .inr ⟨_, _, _, .jump ?_, equation⟩
      rw [operator, Jump.operator, levelOf_eq_ok levelEquation]
  · next levels fallback operator =>
      obtain ⟨resolved, levelsEquation, equation⟩ := except_bind_eq_ok equation
      obtain ⟨last, lastEquation, equation⟩ := except_bind_eq_ok equation
      refine .inr ⟨_, _, _, .jump ?_, equation⟩
      rw [operator, Jump.operator, mapM_levelOf_eq_ok levelsEquation, levelOf_eq_ok lastEquation]

/-- An operator does not change what has been read but comes at its end. -/
theorem Puts.marks_eq {token : Token} {depth later : Nat} {context : Context depth}
    {done : Code depth} {context' : Context later} {done' : Code later}
    (puts : Puts token context done context' done') :
    context'.marks ++ done'.reverse.marks =
      context.marks ++ done.reverse.marks ++ [(token.offset, token.operator)] := by
  cases puts with
  | plain operator => rw [Code.marks_reverse_plain, operator, List.append_assoc]
  | jump operator => rw [Code.marks_reverse_jump, operator, List.append_assoc]
  | block kind operator shallow =>
      rw [Context.marks, operator, Code.marks_reverse_empty, List.append_nil]
  | ifThen operator shallow =>
      rw [Context.marks, operator, Code.marks_reverse_empty, List.append_nil]
  | otherwise operator =>
      simp only [Context.marks, operator, Code.marks_reverse_empty, List.append_nil,
        List.append_assoc, List.cons_append, List.nil_append]
  | finishBlock operator =>
      simp only [Context.marks, operator, Code.marks_reverse_block, List.append_assoc,
        List.cons_append, List.nil_append]
  | finishFirst operator =>
      simp only [Context.marks, operator, Code.marks_reverse_ifThen, List.append_assoc,
        List.cons_append, List.nil_append]
  | finishSecond operator =>
      simp only [Context.marks, operator, Code.marks_reverse_ifElse, List.append_assoc,
        List.cons_append, List.nil_append]

/-- An operator keeps everything nested within the limit. -/
theorem Puts.nestedWithin {token : Token} {depth later : Nat} {context : Context depth}
    {done : Code depth} {context' : Context later} {done' : Code later}
    (puts : Puts token context done context' done')
    (contextNested : context.NestedWithin maxNesting) (doneNested : done.NestedWithin maxNesting) :
    context'.NestedWithin maxNesting ∧ done'.NestedWithin maxNesting := by
  cases puts with
  | plain operator => exact ⟨contextNested, doneNested⟩
  | jump operator => exact ⟨contextNested, doneNested⟩
  | block kind operator shallow => exact ⟨⟨shallow, doneNested, contextNested⟩, trivial⟩
  | ifThen operator shallow => exact ⟨⟨shallow, doneNested, contextNested⟩, trivial⟩
  | otherwise operator =>
      obtain ⟨below, beforeNested, outerNested⟩ := contextNested
      exact ⟨⟨below, Code.nestedWithin_reverse doneNested, beforeNested, outerNested⟩, trivial⟩
  | finishBlock operator =>
      obtain ⟨below, beforeNested, outerNested⟩ := contextNested
      exact ⟨outerNested, below, Code.nestedWithin_reverse doneNested, beforeNested⟩
  | finishFirst operator =>
      obtain ⟨below, beforeNested, outerNested⟩ := contextNested
      exact ⟨outerNested, below, Code.nestedWithin_reverse doneNested, beforeNested⟩
  | finishSecond operator =>
      obtain ⟨below, armNested, beforeNested, outerNested⟩ := contextNested
      exact ⟨outerNested, below, armNested, Code.nestedWithin_reverse doneNested, beforeNested⟩

namespace TokenStream

/-- **The operators of a stream are those of its code**, after those read before and in front of
those that follow the end. -/
theorem assemble_marks {stream : TokenStream} {depth : Nat} {context : Context depth}
    {done : Code depth} {closed : ClosedCode}
    (equation : stream.assemble context done = .ok closed) :
    context.marks ++ done.reverse.marks ++ stream.marks =
      closed.code.marks ++ (closed.finish, .finish) :: closed.rest.marks := by
  induction stream generalizing depth with
  | exhausted position => cases equation
  | failed offset error position => cases equation
  | next token rest restInduction =>
      rcases assemble_next_eq_ok equation with
        ⟨rfl, operator, contextEquation, rfl⟩ | ⟨later, context', done', puts, onward⟩
      · cases contextEquation
        simp only [marks, Context.marks, operator, List.nil_append]
      · rw [← restInduction onward, puts.marks_eq]
        simp only [marks, List.append_assoc, List.cons_append, List.nil_append]

/-- **The code of a stream is nested within the limit** if what has been read is. -/
theorem assemble_nestedWithin {stream : TokenStream} {depth : Nat} {context : Context depth}
    {done : Code depth} {closed : ClosedCode}
    (equation : stream.assemble context done = .ok closed)
    (contextNested : context.NestedWithin maxNesting) (doneNested : done.NestedWithin maxNesting) :
    closed.code.NestedWithin maxNesting := by
  induction stream generalizing depth with
  | exhausted position => cases equation
  | failed offset error position => cases equation
  | next token rest restInduction =>
      rcases assemble_next_eq_ok equation with
        ⟨rfl, operator, contextEquation, rfl⟩ | ⟨later, context', done', puts, onward⟩
      · exact Code.nestedWithin_reverse doneNested
      · obtain ⟨contextNested', doneNested'⟩ := puts.nestedWithin contextNested doneNested
        exact restInduction onward contextNested' doneNested'

/-! ## Offsets ascend -/

/-- Reading with operators kept in front is reading without them, and then putting them there. -/
theorem readOnto_eq (fuel : Nat) (read : List Token) (cursor : Cursor) :
    readOnto fuel read cursor = reverseOnto read (readOnto fuel [] cursor) := by
  induction fuel generalizing read cursor with
  | zero => rfl
  | succ fuel fuelInduction =>
      simp only [readOnto]
      split
      · rfl
      · split
        · next token after equation =>
            rw [fuelInduction (token :: read), fuelInduction [token]]
            rfl
        · rfl

/-- **The offsets of a window ascend** from the position of the cursor on. -/
theorem sorted_readOnto (fuel : Nat) (cursor : Cursor) :
    (readOnto fuel [] cursor).marks.Pairwise (fun first second => first.1 < second.1) ∧
      ∀ mark ∈ (readOnto fuel [] cursor).marks, cursor.position ≤ mark.1 := by
  induction fuel generalizing cursor with
  | zero => simp [readOnto, reverseOnto, marks]
  | succ fuel fuelInduction =>
      simp only [readOnto]
      split
      · simp [reverseOnto, marks]
      · split
        · next token after equation =>
            obtain ⟨sorted, later⟩ := fuelInduction after
            obtain ⟨offset, onward⟩ := Decoder.token_offset equation
            rw [readOnto_eq]
            simp only [reverseOnto, marks, List.pairwise_cons, List.mem_cons, forall_eq_or_imp,
              offset]
            refine ⟨⟨fun mark member => ?_, sorted⟩, Nat.le_refl _, fun mark member => ?_⟩
            · exact Nat.lt_of_lt_of_le onward (later mark member)
            · exact Nat.le_of_lt (Nat.lt_of_lt_of_le onward (later mark member))
        · simp [reverseOnto, marks]

end TokenStream

/-! ## Bodies -/

/-- The code of a window is nested within the limit, and its offsets and that of its end ascend. -/
theorem Decoder.code_eq_ok {cursor later : Cursor} {code : Code 0} {finish : Nat}
    (equation : Decoder.code cursor = .ok (code, finish) later) :
    code.NestedWithin maxNesting ∧ (code.offsets ++ [finish]).Pairwise (· < ·) := by
  obtain ⟨start, _, startEquation, equation⟩ := Stateful.bind_eq_ok.mp equation
  cases startEquation
  cases closedEquation : (TokenStream.ofCursor cursor).assemble .top .empty with
  | error error =>
      rw [closedEquation] at equation
      cases equation
  | ok closed =>
      rw [closedEquation] at equation
      have same : closed.code = code ∧ closed.finish = finish := by
        simp only at equation
        split at equation <;> cases equation
        exact ⟨rfl, rfl⟩
      obtain ⟨rfl, rfl⟩ := same
      refine ⟨TokenStream.assemble_nestedWithin closedEquation trivial trivial, ?_⟩
      have marks := TokenStream.assemble_marks closedEquation
      obtain ⟨sorted, -⟩ := TokenStream.sorted_readOnto cursor.remaining cursor
      -- The code is a front of what was read, and offsets ascend in all of it.
      have ascending : ((closed.code.marks ++ [(closed.finish, Operator.finish)]) ++
          closed.rest.marks).Pairwise (fun first second => first.1 < second.1) := by
        rw [List.append_assoc, List.singleton_append, ← marks]
        exact sorted
      have offsets : closed.code.offsets ++ [closed.finish] =
          (closed.code.marks ++ [(closed.finish, Operator.finish)]).map Prod.fst := by
        rw [List.map_append, Code.map_fst_marks, List.map_singleton]
      rw [offsets, List.pairwise_map]
      exact (List.pairwise_append.mp ascending).1

/-- Whether a body is the linked form of code that is nested within the limit and whose offsets
ascend. -/
def Structured (body : Body) : Prop :=
  ∃ (locals : List ValueType) (code : Code 0) (finish : Nat),
    body = code.link locals finish ∧ code.NestedWithin maxNesting ∧
      (code.offsets ++ [finish]).Pairwise (· < ·)

/-- **A body that is read is linked code.** -/
theorem Decoder.structured_of_body {cursor later : Cursor} {result : Body}
    (equation : Decoder.body cursor = .ok result later) : Structured result := by
  obtain ⟨groups, _, _, equation⟩ := Stateful.bind_eq_ok.mp equation
  obtain ⟨locals, _, _, equation⟩ := Stateful.bind_eq_ok.mp equation
  obtain ⟨⟨code, finish⟩, _, codeEquation, equation⟩ := Stateful.bind_eq_ok.mp equation
  cases equation
  obtain ⟨nested, sorted⟩ := Decoder.code_eq_ok codeEquation
  exact ⟨locals, code, finish, rfl, nested, sorted⟩

/-- **A decoded body is linked code.** -/
theorem structured_of_decodeBody {bytes : List UInt8} {body : Body}
    (equation : decodeBody bytes = .ok body) : Structured body := by
  unfold decodeBody Decoder.outcome at equation
  split at equation
  · next result later bodyEquation =>
      cases equation
      exact Decoder.structured_of_body bodyEquation
  · cases equation

end Binary

end WasmCompiler
