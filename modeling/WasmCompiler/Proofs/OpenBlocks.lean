import WasmCompiler.Proofs.Freshness
import WasmCompiler.Proofs.Grammar
import WasmCompiler.Proofs.WellLinked

/-! # Open blocks

Three accounts are kept of the blocks around an instruction. The links of a body tell them by their
intervals, decoding keeps the operators that opened them, and emission keeps a stack of frames. An
instruction changes all three in the same way, so they agree wherever emission gets to.

* **`Instruction.openAfter`** — what an instruction does to the open blocks;
* **`Body.openAt_succ`** — so it does to the blocks that the links tell;
* **`Binary.labels_of_comesTo`** — and to the label stack of decoding, which has the mark between
  two arms in place of the opener inside the second arm;
* **`Emitter.moves_instruction`** — and to the frames of emission;
* **`frames_mirror_labels`** — the frames of emission are the label stack of decoding. -/

namespace WasmCompiler

/-! ## Blocks by their intervals -/

/-- **What an instruction at a position does to the open blocks**, innermost first: an opener opens
one, and the mark that ends a block closes the innermost one. -/
def Instruction.openAfter (position : Nat) (openers : List Nat) : Instruction → List Nat
  | .block .. | .loop .. | .ifThen .. => position :: openers
  | .finish (some _) => openers.tail
  | _ => openers

/-- An opener opens a block at its position. -/
theorem Instruction.openAfter_of_isOpener {instruction : Instruction}
    (opens : instruction.isOpener = true) (position : Nat) (openers : List Nat) :
    instruction.openAfter position openers = position :: openers := by
  cases instruction <;> first | rfl | cases opens

/-- **What an operator does to the label stack** where it is the one of a number: an opener puts
itself on it, a mark between two arms takes the place of the opener, and an end takes off the last
one. -/
def Operator.targetsAfter (position : Nat) (targets : List Nat) : Operator → List Nat
  | .block _ | .loop _ | .ifThen _ => position :: targets
  | .otherwise => position :: targets.tail
  | .finish => targets.tail
  | _ => targets

/-- A block is open after an instruction if it was before, or if the instruction opens it. -/
theorem Instruction.mem_openAfter {instruction : Instruction} {position opener : Nat}
    {openers : List Nat} (member : opener ∈ instruction.openAfter position openers) :
    opener = position ∧ instruction.isOpener = true ∨ opener ∈ openers := by
  cases instruction with
  | block | loop | ifThen => exact (List.mem_cons.mp member).imp_left fun same => ⟨same, rfl⟩
  | finish target =>
      cases target with
      | none => exact .inr member
      | some target => exact .inr (List.mem_of_mem_tail member)
  | _ => exact .inr member

namespace Body

/-- **The blocks that are open before the instruction at a position**, by their openers, innermost
first: those that are opened before it and not closed before it. -/
def openAt (body : Body) (position : Nat) : List Nat :=
  body.spanning position position

section

variable {body : Body} {opener closer position : Nat}

/-- A block is open up to the position that closes it. -/
theorem spans_iff :
    body.spans position opener = true ↔
      ∃ closer, body.finishOf? opener = some closer ∧ position ≤ closer := by
  unfold spans
  cases body.finishOf? opener <;> simp

/-- Whether it is open is decided by that position. -/
theorem spans_of_finishOf? (finishes : body.finishOf? opener = some closer) :
    body.spans position opener = decide (position ≤ closer) := by
  rw [spans, finishes]

/-- Blocks that reach as far as a position reach further if none of them ends there. -/
theorem spanning_succ_position {limit : Nat}
    (endless : ∀ opener < limit, body.finishOf? opener ≠ some position) :
    body.spanning limit (position + 1) = body.spanning limit position := by
  refine List.filter_congr fun opener member => ?_
  have before : opener < limit := List.mem_range.mp (List.mem_reverse.mp member)
  cases finishes : body.finishOf? opener with
  | none => rw [spans_eq_false finishes, spans_eq_false finishes]
  | some closer =>
      have : closer ≠ position := by
        rintro rfl
        exact endless opener before finishes
      rw [spans_of_finishOf? finishes, spans_of_finishOf? finishes, decide_eq_decide]
      omega

/-- A block is the innermost one that is open if all blocks that are opened inside it have ended. -/
theorem openAt_of_innermost (finishes : body.finishOf? opener = some closer)
    (after : opener < position) (reaches : position ≤ closer)
    (ended : ∀ inner innerCloser, opener < inner → inner < position →
      body.finishOf? inner = some innerCloser → innerCloser < position) :
    body.openAt position = opener :: body.spanning opener position := by
  have reached : body.spans position opener = true := spans_iff.mpr ⟨closer, finishes, reaches⟩
  rw [openAt, spanning_eq_of_ended after, spanning_succ, if_pos reached]
  intro inner beyond before
  cases innerFinish : body.finishOf? inner with
  | none => exact spans_eq_false innerFinish
  | some innerCloser =>
      have := ended inner innerCloser beyond before innerFinish
      rw [spans_of_finishOf? innerFinish, decide_eq_false_iff_not]
      omega

/-- The second arm of a block starts when all blocks of the first arm have ended. -/
theorem ended_of_divides {middle inner innerCloser : Nat}
    (construct : Construct body.instructions.toList opener (some middle) closer)
    (beyond : opener < inner) (before : inner < middle)
    (finish : body.finishOf? inner = some innerCloser) : innerCloser < middle := by
  cases construct with
  | ifElse dividerEquation closerEquation opens placed divides placedOther closes =>
      have := placed.ended beyond (by omega) finish
      omega

/-- No opener is counted twice. -/
theorem nodup_openAt (body : Body) (position : Nat) : (body.openAt position).Nodup :=
  (List.nodup_reverse.mpr List.nodup_range).filter _

end

section

variable {locals : List ValueType} {code : Code 0} {finish : Nat} {position : Nat}

/-- What an instruction says of the end of a block is so. -/
theorem finishOf?_eq {body : Body} {instruction : Instruction}
    (found : body.instructions[position]? = some instruction) :
    body.finishOf? position = instruction.finish? := by
  rw [finishOf?, found, Option.bind_some]

/-- Where no block is opened, the open blocks are those whose interval has the position. -/
theorem enclosing_eq_openAt {body : Body} (noFinish : body.finishOf? position = none) :
    body.enclosing position = body.openAt position := by
  rw [enclosing, spanning_succ, spans_eq_false noFinish, if_neg Bool.false_ne_true]
  rfl

/-- A block ends at a mark that refers back to it. -/
theorem getElem?_closer {opener closer : Nat}
    (finishes : (code.link locals finish).finishOf? opener = some closer) :
    (code.link locals finish).instructions[closer]? = some (.finish (some opener)) := by
  obtain ⟨-, _, construct⟩ := construct_of_finishOf? finishes
  rw [← Array.getElem?_toList]
  exact construct.closes.2

/-- A closer closes one block only. -/
theorem opener_unique {opener other closer : Nat}
    (finishes : (code.link locals finish).finishOf? other = some closer)
    (found : (code.link locals finish).instructions[closer]? = some (.finish (some opener))) :
    other = opener := by
  have closes := getElem?_closer finishes
  rw [found] at closes
  cases closes
  rfl

/-- At the end of a block that block is the innermost one that is open. -/
theorem openAt_finish {opener : Nat}
    (found : (code.link locals finish).instructions[position]? = some (.finish (some opener))) :
    (code.link locals finish).openAt position =
      opener :: (code.link locals finish).openAt (position + 1) := by
  obtain ⟨divider, construct⟩ : ∃ divider,
      Construct (code.link locals finish).instructions.toList opener divider position := by
    rcases construct_of_finish found with ⟨_, divider, equation, construct⟩ | ⟨-, equation⟩
    · cases equation
      exact ⟨divider, construct⟩
    · cases equation
  have onlyOne : ∀ other, (code.link locals finish).finishOf? other = some position →
      other = opener := fun other finishes => opener_unique finishes found
  rw [openAt_of_innermost (finishOf?_of_construct construct) construct.closes.1 (Nat.le_refl _)]
  · -- The blocks that are opened inside have ended, and those around do not end here.
    rw [openAt, spanning_eq_of_ended (Nat.le_succ_of_le construct.closes.1.le),
      spanning_succ_position fun outer before finishes =>
        Nat.ne_of_lt before (onlyOne outer finishes)]
    intro inner reached below
    cases innerFinish : (code.link locals finish).finishOf? inner with
    | none => exact spans_eq_false innerFinish
    | some innerCloser =>
        have := Code.Placed.ended_of_construct construct reached below innerFinish
        rw [spans_of_finishOf? innerFinish, decide_eq_false_iff_not]
        omega
  · intro inner innerCloser beyond before innerFinish
    have within := Code.Placed.ended_of_construct construct beyond.le (by omega) innerFinish
    have : innerCloser ≠ position := by
      rintro rfl
      exact Nat.ne_of_gt beyond (onlyOne inner innerFinish)
    omega

/-- Where a second arm starts, its block is the innermost one that is open. -/
theorem openAt_otherwise {label opener : Nat}
    (found : (code.link locals finish).instructions[position]? =
      some (.otherwise label opener)) :
    ∃ outer, (code.link locals finish).openAt position = opener :: outer := by
  obtain ⟨closer, construct⟩ := construct_of_otherwise found
  obtain ⟨after, before, -⟩ := construct.divides
  exact ⟨_, openAt_of_innermost (finishOf?_of_construct construct) after before.le
    fun _ _ => ended_of_divides construct⟩

/-- No block is open at the end of the body. -/
theorem openAt_last
    (found : (code.link locals finish).instructions[position]? = some (.finish none)) :
    (code.link locals finish).openAt position = [] := by
  rcases construct_of_finish found with ⟨_, _, equation, -⟩ | ⟨rfl, -⟩
  · cases equation
  · refine List.filter_eq_nil_iff.mpr fun opener _ reaches => ?_
    obtain ⟨closer, finishes, reached⟩ := spans_iff.mp reaches
    have := (construct_of_finishOf? finishes).1
    omega

/-- **An instruction changes the open blocks as it says.** -/
theorem openAt_succ {instruction : Instruction}
    (found : (code.link locals finish).instructions[position]? = some instruction) :
    (code.link locals finish).openAt (position + 1) =
      instruction.openAfter position ((code.link locals finish).openAt position) := by
  by_cases closes : ∃ opener, instruction = .finish (some opener)
  · obtain ⟨opener, rfl⟩ := closes
    rw [openAt_finish found]
    rfl
  · -- No block ends here, so those that are open stay open.
    have stay : (code.link locals finish).spanning position (position + 1) =
        (code.link locals finish).openAt position :=
      spanning_succ_position fun opener _ finishes =>
        closes ⟨opener, Option.some.inj (found.symm.trans (getElem?_closer finishes))⟩
    rw [openAt, spanning_succ, stay]
    by_cases opens : instruction.isOpener = true
    · obtain ⟨_, closer, construct⟩ := construct_of_isOpener found opens
      have reaches : (code.link locals finish).spans (position + 1) position = true :=
        spans_iff.mpr ⟨closer, finishOf?_of_construct construct, construct.closes.1⟩
      rw [if_pos reaches, Instruction.openAfter_of_isOpener opens]
    · have noFinish : instruction.finish? = none := by
        cases instruction <;> first | rfl | exact absurd rfl opens
      rw [spans_eq_false ((finishOf?_eq found).trans noFinish), if_neg Bool.false_ne_true]
      cases instruction with
      | finish opener =>
          cases opener with
          | none => rfl
          | some opener => exact absurd ⟨opener, rfl⟩ closes
      | block | loop | ifThen => exact absurd rfl opens
      | _ => rfl

/-! ## Where branches go to the open blocks -/

/-- Past an instruction that starts no second arm, branches to a block go where they went. -/
theorem branchTarget_succ {instruction : Instruction} {opener : Nat}
    (found : (code.link locals finish).instructions[position]? = some instruction)
    (apart : ∀ label, instruction ≠ .otherwise label opener) :
    (code.link locals finish).branchTarget (position + 1) opener =
      (code.link locals finish).branchTarget position opener := by
  unfold branchTarget
  cases arms : (code.link locals finish).armOf? opener with
  | none => rfl
  | some arm =>
      have : arm ≠ position := by
        rintro rfl
        obtain ⟨_, construct⟩ := construct_of_armOf? arms
        obtain ⟨-, -, label, divides⟩ := construct.divides
        rw [Array.getElem?_toList, found] at divides
        exact apart label (Option.some.inj divides)
      simp only
      split <;> split <;> first | rfl | omega

/-- In the second arm, branches to its block go to the mark that starts it. -/
theorem branchTarget_divider {label opener : Nat}
    (found : (code.link locals finish).instructions[position]? =
      some (.otherwise label opener)) :
    (code.link locals finish).branchTarget (position + 1) opener = position := by
  obtain ⟨_, construct⟩ := construct_of_otherwise found
  rw [branchTarget, armOf?_of_construct construct]
  exact if_pos (Nat.lt_succ_self position)

/-- Right after an opener, branches to its block go to the opener. -/
theorem branchTarget_opener :
    (code.link locals finish).branchTarget (position + 1) position = position := by
  unfold branchTarget
  cases arms : (code.link locals finish).armOf? position with
  | none => rfl
  | some arm =>
      obtain ⟨_, construct⟩ := construct_of_armOf? arms
      obtain ⟨after, -, -⟩ := construct.divides
      exact if_neg (by omega)

/-- Emission finds the block that a branch goes to from the place that it goes to. -/
theorem branchOpener_branchTarget {opener : Nat}
    (member : opener ∈ (code.link locals finish).openAt position) :
    Emission.Emitter.branchOpener (code.link locals finish)
      ((code.link locals finish).branchTarget position opener) = opener := by
  obtain ⟨closer, finishes, -⟩ := spans_iff.mp (List.mem_filter.mp member).2
  obtain ⟨-, divider, construct⟩ := construct_of_finishOf? finishes
  obtain ⟨instruction, found, opens, -⟩ := construct.opens
  rw [Array.getElem?_toList] at found
  have itself := Emission.Emitter.branchOpener_of_isOpener found opens
  unfold branchTarget
  rw [armOf?_of_construct construct]
  cases divider with
  | none => exact itself
  | some middle =>
      simp only
      split
      · obtain ⟨-, -, label, divides⟩ := construct.divides
        rw [Array.getElem?_toList] at divides
        rw [Emission.Emitter.branchOpener, divides]
      · exact itself

/-- **Where branches to the open blocks go** from a position, innermost block first. -/
def targetsAt (body : Body) (position : Nat) : List Nat :=
  (body.openAt position).map (body.branchTarget position)

/-- After the mark between two arms branches to the innermost block go there, and branches to the
others stay as they were. -/
theorem targetsAt_otherwise {label opener : Nat}
    (found : (code.link locals finish).instructions[position]? =
      some (.otherwise label opener)) :
    (code.link locals finish).targetsAt (position + 1) =
      position :: ((code.link locals finish).targetsAt position).tail := by
  obtain ⟨outer, opened⟩ := openAt_otherwise found
  have fresh : opener ∉ outer := by
    have nodup := nodup_openAt (code.link locals finish) position
    rw [opened] at nodup
    exact (List.nodup_cons.mp nodup).1
  have others : outer.map ((code.link locals finish).branchTarget (position + 1)) =
      outer.map ((code.link locals finish).branchTarget position) :=
    List.map_congr_left fun other member => branchTarget_succ found fun label same => by
      cases same
      exact fresh member
  rw [targetsAt, openAt_succ found, targetsAt, opened]
  simp only [Instruction.openAfter, List.map_cons, branchTarget_divider found, others,
    List.tail_cons]

/-- **An operator changes where branches to the open blocks go as it says.** -/
theorem targetsAt_succ {instruction : Instruction}
    (found : (code.link locals finish).instructions[position]? = some instruction) :
    (code.link locals finish).targetsAt (position + 1) =
      instruction.operator.targetsAfter position
        ((code.link locals finish).targetsAt position) := by
  have stay (apart : ∀ label opener, instruction ≠ .otherwise label opener) :
      (code.link locals finish).branchTarget (position + 1) =
        (code.link locals finish).branchTarget position :=
    funext fun opener => branchTarget_succ found fun label => apart label opener
  -- Only a divider changes where branches to an open block go.
  cases instruction with
  | block | loop | ifThen =>
      have kept := stay (by rintro label opener ⟨⟩)
      rw [targetsAt, openAt_succ found, Instruction.openAfter_of_isOpener rfl, List.map_cons,
        branchTarget_opener, kept]
      rfl
  | otherwise label opener => exact targetsAt_otherwise found
  | finish opener =>
      cases opener with
      | none =>
          rw [targetsAt, openAt_succ found, targetsAt, openAt_last found]
          rfl
      | some opener =>
          have kept := stay (by rintro label opener ⟨⟩)
          rw [targetsAt, openAt_succ found, targetsAt, kept]
          exact List.map_tail
  | plain | branch | branchIf | branchTable =>
      have kept := stay (by rintro label opener ⟨⟩)
      rw [targetsAt, openAt_succ found, kept]
      rfl

end

end Body

/-! ## Blocks by the operators that are put together -/

/-- A reversed sequence has the size of the sequence. -/
theorem Code.size_reverseOnto {depth : Nat} (code done : Code depth) :
    (code.reverseOnto done).size = code.size + done.size := by
  induction code with
  | empty => simp [reverseOnto]
  | plain offset instruction next nextInduction =>
      simp only [reverseOnto, nextInduction, size_plain]
      omega
  | jump offset leap next nextInduction =>
      simp only [reverseOnto, nextInduction, size_jump]
      omega
  | block offset kind type body finish next bodyInduction nextInduction =>
      simp only [reverseOnto, nextInduction, size_block]
      omega
  | ifThen offset type arm finish next armInduction nextInduction =>
      simp only [reverseOnto, nextInduction, size_ifThen]
      omega
  | ifElse offset type arm middle otherwise finish next armInduction otherwiseInduction
      nextInduction =>
      simp only [reverseOnto, nextInduction, size_ifElse]
      omega

/-- A sequence has as many operators as its size says. -/
@[simp] theorem Code.length_marks {depth : Nat} (code : Code depth) :
    code.marks.length = code.size := by
  rw [← code.length_offsets, ← code.map_fst_marks, List.length_map]

/-- Code that is turned around has as many instructions. -/
@[simp] theorem Code.size_reverse {depth : Nat} (code : Code depth) :
    code.reverse.size = code.size :=
  code.size_reverseOnto .empty

namespace Binary

namespace Context

/-- The number of operators before the code in the innermost arm. -/
def size : {depth : Nat} → Context depth → Nat
  | _, .top => 0
  | _, .block _ _ _ before outer => outer.size + before.size + 1
  | _, .firstArm _ _ before outer => outer.size + before.size + 1
  | _, .secondArm _ _ arm _ before outer => outer.size + before.size + 1 + arm.size + 1

/-- **The label stack at a place**: the numbers of the operators that have opened the arms around
it. -/
def labels : {depth : Nat} → Context depth → LabelStack depth
  | _, .top => .empty
  | _, .block _ _ _ before outer => outer.labels.push (outer.size + before.size)
  | _, .firstArm _ _ before outer => outer.labels.push (outer.size + before.size)
  | _, .secondArm _ _ arm _ before outer =>
      outer.labels.push (outer.size + before.size + 1 + arm.size)

end Context

/-- **Whether putting operators together comes to a place** after a number of operators: to the
blocks that are open, to the code in the innermost one, and to the operators that follow. -/
inductive TokenStream.ComesTo (stream : TokenStream) :
    (count : Nat) → {depth : Nat} → Context depth → Code depth → TokenStream → Prop where
  /-- Outside every block, in front of all operators. -/
  | start : stream.ComesTo 0 .top .empty stream
  /-- One operator further. -/
  | step {count depth later : Nat} {context : Context depth} {done : Code depth} {token : Token}
      {rest : TokenStream} {context' : Context later} {done' : Code later}
      (comes : stream.ComesTo count context done (.next token rest))
      (puts : Puts token context done context' done') :
      stream.ComesTo (count + 1) context' done' rest

/-- An operator takes one place. -/
theorem Puts.size_eq {token : Token} {depth later : Nat} {context : Context depth}
    {done : Code depth} {context' : Context later} {done' : Code later}
    (puts : Puts token context done context' done') :
    context'.size + done'.size = context.size + done.size + 1 := by
  cases puts <;>
    simp only [Context.size, Code.size_reverse, Code.size_empty, Code.size_plain, Code.size_jump,
      Code.size_block, Code.size_ifThen, Code.size_ifElse] <;>
    omega

namespace TokenStream.ComesTo

variable {stream rest : TokenStream} {count depth : Nat} {context : Context depth}
  {done : Code depth}

/-- The operators that have been put together are counted. -/
theorem size_eq (comes : stream.ComesTo count context done rest) :
    context.size + done.size = count := by
  induction comes with
  | start => rfl
  | step comes puts comesInduction => rw [puts.size_eq, comesInduction]

/-- The operators that have been put together and those that follow are the operators of the
stream. -/
theorem marks_eq (comes : stream.ComesTo count context done rest) :
    context.marks ++ done.reverse.marks ++ rest.marks = stream.marks := by
  induction comes with
  | start => rfl
  | step comes puts comesInduction =>
      rw [puts.marks_eq, List.append_assoc, List.singleton_append]
      exact comesInduction

end TokenStream.ComesTo

/-- The operators around a place and before it are as many as its size says. -/
@[simp] theorem Context.length_marks {depth : Nat} (context : Context depth) :
    context.marks.length = context.size := by
  induction context with
  | top => rfl
  | block offset kind type before outer outerInduction =>
      simp only [marks, size, List.length_append, List.length_singleton, outerInduction,
        Code.length_marks, Code.size_reverse]
  | firstArm offset type before outer outerInduction =>
      simp only [marks, size, List.length_append, List.length_singleton, outerInduction,
        Code.length_marks, Code.size_reverse]
  | secondArm offset type arm middle before outer outerInduction =>
      simp only [marks, size, List.length_append, List.length_cons, List.length_nil,
        outerInduction, Code.length_marks, Code.size_reverse]
      omega

section

variable {stream rest : TokenStream} {closed : ClosedCode} {token : Token} {count depth : Nat}
  {context : Context depth} {done : Code depth}

/-- The operator at a place is that of the instruction that it becomes. -/
theorem exists_instruction_of_comesTo (assembled : stream.assemble .top .empty = .ok closed)
    (locals : List ValueType) (comes : stream.ComesTo count context done (.next token rest))
    (inside : count ≤ closed.code.size) :
    ∃ instruction, (closed.code.link locals closed.finish).instructions[count]? =
      some instruction ∧ instruction.operator = token.operator := by
  have before : (context.marks ++ done.reverse.marks).length = count := by
    rw [List.length_append, Context.length_marks, Code.length_marks, Code.size_reverse,
      comes.size_eq]
  have whole : stream.marks =
      (closed.code.marks ++ [(closed.finish, Operator.finish)]) ++ closed.rest.marks := by
    simpa [Context.marks] using TokenStream.assemble_marks assembled
  have here : stream.marks[count]? = some (token.offset, token.operator) := by
    rw [← comes.marks_eq, List.getElem?_append_right before.le, before, Nat.sub_self]
    rfl
  have operators : (closed.code.link locals closed.finish).operators[count]? =
      some token.operator := by
    rw [whole, List.getElem?_append_left (by simp [Code.length_marks]; omega)] at here
    have named := congrArg (Option.map Prod.snd) here
    rw [← List.getElem?_map] at named
    rw [Code.operators_link]
    simpa using named
  rw [Body.operators, List.getElem?_map, Array.getElem?_toList] at operators
  exact Option.map_eq_some_iff.mp operators

/-- **An operator changes the label stack as it says.** -/
theorem Puts.toList_labels {later : Nat} {context' : Context later} {done' : Code later}
    (puts : Puts token context done context' done') :
    context'.labels.toList =
      token.operator.targetsAfter (context.size + done.size) context.labels.toList := by
  cases puts with
  | plain operator => rw [operator]; rfl
  | @jump _ _ _ leap operator =>
      rw [operator]
      cases leap <;> rfl
  | block kind operator shallow =>
      rw [operator]
      cases kind <;> rfl
  | ifThen operator shallow => rw [operator]; rfl
  | otherwise operator =>
      rw [operator]
      simp only [Context.labels, Context.size, LabelStack.toList, Operator.targetsAfter,
        List.tail_cons, Code.size_reverse]
  | finishBlock operator => rw [operator]; rfl
  | finishFirst operator => rw [operator]; rfl
  | finishSecond operator => rw [operator]; rfl

/-- **The label stack of decoding** is where branches to the open blocks go. -/
theorem labels_of_comesTo (assembled : stream.assemble .top .empty = .ok closed)
    (locals : List ValueType) (comes : stream.ComesTo count context done rest)
    (inside : count ≤ closed.code.size) :
    context.labels.toList = (closed.code.link locals closed.finish).targetsAt count := by
  induction comes with
  | start => rfl
  | step comes puts comesInduction =>
      obtain ⟨instruction, found, same⟩ :=
        exists_instruction_of_comesTo assembled locals comes (by omega)
      rw [puts.toList_labels, comes.size_eq, comesInduction (by omega), ← same,
        Body.targetsAt_succ found]

/-- Every operator of the code and the end of it are come to. -/
theorem exists_comesTo (assembled : stream.assemble .top .empty = .ok closed)
    (inside : count ≤ closed.code.size) :
    ∃ (depth : Nat) (context : Context depth) (done : Code depth) (token : Token)
      (rest : TokenStream), stream.ComesTo count context done (.next token rest) ∧
        (TokenStream.next token rest).assemble context done = .ok closed := by
  -- By steps; reading cannot have stopped while instructions are left.
  have onward : ∃ (depth : Nat) (context : Context depth) (done : Code depth) (rest : TokenStream),
      stream.ComesTo count context done rest ∧ rest.assemble context done = .ok closed := by
    induction count with
    | zero => exact ⟨_, _, _, _, .start, assembled⟩
    | succ count countInduction =>
        obtain ⟨depth, context, done, rest, comes, closes⟩ := countInduction (by omega)
        cases rest with
        | exhausted position => cases closes
        | failed offset error position => cases closes
        | next token rest =>
            rcases assemble_next_eq_ok closes with
              ⟨rfl, operator, contextEquation, rfl⟩ | ⟨later, context', done', puts, goesOn⟩
            · cases contextEquation
              have := comes.size_eq
              simp only [Context.size, Code.size_reverse] at this inside
              omega
            · exact ⟨_, _, _, _, comes.step puts, goesOn⟩
  obtain ⟨depth, context, done, rest, comes, closes⟩ := onward
  cases rest with
  | exhausted position => cases closes
  | failed offset error position => cases closes
  | next token rest => exact ⟨_, _, _, _, _, comes, closes⟩

end

/-- **Whether decoding of a body holds a label stack** when it comes to an instruction: after the
locals are read, putting the operators of the window together comes to that place. -/
def Decoder.HoldsLabels (cursor : Cursor) (position : Nat) {depth : Nat}
    (labels : LabelStack depth) : Prop :=
  ∃ (groups : UInt32) (counted : Cursor) (locals : List ValueType) (opening : Cursor)
    (context : Context depth) (done : Code depth) (token : Token) (rest : TokenStream),
    Decoder.unsigned32 cursor = .ok groups counted ∧
      Decoder.localsOnto groups.toNat 0 [] counted = .ok locals opening ∧
      (TokenStream.ofCursor opening).ComesTo position context done (.next token rest) ∧
      context.labels = labels

/-- A body that is read is the linked form of the code that its operators are put together to. -/
theorem Decoder.exists_assembled {cursor later : Cursor} {body : Body}
    (decoded : Decoder.body cursor = .ok body later) :
    ∃ (groups : UInt32) (counted : Cursor) (locals : List ValueType) (opening : Cursor)
      (closed : ClosedCode), Decoder.unsigned32 cursor = .ok groups counted ∧
      Decoder.localsOnto groups.toNat 0 [] counted = .ok locals opening ∧
      (TokenStream.ofCursor opening).assemble .top .empty = .ok closed ∧
      body = closed.code.link locals closed.finish := by
  obtain ⟨groups, counted, countEquation, equation⟩ := Stateful.bind_eq_ok.mp decoded
  obtain ⟨locals, opening, localsEquation, equation⟩ := Stateful.bind_eq_ok.mp equation
  obtain ⟨⟨code, finish⟩, last, codeEquation, equation⟩ := Stateful.bind_eq_ok.mp equation
  cases equation
  rw [Decoder.code_apply] at codeEquation
  cases assembled : (TokenStream.ofCursor opening).assemble .top .empty with
  | error error =>
      rw [assembled] at codeEquation
      cases codeEquation
  | ok closed =>
      refine ⟨groups, counted, locals, opening, closed, countEquation, localsEquation, assembled,
        ?_⟩
      rw [assembled] at codeEquation
      simp only at codeEquation
      split at codeEquation <;> cases codeEquation
      rfl

/-- Decoding holds a label stack at every instruction of the body. -/
theorem Decoder.exists_holdsLabels {cursor later : Cursor} {body : Body} {position : Nat}
    (decoded : Decoder.body cursor = .ok body later) (inside : position < body.size) :
    ∃ (depth : Nat) (labels : LabelStack depth), HoldsLabels cursor position labels := by
  obtain ⟨groups, counted, locals, opening, closed, countEquation, localsEquation, assembled,
    rfl⟩ := exists_assembled decoded
  rw [Body.size, Body.size_link] at inside
  obtain ⟨depth, context, done, token, rest, comes, -⟩ :=
    exists_comesTo assembled (Nat.le_of_lt_succ inside)
  exact ⟨depth, context.labels, groups, counted, locals, opening, context, done, token, rest,
    countEquation, localsEquation, comes, rfl⟩

/-- **The label stack that decoding holds** is where branches to the open blocks go. -/
theorem Decoder.HoldsLabels.toList_eq {cursor later : Cursor} {body : Body} {position depth : Nat}
    {labels : LabelStack depth} (holds : HoldsLabels cursor position labels)
    (decoded : Decoder.body cursor = .ok body later) (inside : position < body.size) :
    labels.toList = body.targetsAt position := by
  obtain ⟨groups, counted, locals, opening, closed, countEquation, localsEquation, assembled,
    rfl⟩ := exists_assembled decoded
  obtain ⟨_, _, _, _, context, done, token, rest, otherCount, otherLocals, comes, rfl⟩ := holds
  cases countEquation.symm.trans otherCount
  cases localsEquation.symm.trans otherLocals
  rw [Body.size, Body.size_link] at inside
  exact labels_of_comesTo assembled locals comes (Nat.le_of_lt_succ inside)

end Binary

/-! ## Blocks by the frames of emission -/

namespace Emission

open Stateful

namespace Emitter

variable {α β : Type} {change : List Nat → List Nat}

/-- **Whether an action changes the open blocks** in a way, and keeps all names for labels of the
body. -/
def Moves (change : List Nat → List Nat) (action : Emitter α) : Prop :=
  ∀ state value later, action state = .ok value later →
    later.frames.map Frame.opener = change (state.frames.map Frame.opener) ∧
      state.labels <:+ later.labels

/-- An action that neither opens nor closes a block. -/
def KeepsBlocks (action : Emitter α) : Prop :=
  Moves id action

/-- An action that always fails makes any change. -/
theorem moves_throw (error : Error) : Moves change (throw error : Emitter α) := by
  intro state value later equation
  cases equation

/-- An action that changes nothing keeps the blocks. -/
theorem keepsBlocks_of_looks {action : Emitter α}
    (looks : ∀ state value later, action state = .ok value later → later = state) :
    KeepsBlocks action := by
  intro state value later equation
  obtain rfl := looks state value later equation
  exact ⟨rfl, List.suffix_rfl⟩

/-- An action that gives a draft keeps the blocks. -/
theorem keepsBlocks_of_draft {action : Emitter α}
    (gives : ∀ state value later, action state = .ok value later →
      ∃ draft names, later = state.advance draft names) : KeepsBlocks action := by
  intro state value later equation
  obtain ⟨draft, names, rfl⟩ := gives state value later equation
  exact ⟨rfl, List.suffix_append _ _⟩

/-- Changing neither the frames nor the names keeps the blocks. -/
theorem keepsBlocks_modify {change : State → State}
    (frames : ∀ state, (change state).frames = state.frames)
    (labels : ∀ state, (change state).labels = state.labels) : KeepsBlocks (modify change) := by
  intro state value later equation
  cases equation
  exact ⟨congrArg (List.map Frame.opener) (frames state), labels state ▸ List.suffix_rfl⟩

namespace Moves

/-- An action that keeps the blocks, and then one that changes them. -/
theorem after {first : Emitter α} {second : α → Emitter β} (keeps : KeepsBlocks first)
    (moves : ∀ value, Moves change (second value)) : Moves change (first >>= second) := by
  intro state result last equation
  obtain ⟨value, later, starts, follows⟩ := bind_eq_ok.mp equation
  obtain ⟨same, kept⟩ := keeps state value later starts
  obtain ⟨moved, onward⟩ := moves value later result last follows
  exact ⟨moved.trans (congrArg change same), kept.trans onward⟩

/-- A choice between two actions that change the blocks alike. -/
theorem ite {condition : Prop} [Decidable condition] {first second : Emitter α}
    (positive : Moves change first) (negative : Moves change second) :
    Moves change (if condition then first else second) := by
  by_cases holds : condition
  · rw [if_pos holds]
    exact positive
  · rw [if_neg holds]
    exact negative

/-- An opener must have been linked. -/
theorem afterLinked {action : Emitter β} (moves : Moves change action) (site : Site)
    (position : Nat) (finish : Option Nat) :
    Moves change (do
      if finish.isNone then unlinked site position
      action) := by
  have refuses : KeepsBlocks (unlinked site position : Emitter Unit) := moves_throw _
  exact ite (after refuses fun _ => moves) moves

end Moves

/-- Emitting a directive keeps the blocks. -/
theorem keepsBlocks_emit (directive : Directive) : KeepsBlocks (emit directive) :=
  keepsBlocks_modify (fun _ => rfl) fun _ => rfl

/-- So does emitting an operation. -/
theorem keepsBlocks_op (operation : Bytecode.Op Nat) : KeepsBlocks (op operation) :=
  keepsBlocks_emit _

/-- So does taking operands. -/
theorem keepsBlocks_pop (count : Nat) : KeepsBlocks (pop count) :=
  keepsBlocks_modify (fun _ => rfl) fun _ => rfl

/-- So does leaving the code unreachable. -/
theorem keepsBlocks_transfer : KeepsBlocks transfer :=
  keepsBlocks_modify (fun _ => rfl) fun _ => rfl

/-- So does looking at the state. -/
theorem keepsBlocks_get : KeepsBlocks (get : Emitter State) :=
  keepsBlocks_of_looks fun state value later equation => by
    cases equation
    rfl

/-- So does defining a label for one of the body. -/
theorem keepsBlocks_defineFor (bodyLabel : Nat) : KeepsBlocks (defineFor bodyLabel) := by
  refine keepsBlocks_of_draft fun state label later equation => ?_
  rw [defineFor_apply] at equation
  cases equation
  exact ⟨_, _, rfl⟩

/-- So does looking for the name of a label. -/
theorem keepsBlocks_labelFor (site : Site) (position bodyLabel : Nat) :
    KeepsBlocks (labelFor site position bodyLabel) :=
  keepsBlocks_of_looks fun state label later finds =>
    (findsLabel_labelFor site position bodyLabel state label later finds).1

/-- So does looking for the label of a block. -/
theorem keepsBlocks_blockLabel (site : Site) (opener : Nat) :
    KeepsBlocks (blockLabel site opener) :=
  keepsBlocks_of_looks fun state label later finds =>
    (findsLabel_blockLabel site opener state label later finds).1

/-- So does looking for the label of an else arm. -/
theorem keepsBlocks_armLabel (site : Site) (position : Nat) :
    KeepsBlocks (armLabel site position) := by
  unfold armLabel
  split
  · exact keepsBlocks_of_looks fun state label later equation => by
      cases equation
      rfl
  · exact moves_throw _

/-- So does finding where a branch goes. -/
theorem keepsBlocks_destination (site : Site) (branch : Branch) :
    KeepsBlocks (destination site branch) :=
  keepsBlocks_of_looks fun _ _ _ => destination_inspects

/-- So does finding where several go. -/
theorem keepsBlocks_destinations (site : Site) (branches : List Branch) :
    KeepsBlocks (branches.mapM (destination site)) :=
  keepsBlocks_of_looks fun _ _ _ => destinations_inspect

/-- So does emitting the removal of operands. -/
theorem keepsBlocks_unwind (removal : Unwind) : KeepsBlocks (unwind removal) :=
  Moves.ite (keepsBlocks_of_looks fun state value later equation => by
    cases equation
    rfl) (keepsBlocks_op _)

/-- So does emitting a conditional branch. -/
theorem keepsBlocks_branchIf (label : Nat) (removal : Unwind) :
    KeepsBlocks (branchIf label removal) := by
  refine keepsBlocks_of_draft fun state value later equation => ?_
  rw [branchIf_apply (label, removal)] at equation
  cases equation
  exact ⟨_, _, rfl⟩

/-- So does emitting a branch by a table. -/
theorem keepsBlocks_branchTable (targets : List (Nat × Unwind)) (fallback : Nat × Unwind) :
    KeepsBlocks (branchTable targets fallback) := by
  refine keepsBlocks_of_draft fun state value later equation => ?_
  rw [branchTable_apply] at equation
  cases equation
  exact ⟨_, _, rfl⟩

/-- So does any instruction without block structure. -/
theorem keepsBlocks_plain (site : Site) (instruction : PlainInstruction) :
    KeepsBlocks (plain site instruction) := by
  refine keepsBlocks_of_draft fun state value later equation => ?_
  cases violation : instruction.violation? site with
  | some error =>
      rw [plain_violation violation] at equation
      cases equation
  | none =>
      rw [plain_apply violation] at equation
      cases equation
      exact ⟨_, _, rfl⟩

/-- **Entering a block opens it**, inside all others. -/
theorem moves_enter (opener : Nat) (type : BlockType) (branchArity : Nat) :
    Moves (opener :: ·) (enter opener type branchArity) := by
  intro state value later equation
  cases equation
  exact ⟨rfl, List.suffix_rfl⟩

/-- The mark that ends a block drops the innermost frame; what follows keeps the others. -/
theorem moves_close (site : Site) (position opener : Nat) :
    Moves List.tail (Emitter.instruction site position (.finish (some opener))) := by
  intro state value last equation
  rw [Emitter.instruction, bind_of_ok _ (get_apply state)] at equation
  cases opened : state.frames with
  | nil =>
      rw [opened] at equation
      cases equation
  | cons frame frames =>
      rw [opened] at equation
      have leaves : KeepsBlocks (modifyThe State fun state =>
          { state with height := frame.base + frame.arity, reachable := frame.live }) :=
        keepsBlocks_modify (fun _ => rfl) fun _ => rfl
      -- The frame is the only thing that goes: marking the exit and setting the height keep the
      -- others.
      have marks : KeepsBlocks (do
          unless isLoop site.body opener do
            let exit ← blockLabel site opener
            emit (.markLabel exit)
          modifyThe State fun state =>
            { state with height := frame.base + frame.arity, reachable := frame.live }) :=
        Moves.ite leaves (.after (keepsBlocks_blockLabel site opener) fun exit =>
          .after (keepsBlocks_emit _) fun _ => leaves)
      rw [List.map_cons, List.tail_cons]
      exact marks _ value last equation

/-- **An instruction changes the frames as it says.** -/
theorem moves_instruction (site : Site) (position : Nat) (instruction : Instruction) :
    Moves (instruction.openAfter position ·) (Emitter.instruction site position instruction) := by
  cases instruction with
  | plain instruction => exact keepsBlocks_plain site instruction
  | block type label finish =>
      exact Moves.afterLinked (.after (keepsBlocks_defineFor label) fun _ =>
        moves_enter position type type.arity) site position finish
  | loop type label finish =>
      exact .after (keepsBlocks_defineFor label) fun start => .after (keepsBlocks_emit _) fun _ =>
        moves_enter position type 0
  | ifThen type label finish otherwise =>
      refine Moves.afterLinked (.after (keepsBlocks_pop 1) fun _ =>
        .after (keepsBlocks_defineFor label) fun exit => ?_) site position finish
      cases otherwise with
      | none => exact .after (keepsBlocks_op _) fun _ => moves_enter position type type.arity
      | some arm =>
          exact .after (keepsBlocks_armLabel site arm) fun second =>
            .after (keepsBlocks_defineFor second) fun _ => .after (keepsBlocks_op _) fun _ =>
              moves_enter position type type.arity
  | otherwise label opener =>
      refine .after (keepsBlocks_blockLabel site opener) fun exit =>
        .after (keepsBlocks_labelFor site position label) fun second =>
          .after (keepsBlocks_op _) fun _ => .after (keepsBlocks_emit _) fun _ =>
            .after keepsBlocks_get fun state => ?_
      cases state.frames.head? with
      | none => exact moves_throw _
      | some frame => exact keepsBlocks_modify (fun _ => rfl) fun _ => rfl
  | finish opener =>
      cases opener with
      | none => exact keepsBlocks_op _
      | some opener => exact moves_close site position opener
  | branch target =>
      exact Moves.after (keepsBlocks_destination site target) fun _ =>
        .after (keepsBlocks_unwind _) fun _ => .after (keepsBlocks_op _) fun _ =>
          keepsBlocks_transfer
  | branchIf target =>
      exact Moves.after (keepsBlocks_pop 1) fun _ =>
        .after (keepsBlocks_destination site target) fun _ => keepsBlocks_branchIf _ _
  | branchTable targets fallback =>
      exact Moves.after (keepsBlocks_pop 1) fun _ =>
        .after (keepsBlocks_destinations site targets) fun _ =>
          .after (keepsBlocks_destination site fallback) fun _ =>
            .after (keepsBlocks_branchTable _ _) fun _ => keepsBlocks_transfer

/-! ## Names of open blocks -/

/-- A label of the body that has a name keeps having one. -/
theorem isSome_lookup_of_suffix {names more : List (Nat × Nat)} {key : Nat}
    (suffix : names <:+ more) (named : (names.lookup key).isSome) : (more.lookup key).isSome := by
  obtain ⟨front, rfl⟩ := suffix
  rw [List.lookup_append, Option.isSome_or, named, Bool.or_true]

/-- Whether an action gives a name to a label of the body. -/
def Names (label : Nat) (action : Emitter α) : Prop :=
  ∀ state value later, action state = .ok value later → (later.labels.lookup label).isSome

/-- Defining a label for one of the body gives it a name. -/
theorem names_defineFor (label : Nat) : Names label (defineFor label) := by
  intro state value later equation
  rw [defineFor_apply] at equation
  cases equation
  exact Option.isSome_of_eq_some List.lookup_cons_self

namespace Names

variable {label : Nat}

/-- A name that is given first stays. -/
theorem andThen {first : Emitter α} {second : α → Emitter β} (names : Names label first)
    (moves : ∀ value, Moves change (second value)) : Names label (first >>= second) := by
  intro state result last equation
  obtain ⟨value, later, starts, follows⟩ := bind_eq_ok.mp equation
  exact isSome_lookup_of_suffix (moves value later result last follows).2
    (names state value later starts)

/-- So is one given by what comes after. -/
theorem after {first : Emitter α} {second : α → Emitter β}
    (names : ∀ value, Names label (second value)) : Names label (first >>= second) := by
  intro state result last equation
  obtain ⟨value, later, starts, follows⟩ := bind_eq_ok.mp equation
  exact names value later result last follows

/-- An opener must have been linked. -/
theorem afterLinked {action : Emitter β} (names : Names label action) (site : Site)
    (position : Nat) (finish : Option Nat) :
    Names label (do
      if finish.isNone then unlinked site position
      action) := by
  intro state value later equation
  cases finish with
  | none => cases equation
  | some closer => exact names state value later equation

end Names

/-- **An opener gives its label a name.** -/
theorem names_instruction (site : Site) (position : Nat) {instruction : Instruction} {label : Nat}
    (opens : instruction.isOpener = true) (carries : instruction.label? = some label) :
    Names label (Emitter.instruction site position instruction) := by
  cases instruction with
  | block type other finish =>
      cases carries
      exact Names.afterLinked ((names_defineFor label).andThen fun _ =>
        moves_enter position type type.arity) site position finish
  | loop type other finish =>
      cases carries
      exact (names_defineFor label).andThen fun start => .after (keepsBlocks_emit _) fun _ =>
        moves_enter position type 0
  | ifThen type other finish otherwise =>
      cases carries
      cases otherwise with
      | none =>
          exact Names.afterLinked (.after fun _ => (names_defineFor label).andThen fun exit =>
            .after (keepsBlocks_op _) fun _ => moves_enter position type type.arity)
              site position finish
      | some arm =>
          exact Names.afterLinked (.after fun _ => (names_defineFor label).andThen fun exit =>
            .after (keepsBlocks_armLabel site arm) fun second =>
              .after (keepsBlocks_defineFor second) fun _ => .after (keepsBlocks_op _) fun _ =>
                moves_enter position type type.arity) site position finish
  | _ => cases opens

end Emitter

/-! ## Runs of emission -/

/-- The last step of emission up to a position. -/
theorem Site.ComesTo.exists_step {site : Site} {position : Nat} {later : State}
    {instruction : Instruction} (comes : site.ComesTo (position + 1) later)
    (found : site.body.instructions[position]? = some instruction) :
    ∃ state, site.ComesTo position state ∧
      Emitter.instruction site position instruction state = .ok () later := by
  rw [← Array.getElem?_toList] at found
  obtain ⟨inside, found⟩ := List.getElem?_eq_some_iff.mp found
  have front : (site.body.instructions.toList.take position).length = position :=
    List.length_take_of_le inside.le
  unfold Site.ComesTo at comes
  rw [List.take_succ_eq_append_getElem inside, found, Emitter.instructions_append, front,
    Nat.zero_add, Emitter.instructions_cons] at comes
  obtain ⟨_, state, before, comes⟩ := bind_eq_ok.mp comes
  obtain ⟨_, after, here, ends⟩ := bind_eq_ok.mp comes
  cases ends
  exact ⟨state, before, here⟩

/-- **Whether a block has a name**: the label of its opener stands for a label that is defined. -/
def State.NamesBlock (state : State) (body : Body) (opener : Nat) : Prop :=
  ∃ instruction label, body.instructions[opener]? = some instruction ∧
    instruction.isOpener = true ∧ instruction.label? = some label ∧
      (state.labels.lookup label).isSome

/-- **An instruction keeps the names of open blocks** and gives one to the block that it opens. -/
theorem namesBlock_of_step {site : Site} {position opener : Nat} {state later : State}
    {instruction : Instruction} {openers : List Nat}
    (found : site.body.instructions[position]? = some instruction)
    (here : Emitter.instruction site position instruction state = .ok () later)
    (named : ∀ opener ∈ openers, state.NamesBlock site.body opener)
    (member : opener ∈ instruction.openAfter position openers) :
    later.NamesBlock site.body opener := by
  rcases Instruction.mem_openAfter member with ⟨rfl, opens⟩ | member
  · obtain ⟨label, carries⟩ : ∃ label, instruction.label? = some label := by
      cases instruction <;> first | exact ⟨_, rfl⟩ | cases opens
    exact ⟨instruction, label, found, opens, carries,
      Emitter.names_instruction site _ opens carries _ _ _ here⟩
  · obtain ⟨other, label, otherFound, opens, carries, isSome⟩ := named opener member
    exact ⟨other, label, otherFound, opens, carries,
      Emitter.isSome_lookup_of_suffix (Emitter.moves_instruction site _ _ _ _ _ here).2 isSome⟩

/-- **The frames of emission** stand for the open blocks, and these have names. -/
theorem Site.ComesTo.frames_eq {site : Site} {locals : List ValueType} {code : Code 0}
    {finish position : Nat} {state : State} (linked : site.body = code.link locals finish)
    (comes : site.ComesTo position state) (inside : position ≤ site.body.size) :
    state.frames.map Frame.opener = site.body.openAt position ∧
      ∀ opener ∈ site.body.openAt position, state.NamesBlock site.body opener := by
  induction position generalizing state with
  | zero =>
      cases comes
      exact ⟨rfl, nofun⟩
  | succ position positionInduction =>
      obtain ⟨instruction, found⟩ : ∃ instruction,
          site.body.instructions[position]? = some instruction :=
        ⟨_, Array.getElem?_eq_getElem inside⟩
      obtain ⟨before, reached, here⟩ := comes.exists_step found
      obtain ⟨frames, named⟩ := positionInduction reached (Nat.le_of_succ_le inside)
      have next : site.body.openAt (position + 1) =
          instruction.openAfter position (site.body.openAt position) := by
        rw [linked] at found ⊢
        exact Body.openAt_succ found
      have moved := (Emitter.moves_instruction site position instruction _ _ _ here).1
      rw [next]
      exact ⟨frames ▸ moved, fun opener => namesBlock_of_step found here named⟩

/-! ## Frames and label stacks -/

/-- **Whether frames mirror the label stack of decoding** in a state before an instruction. -/
structure State.Mirrors (state : State) (cursor : Binary.Cursor) (site : Site) (position : Nat)
    (instruction : Instruction) : Prop where
  /-- The frames, outermost first, stand for the blocks that are opened before the instruction and
  do not end before it. -/
  enclosing : (state.frames.map Frame.opener).reverse =
    (List.range position).filter (site.body.spans position)
  /-- Decoding has held a label stack at the instruction. -/
  held : ∃ (depth : Nat) (labels : LabelStack depth),
    Binary.Decoder.HoldsLabels cursor position labels
  /-- That stack has the blocks of the frames, with the mark between two arms in place of its
  block, and it is where the branches of the instruction were resolved. -/
  labels : ∀ (depth : Nat) (labels : LabelStack depth),
    Binary.Decoder.HoldsLabels cursor position labels →
      state.frames.map Frame.opener = labels.toList.map (Emitter.branchOpener site.body) ∧
        ∀ branch ∈ instruction.branches, labels.resolve? branch.depth = some branch.target
  /-- The label of every block is defined. -/
  defined : ∀ frame ∈ state.frames, ∃ label,
    Emitter.blockLabel site frame.opener state = .ok label state ∧ label < state.defined
  /-- The mark that ends a block finds it innermost. -/
  closes : ∀ opener, instruction = .finish (some opener) →
    state.frames.head?.map Frame.opener = some opener
  /-- So does the mark between two arms. -/
  divides : ∀ label opener, instruction = .otherwise label opener →
    state.frames.head?.map Frame.opener = some opener
  /-- No block is left at the end of the body. -/
  last : instruction = .finish none → state.frames = []

/-- **The frames of emission mirror the label stack of decoding**: of every body that is read, at
every instruction that emission gets to, whatever the module and the signature are. -/
theorem frames_mirror_labels {cursor later : Binary.Cursor} {site : Site} {position : Nat}
    {instruction : Instruction} {state : State}
    (decoded : Binary.Decoder.body cursor = .ok site.body later)
    (found : site.body.instructions[position]? = some instruction)
    (comes : site.ComesTo position state) : state.Mirrors cursor site position instruction := by
  obtain ⟨locals, code, finish, linked, nested, sorted⟩ :=
    Binary.Decoder.structured_of_body decoded
  have inside : position < site.body.size := (Array.getElem?_eq_some_iff.mp found).1
  obtain ⟨frames, named⟩ := comes.frames_eq linked inside.le
  have wellLinked : site.body.WellLinked := linked ▸ Body.wellLinked_link nested sorted
  have there : (code.link locals finish).instructions[position]? = some instruction :=
    linked ▸ found
  -- The frames are the open blocks, and what decoding held as labels are their branch targets.
  have head : state.frames.head?.map Frame.opener = (site.body.openAt position).head? := by
    rw [← frames, List.head?_map]
  refine ⟨?_, Binary.Decoder.exists_holdsLabels decoded inside, ?_, ?_, ?_, ?_, ?_⟩
  · rw [frames, Body.openAt, Body.spanning, ← List.filter_reverse, List.reverse_reverse]
  · intro depth labels holds
    have targets := holds.toList_eq decoded inside
    refine ⟨?_, fun branch member => ?_⟩
    · rw [frames, targets, Body.targetsAt, List.map_map]
      refine (List.map_id _).symm.trans (List.map_congr_left fun opener member => ?_)
      rw [linked] at member ⊢
      exact (Body.branchOpener_branchTarget member).symm
    · obtain ⟨-, opener, counted, target⟩ :=
        wellLinked.branches position instruction branch found member
      have noFinish : instruction.finish? = none := by
        cases instruction <;> first | rfl | cases member
      rw [Body.enclosing_eq_openAt ((Body.finishOf?_eq found).trans noFinish)] at counted
      rw [labels.resolve?_eq_getElem?, targets, Body.targetsAt, List.getElem?_map, counted, target]
      rfl
  · intro frame member
    have opened : frame.opener ∈ site.body.openAt position :=
      frames ▸ List.mem_map_of_mem member
    obtain ⟨opener, bodyLabel, openerFound, opens, carries, isSome⟩ := named _ opened
    obtain ⟨label, lookup⟩ := Option.isSome_iff_exists.mp isSome
    have finds := Emitter.blockLabel_apply openerFound opens carries lookup
    refine ⟨label, finds, ?_⟩
    exact comes.since.defined label (Emitter.findsLabel_blockLabel site _ _ _ _ finds).2
  · rintro opener rfl
    rw [head, linked, Body.openAt_finish there, List.head?_cons]
  · rintro label opener rfl
    obtain ⟨outer, opened⟩ := Body.openAt_otherwise there
    rw [head, linked, opened, List.head?_cons]
  · rintro rfl
    have none := frames.trans (linked ▸ Body.openAt_last there)
    exact List.map_eq_nil_iff.mp none

/-- A function with a loop in the second arm of a conditional block in a block. -/
def armsSite : Site where
  module := { types := [{}], functions := [0] }
  index := 0
  signature := {}
  body :=
    { instructions :=
        #[.block none 0 (some 9), .plain (.const (.i32 1)), .ifThen none 1 (some 8) (some 4),
          .branch ⟨1, 0⟩, .otherwise 2 2, .loop none 3 (some 7), .branch ⟨2, 0⟩, .finish (some 5),
          .finish (some 2), .finish (some 0), .finish none]
      offsets := #[1, 3, 5, 7, 9, 10, 12, 14, 15, 16, 17]
      labelCount := 4 }

/-- In the loop three blocks are open, and decoding has the mark between the arms for the second
one. -/
theorem frames_mirror_labels_arms :
    ∃ cursor later state, Binary.Decoder.body cursor = .ok armsSite.body later ∧
      armsSite.body.instructions[6]? = some (.branch ⟨2, 0⟩) ∧ armsSite.ComesTo 6 state ∧
      state.Mirrors cursor armsSite 6 (.branch ⟨2, 0⟩) ∧
      state.frames.map Frame.opener = [5, 2, 0] ∧
      ∃ (depth : Nat) (labels : LabelStack depth),
        Binary.Decoder.HoldsLabels cursor 6 labels ∧ labels.toList = [5, 4, 0] := by
  have decoded : Binary.Decoder.body (.ofBytes
      [0x00, 0x02, 0x40, 0x41, 0x01, 0x04, 0x40, 0x0c, 0x01, 0x05, 0x03, 0x40, 0x0c, 0x02, 0x0b,
        0x0b, 0x0b, 0x0b]) = .ok armsSite.body _ := rfl
  have found : armsSite.body.instructions[6]? = some (.branch ⟨2, 0⟩) := rfl
  have comes : armsSite.ComesTo 6 _ := rfl
  have mirrors := frames_mirror_labels decoded found comes
  obtain ⟨depth, labels, holds⟩ := mirrors.held
  exact ⟨_, _, _, decoded, found, comes, mirrors, rfl, depth, labels, holds,
    holds.toList_eq decoded (by decide)⟩

end Emission

end WasmCompiler
