import WasmCompiler.Proofs.Offsets
import WasmCompiler.Proofs.RoundTrip

/-! # Diagnostics

What is wrong with bytes that are no module shows at the offset of the error, and the offsets of a
module that is read are those of its opcodes. Operators keep the offset at which they were read, so
whatever is found out later about one of them is told of its opcode.

* **`TokenStream.ReadIn`** — a stream was read in bytes;
* **`names_of_refuses`** — why operators cannot be put together is told of the opcode of one of
  them;
* **`diagnostics_name_bytes`** — errors and offsets of whole modules. -/

namespace WasmCompiler

namespace Binary

open Stateful

variable {bytes : List UInt8}

/-! ## Streams of operators -/

namespace TokenStream

/-- **Whether a stream was read in bytes**: its operators and its end stand at the offsets that it
has for them. -/
def ReadIn (bytes : List UInt8) : TokenStream → Prop
  | .exhausted position => position ≤ bytes.length
  | .failed offset error _ => offset ≤ bytes.length ∧ error.Names bytes
  | .next token rest => OpcodeAt bytes token.offset token.operator ∧ rest.ReadIn bytes

/-- The operators of a window of bytes are read in them. -/
theorem readIn_readOnto (fuel : Nat) {cursor : Cursor} (stands : cursor.StandsIn bytes) :
    (readOnto fuel [] cursor).ReadIn bytes := by
  induction fuel generalizing cursor with
  | zero => exact stands.inside
  | succ fuel fuelInduction =>
      simp only [readOnto]
      split
      · exact stands.inside
      split
      · next token after equation =>
          -- The cursor after the operator stands in the bytes again.
          obtain ⟨afterStands, opcode⟩ := Decoder.finds_token.reads stands equation
          rw [readOnto_eq]
          exact ⟨opcode, fuelInduction afterStands⟩
      · next error after equation =>
          exact ⟨stands.inside, Decoder.finds_token.fails stands equation⟩

variable {stream : TokenStream}

/-- Where a stream goes on is in the bytes. -/
theorem ReadIn.offset_le (readIn : stream.ReadIn bytes) : stream.offset ≤ bytes.length := by
  cases stream with
  | exhausted position => exact readIn
  | failed offset error position => exact readIn.1
  | next token rest =>
      obtain ⟨⟨opcode, -, stands⟩, -⟩ := readIn
      exact (List.getElem?_eq_some_iff.mp stands).1.le

/-- The opcodes of a stream stand at their offsets. -/
theorem ReadIn.opcodeAt (readIn : stream.ReadIn bytes) :
    ∀ mark ∈ stream.marks, OpcodeAt bytes mark.1 mark.2 := by
  induction stream with
  | exhausted | failed => exact List.forall_mem_nil _
  | next token rest restInduction =>
      exact List.forall_mem_cons.mpr ⟨readIn.1, restInduction readIn.2⟩

end TokenStream

/-! ## Operators that cannot be put together -/

/-- A level that is not found lies beyond the open blocks. -/
theorem levelOf_eq_error {depth offset : Nat} {level : UInt32} {error : Error}
    (equation : levelOf depth offset level = .error error) :
    depth ≤ level.toNat ∧ error = .invalidBranchTarget offset level depth := by
  unfold levelOf at equation
  split at equation
  · cases equation
  · next beyond =>
      cases equation
      exact ⟨Nat.le_of_not_lt beyond, rfl⟩

/-- One of several levels is not found if not all are. -/
theorem mapM_levelOf_eq_error {depth offset : Nat} {levels : List UInt32} {error : Error}
    (equation : levels.mapM (levelOf depth offset) = .error error) :
    ∃ level ∈ levels, levelOf depth offset level = .error error := by
  induction levels with
  | nil => cases equation
  | cons level levels levelsInduction =>
      rw [List.mapM_cons] at equation
      rcases except_bind_eq_error equation with missing | ⟨resolved, -, equation⟩
      · exact ⟨level, List.mem_cons_self, missing⟩
      rcases except_bind_eq_error equation with missing | ⟨others, -, equation⟩
      · obtain ⟨other, member, missing⟩ := levelsInduction missing
        exact ⟨other, List.mem_cons_of_mem _ member, missing⟩
      · cases equation

/-- **Why an operator is refused** inside a number of blocks. -/
inductive Refuses (token : Token) (depth : Nat) : Error → Prop
  /-- A block is opened inside too many others. -/
  | block {type : BlockType} (kind : BlockKind) (operator : token.operator = kind.operator type) :
      Refuses token depth (.nestingTooDeep token.offset)
  /-- A conditional block is opened inside too many others. -/
  | ifThen {type : BlockType} (operator : token.operator = .ifThen type) :
      Refuses token depth (.nestingTooDeep token.offset)
  /-- A conditional block has two arms already. -/
  | thirdArm (operator : token.operator = .otherwise) :
      Refuses token depth (.thirdArm token.offset 0x05)
  /-- There is no conditional block to go on with. -/
  | unexpectedElse (operator : token.operator = .otherwise) :
      Refuses token depth (.unexpectedElse token.offset)
  /-- A branch names too many levels. -/
  | branch {level : UInt32} (operator : token.operator = .branch level)
      (beyond : depth ≤ level.toNat) :
      Refuses token depth (.invalidBranchTarget token.offset level depth)
  /-- A branch that is taken if an operand is not zero names too many levels. -/
  | branchIf {level : UInt32} (operator : token.operator = .branchIf level)
      (beyond : depth ≤ level.toNat) :
      Refuses token depth (.invalidBranchTarget token.offset level depth)
  /-- One of the branches that an operand selects from names too many levels. -/
  | branchTable {levels : List UInt32} {fallback level : UInt32}
      (operator : token.operator = .branchTable levels fallback)
      (beyond : depth ≤ level.toNat) :
      Refuses token depth (.invalidBranchTarget token.offset level depth)

/-- **Why an operator is refused is told of its opcode.** -/
theorem names_of_refuses {token : Token} {depth : Nat} {error : Error}
    (refuses : Refuses token depth error) (opcode : OpcodeAt bytes token.offset token.operator) :
    error.Names bytes := by
  obtain ⟨byte, first, stands⟩ := opcode
  have inside : token.offset ≤ bytes.length := (List.getElem?_eq_some_iff.mp stands).1.le
  cases refuses with
  | block kind operator =>
      rw [operator] at first
      cases kind <;> cases first <;> exact ⟨inside, _, by decide, stands⟩
  | ifThen operator =>
      rw [operator] at first
      cases first
      exact ⟨inside, _, by decide, stands⟩
  | thirdArm operator =>
      rw [operator] at first
      cases first
      exact ⟨inside, rfl, stands⟩
  | unexpectedElse operator =>
      rw [operator] at first
      cases first
      exact ⟨inside, stands⟩
  | branch operator beyond | branchIf operator beyond | branchTable operator beyond =>
      rw [operator] at first
      cases first
      exact ⟨inside, beyond, _, by decide, stands⟩

namespace TokenStream

/-- **An operator in front of a stream** is refused, or the stream fails after it has done its part.
-/
theorem assemble_next_eq_error {depth : Nat} {token : Token} {stream : TokenStream}
    {context : Context depth} {done : Code depth} {error : Error}
    (equation : (TokenStream.next token stream).assemble context done = .error error) :
    Refuses token depth error ∨
      ∃ (later : Nat) (context' : Context later) (done' : Code later),
        stream.assemble context' done' = .error error := by
  unfold TokenStream.assemble at equation
  simp only at equation
  -- A block is refused if too many are open, and a branch for its levels.
  have nesting {next : Except Error ClosedCode}
      (equation : (do checkNesting depth token.offset; next) = .error error) :
      error = .nestingTooDeep token.offset ∨ next = .error error := by
    unfold checkNesting at equation
    split at equation
    · exact .inr equation
    · cases equation
      exact .inl rfl
  split at equation
  · exact .inr ⟨_, _, _, equation⟩
  · next type operator =>
      rcases nesting equation with rfl | equation
      · exact .inl (.block .block operator)
      · exact .inr ⟨_, _, _, equation⟩
  · next type operator =>
      rcases nesting equation with rfl | equation
      · exact .inl (.block .loop operator)
      · exact .inr ⟨_, _, _, equation⟩
  · next type operator =>
      rcases nesting equation with rfl | equation
      · exact .inl (.ifThen operator)
      · exact .inr ⟨_, _, _, equation⟩
  · next operator =>
      split at equation
      · exact .inr ⟨_, _, _, equation⟩
      · cases equation
        exact .inl (.thirdArm operator)
      · cases equation
        exact .inl (.unexpectedElse operator)
      · cases equation
        exact .inl (.unexpectedElse operator)
  · split at equation
    · cases equation
    · exact .inr ⟨_, _, _, equation⟩
    · exact .inr ⟨_, _, _, equation⟩
    · exact .inr ⟨_, _, _, equation⟩
  · next level operator =>
      rcases except_bind_eq_error equation with missing | ⟨resolved, -, equation⟩
      · obtain ⟨beyond, rfl⟩ := levelOf_eq_error missing
        exact .inl (.branch operator beyond)
      · exact .inr ⟨_, _, _, equation⟩
  · next level operator =>
      rcases except_bind_eq_error equation with missing | ⟨resolved, -, equation⟩
      · obtain ⟨beyond, rfl⟩ := levelOf_eq_error missing
        exact .inl (.branchIf operator beyond)
      · exact .inr ⟨_, _, _, equation⟩
  · next levels fallback operator =>
      rcases except_bind_eq_error equation with missing | ⟨resolved, -, equation⟩
      · obtain ⟨level, -, missing⟩ := mapM_levelOf_eq_error missing
        obtain ⟨beyond, rfl⟩ := levelOf_eq_error missing
        exact .inl (.branchTable operator beyond)
      rcases except_bind_eq_error equation with missing | ⟨last, -, equation⟩
      · obtain ⟨beyond, rfl⟩ := levelOf_eq_error missing
        exact .inl (.branchTable operator beyond)
      · exact .inr ⟨_, _, _, equation⟩

/-- **A stream that cannot be put together** names what is wrong. -/
theorem names_of_assemble {stream : TokenStream} (readIn : stream.ReadIn bytes) {depth : Nat}
    {context : Context depth} {done : Code depth} {error : Error}
    (equation : stream.assemble context done = .error error) : error.Names bytes := by
  induction stream generalizing depth with
  | exhausted position =>
      cases equation
      exact ⟨readIn, trivial⟩
  | failed offset other position =>
      cases equation
      exact readIn.2
  | next token rest restInduction =>
      -- The operator is refused here, or some operator further on is, or reading has failed there.
      rcases assemble_next_eq_error equation with refuses | ⟨later, context', done', onward⟩
      · exact names_of_refuses refuses readIn.1
      · exact restInduction readIn.2 onward

/-- What follows the end of code is read in the same bytes. -/
theorem readIn_of_assemble {stream : TokenStream} (readIn : stream.ReadIn bytes) {depth : Nat}
    {context : Context depth} {done : Code depth} {closed : ClosedCode}
    (equation : stream.assemble context done = .ok closed) : closed.rest.ReadIn bytes := by
  induction stream generalizing depth with
  | exhausted | failed => cases equation
  | next token rest restInduction =>
      rcases assemble_next_eq_ok equation with
        ⟨rfl, operator, contextEquation, rfl⟩ | ⟨later, context', done', puts, onward⟩
      · exact readIn.2
      · exact restInduction readIn.2 onward

end TokenStream

/-! ## Bodies -/

/-- **Whether the offsets of a body are those of its opcodes in bytes**: every instruction has one,
and its opcode stands there. -/
def LocatesOpcodes (bytes : List UInt8) (body : Body) : Prop :=
  body.offsets.size = body.size ∧
    ∀ (place : Nat) (operator : Operator), body.operators[place]? = some operator →
      ∃ offset, body.offsets[place]? = some offset ∧ OpcodeAt bytes offset operator

/-- Linking keeps the offsets of opcodes. -/
theorem locatesOpcodes_link {code : Code 0} {finish : Nat}
    (opcodes : ∀ mark ∈ code.marks ++ [(finish, .finish)], OpcodeAt bytes mark.1 mark.2)
    (locals : List ValueType) : LocatesOpcodes bytes (code.link locals finish) := by
  -- Operators and offsets are the two halves of the same marks.
  have operators : (code.link locals finish).operators =
      (code.marks ++ [(finish, Operator.finish)]).map Prod.snd := by
    rw [Code.operators_link, List.map_append]
    rfl
  have offsets : (code.link locals finish).offsets =
      ((code.marks ++ [(finish, Operator.finish)]).map Prod.fst).toArray := by
    rw [Code.link_eq, List.map_append, Code.map_fst_marks]
    rfl
  refine ⟨?_, fun place operator found => ?_⟩
  · have length := congrArg List.length operators
    rw [Body.operators, List.length_map, List.length_map, Array.length_toList] at length
    rw [offsets, List.size_toArray, List.length_map, ← length]
    rfl
  · rw [operators, List.getElem?_map, Option.map_eq_some_iff] at found
    obtain ⟨⟨offset, _⟩, found, rfl⟩ := found
    refine ⟨offset, ?_, opcodes _ (List.mem_of_getElem? found)⟩
    rw [offsets, List.getElem?_toArray, List.getElem?_map, found]
    rfl

namespace Decoder

/-- **Code is found with the offsets of its opcodes.** -/
theorem finds_code :
    Finds bytes (fun _ result =>
      ∀ mark ∈ result.1.marks ++ [(result.2, .finish)], OpcodeAt bytes mark.1 mark.2) code where
  reads {cursor later result} stands equation := by
    have readIn := TokenStream.readIn_readOnto cursor.remaining stands
    rw [code_apply] at equation
    split at equation
    · cases equation
    · next closed assembled =>
        split at equation
        · cases equation
        · cases equation
          -- The stream starts with the operators of the code and its end.
          have marks : (TokenStream.readOnto cursor.remaining [] cursor).marks =
              closed.code.marks ++ ([(closed.finish, .finish)] ++ closed.rest.marks) :=
            TokenStream.assemble_marks assembled
          refine ⟨stands, fun mark member => readIn.opcodeAt mark ?_⟩
          rw [marks, ← List.append_assoc]
          exact List.mem_append_left _ member
  fails {cursor later error} stands equation := by
    have readIn := TokenStream.readIn_readOnto cursor.remaining stands
    rw [code_apply] at equation
    split at equation
    · next assembled =>
        cases equation
        exact TokenStream.names_of_assemble readIn assembled
    · next closed assembled =>
        split at equation
        · cases equation
          exact ⟨(TokenStream.readIn_of_assemble readIn assembled).offset_le, trivial⟩
        · cases equation

/-- The groups of locals are read faithfully: a count beyond the limit is refused at its own offset.
-/
theorem faithful_localsOnto (groups declared : Nat) (read : List ValueType) :
    Faithful bytes (localsOnto groups declared read) := by
  induction groups generalizing declared read with
  | zero => exact faithful_pure _
  | succ groups groupsInduction =>
      refine faithful_unsigned32.located fun offset count inside _ => ?_
      refine .refuse ⟨inside, trivial⟩ fun _ => faithful_valueType.bind fun _ type _ => ?_
      exact groupsInduction _ _

/-- **A body is found with the offsets of its opcodes.** -/
theorem finds_body : Finds bytes (fun _ => LocatesOpcodes bytes) body := by
  refine faithful_unsigned32.bind fun _ groups _ => ?_
  refine (faithful_localsOnto groups.toNat 0 []).bind fun _ locals _ => ?_
  exact finds_code.bind fun _ _ opcodes => finds_pure fun _ => locatesOpcodes_link opcodes locals

/-- **An entry of the code section** puts opcodes where they stand. -/
theorem finds_codeEntry : Finds bytes (fun _ => LocatesOpcodes bytes) codeEntry :=
  faithful_unsigned32.bind fun _ size _ =>
    (finds_window size.toNat).bind fun _ _ inside => finds_body.within inside

/-! ## Modules -/

/-- Whether every body of a module locates its opcodes. -/
def AllLocated (bytes : List UInt8) (module : Module) : Prop :=
  ∀ body ∈ module.bodies, LocatesOpcodes bytes body

/-- **The contents of a section** keep opcodes where they stand. -/
theorem finds_payload (kind : SectionKind) {module : Module} (located : AllLocated bytes module) :
    Finds bytes (fun _ => AllLocated bytes) (payload kind module) := by
  -- Only the code section changes the bodies.
  have keeps {α : Type} {part : Decoder α} (faithful : Faithful bytes part) {add : α → Module}
      (same : ∀ value, (add value).bodies = module.bodies) :
      Finds bytes (fun _ => AllLocated bytes) (do return add (← part)) :=
    faithful.bind fun _ value _ => finds_pure fun _ body member =>
      located body (same value ▸ member)
  cases kind with
  | types => exact keeps faithful_signature.vector fun _ => rfl
  | imports =>
      refine faithful_unsigned32.bind fun _ count _ => ?_
      exact keeps (faithful_importsOnto _ _) fun _ => rfl
  | functions => exact keeps faithful_unsigned32.vector fun _ => rfl
  | table => exact keeps (faithful_singleton .table _ faithful_tableType) fun _ => rfl
  | memory => exact keeps (faithful_singleton .memory _ faithful_limits) fun _ => rfl
  | globals => exact keeps faithful_globalEntry.vector fun _ => rfl
  | exports => exact keeps faithful_exportEntry.vector fun _ => rfl
  | start => exact keeps faithful_unsigned32 fun _ => rfl
  | elements => exact keeps faithful_elementSegment.vector fun _ => rfl
  | code => exact (finds_vector finds_codeEntry).bind fun _ _ bodies => finds_pure fun _ => bodies
  | data => exact keeps faithful_dataSegment.vector fun _ => rfl

/-- **The next section** does, with its number and its length before it. -/
theorem finds_nextSection (last : UInt8) {module : Module} (located : AllLocated bytes module) :
    Finds bytes (fun _ result => AllLocated bytes result.2) (nextSection last module) := by
  refine finds_unsigned7.located fun offset id inside stands => ?_
  refine faithful_unsigned32.bind fun _ length _ => ?_
  refine (finds_window length.toNat).bind fun _ contents contentsInside => ?_
  split
  · exact finds_pure fun _ => located
  split
  · exact finds_throw ⟨inside, stands⟩
  · next kind found =>
      refine .refuse ⟨inside, stands⟩ fun _ => ?_
      -- The payload is read in its own window, which stands in the same bytes.
      have whole : Finds bytes (fun _ => AllLocated bytes)
          (do
            let module ← payload kind module
            expectEnd (.sectionTooLong · id)
            return module) := by
        refine (finds_payload kind located).bind fun _ result holds => ?_
        have closed : Faithful bytes (expectEnd (.sectionTooLong · id)) :=
          faithful_expectEnd fun offset inside => ⟨inside, trivial⟩
        exact closed.bind fun _ _ _ => finds_pure fun _ => holds
      exact (whole.within contentsInside).bind fun _ _ holds => finds_pure fun _ => holds

/-- **All sections in turn** do. -/
theorem finds_sections (fuel : Nat) (last : UInt8) {module : Module}
    (located : AllLocated bytes module) :
    Finds bytes (fun _ => AllLocated bytes) (sections fuel last module) := by
  induction fuel generalizing last module with
  | zero => exact finds_pure fun _ => located
  | succ fuel fuelInduction =>
      refine finds_get.bind fun _ _ _ => ?_
      split
      · exact finds_pure fun _ => located
      · exact (finds_nextSection last located).bind fun _ result holds =>
          fuelInduction result.1 holds

/-- A field of the header is read faithfully. -/
theorem faithful_headerField (expected : List UInt8) : Faithful bytes (headerField expected) where
  reads stands equation := by
    unfold headerField at equation
    split at equation
    · cases equation
      exact ⟨stands.advance _, trivial⟩
    · cases equation
  fails stands equation := by
    unfold headerField at equation
    split at equation
    · cases equation
    · cases equation
      exact ⟨stands.inside, trivial⟩

/-- **A module** puts every opcode where it stands, and is refused for what stands at an offset. -/
theorem finds_module : Finds bytes (fun _ => AllLocated bytes) module :=
  (faithful_headerField _).bind fun _ _ _ => (faithful_headerField _).bind fun _ _ _ =>
    finds_get.bind fun _ _ _ => finds_sections _ _ (List.forall_mem_nil _)

end Decoder

/-- **Diagnostics name the bytes that they are about.** The offset of an error is one of the whole
module, however deep the part is in which reading fails, and what the error tells stands there: the
byte, opcode, form, kind or number that it carries, the byte that is not zero, the opcode of the
branch, of the block or of the mark between arms that is out of place, or the integer that is too
large. The offsets of the bodies of a module that is read are those of their opcodes. -/
theorem diagnostics_name_bytes (bytes : List UInt8) :
    (∀ error, decodeModule bytes = .error error → error.Names bytes) ∧
    ∀ module, decodeModule bytes = .ok module →
      ∀ body ∈ module.bodies, LocatesOpcodes bytes body := by
  have stands := Cursor.StandsIn.ofBytes bytes
  refine ⟨fun error equation => ?_, fun module equation => ?_⟩
  · obtain ⟨later, fails⟩ := outcome_eq_error.mp equation
    exact Decoder.finds_module.fails stands fails
  · obtain ⟨later, reads⟩ := outcome_eq_ok.mp equation
    exact (Decoder.finds_module.reads stands reads).2

/-- A module of one body: a block, and in it a branch to a level. -/
def branchingBytes (level : UInt8) : List UInt8 :=
  header ++ [0x0a, 0x09, 0x01, 0x07, 0x00, 0x02, 0x40, 0x0c, level, 0x0b, 0x0b]

/-- The body if the branch is to the block. -/
def branchingBody : Body where
  instructions := #[.block none 0 (some 2), .branch ⟨0, 0⟩, .finish (some 0), .finish none]
  offsets := #[13, 15, 17, 18]
  labelCount := 1

/-- A branch that goes too far is refused at the offset of its opcode, which is that of the branch
to the block as well. -/
theorem diagnostics_name_bytes_branching :
    decodeModule (branchingBytes 5) = .error (.invalidBranchTarget 15 5 1) ∧
      (Error.invalidBranchTarget 15 5 1).Names (branchingBytes 5) ∧
      decodeModule (branchingBytes 0) = .ok { bodies := [branchingBody] } ∧
      ∃ offset, branchingBody.offsets[1]? = some offset ∧
        OpcodeAt (branchingBytes 0) offset (.branch 0) := by
  have refused : decodeModule (branchingBytes 5) = .error (.invalidBranchTarget 15 5 1) := by
    decide +kernel
  have accepted : decodeModule (branchingBytes 0) = .ok { bodies := [branchingBody] } := by
    decide +kernel
  obtain ⟨-, opcodes⟩ :=
    (diagnostics_name_bytes (branchingBytes 0)).2 _ accepted branchingBody List.mem_cons_self
  exact ⟨refused, (diagnostics_name_bytes _).1 _ refused, accepted, opcodes 1 (.branch 0) rfl⟩

end Binary

end WasmCompiler
