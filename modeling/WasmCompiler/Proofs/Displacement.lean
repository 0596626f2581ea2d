import WasmCompiler.Proofs.Relocation

/-! # Bytes that lie elsewhere

The same bytes at another place of an input are read in the same way. Decoders look at the position
of their cursor for two reasons only: to say where an error shows, and to note the offsets of
opcodes. So at a place that lies further on by some distance everything is read, or refused, as
before, with offsets that are larger by that distance.

* **`Error.shifted`**, **`Cursor.shifted`**, **`Body.shifted`** — offsets that are larger;
* **`Decoder.Shifts`** — a decoder does further on what another one does here, up to offsets;
* **`TokenStream.assemble_shifted`** — operators are put together in the same way;
* **`Decoder.shifts_body`** — so is a function body, whether it is read or refused;
* **`bodies_decode_anywhere`** — a body between any other bytes. -/

namespace WasmCompiler

variable {α β γ δ : Type} {distance : Nat}

namespace Binary

open Stateful

/-! ## Offsets that are larger by a distance -/

/-- An error that shows further on. -/
def Error.shifted (distance : Nat) : Error → Error
  | .badHeader offset => .badHeader (offset + distance)
  | .malformedVarint offset bits => .malformedVarint (offset + distance) bits
  | .illegalOpcode offset opcode => .illegalOpcode (offset + distance) opcode
  | .thirdArm offset opcode => .thirdArm (offset + distance) opcode
  | .invalidBranchTarget offset depth openBlocks =>
      .invalidBranchTarget (offset + distance) depth openBlocks
  | .trailingBytes offset => .trailingBytes (offset + distance)
  | .tooManyResults offset count => .tooManyResults (offset + distance) count
  | .repeatedSingleton offset kind => .repeatedSingleton (offset + distance) kind
  | .unexpectedEnd offset => .unexpectedEnd (offset + distance)
  | .unknownSection offset id => .unknownSection (offset + distance) id
  | .sectionOutOfOrder offset id => .sectionOutOfOrder (offset + distance) id
  | .sectionTooLong offset id => .sectionTooLong (offset + distance) id
  | .invalidValueType offset byte => .invalidValueType (offset + distance) byte
  | .invalidTypeForm offset form => .invalidTypeForm (offset + distance) form
  | .invalidElementType offset byte => .invalidElementType (offset + distance) byte
  | .invalidExternalKind offset kind => .invalidExternalKind (offset + distance) kind
  | .nonZeroIndex offset kind index => .nonZeroIndex (offset + distance) kind index
  | .nonZeroReserved offset => .nonZeroReserved (offset + distance)
  | .unexpectedElse offset => .unexpectedElse (offset + distance)
  | .nestingTooDeep offset => .nestingTooDeep (offset + distance)
  | .invalidInitializer offset opcode => .invalidInitializer (offset + distance) opcode
  | .invalidUtf8 offset => .invalidUtf8 (offset + distance)
  | .tooManyLocals offset count => .tooManyLocals (offset + distance) count

namespace Cursor

/-- A cursor at the same bytes further on. -/
def shifted (distance : Nat) (cursor : Cursor) : Cursor :=
  ⟨cursor.position + distance, cursor.rest⟩

/-- A cursor that is shifted stands further on by the distance. -/
@[simp] theorem position_shifted (cursor : Cursor) :
    (cursor.shifted distance).position = cursor.position + distance := rfl

/-- It has the same bytes in front of it. -/
@[simp] theorem rest_shifted (cursor : Cursor) :
    (cursor.shifted distance).rest = cursor.rest := rfl

/-- It has as many bytes in front of it. -/
@[simp] theorem remaining_shifted (cursor : Cursor) :
    (cursor.shifted distance).remaining = cursor.remaining := rfl

/-- It advances like the cursor that it was. -/
@[simp] theorem advance_shifted (cursor : Cursor) (count : Nat) :
    (cursor.shifted distance).advance count = (cursor.advance count).shifted distance := by
  simp only [shifted, advance, remaining, Nat.add_right_comm]

end Cursor

/-- A value that is read further on: it is changed as given, and the cursor or the error shifted. -/
def shiftResult (distance : Nat) (change : α → β) :
    EStateM.Result Error Cursor α → EStateM.Result Error Cursor β
  | .ok value later => .ok (change value) (later.shifted distance)
  | .error error later => .error (error.shifted distance) (later.shifted distance)

namespace Decoder

/-! ## Decoders -/

/-- **Whether one decoder does further on what another one does here**: wherever the other one
starts, it reads a changed value or fails with the same error, up to offsets. -/
def Shifts (distance : Nat) (change : α → β) (near : Decoder α) (far : Decoder β) : Prop :=
  ∀ cursor, far (cursor.shifted distance) = shiftResult distance change (near cursor)

/-- Whether a decoder reads the same value further on. -/
def Movable (distance : Nat) (decoder : Decoder α) : Prop :=
  Shifts distance id decoder decoder

/-- A value that is changed may be given in place of the value. -/
theorem shifts_pure (change : α → β) (value : α) :
    Shifts distance change (pure value) (pure (change value)) :=
  fun _ => rfl

/-- Giving a value does not depend on the place. -/
theorem movable_pure (value : α) : Movable distance (pure value) :=
  shifts_pure id value

/-- An error that is shifted may be thrown in place of the error. -/
theorem shifts_throw (change : α → β) (error : Error) :
    Shifts distance change (throw error) (throw (error.shifted distance)) :=
  fun _ => rfl

/-- The position is shifted with the cursor. -/
theorem shifts_position : Shifts distance (· + distance) position position :=
  fun _ => rfl

/-- So is the cursor itself. -/
theorem shifts_get : Shifts distance (Cursor.shifted distance) get get :=
  fun _ => rfl

/-- A sequence does further on what it does here if its first part does, and the second part does so
after what the first one has read. -/
theorem bind_shifted {change : α → β} {change' : γ → δ} {near : Decoder α} {far : Decoder β}
    {next : α → Decoder γ} {nextFar : β → Decoder δ} {cursor : Cursor}
    (start : far (cursor.shifted distance) = shiftResult distance change (near cursor))
    (onward : ∀ value later, near cursor = .ok value later →
      nextFar (change value) (later.shifted distance) =
        shiftResult distance change' (next value later)) :
    (far >>= nextFar) (cursor.shifted distance) =
      shiftResult distance change' ((near >>= next) cursor) := by
  rw [bind_apply, bind_apply, start]
  cases equation : near cursor with
  | ok value later => exact onward value later equation
  | error error later => rfl

/-- **Sequences shift** if their parts do. -/
theorem Shifts.bind {change : α → β} {change' : γ → δ} {near : Decoder α} {far : Decoder β}
    {next : α → Decoder γ} {nextFar : β → Decoder δ} (start : Shifts distance change near far)
    (onward : ∀ value, Shifts distance change' (next value) (nextFar (change value))) :
    Shifts distance change' (near >>= next) (far >>= nextFar) :=
  fun cursor => bind_shifted (start cursor) fun value later _ => onward value later

/-- A decoder that does not depend on the place may come before others that are shifted. -/
theorem Movable.bind {change : γ → δ} {first : Decoder α} {next : α → Decoder γ}
    {nextFar : α → Decoder δ} (movable : Movable distance first)
    (onward : ∀ value, Shifts distance change (next value) (nextFar value)) :
    Shifts distance change (first >>= next) (first >>= nextFar) :=
  Shifts.bind movable onward

/-- A sequence that knows where it starts. -/
theorem Movable.located {change : γ → δ} {first : Decoder α} {next : Nat → α → Decoder γ}
    {nextFar : Nat → α → Decoder δ} (movable : Movable distance first)
    (onward : ∀ offset value,
      Shifts distance change (next offset value) (nextFar (offset + distance) value)) :
    Shifts distance change (position >>= fun offset => first >>= next offset)
      (position >>= fun offset => first >>= nextFar offset) :=
  shifts_position.bind fun offset => movable.bind (onward offset)

/-- A result may be changed without a look at the place. -/
theorem Movable.map {first : Decoder α} (movable : Movable distance first) (change : α → β) :
    Movable distance (do return change (← first)) :=
  movable.bind fun _ => movable_pure _

/-- A result may be mapped without a look at the place. -/
theorem Movable.mapped {first : Decoder α} (movable : Movable distance first) (change : α → β) :
    Movable distance (change <$> first) := by
  rw [map_eq_pure_bind]
  exact movable.map change

/-- A choice is shifted if both sides are. -/
theorem Shifts.ite {condition : Prop} [Decidable condition] {change : α → β}
    {first second : Decoder α} {firstFar secondFar : Decoder β}
    (positive : Shifts distance change first firstFar)
    (negative : Shifts distance change second secondFar) :
    Shifts distance change (if condition then first else second)
      (if condition then firstFar else secondFar) := by
  by_cases holds : condition
  · simpa only [if_pos holds] using positive
  · simpa only [if_neg holds] using negative

/-- A check lets the rest run or fails further on. -/
theorem Shifts.check {condition : Prop} [Decidable condition] {change : α → β} (error : Error)
    {near : Unit → Decoder α} {far : Unit → Decoder β}
    (onward : Shifts distance change (near ()) (far ())) :
    Shifts distance change (if condition then near () else throw error >>= near)
      (if condition then far () else throw (error.shifted distance) >>= far) :=
  onward.ite ((shifts_throw id error).bind fun _ => onward)

/-- A check lets the rest run unless it fails further on. -/
theorem Shifts.refuse {condition : Prop} [Decidable condition] {change : α → β} (error : Error)
    {near : Unit → Decoder α} {far : Unit → Decoder β}
    (onward : Shifts distance change (near ()) (far ())) :
    Shifts distance change (if condition then throw error >>= near else near ())
      (if condition then throw (error.shifted distance) >>= far else far ()) :=
  ((shifts_throw id error).bind fun _ => onward).ite onward

/-- A window of its own lies further on as well. -/
theorem Shifts.within {change : α → β} {near : Decoder α} {far : Decoder β}
    (shifts : Shifts distance change near far) (window : Cursor) :
    Shifts distance change (within window near) (within (window.shifted distance) far) := by
  intro cursor
  unfold Decoder.within
  rw [shifts window]
  cases near window with
  | ok value later => rfl
  | error error later => rfl

/-! ## Bytes and integers -/

/-- A byte is read alike anywhere. -/
theorem movable_byte : Movable distance byte := by
  intro cursor
  obtain ⟨position, rest⟩ := cursor
  cases rest with
  | nil => rfl
  | cons first rest => simp only [byte, Cursor.shifted, shiftResult, id, Nat.add_right_comm]

/-- The cursor of a window is shifted with the one that it is taken from. -/
theorem shifts_window (count : Nat) :
    Shifts distance (Cursor.shifted distance) (window count) (window count) := by
  intro cursor
  simp only [window]
  by_cases full : (cursor.rest.take count).length = count
  · rw [if_pos full]
    refine (if_pos full).trans ?_
    simp only [Cursor.shifted, shiftResult, Nat.add_right_comm]
  · rw [if_neg full]
    exact if_neg full

/-- Bytes in a row are read alike anywhere. -/
theorem movable_bytes (count : Nat) : Movable distance (Decoder.bytes count) :=
  (shifts_window count).bind fun _ => movable_pure _

/-- So are numbers of a fixed width. -/
theorem movable_fixedWidth (count : Nat) : Movable distance (fixedWidth count) := by
  intro cursor
  unfold fixedWidth
  rw [movable_bytes count cursor]
  cases Decoder.bytes count cursor with
  | ok front later => rfl
  | error error later =>
      -- Reading stops at the end of the window, which lies further on as well.
      simp only [shiftResult, Cursor.remaining_shifted, Cursor.advance_shifted]
      rfl

/-- So are variable-length integers. -/
theorem movable_varint (bits : Nat) (read : List UInt8 → Varint.Reading α) :
    Movable distance (varint bits read) := by
  intro cursor
  simp only [varint, Cursor.rest_shifted, Cursor.advance_shifted]
  cases (read cursor.rest).result with
  | ok value => rfl
  | error error => cases error <;> rfl

/-- So are flags. -/
theorem movable_flag : Movable distance flag :=
  (movable_varint 1 _).map _

/-- So are unsigned integers of seven bits. -/
theorem movable_unsigned7 : Movable distance unsigned7 :=
  (movable_varint 7 _).map _

/-- So are unsigned integers of 32 bits. -/
theorem movable_unsigned32 : Movable distance unsigned32 :=
  (movable_varint 32 _).map _

/-! ## Compounds -/

/-- Items that are read further on are changed one by one. -/
theorem Shifts.repeatOnto {change : α → β} {item : Decoder α} {itemFar : Decoder β}
    (shifts : Shifts distance change item itemFar) (count : Nat) (read : List α) :
    Shifts distance (List.map change) (repeatOnto item count read)
      (repeatOnto itemFar count (read.map change)) := by
  induction count generalizing read with
  | zero =>
      have same : (read.map change).reverse = read.reverse.map change := List.map_reverse.symm
      rw [Decoder.repeatOnto, Decoder.repeatOnto, same]
      exact shifts_pure _ _
  | succ count countInduction => exact shifts.bind fun value => countInduction (value :: read)

/-- A counted list is shifted entry by entry. -/
theorem Shifts.vector {change : α → β} {item : Decoder α} {itemFar : Decoder β}
    (shifts : Shifts distance change item itemFar) :
    Shifts distance (List.map change) (vector item) (vector itemFar) :=
  movable_unsigned32.bind fun count => shifts.repeatOnto count.toNat []

/-- Entries that are read alike anywhere are so one after the other. -/
theorem Movable.repeatOnto {item : Decoder α} (movable : Movable distance item) (count : Nat)
    (read : List α) : Movable distance (repeatOnto item count read) := by
  have shifts := Shifts.repeatOnto movable count read
  rwa [List.map_id, List.map_id_fun] at shifts

/-- So is a counted list of them. -/
theorem Movable.vector {item : Decoder α} (movable : Movable distance item) :
    Movable distance (vector item) :=
  movable_unsigned32.bind fun count => movable.repeatOnto count.toNat []

/-- A name is read alike anywhere. -/
theorem movable_name : Movable distance name := by
  refine movable_unsigned32.bind fun count => ?_
  refine (movable_bytes count.toNat).located fun offset text => ?_
  cases String.fromUTF8? ⟨text.toArray⟩ with
  | none => exact shifts_throw id (.invalidUtf8 offset)
  | some name => exact movable_pure name

/-- The end of a window is where it is, so an error for it shows further on. -/
theorem shifts_expectEnd {error errorFar : Nat → Error}
    (same : ∀ offset, errorFar (offset + distance) = (error offset).shifted distance) :
    Shifts distance id (expectEnd error) (expectEnd errorFar) := by
  refine shifts_get.bind fun cursor => ?_
  simp only [Cursor.rest_shifted, Cursor.position_shifted, same]
  exact (movable_pure ()).ite (shifts_throw id _)

/-! ## Types and operators -/

/-- A value type is read alike anywhere. -/
theorem movable_valueType : Movable distance valueType := by
  refine movable_byte.located fun offset byte => ?_
  cases ValueType.ofByte? byte with
  | none => exact shifts_throw id (.invalidValueType offset byte)
  | some type => exact movable_pure type

/-- So is a block type. -/
theorem movable_blockType : Movable distance blockType := by
  refine movable_byte.located fun offset byte => (movable_pure none).ite ?_
  cases ValueType.ofByte? byte with
  | none => exact shifts_throw id (.invalidValueType offset byte)
  | some type => exact movable_pure (some type)

/-- So is a reserved byte. -/
theorem movable_reserved : Movable distance reserved :=
  movable_byte.located fun offset _ =>
    (movable_pure ()).ite (shifts_throw id (.nonZeroReserved offset))

/-- An operator of control is the same anywhere, and refused at the shifted offset. -/
theorem shifts_controlOperator (offset : Nat) (opcode : UInt8) :
    Shifts distance id (controlOperator offset opcode)
      (controlOperator (offset + distance) opcode) := by
  unfold controlOperator
  -- One case for each opcode of the family, in ascending order, and one for the others.
  split
  · exact movable_pure _
  · exact movable_pure _
  · exact movable_blockType.map _
  · exact movable_blockType.map _
  · exact movable_blockType.map _
  · exact movable_pure _
  · exact movable_pure _
  · exact movable_unsigned32.map _
  · exact movable_unsigned32.map _
  · exact movable_unsigned32.vector.bind fun _ => movable_unsigned32.map _
  · exact movable_pure _
  · exact movable_unsigned32.map _
  · exact movable_unsigned32.bind fun _ => movable_reserved.map fun _ => _
  · exact shifts_throw id (.illegalOpcode offset opcode)

/-- So is an instruction on variables. -/
theorem shifts_variableInstruction (offset : Nat) (opcode : UInt8) :
    Shifts distance id (variableInstruction offset opcode)
      (variableInstruction (offset + distance) opcode) := by
  unfold variableInstruction
  split
  · exact movable_unsigned32.map _
  · exact movable_unsigned32.map _
  · exact movable_unsigned32.map _
  · exact movable_unsigned32.map _
  · exact movable_unsigned32.map _
  · exact shifts_throw id (.illegalOpcode offset opcode)

/-- So is an instruction on memory. -/
theorem shifts_memoryInstruction (offset : Nat) (opcode : UInt8) :
    Shifts distance id (memoryInstruction offset opcode)
      (memoryInstruction (offset + distance) opcode) := by
  unfold memoryInstruction
  split
  · exact movable_reserved.map fun _ => _
  · exact movable_reserved.map fun _ => _
  · cases Accessor.ofOpcode? opcode with
    | none => exact shifts_throw id (.illegalOpcode offset opcode)
    | some accessor => exact movable_unsigned32.bind fun _ => movable_unsigned32.map _

/-- A constant is read alike anywhere. -/
theorem movable_constant {opcode : UInt8} {constant : Decoder Value}
    (equation : constant? opcode = some constant) : Movable distance constant := by
  unfold constant? at equation
  split at equation
  · cases equation
    exact (movable_varint 32 _).map _
  · cases equation
    exact (movable_varint 64 _).map _
  · cases equation
    exact ((movable_fixedWidth 4).map _).map _
  · cases equation
    exact ((movable_fixedWidth 8).map _).map _
  · cases equation

/-- A numeric instruction is the same anywhere, and refused at the shifted offset. -/
theorem shifts_numericInstruction (offset : Nat) (opcode : UInt8) :
    Shifts distance id (numericInstruction offset opcode)
      (numericInstruction (offset + distance) opcode) := by
  unfold numericInstruction
  cases equation : constant? opcode with
  | some constant => exact (movable_constant equation).map _
  | none =>
      cases NumericOp.ofOpcode? opcode with
      | none => exact shifts_throw id (.illegalOpcode offset opcode)
      | some op => exact movable_pure _

/-- **An operator is the same anywhere**, and its opcode is refused at the shifted offset. -/
theorem shifts_operatorOf (offset : Nat) (opcode : UInt8) :
    Shifts distance id (operatorOf offset opcode) (operatorOf (offset + distance) opcode) := by
  unfold operatorOf
  cases OpcodeFamily.ofOpcode? opcode with
  | none => exact shifts_throw id (.illegalOpcode offset opcode)
  | some family =>
      have plain {near far : Decoder PlainInstruction} (shifts : Shifts distance id near far) :
          Shifts distance id (do return Operator.plain (← near)) (do return .plain (← far)) :=
        shifts.bind fun _ => movable_pure _
      -- One case for each family, in ascending order of opcodes.
      cases family
      · exact shifts_controlOperator offset opcode
      · exact movable_pure _
      · exact plain (shifts_variableInstruction offset opcode)
      · exact plain (shifts_memoryInstruction offset opcode)
      · exact plain (shifts_numericInstruction offset opcode)

end Decoder

/-- An operator that was read further on. -/
def Token.shifted (distance : Nat) (token : Token) : Token :=
  { token with offset := token.offset + distance }

namespace Decoder

/-- **Operators shift**: they keep the offsets of their opcodes. -/
theorem shifts_token : Shifts distance (Token.shifted distance) token token :=
  movable_byte.located fun offset opcode => (shifts_operatorOf offset opcode).bind fun _ =>
    shifts_pure _ _

/-! ## Entries of sections -/

/-- A signature is read alike anywhere. -/
theorem movable_signature : Movable distance signature := by
  refine movable_byte.located fun offset form => .check (.invalidTypeForm offset form) ?_
  refine movable_valueType.vector.bind fun params => ?_
  refine movable_unsigned32.located fun offset count => ?_
  refine .refuse (.tooManyResults offset count) ?_
  exact (movable_valueType.repeatOnto _ _).map _

/-- So are limits. -/
theorem movable_limits : Movable distance limits :=
  movable_flag.bind fun _ => movable_unsigned32.bind fun _ =>
    (movable_unsigned32.map _).ite (movable_pure _)

/-- So is the type of a table. -/
theorem movable_tableType : Movable distance tableType :=
  movable_byte.located fun offset byte => .check (.invalidElementType offset byte) movable_limits

/-- So is the type of a global. -/
theorem movable_globalType : Movable distance globalType :=
  movable_valueType.bind fun _ => movable_flag.map _

/-- The end of a constant expression. -/
theorem movable_finish (initial : Initializer) :
    Movable distance (do
      let offset ← position
      let opcode ← byte
      unless opcode = finishOpcode do throw (.invalidInitializer offset opcode)
      return initial) :=
  movable_byte.located fun offset opcode =>
    .check (.invalidInitializer offset opcode) (movable_pure _)

/-- So is an initializer. -/
theorem movable_initializer : Movable distance initializer := by
  refine movable_byte.located fun offset opcode => ?_
  cases equation : constant? opcode with
  | some constant => exact ((movable_constant equation).mapped _).bind movable_finish
  | none =>
      refine .ite ((movable_unsigned32.mapped _).bind movable_finish) ?_
      exact (shifts_throw id (.invalidInitializer offset opcode)).bind movable_finish

/-- So is an import, after the same ones before it. -/
theorem movable_importEntry (earlier : List Import) : Movable distance (importEntry earlier) := by
  refine movable_name.located fun offset moduleName => movable_name.bind fun field => ?_
  refine movable_byte.located fun kindOffset kind => ?_
  have ends (kind : ImportKind) : Movable distance (pure (⟨moduleName, field, kind⟩ : Import)) :=
    movable_pure _
  split
  · exact (movable_unsigned32.mapped _).bind ends
  · exact .refuse (.repeatedSingleton offset .table) ((movable_tableType.mapped _).bind ends)
  · exact .refuse (.repeatedSingleton offset .memory) ((movable_limits.mapped _).bind ends)
  · exact (movable_globalType.mapped _).bind ends
  · exact (shifts_throw id (.invalidExternalKind kindOffset kind.toNat.toUInt8)).bind ends

/-- So are imports one after the other. -/
theorem movable_importsOnto (count : Nat) (read : List Import) :
    Movable distance (importsOnto count read) := by
  induction count generalizing read with
  | zero => exact movable_pure _
  | succ count countInduction =>
      exact (movable_importEntry read).bind fun entry => countInduction (entry :: read)

/-- So is what a module has at most one of. -/
theorem movable_singleton (kind : Singleton) (present : Bool) {entry : Decoder Limits}
    (movable : Movable distance entry) : Movable distance (singleton kind present entry) := by
  refine movable_unsigned32.located fun offset count => (movable_pure none).ite ?_
  refine .refuse (.repeatedSingleton offset kind) (movable.bind fun limits => ?_)
  exact .refuse (.repeatedSingleton offset kind) (movable_pure _)

/-- So is a global. -/
theorem movable_globalEntry : Movable distance globalEntry :=
  movable_globalType.bind fun _ => movable_initializer.map _

/-- So is what an export refers to. -/
theorem movable_entity : Movable distance entity := by
  refine movable_byte.located fun offset kind => movable_unsigned32.bind fun index => ?_
  split
  · exact movable_pure _
  · exact movable_pure _
  · exact movable_pure _
  · exact movable_pure _
  · exact shifts_throw id (.invalidExternalKind offset kind)

/-- So is an export. -/
theorem movable_exportEntry : Movable distance exportEntry :=
  movable_name.bind fun _ => movable_entity.map _

/-- So is the index that a segment starts with. -/
theorem movable_segmentIndex (kind : Singleton) : Movable distance (segmentIndex kind) :=
  movable_unsigned32.located fun offset index =>
    (movable_pure ()).ite (shifts_throw id (.nonZeroIndex offset kind index))

/-- So is a segment of a table. -/
theorem movable_elementSegment : Movable distance elementSegment :=
  (movable_segmentIndex .table).bind fun _ => movable_initializer.bind fun _ =>
    movable_unsigned32.vector.map _

/-- So is a segment of memory. -/
theorem movable_dataSegment : Movable distance dataSegment :=
  (movable_segmentIndex .memory).bind fun _ => movable_initializer.bind fun _ =>
    movable_unsigned32.bind fun size => (movable_bytes size.toNat).map _

end Decoder

end Binary

/-! ## Structured code -/

namespace Code

/-- Reversing a sequence keeps its offsets. -/
theorem mapOffsets_reverseOnto (change : Nat → Nat) {depth : Nat} (code done : Code depth) :
    (code.reverseOnto done).mapOffsets change =
      (code.mapOffsets change).reverseOnto (done.mapOffsets change) := by
  induction code with
  | empty => rfl
  | plain offset instruction next nextInduction => exact nextInduction _
  | jump offset leap next nextInduction => exact nextInduction _
  | block offset kind type body finish next bodyInduction nextInduction => exact nextInduction _
  | ifThen offset type arm finish next armInduction nextInduction => exact nextInduction _
  | ifElse offset type arm middle otherwise finish next armInduction otherwiseInduction
      nextInduction => exact nextInduction _

/-- Offsets may be changed before or after the order of instructions is. -/
theorem mapOffsets_reverse (change : Nat → Nat) {depth : Nat} (code : Code depth) :
    code.reverse.mapOffsets change = (code.mapOffsets change).reverse :=
  mapOffsets_reverseOnto change code .empty

/-- Code whose opcodes lie further on. -/
def shifted (distance : Nat) {depth : Nat} (code : Code depth) : Code depth :=
  code.mapOffsets (· + distance)

/-- Code may be shifted before or after the order of its instructions is changed. -/
theorem shifted_reverse {depth : Nat} (code : Code depth) :
    code.reverse.shifted distance = (code.shifted distance).reverse :=
  mapOffsets_reverse (· + distance) code

end Code

/-- A body whose opcodes lie further on. -/
def Body.shifted (distance : Nat) (body : Body) : Body :=
  body.mapOffsets (· + distance)

/-- **A linked function further on** is the linked form of the same code further on. -/
theorem Code.link_shifted (locals : List ValueType) (code : Code 0) (finish : Nat) :
    (code.shifted distance).link locals (finish + distance) =
      (code.link locals finish).shifted distance :=
  code.link_mapOffsets (· + distance) locals finish

namespace Binary

/-- Open blocks further on. -/
def Context.shifted (distance : Nat) : {depth : Nat} → Context depth → Context depth
  | _, .top => .top
  | _, .block offset kind type before outer =>
      .block (offset + distance) kind type (before.shifted distance) (outer.shifted distance)
  | _, .firstArm offset type before outer =>
      .firstArm (offset + distance) type (before.shifted distance) (outer.shifted distance)
  | _, .secondArm offset type arm middle before outer =>
      .secondArm (offset + distance) type (arm.shifted distance) (middle + distance)
        (before.shifted distance) (outer.shifted distance)

/-- Operators that are read further on. -/
def TokenStream.shifted (distance : Nat) : TokenStream → TokenStream
  | .exhausted position => .exhausted (position + distance)
  | .failed offset error position =>
      .failed (offset + distance) (error.shifted distance) (position + distance)
  | .next token rest => .next (token.shifted distance) (rest.shifted distance)

/-- Code that is closed further on. -/
def ClosedCode.shifted (distance : Nat) (closed : ClosedCode) : ClosedCode :=
  ⟨closed.code.shifted distance, closed.finish + distance, closed.rest.shifted distance⟩

/-- What is found out further on: a value is changed as given, and an error shifted. -/
def shiftOutcome (distance : Nat) (change : α → β) : Except Error α → Except Error β
  | .ok value => .ok (change value)
  | .error error => .error (error.shifted distance)

/-- What is found out of what is found out further on. -/
theorem bind_shiftOutcome {change : α → β} {change' : γ → δ} {near : Except Error α}
    {next : α → Except Error γ} {nextFar : β → Except Error δ}
    (onward : ∀ value, nextFar (change value) = shiftOutcome distance change' (next value)) :
    (shiftOutcome distance change near >>= nextFar) =
      shiftOutcome distance change' (near >>= next) := by
  cases near with
  | ok value => exact onward value
  | error error => rfl

/-- A block is refused at the shifted offset. -/
theorem checkNesting_shifted (depth offset : Nat) :
    checkNesting depth (offset + distance) =
      shiftOutcome distance id (checkNesting depth offset) := by
  unfold checkNesting
  split <;> rfl

/-- So is a branch. -/
theorem levelOf_shifted (depth offset : Nat) (level : UInt32) :
    levelOf depth (offset + distance) level =
      shiftOutcome distance id (levelOf depth offset level) := by
  unfold levelOf
  split <;> rfl

/-- So is a branch for any of its levels. -/
theorem mapM_levelOf_shifted (depth offset : Nat) (levels : List UInt32) :
    levels.mapM (levelOf depth (offset + distance)) =
      shiftOutcome distance id (levels.mapM (levelOf depth offset)) := by
  induction levels with
  | nil => rfl
  | cons level levels levelsInduction =>
      rw [List.mapM_cons, List.mapM_cons, levelOf_shifted]
      refine bind_shiftOutcome fun resolved => ?_
      rw [levelsInduction]
      exact bind_shiftOutcome fun _ => rfl

namespace TokenStream

/-- **Operators are put together in the same way** further on, or refused for the same reason. -/
theorem assemble_shifted (stream : TokenStream) {depth : Nat} (context : Context depth)
    (done : Code depth) :
    (stream.shifted distance).assemble (context.shifted distance) (done.shifted distance) =
      shiftOutcome distance (ClosedCode.shifted distance) (stream.assemble context done) := by
  induction stream generalizing depth with
  | exhausted position => rfl
  | failed offset error position => rfl
  | next token rest restInduction =>
      obtain ⟨offset, opcode, operator⟩ := token
      simp only [TokenStream.shifted, Token.shifted, assemble, checkNesting_shifted,
        levelOf_shifted, mapM_levelOf_shifted]
      -- Whatever an operator does, the others go on from where it has been done further on.
      cases operator with
      | plain instruction => exact restInduction context (.plain offset instruction done)
      | block type =>
          exact bind_shiftOutcome fun _ =>
            restInduction (.block offset .block type done context) .empty
      | loop type =>
          exact bind_shiftOutcome fun _ =>
            restInduction (.block offset .loop type done context) .empty
      | ifThen type =>
          exact bind_shiftOutcome fun _ =>
            restInduction (.firstArm offset type done context) .empty
      | otherwise =>
          cases context with
          | top | block | secondArm => rfl
          | firstArm opener type before outer =>
              simp only [Context.shifted, ← Code.shifted_reverse]
              exact restInduction (.secondArm opener type done.reverse offset before outer) .empty
      | finish =>
          cases context with
          | top =>
              simp only [Context.shifted, ← Code.shifted_reverse]
              rfl
          | block opener kind type before outer =>
              simp only [Context.shifted, ← Code.shifted_reverse]
              exact restInduction outer (.block opener kind type done.reverse offset before)
          | firstArm opener type before outer =>
              simp only [Context.shifted, ← Code.shifted_reverse]
              exact restInduction outer (.ifThen opener type done.reverse offset before)
          | secondArm opener type arm middle before outer =>
              simp only [Context.shifted, ← Code.shifted_reverse]
              exact restInduction outer
                (.ifElse opener type arm middle done.reverse offset before)
      | branch level =>
          exact bind_shiftOutcome fun level =>
            restInduction context (.jump offset (.always level) done)
      | branchIf level =>
          exact bind_shiftOutcome fun level =>
            restInduction context (.jump offset (.ifTrue level) done)
      | branchTable levels fallback =>
          exact bind_shiftOutcome fun levels => bind_shiftOutcome fun level =>
            restInduction context (.jump offset (.table levels level) done)

/-- **Operators further on** are those read here, up to offsets. -/
theorem readOnto_shifted (fuel : Nat) (cursor : Cursor) :
    readOnto fuel [] (cursor.shifted distance) = (readOnto fuel [] cursor).shifted distance := by
  induction fuel generalizing cursor with
  | zero => rfl
  | succ fuel fuelInduction =>
      simp only [readOnto, Cursor.rest_shifted, Decoder.shifts_token cursor]
      by_cases ends : cursor.rest.isEmpty = true
      · rw [if_pos ends, if_pos ends]
        rfl
      rw [if_neg ends, if_neg ends]
      cases Decoder.token cursor with
      | error error later => rfl
      | ok token later =>
          simp only [shiftResult]
          rw [readOnto_eq fuel [token.shifted distance], readOnto_eq fuel [token], fuelInduction]
          rfl

/-- The operators of a shifted cursor are those of the cursor, shifted. -/
theorem ofCursor_shifted (cursor : Cursor) :
    ofCursor (cursor.shifted distance) = (ofCursor cursor).shifted distance :=
  readOnto_shifted cursor.remaining cursor

/-- Shifting a stream leaves whether there are bytes. -/
@[simp] theorem hasBytes_shifted (stream : TokenStream) :
    (stream.shifted distance).hasBytes = stream.hasBytes := by
  cases stream <;> rfl

/-- It shifts where the stream goes on. -/
@[simp] theorem offset_shifted (stream : TokenStream) :
    (stream.shifted distance).offset = stream.offset + distance := by
  cases stream <;> rfl

end TokenStream

/-! ## Bodies -/

namespace Decoder

/-- **Structured code is shifted** with its end. -/
theorem shifts_code :
    Shifts distance (fun result => (result.1.shifted distance, result.2 + distance)) code code := by
  intro cursor
  have assembled : (TokenStream.ofCursor (cursor.shifted distance)).assemble .top .empty =
      shiftOutcome distance (ClosedCode.shifted distance)
        ((TokenStream.ofCursor cursor).assemble .top .empty) := by
    rw [TokenStream.ofCursor_shifted]
    exact (TokenStream.ofCursor cursor).assemble_shifted .top .empty
  rw [code_apply, code_apply, assembled]
  cases (TokenStream.ofCursor cursor).assemble .top .empty with
  | error error => rfl
  | ok closed =>
      simp only [shiftOutcome, ClosedCode.shifted, TokenStream.hasBytes_shifted,
        TokenStream.offset_shifted]
      by_cases left : closed.rest.hasBytes = true
      · rw [if_pos left, if_pos left]
        rfl
      · rw [if_neg left, if_neg left]
        rfl

/-- Groups of locals are read alike anywhere. -/
theorem movable_localsOnto (groups declared : Nat) (read : List ValueType) :
    Movable distance (localsOnto groups declared read) := by
  induction groups generalizing declared read with
  | zero => exact movable_pure _
  | succ groups groupsInduction =>
      refine movable_unsigned32.located fun offset count => ?_
      refine .refuse (.tooManyLocals offset _) ?_
      exact movable_valueType.bind fun type => groupsInduction _ _

/-- **Bodies shift**: they keep the offsets of their opcodes, and nothing else tells where they lie.
-/
theorem shifts_body : Shifts distance (Body.shifted distance) body body := by
  refine movable_unsigned32.bind fun groups => ?_
  refine (movable_localsOnto groups.toNat 0 []).bind fun locals => shifts_code.bind ?_
  rintro ⟨code, finish⟩
  simp only [Code.link_shifted]
  exact shifts_pure _ _

/-- **An entry of the code section** is shifted with the offsets in its body. -/
theorem shifts_codeEntry : Shifts distance (Body.shifted distance) codeEntry codeEntry :=
  movable_unsigned32.bind fun size => (shifts_window size.toNat).bind fun entry =>
    shifts_body.within entry

/-- What a decoder finds out further on is what it finds out here, changed. -/
theorem Shifts.outcome {change : α → β} {near : Decoder α} {far : Decoder β}
    (shifts : Shifts distance change near far) (cursor : Cursor) :
    far.outcome (cursor.shifted distance) =
      shiftOutcome distance change (near.outcome cursor) := by
  unfold Decoder.outcome
  rw [shifts cursor]
  cases near cursor <;> rfl

end Decoder

/-! ## Bodies inside an input -/

/-- A cursor that has been moved over the front of an input is at the rest of it. -/
theorem Cursor.advance_ofBytes (before rest : List UInt8) :
    (Cursor.ofBytes (before ++ rest)).advance before.length = ⟨before.length, rest⟩ := by
  simp [Cursor.advance, Cursor.ofBytes, Cursor.remaining]

/-- **Bodies are decoded independently of where they lie.** If bytes stand between others in an
input, a window over them can be split off there. It is decoded as the bytes alone are: to a body
that differs only in its offsets, or to an error that differs only in its offset, and these are
larger by the number of bytes before. -/
theorem bodies_decode_anywhere (before bytes after : List UInt8) :
    let place := (Cursor.ofBytes (before ++ (bytes ++ after))).advance before.length
    ∃ entry, Decoder.window bytes.length place = .ok entry (place.advance bytes.length) ∧
      Decoder.body.outcome entry =
        match decodeBody bytes with
        | .ok body => .ok { body with offsets := body.offsets.map (· + before.length) }
        | .error error => .error (error.shifted before.length) := by
  intro place
  have start : place = ⟨before.length, bytes ++ after⟩ := Cursor.advance_ofBytes _ _
  have beyond : place.advance bytes.length = ⟨before.length + bytes.length, after⟩ := by
    rw [start]
    simp [Cursor.advance, Cursor.remaining]
  refine ⟨⟨before.length, bytes⟩, ?_, ?_⟩
  · rw [beyond, start]
    exact Decoder.reads_window before.length rfl after
  -- The window is the one of the bytes alone, further on by the number of bytes before.
  · have further : (Cursor.ofBytes bytes).shifted before.length = ⟨before.length, bytes⟩ := by
      rw [Cursor.shifted, Cursor.ofBytes, Nat.zero_add]
    rw [← further, Decoder.shifts_body.outcome, decodeBody]
    cases Decoder.body.outcome (Cursor.ofBytes bytes) <;> rfl

end Binary

end WasmCompiler
