import WasmCompiler.Proofs.Encoding

/-! # What stands at offsets

Every window of a module is a part of it, so what a decoder finds at a position of its window stands
at that offset of the module, and an error can say so.

* **`Error.Names`** — an error tells what stands at its offset;
* **`Cursor.StandsIn`** — a cursor is at its position in bytes;
* **`Decoder.Finds`** — a decoder keeps to the bytes that its cursor stands in, and its errors name
  some of them;
* **`Decoder.finds_token`** — the offset of an operator is that of its opcode. -/

namespace WasmCompiler

namespace Binary

open Stateful Varint

/-! ## Errors -/

/-- **What an error tells of bytes**: of the byte at its offset, or of the integer that starts
there. -/
def Error.Tells (bytes : List UInt8) : Error → Prop
  | .illegalOpcode offset byte | .invalidValueType offset byte | .invalidTypeForm offset byte
  | .invalidElementType offset byte | .invalidExternalKind offset byte
  | .invalidInitializer offset byte | .unknownSection offset byte
  | .sectionOutOfOrder offset byte =>
      bytes[offset]? = some byte
  | .thirdArm offset opcode => opcode = 0x05 ∧ bytes[offset]? = some opcode
  | .unexpectedElse offset => bytes[offset]? = some 0x05
  | .nonZeroReserved offset => ∃ byte, byte ≠ 0 ∧ bytes[offset]? = some byte
  | .invalidBranchTarget offset depth openBlocks =>
      openBlocks ≤ depth.toNat ∧ ∃ opcode ∈ [0x0c, 0x0d, 0x0e], bytes[offset]? = some opcode
  | .nestingTooDeep offset => ∃ opcode ∈ [0x02, 0x03, 0x04], bytes[offset]? = some opcode
  | .nonZeroIndex offset _ number | .tooManyResults offset number =>
      (readUnsigned 32 (bytes.drop offset)).result = .ok number.toNat
  | .badHeader _ | .malformedVarint _ _ | .trailingBytes _ | .repeatedSingleton _ _
  | .unexpectedEnd _ | .sectionTooLong _ _ | .invalidUtf8 _ | .tooManyLocals _ _ => True

/-- **Whether an error names what is wrong with bytes**: its offset is one of theirs, or that of
their end, and what it tells of them is so. -/
structure Error.Names (bytes : List UInt8) (error : Error) : Prop where
  /-- The offset is not beyond the end. -/
  inside : error.offset ≤ bytes.length
  /-- What the error tells is so. -/
  tells : error.Tells bytes

/-! ## Cursors -/

/-- **Whether a cursor stands in bytes**: its window is a part of them, from its position on. -/
structure Cursor.StandsIn (cursor : Cursor) (bytes : List UInt8) : Prop where
  /-- The position is not beyond the end. -/
  inside : cursor.position ≤ bytes.length
  /-- The window starts at the position. -/
  front : cursor.rest <+: bytes.drop cursor.position

namespace Cursor.StandsIn

variable {cursor : Cursor} {bytes : List UInt8}

/-- The start of the bytes. -/
theorem ofBytes (bytes : List UInt8) : (Cursor.ofBytes bytes).StandsIn bytes :=
  ⟨Nat.zero_le _, List.prefix_rfl⟩

/-- The front of a window stands where the window starts. -/
theorem front_of_split (stands : cursor.StandsIn bytes) {front rest : List UInt8}
    (split : cursor.rest = front ++ rest) : front <+: bytes.drop cursor.position :=
  (List.prefix_append front rest).trans (split ▸ stands.front)

/-- **A cursor that comes later** in the same window stands in the bytes. -/
theorem of_follows (stands : cursor.StandsIn bytes) {later : Cursor}
    (follows : cursor.Follows later) : later.StandsIn bytes := by
  obtain ⟨read, split, place⟩ := follows
  -- The bytes go on from the position with what has been read, what is left and what comes after.
  obtain ⟨after, whole⟩ := stands.front
  rw [split, List.append_assoc] at whole
  refine ⟨?_, after, ?_⟩
  · have length := congrArg List.length whole
    have inside := stands.inside
    rw [List.length_append, List.length_drop] at length
    omega
  · rw [place, ← List.drop_drop, ← whole, List.drop_left]

/-- A cursor that goes on still stands in the bytes. -/
theorem advance (stands : cursor.StandsIn bytes) (count : Nat) :
    (cursor.advance count).StandsIn bytes :=
  stands.of_follows (cursor.follows_advance count)

/-- A window of the next bytes stands in them. -/
theorem window (stands : cursor.StandsIn bytes) (count : Nat) :
    StandsIn ⟨cursor.position, cursor.rest.take count⟩ bytes :=
  ⟨stands.inside, (List.take_prefix count cursor.rest).trans stands.front⟩

end Cursor.StandsIn

/-- The first byte of what stands at an offset is the one there. -/
theorem getElem?_of_front {bytes back : List UInt8} {offset : Nat} {first : UInt8}
    (front : first :: back <+: bytes.drop offset) : bytes[offset]? = some first := by
  obtain ⟨rest, whole⟩ := front
  rw [← List.head?_drop, ← whole]
  rfl

namespace Decoder

variable {α β : Type} {bytes : List UInt8}

/-! ## Decoders -/

/-- **Whether a decoder finds something in bytes**: from a cursor that stands in them it comes to
another one, with a value that is found at the first, or fails with an error that names what is
wrong. -/
structure Finds (bytes : List UInt8) (found : (offset : Nat) → α → Prop) (decoder : Decoder α) :
    Prop where
  /-- What is read is found where reading starts, and reading stops in the bytes. -/
  reads : ∀ {cursor later : Cursor} {value : α}, cursor.StandsIn bytes →
    decoder cursor = .ok value later → later.StandsIn bytes ∧ found cursor.position value
  /-- An error names what is wrong. -/
  fails : ∀ {cursor later : Cursor} {error : Error}, cursor.StandsIn bytes →
    decoder cursor = .error error later → error.Names bytes

/-- Whether a decoder keeps to bytes, whatever it finds in them. -/
def Faithful (bytes : List UInt8) (decoder : Decoder α) : Prop :=
  Finds bytes (fun _ _ => True) decoder

variable {found : Nat → α → Prop} {decoder : Decoder α}

/-- Giving a value that is found everywhere finds it. -/
theorem finds_pure {value : α} (holds : ∀ offset, found offset value) :
    Finds bytes found (pure value) where
  reads stands equation := by
    cases equation
    exact ⟨stands, holds _⟩
  fails := nofun

/-- Giving a value is faithful. -/
theorem faithful_pure (value : α) : Faithful bytes (pure value) :=
  finds_pure fun _ => trivial

/-- A failure whose error names what is wrong finds anything. -/
theorem finds_throw {error : Error} (names : error.Names bytes) :
    Finds bytes found (throw error : Decoder α) where
  reads _ := nofun
  fails _ equation := by
    cases equation
    exact names

/-- **A sequence finds** what its second part does after what the first one finds. The position
before both is an offset of the bytes. -/
theorem Finds.located {kept : Nat → β → Prop} {first : Decoder β} {next : Nat → β → Decoder α}
    (start : Finds bytes kept first)
    (onward : ∀ offset value, offset ≤ bytes.length → kept offset value →
      Finds bytes (fun _ => found offset) (next offset value)) :
    Finds bytes found (position >>= fun offset => first >>= next offset) where
  reads stands equation := by
    -- The position is that of the cursor from which the next part starts to read.
    obtain ⟨offset, same, known, equation⟩ := bind_eq_ok.mp equation
    cases known
    obtain ⟨value, middle, starts, follows⟩ := bind_eq_ok.mp equation
    obtain ⟨between, holds⟩ := start.reads stands starts
    exact (onward _ value stands.inside holds).reads between follows
  fails stands equation := by
    rcases bind_eq_error.mp equation with unknown | ⟨offset, same, known, equation⟩
    · cases unknown
    cases known
    rcases bind_eq_error.mp equation with starts | ⟨value, middle, starts, follows⟩
    · exact start.fails stands starts
    · obtain ⟨between, holds⟩ := start.reads stands starts
      exact (onward _ value stands.inside holds).fails between follows

/-- A sequence that does not look at its position. -/
theorem Finds.bind {kept : Nat → β → Prop} {first : Decoder β} {second : β → Decoder α}
    (start : Finds bytes kept first)
    (onward : ∀ offset value, kept offset value →
      Finds bytes (fun _ => found offset) (second value)) :
    Finds bytes found (first >>= second) :=
  Finds.located start fun offset value _ => onward offset value

/-- What finds a thing finds whatever follows from it. -/
theorem Finds.imp {weaker : Nat → α → Prop} (finds : Finds bytes found decoder)
    (weaken : ∀ offset value, found offset value → weaker offset value) :
    Finds bytes weaker decoder where
  reads stands equation :=
    ⟨(finds.reads stands equation).1, weaken _ _ (finds.reads stands equation).2⟩
  fails := finds.fails

/-- A decoder that finds something is faithful. -/
theorem Finds.faithful (finds : Finds bytes found decoder) : Faithful bytes decoder :=
  finds.imp fun _ _ _ => trivial

/-- A change of the value is none of the bytes. -/
theorem Faithful.map {first : Decoder β} (faithful : Faithful bytes first) (change : β → α) :
    Faithful bytes (do return change (← first)) :=
  faithful.bind fun _ _ _ => faithful_pure _

/-- So is a faithful one with its values changed. -/
theorem Faithful.mapped {first : Decoder β} (faithful : Faithful bytes first) (change : β → α) :
    Faithful bytes (change <$> first) := by
  rw [map_eq_pure_bind]
  exact faithful.map change

/-- What a decoder reads stands where it starts to read, in its form. -/
theorem Faithful.admitted {form : List UInt8 → α → Prop} (faithful : Faithful bytes decoder)
    (admits : Admits decoder form) :
    Finds bytes (fun offset value => ∃ front, front <+: bytes.drop offset ∧ form front value)
      decoder where
  reads {cursor later value} stands equation := by
    obtain ⟨front, split, -, holds⟩ := admits cursor later value equation
    exact ⟨(faithful.reads stands equation).1, front, stands.front_of_split split, holds⟩
  fails := faithful.fails

/-- What follows an error is not run. -/
theorem finds_throw_bind {error : Error} {onward : β → Decoder α} (names : error.Names bytes) :
    Finds bytes found ((throw error : Decoder β) >>= onward) :=
  have never : Finds bytes (fun _ _ => False) (throw error : Decoder β) := finds_throw names
  never.bind fun _ _ => False.elim

/-- The cursor is found standing in the bytes. -/
theorem finds_get : Finds bytes (fun _ cursor => cursor.StandsIn bytes) get where
  reads stands equation := by
    cases equation
    exact ⟨stands, stands⟩
  fails := nofun

/-- A check lets the rest run or fails. -/
theorem Finds.check {condition : Prop} [Decidable condition] {error : Error}
    {onward : Unit → Decoder α} (names : error.Names bytes)
    (finds : condition → Finds bytes found (onward ())) :
    Finds bytes found (if condition then onward () else throw error >>= onward) := by
  by_cases holds : condition
  · rw [if_pos holds]
    exact finds holds
  · rw [if_neg holds]
    exact finds_throw_bind names

/-- A check lets the rest run unless it fails. -/
theorem Finds.refuse {condition : Prop} [Decidable condition] {error : Error}
    {onward : Unit → Decoder α} (names : error.Names bytes)
    (finds : ¬condition → Finds bytes found (onward ())) :
    Finds bytes found (if condition then throw error >>= onward else onward ()) := by
  rw [← ite_not]
  exact Finds.check names finds

/-- A window of its own is read as the cursor is. -/
theorem Finds.within {property : α → Prop} (finds : Finds bytes (fun _ => property) decoder)
    {window : Cursor} (inside : window.StandsIn bytes) :
    Finds bytes (fun _ => property) (within window decoder) where
  reads stands equation := by
    unfold Decoder.within at equation
    split at equation
    · next reads =>
        cases equation
        exact ⟨stands, (finds.reads inside reads).2⟩
    · cases equation
  fails stands equation := by
    unfold Decoder.within at equation
    split at equation
    · cases equation
    · next fails =>
        cases equation
        exact finds.fails inside fails

/-! ## Bytes -/

/-- Reading a byte is faithful. -/
theorem faithful_byte : Faithful bytes byte where
  reads stands equation := ⟨stands.of_follows (proceeds_byte _ _ _ equation), trivial⟩
  fails stands equation := by
    unfold byte at equation
    split at equation
    · cases equation
      exact ⟨stands.inside, trivial⟩
    · cases equation

/-- A byte that is read stands where reading starts. -/
theorem finds_byte : Finds bytes (fun offset first => bytes[offset]? = some first) byte :=
  (faithful_byte.admitted admits_byte).imp fun offset first ⟨_, front, same⟩ => by
    subst same
    exact getElem?_of_front front

/-- A window that is too long leaves the cursor where it is. -/
theorem window_eq_error {count : Nat} {cursor later : Cursor} {error : Error}
    (equation : window count cursor = .error error later) :
    error = .unexpectedEnd cursor.position ∧ later = cursor := by
  unfold window at equation
  simp only at equation
  split at equation
  · cases equation
  · cases equation
    exact ⟨rfl, rfl⟩

/-- A run of bytes that is too long leaves the cursor where it is. -/
theorem bytes_eq_error {count : Nat} {cursor later : Cursor} {error : Error}
    (equation : Decoder.bytes count cursor = .error error later) :
    error = .unexpectedEnd cursor.position ∧ later = cursor := by
  rcases bind_eq_error.mp equation with missing | ⟨_, _, _, never⟩
  · exact window_eq_error missing
  · cases never

/-- A window stands in the bytes. -/
theorem finds_window (count : Nat) :
    Finds bytes (fun _ inside => inside.StandsIn bytes) (window count) where
  reads stands equation := by
    refine ⟨stands.of_follows (proceeds_window count _ _ _ equation), ?_⟩
    unfold window at equation
    simp only at equation
    split at equation
    · cases equation
      exact stands.window count
    · cases equation
  fails stands equation := by
    obtain ⟨rfl, -⟩ := window_eq_error equation
    exact ⟨stands.inside, trivial⟩

/-- Reading several bytes is faithful. -/
theorem faithful_bytes (count : Nat) : Faithful bytes (Decoder.bytes count) :=
  (finds_window count).faithful.map _

/-- So is reading a constant of fixed width. -/
theorem faithful_fixedWidth (count : Nat) : Faithful bytes (fixedWidth count) where
  reads stands equation := by
    unfold fixedWidth at equation
    split at equation
    · next reads =>
        cases equation
        exact (faithful_bytes count).reads stands reads
    · cases equation
  fails stands equation := by
    unfold fixedWidth at equation
    split at equation
    · cases equation
    · next error after fails =>
        cases equation
        -- The run fails where the cursor is; reading stops at the end of what is left.
        obtain ⟨-, rfl⟩ := bytes_eq_error fails
        exact ⟨(stands.advance _).inside, trivial⟩

/-! ## Integers -/

/-- So is reading an integer of variable length. -/
theorem faithful_varint (bits : Nat) (read : List UInt8 → Reading α) :
    Faithful bytes (varint bits read) where
  reads stands equation :=
    ⟨stands.of_follows (proceeds_varint bits read _ _ _ equation), trivial⟩
  fails stands equation := by
    unfold varint at equation
    simp only at equation
    split at equation
    · cases equation
    -- The end of the input shows where reading stops, and a malformed integer where it starts.
    · cases equation
      exact ⟨(stands.advance _).inside, trivial⟩
    all_goals
      cases equation
      exact ⟨stands.inside, trivial⟩

/-- So is reading a flag. -/
theorem faithful_flag : Faithful bytes flag :=
  (faithful_varint 1 _).map _

/-- An integer of 7 bits is the byte that stands where reading starts. -/
theorem finds_unsigned7 : Finds bytes (fun offset id => bytes[offset]? = some id) unsigned7 :=
  (((faithful_varint 7 _).map _).admitted admits_unsigned7).imp
    fun offset id ⟨_, front, same, _⟩ => by
      subst same
      exact getElem?_of_front front

/-- An index is read of the bytes from where reading starts. -/
theorem finds_unsigned32 :
    Finds bytes (fun offset index =>
      (readUnsigned 32 (bytes.drop offset)).result = .ok index.toNat) unsigned32 :=
  (((faithful_varint 32 _).map _).admitted admits_unsigned32).imp
    fun offset index ⟨front, ⟨rest, whole⟩, spells⟩ => by
      -- Other bytes may follow in the window, but the numeral ends before them.
      rw [← whole, readUnsigned_numeral isWidth_thirtyTwo spells.isNumeral spells.short,
        spells.number_eq, if_pos spells.fits]

/-- So is reading an index. -/
theorem faithful_unsigned32 : Faithful bytes unsigned32 :=
  finds_unsigned32.faithful

/-! ## Compounds -/

/-- Repetition finds what its item does. -/
theorem finds_repeatOnto {property : α → Prop} (finds : Finds bytes (fun _ => property) decoder)
    (count : Nat) {read : List α} (earlier : ∀ value ∈ read, property value) :
    Finds bytes (fun _ values => ∀ value ∈ values, property value)
      (repeatOnto decoder count read) := by
  induction count generalizing read with
  | zero => exact finds_pure fun _ value member => earlier value (List.mem_reverse.mp member)
  | succ count countInduction =>
      refine finds.bind fun _ value holds => ?_
      exact countInduction (List.forall_mem_cons.mpr ⟨holds, earlier⟩)

/-- A vector consists of what its items are found to be. -/
theorem finds_vector {property : α → Prop} (finds : Finds bytes (fun _ => property) decoder) :
    Finds bytes (fun _ values => ∀ value ∈ values, property value) (vector decoder) :=
  faithful_unsigned32.bind fun _ count _ =>
    finds_repeatOnto finds count.toNat (List.forall_mem_nil _)

/-- Repeating a faithful decoder is faithful. -/
theorem Faithful.repeatOnto (faithful : Faithful bytes decoder) (count : Nat) (read : List α) :
    Faithful bytes (repeatOnto decoder count read) :=
  (finds_repeatOnto faithful count fun _ _ => trivial).faithful

/-- So is reading a vector of its items. -/
theorem Faithful.vector (faithful : Faithful bytes decoder) : Faithful bytes (vector decoder) :=
  (finds_vector faithful).faithful

/-- Reading a name is faithful. -/
theorem faithful_name : Faithful bytes name := by
  refine faithful_unsigned32.bind fun _ count _ => ?_
  refine (faithful_bytes count.toNat).located fun offset text inside _ => ?_
  split
  · exact faithful_pure _
  · exact finds_throw ⟨inside, trivial⟩

/-- So is the check that a window ends, if its error names the place. -/
theorem faithful_expectEnd {error : Nat → Error}
    (names : ∀ offset ≤ bytes.length, (error offset).Names bytes) :
    Faithful bytes (expectEnd error) := by
  refine finds_get.bind fun _ cursor stands => ?_
  split
  · exact faithful_pure _
  · exact finds_throw (names _ stands.inside)

/-! ## Types -/

/-- Reading a value type is faithful. -/
theorem faithful_valueType : Faithful bytes valueType := by
  refine finds_byte.located fun offset byte inside stands => ?_
  split
  · exact faithful_pure _
  · exact finds_throw ⟨inside, stands⟩

/-- So is reading a block type. -/
theorem faithful_blockType : Faithful bytes blockType := by
  refine finds_byte.located fun offset byte inside stands => ?_
  split
  · exact faithful_pure _
  split
  · exact faithful_pure _
  · exact finds_throw ⟨inside, stands⟩

/-- So is reading a reserved byte. -/
theorem faithful_reserved : Faithful bytes reserved := by
  refine finds_byte.located fun offset byte inside stands => ?_
  split
  · exact faithful_pure _
  · next other => exact finds_throw ⟨inside, byte, other, stands⟩

/-! ## Operators -/

variable {offset : Nat} {opcode : UInt8}

/-- So is reading a control operator, where an illegal opcode would be named. -/
theorem faithful_controlOperator (illegal : (Error.illegalOpcode offset opcode).Names bytes) :
    Faithful bytes (controlOperator offset opcode) := by
  unfold controlOperator
  -- One case for each opcode of the family, in ascending order, and one for the others.
  split
  · exact faithful_pure _
  · exact faithful_pure _
  · exact faithful_blockType.map _
  · exact faithful_blockType.map _
  · exact faithful_blockType.map _
  · exact faithful_pure _
  · exact faithful_pure _
  · exact faithful_unsigned32.map _
  · exact faithful_unsigned32.map _
  · exact faithful_unsigned32.vector.bind fun _ _ _ => faithful_unsigned32.map _
  · exact faithful_pure _
  · exact faithful_unsigned32.map _
  · exact faithful_unsigned32.bind fun _ _ _ => faithful_reserved.map fun _ => _
  · exact finds_throw illegal

/-- So is reading an access to a variable. -/
theorem faithful_variableInstruction (illegal : (Error.illegalOpcode offset opcode).Names bytes) :
    Faithful bytes (variableInstruction offset opcode) := by
  unfold variableInstruction
  split
  · exact faithful_unsigned32.map _
  · exact faithful_unsigned32.map _
  · exact faithful_unsigned32.map _
  · exact faithful_unsigned32.map _
  · exact faithful_unsigned32.map _
  · exact finds_throw illegal

/-- So is reading an access to memory. -/
theorem faithful_memoryInstruction (illegal : (Error.illegalOpcode offset opcode).Names bytes) :
    Faithful bytes (memoryInstruction offset opcode) := by
  unfold memoryInstruction
  split
  · exact faithful_reserved.map fun _ => _
  · exact faithful_reserved.map fun _ => _
  split
  · exact faithful_unsigned32.bind fun _ _ _ => faithful_unsigned32.map _
  · exact finds_throw illegal

/-- So is reading a constant. -/
theorem faithful_constant {constant : Decoder Value} (equation : constant? opcode = some constant) :
    Faithful bytes constant := by
  unfold constant? at equation
  split at equation
  · cases equation
    exact (faithful_varint 32 _).map _
  · cases equation
    exact (faithful_varint 64 _).map _
  · cases equation
    exact ((faithful_fixedWidth 4).map _).map _
  · cases equation
    exact ((faithful_fixedWidth 8).map _).map _
  · cases equation

/-- So is reading a numeric instruction. -/
theorem faithful_numericInstruction (illegal : (Error.illegalOpcode offset opcode).Names bytes) :
    Faithful bytes (numericInstruction offset opcode) := by
  unfold numericInstruction
  split
  · next equation => exact (faithful_constant equation).map _
  split
  · exact faithful_pure _
  · exact finds_throw illegal

/-- **So is reading the operator of any opcode.** -/
theorem faithful_operatorOf (illegal : (Error.illegalOpcode offset opcode).Names bytes) :
    Faithful bytes (operatorOf offset opcode) := by
  unfold operatorOf
  split
  · exact faithful_controlOperator illegal
  · exact faithful_pure _
  · exact (faithful_variableInstruction illegal).map _
  · exact (faithful_memoryInstruction illegal).map _
  · exact (faithful_numericInstruction illegal).map _
  · exact finds_throw illegal

end Decoder

/-- Every spelling of an operator starts with the byte that its binary form starts with. -/
theorem SpellsOperator.head?_eq {bytes : List UInt8} {operator : Operator}
    (spells : SpellsOperator bytes operator) : (encodeOperator operator).head? = bytes.head? := by
  cases spells with
  | plain spells => cases spells <;> rfl
  | block | loop | ifThen | otherwise | finish | branch | branchIf | branchTable => rfl

/-- **Whether the opcode of an operator stands in bytes at an offset.** -/
def OpcodeAt (bytes : List UInt8) (offset : Nat) (operator : Operator) : Prop :=
  ∃ opcode, (encodeOperator operator).head? = some opcode ∧ bytes[offset]? = some opcode

namespace Decoder

variable {bytes : List UInt8}

/-- **The offset of an operator is that of its opcode.** -/
theorem finds_token :
    Finds bytes (fun _ token => OpcodeAt bytes token.offset token.operator) token := by
  refine finds_byte.located fun offset opcode inside stands => ?_
  -- An opcode that is illegal stands at the offset too, so the error for it names it.
  have faithful := faithful_operatorOf ⟨inside, stands⟩
  refine (faithful.admitted (admits_operatorOf offset opcode)).bind ?_
  rintro _ operator ⟨_, _, spells⟩
  exact finds_pure fun _ => ⟨opcode, spells.head?_eq, stands⟩

/-! ## Types of entities and constant expressions -/

/-- Reading a signature is faithful. -/
theorem faithful_signature : Faithful bytes signature := by
  refine finds_byte.located fun offset form inside stands => .check ⟨inside, stands⟩ fun _ => ?_
  refine faithful_valueType.vector.bind fun _ params _ => ?_
  refine finds_unsigned32.located fun offset count inside counted =>
    .refuse ⟨inside, counted⟩ fun _ => ?_
  exact (faithful_valueType.repeatOnto _ _).map _

/-- So is reading limits. -/
theorem faithful_limits : Faithful bytes limits := by
  refine faithful_flag.bind fun _ bounded _ => faithful_unsigned32.bind fun _ initial _ => ?_
  split
  · exact faithful_unsigned32.map _
  · exact faithful_pure _

/-- So is reading a table type. -/
theorem faithful_tableType : Faithful bytes tableType := by
  refine finds_byte.located fun offset byte inside stands => .check ⟨inside, stands⟩ fun _ => ?_
  exact faithful_limits

/-- So is reading a global type. -/
theorem faithful_globalType : Faithful bytes globalType :=
  faithful_valueType.bind fun _ _ _ => faithful_flag.map _

/-- The end of a constant expression. -/
theorem faithful_finish (initial : Initializer) :
    Faithful bytes (do
      let offset ← position
      let opcode ← byte
      unless opcode = finishOpcode do throw (.invalidInitializer offset opcode)
      return initial) :=
  finds_byte.located fun _ _ inside stands => .check ⟨inside, stands⟩ fun _ => faithful_pure _

/-- So is reading an initializer. -/
theorem faithful_initializer : Faithful bytes initializer := by
  refine finds_byte.located fun offset opcode inside stands => ?_
  split
  · next constant equation =>
      exact ((faithful_constant equation).mapped _).bind fun _ initial _ => faithful_finish initial
  split
  · exact (faithful_unsigned32.mapped _).bind fun _ initial _ => faithful_finish initial
  · exact finds_throw_bind ⟨inside, stands⟩

/-! ## Entries -/

/-- So is reading an import. -/
theorem faithful_importEntry (earlier : List Import) : Faithful bytes (importEntry earlier) := by
  refine faithful_name.located fun offset moduleName inside _ => ?_
  refine faithful_name.bind fun _ field _ => ?_
  refine finds_byte.located fun kindOffset kind kindInside stands => ?_
  split
  · exact (faithful_unsigned32.mapped _).map _
  · exact .refuse ⟨inside, trivial⟩ fun _ => (faithful_tableType.mapped _).map _
  · exact .refuse ⟨inside, trivial⟩ fun _ => (faithful_limits.mapped _).map _
  · exact (faithful_globalType.mapped _).map _
  · exact finds_throw_bind ⟨kindInside, stands.trans (congrArg some UInt8.ofNat_toNat.symm)⟩

/-- So is reading all of them. -/
theorem faithful_importsOnto (count : Nat) (read : List Import) :
    Faithful bytes (importsOnto count read) := by
  induction count generalizing read with
  | zero => exact faithful_pure _
  | succ count countInduction =>
      exact (faithful_importEntry read).bind fun _ entry _ => countInduction (entry :: read)

/-- So is reading a section of at most one entry. -/
theorem faithful_singleton (kind : Singleton) (present : Bool) {entry : Decoder Limits}
    (faithful : Faithful bytes entry) : Faithful bytes (singleton kind present entry) := by
  refine faithful_unsigned32.located fun offset count inside _ => ?_
  split
  · exact faithful_pure _
  refine .refuse ⟨inside, trivial⟩ fun _ => faithful.bind fun _ limits _ => ?_
  exact .refuse ⟨inside, trivial⟩ fun _ => faithful_pure _

/-- So is reading a global with its initializer. -/
theorem faithful_globalEntry : Faithful bytes globalEntry :=
  faithful_globalType.bind fun _ _ _ => faithful_initializer.map _

/-- So is reading what is exported. -/
theorem faithful_entity : Faithful bytes entity := by
  refine finds_byte.located fun offset kind inside stands => ?_
  refine faithful_unsigned32.bind fun _ index _ => ?_
  split
  · exact faithful_pure _
  · exact faithful_pure _
  · exact faithful_pure _
  · exact faithful_pure _
  · exact finds_throw ⟨inside, stands⟩

/-- So is reading an export. -/
theorem faithful_exportEntry : Faithful bytes exportEntry :=
  faithful_name.bind fun _ _ _ => faithful_entity.map _

/-- So is reading the index of a segment. -/
theorem faithful_segmentIndex (kind : Singleton) : Faithful bytes (segmentIndex kind) := by
  refine finds_unsigned32.located fun offset index inside counted => ?_
  split
  · exact faithful_pure _
  · exact finds_throw ⟨inside, counted⟩

/-- So is reading a segment of the table. -/
theorem faithful_elementSegment : Faithful bytes elementSegment :=
  (faithful_segmentIndex .table).bind fun _ _ _ => faithful_initializer.bind fun _ _ _ =>
    faithful_unsigned32.vector.map _

/-- So is reading a segment of memory. -/
theorem faithful_dataSegment : Faithful bytes dataSegment :=
  (faithful_segmentIndex .memory).bind fun _ _ _ => faithful_initializer.bind fun _ _ _ =>
    faithful_unsigned32.bind fun _ size _ => (faithful_bytes size.toNat).map _

end Decoder

end Binary

end WasmCompiler
