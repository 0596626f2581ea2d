import WasmCompiler.Binary.Body
import WasmCompiler.Proofs.Stateful

/-! # Decoders move forward

A decoder that succeeds leaves its cursor further on in the same window: what it has read stood
between the two places. `Decoder.Proceeds` says so of one decoder; it holds of everything that an
operator is read with, and `Decoder.token_offset` draws the conclusion for whole operators. -/

namespace WasmCompiler.Binary

namespace Cursor

/-- One cursor lies later than another in the same window: some bytes have been read between. -/
def Follows (earlier later : Cursor) : Prop :=
  ∃ read : List UInt8, earlier.rest = read ++ later.rest ∧
    later.position = earlier.position + read.length

/-- Nothing has been read between a cursor and itself. -/
theorem follows_refl (cursor : Cursor) : cursor.Follows cursor :=
  ⟨[], rfl, rfl⟩

/-- What is read in two stretches is read. -/
theorem Follows.trans {first second third : Cursor} (near : first.Follows second)
    (far : second.Follows third) : first.Follows third := by
  obtain ⟨nearRead, nearRest, nearPosition⟩ := near
  obtain ⟨farRead, farRest, farPosition⟩ := far
  refine ⟨nearRead ++ farRead, ?_, ?_⟩
  · rw [nearRest, farRest, List.append_assoc]
  · rw [farPosition, nearPosition, List.length_append, Nat.add_assoc]

/-- Skipping bytes reads them. -/
theorem follows_advance (cursor : Cursor) (count : Nat) :
    cursor.Follows (cursor.advance count) := by
  refine ⟨cursor.rest.take count, (List.take_append_drop count cursor.rest).symm, ?_⟩
  rw [List.length_take]
  rfl

/-- A later cursor has no smaller position. -/
theorem Follows.position_le {earlier later : Cursor} (follows : earlier.Follows later) :
    earlier.position ≤ later.position := by
  obtain ⟨read, -, position⟩ := follows
  omega

end Cursor

namespace Decoder

variable {α β : Type}

/-- A decoder that succeeds has moved forward in its window. -/
def Proceeds (decoder : Decoder α) : Prop :=
  ∀ cursor value later, decoder cursor = .ok value later → cursor.Follows later

/-! ## Ways of building decoders -/

/-- Giving a value moves nowhere. -/
@[simp] theorem proceeds_pure (value : α) : Proceeds (pure value) := by
  intro cursor result later equation
  cases equation
  exact cursor.follows_refl

/-- Failing moves nowhere. -/
@[simp] theorem proceeds_throw (error : Error) : Proceeds (throw error : Decoder α) := by
  intro cursor result later equation
  cases equation

/-- A sequence of two decoders that move forward moves forward. -/
@[simp] theorem proceeds_bind {decoder : Decoder α} {next : α → Decoder β}
    (first : Proceeds decoder) (second : ∀ value, Proceeds (next value)) :
    Proceeds (decoder >>= next) := by
  intro cursor result later equation
  obtain ⟨value, middle, firstEquation, secondEquation⟩ := Stateful.bind_eq_ok.mp equation
  exact (first _ _ _ firstEquation).trans (second _ _ _ _ secondEquation)

/-- A value that is changed has been read before. -/
@[simp] theorem proceeds_map {decoder : Decoder α} (change : α → β)
    (proceeds : Proceeds decoder) : Proceeds (change <$> decoder) := by
  rw [map_eq_pure_bind]
  exact proceeds_bind proceeds fun _ => proceeds_pure _

/-- Looking at the cursor moves nowhere. -/
@[simp] theorem proceeds_get : Proceeds (get : Decoder Cursor) := by
  intro cursor result later equation
  cases equation
  exact cursor.follows_refl

/-! ## Bytes and integers -/

/-- Nor does looking at the position. -/
@[simp] theorem proceeds_position : Proceeds position := by
  simp [position]

/-- Reading a byte moves forward. -/
@[simp] theorem proceeds_byte : Proceeds byte := by
  intro cursor result later equation
  unfold byte at equation
  split at equation
  · cases equation
  · next restEquation =>
      cases equation
      exact ⟨[result], restEquation, rfl⟩

/-- So does opening a window. -/
@[simp] theorem proceeds_window (count : Nat) : Proceeds (window count) := by
  intro cursor result later equation
  unfold window at equation
  simp only at equation
  split at equation
  · next full =>
      cases equation
      exact ⟨cursor.rest.take count, (List.take_append_drop count cursor.rest).symm, by rw [full]⟩
  · cases equation

/-- So does reading several bytes. -/
@[simp] theorem proceeds_bytes (count : Nat) : Proceeds (bytes count) := by
  simp [bytes]

/-- So does reading a constant of fixed width. -/
@[simp] theorem proceeds_fixedWidth (count : Nat) : Proceeds (fixedWidth count) := by
  intro cursor result later equation
  unfold fixedWidth at equation
  split at equation
  · next front after bytesEquation =>
      cases equation
      exact proceeds_bytes count _ _ _ bytesEquation
  · cases equation

/-- So does reading an integer of variable length. -/
@[simp] theorem proceeds_varint (bits : Nat) (read : List UInt8 → Varint.Reading α) :
    Proceeds (varint bits read) := by
  intro cursor result later equation
  unfold varint at equation
  simp only at equation
  split at equation
  · cases equation
    exact cursor.follows_advance _
  all_goals cases equation

/-- So does reading one without sign. -/
@[simp] theorem proceeds_unsigned (bits : Nat) : Proceeds (unsigned bits) :=
  proceeds_varint _ _

/-- So does reading one with sign. -/
@[simp] theorem proceeds_signed (bits : Nat) : Proceeds (signed bits) :=
  proceeds_varint _ _

/-- So does reading an index. -/
@[simp] theorem proceeds_unsigned32 : Proceeds unsigned32 := by
  simp [unsigned32]

/-- Repeating a decoder moves forward if it does. -/
@[simp] theorem proceeds_repeatOnto {item : Decoder α} (each : Proceeds item) (count : Nat)
    (read : List α) : Proceeds (repeatOnto item count read) := by
  induction count generalizing read with
  | zero => simp [repeatOnto]
  | succ count countInduction => simp [repeatOnto, each, countInduction]

/-- So does reading a vector of its items. -/
@[simp] theorem proceeds_vector {item : Decoder α} (each : Proceeds item) :
    Proceeds (vector item) := by
  simp [vector, each]

/-! ## Operators -/

/-- Reading a block type moves forward. -/
@[simp] theorem proceeds_blockType : Proceeds blockType := by
  unfold blockType
  refine proceeds_bind proceeds_position fun offset => proceeds_bind proceeds_byte fun byte => ?_
  split
  · simp
  · split <;> simp

/-- So does reading a reserved byte. -/
@[simp] theorem proceeds_reserved : Proceeds reserved := by
  unfold reserved
  refine proceeds_bind proceeds_position fun offset => proceeds_bind proceeds_byte fun byte => ?_
  split <;> simp

/-- So does reading a control operator. -/
theorem proceeds_controlOperator (offset : Nat) (opcode : UInt8) :
    Proceeds (controlOperator offset opcode) := by
  unfold controlOperator
  split <;> simp

/-- So does reading an access to a variable. -/
theorem proceeds_variableInstruction (offset : Nat) (opcode : UInt8) :
    Proceeds (variableInstruction offset opcode) := by
  unfold variableInstruction
  split <;> simp

/-- So does reading an access to memory. -/
theorem proceeds_memoryInstruction (offset : Nat) (opcode : UInt8) :
    Proceeds (memoryInstruction offset opcode) := by
  unfold memoryInstruction
  split
  · simp
  · simp
  · split <;> simp

/-- So does reading a constant. -/
theorem proceeds_constant {opcode : UInt8} {constant : Decoder Value}
    (equation : constant? opcode = some constant) : Proceeds constant := by
  unfold constant? at equation
  split at equation <;> cases equation <;> simp [word32, word64]

/-- So does reading a numeric instruction. -/
theorem proceeds_numericInstruction (offset : Nat) (opcode : UInt8) :
    Proceeds (numericInstruction offset opcode) := by
  unfold numericInstruction
  split
  · next constant equation => simp [proceeds_constant equation]
  · split <;> simp

/-- Reading the immediates of an operator moves forward. -/
theorem proceeds_operatorOf (offset : Nat) (opcode : UInt8) :
    Proceeds (operatorOf offset opcode) := by
  unfold operatorOf
  split <;> simp [proceeds_controlOperator, proceeds_variableInstruction,
    proceeds_memoryInstruction, proceeds_numericInstruction]

/-- A token stands where reading it starts, and reading it takes at least one byte. -/
theorem token_offset {cursor later : Cursor} {result : Token}
    (equation : token cursor = .ok result later) :
    result.offset = cursor.position ∧ cursor.position < later.position := by
  obtain ⟨offset, _, offsetEquation, rest⟩ := Stateful.bind_eq_ok.mp equation
  cases offsetEquation
  obtain ⟨opcode, middle, opcodeEquation, rest⟩ := Stateful.bind_eq_ok.mp rest
  obtain ⟨operator, last, operatorEquation, rest⟩ := Stateful.bind_eq_ok.mp rest
  cases rest
  refine ⟨rfl, ?_⟩
  have onward := (proceeds_operatorOf _ _ _ _ _ operatorEquation).position_le
  unfold byte at opcodeEquation
  split at opcodeEquation
  · cases opcodeEquation
  · cases opcodeEquation
    exact Nat.lt_of_succ_le onward

end Decoder

end WasmCompiler.Binary
