import WasmCompiler.Proofs.Shortest
import WasmCompiler.Proofs.Stateful
import WasmCompiler.Binary.Operator

/-! # Which bytes a decoder reads

What a decoder takes from its window and the value that it makes of it stand in a relation. Two
halves describe it, and both are built up along the decoder:

* **`Decoder.Reads`** — bytes at a position are read as a value, whatever follows them;
* **`Decoder.Admits`** — whatever is read has a form.

The forms of integers, of runs of items and of types come with the decoders that read them. -/

namespace WasmCompiler

namespace Varint

/-! ## Forms of integers -/

/-- Whether bytes spell an unsigned integer of a width: any numeral within the budget does. -/
structure SpellsUnsigned (bits : Nat) (bytes : List UInt8) (value : Nat) : Prop where
  /-- The bytes are one numeral. -/
  isNumeral : IsNumeral bytes
  /-- There are no more of them than the width needs. -/
  short : bytes.length ≤ maxBytes bits
  /-- The numeral is that of the integer. -/
  number_eq : number bytes = value
  /-- The integer fits the width. -/
  fits : value < 2 ^ bits

/-- Whether bytes spell a signed integer of a width: any numeral within the budget does. -/
structure SpellsSigned (bits : Nat) (bytes : List UInt8) (value : Int) : Prop where
  /-- The bytes are one numeral. -/
  isNumeral : IsNumeral bytes
  /-- There are no more of them than the width needs. -/
  short : bytes.length ≤ maxBytes bits
  /-- The numeral is that of the integer, in two's complement. -/
  number_eq : signedNumber bytes = value
  /-- The integer fits the width. -/
  fits : -2 ^ (bits - 1) ≤ value ∧ value < 2 ^ (bits - 1)

/-- Whether bytes spell an index, a count or a size. -/
def SpellsIndex (bytes : List UInt8) (index : UInt32) : Prop :=
  SpellsUnsigned 32 bytes index.toNat

/-- Integers of 32 bits are of a width that is read. -/
theorem isWidth_thirtyTwo : IsWidth 32 := by decide

/-- So are those of 64 bits. -/
theorem isWidth_sixtyFour : IsWidth 64 := by decide

end Varint

namespace Binary

namespace Decoder

open Stateful Varint

variable {α β : Type}

/-! ## Bytes that are read -/

/-- **Whether a decoder reads bytes as a value** at a position, whatever follows them. -/
def Reads (decoder : Decoder α) (position : Nat) (bytes : List UInt8) (value : α) : Prop :=
  ∀ rest, decoder ⟨position, bytes ++ rest⟩ = .ok value ⟨position + bytes.length, rest⟩

/-- Nothing is read as a value that is there already. -/
theorem reads_pure (position : Nat) (value : α) : Reads (pure value) position [] value :=
  fun _ => rfl

/-- What a sequence reads is what its parts read, one after the other. -/
theorem Reads.bind {first : Decoder α} {second : α → Decoder β} {position : Nat}
    {front back : List UInt8} {value : α} {result : β} (reads : Reads first position front value)
    (onward : Reads (second value) (position + front.length) back result) :
    Reads (first >>= second) position (front ++ back) result := by
  intro rest
  rw [List.append_assoc, bind_of_ok _ (reads (back ++ rest)), onward rest, List.length_append,
    Nat.add_assoc]

/-- What follows a decoder need not read anything. -/
theorem Reads.thenNothing {first : Decoder α} {second : α → Decoder β} {position : Nat}
    {bytes : List UInt8} {value : α} {result : β} (reads : Reads first position bytes value)
    (onward : Reads (second value) (position + bytes.length) [] result) :
    Reads (first >>= second) position bytes result := by
  have both := reads.bind onward
  rwa [List.append_nil] at both

/-- A change of the value changes nothing about the bytes. -/
theorem Reads.map {decoder : Decoder α} {position : Nat} {bytes : List UInt8} {value : α}
    (reads : Reads decoder position bytes value) (change : α → β) :
    Reads (do return change (← decoder)) position bytes (change value) :=
  reads.thenNothing (reads_pure _ _)

/-- A mapped decoder reads the same bytes. -/
theorem Reads.mapped {decoder : Decoder α} {position : Nat} {bytes : List UInt8} {value : α}
    (reads : Reads decoder position bytes value) (change : α → β) :
    Reads (change <$> decoder) position bytes (change value) := by
  rw [map_eq_pure_bind]
  exact reads.map change

/-- The position is known without reading. -/
theorem Reads.afterPosition {next : Nat → Decoder α} {position : Nat} {bytes : List UInt8}
    {value : α} (reads : Reads (next position) position bytes value) :
    Reads (Decoder.position >>= next) position bytes value := by
  intro rest
  rw [bind_of_ok _ (show Decoder.position _ = .ok position _ from rfl), reads rest]

/-- A check that does not fail reads nothing. -/
theorem Reads.refuse {condition : Prop} [Decidable condition] {error : Error}
    {onward : Unit → Decoder α} {position : Nat} {bytes : List UInt8} {value : α}
    (avoids : ¬condition) (reads : Reads (onward ()) position bytes value) :
    Reads (if condition then throw error >>= onward else onward ()) position bytes value := by
  rw [if_neg avoids]
  exact reads

/-! ## Forms of what is read -/

/-- **Whether whatever a decoder reads has a form.** -/
def Admits (decoder : Decoder α) (form : List UInt8 → α → Prop) : Prop :=
  ∀ cursor later value, decoder cursor = .ok value later →
    ∃ bytes, cursor.rest = bytes ++ later.rest ∧ later.position = cursor.position + bytes.length ∧
      form bytes value

variable {form : List UInt8 → α → Prop} {decoder : Decoder α}

/-- A value that is there already takes no bytes. -/
theorem admits_pure {value : α} (holds : form [] value) : Admits (pure value) form := by
  intro cursor later result equation
  cases equation
  exact ⟨[], rfl, rfl, holds⟩

/-- What always fails reads nothing of another form. -/
theorem admits_throw (error : Error) : Admits (throw error : Decoder α) form := by
  intro cursor later result equation
  cases equation

/-- What a sequence reads is what its parts read, one after the other. -/
theorem Admits.bind {kept : List UInt8 → β → Prop} {first : Decoder β} {second : β → Decoder α}
    (admits : Admits first kept)
    (onward : ∀ value front, kept front value →
      Admits (second value) fun back result => form (front ++ back) result) :
    Admits (first >>= second) form := by
  intro cursor later result equation
  obtain ⟨value, middle, firstEquation, secondEquation⟩ := bind_eq_ok.mp equation
  obtain ⟨front, firstRest, firstPosition, holds⟩ := admits cursor middle value firstEquation
  obtain ⟨back, secondRest, secondPosition, formed⟩ :=
    onward value front holds middle later result secondEquation
  refine ⟨front ++ back, ?_, ?_, formed⟩
  · rw [firstRest, secondRest, List.append_assoc]
  · rw [secondPosition, firstPosition, List.length_append, Nat.add_assoc]

/-- A weaker form also holds. -/
theorem Admits.imp {weaker : List UInt8 → α → Prop} (admits : Admits decoder form)
    (weaken : ∀ bytes value, form bytes value → weaker bytes value) : Admits decoder weaker := by
  intro cursor later value equation
  obtain ⟨bytes, rest, position, holds⟩ := admits cursor later value equation
  exact ⟨bytes, rest, position, weaken bytes value holds⟩

/-- A change of the value changes nothing about the bytes. -/
theorem Admits.map {kept : List UInt8 → β → Prop} {first : Decoder β} (admits : Admits first kept)
    (change : β → α) (holds : ∀ bytes value, kept bytes value → form bytes (change value)) :
    Admits (do return change (← first)) form := by
  refine admits.bind fun value front kept => admits_pure ?_
  rw [List.append_nil]
  exact holds front value kept

/-- A mapped decoder reads the same bytes. -/
theorem Admits.mapped {kept : List UInt8 → β → Prop} {first : Decoder β}
    (admits : Admits first kept) (change : β → α)
    (holds : ∀ bytes value, kept bytes value → form bytes (change value)) :
    Admits (change <$> first) form := by
  rw [map_eq_pure_bind]
  exact admits.map change holds

/-- A changed value may be changed again. -/
theorem Admits.mappedInto {γ : Type} {kept : List UInt8 → β → Prop} {first : Decoder β}
    (admits : Admits first kept) (change : β → γ) (build : γ → α)
    (holds : ∀ bytes value, kept bytes value → form bytes (build (change value))) :
    Admits (do return build (← change <$> first)) form := by
  have mapped : Admits (change <$> first) fun bytes value => form bytes (build value) :=
    admits.mapped change holds
  exact mapped.map build fun _ _ formed => formed

/-- The position is known without reading. -/
theorem Admits.afterPosition {next : Nat → Decoder α}
    (admits : ∀ position, Admits (next position) form) : Admits (position >>= next) form := by
  intro cursor later value equation
  obtain ⟨offset, middle, offsetEquation, equation⟩ := bind_eq_ok.mp equation
  cases offsetEquation
  exact admits _ _ _ _ equation

/-- A check lets the rest run or fails. -/
theorem Admits.check {condition : Prop} [Decidable condition] {error : Error}
    {onward : Unit → Decoder α} (admits : condition → Admits (onward ()) form) :
    Admits (if condition then onward () else throw error >>= onward) form := by
  by_cases holds : condition
  · rw [if_pos holds]
    exact admits holds
  · rw [if_neg holds]
    intro cursor later value equation
    cases equation

/-- A check lets the rest run unless it fails. -/
theorem Admits.refuse {condition : Prop} [Decidable condition] {error : Error}
    {onward : Unit → Decoder α} (admits : ¬condition → Admits (onward ()) form) :
    Admits (if condition then throw error >>= onward else onward ()) form := by
  rw [← ite_not]
  exact Admits.check admits

/-! ## Bytes -/

/-- A byte is read as itself. -/
theorem reads_byte (position : Nat) (first : UInt8) : Reads byte position [first] first :=
  fun _ => rfl

/-- What is read as a byte is this byte. -/
theorem admits_byte : Admits byte fun bytes first => bytes = [first] := by
  intro cursor later first equation
  unfold byte at equation
  split at equation
  · cases equation
  · next restEquation =>
      cases equation
      exact ⟨[first], restEquation, rfl, rfl⟩

/-- A window is read whole. -/
theorem reads_window (position : Nat) {count : Nat} {inside : List UInt8}
    (length : inside.length = count) :
    Reads (window count) position inside ⟨position, inside⟩ := by
  intro rest
  unfold window
  simp only [List.take_left' length, List.drop_left' length, length, if_true]

/-- A window that is read holds as many bytes as it should. -/
theorem admits_window (count : Nat) :
    Admits (window count) fun bytes inside => bytes.length = count ∧ inside.rest = bytes := by
  intro cursor later inside equation
  unfold window at equation
  simp only at equation
  split at equation
  · next full =>
      cases equation
      exact ⟨cursor.rest.take count, (List.take_append_drop count cursor.rest).symm, by rw [full],
        full, rfl⟩
  · cases equation

/-- A run of bytes is read as itself. -/
theorem reads_bytes (position : Nat) {count : Nat} {run : List UInt8}
    (length : run.length = count) : Reads (bytes count) position run run :=
  (reads_window position length).map _

/-- What is read as a run of bytes is this run. -/
theorem admits_bytes (count : Nat) :
    Admits (bytes count) fun bytes run => bytes.length = count ∧ run = bytes :=
  (admits_window count).map _ fun _ _ holds => holds

/-- A run of the right length is read as itself. -/
theorem reads_fixedWidth (position : Nat) {count : Nat} {run : List UInt8}
    (length : run.length = count) : Reads (fixedWidth count) position run run := by
  intro rest
  unfold fixedWidth
  rw [reads_bytes position length rest]

/-- What is read as one is this run. -/
theorem admits_fixedWidth (count : Nat) :
    Admits (fixedWidth count) fun bytes run => bytes.length = count ∧ run = bytes := by
  intro cursor later run equation
  unfold fixedWidth at equation
  split at equation
  · next front after bytesEquation =>
      cases equation
      exact admits_bytes count _ _ _ bytesEquation
  · cases equation

/-- Four bytes are read as the word that they are, least significant byte first. -/
theorem reads_word32 (position : Nat) {run : List UInt8} (length : run.length = 4) :
    Reads word32 position run (BitVec.ofNat 32 (LittleEndian.toNat run)) :=
  (reads_fixedWidth position length).map _

/-- What is read as a word of 32 bits is such four bytes. -/
theorem admits_word32 : Admits word32 fun bytes word =>
    bytes.length = 4 ∧ word = BitVec.ofNat 32 (LittleEndian.toNat bytes) := by
  refine (admits_fixedWidth 4).map _ fun bytes run holds => ⟨holds.1, ?_⟩
  rw [holds.2]

/-- Eight bytes are read as the word that they are. -/
theorem reads_word64 (position : Nat) {run : List UInt8} (length : run.length = 8) :
    Reads word64 position run (BitVec.ofNat 64 (LittleEndian.toNat run)) :=
  (reads_fixedWidth position length).map _

/-- What is read as a word of 64 bits is such eight bytes. -/
theorem admits_word64 : Admits word64 fun bytes word =>
    bytes.length = 8 ∧ word = BitVec.ofNat 64 (LittleEndian.toNat bytes) := by
  refine (admits_fixedWidth 8).map _ fun bytes run holds => ⟨holds.1, ?_⟩
  rw [holds.2]

/-! ## Integers -/

/-- What is read of the front of any input is taken from a window. -/
theorem reads_varint {bits : Nat} {read : List UInt8 → Reading α} {bytes : List UInt8} {value : α}
    (position : Nat) (whole : ∀ rest, read (bytes ++ rest) = ⟨bytes.length, .ok value⟩) :
    Reads (varint bits read) position bytes value := by
  intro rest
  simp [varint, whole, Cursor.advance, Cursor.remaining]

/-- What is taken from a window is read of its front. -/
theorem admits_varint {bits : Nat} {read : List UInt8 → Reading α}
    (front : ∀ input value, (read input).result = .ok value → ∃ bytes rest, input = bytes ++ rest ∧
      (read input).consumed = bytes.length ∧ form bytes value) :
    Admits (varint bits read) form := by
  intro cursor later value equation
  unfold varint at equation
  simp only at equation
  split at equation
  · next result =>
      cases equation
      obtain ⟨bytes, rest, input, consumed, holds⟩ := front _ _ result
      refine ⟨bytes, ?_, ?_, holds⟩
      · rw [Cursor.advance, consumed, input, List.drop_left]
      · rw [Cursor.advance, Cursor.remaining, consumed, input, List.length_append,
          Nat.min_eq_left (Nat.le_add_right _ _)]
  all_goals cases equation

/-- A number is read from bytes that spell it without sign. -/
theorem reads_unsigned {bits value : Nat} {bytes : List UInt8} (width : IsWidth bits)
    (position : Nat) (spells : SpellsUnsigned bits bytes value) :
    Reads (unsigned bits) position bytes value := by
  refine reads_varint position fun rest => ?_
  have fits := spells.fits
  rw [readUnsigned_numeral width spells.isNumeral spells.short rest, spells.number_eq, if_pos fits]

/-- What is read without sign is spelled so. -/
theorem admits_unsigned (bits : Nat) : Admits (unsigned bits) (SpellsUnsigned bits) := by
  refine admits_varint fun input value read => ?_
  obtain ⟨numeral, rest, rfl, isNumeral, width, short, spelled, fits⟩ :=
    exists_numeral_of_readUnsigned read
  refine ⟨numeral, rest, rfl, ?_, isNumeral, short, spelled, fits⟩
  rw [readUnsigned_numeral width isNumeral short rest]

/-- A number is read from bytes that spell it with sign. -/
theorem reads_signed {bits : Nat} {value : Int} {bytes : List UInt8} (width : IsWidth bits)
    (position : Nat) (spells : SpellsSigned bits bytes value) :
    Reads (signed bits) position bytes value := by
  refine reads_varint position fun rest => ?_
  have fits := spells.fits
  rw [readSigned_numeral width spells.isNumeral spells.short rest, spells.number_eq, if_pos fits]

/-- What is read with sign is spelled so. -/
theorem admits_signed (bits : Nat) : Admits (signed bits) (SpellsSigned bits) := by
  refine admits_varint fun input value read => ?_
  obtain ⟨numeral, rest, rfl, isNumeral, width, short, spelled, fits⟩ :=
    exists_numeral_of_readSigned read
  refine ⟨numeral, rest, rfl, ?_, isNumeral, short, spelled, fits⟩
  rw [readSigned_numeral width isNumeral short rest]

/-- An index is read from bytes that spell it. -/
theorem reads_unsigned32 (position : Nat) {bytes : List UInt8} {value : UInt32}
    (spells : SpellsIndex bytes value) : Reads unsigned32 position bytes value := by
  have reads := (reads_unsigned isWidth_thirtyTwo position spells).map Nat.toUInt32
  rwa [show value.toNat.toUInt32 = value from UInt32.ofNat_toNat] at reads

/-- What is read as an index is spelled so. -/
theorem admits_unsigned32 : Admits unsigned32 SpellsIndex := by
  refine (admits_unsigned 32).map _ fun bytes value spells => ?_
  have whole : value.toUInt32.toNat = value := UInt32.toNat_ofNat_of_lt spells.fits
  rw [SpellsIndex, whole]
  exact spells

/-- What is read as a number of seven bits is a byte below 128. -/
theorem admits_unsigned7 :
    Admits unsigned7 fun bytes value => bytes = [value] ∧ value.toNat < 128 := by
  refine (admits_unsigned 7).map _ fun bytes value spells => ?_
  -- The budget of 7 bits is a single byte, which stands for itself.
  cases spells.isNumeral with
  | last byte clear =>
      have low : byte.toNat < 128 := by simpa [testBit_seven] using clear
      have same : byte.toNat = value := by
        rw [← spells.number_eq, number_cons, number_nil, Nat.mod_eq_of_lt low]
        rfl
      rw [← same, Nat.toUInt8_eq, UInt8.ofNat_toNat]
      exact ⟨rfl, low⟩
  | more byte set later =>
      have short : (byte :: _).length ≤ 1 := spells.short
      cases later <;> exact absurd short (by simp)

/-! ## Runs of items -/

/-- Whether a decoder reads bytes as a run of items, one after the other. -/
inductive ReadsEach (item : Decoder α) : (position : Nat) → List UInt8 → List α → Prop
  /-- No items are left. -/
  | nil {position : Nat} : ReadsEach item position [] []
  /-- An item and those after it. -/
  | cons {position : Nat} {front back : List UInt8} {value : α} {values : List α}
      (reads : Reads item position front value)
      (later : ReadsEach item (position + front.length) back values) :
      ReadsEach item position (front ++ back) (value :: values)

/-- Bytes as a run of items of one form. -/
inductive Items (form : List UInt8 → α → Prop) : List UInt8 → List α → Prop
  /-- No items are left. -/
  | nil : Items form [] []
  /-- An item and those after it. -/
  | cons {front back : List UInt8} {value : α} {values : List α} (holds : form front value)
      (later : Items form back values) : Items form (front ++ back) (value :: values)

/-- Items of a form that is read are read. -/
theorem Items.readsEach {item : Decoder α} {bytes : List UInt8} {values : List α}
    (items : Items form bytes values)
    (each : ∀ position front value, form front value → Reads item position front value)
    (position : Nat) : ReadsEach item position bytes values := by
  induction items generalizing position with
  | nil => exact .nil
  | cons holds later laterInduction => exact .cons (each _ _ _ holds) (laterInduction _)

/-- Repetition reads items, one after the other. -/
theorem reads_repeatOnto {item : Decoder α} {position count : Nat} {bytes : List UInt8}
    {values : List α} (each : ReadsEach item position bytes values)
    (length : values.length = count) (read : List α) :
    Reads (repeatOnto item count read) position bytes (read.reverse ++ values) := by
  subst length
  induction each generalizing read with
  | nil =>
      rw [List.append_nil]
      exact reads_pure _ _
  | cons reads later laterInduction =>
      next value values =>
        have onward := laterInduction (value :: read)
        rw [List.reverse_cons, List.append_assoc] at onward
        exact reads.bind onward

/-- What repetition reads is a run of items. -/
theorem admits_repeatOnto (admits : Admits decoder form) (count : Nat) (read : List α) :
    Admits (repeatOnto decoder count read) fun bytes result =>
      ∃ values, result = read.reverse ++ values ∧ values.length = count ∧
        Items form bytes values := by
  induction count generalizing read with
  | zero => exact admits_pure ⟨[], (List.append_nil _).symm, rfl, .nil⟩
  | succ count countInduction =>
      refine admits.bind fun value front holds => (countInduction (value :: read)).imp ?_
      rintro back result ⟨values, rfl, length, items⟩
      refine ⟨value :: values, ?_, congrArg Nat.succ length, .cons holds items⟩
      rw [List.reverse_cons, List.append_assoc]
      rfl

/-- Bytes as a number of items and then the items. -/
def IsVector (form : List UInt8 → α → Prop) (bytes : List UInt8) (values : List α) : Prop :=
  ∃ front back, bytes = front ++ back ∧ SpellsUnsigned 32 front values.length ∧
    Items form back values

/-- The number of items, as an index. -/
theorem spellsIndex_of_count {front : List UInt8} {count : Nat}
    (spells : SpellsUnsigned 32 front count) :
    SpellsIndex front count.toUInt32 ∧ count.toUInt32.toNat = count := by
  have whole : count.toUInt32.toNat = count := UInt32.toNat_ofNat_of_lt spells.fits
  refine ⟨?_, whole⟩
  rw [SpellsIndex, whole]
  exact spells

/-- A vector is a count and as many items. -/
theorem reads_vector {item : Decoder α} {position : Nat} {front back : List UInt8}
    {values : List α} (count : SpellsUnsigned 32 front values.length)
    (each : ReadsEach item (position + front.length) back values) :
    Reads (vector item) position (front ++ back) values := by
  obtain ⟨index, whole⟩ := spellsIndex_of_count count
  exact (reads_unsigned32 position index).bind (reads_repeatOnto each whole.symm [])

/-- **Bytes of a vector are read as it** if its items are. -/
theorem reads_vector_of_isVector {item : Decoder α} {bytes : List UInt8} {values : List α}
    (isVector : IsVector form bytes values)
    (each : ∀ position front value, form front value → Reads item position front value)
    (position : Nat) : Reads (vector item) position bytes values := by
  obtain ⟨front, back, rfl, count, items⟩ := isVector
  exact reads_vector count (items.readsEach each _)

/-- **What is read as a vector is one.** -/
theorem admits_vector (admits : Admits decoder form) : Admits (vector decoder) (IsVector form) := by
  refine admits_unsigned32.bind fun count front spells => ?_
  refine (admits_repeatOnto admits count.toNat []).imp ?_
  rintro back values ⟨_, rfl, length, items⟩
  refine ⟨front, back, rfl, ?_, items⟩
  rw [length]
  exact spells

/-! ## Types -/

/-- A byte stands for the type that it is the byte of. -/
theorem ofByte?_eq_some_iff {byte : UInt8} {type : ValueType} :
    ValueType.ofByte? byte = some type ↔ byte = type.toByte := by
  constructor
  · intro equation
    unfold ValueType.ofByte? at equation
    split at equation
    · next first => cases equation; exact first
    split at equation
    · next second => cases equation; exact second
    split at equation
    · next third => cases equation; exact third
    split at equation
    · next fourth => cases equation; exact fourth
    cases equation
  · rintro rfl
    exact ValueType.ofByte?_toByte type

/-- The byte of a value type is read as the type. -/
theorem reads_valueType (position : Nat) (type : ValueType) :
    Reads valueType position [type.toByte] type := by
  intro rest
  cases type <;> rfl

/-- What is read as a value type is its byte. -/
theorem admits_valueType : Admits valueType fun bytes type => bytes = [type.toByte] := by
  refine .afterPosition fun offset => admits_byte.bind ?_
  rintro byte _ rfl
  split
  · next type equation =>
      refine admits_pure ?_
      rw [ofByte?_eq_some_iff.mp equation]
      rfl
  · exact admits_throw _

/-- The byte of a block type. -/
def blockTypeByte : BlockType → UInt8
  | none => emptyBlockByte
  | some type => type.toByte

/-- The byte of a block type is read as the type. -/
theorem reads_blockType (position : Nat) (type : BlockType) :
    Reads blockType position [blockTypeByte type] type := by
  intro rest
  rcases type with _ | type
  · rfl
  · cases type <;> rfl

/-- What is read as a block type is its byte. -/
theorem admits_blockType : Admits blockType fun bytes type => bytes = [blockTypeByte type] := by
  refine .afterPosition fun offset => admits_byte.bind ?_
  rintro byte _ rfl
  split
  · next empty =>
      refine admits_pure ?_
      rw [empty]
      rfl
  · split
    · next type equation =>
        refine admits_pure ?_
        rw [ofByte?_eq_some_iff.mp equation]
        rfl
    · exact admits_throw _

/-- The byte zero is read where it is reserved. -/
theorem reads_reserved (position : Nat) : Reads reserved position [0] () :=
  fun _ => rfl

/-- What is read there is the byte zero. -/
theorem admits_reserved : Admits reserved fun bytes _ => bytes = [0] := by
  refine .afterPosition fun offset => admits_byte.bind ?_
  rintro byte _ rfl
  split
  · next zero =>
      refine admits_pure ?_
      rw [zero]
      rfl
  · exact admits_throw _

end Decoder

end Binary

end WasmCompiler
