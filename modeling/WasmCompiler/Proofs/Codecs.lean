import WasmCompiler.Proofs.Encoding

/-! # Encoding and decoding the parts of a module

What is encoded is decoded again, and nothing that is decoded is shorter than its encoding.

* **`Codec`** — both halves for one kind of part;
* **`Codec.vector`** — they carry over to runs of parts;
* `codec_signature`, `codec_initializer`, `codec_dataSegment` and the others — the parts themselves;
* **`spellsOperator_encodeOperator`**, **`SpellsOperator.least`** — the same of operators, whose
  place in a body decides how they are read. -/

namespace WasmCompiler

/-- The low bytes of a number spell its remainder. -/
theorem LittleEndian.toNat_ofNat (count value : Nat) :
    toNat (ofNat count value) = value % 256 ^ count := by
  induction count generalizing value with
  | zero => exact (Nat.mod_one value).symm
  | succ count countInduction =>
      rw [ofNat, toNat, countInduction, Nat.toUInt8_eq, UInt8.toNat_ofNat']
      show value % 256 + 256 * (value / 256 % 256 ^ count) = value % 256 ^ (count + 1)
      rw [Nat.pow_succ, Nat.mul_comm (256 ^ count) 256, Nat.mod_mul]

namespace Binary

open Decoder Varint

variable {α β : Type}

/-- **Whether parts are decoded as they are encoded.** -/
structure Codec (decoder : Decoder α) (encode : α → List UInt8) (valid : α → Prop) : Prop where
  /-- What is encoded is decoded. -/
  reads : ∀ value, valid value → ∀ position, Reads decoder position (encode value) value
  /-- What is decoded can be encoded, in no more bytes. -/
  admits : Admits decoder fun bytes value =>
    valid value ∧ (encode value).length ≤ bytes.length

/-! ## Integers -/

/-- The shortest form spells an unsigned integer at every width that it fits. -/
theorem spellsUnsigned_unsignedForm {bits value : Nat} (width : IsWidth bits)
    (fits : value < 2 ^ bits) : SpellsUnsigned bits (unsignedForm value) value :=
  ⟨isNumeral_unsignedForm value, length_unsignedForm_le_maxBytes width fits,
    number_unsignedForm value, fits⟩

/-- The shortest form spells a signed integer at every width that it fits. -/
theorem spellsSigned_signedForm {bits : Nat} {value : Int} (width : IsWidth bits)
    (fits : -2 ^ (bits - 1) ≤ value ∧ value < 2 ^ (bits - 1)) :
    SpellsSigned bits (signedForm value) value :=
  ⟨isNumeral_signedForm value, length_signedForm_le_maxBytes width fits.1 fits.2,
    signedNumber_signedForm value, fits⟩

/-- An index is spelled by its shortest form. -/
theorem spellsIndex_encodeIndex (index : UInt32) : SpellsIndex (encodeIndex index) index :=
  spellsUnsigned_unsignedForm isWidth_thirtyTwo index.toNat_lt

/-- A count in its shortest form. -/
theorem spellsUnsigned_count {count : Nat} (isCount : IsCount count) :
    SpellsUnsigned 32 (unsignedForm count) count :=
  spellsUnsigned_unsignedForm isWidth_thirtyTwo isCount

/-- A count in its shortest form, as an index. -/
theorem spellsIndex_count {count : Nat} (isCount : IsCount count) :
    SpellsIndex (unsignedForm count) count.toUInt32 ∧ count.toUInt32.toNat = count :=
  spellsIndex_of_count (spellsUnsigned_count isCount)

/-- No spelling of an integer is shorter than the written one. -/
theorem least_unsignedForm {bits value : Nat} {bytes : List UInt8}
    (spells : SpellsUnsigned bits bytes value) : (unsignedForm value).length ≤ bytes.length := by
  rw [← spells.number_eq]
  exact length_unsignedForm_le spells.isNumeral

/-- No spelling of a signed integer is shorter than the written one. -/
theorem least_signedForm {bits : Nat} {value : Int} {bytes : List UInt8}
    (spells : SpellsSigned bits bytes value) : (signedForm value).length ≤ bytes.length := by
  rw [← spells.number_eq]
  exact length_signedForm_le spells.isNumeral

/-- **Indices** are written in their shortest form. -/
theorem codec_index : Codec unsigned32 encodeIndex fun _ => True where
  reads index _ position := reads_unsigned32 position (spellsIndex_encodeIndex index)
  admits := admits_unsigned32.imp fun _ _ spells => ⟨trivial, least_unsignedForm spells⟩

/-- **Flags** are written as zero or one. -/
theorem codec_flag : Codec flag encodeFlag fun _ => True where
  reads set _ position := by
    have fits : set.toNat < 2 ^ 1 := set.toNat_lt
    have reads := (reads_unsigned (by decide) position
      (spellsUnsigned_unsignedForm (by decide) fits)).map (· == 1)
    cases set <;> exact reads
  admits := by
    refine (admits_unsigned 1).map (· == 1) fun bytes value spells => ⟨trivial, ?_⟩
    have least := least_unsignedForm spells
    obtain rfl | rfl : value = 0 ∨ value = 1 := by
      have fits := spells.fits
      omega
    · exact least
    · exact least

/-! ## Sized bytes and vectors -/

/-- What is shorter part by part is shorter. -/
theorem length_append_le {first second front back : List α} (one : first.length ≤ front.length)
    (other : second.length ≤ back.length) : (first ++ second).length ≤ (front ++ back).length := by
  rw [List.length_append, List.length_append]
  exact Nat.add_le_add one other

/-- Bytes after any spelling of their number are not fewer than after the written one. -/
theorem least_sized {front run : List UInt8} {size : UInt32} (spells : SpellsIndex front size)
    (length : run.length = size.toNat) :
    IsCount run.length ∧ (encodeSized run).length ≤ (front ++ run).length := by
  have least := least_unsignedForm spells
  rw [← length] at least
  refine ⟨?_, ?_⟩
  · rw [IsCount, length]
    exact spells.fits
  · exact length_append_le least (Nat.le_refl run.length)

/-- Encodings in a row are items of the form of each. -/
theorem items_flatMap {form : List UInt8 → α → Prop} {encode : α → List UInt8} {values : List α}
    (each : ∀ value ∈ values, form (encode value) value) :
    Items form (values.flatMap encode) values := by
  induction values with
  | nil => exact .nil
  | cons value values valuesInduction =>
      obtain ⟨holds, others⟩ := List.forall_mem_cons.mp each
      exact .cons holds (valuesInduction others)

/-- Items are decoded one after the other. -/
theorem readsEach_flatMap {item : Decoder α} {encode : α → List UInt8} {valid : α → Prop}
    (codec : Codec item encode valid) {values : List α} (each : ∀ value ∈ values, valid value)
    (position : Nat) : ReadsEach item position (values.flatMap encode) values := by
  have items : Items (fun bytes value => ∀ place, Reads item place bytes value)
      (values.flatMap encode) values :=
    items_flatMap fun value member place => codec.reads value (each value member) place
  exact items.readsEach (fun place _ _ reads => reads place) position

/-- Items are not shorter than they are encoded if no single one is. -/
theorem least_items {form : List UInt8 → α → Prop} {encode : α → List UInt8} {valid : α → Prop}
    (each : ∀ bytes value, form bytes value →
      valid value ∧ (encode value).length ≤ bytes.length)
    {bytes : List UInt8} {values : List α} (items : Items form bytes values) :
    (∀ value ∈ values, valid value) ∧ (values.flatMap encode).length ≤ bytes.length := by
  induction items with
  | nil => exact ⟨List.forall_mem_nil _, Nat.le_refl 0⟩
  | cons holds later laterInduction =>
      obtain ⟨others, short⟩ := laterInduction
      obtain ⟨first, least⟩ := each _ _ holds
      exact ⟨List.forall_mem_cons.mpr ⟨first, others⟩, length_append_le least short⟩

/-- A vector is not shorter than it is encoded if no item is. -/
theorem least_vector {form : List UInt8 → α → Prop} {encode : α → List UInt8} {valid : α → Prop}
    (each : ∀ bytes value, form bytes value →
      valid value ∧ (encode value).length ≤ bytes.length)
    {bytes : List UInt8} {values : List α} (vector : IsVector form bytes values) :
    (IsCount values.length ∧ ∀ value ∈ values, valid value) ∧
      (encodeVector encode values).length ≤ bytes.length := by
  obtain ⟨front, back, rfl, count, items⟩ := vector
  obtain ⟨all, short⟩ := least_items each items
  exact ⟨⟨count.fits, all⟩, length_append_le (least_unsignedForm count) short⟩

/-- **Vectors are decoded as they are encoded** if their items are. -/
theorem Codec.vector {item : Decoder α} {encode : α → List UInt8} {valid : α → Prop}
    (codec : Codec item encode valid) :
    Codec (Decoder.vector item) (encodeVector encode) fun values =>
      IsCount values.length ∧ ∀ value ∈ values, valid value where
  reads _ holds _ :=
    reads_vector (spellsUnsigned_count holds.1) (readsEach_flatMap codec holds.2 _)
  admits := (admits_vector codec.admits).imp fun _ _ => least_vector fun _ _ holds => holds

/-- Parts are decoded in a row as they are encoded, if they are the fields of what is built. -/
theorem Codec.both {γ : Type} {first : Decoder α} {second : Decoder β}
    {encodeFirst : α → List UInt8} {encodeSecond : β → List UInt8} {validFirst : α → Prop}
    {validSecond : β → Prop} (firstCodec : Codec first encodeFirst validFirst)
    (secondCodec : Codec second encodeSecond validSecond) (build : α → β → γ) (left : γ → α)
    (right : γ → β) (whole : ∀ result, build (left result) (right result) = result)
    (leftOf : ∀ one other, left (build one other) = one)
    (rightOf : ∀ one other, right (build one other) = other) :
    Codec (do
      let one ← first
      return build one (← second))
      (fun result => encodeFirst (left result) ++ encodeSecond (right result))
      (fun result => validFirst (left result) ∧ validSecond (right result)) where
  reads result valid position := by
    have onward := (secondCodec.reads _ valid.2 (position + (encodeFirst (left result)).length)).map
      (build (left result))
    rw [whole] at onward
    exact (firstCodec.reads _ valid.1 position).bind onward
  admits := by
    refine firstCodec.admits.bind fun one front holds => ?_
    refine secondCodec.admits.map _ fun back other also => ?_
    rw [leftOf, rightOf]
    exact ⟨⟨holds.1, also.1⟩, length_append_le holds.2 also.2⟩

/-- The same parts may be told apart in another way. -/
theorem Codec.congr {decoder : Decoder α} {encode : α → List UInt8} {valid other : α → Prop}
    (codec : Codec decoder encode valid) (same : ∀ value, valid value ↔ other value) :
    Codec decoder encode other where
  reads value holds := codec.reads value ((same value).mpr holds)
  admits := codec.admits.imp fun _ value holds => ⟨(same value).mp holds.1, holds.2⟩

/-! ## Names -/

/-- The bytes of a name are those that it is decoded from. -/
theorem toUTF8_of_fromUTF8? {run : List UInt8} {text : String}
    (found : String.fromUTF8? ⟨run.toArray⟩ = some text) : text.toUTF8.data.toList = run := by
  unfold String.fromUTF8? at found
  split at found
  · cases found
    rfl
  · cases found

/-- **Names** are written as UTF-8 behind their length. -/
theorem codec_name : Codec name encodeName IsName where
  reads text holds position := by
    obtain ⟨index, whole⟩ := spellsIndex_count holds
    have found : String.fromUTF8? ⟨text.toUTF8.data.toList.toArray⟩ = some text := by
      rw [Array.toArray_toList]
      exact dif_pos text.isValidUTF8
    refine (reads_unsigned32 position index).bind (.afterPosition ?_)
    refine (reads_bytes _ whole.symm).thenNothing ?_
    rw [found]
    exact reads_pure _ _
  admits := by
    refine admits_unsigned32.bind fun count front spells => .afterPosition fun offset => ?_
    refine (admits_bytes count.toNat).bind ?_
    rintro _ back ⟨length, rfl⟩
    split
    · next text found =>
        have run := toUTF8_of_fromUTF8? found
        have least := least_sized spells length
        refine admits_pure ?_
        rw [List.append_nil, ← run]
        rw [← run] at least
        exact least
    · exact admits_throw _

/-! ## Operators -/

/-- Every constant is spelled as it is encoded. -/
theorem spellsPlain_encodeConstant (value : Value) :
    SpellsPlain (encodeConstant value) (.const value) := by
  cases value with
  | i32 bits =>
      have spells := SpellsPlain.i32
        (spellsSigned_signedForm isWidth_thirtyTwo ⟨bits.le_toInt, BitVec.toInt_lt⟩)
      rwa [BitVec.ofInt_toInt] at spells
  | i64 bits =>
      have spells := SpellsPlain.i64
        (spellsSigned_signedForm isWidth_sixtyFour ⟨bits.le_toInt, BitVec.toInt_lt⟩)
      rwa [BitVec.ofInt_toInt] at spells
  | f32 bits =>
      have spells := SpellsPlain.f32 (LittleEndian.length_ofNat 4 bits.toNat)
      have whole : bits.toNat % 256 ^ 4 = bits.toNat := Nat.mod_eq_of_lt bits.isLt
      rwa [LittleEndian.toNat_ofNat, whole, BitVec.ofNat_toNat, BitVec.setWidth_eq] at spells
  | f64 bits =>
      have spells := SpellsPlain.f64 (LittleEndian.length_ofNat 8 bits.toNat)
      have whole : bits.toNat % 256 ^ 8 = bits.toNat := Nat.mod_eq_of_lt bits.isLt
      rwa [LittleEndian.toNat_ofNat, whole, BitVec.ofNat_toNat, BitVec.setWidth_eq] at spells

/-- Every instruction is spelled as it is encoded. -/
theorem spellsPlain_encodePlain (instruction : PlainInstruction) :
    SpellsPlain (encodePlain instruction) instruction := by
  cases instruction with
  | unreachable => exact .unreachable
  | nop => exact .nop
  | ret => exact .ret
  | call function => exact .call (spellsIndex_encodeIndex function)
  | callIndirect typeIndex => exact .callIndirect (spellsIndex_encodeIndex typeIndex)
  | drop => exact .drop
  | select => exact .select
  | getLocal index => exact .getLocal (spellsIndex_encodeIndex index)
  | setLocal index => exact .setLocal (spellsIndex_encodeIndex index)
  | teeLocal index => exact .teeLocal (spellsIndex_encodeIndex index)
  | getGlobal index => exact .getGlobal (spellsIndex_encodeIndex index)
  | setGlobal index => exact .setGlobal (spellsIndex_encodeIndex index)
  | access accessor alignment offset =>
      exact .access accessor (spellsIndex_encodeIndex alignment) (spellsIndex_encodeIndex offset)
  | currentMemory => exact .currentMemory
  | growMemory => exact .growMemory
  | const value => exact spellsPlain_encodeConstant value
  | numeric op => exact .numeric op

/-- No spelling of an instruction is shorter than its encoding. -/
theorem SpellsPlain.least {bytes : List UInt8} {instruction : PlainInstruction}
    (spells : SpellsPlain bytes instruction) :
    (encodePlain instruction).length ≤ bytes.length := by
  cases spells with
  | unreachable | nop | ret | drop | select | currentMemory | growMemory | numeric op =>
      exact Nat.le_refl _
  | call index | getLocal index | setLocal index | teeLocal index | getGlobal index
  | setGlobal index => exact Nat.succ_le_succ (least_unsignedForm index)
  | callIndirect index =>
      exact Nat.succ_le_succ (length_append_le (least_unsignedForm index) (Nat.le_refl 1))
  | access accessor first second =>
      exact Nat.succ_le_succ
        (length_append_le (least_unsignedForm first) (least_unsignedForm second))
  | i32 integer =>
      have fits := integer.fits
      have same := BitVec.toInt_ofInt_eq_self (by decide) fits.1 fits.2
      simp only [encodePlain, encodeConstant, same]
      exact Nat.succ_le_succ (least_signedForm integer)
  | i64 integer =>
      have fits := integer.fits
      have same := BitVec.toInt_ofInt_eq_self (by decide) fits.1 fits.2
      simp only [encodePlain, encodeConstant, same]
      exact Nat.succ_le_succ (least_signedForm integer)
  | f32 length =>
      simp only [encodePlain, encodeConstant, List.length_cons, LittleEndian.length_ofNat, length]
      exact Nat.le_refl _
  | f64 length =>
      simp only [encodePlain, encodeConstant, List.length_cons, LittleEndian.length_ofNat, length]
      exact Nat.le_refl _

/-- **An operator is spelled as it is encoded** if its levels can be counted. -/
theorem spellsOperator_encodeOperator {operator : Operator} (counts : HasCounts operator) :
    SpellsOperator (encodeOperator operator) operator := by
  cases operator with
  | plain instruction => exact .plain (spellsPlain_encodePlain instruction)
  | block type => exact .block type
  | loop type => exact .loop type
  | ifThen type => exact .ifThen type
  | otherwise => exact .otherwise
  | finish => exact .finish
  | branch depth => exact .branch (spellsIndex_encodeIndex depth)
  | branchIf depth => exact .branchIf (spellsIndex_encodeIndex depth)
  | branchTable depths fallback =>
      refine .branchTable ⟨_, _, rfl, spellsUnsigned_count counts, ?_⟩
        (spellsIndex_encodeIndex fallback)
      exact items_flatMap fun depth _ => spellsIndex_encodeIndex depth

/-- **No spelling of an operator is shorter than its encoding**, and its levels can be counted. -/
theorem SpellsOperator.least {bytes : List UInt8} {operator : Operator}
    (spells : SpellsOperator bytes operator) :
    HasCounts operator ∧ (encodeOperator operator).length ≤ bytes.length := by
  cases spells with
  | plain spells => exact ⟨trivial, spells.least⟩
  | block type | loop type | ifThen type | otherwise | finish => exact ⟨trivial, Nat.le_refl _⟩
  | branch index | branchIf index =>
      exact ⟨trivial, Nat.succ_le_succ (least_unsignedForm index)⟩
  | branchTable vector index =>
      have each (bytes : List UInt8) (depth : UInt32) (spells : SpellsIndex bytes depth) :=
        And.intro trivial (least_unsignedForm spells)
      obtain ⟨⟨counts, -⟩, least⟩ := least_vector each vector
      have also := least_unsignedForm index
      exact ⟨counts, Nat.succ_le_succ (length_append_le least also)⟩

/-! ## Types -/

/-- **Value types** are written as one byte. -/
theorem codec_valueType : Codec valueType encodeValueType fun _ => True where
  reads type _ position := reads_valueType position type
  admits := admits_valueType.imp fun _ _ spelled => ⟨trivial, (congrArg List.length spelled).ge⟩

/-- **Signatures** are written as their form, their parameters and their results. -/
theorem codec_signature : Codec signature encodeSignature EncodableSignature where
  reads signature valid position := by
    have few := valid.results
    have results : IsCount signature.results.length := few.trans_lt (by decide)
    obtain ⟨index, whole⟩ := spellsIndex_count results
    have single : ¬1 < signature.results.length.toUInt32 := by
      rw [UInt32.lt_iff_toNat_lt, whole]
      exact Nat.not_lt.mpr few
    have params := codec_valueType.vector.reads signature.params ⟨valid.params, fun _ _ => trivial⟩
    refine .afterPosition ((reads_byte position signatureForm).bind ?_)
    rw [if_pos rfl]
    refine (params _).bind (.afterPosition ((reads_unsigned32 _ index).bind (.refuse single ?_)))
    exact (reads_repeatOnto (readsEach_flatMap codec_valueType (fun _ _ => trivial) _) whole.symm
      []).map _
  admits := by
    refine .afterPosition fun offset => admits_byte.bind ?_
    rintro form _ rfl
    refine .check fun isForm => codec_valueType.vector.admits.bind fun params front holds => ?_
    refine .afterPosition fun resultsOffset => admits_unsigned32.bind fun count middle spells => ?_
    refine .refuse fun few => (admits_repeatOnto codec_valueType.admits count.toNat []).map _ ?_
    rintro back _ ⟨results, rfl, length, items⟩
    have least := least_unsignedForm spells
    have short := (least_items (fun _ _ holds => holds) items).2
    rw [UInt32.lt_iff_toNat_lt, ← length] at few
    rw [← length] at least
    rw [List.singleton_append]
    exact ⟨⟨holds.1.1, Nat.le_of_not_lt few⟩,
      Nat.succ_le_succ (length_append_le holds.2 (length_append_le least short))⟩

/-- **Limits** are written behind a flag for the maximum. -/
theorem codec_limits : Codec limits encodeLimits fun _ => True where
  reads limits _ position := by
    obtain ⟨initial, maximum⟩ := limits
    refine (codec_flag.reads _ trivial position).bind
      ((codec_index.reads initial trivial _).bind ?_)
    -- The flag that was read first says whether a maximum follows.
    cases maximum with
    | none => exact reads_pure _ _
    | some maximum =>
        show Reads _ _ (encodeIndex maximum ++ []) _
        rw [List.append_nil]
        exact (codec_index.reads maximum trivial _).map fun maximum =>
          (⟨initial, some maximum⟩ : Limits)
  admits := by
    refine codec_flag.admits.bind fun bounded front holds => ?_
    refine codec_index.admits.bind fun initial middle also => ?_
    split
    · next isBounded =>
        refine codec_index.admits.map _ fun back maximum third => ⟨trivial, ?_⟩
        have first := holds.2
        rw [isBounded] at first
        rw [encodeLimits, Option.toList_some, List.flatMap_singleton]
        exact length_append_le first (length_append_le also.2 third.2)
    · next unbounded =>
        refine admits_pure ⟨trivial, ?_⟩
        have first := holds.2
        rw [Bool.not_eq_true] at unbounded
        rw [unbounded] at first
        exact length_append_le first (length_append_le also.2 (Nat.le_refl 0))

/-- **Types of tables** are written as the type of the elements and the limits. -/
theorem codec_tableType : Codec tableType encodeTableType fun _ => True where
  reads limits _ position := by
    refine .afterPosition ((reads_byte position functionElementByte).bind ?_)
    rw [if_pos rfl]
    exact codec_limits.reads limits trivial _
  admits := by
    refine .afterPosition fun offset => admits_byte.bind ?_
    rintro byte _ rfl
    refine .check fun isElement => codec_limits.admits.imp fun bytes limits holds => ⟨trivial, ?_⟩
    exact Nat.succ_le_succ holds.2

/-- **Types of globals** are written as the type of the value and whether it may change. -/
theorem codec_globalType : Codec globalType encodeGlobalType fun _ => True :=
  (codec_valueType.both codec_flag GlobalType.mk GlobalType.content GlobalType.isMutable
    (fun _ => rfl) (fun _ _ => rfl) fun _ _ => rfl).congr fun _ => and_self_iff

/-! ## Constant expressions -/

/-- A constant is read after its opcode. -/
theorem reads_constant {opcode : UInt8} {bytes : List UInt8} {value : Value}
    (spells : SpellsPlain (opcode :: bytes) (.const value)) :
    ∃ constant, constant? opcode = some constant ∧
      ∀ position, Reads constant position bytes value := by
  cases spells with
  | i32 integer =>
      exact ⟨_, rfl, fun position => (reads_signed isWidth_thirtyTwo position integer).map _⟩
  | i64 integer =>
      exact ⟨_, rfl, fun position => (reads_signed isWidth_sixtyFour position integer).map _⟩
  | f32 length => exact ⟨_, rfl, fun position => (reads_word32 position length).map _⟩
  | f64 length => exact ⟨_, rfl, fun position => (reads_word64 position length).map _⟩

/-- The end of a constant expression is read after it. -/
theorem reads_finish (position : Nat) (initial : Initializer) :
    Reads (do
      let offset ← Decoder.position
      let opcode ← byte
      unless opcode = finishOpcode do throw (.invalidInitializer offset opcode)
      return initial) position [finishOpcode] initial :=
  fun _ => rfl

/-- The end of a constant expression is one byte. -/
theorem admits_finish (initial : Initializer) {form : List UInt8 → Initializer → Prop}
    (holds : ∀ bytes, bytes.length = 1 → form bytes initial) :
    Admits (do
      let offset ← Decoder.position
      let opcode ← byte
      unless opcode = finishOpcode do throw (.invalidInitializer offset opcode)
      return initial) form := by
  refine .afterPosition fun offset => admits_byte.bind ?_
  rintro opcode _ rfl
  exact .check fun isFinish => admits_pure (holds _ rfl)

/-- **Initializers** are written as one instruction and its end. -/
theorem codec_initializer : Codec initializer encodeInitializer fun _ => True where
  reads initial _ position := by
    cases initial with
    | constant value =>
        have spells := spellsPlain_encodeConstant value
        obtain ⟨opcode, back, encoded⟩ : ∃ opcode back, encodeConstant value = opcode :: back := by
          cases value <;> exact ⟨_, _, rfl⟩
        rw [encoded] at spells
        obtain ⟨constant, found, reads⟩ := reads_constant spells
        show Reads _ _ (encodeConstant value ++ [finishOpcode]) _
        rw [encoded]
        refine .afterPosition ((reads_byte position opcode).bind ?_)
        rw [found]
        exact ((reads _).mapped Initializer.constant).bind (reads_finish _ _)
    | getGlobal index =>
        refine .afterPosition ((reads_byte position getGlobalOpcode).bind ?_)
        have reads := codec_index.reads index trivial
        exact ((reads _).mapped Initializer.getGlobal).bind (reads_finish _ _)
  admits := by
    refine .afterPosition fun offset => admits_byte.bind ?_
    rintro opcode _ rfl
    -- Both kinds of initializer take an opcode, an operand and the end.
    have whole (front back : List UInt8) (initial : Initializer)
        (short : (encodeInitializer initial).length ≤ front.length + 2)
        (length : back.length = 1) :
        (encodeInitializer initial).length ≤ ([opcode] ++ (front ++ back)).length := by
      simp only [List.length_append, List.length_cons, List.length_nil, length]
      omega
    split
    · next constant found =>
        have first : Admits (Initializer.constant <$> constant) fun bytes initial =>
            (encodeInitializer initial).length ≤ bytes.length + 2 :=
          (admits_constant found).mapped _ fun bytes value spells => by
            rw [encodeInitializer, List.length_append]
            exact Nat.succ_le_succ spells.least
        exact first.bind fun initial front short => admits_finish initial fun back length =>
          ⟨trivial, whole front back initial short length⟩
    · split
      · have first : Admits (Initializer.getGlobal <$> unsigned32) fun bytes initial =>
            (encodeInitializer initial).length ≤ bytes.length + 2 :=
          codec_index.admits.mapped _ fun bytes index holds => by
            rw [encodeInitializer, List.length_cons, List.length_append]
            exact Nat.succ_le_succ (Nat.succ_le_succ holds.2)
        exact first.bind fun initial front short => admits_finish initial fun back length =>
          ⟨trivial, whole front back initial short length⟩
      · intro cursor later value equation
        cases equation

/-! ## Entries -/

/-- **What is imported** is written as its kind and its type. -/
theorem codec_entity : Codec entity encodeEntity fun _ => True where
  reads entity _ position := by
    cases entity <;>
      exact .afterPosition ((reads_byte position _).bind
        ((codec_index.reads _ trivial _).thenNothing (reads_pure _ _)))
  admits := by
    refine .afterPosition fun offset => admits_byte.bind ?_
    rintro kind _ rfl
    refine codec_index.admits.bind fun index back holds => ?_
    have short : (encodeIndex index).length + 1 ≤ ([kind] ++ (back ++ [])).length := by
      rw [List.append_nil]
      exact Nat.succ_le_succ holds.2
    split
    · exact admits_pure ⟨trivial, short⟩
    · exact admits_pure ⟨trivial, short⟩
    · exact admits_pure ⟨trivial, short⟩
    · exact admits_pure ⟨trivial, short⟩
    · exact admits_throw _

/-- **Globals** are written as their type and their initializer. -/
theorem codec_global : Codec globalEntry encodeGlobal fun _ => True :=
  (codec_globalType.both codec_initializer Global.mk Global.type Global.initial (fun _ => rfl)
    (fun _ _ => rfl) fun _ _ => rfl).congr fun _ => and_self_iff

/-- **Exports** are written as their name and what they refer to. -/
theorem codec_export : Codec exportEntry encodeExport fun entry => IsName entry.name :=
  (codec_name.both codec_entity Export.mk Export.name Export.entity (fun _ => rfl)
    (fun _ _ => rfl) fun _ _ => rfl).congr fun _ => and_iff_left trivial

/-- The index of the first table or memory. -/
theorem codec_segmentIndex (kind : Singleton) :
    Codec (segmentIndex kind) (fun _ => encodeIndex 0) fun _ => True where
  reads _ _ position :=
    .afterPosition ((codec_index.reads 0 trivial position).thenNothing (reads_pure _ ()))
  admits := by
    refine .afterPosition fun offset => codec_index.admits.bind fun index front holds => ?_
    split
    · next first =>
        refine admits_pure ⟨trivial, ?_⟩
        rw [List.append_nil, ← first]
        exact holds.2
    · exact admits_throw _

/-- **Segments of tables** are written as their offset and their functions. -/
theorem codec_elementSegment : Codec elementSegment encodeElementSegment
    fun segment => IsCount segment.functions.length where
  reads segment holds position :=
    ((codec_segmentIndex .table).reads () trivial position).bind
      ((codec_initializer.reads segment.offset trivial _).bind
        ((codec_index.vector.reads segment.functions ⟨holds, fun _ _ => trivial⟩ _).map _))
  admits := by
    refine (codec_segmentIndex .table).admits.bind fun _ front first => ?_
    refine codec_initializer.admits.bind fun offset middle second => ?_
    refine codec_index.vector.admits.map _ fun back functions third => ⟨third.1.1, ?_⟩
    exact length_append_le first.2 (length_append_le second.2 third.2)

/-- **Segments of memory** are written as their offset and their bytes. -/
theorem codec_dataSegment : Codec dataSegment encodeDataSegment
    fun segment => IsCount segment.bytes.length where
  reads segment holds position := by
    obtain ⟨index, whole⟩ := spellsIndex_count holds
    exact ((codec_segmentIndex .memory).reads () trivial position).bind
      ((codec_initializer.reads segment.offset trivial _).bind
        ((reads_unsigned32 _ index).bind ((reads_bytes _ whole.symm).map _)))
  admits := by
    refine (codec_segmentIndex .memory).admits.bind fun _ front first => ?_
    refine codec_initializer.admits.bind fun offset middle second => ?_
    refine admits_unsigned32.bind fun size third spells => (admits_bytes size.toNat).map _ ?_
    rintro back _ ⟨length, rfl⟩
    obtain ⟨isCount, least⟩ := least_sized spells length
    exact ⟨isCount, length_append_le first.2 (length_append_le second.2 least)⟩

/-! ## Imports and singletons -/

/-- None of some entries is found if nothing is left of them. -/
theorem not_any_isSome_iff {find : α → Option β} {entries : List α} :
    ¬(entries.any fun entry => (find entry).isSome) = true ↔ entries.filterMap find = [] := by
  rw [Bool.not_eq_true, List.any_eq_false, List.filterMap_eq_nil_iff]
  exact forall₂_congr fun entry _ => Option.not_isSome_iff_eq_none

/-- Whether an import can be written down and repeats nothing that earlier ones provide. -/
structure MayFollow (earlier : List Import) (entry : Import) : Prop where
  /-- The names can be written down. -/
  names : IsName entry.moduleName ∧ IsName entry.field
  /-- There is no second table. -/
  table : entry.table? ≠ none → earlier.filterMap Import.table? = []
  /-- There is no second memory. -/
  memory : entry.memory? ≠ none → earlier.filterMap Import.memory? = []

/-- **Imports** are written as their two names and what is imported, after those that they may
follow. -/
theorem codec_import (earlier : List Import) :
    Codec (importEntry earlier) encodeImport (MayFollow earlier) where
  reads entry follows position := by
    obtain ⟨moduleName, field, kind⟩ := entry
    refine .afterPosition ((codec_name.reads moduleName follows.names.1 position).bind
      ((codec_name.reads field follows.names.2 _).bind (.afterPosition ?_)))
    cases kind with
    | function typeIndex =>
        exact (reads_byte _ 0).bind (((codec_index.reads typeIndex trivial _).mapped _).map _)
    | table limits =>
        have alone := not_any_isSome_iff.mpr (follows.table (Option.some_ne_none limits))
        refine (reads_byte _ 1).bind (.refuse alone ?_)
        exact ((codec_tableType.reads limits trivial _).mapped _).map _
    | memory limits =>
        have alone := not_any_isSome_iff.mpr (follows.memory (Option.some_ne_none limits))
        refine (reads_byte _ 2).bind (.refuse alone ?_)
        exact ((codec_limits.reads limits trivial _).mapped _).map _
    | global type =>
        exact (reads_byte _ 3).bind (((codec_globalType.reads type trivial _).mapped _).map _)
  admits := by
    refine .afterPosition fun offset => codec_name.admits.bind fun moduleName first named => ?_
    refine codec_name.admits.bind fun field second also => .afterPosition fun kindOffset => ?_
    refine admits_byte.bind ?_
    rintro kind _ rfl
    have whole {back : List UInt8} {entry : ImportKind}
        (short : (encodeImportKind entry).length ≤ ([kind] ++ back).length) :
        (encodeImport ⟨moduleName, field, entry⟩).length ≤
          (first ++ (second ++ ([kind] ++ back))).length :=
      length_append_le named.2 (length_append_le also.2 short)
    -- What was imported before only matters for a table and a memory.
    have names := And.intro named.1 also.1
    split
    · exact codec_index.admits.mappedInto _ _ fun _ _ holds =>
        ⟨⟨names, absurd rfl, absurd rfl⟩, whole (Nat.succ_le_succ holds.2)⟩
    · exact .refuse fun alone => codec_tableType.admits.mappedInto _ _ fun _ _ holds =>
        ⟨⟨names, fun _ => not_any_isSome_iff.mp alone, absurd rfl⟩,
          whole (Nat.succ_le_succ holds.2)⟩
    · exact .refuse fun alone => codec_limits.admits.mappedInto _ _ fun _ _ holds =>
        ⟨⟨names, absurd rfl, fun _ => not_any_isSome_iff.mp alone⟩,
          whole (Nat.succ_le_succ holds.2)⟩
    · exact codec_globalType.admits.mappedInto _ _ fun _ _ holds =>
        ⟨⟨names, absurd rfl, absurd rfl⟩, whole (Nat.succ_le_succ holds.2)⟩
    · intro cursor later value equation
      cases equation

/-- Nothing like an entry comes before it if there is at most one. -/
theorem filterMap_eq_nil_of_single {find : α → Option β} {read later : List α} {entry : α}
    (single : ((read.reverse ++ entry :: later).filterMap find).length ≤ 1)
    (found : find entry ≠ none) : read.filterMap find = [] := by
  obtain ⟨value, equation⟩ := Option.ne_none_iff_exists'.mp found
  rw [List.filterMap_append, List.filterMap_cons_some equation, List.filterMap_reverse,
    List.length_append, List.length_reverse, List.length_cons] at single
  exact List.length_eq_zero_iff.mp (by omega)

/-- There is at most one entry of a kind if each comes first. -/
theorem single_cons {find : α → Option β} {read : List α} {entry : α}
    (single : (read.filterMap find).length ≤ 1)
    (alone : find entry ≠ none → read.filterMap find = []) :
    ((entry :: read).filterMap find).length ≤ 1 := by
  cases equation : find entry with
  | none => rwa [List.filterMap_cons_none equation]
  | some value =>
      rw [List.filterMap_cons_some equation, alone (equation ▸ Option.some_ne_none value)]
      exact Nat.le_refl 1

/-- Imports are read one after the other if there is one table and one memory among them. -/
theorem reads_importsOnto {entries read : List Import}
    (names : ∀ entry ∈ entries, IsName entry.moduleName ∧ IsName entry.field)
    (tables : ((read.reverse ++ entries).filterMap Import.table?).length ≤ 1)
    (memories : ((read.reverse ++ entries).filterMap Import.memory?).length ≤ 1)
    {count : Nat} (length : entries.length = count) (position : Nat) :
    Reads (importsOnto count read) position (entries.flatMap encodeImport)
      (read.reverse ++ entries) := by
  subst length
  induction entries generalizing read position with
  | nil =>
      rw [List.append_nil]
      exact reads_pure _ _
  | cons entry entries entriesInduction =>
      obtain ⟨named, others⟩ := List.forall_mem_cons.mp names
      have follows : MayFollow read entry :=
        ⟨named, filterMap_eq_nil_of_single tables, filterMap_eq_nil_of_single memories⟩
      have split : read.reverse ++ entry :: entries = (entry :: read).reverse ++ entries := by
        rw [List.reverse_cons, List.append_assoc]
        rfl
      rw [split] at tables memories ⊢
      exact ((codec_import read).reads entry follows position).bind
        (entriesInduction others tables memories _)

/-- Imports that are read have one table and one memory among them. -/
theorem admits_importsOnto (count : Nat) (read : List Import)
    (tables : (read.filterMap Import.table?).length ≤ 1)
    (memories : (read.filterMap Import.memory?).length ≤ 1) :
    Admits (importsOnto count read) fun bytes result => ∃ entries,
      result = read.reverse ++ entries ∧ entries.length = count ∧
      (∀ entry ∈ entries, IsName entry.moduleName ∧ IsName entry.field) ∧
      (entries.flatMap encodeImport).length ≤ bytes.length ∧
      (result.filterMap Import.table?).length ≤ 1 ∧
      (result.filterMap Import.memory?).length ≤ 1 := by
  induction count generalizing read with
  | zero =>
      refine admits_pure ⟨[], (List.append_nil _).symm, rfl, List.forall_mem_nil _, Nat.le_refl 0,
        ?_, ?_⟩
      · rwa [List.filterMap_reverse, List.length_reverse]
      · rwa [List.filterMap_reverse, List.length_reverse]
  | succ count countInduction =>
      refine (codec_import read).admits.bind fun entry front holds => ?_
      have onward := countInduction (entry :: read) (single_cons tables holds.1.table)
        (single_cons memories holds.1.memory)
      refine onward.imp ?_
      rintro back _ ⟨entries, rfl, length, names, short, single⟩
      refine ⟨entry :: entries, ?_, congrArg Nat.succ length,
        List.forall_mem_cons.mpr ⟨holds.1.names, names⟩, ?_, single⟩
      · rw [List.reverse_cons, List.append_assoc]
        rfl
      · exact length_append_le holds.2 short

/-- **A section of at most one entry** is decoded as it is encoded. -/
theorem codec_singleton (kind : Singleton) (present : Bool) {entry : Decoder Limits}
    {encode : Limits → List UInt8} (codec : Codec entry encode fun _ => True) :
    Codec (singleton kind present entry) (fun found => encodeVector encode found.toList)
      fun found => found ≠ none → present = false where
  reads found alone position := by
    cases found with
    | none =>
        exact .afterPosition ((codec_index.reads 0 trivial position).bind (reads_pure _ none))
    | some limits =>
        cases alone (Option.some_ne_none limits)
        refine .afterPosition ((codec_index.reads 1 trivial position).bind ?_)
        show Reads (do return some (← entry)) _ (encode limits ++ []) _
        rw [List.append_nil]
        exact (codec.reads limits trivial _).map some
  admits := by
    refine .afterPosition fun offset => codec_index.admits.bind fun count front holds => ?_
    split
    · next empty =>
        rw [empty] at holds
        refine admits_pure ⟨absurd rfl, ?_⟩
        show (encodeIndex 0 ++ []).length ≤ (front ++ []).length
        rw [List.append_nil, List.append_nil]
        exact holds.2
    · next filled =>
        refine .refuse fun absent => codec.admits.bind fun limits back also => .refuse fun few => ?_
        -- Neither zero nor more than one leaves only one.
        have one : count = 1 := by
          rw [UInt32.lt_iff_toNat_lt] at few
          rw [← UInt32.toNat_inj] at filled ⊢
          simp only [UInt32.reduceToNat] at filled few ⊢
          omega
        refine admits_pure ⟨fun _ => Bool.eq_false_of_not_eq_true absent, ?_⟩
        rw [one] at holds
        rw [Option.toList_some, encodeVector, List.flatMap_singleton, List.append_nil]
        exact length_append_le holds.2 also.2

end Binary

end WasmCompiler
