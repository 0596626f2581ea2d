import WasmCompiler.Proofs.Recognition
import WasmCompiler.Proofs.Structuring

/-! # The bytes of operators

An operator is spelled by its opcode and then its immediates, integers in any form within their
budget.

* **`SpellsOperator`** — the spellings of an operator;
* **`Decoder.admits_operatorOf`**, **`Decoder.reads_operatorOf`** — they are what is read as one;
* **`Lexes`** — bytes that are nothing but operators;
* **`TokenStream.lexes_readOnto`**, **`TokenStream.readOnto_of_lexes`** — they are what is read as a
  whole stream. -/

namespace WasmCompiler

/-! ## Opcodes of a family -/

section

variable {α : Type} [DecidableEq α] {all : List α} {first : Nat}

/-- In a family whose opcodes follow each other, an opcode is the first one and the place of its
member. -/
theorem toNat_opcode {member : α} (listed : member ∈ all) (room : first + all.length ≤ 256) :
    (first + all.idxOf member).toUInt8.toNat = first + all.idxOf member := by
  have place := List.idxOf_lt_length_iff.mpr listed
  rw [Nat.toUInt8_eq, UInt8.toNat_ofNat']
  omega

/-- **The opcode of a member of a family** is the one that is looked up as the member. -/
theorem getElem?_opcode_iff {member : α} (listed : member ∈ all) (distinct : all.Nodup)
    (room : first + all.length ≤ 256) (opcode : UInt8) :
    (if first ≤ opcode.toNat then all[opcode.toNat - first]? else none) = some member ↔
      opcode = (first + all.idxOf member).toUInt8 := by
  have place := List.idxOf_lt_length_iff.mpr listed
  have whole := toNat_opcode listed room
  constructor
  · intro found
    split at found
    · next above =>
        obtain ⟨inside, equation⟩ := List.getElem?_eq_some_iff.mp found
        have index : all.idxOf member = opcode.toNat - first := by
          rw [← equation]
          exact distinct.idxOf_getElem _ inside
        rw [← UInt8.toNat_inj, whole, index]
        omega
    · cases found
  · rintro rfl
    rw [whole, if_pos (Nat.le_add_right _ _), Nat.add_sub_cancel_left,
      List.getElem?_eq_getElem place, List.getElem_idxOf place]

end

namespace Accessor

/-- Every accessor is listed. -/
theorem mem_all (accessor : Accessor) : accessor ∈ all := by
  rcases accessor with type | ⟨part, signedness⟩ | type | part
  · cases type <;> decide
  · cases part <;> cases signedness <;> decide
  · cases type <;> decide
  · cases part <;> decide

/-- The opcodes of the accessors lie below those of the other instructions of their family. -/
theorem opcode_bounds (accessor : Accessor) :
    0x28 ≤ accessor.opcode.toNat ∧ accessor.opcode.toNat ≤ 0x3e := by
  have place := List.idxOf_lt_length_iff.mpr accessor.mem_all
  have opcode : accessor.opcode.toNat = firstOpcode + all.idxOf accessor :=
    toNat_opcode accessor.mem_all (by decide)
  simp only [firstOpcode, all, List.length_cons, List.length_nil] at place opcode
  omega

/-- An opcode is that of one accessor. -/
theorem ofOpcode?_eq_some_iff {opcode : UInt8} {accessor : Accessor} :
    ofOpcode? opcode = some accessor ↔ opcode = accessor.opcode :=
  getElem?_opcode_iff accessor.mem_all (by decide) (by decide) opcode

end Accessor

/-- Every comparison of integers is listed. -/
theorem IntComparison.mem_all (op : IntComparison) : op ∈ all := by
  cases op <;> first | decide | (next signedness => cases signedness <;> decide)

/-- So is every comparison of floating-point numbers. -/
theorem FloatComparison.mem_all (op : FloatComparison) : op ∈ all := by
  cases op <;> decide

/-- So is every operation on one integer. -/
theorem IntUnary.mem_all (op : IntUnary) : op ∈ all := by
  cases op <;> decide

/-- So is every operation on two integers. -/
theorem IntBinary.mem_all (op : IntBinary) : op ∈ all := by
  cases op <;> first | decide | (next signedness => cases signedness <;> decide)

/-- So is every operation on one floating-point number. -/
theorem FloatUnary.mem_all (op : FloatUnary) : op ∈ all := by
  cases op <;> decide

/-- So is every operation on two floating-point numbers. -/
theorem FloatBinary.mem_all (op : FloatBinary) : op ∈ all := by
  cases op <;> decide

/-- So is every conversion. -/
theorem NumericConversion.mem_all (op : NumericConversion) : op ∈ all := by
  cases op with
  | wrap | demote | promote => decide
  | truncate target source signedness | convert target source signedness =>
      cases target <;> cases source <;> cases signedness <;> decide
  | extend signedness => cases signedness <;> decide
  | bitsOfFloat source | floatOfBits source => cases source <;> decide

namespace NumericOp

/-- Every operation is listed, since the operations of its family are. -/
theorem mem_all (op : NumericOp) : op ∈ all := by
  simp only [all, List.mem_append, List.mem_map, List.mem_singleton]
  cases op with
  | eqz type => cases type <;> simp
  | intCompare type op => cases type <;> simp [op.mem_all]
  | floatCompare type op => cases type <;> simp [op.mem_all]
  | intUnary type op => cases type <;> simp [op.mem_all]
  | intBinary type op => cases type <;> simp [op.mem_all]
  | floatUnary type op => cases type <;> simp [op.mem_all]
  | floatBinary type op => cases type <;> simp [op.mem_all]
  | conversion op => simp [op.mem_all]

/-- No operation is listed twice. -/
theorem nodup_all : all.Nodup := by
  decide +kernel

/-- The opcodes of the list are all below `0xc0`. -/
theorem room_all : firstOpcode + all.length ≤ 0xc0 := by
  decide +kernel

/-- The opcodes of the operations lie above those of the constants. -/
theorem opcode_bounds (op : NumericOp) : 0x45 ≤ op.opcode.toNat ∧ op.opcode.toNat ≤ 0xbf := by
  have place := List.idxOf_lt_length_iff.mpr op.mem_all
  have opcode : op.opcode.toNat = firstOpcode + all.idxOf op :=
    toNat_opcode op.mem_all (room_all.trans (by decide))
  have room := room_all
  simp only [firstOpcode] at opcode room
  omega

/-- An opcode is that of one operation. -/
theorem ofOpcode?_eq_some_iff {opcode : UInt8} {op : NumericOp} :
    ofOpcode? opcode = some op ↔ opcode = op.opcode :=
  getElem?_opcode_iff op.mem_all nodup_all (room_all.trans (by decide)) opcode

end NumericOp

namespace OpcodeFamily

variable {family : OpcodeFamily} {opcode : UInt8}

/-- An opcode lies in the range of its family. -/
theorem range_of_ofOpcode? (found : ofOpcode? opcode = some family) :
    family.range.1 ≤ opcode.toNat ∧ opcode.toNat ≤ family.range.2 := by
  unfold ofOpcode? at found
  have inside := List.find?_some found
  exact of_decide_eq_true inside

/-- An opcode in the range of a family is of that family, since the ranges lie apart. -/
theorem ofOpcode?_eq_some (bounds : family.range.1 ≤ opcode.toNat ∧
    opcode.toNat ≤ family.range.2) : ofOpcode? opcode = some family := by
  have inside : family.contains opcode = true := decide_eq_true bounds
  have apart : ∀ other : OpcodeFamily, other ≠ family → other.contains opcode = false := by
    intro other different
    refine decide_eq_false fun within => different ?_
    cases family <;> cases other <;> simp only [range] at bounds within <;> first | rfl | omega
  unfold ofOpcode?
  cases family <;> simp [inside, apart]

end OpcodeFamily

namespace Binary

/-! ## Spellings -/

open Decoder Varint

/-- Whether bytes spell an instruction without block structure. -/
inductive SpellsPlain : List UInt8 → PlainInstruction → Prop
  | unreachable : SpellsPlain [0x00] .unreachable
  | nop : SpellsPlain [0x01] .nop
  | ret : SpellsPlain [0x0f] .ret
  | call {bytes : List UInt8} {function : UInt32} (index : SpellsIndex bytes function) :
      SpellsPlain (0x10 :: bytes) (.call function)
  | callIndirect {bytes : List UInt8} {typeIndex : UInt32} (index : SpellsIndex bytes typeIndex) :
      SpellsPlain (0x11 :: (bytes ++ [0])) (.callIndirect typeIndex)
  | drop : SpellsPlain [0x1a] .drop
  | select : SpellsPlain [0x1b] .select
  | getLocal {bytes : List UInt8} {index : UInt32} (spells : SpellsIndex bytes index) :
      SpellsPlain (0x20 :: bytes) (.getLocal index)
  | setLocal {bytes : List UInt8} {index : UInt32} (spells : SpellsIndex bytes index) :
      SpellsPlain (0x21 :: bytes) (.setLocal index)
  | teeLocal {bytes : List UInt8} {index : UInt32} (spells : SpellsIndex bytes index) :
      SpellsPlain (0x22 :: bytes) (.teeLocal index)
  | getGlobal {bytes : List UInt8} {index : UInt32} (spells : SpellsIndex bytes index) :
      SpellsPlain (0x23 :: bytes) (.getGlobal index)
  | setGlobal {bytes : List UInt8} {index : UInt32} (spells : SpellsIndex bytes index) :
      SpellsPlain (0x24 :: bytes) (.setGlobal index)
  | access (accessor : Accessor) {front back : List UInt8} {alignment offset : UInt32}
      (first : SpellsIndex front alignment) (second : SpellsIndex back offset) :
      SpellsPlain (accessor.opcode :: (front ++ back)) (.access accessor alignment offset)
  | currentMemory : SpellsPlain [0x3f, 0] .currentMemory
  | growMemory : SpellsPlain [0x40, 0] .growMemory
  | i32 {bytes : List UInt8} {integer : Int} (spells : SpellsSigned 32 bytes integer) :
      SpellsPlain (0x41 :: bytes) (.const (.i32 (BitVec.ofInt 32 integer)))
  | i64 {bytes : List UInt8} {integer : Int} (spells : SpellsSigned 64 bytes integer) :
      SpellsPlain (0x42 :: bytes) (.const (.i64 (BitVec.ofInt 64 integer)))
  | f32 {bytes : List UInt8} (length : bytes.length = 4) :
      SpellsPlain (0x43 :: bytes) (.const (.f32 (BitVec.ofNat 32 (LittleEndian.toNat bytes))))
  | f64 {bytes : List UInt8} (length : bytes.length = 8) :
      SpellsPlain (0x44 :: bytes) (.const (.f64 (BitVec.ofNat 64 (LittleEndian.toNat bytes))))
  | numeric (op : NumericOp) : SpellsPlain [op.opcode] (.numeric op)

/-- Whether bytes spell an operator. -/
inductive SpellsOperator : List UInt8 → Operator → Prop
  | plain {bytes : List UInt8} {instruction : PlainInstruction}
      (spells : SpellsPlain bytes instruction) : SpellsOperator bytes (.plain instruction)
  | block (type : BlockType) : SpellsOperator [0x02, blockTypeByte type] (.block type)
  | loop (type : BlockType) : SpellsOperator [0x03, blockTypeByte type] (.loop type)
  | ifThen (type : BlockType) : SpellsOperator [0x04, blockTypeByte type] (.ifThen type)
  | otherwise : SpellsOperator [0x05] .otherwise
  | finish : SpellsOperator [0x0b] .finish
  | branch {bytes : List UInt8} {depth : UInt32} (index : SpellsIndex bytes depth) :
      SpellsOperator (0x0c :: bytes) (.branch depth)
  | branchIf {bytes : List UInt8} {depth : UInt32} (index : SpellsIndex bytes depth) :
      SpellsOperator (0x0d :: bytes) (.branchIf depth)
  | branchTable {front back : List UInt8} {depths : List UInt32} {fallback : UInt32}
      (vector : IsVector SpellsIndex front depths) (index : SpellsIndex back fallback) :
      SpellsOperator (0x0e :: (front ++ back)) (.branchTable depths fallback)

namespace Decoder

/-! ## What is read as an operator has its spelling -/

/-- What is read as a control operator is spelled so. -/
theorem admits_controlOperator (offset : Nat) (opcode : UInt8) :
    Admits (controlOperator offset opcode) fun bytes operator =>
      SpellsOperator (opcode :: bytes) operator := by
  unfold controlOperator
  split
  · next equal =>
      obtain rfl : opcode = 0x00 := UInt8.toNat_inj.mp equal
      exact admits_pure (.plain .unreachable)
  · next equal =>
      obtain rfl : opcode = 0x01 := UInt8.toNat_inj.mp equal
      exact admits_pure (.plain .nop)
  · next equal =>
      obtain rfl : opcode = 0x02 := UInt8.toNat_inj.mp equal
      refine admits_blockType.map _ ?_
      rintro _ type rfl
      exact .block type
  · next equal =>
      obtain rfl : opcode = 0x03 := UInt8.toNat_inj.mp equal
      refine admits_blockType.map _ ?_
      rintro _ type rfl
      exact .loop type
  · next equal =>
      obtain rfl : opcode = 0x04 := UInt8.toNat_inj.mp equal
      refine admits_blockType.map _ ?_
      rintro _ type rfl
      exact .ifThen type
  · next equal =>
      obtain rfl : opcode = 0x05 := UInt8.toNat_inj.mp equal
      exact admits_pure .otherwise
  · next equal =>
      obtain rfl : opcode = 0x0b := UInt8.toNat_inj.mp equal
      exact admits_pure .finish
  · next equal =>
      obtain rfl : opcode = 0x0c := UInt8.toNat_inj.mp equal
      exact admits_unsigned32.map _ fun _ _ index => .branch index
  · next equal =>
      obtain rfl : opcode = 0x0d := UInt8.toNat_inj.mp equal
      exact admits_unsigned32.map _ fun _ _ index => .branchIf index
  · next equal =>
      obtain rfl : opcode = 0x0e := UInt8.toNat_inj.mp equal
      refine (admits_vector admits_unsigned32).bind fun depths front vector => ?_
      exact admits_unsigned32.map _ fun _ _ index => .branchTable vector index
  · next equal =>
      obtain rfl : opcode = 0x0f := UInt8.toNat_inj.mp equal
      exact admits_pure (.plain .ret)
  · next equal =>
      obtain rfl : opcode = 0x10 := UInt8.toNat_inj.mp equal
      exact admits_unsigned32.map _ fun _ _ index => .plain (.call index)
  · next equal =>
      obtain rfl : opcode = 0x11 := UInt8.toNat_inj.mp equal
      refine admits_unsigned32.bind fun typeIndex front index => ?_
      refine admits_reserved.map (fun _ => _) ?_
      rintro _ - rfl
      exact .plain (.callIndirect index)
  · exact admits_throw _

/-- So is what is read as an access to a variable. -/
theorem admits_variableInstruction (offset : Nat) (opcode : UInt8) :
    Admits (variableInstruction offset opcode) fun bytes instruction =>
      SpellsPlain (opcode :: bytes) instruction := by
  unfold variableInstruction
  split
  · next equal =>
      obtain rfl : opcode = 0x20 := UInt8.toNat_inj.mp equal
      exact admits_unsigned32.map _ fun _ _ => .getLocal
  · next equal =>
      obtain rfl : opcode = 0x21 := UInt8.toNat_inj.mp equal
      exact admits_unsigned32.map _ fun _ _ => .setLocal
  · next equal =>
      obtain rfl : opcode = 0x22 := UInt8.toNat_inj.mp equal
      exact admits_unsigned32.map _ fun _ _ => .teeLocal
  · next equal =>
      obtain rfl : opcode = 0x23 := UInt8.toNat_inj.mp equal
      exact admits_unsigned32.map _ fun _ _ => .getGlobal
  · next equal =>
      obtain rfl : opcode = 0x24 := UInt8.toNat_inj.mp equal
      exact admits_unsigned32.map _ fun _ _ => .setGlobal
  · exact admits_throw _

/-- So is what is read as an access to memory. -/
theorem admits_memoryInstruction (offset : Nat) (opcode : UInt8) :
    Admits (memoryInstruction offset opcode) fun bytes instruction =>
      SpellsPlain (opcode :: bytes) instruction := by
  unfold memoryInstruction
  split
  · next equal =>
      obtain rfl : opcode = 0x3f := UInt8.toNat_inj.mp equal
      refine admits_reserved.map (fun _ => _) ?_
      rintro _ - rfl
      exact .currentMemory
  · next equal =>
      obtain rfl : opcode = 0x40 := UInt8.toNat_inj.mp equal
      refine admits_reserved.map (fun _ => _) ?_
      rintro _ - rfl
      exact .growMemory
  · split
    · next accessor equal =>
        obtain rfl := Accessor.ofOpcode?_eq_some_iff.mp equal
        refine admits_unsigned32.bind fun alignment front first => ?_
        exact admits_unsigned32.map _ fun _ _ second => .access accessor first second
    · exact admits_throw _

/-- What is read of a constant completes the spelling of the instruction. -/
theorem admits_constant {opcode : UInt8} {constant : Decoder Value}
    (equation : constant? opcode = some constant) :
    Admits constant fun bytes value => SpellsPlain (opcode :: bytes) (.const value) := by
  unfold constant? at equation
  split at equation
  · next equal =>
      obtain rfl : opcode = 0x41 := UInt8.toNat_inj.mp equal
      cases equation
      exact (admits_signed 32).map _ fun _ _ => .i32
  · next equal =>
      obtain rfl : opcode = 0x42 := UInt8.toNat_inj.mp equal
      cases equation
      exact (admits_signed 64).map _ fun _ _ => .i64
  · next equal =>
      obtain rfl : opcode = 0x43 := UInt8.toNat_inj.mp equal
      cases equation
      refine admits_word32.map _ ?_
      rintro bytes _ ⟨length, rfl⟩
      exact .f32 length
  · next equal =>
      obtain rfl : opcode = 0x44 := UInt8.toNat_inj.mp equal
      cases equation
      refine admits_word64.map _ ?_
      rintro bytes _ ⟨length, rfl⟩
      exact .f64 length
  · cases equation

/-- So is what is read as a numeric instruction. -/
theorem admits_numericInstruction (offset : Nat) (opcode : UInt8) :
    Admits (numericInstruction offset opcode) fun bytes instruction =>
      SpellsPlain (opcode :: bytes) instruction := by
  unfold numericInstruction
  split
  · next constant equation => exact (admits_constant equation).map _ fun _ _ spells => spells
  · split
    · next op equal =>
        obtain rfl := NumericOp.ofOpcode?_eq_some_iff.mp equal
        exact admits_pure (.numeric op)
    · exact admits_throw _

/-- **What is read of an operator** completes its spelling. -/
theorem admits_operatorOf (offset : Nat) (opcode : UInt8) :
    Admits (operatorOf offset opcode) fun bytes operator =>
      SpellsOperator (opcode :: bytes) operator := by
  unfold operatorOf
  split
  · exact admits_controlOperator offset opcode
  · next family =>
      have bounds := OpcodeFamily.range_of_ofOpcode? family
      simp only [OpcodeFamily.range] at bounds
      refine admits_pure ?_
      by_cases first : opcode = 0x1a
      · rw [if_pos first, first]
        exact .plain .drop
      · have second : opcode = 0x1b := by
          rw [← UInt8.toNat_inj] at first ⊢
          simp only [UInt8.reduceToNat] at first ⊢
          omega
        rw [if_neg first, second]
        exact .plain .select
  · exact (admits_variableInstruction offset opcode).map _ fun _ _ => .plain
  · exact (admits_memoryInstruction offset opcode).map _ fun _ _ => .plain
  · exact (admits_numericInstruction offset opcode).map _ fun _ _ => .plain
  · exact admits_throw _

/-! ## Every spelling is read -/

/-- The opcode of an accessor is none of the other opcodes of its family. -/
theorem reads_accessor (offset position : Nat) (accessor : Accessor) {front back : List UInt8}
    {alignment place : UInt32} (first : SpellsIndex front alignment)
    (second : SpellsIndex back place) :
    Reads (operatorOf offset accessor.opcode) position (front ++ back)
      (.plain (.access accessor alignment place)) := by
  have bounds := accessor.opcode_bounds
  have family : OpcodeFamily.ofOpcode? accessor.opcode = some .memory :=
    OpcodeFamily.ofOpcode?_eq_some ⟨bounds.1, bounds.2.trans (by decide)⟩
  have found := Accessor.ofOpcode?_eq_some_iff.mpr (Eq.refl accessor.opcode)
  have reads : Reads (memoryInstruction offset accessor.opcode) position (front ++ back)
      (.access accessor alignment place) := by
    unfold memoryInstruction
    split
    · omega
    · omega
    · rw [found]
      exact (reads_unsigned32 position first).bind ((reads_unsigned32 _ second).map _)
  unfold operatorOf
  rw [family]
  exact reads.map _

/-- The opcode of an operation is not that of a constant. -/
theorem reads_numeric (offset position : Nat) (op : NumericOp) :
    Reads (operatorOf offset op.opcode) position [] (.plain (.numeric op)) := by
  have bounds := op.opcode_bounds
  have family : OpcodeFamily.ofOpcode? op.opcode = some .numeric :=
    OpcodeFamily.ofOpcode?_eq_some ⟨Nat.le_trans (by decide) bounds.1, bounds.2⟩
  have found := NumericOp.ofOpcode?_eq_some_iff.mpr (Eq.refl op.opcode)
  have noConstant : constant? op.opcode = none := by
    unfold constant?
    split <;> first | omega | rfl
  unfold operatorOf numericInstruction
  rw [family, noConstant, found]
  exact (reads_pure position _).map _

/-- **A spelling of an instruction** is read as it. -/
theorem reads_plain {bytes : List UInt8} {instruction : PlainInstruction}
    (spells : SpellsPlain bytes instruction) :
    ∃ opcode back, bytes = opcode :: back ∧ ∀ offset position,
      Reads (operatorOf offset opcode) position back (.plain instruction) := by
  cases spells with
  | unreachable => exact ⟨0x00, [], rfl, fun _ position => reads_pure position _⟩
  | nop => exact ⟨0x01, [], rfl, fun _ position => reads_pure position _⟩
  | ret => exact ⟨0x0f, [], rfl, fun _ position => reads_pure position _⟩
  | call index =>
      exact ⟨0x10, _, rfl, fun _ position =>
        (reads_unsigned32 position index).map fun function => Operator.plain (.call function)⟩
  | callIndirect index =>
      exact ⟨0x11, _, rfl, fun _ position =>
        (reads_unsigned32 position index).bind ((reads_reserved _).map _)⟩
  | drop => exact ⟨0x1a, [], rfl, fun _ position => reads_pure position _⟩
  | select => exact ⟨0x1b, [], rfl, fun _ position => reads_pure position _⟩
  | getLocal index =>
      exact ⟨0x20, _, rfl, fun _ position => ((reads_unsigned32 position index).map _).map _⟩
  | setLocal index =>
      exact ⟨0x21, _, rfl, fun _ position => ((reads_unsigned32 position index).map _).map _⟩
  | teeLocal index =>
      exact ⟨0x22, _, rfl, fun _ position => ((reads_unsigned32 position index).map _).map _⟩
  | getGlobal index =>
      exact ⟨0x23, _, rfl, fun _ position => ((reads_unsigned32 position index).map _).map _⟩
  | setGlobal index =>
      exact ⟨0x24, _, rfl, fun _ position => ((reads_unsigned32 position index).map _).map _⟩
  | access accessor first second =>
      exact ⟨accessor.opcode, _, rfl, fun offset position =>
        reads_accessor offset position accessor first second⟩
  | currentMemory =>
      exact ⟨0x3f, _, rfl, fun _ position => ((reads_reserved position).map _).map _⟩
  | growMemory =>
      exact ⟨0x40, _, rfl, fun _ position => ((reads_reserved position).map _).map _⟩
  | i32 integer =>
      exact ⟨0x41, _, rfl, fun _ position =>
        (((reads_signed isWidth_thirtyTwo position integer).map _).map _).map _⟩
  | i64 integer =>
      exact ⟨0x42, _, rfl, fun _ position =>
        (((reads_signed isWidth_sixtyFour position integer).map _).map _).map _⟩
  | f32 length =>
      exact ⟨0x43, _, rfl, fun _ position => (((reads_word32 position length).map _).map _).map _⟩
  | f64 length =>
      exact ⟨0x44, _, rfl, fun _ position => (((reads_word64 position length).map _).map _).map _⟩
  | numeric op =>
      exact ⟨op.opcode, [], rfl, fun offset position => reads_numeric offset position op⟩

/-- **A spelling of an operator** is read as it. -/
theorem reads_operatorOf {bytes : List UInt8} {operator : Operator}
    (spells : SpellsOperator bytes operator) :
    ∃ opcode back, bytes = opcode :: back ∧ ∀ offset position,
      Reads (operatorOf offset opcode) position back operator := by
  cases spells with
  | plain spells => exact reads_plain spells
  | block type => exact ⟨0x02, _, rfl, fun _ position => (reads_blockType position type).map _⟩
  | loop type => exact ⟨0x03, _, rfl, fun _ position => (reads_blockType position type).map _⟩
  | ifThen type => exact ⟨0x04, _, rfl, fun _ position => (reads_blockType position type).map _⟩
  | otherwise => exact ⟨0x05, _, rfl, fun _ position => reads_pure position _⟩
  | finish => exact ⟨0x0b, _, rfl, fun _ position => reads_pure position _⟩
  | branch index => exact ⟨0x0c, _, rfl, fun _ position => (reads_unsigned32 position index).map _⟩
  | branchIf index =>
      exact ⟨0x0d, _, rfl, fun _ position => (reads_unsigned32 position index).map _⟩
  | branchTable vector index =>
      refine ⟨0x0e, _, rfl, fun _ position => ?_⟩
      have depths := reads_vector_of_isVector vector (fun _ _ _ => reads_unsigned32 _) position
      exact depths.bind ((reads_unsigned32 _ index).map _)

/-! ## Tokens -/

/-- What is read of a token is a spelling of its operator. -/
theorem admits_token {cursor later : Cursor} {result : Token}
    (equation : token cursor = .ok result later) :
    result.offset = cursor.position ∧ ∃ bytes, cursor.rest = bytes ++ later.rest ∧
      later.position = cursor.position + bytes.length ∧
      SpellsOperator bytes result.operator := by
  have admits : Admits token fun bytes result => SpellsOperator bytes result.operator := by
    refine .afterPosition fun offset => admits_byte.bind ?_
    rintro opcode _ rfl
    exact (admits_operatorOf offset opcode).map _ fun _ _ spells => spells
  exact ⟨(token_offset equation).1, admits _ _ _ equation⟩

/-- A spelling of an operator is read as a token where it stands. -/
theorem reads_token {bytes : List UInt8} {operator : Operator}
    (spells : SpellsOperator bytes operator) (position : Nat) :
    ∃ opcode, Reads token position bytes ⟨position, opcode, operator⟩ := by
  obtain ⟨opcode, back, rfl, reads⟩ := reads_operatorOf spells
  refine ⟨opcode, .afterPosition ?_⟩
  exact (reads_byte position opcode).bind ((reads position _).map _)

end Decoder

/-- A spelling is not empty. -/
theorem SpellsOperator.ne_nil {bytes : List UInt8} {operator : Operator}
    (spells : SpellsOperator bytes operator) : bytes ≠ [] := by
  obtain ⟨opcode, back, rfl, -⟩ := reads_operatorOf spells
  exact List.cons_ne_nil opcode back

/-! ## Streams -/

/-- **Whether bytes are nothing but operators**, given those with the positions at which they stand
if the first one stands at a position. -/
inductive Lexes : (position : Nat) → List UInt8 → List (Nat × Operator) → Prop
  /-- No operators are left. -/
  | nil {position : Nat} : Lexes position [] []
  /-- An operator and those after it. -/
  | cons {position : Nat} {front back : List UInt8} {operator : Operator}
      {marks : List (Nat × Operator)} (spells : SpellsOperator front operator)
      (later : Lexes (position + front.length) back marks) :
      Lexes position (front ++ back) ((position, operator) :: marks)

namespace TokenStream

/-- Whether a stream ends where its window does. -/
def IsWhole : TokenStream → Prop
  | .exhausted _ => True
  | .failed .. => False
  | .next _ rest => rest.IsWhole

/-- **What is read as a whole stream** is nothing but operators. -/
theorem lexes_readOnto {fuel : Nat} {cursor : Cursor} (enough : cursor.rest.length ≤ fuel)
    (whole : (readOnto fuel [] cursor).IsWhole) :
    Lexes cursor.position cursor.rest (readOnto fuel [] cursor).marks := by
  induction fuel generalizing cursor with
  | zero =>
      have empty : cursor.rest = [] := List.length_eq_zero_iff.mp (Nat.le_zero.mp enough)
      rw [empty]
      exact .nil
  | succ fuel fuelInduction =>
      simp only [readOnto] at whole ⊢
      by_cases empty : cursor.rest.isEmpty = true
      · rw [if_pos empty, List.isEmpty_iff.mp empty]
        exact .nil
      · rw [if_neg empty] at whole ⊢
        cases equation : token cursor with
        | error error after =>
            rw [equation] at whole
            exact whole.elim
        | ok token after =>
            simp only [equation] at whole ⊢
            rw [readOnto_eq] at whole ⊢
            obtain ⟨offset, bytes, rest, position, spells⟩ := admits_token equation
            -- An operator has at least one byte, so the fuel lasts.
            have shorter : after.rest.length ≤ fuel := by
              have nonempty := List.length_pos_iff.mpr spells.ne_nil
              rw [rest, List.length_append] at enough
              omega
            have later := fuelInduction shorter whole
            rw [position] at later
            show Lexes _ _ ((token.offset, token.operator) :: _)
            rw [offset, rest]
            exact .cons spells later

/-- **Operators and nothing else** are read as a whole stream. -/
theorem readOnto_of_lexes {position : Nat} {bytes : List UInt8} {marks : List (Nat × Operator)}
    (lexes : Lexes position bytes marks) {fuel : Nat} (enough : bytes.length ≤ fuel) :
    (readOnto fuel [] ⟨position, bytes⟩).IsWhole ∧
      (readOnto fuel [] ⟨position, bytes⟩).marks = marks := by
  induction lexes generalizing fuel with
  | nil => cases fuel <;> exact ⟨trivial, rfl⟩
  | cons spells later laterInduction =>
      rename_i position front back operator marks
      have nonempty := List.length_pos_iff.mpr spells.ne_nil
      rw [List.length_append] at enough
      obtain ⟨fuel, rfl⟩ : ∃ less, fuel = less + 1 := ⟨fuel - 1, by omega⟩
      obtain ⟨opcode, reads⟩ := reads_token spells position
      obtain ⟨whole, rest⟩ := laterInduction (show back.length ≤ fuel by omega)
      have more : ¬(front ++ back).isEmpty = true := by
        simp [spells.ne_nil]
      simp only [readOnto, if_neg more, reads back]
      rw [readOnto_eq]
      exact ⟨whole, congrArg _ rest⟩

end TokenStream

end Binary

end WasmCompiler
