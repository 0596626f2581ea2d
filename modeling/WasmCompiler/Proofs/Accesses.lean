import Mathlib.Algebra.BigOperators.Ring.Finset
import WasmCompiler.Proofs.Codecs
import WasmCompiler.Proofs.Histories

/-! # Accesses to memory

A load gives the number that the bytes at its address spell, lowest byte first, extended as the name
of the instruction says; a store puts the low bytes of a value in place and leaves all others. Both
trap exactly where a byte of theirs lies past the end of memory, the address and the offset being
added without wrapping.

* **`Accessor.spelling`** — the name of an instruction by what it accesses;
* **`extended`** — a number read with or without sign;
* **`Memory.LoadOutcome`**, **`Memory.StoreOutcome`** — what a load or a store comes to;
* **`Memory.accesses_exact`** — loads, stores and loads after stores. -/

namespace WasmCompiler

/-! ## Names of instructions -/

namespace Accessor

/-- How a load extends the number that it reads. A number that fills its type is not extended. -/
def signedness : Accessor → Signedness
  | .loadPart _ signedness => signedness
  | .load _ | .store _ | .storePart _ => .unsigned

/-- **The name of an instruction by what it accesses**: the type of the value, the direction, and
for a part of a value its number of bits and how a load extends it. -/
def spelling (accessor : Accessor) : String :=
  accessor.type.name ++ (if accessor.isStore then ".store" else ".load") ++
    if accessor.width < accessor.type.width then
      toString (8 * accessor.width) ++
        if accessor.isStore then "" else accessor.signedness.suffix
    else ""

/-- **The mnemonic of an accessor** is that name. -/
theorem mnemonic_eq_spelling (accessor : Accessor) : accessor.mnemonic = accessor.spelling := by
  rcases accessor with type | ⟨part, signedness⟩ | type | part
  · cases type <;> decide +kernel
  · cases part <;> cases signedness <;> decide +kernel
  · cases type <;> decide +kernel
  · cases part <;> decide +kernel

/-- The names of the memory instructions in the order of their opcodes. -/
def instructionNames : List String :=
  ["i32.load", "i64.load", "f32.load", "f64.load",
    "i32.load8_s", "i32.load8_u", "i32.load16_s", "i32.load16_u",
    "i64.load8_s", "i64.load8_u", "i64.load16_s", "i64.load16_u", "i64.load32_s", "i64.load32_u",
    "i32.store", "i64.store", "f32.store", "f64.store",
    "i32.store8", "i32.store16", "i64.store8", "i64.store16", "i64.store32"]

/-- **Every opcode selects the access of its name.** -/
theorem instructionNames_of_ofOpcode? {opcode : UInt8} {accessor : Accessor}
    (selected : ofOpcode? opcode = some accessor) :
    instructionNames[opcode.toNat - firstOpcode]? = some accessor.mnemonic := by
  have names : instructionNames = all.map mnemonic := by decide +kernel
  unfold ofOpcode? at selected
  split at selected
  · rw [names, List.getElem?_map, selected]
    rfl
  · cases selected

end Accessor

/-! ## Numbers in memory -/

namespace LittleEndian

/-- The number that bytes spell is the sum of the bytes, each at its power of 256. -/
theorem toNat_eq_sum (bytes : List UInt8) :
    toNat bytes =
      ∑ position ∈ Finset.range bytes.length, (bytes[position]?.getD 0).toNat * 256 ^ position := by
  induction bytes with
  | nil => rfl
  | cons byte bytes bytesInduction =>
      rw [toNat, bytesInduction, List.length_cons, Finset.sum_range_succ', Finset.mul_sum]
      simp [Nat.pow_succ', Nat.mul_left_comm, Nat.add_comm]

/-- Bytes spell a number below the power of 256 that they have places for. -/
theorem toNat_lt (bytes : List UInt8) : toNat bytes < 256 ^ bytes.length := by
  induction bytes with
  | nil => exact Nat.one_pos
  | cons byte bytes bytesInduction =>
      have := byte.toNat_lt
      rw [toNat, List.length_cons, Nat.pow_succ']
      omega

end LittleEndian

/-- **A number of so many bytes, read with or without sign.** -/
def extended (signedness : Signedness) (width number : Nat) : Int :=
  match signedness with
  | .unsigned => number
  | .signed => if 2 * number < 256 ^ width then number else number - (256 ^ width : Nat)

/-- **Whether a value is what an access makes of a number in memory**: it has the type of the
access, and its bits are those of the number after extension. -/
def Accessor.Widens (accessor : Accessor) (number : Nat) (value : Value) : Prop :=
  value.type = accessor.type ∧
    (value.toBits : Int) =
      extended accessor.signedness accessor.width number % (256 ^ accessor.type.width : Nat)

namespace Machine.Memory

/-- **The number in some bytes of memory**, the lowest one first. -/
def numberAt (memory : Memory) (start width : Nat) : Nat :=
  ∑ position ∈ Finset.range width, (memory.byteAt (start + position)).toNat * 256 ^ position

/-- The bytes that are read spell the number there. -/
theorem toNat_extract {memory : Memory} {start width : Nat}
    (fits : start + width ≤ memory.size) :
    LittleEndian.toNat (memory.bytes.extract start (start + width)).toList =
      memory.numberAt start width := by
  unfold size at fits
  have length : (memory.bytes.extract start (start + width)).toList.length = width := by
    rw [Array.length_toList, Array.size_extract]
    omega
  rw [LittleEndian.toNat_eq_sum, length, numberAt]
  refine Finset.sum_congr rfl fun position member => ?_
  have inside := Finset.mem_range.mp member
  have covered : position < min (start + width) memory.bytes.size - start := by omega
  rw [Array.getElem?_toList, Array.getElem?_extract, if_pos covered, byteAt]

/-- Bytes in memory spell a number below the power of 256 that they have places for. -/
theorem numberAt_lt {memory : Memory} {start width : Nat} (fits : start + width ≤ memory.size) :
    memory.numberAt start width < 256 ^ width := by
  have bound := LittleEndian.toNat_lt (memory.bytes.extract start (start + width)).toList
  unfold size at fits
  have length : (memory.bytes.extract start (start + width)).toList.length = width := by
    rw [Array.length_toList, Array.size_extract]
    omega
  rwa [toNat_extract fits, length] at bound

/-! ## Values that are loaded -/

/-- A part is widened by its sign or by zeros. -/
theorem toNat_widen (part : Part) (signedness : Signedness) {number : Nat}
    (bounded : number < 256 ^ part.width) (width : Nat) :
    ((widen part signedness number width).toNat : Int) =
      extended signedness part.width number % (2 ^ width : Nat) := by
  have bytes : 256 ^ part.width = 2 ^ (8 * part.width) := by rw [Nat.pow_mul]
  cases signedness with
  | unsigned =>
      simp only [widen, extended, BitVec.toNat_ofNat]
      exact Int.natCast_emod number (2 ^ width)
  | signed =>
      have positive : (0 : Int) < (2 ^ width : Nat) := by exact_mod_cast Nat.two_pow_pos width
      simp only [widen, extended, BitVec.signExtend, BitVec.toNat_ofInt]
      rw [Int.toNat_of_nonneg (Int.emod_nonneg _ positive.ne'), BitVec.toInt_eq_toNat_cond,
        BitVec.toNat_ofNat, ← bytes, Nat.mod_eq_of_lt bounded]

/-- A value of a type has the bits of the number. -/
theorem toBits_valueOf (type : ValueType) (number : Nat) :
    ((valueOf type number).toBits : Int) = (number : Int) % (256 ^ type.width : Nat) := by
  cases type <;> exact Int.natCast_emod number _

/-- **Every load makes a value of the number that it reads.** -/
theorem exists_loaded {accessor : Accessor} (loads : accessor.isStore = false) {number : Nat}
    (bounded : number < 256 ^ accessor.width) :
    ∃ value, loaded? accessor number = some value ∧ accessor.Widens number value := by
  cases accessor with
  | load type =>
      refine ⟨_, rfl, ?_, toBits_valueOf type number⟩
      cases type <;> rfl
  | loadPart part signedness =>
      cases part <;> exact ⟨_, rfl, rfl, toNat_widen _ signedness bounded _⟩
  | store type => cases loads
  | storePart part => cases loads

/-- A load depends on the size of memory and the number that it reads. -/
theorem load_eq (memory : Memory) (accessor : Accessor) (address offset : Nat) :
    memory.load accessor address offset =
      if address + offset + accessor.width ≤ memory.size then
        match loaded? accessor (memory.numberAt (address + offset) accessor.width) with
        | some value => .ok value
        | none => .error (.typeMismatch accessor.type)
      else .error (.outOfBoundsAccess (address + offset) accessor.width) := by
  unfold load read rangeTrap?
  by_cases fits : address + offset + accessor.width ≤ memory.size
  · rw [if_pos fits, if_pos fits, ← toNat_extract fits]
    rfl
  · rw [if_neg fits, if_neg fits]
    rfl

/-- A load of bytes that are there gives the number that they spell. -/
theorem exists_load_eq_ok {memory : Memory} {accessor : Accessor} (loads : accessor.isStore = false)
    {address offset : Nat} (fits : address + offset + accessor.width ≤ memory.size) :
    ∃ value, memory.load accessor address offset = .ok value ∧
      accessor.Widens (memory.numberAt (address + offset) accessor.width) value := by
  obtain ⟨value, found, widens⟩ := exists_loaded loads (numberAt_lt fits)
  refine ⟨value, ?_, widens⟩
  rw [load_eq, if_pos fits, found]

/-! ## What accesses come to -/

/-- **What a load comes to** at a start: a value made of the number there, or a trap if not all of
the bytes are there. -/
inductive LoadOutcome (memory : Memory) (accessor : Accessor) (start : Nat) :
    Except Trap Value → Prop where
  /-- All bytes are there. -/
  | loaded {value : Value} (fits : start + accessor.width ≤ memory.size)
      (widens : accessor.Widens (memory.numberAt start accessor.width) value) :
      LoadOutcome memory accessor start (.ok value)
  /-- A byte lies past the end of memory. -/
  | outside (past : memory.size < start + accessor.width) :
      LoadOutcome memory accessor start (.error (.outOfBoundsAccess start accessor.width))

/-- **What a store comes to** at a start: a memory with other bytes there, or a trap if not all of
the bytes are there or the value has another type. -/
inductive StoreOutcome (memory : Memory) (accessor : Accessor) (start : Nat) (value : Value) :
    Except Trap Memory → Prop where
  /-- The low bytes of the value are put in place, lowest first, and nothing else changes. -/
  | stored {later : Memory} (fits : start + accessor.width ≤ memory.size)
      (type : value.type = accessor.type) (maximum : later.maximum = memory.maximum)
      (size : later.size = memory.size)
      (inside : ∀ position < accessor.width,
        later.bytes[start + position]? = some (value.toBits / 256 ^ position).toUInt8)
      (others : ∀ address, address < start ∨ start + accessor.width ≤ address →
        later.bytes[address]? = memory.bytes[address]?) :
      StoreOutcome memory accessor start value (.ok later)
  /-- The value has another type. -/
  | mismatched (fits : start + accessor.width ≤ memory.size)
      (differs : value.type ≠ accessor.type) :
      StoreOutcome memory accessor start value (.error (.typeMismatch accessor.type))
  /-- A byte lies past the end of memory. -/
  | outside (past : memory.size < start + accessor.width) :
      StoreOutcome memory accessor start value (.error (.outOfBoundsAccess start accessor.width))

section

variable {memory : Memory} {accessor : Accessor}

/-- **A load comes to one of the outcomes of loads**, whatever its address and offset. -/
theorem loadOutcome_load (loads : accessor.isStore = false) (address offset : Nat) :
    LoadOutcome memory accessor (address + offset) (memory.load accessor address offset) := by
  by_cases fits : address + offset + accessor.width ≤ memory.size
  · obtain ⟨value, loaded, widens⟩ := exists_load_eq_ok loads fits
    rw [loaded]
    exact .loaded fits widens
  · rw [load_eq, if_neg fits]
    exact .outside (Nat.lt_of_not_le fits)

/-- **A store comes to one of the outcomes of stores**, whatever its address and offset. -/
theorem storeOutcome_store (stores : accessor.isStore = true) (address offset : Nat)
    (value : Value) :
    StoreOutcome memory accessor (address + offset) value
      (memory.store accessor address offset value) := by
  unfold store storeTrap? rangeTrap?
  by_cases fits : address + offset + accessor.width ≤ memory.size
  · rw [if_pos fits]
    by_cases type : value.type = accessor.type
    · simp only [stores, type, and_self, if_true]
      have length := LittleEndian.length_ofNat accessor.width value.toBits
      have fitsData : address + offset +
          (LittleEndian.ofNat accessor.width value.toBits).length ≤ memory.bytes.size := by
        rw [length]
        exact fits
      refine .stored fits type rfl (size_overwrite _ _ _) (fun position inside => ?_)
        fun other outside => ?_
      · exact getElem?_overwrite_inside fitsData (LittleEndian.getElem?_ofNat value.toBits inside)
      · rcases outside with before | after
        · exact getElem?_overwrite_before before
        · exact getElem?_overwrite_after (length.symm ▸ after)
    · simp only [type, and_false, if_false]
      exact .mismatched fits type
  · rw [if_neg fits]
    exact .outside (Nat.lt_of_not_le fits)

/-! ## Loads after stores -/

/-- The number in bytes that have been stored is that of the low bytes of the value. -/
theorem numberAt_stored {later : Memory} {start width bits : Nat}
    (inside : ∀ position < width,
      later.bytes[start + position]? = some (bits / 256 ^ position).toUInt8) :
    later.numberAt start width = bits % 256 ^ width := by
  rw [← LittleEndian.toNat_ofNat, LittleEndian.toNat_eq_sum, LittleEndian.length_ofNat, numberAt]
  refine Finset.sum_congr rfl fun position member => ?_
  have covered := Finset.mem_range.mp member
  rw [byteAt, inside position covered, LittleEndian.getElem?_ofNat bits covered]

/-- The number in bytes that are the same is the same. -/
theorem numberAt_congr {later : Memory} {start width : Nat}
    (same : ∀ position < width, later.bytes[start + position]? = memory.bytes[start + position]?) :
    later.numberAt start width = memory.numberAt start width := by
  refine Finset.sum_congr rfl fun position member => ?_
  rw [byteAt, byteAt, same position (Finset.mem_range.mp member)]

end

/-- **Accesses to memory are exact.** An opcode selects the access that its name spells out. A load
gives the number that starts at the sum of the address and the offset, which does not wrap, widened
as the name says; a store puts the low bytes of a value of its type there and leaves all others.
Both trap if a byte lies past the end of memory. A load after a store gives the low bytes of the
value if it reads just these, however the start is split, and what it gave before if it reads none
of them. -/
theorem accesses_exact (memory : Memory) (address offset : UInt32) {opcode : UInt8}
    {accessor : Accessor} (selected : Accessor.ofOpcode? opcode = some accessor) :
    let start := address.toNat + offset.toNat
    (Accessor.instructionNames[opcode.toNat - Accessor.firstOpcode]? = some accessor.mnemonic ∧
      accessor.mnemonic = accessor.spelling) ∧
    (accessor.isStore = false →
      LoadOutcome memory accessor start (memory.load accessor address.toNat offset.toNat)) ∧
    (accessor.isStore = true → ∀ value,
      StoreOutcome memory accessor start value
        (memory.store accessor address.toNat offset.toNat value) ∧
      ∀ later, memory.store accessor address.toNat offset.toNat value = .ok later →
        ∀ (loader : Accessor) (base shift : UInt32), loader.isStore = false →
          (base.toNat + shift.toNat = start → loader.width = accessor.width →
            ∃ loaded, later.load loader base.toNat shift.toNat = .ok loaded ∧
              loader.Widens (value.toBits % 256 ^ accessor.width) loaded) ∧
          (base.toNat + shift.toNat + loader.width ≤ start ∨
              start + accessor.width ≤ base.toNat + shift.toNat →
            later.load loader base.toNat shift.toNat =
              memory.load loader base.toNat shift.toNat)) := by
  intro start
  refine ⟨⟨Accessor.instructionNames_of_ofOpcode? selected, accessor.mnemonic_eq_spelling⟩,
    fun loads => loadOutcome_load loads _ _,
    fun stores value => ⟨storeOutcome_store stores _ _ value,
      fun later done loader base shift loads => ?_⟩⟩
  have outcome : StoreOutcome memory accessor start value _ :=
    storeOutcome_store stores address.toNat offset.toNat value
  rw [done] at outcome
  cases outcome with
  | stored fits type maximum size inside others =>
      refine ⟨fun same width => ?_, fun apart => ?_⟩
      -- The bytes that are read are those that have been stored.
      · have there : base.toNat + shift.toNat + loader.width ≤ later.size := by
          rw [same, width, size]
          exact fits
        have loaded := exists_load_eq_ok loads there
        rwa [same, width, numberAt_stored inside] at loaded
      -- None of the bytes that are read has been stored.
      · rw [load_eq, load_eq, size, numberAt_congr fun position inside => others _ ?_]
        omega

/-- A memory of one page of zeros. -/
def onePage : Memory :=
  ⟨Array.replicate pageSize 0, 1⟩

/-- The low half of a word is stored in the last two bytes of a page. It is loaded back with its
sign through another split of the address, and one byte further on there is too little memory. -/
theorem accesses_exact_last_half :
    Accessor.ofOpcode? 0x3d = some (.storePart .halfOf64) ∧
      Accessor.ofOpcode? 0x32 = some (.loadPart .halfOf64 .signed) ∧
      (∃ later, onePage.store (.storePart .halfOf64) 65530 4 (.i64 0x18001) = .ok later ∧
        later.load (.loadPart .halfOf64 .signed) 0 65534 = .ok (.i64 0xffffffffffff8001)) ∧
      onePage.load (.loadPart .halfOf64 .signed) 65534 1 = .error (.outOfBoundsAccess 65535 2) := by
  have size : onePage.size = 65536 := Array.size_replicate
  have selectsStore : Accessor.ofOpcode? 0x3d = some (.storePart .halfOf64) := rfl
  have selectsLoad : Accessor.ofOpcode? 0x32 = some (.loadPart .halfOf64 .signed) := rfl
  refine ⟨selectsStore, selectsLoad, ?_, ?_⟩
  · obtain ⟨-, -, stores⟩ := accesses_exact onePage 65530 4 selectsStore
    obtain ⟨outcome, onward⟩ := stores rfl (.i64 0x18001)
    generalize result : onePage.store _ _ _ _ = stored at outcome onward
    cases outcome with
    | stored fits type maximum sizes inside others =>
        obtain ⟨loaded, loads, type, bits⟩ :=
          (onward _ rfl (.loadPart .halfOf64 .signed) 0 65534 rfl).1 rfl rfl
        refine ⟨_, result, loads.trans ?_⟩
        cases loaded with
        | i64 word =>
            have number : (word.toNat : Int) = (0xffffffffffff8001 : BitVec 64).toNat :=
              bits.trans (by decide)
            rw [BitVec.eq_of_toNat_eq (Int.ofNat_inj.mp number)]
        | i32 word | f32 word | f64 word => cases type
    | mismatched fits differs => exact absurd rfl differs
    | outside past =>
        rw [size] at past
        exact absurd past (by decide)
  · obtain ⟨-, loads, -⟩ := accesses_exact onePage 65534 1 selectsLoad
    have outcome := loads rfl
    generalize result : onePage.load _ _ _ = loaded at outcome
    cases outcome with
    | loaded fits widens =>
        rw [size] at fits
        exact absurd fits (by decide)
    | outside past => exact result

end Machine.Memory

end WasmCompiler
