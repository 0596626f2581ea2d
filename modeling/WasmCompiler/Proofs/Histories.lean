import Mathlib.Algebra.Group.Nat.Defs
import WasmCompiler.Proofs.Instances

/-! # Histories of memory

A memory is only ever changed by operations that succeed. Whatever operations have been performed on
it and however their ranges overlap, its size is that of whole pages within the limit, and every
byte is the one that the last successful write to its address has put there.

* **`Memory.Operation`**, **`Memory.perform`** — the operations on a memory and what they answer;
* **`Memory.Puts`** — an operation that succeeds puts a byte at an address;
* **`Memory.change_perform`** — what an operation does to a memory;
* **`Memory.byteAt_after`** — what operations that follow each other leave at an address;
* **`Memory.histories_determine`** — the size and the bytes of a memory after any operations. -/

namespace WasmCompiler

/-- The bytes of a number are its digits to the base 256, lowest first. -/
theorem LittleEndian.getElem?_ofNat {count position : Nat} (value : Nat)
    (inside : position < count) :
    (ofNat count value)[position]? = some (value / 256 ^ position).toUInt8 := by
  induction count generalizing value position with
  | zero => cases inside
  | succ count countInduction =>
      cases position with
      | zero => rw [ofNat, List.getElem?_cons_zero, Nat.pow_zero, Nat.div_one]
      | succ position =>
          rw [ofNat, List.getElem?_cons_succ, countInduction _ (Nat.lt_of_succ_lt_succ inside),
            Nat.div_div_eq_div_mul, Nat.pow_succ']

namespace Machine.Memory

/-! ## Bytes that are overwritten -/

section

variable {bytes : Array UInt8} {start address : Nat} {data : List UInt8}

/-- Bytes before those that are overwritten stay. -/
theorem getElem?_overwrite_before (before : address < start) :
    (overwrite bytes start data)[address]? = bytes[address]? := by
  induction data generalizing bytes start with
  | nil => rfl
  | cons byte rest restInduction =>
      rw [overwrite, restInduction (Nat.lt_succ_of_lt before),
        Array.getElem?_setIfInBounds_ne (Nat.ne_of_gt before)]

/-- So do bytes after them. -/
theorem getElem?_overwrite_after (after : start + data.length ≤ address) :
    (overwrite bytes start data)[address]? = bytes[address]? := by
  induction data generalizing bytes start with
  | nil => rfl
  | cons byte rest restInduction =>
      rw [List.length_cons] at after
      have later : start + 1 + rest.length ≤ address := by omega
      have other : start ≠ address := by omega
      rw [overwrite, restInduction later, Array.getElem?_setIfInBounds_ne other]

/-- Data that fits is found where it is put. -/
theorem getElem?_overwrite_inside {position : Nat} {byte : UInt8}
    (fits : start + data.length ≤ bytes.size) (found : data[position]? = some byte) :
    (overwrite bytes start data)[start + position]? = some byte := by
  induction data generalizing bytes start position with
  | nil => cases found
  | cons head rest restInduction =>
      rw [List.length_cons] at fits
      cases position with
      | zero =>
          -- The rest is put after the first byte and leaves it.
          rw [List.getElem?_cons_zero] at found
          have inside : start < bytes.size := by omega
          have before : start + 0 < start + 1 := Nat.lt_succ_self start
          rw [overwrite, getElem?_overwrite_before before, Nat.add_zero,
            Array.getElem?_setIfInBounds_self_of_lt inside, found]
      | succ position =>
          rw [List.getElem?_cons_succ] at found
          have fitsRest : start + 1 + rest.length ≤ (bytes.setIfInBounds start head).size := by
            rw [Array.size_setIfInBounds]
            omega
          rw [overwrite, ← restInduction fitsRest found, Nat.add_right_comm, Nat.add_assoc]

/-- **Where data is put that fits, there is the data**; everywhere else there is what was there. -/
theorem overwrite_cases (fits : start + data.length ≤ bytes.size) (address : Nat) :
    (∃ position byte, data[position]? = some byte ∧ address = start + position ∧
        (overwrite bytes start data)[address]? = some byte) ∨
      (∀ position byte, data[position]? = some byte → address ≠ start + position) ∧
        (overwrite bytes start data)[address]? = bytes[address]? := by
  by_cases inside : start ≤ address ∧ address < start + data.length
  · obtain ⟨lower, upper⟩ := inside
    obtain ⟨position, rfl⟩ := Nat.exists_eq_add_of_le lower
    have found := List.getElem?_eq_getElem (Nat.lt_of_add_lt_add_left upper)
    exact .inl ⟨position, _, found, rfl, getElem?_overwrite_inside fits found⟩
  · refine .inr ⟨?_, ?_⟩
    · rintro position byte found rfl
      obtain ⟨less, -⟩ := List.getElem?_eq_some_iff.mp found
      omega
    · by_cases before : address < start
      · exact getElem?_overwrite_before before
      · exact getElem?_overwrite_after (by omega)

end

/-! ## Operations that succeed -/

section

variable {memory later : Memory}

/-- The bytes of a value that is stored take the place of others. -/
theorem store_eq_ok {accessor : Accessor} {address offset : Nat} {value : Value}
    (stores : memory.store accessor address offset value = .ok later) :
    address + offset + accessor.width ≤ memory.size ∧
      later = memory.stored accessor address offset value := by
  unfold store at stores
  split at stores
  · cases stores
  · next allowed =>
      cases stores
      refine ⟨?_, rfl⟩
      unfold storeTrap? at allowed
      split at allowed
      · cases allowed
      · next there => exact rangeTrap?_eq_none there

end

/-! ## Operations -/

/-- An operation on a memory, whose addresses and numbers of pages have 32 bits. -/
inductive Operation where
  /-- A value is loaded. -/
  | load (accessor : Accessor) (address offset : UInt32)
  /-- A value is stored. -/
  | store (accessor : Accessor) (address offset : UInt32) (value : Value)
  /-- Bytes are read. -/
  | read (address : UInt32) (width : Nat)
  /-- Bytes are written. -/
  | write (address : UInt32) (data : List UInt8)
  /-- Pages are added. -/
  | grow (delta : UInt32)

/-- What an operation answers. -/
inductive Answer where
  /-- The value that has been loaded. -/
  | value (value : Value)
  /-- The bytes that have been read. -/
  | bytes (bytes : List UInt8)
  /-- A value has been stored, or bytes have been written. -/
  | done
  /-- Pages have been added to so many. -/
  | grown (pages : UInt32)
  /-- The operation has failed. -/
  | trapped (trap : Trap)
  /-- No pages have been added. -/
  | refused

/-- Whether an operation with the answer has failed. -/
def Answer.isFailure : Answer → Bool
  | .trapped _ | .refused => true
  | .value _ | .bytes _ | .done | .grown _ => false

/-- **Performs an operation**: what it answers, and the memory after it. -/
def perform (memory : Memory) : Operation → Answer × Memory
  | .load accessor address offset =>
      match memory.load accessor address.toNat offset.toNat with
      | .ok value => (.value value, memory)
      | .error trap => (.trapped trap, memory)
  | .store accessor address offset value =>
      match memory.store accessor address.toNat offset.toNat value with
      | .ok later => (.done, later)
      | .error trap => (.trapped trap, memory)
  | .read address width =>
      match memory.read address.toNat width with
      | .ok bytes => (.bytes bytes, memory)
      | .error trap => (.trapped trap, memory)
  | .write address data =>
      match memory.write address.toNat data with
      | .ok later => (.done, later)
      | .error trap => (.trapped trap, memory)
  | .grow delta =>
      match memory.grow? delta.toNat with
      | some (pages, later) => (.grown pages.toUInt32, later)
      | none => (.refused, memory)

/-- **The memory after operations** that follow each other. -/
def after (memory : Memory) : List Operation → Memory
  | [] => memory
  | operation :: operations => (memory.perform operation).2.after operations

/-- **Operations that follow each other**, each with the memory that it is performed on. -/
def performed (memory : Memory) : List Operation → List (Memory × Operation)
  | [] => []
  | operation :: operations =>
      (memory, operation) :: (memory.perform operation).2.performed operations

/-- **Whether an operation puts a byte at an address**: it succeeds, and the byte is the one that it
writes there. -/
inductive Puts (memory : Memory) : Operation → (address : Nat) → (byte : UInt8) → Prop where
  /-- A value that is stored puts its digits to the base 256 in place, lowest first. -/
  | store {accessor : Accessor} {address offset : UInt32} {value : Value} {later : Memory}
      {position : Nat}
      (stores : memory.store accessor address.toNat offset.toNat value = .ok later)
      (covers : position < accessor.width) :
      Puts memory (.store accessor address offset value)
        (address.toNat + offset.toNat + position) (value.toBits / 256 ^ position).toUInt8
  /-- Bytes that are written are put in place. -/
  | write {address : UInt32} {data : List UInt8} {later : Memory} {position : Nat} {byte : UInt8}
      (writes : memory.write address.toNat data = .ok later)
      (covers : data[position]? = some byte) :
      Puts memory (.write address data) (address.toNat + position) byte

/-! ## What an operation leaves -/

/-- The byte at an address, where memory that is not there counts as zeros. -/
def byteAt (memory : Memory) (address : Nat) : UInt8 :=
  memory.bytes[address]?.getD 0

section

variable {memory : Memory} {operation : Operation}

/-- A memory that grows has the pages that are asked for. -/
theorem perform_grow (delta : UInt32) :
    (memory.pages + delta.toNat ≤ memory.maximum ∧
        memory.perform (.grow delta) =
          (.grown memory.pages.toUInt32, memory.extend delta.toNat)) ∨
      (memory.maximum < memory.pages + delta.toNat ∧
        memory.perform (.grow delta) = (.refused, memory)) := by
  simp only [perform, grow?]
  by_cases allowed : memory.canGrow delta.toNat
  · rw [if_pos allowed]
    exact .inl ⟨of_decide_eq_true allowed, rfl⟩
  · rw [if_neg allowed]
    refine .inr ⟨Nat.lt_of_not_le fun fits => allowed (decide_eq_true fits), rfl⟩

/-- **What an operation does to a memory**, by its answer and the memory after it. -/
inductive Change (memory : Memory) (operation : Operation) : Answer × Memory → Prop where
  /-- Nothing, whether it fails or only looks at the memory. -/
  | kept {answer : Answer} (nothing : ∀ address byte, ¬Puts memory operation address byte) :
      Change memory operation (answer, memory)
  /-- It puts data in place of bytes. -/
  | overwritten {start : Nat} {data : List UInt8} (fits : start + data.length ≤ memory.size)
      (puts : ∀ address byte, Puts memory operation address byte ↔
        ∃ position, data[position]? = some byte ∧ address = start + position) :
      Change memory operation
        (.done, { memory with bytes := overwrite memory.bytes start data })
  /-- It adds pages. -/
  | extended {delta : Nat} (allowed : memory.pages + delta ≤ memory.maximum)
      (nothing : ∀ address byte, ¬Puts memory operation address byte) :
      Change memory operation (.grown memory.pages.toUInt32, memory.extend delta)

/-- The digits that a value puts in place are those of the bytes it is stored as. -/
theorem puts_store_iff {accessor : Accessor} {base offset : UInt32} {value : Value} {later : Memory}
    (stores : memory.store accessor base.toNat offset.toNat value = .ok later) (address : Nat)
    (byte : UInt8) :
    Puts memory (.store accessor base offset value) address byte ↔
      ∃ position, (LittleEndian.ofNat accessor.width value.toBits)[position]? = some byte ∧
        address = base.toNat + offset.toNat + position := by
  constructor
  · intro puts
    cases puts with
    | store _ covers => exact ⟨_, LittleEndian.getElem?_ofNat value.toBits covers, rfl⟩
  · rintro ⟨position, found, rfl⟩
    obtain ⟨covers, -⟩ := List.getElem?_eq_some_iff.mp found
    rw [LittleEndian.length_ofNat] at covers
    rw [LittleEndian.getElem?_ofNat value.toBits covers] at found
    cases found
    exact .store stores covers

/-- Writing bytes puts each of them at its own place behind the first one. -/
theorem puts_write_iff {base : UInt32} {data : List UInt8} {later : Memory}
    (writes : memory.write base.toNat data = .ok later) (address : Nat) (byte : UInt8) :
    Puts memory (.write base data) address byte ↔
      ∃ position, data[position]? = some byte ∧ address = base.toNat + position := by
  constructor
  · intro puts
    cases puts with
    | write _ covers => exact ⟨_, covers, rfl⟩
  · rintro ⟨position, covers, rfl⟩
    exact .write writes covers

/-- **Every operation keeps the memory, puts data in place of bytes or adds pages.** -/
theorem change_perform (memory : Memory) (operation : Operation) :
    Change memory operation (memory.perform operation) := by
  cases operation with
  | load accessor address offset =>
      simp only [perform]
      split <;> exact .kept fun _ _ => nofun
  | store accessor address offset value =>
      simp only [perform]
      split
      · next stores =>
          obtain ⟨fits, rfl⟩ := store_eq_ok stores
          rw [← LittleEndian.length_ofNat accessor.width value.toBits] at fits
          exact .overwritten fits (puts_store_iff stores)
      -- An operation that fails puts nothing anywhere.
      · next fails =>
          refine .kept fun address byte puts => ?_
          cases puts with
          | store stores => cases fails.symm.trans stores
  | read address width =>
      simp only [perform]
      split <;> exact .kept fun _ _ => nofun
  | write address data =>
      simp only [perform]
      split
      · next writes =>
          obtain ⟨fits, rfl⟩ := write_eq_ok writes
          exact .overwritten fits (puts_write_iff writes)
      · next fails =>
          refine .kept fun address byte puts => ?_
          cases puts with
          | write writes => cases fails.symm.trans writes
  | grow delta =>
      rcases memory.perform_grow delta with ⟨fits, grown⟩ | ⟨-, refused⟩
      · rw [grown]
        exact .extended fits fun _ _ => nofun
      · rw [refused]
        exact .kept fun _ _ => nofun

/-- **An operation that fails leaves the memory as it is.** -/
theorem perform_failed (fails : (memory.perform operation).1.isFailure = true) :
    (memory.perform operation).2 = memory := by
  have change := memory.change_perform operation
  generalize memory.perform operation = result at fails change ⊢
  cases change with
  | kept nothing => rfl
  | overwritten fits puts => cases fails
  | extended allowed nothing => cases fails

/-- **A memory only grows**, whatever the operation. -/
theorem grows_perform (memory : Memory) (operation : Operation) :
    memory.Grows (memory.perform operation).2 := by
  have change := memory.change_perform operation
  generalize memory.perform operation = result at change ⊢
  cases change with
  | kept nothing => exact .refl memory
  | overwritten fits puts => exact grows_overwrite memory _ _
  | extended allowed nothing => exact grows_extend (decide_eq_true allowed)

/-- **A memory that is extended** keeps its bytes, and the others are zeros. -/
theorem getElem?_extend (memory : Memory) (delta address : Nat) :
    (memory.extend delta).bytes[address]? =
      if address < memory.size then memory.bytes[address]?
      else if address < memory.size + delta * pageSize then some 0 else none := by
  rw [extend, Array.getElem?_append, Array.getElem?_replicate]
  unfold size
  by_cases old : address < memory.bytes.size
  · rw [if_pos old, if_pos old]
  · have same : address - memory.bytes.size < delta * pageSize ↔
        address < memory.bytes.size + delta * pageSize := by omega
    rw [if_neg old, if_neg old]
    simp only [same]

/-- **What an operation leaves at an address**: the byte that it puts there, if it puts one, or else
what was there. -/
theorem byteAt_perform (memory : Memory) (operation : Operation) (address : Nat) :
    Puts memory operation address ((memory.perform operation).2.byteAt address) ∨
      (∀ byte, ¬Puts memory operation address byte) ∧
        (memory.perform operation).2.byteAt address = memory.byteAt address := by
  have change := memory.change_perform operation
  generalize memory.perform operation = result at change ⊢
  cases change with
  | kept nothing => exact .inr ⟨nothing address, rfl⟩
  | overwritten fits puts =>
      rcases overwrite_cases fits address with ⟨position, byte, found, place, put⟩ | ⟨outside, same⟩
      · rw [byteAt, put]
        exact .inl ((puts address byte).mpr ⟨position, found, place⟩)
      · refine .inr ⟨fun byte put => ?_, ?_⟩
        · obtain ⟨position, found, place⟩ := (puts address byte).mp put
          exact outside position byte found place
        · rw [byteAt, same, byteAt]
  | extended allowed nothing =>
      refine .inr ⟨nothing address, ?_⟩
      rw [byteAt, getElem?_extend, byteAt]
      by_cases inside : address < memory.size
      · rw [if_pos inside]
      -- Bytes that are added are zeros, as if they had been there.
      · rw [if_neg inside, Array.getElem?_eq_none (Nat.le_of_not_lt inside)]
        split <;> rfl

end

/-! ## What operations leave -/

/-- Memory only grows, whatever operations follow each other. -/
theorem grows_after (memory : Memory) (operations : List Operation) :
    memory.Grows (memory.after operations) := by
  induction operations generalizing memory with
  | nil => exact .refl memory
  | cons operation operations operationsInduction =>
      exact (memory.grows_perform operation).trans (operationsInduction _)

/-- **What operations leave at an address**: the byte that the last one puts there that puts any, or
else what was there at first. -/
theorem byteAt_after (memory : Memory) (operations : List Operation) (address : Nat) :
    (∃ earlier last later, memory.performed operations = earlier ++ last :: later ∧
        Puts last.1 last.2 address ((memory.after operations).byteAt address) ∧
        ∀ other ∈ later, ∀ byte, ¬Puts other.1 other.2 address byte) ∨
      (∀ other ∈ memory.performed operations, ∀ byte, ¬Puts other.1 other.2 address byte) ∧
        (memory.after operations).byteAt address = memory.byteAt address := by
  induction operations generalizing memory with
  | nil => exact .inr ⟨fun _ => nofun, rfl⟩
  | cons operation operations operationsInduction =>
      rcases operationsInduction (memory.perform operation).2 with
        ⟨earlier, last, later, split, puts, silent⟩ | ⟨silent, same⟩
      -- An operation further on is the last one to put a byte there.
      · refine .inl ⟨(memory, operation) :: earlier, last, later, ?_, puts, silent⟩
        rw [performed, split, List.cons_append]
      -- No further one does, so it is left to this one.
      · rw [after, same]
        rcases memory.byteAt_perform operation address with puts | ⟨nothing, kept⟩
        · exact .inl ⟨[], (memory, operation), _, rfl, puts, silent⟩
        · exact .inr ⟨List.forall_mem_cons.mpr ⟨nothing, silent⟩, kept⟩

/-! ## Memories that are created -/

/-- There are no more whole pages than the limit. -/
theorem Whole.pages_le {memory : Memory} (whole : memory.Whole) :
    memory.pages ≤ memory.maximum :=
  Nat.div_le_of_le_mul (Nat.mul_comm _ _ ▸ whole.bounded)

/-- Whole pages within the greatest number of them are counted by 32 bits. -/
theorem Whole.toNat_pages {memory : Memory} (whole : memory.Whole)
    (limited : memory.maximum ≤ maxPages) : memory.pages.toUInt32.toNat = memory.pages := by
  have few : memory.pages < 2 ^ 32 :=
    Nat.lt_of_le_of_lt (Nat.le_trans whole.pages_le limited) (by decide)
  exact Nat.mod_eq_of_lt few

/-- A memory that is created has only zeros. -/
theorem byteAt_create {initial : Nat} {maximum : Option Nat} {memory : Memory}
    (creates : create initial maximum = .ok memory) (address : Nat) :
    memory.byteAt address = 0 := by
  rw [(create_eq_ok creates).2, byteAt, Array.getElem?_replicate]
  split <;> rfl

/-- **What the history of a memory determines.** A memory that is created and any operations have
been performed on has whole pages, which 32 bits count, no more than the limit, and no fewer after
any further operations. An operation that fails leaves it as it is. Pages can be added exactly if
those there are and those asked for come to no more than the limit; the memory then keeps its bytes,
and the new ones are zeros. And every byte is the one that the last successful write to its address
has put there, or a zero if there has been none. -/
theorem histories_determine {initial : UInt32} {maximum : Option UInt32} {memory : Memory}
    (creates : create initial.toNat (maximum.map UInt32.toNat) = .ok memory)
    (operations : List Operation) :
    let limit := min ((maximum.map UInt32.toNat).getD maxPages) maxPages
    let current := memory.after operations
    (pageSize ∣ current.size ∧ current.pages.toUInt32.toNat * pageSize = current.size ∧
      current.pages ≤ limit ∧ ∀ further, current.pages ≤ (current.after further).pages) ∧
    (∀ operation, (current.perform operation).1.isFailure = true →
      (current.perform operation).2 = current) ∧
    (∀ delta : UInt32,
      (current.perform (.grow delta)).1 =
          (if current.pages + delta.toNat ≤ limit then .grown current.pages.toUInt32
          else .refused) ∧
        (current.pages + delta.toNat ≤ limit → ∀ address,
          (current.perform (.grow delta)).2.bytes[address]? =
            if address < current.size then current.bytes[address]?
            else if address < current.size + delta.toNat * pageSize then some 0 else none)) ∧
    ∀ address, address < current.size →
      (∃ earlier last later byte, memory.performed operations = earlier ++ last :: later ∧
          Puts last.1 last.2 address byte ∧
          (∀ other ∈ later, ∀ byte, ¬Puts other.1 other.2 address byte) ∧
          current.bytes[address]? = some byte) ∨
        (∀ other ∈ memory.performed operations, ∀ byte, ¬Puts other.1 other.2 address byte) ∧
          current.bytes[address]? = some 0 := by
  intro limit current
  have grows := memory.grows_after operations
  have whole : current.Whole := grows.whole (whole_create creates)
  have limited : current.maximum = limit := by
    rw [grows.maximum, (create_eq_ok creates).2]
  have counted := whole.toNat_pages (limited ▸ Nat.min_le_right _ _)
  refine ⟨⟨whole.pages, ?_, ?_, fun further => ?_⟩, fun operation => perform_failed,
    fun delta => ?_, fun address there => ?_⟩
  -- The pages: they are counted, within the limit and never fewer.
  · rw [counted, whole.pages_mul]
  · rw [← limited]
    exact whole.pages_le
  · exact Nat.div_le_div_right (current.grows_after further).size
  -- Pages that are asked for are added or refused as a whole.
  · rw [← limited]
    rcases current.perform_grow delta with ⟨fits, grown⟩ | ⟨exceeds, refused⟩
    · rw [grown, if_pos fits]
      exact ⟨rfl, fun _ => current.getElem?_extend delta.toNat⟩
    · rw [refused, if_neg (Nat.not_le_of_lt exceeds)]
      exact ⟨rfl, fun fits => absurd fits (Nat.not_le_of_lt exceeds)⟩
  -- A byte is the last one put there, or one of the memory that was created.
  · have holds : current.bytes[address]? = some (current.byteAt address) := by
      rw [byteAt, Array.getElem?_eq_getElem there]
      rfl
    rcases memory.byteAt_after operations address with
      ⟨earlier, last, later, split, puts, silent⟩ | ⟨silent, same⟩
    · exact .inl ⟨earlier, last, later, _, split, puts, silent, holds⟩
    · exact .inr ⟨silent, by rw [holds, same, byteAt_create creates]⟩

/-- A page is added, and a byte is written in it. -/
def pageAndByte : List Operation :=
  [.grow 1, .write 65536 [7]]

/-- A memory of one page that may have two does not have three, and stays as it is where the number
of pages asked for would wrap around to a smaller one. -/
theorem histories_determine_two_pages :
    create 1 (some 2) = .ok ⟨Array.replicate (1 * pageSize) 0, 2⟩ ∧
      (after ⟨Array.replicate (1 * pageSize) 0, 2⟩ pageAndByte).pages ≤ 2 ∧
      (after ⟨Array.replicate (1 * pageSize) 0, 2⟩ pageAndByte).perform (.grow 0xffffffff) =
        (.refused, after ⟨Array.replicate (1 * pageSize) 0, 2⟩ pageAndByte) := by
  have creates : create (1 : UInt32).toNat ((some 2 : Option UInt32).map UInt32.toNat) =
      .ok ⟨Array.replicate (1 * pageSize) 0, 2⟩ := rfl
  obtain ⟨⟨-, -, most, -⟩, failures, grows, -⟩ := histories_determine creates pageAndByte
  -- The memory is named, since it would be written out byte by byte where it is unfolded.
  generalize after ⟨Array.replicate (1 * pageSize) 0, 2⟩ pageAndByte = current at *
  have exceeds (pages : Nat) : ¬pages + (0xffffffff : UInt32).toNat ≤ 2 :=
    Nat.not_le_of_lt (Nat.lt_of_lt_of_le (by decide) (Nat.le_add_left _ pages))
  have refused := (grows 0xffffffff).1.trans (if_neg (exceeds _))
  have kept := failures (.grow 0xffffffff) (by rw [refused]; rfl)
  exact ⟨creates, most, Prod.ext refused kept⟩

end Machine.Memory

end WasmCompiler
