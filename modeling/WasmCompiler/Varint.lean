/-! # Variable-length integers

LEB128 integers of a declared width: seven bits to a byte, lowest first, in at most as many bytes
as the width needs. Reading reports how many bytes it used whether or not it succeeds; writing takes
a word of 64 bits and reports how many bytes it has written. -/

namespace WasmCompiler.Varint

/-- Why no integer of the declared width could be read. -/
inductive Error where
  /-- No byte within the budget of the width ended the integer. -/
  | unterminated (bits : Nat)
  /-- The integer ended but lies outside the width, or there is no such width. -/
  | overflow (bits : Nat)
  /-- The input ended inside the integer. -/
  | endOfInput
  deriving DecidableEq

/-- The sentence shown for an error. -/
def Error.message : Error → String
  | .unterminated bits => s!"varint{bits} did not terminate within its byte budget"
  | .overflow bits => s!"LEB128 value does not fit in {bits} bits"
  | .endOfInput => "failed to fill whole buffer"

/-- The outcome of reading an integer, with the number of bytes used up to it. -/
structure Reading (α : Type) where
  /-- Bytes taken from the front of the input, also when reading fails. -/
  consumed : Nat
  /-- The integer, or why there is none. -/
  result : Except Error α

/-- The number of bytes that an integer of `bits` bits may occupy. -/
def maxBytes (bits : Nat) : Nat :=
  (bits + 6) / 7

/-! ## Words

Integers are put together in words. A word has no shift by as many places as it has or more, and
numbers of places have no difference below zero. -/

/-- A word shifted toward its high end. -/
def shiftLeft? {width : Nat} (word : BitVec width) (distance : Nat) : Option (BitVec width) :=
  if distance < width then some (word <<< distance) else none

/-- A word shifted toward its low end; zeros come in. -/
def shiftRight? {width : Nat} (word : BitVec width) (distance : Nat) : Option (BitVec width) :=
  if distance < width then some (word >>> distance) else none

/-- A word shifted toward its low end; copies of its sign come in. -/
def signedShiftRight? {width : Nat} (word : BitVec width) (distance : Nat) :
    Option (BitVec width) :=
  if distance < width then some (word.sshiftRight distance) else none

/-- What is left of a number of places. -/
def subtract? (places used : Nat) : Option Nat :=
  if used ≤ places then some (places - used) else none

/-! ## Groups -/

/-- The group of a byte: its seven low bits. -/
def group (byte : UInt8) : BitVec 8 :=
  byte.toBitVec &&& 0x7f

/-- The groups of an integer, before any check of its width. -/
structure Groups where
  /-- The word that the groups form, without the bits that lie above it. -/
  word : BitVec 64
  /-- The number of places that the groups take. -/
  places : Nat
  /-- The highest group. -/
  last : BitVec 8

/-- Reads groups up to the first byte below 128, within a budget of bytes, after those that form a
word in a number of places; none if a shift leaves its word. -/
def readGroups? (bits : Nat) : (budget places : Nat) → (word : BitVec 64) →
    (bytes : List UInt8) → Option (Reading Groups)
  | 0, _, _, _ => some ⟨0, .error (.unterminated bits)⟩
  | _ + 1, _, _, [] => some ⟨0, .error .endOfInput⟩
  | budget + 1, places, word, byte :: rest => do
      let shifted ← shiftLeft? ((group byte).setWidth 64) places
      if byte &&& 0x80 = 0 then
        return ⟨1, .ok ⟨word ||| shifted, places + 7, group byte⟩⟩
      let later ← readGroups? bits budget (places + 7) (word ||| shifted) rest
      return ⟨later.consumed + 1, later.result⟩

/-- How many bits of the last group lie inside the width. -/
def usedBits? (bits places : Nat) : Option Nat := do
  return min (← subtract? (bits + 7) places) 7

/-- The unsigned integer of groups, which leave the bits above the width clear. -/
def Groups.unsigned? (groups : Groups) (bits : Nat) : Option (Except Error Nat) := do
  let used ← usedBits? bits groups.places
  let outside ← shiftRight? groups.last used
  return if outside = 0 then .ok groups.word.toNat else .error (.overflow bits)

/-- The signed integer of groups, which repeat the sign in the bits above the width. -/
def Groups.signed? (groups : Groups) (bits : Nat) : Option (Except Error Int) := do
  let used ← usedBits? bits groups.places
  let below ← subtract? used 1
  let high ← shiftRight? groups.last below
  let ones ← shiftRight? 0x7f#8 below
  if high ≠ 0 ∧ high ≠ ones then return .error (.overflow bits)
  let filled ←
    if groups.places < bits ∧ groups.last &&& 0x40 ≠ 0 then
      (groups.word ||| ·) <$> shiftLeft? (BitVec.allOnes 64) groups.places
    else some groups.word
  if bits < 64 then
    let unused ← subtract? 64 bits
    let raised ← shiftLeft? filled unused
    let integer ← signedShiftRight? raised unused
    return .ok integer.toInt
  return .ok filled.toInt

/-! ## Reading -/

/-- The widths for which integers exist. -/
def IsWidth (bits : Nat) : Prop :=
  1 ≤ bits ∧ bits ≤ 64

instance (bits : Nat) : Decidable (IsWidth bits) :=
  inferInstanceAs (Decidable (_ ∧ _))

/-- Reads the groups of an integer of `bits` bits and makes a value of them; none if the arithmetic
of a step leaves its words. -/
def read? {α : Type} (bits : Nat) (value? : Groups → Option (Except Error α))
    (bytes : List UInt8) : Option (Reading α) :=
  if IsWidth bits then do
    let reading ← readGroups? bits (maxBytes bits) 0 0 bytes
    match reading.result with
    | .ok groups => return ⟨reading.consumed, ← value? groups⟩
    | .error error => return ⟨reading.consumed, .error error⟩
  else some ⟨0, .error (.overflow bits)⟩

/-- Reads an unsigned integer of `bits` bits; none if the arithmetic leaves its words. -/
def unsigned? (bits : Nat) (bytes : List UInt8) : Option (Reading Nat) :=
  read? bits (·.unsigned? bits) bytes

/-- Reads a signed integer of `bits` bits; none if the arithmetic leaves its words. -/
def signed? (bits : Nat) (bytes : List UInt8) : Option (Reading Int) :=
  read? bits (·.signed? bits) bytes

/-! ### Reading stays in its words -/

/-- As long as the budget keeps to the places of a word, groups are read without leaving it, and
they keep to the budget. -/
theorem exists_readGroups? (bits budget places : Nat) (word : BitVec 64) (bytes : List UInt8)
    (room : places + 7 * budget ≤ 70) :
    ∃ reading, readGroups? bits budget places word bytes = some reading ∧
      ∀ groups, reading.result = .ok groups → groups.places ≤ places + 7 * budget := by
  induction budget generalizing places word bytes with
  | zero => exact ⟨_, rfl, fun groups equation => by cases equation⟩
  | succ budget budgetInduction =>
      cases bytes with
      | nil => exact ⟨_, rfl, fun groups equation => by cases equation⟩
      | cons byte rest =>
          have near : places < 64 := by omega
          obtain ⟨later, laterEquation, within⟩ := budgetInduction (places + 7)
            (word ||| (group byte).setWidth 64 <<< places) rest (by omega)
          by_cases final : byte &&& 0x80 = 0
          · refine ⟨_, by simp only [readGroups?, shiftLeft?, if_pos near, if_pos final]; rfl, ?_⟩
            intro groups equation
            cases equation
            show places + 7 ≤ places + 7 * (budget + 1)
            omega
          · refine ⟨_, by simp only [readGroups?, shiftLeft?, if_pos near, if_neg final,
              Option.bind_eq_bind, Option.bind_some, laterEquation]; rfl, ?_⟩
            intro groups equation
            have bound := within groups equation
            omega

/-- Groups within the budget of a width have a last group that reaches into the width. -/
theorem usedBits?_eq {bits places : Nat} (bound : places ≤ bits + 6) :
    usedBits? bits places = some (min (bits + 7 - places) 7) := by
  have enough : places ≤ bits + 7 := by omega
  simp only [usedBits?, subtract?, if_pos enough]
  rfl

/-- The unsigned integer of groups within the budget of the width, or that they are refused. -/
theorem Groups.unsigned?_eq {groups : Groups} {bits : Nat} (bound : groups.places ≤ bits + 6) :
    groups.unsigned? bits =
      some (if groups.last >>> min (bits + 7 - groups.places) 7 = 0 then .ok groups.word.toNat
        else .error (.overflow bits)) := by
  have inside : min (bits + 7 - groups.places) 7 < 8 := by omega
  simp only [unsigned?, usedBits?_eq bound, shiftRight?, if_pos inside, Option.bind_eq_bind,
    Option.bind_some]
  rfl

/-- The word of groups with the sign in the places above them, as far as the width reaches. -/
def Groups.filled (groups : Groups) (bits : Nat) : BitVec 64 :=
  if groups.places < bits ∧ groups.last &&& 0x40 ≠ 0 then
    groups.word ||| BitVec.allOnes 64 <<< groups.places
  else groups.word

/-- The signed integer of groups within the budget of the width, or that they are refused. -/
theorem Groups.signed?_eq {groups : Groups} {bits : Nat} (width : IsWidth bits)
    (bound : groups.places ≤ bits + 6) :
    groups.signed? bits =
      let below := min (bits + 7 - groups.places) 7 - 1
      some (if groups.last >>> below ≠ 0 ∧ groups.last >>> below ≠ 0x7f#8 >>> below then
          .error (.overflow bits)
        else if bits < 64 then
          .ok ((groups.filled bits <<< (64 - bits)).sshiftRight (64 - bits)).toInt
        else .ok (groups.filled bits).toInt) := by
  obtain ⟨least, greatest⟩ := width
  have positive : 1 ≤ min (bits + 7 - groups.places) 7 := by omega
  have inside : min (bits + 7 - groups.places) 7 - 1 < 8 := by omega
  have unused : 64 - bits < 64 := by omega
  unfold signed? filled
  simp only [usedBits?_eq bound, subtract?, shiftRight?, if_pos positive, if_pos inside,
    if_pos greatest, Option.bind_eq_bind, Option.bind_some]
  split
  · rfl
  · by_cases extended : groups.places < bits ∧ groups.last &&& 0x40 ≠ 0
    · have near : groups.places < 64 := by omega
      simp only [if_pos extended, shiftLeft?, if_pos near, if_pos unused, signedShiftRight?,
        Option.map_eq_map, Option.map_some, Option.bind_some]
      split <;> rfl
    · simp only [if_neg extended, shiftLeft?, if_pos unused, signedShiftRight?, Option.bind_some]
      split <;> rfl

/-- **Reading never leaves its words** if making a value of groups within the budget does not. -/
theorem isSome_read? {α : Type} {bits : Nat} {value? : Groups → Option (Except Error α)}
    (each : IsWidth bits → ∀ groups : Groups, groups.places ≤ bits + 6 → (value? groups).isSome)
    (bytes : List UInt8) : (read? bits value? bytes).isSome := by
  unfold read?
  split
  · next width =>
      have room : 0 + 7 * maxBytes bits ≤ 70 := by
        have := width.2
        unfold maxBytes
        omega
      obtain ⟨reading, equation, within⟩ :=
        exists_readGroups? bits (maxBytes bits) 0 0 bytes room
      simp only [equation, Option.bind_eq_bind, Option.bind_some]
      split
      · next groups result =>
          have bound : groups.places ≤ bits + 6 := by
            have := within groups result
            unfold maxBytes at this
            omega
          obtain ⟨value, valueEquation⟩ := Option.isSome_iff_exists.mp (each width groups bound)
          rw [valueEquation]
          rfl
      · rfl
  · rfl

/-- Reading an unsigned integer never leaves its words. -/
theorem isSome_unsigned? (bits : Nat) (bytes : List UInt8) : (unsigned? bits bytes).isSome := by
  refine isSome_read? (fun width groups bound => ?_) bytes
  rw [Groups.unsigned?_eq bound]
  rfl

/-- Reading a signed integer never leaves its words: there is at least one bit to carry the sign. -/
theorem isSome_signed? (bits : Nat) (bytes : List UInt8) : (signed? bits bytes).isSome := by
  refine isSome_read? (fun width groups bound => ?_) bytes
  rw [Groups.signed?_eq width bound]
  rfl

/-- Reads an unsigned integer of `bits` bits from the front of `bytes`. -/
def readUnsigned (bits : Nat) (bytes : List UInt8) : Reading Nat :=
  (unsigned? bits bytes).get (isSome_unsigned? bits bytes)

/-- Reads a signed integer of `bits` bits from the front of `bytes`. -/
def readSigned (bits : Nat) (bytes : List UInt8) : Reading Int :=
  (signed? bits bytes).get (isSome_signed? bits bytes)

/-! ## Writing -/

/-- What has been written. -/
structure Writing where
  /-- The bytes. -/
  bytes : List UInt8 := []
  /-- The count of the bytes that the writer keeps. -/
  written : Nat := 0

/-- Writes a byte and counts it. -/
def Writing.push (writing : Writing) (byte : BitVec 8) : Writing :=
  ⟨writing.bytes ++ [.ofBitVec byte], writing.written + 1⟩

/-- The group of the lowest byte of a word. -/
def lowGroup (word : BitVec 64) : BitVec 8 :=
  group (.ofBitVec (word.setWidth 8))

/-- A shift by the places of a group is a division. -/
theorem toNat_rest (word : BitVec 64) : (word >>> 7).toNat = word.toNat / 128 := by
  rw [BitVec.toNat_ushiftRight, Nat.shiftRight_eq_div_pow]

/-- A shift that repeats the sign is a division toward the lesser integer. -/
theorem toInt_rest (word : BitVec 64) : (word.sshiftRight 7).toInt = word.toInt / 128 := by
  rw [BitVec.toInt_sshiftRight, Int.shiftRight_eq_div_pow]
  rfl

/-- Writes the groups of a word, lowest first, until the rest of the word is zero. A group that
others follow is written with bit 7 set. -/
def pushUnsigned (word : BitVec 64) (writing : Writing) : Writing :=
  let rest := word >>> 7
  if rest = 0 then writing.push (lowGroup word)
  else pushUnsigned rest (writing.push (lowGroup word ||| 0x80))
termination_by word.toNat
decreasing_by
  rename_i more
  have shifted := toNat_rest word
  have left : (word >>> 7).toNat ≠ 0 := fun zero => more (BitVec.eq_of_toNat_eq zero)
  show (word >>> 7).toNat < word.toNat
  omega

/-- Whether a group is the last one of a signed integer: the rest of the word repeats its sign. -/
def endsSigned (group : BitVec 8) (rest : BitVec 64) : Bool :=
  (rest == 0 && group &&& 0x40 == 0) || (rest == -1 && group &&& 0x40 != 0)

/-- Writes the groups of a word in two's complement, lowest first, until the rest of the word is but
the sign of the group. A group that others follow is written with bit 7 set. -/
def pushSigned (word : BitVec 64) (writing : Writing) : Writing :=
  let rest := word.sshiftRight 7
  if endsSigned (lowGroup word) rest then writing.push (lowGroup word)
  else pushSigned rest (writing.push (lowGroup word ||| 0x80))
termination_by word.toInt.natAbs
decreasing_by
  rename_i more
  have more : ¬endsSigned (lowGroup word) (word.sshiftRight 7) = true := more
  have shifted := toInt_rest word
  have notZero : word.toInt ≠ 0 := fun zero => by
    rw [show word = 0 from BitVec.eq_of_toInt_eq zero] at more
    exact more (by decide)
  have notOnes : word.toInt ≠ -1 := fun ones => by
    rw [show word = -1 from BitVec.eq_of_toInt_eq ones] at more
    exact more (by decide)
  show (word.sshiftRight 7).toInt.natAbs < word.toInt.natAbs
  omega

/-- Writes an unsigned integer. -/
def writeUnsigned (value : BitVec 64) : Writing :=
  pushUnsigned value {}

/-- Writes a signed integer. -/
def writeSigned (value : BitVec 64) : Writing :=
  pushSigned value {}

end WasmCompiler.Varint
