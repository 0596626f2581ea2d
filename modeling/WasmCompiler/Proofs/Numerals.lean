import Mathlib.Algebra.BigOperators.Fin
import Mathlib.Algebra.Order.Floor.Div
import Mathlib.Data.Nat.Bitwise
import Mathlib.GroupTheory.GroupAction.Ring
import Mathlib.Tactic.IntervalCases
import Mathlib.Tactic.Linarith
import Mathlib.Tactic.NormNum
import Mathlib.Tactic.Positivity
import Mathlib.Tactic.Ring
import WasmCompiler.Varint

/-! # Numerals

A numeral is the run of bytes that spells one integer: bit 7 is set in every byte but the last. The
seven low bits of its bytes are the digits of a number to the base 128, lowest first; read in two's
complement, the highest bit of the last digit counts negatively.

* **`number`**, **`signedNumber`** — the two numbers that a numeral spells, without any bound;
* **`readGroups?_numeral`** — the groups that are read of a numeral form its number;
* **`reads_exactly`** — reading at a width gives the number exactly if it fits, and the arithmetic
  of reading stays within its words. -/

namespace WasmCompiler.Varint

/-- Whether bytes are one numeral: bit 7 is set in all of them but the last. -/
inductive IsNumeral : List UInt8 → Prop
  /-- The last byte. -/
  | last (byte : UInt8) (clear : byte.toNat.testBit 7 = false) : IsNumeral [byte]
  /-- A byte in front of others. -/
  | more (byte : UInt8) (set : byte.toNat.testBit 7 = true) {bytes : List UInt8}
      (later : IsNumeral bytes) : IsNumeral (byte :: bytes)

/-- The number whose digits are the seven low bits of each byte. -/
def number (bytes : List UInt8) : Nat :=
  ∑ i : Fin bytes.length, (bytes[i] &&& 0x7f).toNat * 2 ^ (7 * i.val)

/-- The number in two's complement whose digits are the seven low bits of each byte. -/
def signedNumber (bytes : List UInt8) : Int :=
  if (bytes.getLastD 0).toNat.testBit 6 then number bytes - 2 ^ (7 * bytes.length)
  else number bytes

/-! ## Digits -/

/-- The seven low bits of a byte are its remainder by 128. -/
theorem toNat_and_low (byte : UInt8) : (byte &&& 0x7f).toNat = byte.toNat % 128 := by
  rw [UInt8.toNat_and]
  exact Nat.and_two_pow_sub_one_eq_mod byte.toNat 7

/-- The group of a byte is its low seven bits. -/
@[simp] theorem toNat_group (byte : UInt8) : (group byte).toNat = byte.toNat % 128 := by
  rw [← toNat_and_low]
  rfl

/-- The high bit of a byte says whether it is at least 128. -/
theorem testBit_seven (byte : UInt8) : byte.toNat.testBit 7 = decide (128 ≤ byte.toNat) := by
  have bound := byte.toNat_lt
  rw [Nat.testBit_eq_decide_div_mod_eq, decide_eq_decide]
  omega

/-- The sign bit of its group says whether the group is at least 64. -/
theorem testBit_six (byte : UInt8) :
    byte.toNat.testBit 6 = decide (64 ≤ byte.toNat % 128) := by
  rw [Nat.testBit_eq_decide_div_mod_eq, decide_eq_decide]
  omega

/-- A byte ends an integer if bit 7 is clear. -/
theorem and_high_eq_zero_iff (byte : UInt8) :
    byte &&& 0x80 = 0 ↔ byte.toNat.testBit 7 = false := by
  rw [← UInt8.toNat_inj, UInt8.toNat_and]
  have high : byte.toNat &&& 2 ^ 7 = (byte.toNat.testBit 7).toNat * 2 ^ 7 := Nat.and_two_pow ..
  show byte.toNat &&& 2 ^ 7 = 0 ↔ _
  rw [high]
  cases byte.toNat.testBit 7 <;> simp

/-- A group is negative if bit 6 is set. -/
theorem and_sign_ne_zero_iff (byte : UInt8) :
    group byte &&& 0x40 ≠ 0 ↔ byte.toNat.testBit 6 = true := by
  have sign : byte.toNat % 128 &&& 2 ^ 6 = ((byte.toNat % 128).testBit 6).toNat * 2 ^ 6 :=
    Nat.and_two_pow ..
  have low : (byte.toNat % 128).testBit 6 = byte.toNat.testBit 6 := by
    rw [show 128 = 2 ^ 7 from rfl, Nat.testBit_mod_two_pow]
    simp
  rw [ne_eq, ← BitVec.toNat_inj, BitVec.toNat_and, toNat_group]
  show ¬byte.toNat % 128 &&& 2 ^ 6 = 0 ↔ _
  rw [sign, low]
  cases byte.toNat.testBit 6 <;> simp

/-! ## Numbers -/

/-- The number of no bytes is zero. -/
@[simp] theorem number_nil : number [] = 0 := rfl

/-- The first byte is the lowest digit. -/
theorem number_cons (byte : UInt8) (bytes : List UInt8) :
    number (byte :: bytes) = byte.toNat % 128 + 128 * number bytes := by
  refine (Fin.sum_univ_succ _).trans ?_
  rw [number, Finset.mul_sum]
  refine congrArg₂ (· + ·) ?_ (Finset.sum_congr rfl fun i _ => ?_)
  · show (byte &&& 0x7f).toNat * 2 ^ (7 * 0) = byte.toNat % 128
    rw [toNat_and_low, Nat.mul_zero, pow_zero, Nat.mul_one]
  · show (bytes[i] &&& 0x7f).toNat * 2 ^ (7 * (i.val + 1)) = _
    ring

/-- A number has no more digits than there are bytes. -/
theorem number_lt (bytes : List UInt8) : number bytes < 2 ^ (7 * bytes.length) := by
  induction bytes with
  | nil => exact Nat.one_pos
  | cons byte bytes bytesInduction =>
      have digit : byte.toNat % 128 < 128 := Nat.mod_lt _ (by decide)
      have power : 2 ^ (7 * (bytes.length + 1)) = 128 * 2 ^ (7 * bytes.length) := by ring
      rw [number_cons, List.length_cons, power]
      omega

/-- Below the last digit of a numeral stand digits with one byte less. -/
theorem IsNumeral.exists_low {bytes : List UInt8} (numeral : IsNumeral bytes) :
    ∃ (count low : Nat), bytes.length = count + 1 ∧ (bytes.getLastD 0).toNat < 128 ∧
      low < 2 ^ (7 * count) ∧
      number bytes = low + 2 ^ (7 * count) * (bytes.getLastD 0).toNat := by
  -- The low digits are those of all bytes but the last one.
  induction numeral with
  | last byte clear =>
      have small : byte.toNat < 128 := by simpa [testBit_seven] using clear
      refine ⟨0, 0, rfl, small, Nat.one_pos, ?_⟩
      simp [number_cons, Nat.mod_eq_of_lt small]
  | more byte set later laterInduction =>
      rename_i bytes
      obtain ⟨count, low, length, small, lowBound, equation⟩ := laterInduction
      have nonempty : bytes ≠ [] := by
        rintro rfl
        cases length
      have last : (byte :: bytes).getLastD 0 = bytes.getLastD 0 := by
        cases bytes with
        | nil => exact absurd rfl nonempty
        | cons head tail => rfl
      have digit : byte.toNat % 128 < 128 := Nat.mod_lt _ (by decide)
      have power : 2 ^ (7 * (count + 1)) = 128 * 2 ^ (7 * count) := by ring
      refine ⟨count + 1, byte.toNat % 128 + 128 * low, ?_, ?_, ?_, ?_⟩
      · rw [List.length_cons, length]
      · rw [last]
        exact small
      · rw [power]
        omega
      · rw [number_cons, equation, last, power]
        ring

/-- **Within a budget of bytes** an integer ends, or the budget is used up, or the bytes are. -/
theorem numeral_cases (budget : Nat) (bytes : List UInt8) :
    (∃ numeral rest, bytes = numeral ++ rest ∧ IsNumeral numeral ∧ numeral.length ≤ budget) ∨
      (∃ front rest, bytes = front ++ rest ∧ (∀ byte ∈ front, byte.toNat.testBit 7 = true) ∧
        front.length = budget) ∨
      ((∀ byte ∈ bytes, byte.toNat.testBit 7 = true) ∧ bytes.length < budget) := by
  induction budget generalizing bytes with
  | zero => exact .inr (.inl ⟨[], bytes, rfl, List.forall_mem_nil _, rfl⟩)
  | succ budget budgetInduction =>
      cases bytes with
      | nil => exact .inr (.inr ⟨List.forall_mem_nil _, Nat.succ_pos budget⟩)
      | cons byte bytes =>
          by_cases clear : byte.toNat.testBit 7 = false
          · exact .inl ⟨[byte], bytes, rfl, .last byte clear, Nat.succ_pos budget⟩
          · have set : byte.toNat.testBit 7 = true := by simpa using clear
            rcases budgetInduction bytes with ⟨numeral, rest, rfl, later, short⟩ |
              ⟨front, rest, rfl, others, length⟩ | ⟨others, short⟩
            · exact .inl ⟨byte :: numeral, rest, rfl, .more byte set later, Nat.succ_le_succ short⟩
            · exact .inr (.inl ⟨byte :: front, rest, rfl, List.forall_mem_cons.mpr ⟨set, others⟩,
                congrArg Nat.succ length⟩)
            · exact .inr (.inr ⟨List.forall_mem_cons.mpr ⟨set, others⟩, Nat.succ_lt_succ short⟩)

/-! ## Reading groups -/

/-- A group above the digits of a word makes it the word of one more digit, as far as the word
reaches. -/
theorem ofNat_or_shiftLeft {value places : Nat} (byte : UInt8) (low : value < 2 ^ places) :
    BitVec.ofNat 64 value ||| (group byte).setWidth 64 <<< places =
      BitVec.ofNat 64 (value + 2 ^ places * (byte.toNat % 128)) := by
  apply BitVec.eq_of_getLsbD_eq
  intro i inside
  rw [Nat.add_comm value]
  simp only [BitVec.getLsbD_or, BitVec.getLsbD_ofNat, BitVec.getLsbD_shiftLeft, inside,
    BitVec.getLsbD_setWidth, Nat.testBit_two_pow_mul_add _ low, decide_true, Bool.true_and]
  by_cases below : i < places
  · simp [below]
  · have far : value.testBit i = false :=
      Nat.testBit_lt_two_pow (low.trans_le (Nat.pow_le_pow_right two_pos (Nat.le_of_not_lt below)))
    have within : i - places < 64 := by omega
    simp only [below, far, within, decide_true, decide_false, Bool.false_or, Bool.not_false,
      Bool.true_and, if_false]
    rw [BitVec.getLsbD, toNat_group]

/-- **The groups of a numeral** within the budget form its number above the digits read before. -/
theorem readGroups?_numeral (bits : Nat) {numeral : List UInt8} (isNumeral : IsNumeral numeral)
    {budget places : Nat} (value : Nat) (rest : List UInt8) (short : numeral.length ≤ budget)
    (room : places + 7 * budget ≤ 70) (low : value < 2 ^ places) :
    readGroups? bits budget places (BitVec.ofNat 64 value) (numeral ++ rest) =
      some ⟨numeral.length, .ok
        ⟨BitVec.ofNat 64 (value + 2 ^ places * number numeral), places + 7 * numeral.length,
          group (numeral.getLastD 0)⟩⟩ := by
  -- What was read so far lies below the place where the next digit goes, so no digits overlap.
  induction isNumeral generalizing budget places value with
  | last byte clear =>
      obtain ⟨budget, rfl⟩ : ∃ fewer, budget = fewer + 1 := ⟨budget - 1, by
        rw [List.length_singleton] at short
        omega⟩
      have near : places < 64 := by omega
      have final := (and_high_eq_zero_iff byte).mpr clear
      simp only [List.cons_append, List.nil_append, readGroups?, shiftLeft?, if_pos near,
        if_pos final, Option.bind_eq_bind, Option.bind_some, ofNat_or_shiftLeft byte low,
        number_cons, number_nil, Nat.mul_zero, Nat.add_zero]
      rfl
  | more byte set later laterInduction =>
      rename_i bytes
      obtain ⟨budget, rfl⟩ : ∃ fewer, budget = fewer + 1 := ⟨budget - 1, by
        rw [List.length_cons] at short
        omega⟩
      have near : places < 64 := by omega
      have onward : ¬byte &&& 0x80 = 0 := by simp [and_high_eq_zero_iff, set]
      have digit : byte.toNat % 128 < 128 := Nat.mod_lt _ (by decide)
      have power : 2 ^ (places + 7) = 2 ^ places * 128 := by ring
      have lowAfter : value + 2 ^ places * (byte.toNat % 128) < 2 ^ (places + 7) := by
        have product : 2 ^ places * (byte.toNat % 128 + 1) ≤ 2 ^ places * 128 :=
          Nat.mul_le_mul_left _ digit
        rw [power]
        rw [Nat.mul_add, Nat.mul_one] at product
        omega
      have shortAfter : bytes.length ≤ budget := Nat.le_of_succ_le_succ short
      have reading := laterInduction _ shortAfter (by omega) lowAfter
      have last : (byte :: bytes).getLastD 0 = bytes.getLastD 0 := by
        cases later <;> rfl
      have total : value + 2 ^ places * (byte.toNat % 128) + 2 ^ (places + 7) * number bytes =
          value + 2 ^ places * number (byte :: bytes) := by
        rw [number_cons, power]
        ring
      have length : places + 7 + 7 * bytes.length = places + 7 * (byte :: bytes).length := by
        rw [List.length_cons]
        ring
      simp only [List.cons_append, readGroups?, shiftLeft?, if_pos near, if_neg onward,
        Option.bind_eq_bind, Option.bind_some, ofNat_or_shiftLeft byte low, reading, total, length,
        last]
      rfl

/-- Bytes that end no integer use up the budget, or the input. -/
theorem readGroups?_unended (bits budget places : Nat) {front : List UInt8} (word : BitVec 64)
    (set : ∀ byte ∈ front, byte.toNat.testBit 7 = true) (room : places + 7 * budget ≤ 70) :
    (budget ≤ front.length → ∀ rest, readGroups? bits budget places word (front ++ rest) =
      some ⟨budget, .error (.unterminated bits)⟩) ∧
    (front.length < budget → readGroups? bits budget places word front =
      some ⟨front.length, .error .endOfInput⟩) := by
  induction front generalizing budget places word with
  | nil =>
      cases budget with
      | zero => exact ⟨fun _ _ => rfl, fun few => (Nat.not_lt_zero _ few).elim⟩
      | succ budget => exact ⟨fun enough => (Nat.not_succ_le_zero _ enough).elim, fun _ => rfl⟩
  | cons byte front frontInduction =>
      cases budget with
      | zero => exact ⟨fun _ _ => rfl, fun few => (Nat.not_lt_zero _ few).elim⟩
      | succ budget =>
          obtain ⟨first, others⟩ := List.forall_mem_cons.mp set
          have near : places < 64 := by omega
          have onward : ¬byte &&& 0x80 = 0 := by simp [and_high_eq_zero_iff, first]
          obtain ⟨long, short⟩ := frontInduction budget (places + 7)
            (word ||| (group byte).setWidth 64 <<< places) others (by omega)
          constructor
          · intro enough rest
            simp only [List.cons_append, readGroups?, shiftLeft?, if_pos near, if_neg onward,
              Option.bind_eq_bind, Option.bind_some, long (Nat.le_of_succ_le_succ enough) rest]
            rfl
          · intro few
            simp only [readGroups?, shiftLeft?, if_pos near, if_neg onward, Option.bind_eq_bind,
              Option.bind_some, short (Nat.lt_of_succ_lt_succ few)]
            rfl

/-! ## Integers of a width -/

/-- The budget of a width is the number of groups that it needs. -/
theorem maxBytes_eq_ceilDiv (bits : Nat) : maxBytes bits = bits ⌈/⌉ 7 := by
  rw [Nat.ceilDiv_eq_add_pred_div]
  rfl

/-- The budget of a width keeps groups within the places of a word. -/
theorem budget_places {bits : Nat} (width : IsWidth bits) : 0 + 7 * maxBytes bits ≤ 70 := by
  have greatest := width.2
  unfold maxBytes
  omega

/-- The groups of a numeral. -/
def groupsOf (numeral : List UInt8) : Groups :=
  ⟨BitVec.ofNat 64 (number numeral), 7 * numeral.length, group (numeral.getLastD 0)⟩

/-- Reading a numeral within the budget makes a value of its groups. -/
theorem read?_numeral {α : Type} {bits : Nat} (width : IsWidth bits)
    (value? : Groups → Option (Except Error α)) {numeral : List UInt8}
    (isNumeral : IsNumeral numeral) (short : numeral.length ≤ maxBytes bits)
    (rest : List UInt8) {result : Except Error α}
    (value : value? (groupsOf numeral) = some result) :
    read? bits value? (numeral ++ rest) = some ⟨numeral.length, result⟩ := by
  have groups := readGroups?_numeral bits isNumeral 0 rest short (budget_places width) Nat.one_pos
  simp only [pow_zero, Nat.one_mul, Nat.zero_add] at groups
  have start : (0 : BitVec 64) = BitVec.ofNat 64 0 := rfl
  simp only [read?, if_pos width, start, groups, Option.bind_eq_bind, Option.bind_some]
  rw [groupsOf] at value
  rw [value]
  rfl

/-- Reading bytes that end no integer fails once the budget is used up. -/
theorem read?_unterminated {α : Type} {bits : Nat} (width : IsWidth bits)
    (value? : Groups → Option (Except Error α)) {front : List UInt8}
    (set : ∀ byte ∈ front, byte.toNat.testBit 7 = true) (long : maxBytes bits ≤ front.length)
    (rest : List UInt8) :
    read? bits value? (front ++ rest) = some ⟨maxBytes bits, .error (.unterminated bits)⟩ := by
  have groups := (readGroups?_unended bits _ 0 0 set (budget_places width)).1 long rest
  simp only [read?, if_pos width, groups, Option.bind_eq_bind, Option.bind_some]
  rfl

/-- Reading bytes that end no integer fails at the end of the input. -/
theorem read?_endOfInput {α : Type} {bits : Nat} (width : IsWidth bits)
    (value? : Groups → Option (Except Error α)) {bytes : List UInt8}
    (set : ∀ byte ∈ bytes, byte.toNat.testBit 7 = true) (short : bytes.length < maxBytes bits) :
    read? bits value? bytes = some ⟨bytes.length, .error .endOfInput⟩ := by
  have groups := (readGroups?_unended bits _ 0 0 set (budget_places width)).2 short
  simp only [read?, if_pos width, groups, Option.bind_eq_bind, Option.bind_some]
  rfl

/-- The last byte of a numeral is a group of its own. -/
theorem toNat_last_groupsOf {numeral : List UInt8} (isNumeral : IsNumeral numeral) :
    (groupsOf numeral).last.toNat = (numeral.getLastD 0).toNat := by
  obtain ⟨-, -, -, small, -⟩ := isNumeral.exists_low
  exact (toNat_group _).trans (Nat.mod_eq_of_lt small)

/-- A group shifted toward its low end is a quotient. -/
theorem ushiftRight_eq_iff (word : BitVec 8) (distance : Nat) (other : BitVec 8) :
    word >>> distance = other ↔ word.toNat / 2 ^ distance = other.toNat := by
  rw [← BitVec.toNat_inj, BitVec.toNat_ushiftRight, Nat.shiftRight_eq_div_pow]

/-- The places of a numeral within the budget. -/
theorem places_groupsOf_le {bits : Nat} {numeral : List UInt8}
    (short : numeral.length ≤ maxBytes bits) : (groupsOf numeral).places ≤ bits + 6 := by
  show 7 * numeral.length ≤ bits + 6
  unfold maxBytes at short
  omega

/-- **The unsigned integer of a numeral** within the budget is its number if that fits. -/
theorem unsigned?_groupsOf {bits : Nat} (width : IsWidth bits) {numeral : List UInt8}
    (isNumeral : IsNumeral numeral) (short : numeral.length ≤ maxBytes bits) :
    (groupsOf numeral).unsigned? bits =
      some (if number numeral < 2 ^ bits then .ok (number numeral)
        else .error (.overflow bits)) := by
  have bound := places_groupsOf_le short
  obtain ⟨count, low, length, small, lowBound, equation⟩ := isNumeral.exists_low
  obtain ⟨used, usedEquation⟩ : ∃ used, min (bits + 7 - (groupsOf numeral).places) 7 = used :=
    ⟨_, rfl⟩
  have usedBits : min (bits + 7 - 7 * (count + 1)) 7 = used := by rw [← length]; exact usedEquation
  -- The digits below the last one do not decide whether the number fits.
  have quotient : number numeral / 2 ^ (7 * count) = (numeral.getLastD 0).toNat := by
    rw [equation, Nat.add_mul_div_left _ _ (Nat.two_pow_pos _), Nat.div_eq_of_lt lowBound,
      Nat.zero_add]
  have outside : (groupsOf numeral).last >>> used = 0 ↔
      number numeral < 2 ^ (7 * count + used) := by
    rw [ushiftRight_eq_iff, toNat_last_groupsOf isNumeral, ← quotient]
    show _ / _ / 2 ^ used = 0 ↔ _
    rw [Nat.div_div_eq_div_mul, ← pow_add, Nat.div_eq_zero_iff_lt (Nat.two_pow_pos _)]
  have fits : number numeral < 2 ^ (7 * count + used) ↔ number numeral < 2 ^ bits := by
    by_cases narrow : 7 * (count + 1) ≤ bits
    · have whole : 7 * count + used = 7 * numeral.length := by omega
      have fit := number_lt numeral
      have power : 2 ^ (7 * numeral.length) ≤ 2 ^ bits :=
        Nat.pow_le_pow_right two_pos (length ▸ narrow)
      rw [whole]
      exact ⟨fun _ => fit.trans_le power, fun _ => fit⟩
    · have whole : 7 * count + used = bits := by
        have short := places_groupsOf_le short
        have : 7 * numeral.length ≤ bits + 6 := short
        omega
      rw [whole]
  rw [Groups.unsigned?_eq bound, usedEquation, if_congr (outside.trans fits) rfl rfl]
  by_cases fit : number numeral < 2 ^ bits
  · have power : 2 ^ bits ≤ 2 ^ 64 := Nat.pow_le_pow_right two_pos width.2
    have whole : (groupsOf numeral).word.toNat = number numeral :=
      (BitVec.toNat_ofNat ..).trans (Nat.mod_eq_of_lt (fit.trans_le power))
    rw [if_pos fit, if_pos fit, whole]
  · rw [if_neg fit, if_neg fit]

/-- Shifting an integer up to the end of its word and down again repeats its sign. -/
theorem toInt_sshiftRight_shiftLeft {bits : Nat} (width : IsWidth bits) (word : BitVec 64)
    {integer carry : Int} (congruent : (word.toNat : Int) = integer + 2 ^ bits * carry)
    (least : -2 ^ (bits - 1) ≤ integer) (greatest : integer < 2 ^ (bits - 1)) :
    ((word <<< (64 - bits)).sshiftRight (64 - bits)).toInt = integer := by
  obtain ⟨positive, narrow⟩ := width
  obtain ⟨unused, whole⟩ : ∃ unused, 64 - bits = unused := ⟨_, rfl⟩
  have word64 : (2 : Int) ^ bits * 2 ^ unused = 2 ^ 64 := by
    rw [← pow_add]
    congr 1
    omega
  have half : (2 : Int) ^ (bits - 1) * 2 ^ unused = 2 ^ 63 := by
    rw [← pow_add]
    congr 1
    omega
  have positivePower : (0 : Int) < 2 ^ unused := by positivity
  have raised : (integer + 2 ^ bits * carry) * 2 ^ unused =
      integer * 2 ^ unused + 2 ^ 64 * carry := by
    rw [← word64]
    ring
  have below : -2 ^ 63 ≤ integer * 2 ^ unused := by
    rw [← half, ← Int.neg_mul]
    exact Int.mul_le_mul_of_nonneg_right least positivePower.le
  have above : integer * 2 ^ unused < 2 ^ 63 := by
    rw [← half]
    exact Int.mul_lt_mul_of_pos_right greatest positivePower
  -- Shifted to the top of the word, whatever lies above the width falls out as a multiple of the
  -- modulus.
  have kept : (integer * 2 ^ unused + 2 ^ 64 * carry).bmod (2 ^ 64) = integer * 2 ^ unused := by
    refine (Int.add_mul_bmod_self_left _ (2 ^ 64) carry).trans (Int.bmod_eq_of_le ?_ ?_)
    · norm_num at below ⊢
      exact below
    · norm_num at above ⊢
      exact above
  rw [whole, BitVec.toInt_sshiftRight, BitVec.toInt_shiftLeft, Int.shiftRight_eq_div_pow,
    Nat.shiftLeft_eq, Nat.cast_mul, congruent, Nat.cast_pow, Nat.cast_ofNat, raised, kept]
  exact Int.mul_ediv_cancel _ positivePower.ne'

/-- The two numbers of a numeral differ by the places that it takes if bit 6 is set in the last
byte. -/
theorem signedNumber_eq {numeral : List UInt8} (isNumeral : IsNumeral numeral) :
    signedNumber numeral =
      if 64 ≤ (numeral.getLastD 0).toNat then (number numeral : Int) - 2 ^ (7 * numeral.length)
      else number numeral := by
  obtain ⟨-, -, -, small, -⟩ := isNumeral.exists_low
  rw [signedNumber, testBit_six, Nat.mod_eq_of_lt small]
  simp only [decide_eq_true_eq]

/-- A word with ones above its digits stands for a negative number. -/
theorem toNat_ofNat_or_allOnes {value places : Nat} (near : places < 64)
    (low : value < 2 ^ places) :
    ((BitVec.ofNat 64 value ||| BitVec.allOnes 64 <<< places).toNat : Int) =
      value - 2 ^ places + 2 ^ 64 := by
  have power : 2 ^ places * 2 ^ (64 - places) = 2 ^ 64 := by
    rw [← pow_add]
    congr 1
    omega
  have most : 1 ≤ 2 ^ (64 - places) := Nat.one_le_two_pow
  -- The ones start where the value ends, so the union is a sum.
  have word : BitVec.ofNat 64 value ||| BitVec.allOnes 64 <<< places =
      BitVec.ofNat 64 (2 ^ places * (2 ^ (64 - places) - 1) + value) := by
    apply BitVec.eq_of_getLsbD_eq
    intro i inside
    simp only [BitVec.getLsbD_or, BitVec.getLsbD_ofNat, BitVec.getLsbD_shiftLeft, inside,
      BitVec.getLsbD_allOnes, Nat.testBit_two_pow_mul_add _ low, Nat.testBit_two_pow_sub_one,
      decide_true, Bool.true_and]
    by_cases below : i < places
    · simp [below]
    · have far : value.testBit i = false :=
        Nat.testBit_lt_two_pow
          (low.trans_le (Nat.pow_le_pow_right two_pos (Nat.le_of_not_lt below)))
      have within : i - places < 64 := by omega
      have reached : i - places < 64 - places := by omega
      simp [below, far, within, reached]
  have room : 2 ^ places ≤ 2 ^ 64 := Nat.pow_le_pow_right two_pos near.le
  have total : 2 ^ places * (2 ^ (64 - places) - 1) + value < 2 ^ 64 := by
    rw [Nat.mul_sub, Nat.mul_one, power]
    omega
  rw [word, BitVec.toNat_ofNat, Nat.mod_eq_of_lt total, Nat.mul_sub, Nat.mul_one, power,
    Nat.cast_add, Nat.cast_sub room, Nat.cast_pow, Nat.cast_pow, Nat.cast_ofNat]
  ring

/-- The filled word of a numeral is its number in two's complement, up to bits above the width. -/
theorem exists_toNat_filled {bits : Nat} (width : IsWidth bits) {numeral : List UInt8}
    (isNumeral : IsNumeral numeral) :
    ∃ carry : Int, (((groupsOf numeral).filled bits).toNat : Int) =
      signedNumber numeral + 2 ^ bits * carry := by
  have word64 : (2 : Int) ^ 64 = 2 ^ bits * 2 ^ (64 - bits) := by
    rw [← pow_add, Nat.add_sub_cancel' width.2]
  have negative : (groupsOf numeral).last &&& 0x40 ≠ 0 ↔ 64 ≤ (numeral.getLastD 0).toNat := by
    obtain ⟨-, -, -, small, -⟩ := isNumeral.exists_low
    rw [groupsOf, and_sign_ne_zero_iff, testBit_six, Nat.mod_eq_of_lt small, decide_eq_true_eq]
  rw [signedNumber_eq isNumeral]
  by_cases extended : (groupsOf numeral).places < bits ∧ (groupsOf numeral).last &&& 0x40 ≠ 0
  · -- Ones above the digits take the place of the sign.
    have near : 7 * numeral.length < 64 := lt_of_lt_of_le extended.1 width.2
    rw [Groups.filled, if_pos extended, if_pos (negative.mp extended.2)]
    refine ⟨2 ^ (64 - bits), ?_⟩
    rw [← word64]
    exact toNat_ofNat_or_allOnes near (number_lt numeral)
  · -- The digits stand alone: the word has dropped those above it.
    have dropped : ((groupsOf numeral).word.toNat : Int) =
        number numeral + 2 ^ bits * (-2 ^ (64 - bits) * (number numeral / 2 ^ 64 : Nat)) := by
      have division := Nat.mod_add_div (number numeral) (2 ^ 64)
      have word : (groupsOf numeral).word.toNat = number numeral % 2 ^ 64 := BitVec.toNat_ofNat ..
      have total : (number numeral : Int) =
          (groupsOf numeral).word.toNat + 2 ^ 64 * (number numeral / 2 ^ 64 : Nat) := by
        rw [word]
        exact_mod_cast division.symm
      rw [← mul_assoc, mul_neg, ← word64]
      linarith
    rw [Groups.filled, if_neg extended, dropped]
    by_cases sign : 64 ≤ (numeral.getLastD 0).toNat
    · have wide : bits ≤ 7 * numeral.length :=
        Nat.le_of_not_lt fun narrow => extended ⟨narrow, negative.mpr sign⟩
      have places : (2 : Int) ^ (7 * numeral.length) =
          2 ^ bits * 2 ^ (7 * numeral.length - bits) := by
        rw [← pow_add, Nat.add_sub_cancel' wide]
      rw [if_pos sign, places]
      exact ⟨2 ^ (7 * numeral.length - bits) + -2 ^ (64 - bits) * (number numeral / 2 ^ 64 : Nat),
        by ring⟩
    · rw [if_neg sign]
      exact ⟨_, rfl⟩

/-- The last group of a numeral tells whether its number in two's complement fits: the bits of the
group from the sign of the width up are all clear or all set. -/
theorem signedNumber_fits_iff {bits : Nat} (width : IsWidth bits) {numeral : List UInt8}
    (isNumeral : IsNumeral numeral) (short : numeral.length ≤ maxBytes bits) {below : Nat}
    (belowEquation : min (bits + 7 - 7 * numeral.length) 7 - 1 = below) :
    ((numeral.getLastD 0).toNat / 2 ^ below = 0 ∨
        (numeral.getLastD 0).toNat / 2 ^ below = 127 / 2 ^ below) ↔
      -2 ^ (bits - 1) ≤ signedNumber numeral ∧ signedNumber numeral < 2 ^ (bits - 1) := by
  obtain ⟨least, greatest⟩ := width
  obtain ⟨count, low, length, small, lowBound, equation⟩ := isNumeral.exists_low
  have bound : 7 * (count + 1) ≤ bits + 6 := by
    have : 7 * numeral.length ≤ bits + 6 := places_groupsOf_le short
    rwa [length] at this
  rw [signedNumber_eq isNumeral]
  rw [length] at belowEquation ⊢
  generalize (numeral.getLastD 0).toNat = last at small equation ⊢
  -- A multiple of the place of the last group is compared with the group alone.
  have compare : ∀ digit, number numeral < 2 ^ (7 * count) * digit ↔ last < digit := by
    intro digit
    rw [Nat.mul_comm, ← Nat.div_lt_iff_lt_mul (Nat.two_pow_pos _), equation,
      Nat.add_mul_div_left _ _ (Nat.two_pow_pos _), Nat.div_eq_of_lt lowBound, Nat.zero_add]
  have power : (2 : Int) ^ (7 * (count + 1)) = 128 * (2 ^ (7 * count) : Nat) := by
    push_cast
    ring
  have half := compare 64
  have whole := compare 128
  rw [power]
  by_cases narrow : 7 * (count + 1) ≤ bits
  · -- Every digit fits, since the width reaches beyond the last group.
    obtain rfl : below = 6 := by omega
    have range : 64 * 2 ^ (7 * count) ≤ 2 ^ (bits - 1) := by
      calc 64 * 2 ^ (7 * count) = 2 ^ (7 * count + 6) := by ring
        _ ≤ 2 ^ (bits - 1) := Nat.pow_le_pow_right two_pos (by omega)
    have rangeCast : (2 : Int) ^ (bits - 1) = (2 ^ (bits - 1) : Nat) := by push_cast; rfl
    rw [rangeCast]
    generalize 2 ^ (bits - 1) = limit at range ⊢
    generalize 2 ^ (7 * count) = place at half whole range ⊢
    split <;> omega
  · -- The sign of the width lies in the last group, `below` places up.
    have sign : 7 * count + below = bits - 1 := by omega
    have range : (2 : Int) ^ (bits - 1) = (2 ^ (7 * count) * 2 ^ below : Nat) := by
      rw [← sign]
      push_cast
      ring
    have clear := compare (2 ^ below)
    have set := compare (128 - 2 ^ below)
    rw [range]
    generalize 2 ^ (7 * count) = place at half whole clear set ⊢
    have shallow : below ≤ 5 := by omega
    interval_cases below <;> split <;> omega

/-- **The signed integer of a numeral** within the budget is its number in two's complement if that
fits. -/
theorem signed?_groupsOf {bits : Nat} (width : IsWidth bits) {numeral : List UInt8}
    (isNumeral : IsNumeral numeral) (short : numeral.length ≤ maxBytes bits) :
    (groupsOf numeral).signed? bits =
      some (if -2 ^ (bits - 1) ≤ signedNumber numeral ∧ signedNumber numeral < 2 ^ (bits - 1) then
        .ok (signedNumber numeral) else .error (.overflow bits)) := by
  have bound := places_groupsOf_le short
  obtain ⟨below, belowEquation⟩ :
      ∃ below, min (bits + 7 - (groupsOf numeral).places) 7 - 1 = below :=
    ⟨_, rfl⟩
  have fits := signedNumber_fits_iff width isNumeral short belowEquation
  have refused : (groupsOf numeral).last >>> below ≠ 0 ∧
      (groupsOf numeral).last >>> below ≠ 0x7f#8 >>> below ↔
      ¬(-2 ^ (bits - 1) ≤ signedNumber numeral ∧ signedNumber numeral < 2 ^ (bits - 1)) := by
    have ones : (0x7f#8 >>> below).toNat = 127 / 2 ^ below := by
      rw [BitVec.toNat_ushiftRight, Nat.shiftRight_eq_div_pow]
      rfl
    rw [← fits, not_or, ne_eq, ne_eq, ushiftRight_eq_iff, ushiftRight_eq_iff, ones,
      toNat_last_groupsOf isNumeral]
    rfl
  obtain ⟨carry, congruent⟩ := exists_toNat_filled width isNumeral
  rw [Groups.signed?_eq width bound]
  simp only [belowEquation, if_congr refused rfl rfl, ite_not]
  by_cases fit : -2 ^ (bits - 1) ≤ signedNumber numeral ∧ signedNumber numeral < 2 ^ (bits - 1)
  · have extended := toInt_sshiftRight_shiftLeft width _ congruent fit.1 fit.2
    rw [if_pos fit, if_pos fit, extended]
    split
    · rfl
    · -- At the full width nothing is shifted.
      next full =>
        have widest : 64 - bits = 0 := by omega
        rw [widest, BitVec.shiftLeft_zero, BitVec.sshiftRight_zero] at extended
        rw [extended]
  · rw [if_neg fit, if_neg fit]

/-! ## Reading integers -/

/-- What the checked shifts read without sign is what is read. -/
theorem readUnsigned_of_eq {bits : Nat} {bytes : List UInt8} {reading : Reading Nat}
    (equation : unsigned? bits bytes = some reading) : readUnsigned bits bytes = reading :=
  Option.get_of_eq_some _ equation

/-- So is what they read with sign. -/
theorem readSigned_of_eq {bits : Nat} {bytes : List UInt8} {reading : Reading Int}
    (equation : signed? bits bytes = some reading) : readSigned bits bytes = reading :=
  Option.get_of_eq_some _ equation

/-- **A numeral within the budget** is read as its number if that fits. -/
theorem readUnsigned_numeral {bits : Nat} (width : IsWidth bits) {numeral : List UInt8}
    (isNumeral : IsNumeral numeral) (short : numeral.length ≤ maxBytes bits) (rest : List UInt8) :
    readUnsigned bits (numeral ++ rest) =
      ⟨numeral.length,
        if number numeral < 2 ^ bits then .ok (number numeral) else .error (.overflow bits)⟩ :=
  readUnsigned_of_eq
    (read?_numeral width _ isNumeral short rest (unsigned?_groupsOf width isNumeral short))

/-- **A numeral within the budget** is read as its number in two's complement if that fits. -/
theorem readSigned_numeral {bits : Nat} (width : IsWidth bits) {numeral : List UInt8}
    (isNumeral : IsNumeral numeral) (short : numeral.length ≤ maxBytes bits) (rest : List UInt8) :
    readSigned bits (numeral ++ rest) =
      ⟨numeral.length,
        if -2 ^ (bits - 1) ≤ signedNumber numeral ∧ signedNumber numeral < 2 ^ (bits - 1) then
          .ok (signedNumber numeral) else .error (.overflow bits)⟩ :=
  readSigned_of_eq
    (read?_numeral width _ isNumeral short rest (signed?_groupsOf width isNumeral short))

/-- **What is read is a numeral** of no more bytes than the budget, and its number fits. -/
theorem exists_numeral_of_readUnsigned {bits value : Nat} {bytes : List UInt8}
    (read : (readUnsigned bits bytes).result = .ok value) :
    ∃ numeral rest, bytes = numeral ++ rest ∧ IsNumeral numeral ∧ IsWidth bits ∧
      numeral.length ≤ maxBytes bits ∧ number numeral = value ∧ value < 2 ^ bits := by
  by_cases width : IsWidth bits
  · rcases numeral_cases (maxBytes bits) bytes with ⟨numeral, rest, rfl, isNumeral, short⟩ |
      ⟨front, rest, rfl, set, length⟩ | ⟨set, short⟩
    · rw [readUnsigned_numeral width isNumeral short rest] at read
      by_cases fits : number numeral < 2 ^ bits
      · rw [if_pos fits] at read
        cases read
        exact ⟨numeral, rest, rfl, isNumeral, width, short, rfl, fits⟩
      · rw [if_neg fits] at read
        cases read
    · rw [readUnsigned_of_eq (read?_unterminated width _ set length.ge rest)] at read
      cases read
    · rw [readUnsigned_of_eq (read?_endOfInput width _ set short)] at read
      cases read
  · have refused : unsigned? bits bytes = some ⟨0, .error (.overflow bits)⟩ := if_neg width
    rw [readUnsigned_of_eq refused] at read
    cases read

/-- **What is read is a numeral** of no more bytes than the budget, and its number in two's
complement fits. -/
theorem exists_numeral_of_readSigned {bits : Nat} {value : Int} {bytes : List UInt8}
    (read : (readSigned bits bytes).result = .ok value) :
    ∃ numeral rest, bytes = numeral ++ rest ∧ IsNumeral numeral ∧ IsWidth bits ∧
      numeral.length ≤ maxBytes bits ∧ signedNumber numeral = value ∧
      -2 ^ (bits - 1) ≤ value ∧ value < 2 ^ (bits - 1) := by
  by_cases width : IsWidth bits
  · rcases numeral_cases (maxBytes bits) bytes with ⟨numeral, rest, rfl, isNumeral, short⟩ |
      ⟨front, rest, rfl, set, length⟩ | ⟨set, short⟩
    · rw [readSigned_numeral width isNumeral short rest] at read
      by_cases fits : -2 ^ (bits - 1) ≤ signedNumber numeral ∧ signedNumber numeral < 2 ^ (bits - 1)
      · rw [if_pos fits] at read
        cases read
        exact ⟨numeral, rest, rfl, isNumeral, width, short, rfl, fits⟩
      · rw [if_neg fits] at read
        cases read
    · rw [readSigned_of_eq (read?_unterminated width _ set length.ge rest)] at read
      cases read
    · rw [readSigned_of_eq (read?_endOfInput width _ set short)] at read
      cases read
  · have refused : signed? bits bytes = some ⟨0, .error (.overflow bits)⟩ := if_neg width
    rw [readSigned_of_eq refused] at read
    cases read

/-- **Reading is exact at every width.** A numeral of no more bytes than the width needs is used up
whole and gives its number if that fits; without one, reading fails at the end of the budget or of
the input. No shift and no subtraction leaves its word on the way. -/
theorem reads_exactly {bits : Nat} (width : IsWidth bits) :
    (∀ numeral rest : List UInt8, IsNumeral numeral → numeral.length ≤ bits ⌈/⌉ 7 →
      readUnsigned bits (numeral ++ rest) =
        ⟨numeral.length,
          if number numeral < 2 ^ bits then .ok (number numeral) else .error (.overflow bits)⟩ ∧
      readSigned bits (numeral ++ rest) =
        ⟨numeral.length,
          if -2 ^ (bits - 1) ≤ signedNumber numeral ∧ signedNumber numeral < 2 ^ (bits - 1) then
            .ok (signedNumber numeral) else .error (.overflow bits)⟩) ∧
    (∀ front rest : List UInt8, (∀ byte ∈ front, byte.toNat.testBit 7 = true) →
      front.length = bits ⌈/⌉ 7 →
      readUnsigned bits (front ++ rest) = ⟨bits ⌈/⌉ 7, .error (.unterminated bits)⟩ ∧
      readSigned bits (front ++ rest) = ⟨bits ⌈/⌉ 7, .error (.unterminated bits)⟩) ∧
    (∀ bytes : List UInt8, (∀ byte ∈ bytes, byte.toNat.testBit 7 = true) →
      bytes.length < bits ⌈/⌉ 7 →
      readUnsigned bits bytes = ⟨bytes.length, .error .endOfInput⟩ ∧
      readSigned bits bytes = ⟨bytes.length, .error .endOfInput⟩) ∧
    ∀ bytes : List UInt8, unsigned? bits bytes = some (readUnsigned bits bytes) ∧
      signed? bits bytes = some (readSigned bits bytes) := by
  rw [← maxBytes_eq_ceilDiv]
  refine ⟨fun numeral rest isNumeral short => ?_, fun front rest set length => ?_,
    fun bytes set short => ?_, fun bytes => ?_⟩
  · exact ⟨readUnsigned_numeral width isNumeral short rest,
      readSigned_numeral width isNumeral short rest⟩
  · exact ⟨readUnsigned_of_eq (read?_unterminated width _ set length.ge rest),
      readSigned_of_eq (read?_unterminated width _ set length.ge rest)⟩
  · exact ⟨readUnsigned_of_eq (read?_endOfInput width _ set short),
      readSigned_of_eq (read?_endOfInput width _ set short)⟩
  · exact ⟨(Option.some_get _).symm, (Option.some_get _).symm⟩

/-- The longest numerals of 64 bits: the least signed integer, and one that is too great by its
second bit above the ninth group. -/
theorem reads_exactly_ten_bytes :
    IsWidth 64 ∧ readSigned 64 (List.replicate 9 0x80 ++ [0x7f]) = ⟨10, .ok (-2 ^ 63)⟩ ∧
      readUnsigned 64 (List.replicate 9 0xff ++ [0x03]) = ⟨10, .error (.overflow 64)⟩ := by
  have least : IsNumeral (List.replicate 9 0x80 ++ [0x7f]) :=
    .more _ rfl (.more _ rfl (.more _ rfl (.more _ rfl (.more _ rfl (.more _ rfl (.more _ rfl
      (.more _ rfl (.more _ rfl (.last _ rfl)))))))))
  have great : IsNumeral (List.replicate 9 0xff ++ [0x03]) :=
    .more _ rfl (.more _ rfl (.more _ rfl (.more _ rfl (.more _ rfl (.more _ rfl (.more _ rfl
      (.more _ rfl (.more _ rfl (.last _ rfl)))))))))
  have width : IsWidth 64 := by decide
  have signed := ((reads_exactly width).1 _ [] least (by decide)).2
  have unsigned := ((reads_exactly width).1 _ [] great (by decide)).1
  have leastNumber : signedNumber (List.replicate 9 0x80 ++ [0x7f]) = -2 ^ 63 := by
    have sign : Nat.testBit 127 6 = true := rfl
    simp [signedNumber, number_cons, sign]
  have greatNumber : number (List.replicate 9 0xff ++ [0x03]) = 2 ^ 65 - 1 := by
    simp [number_cons]
  rw [leastNumber] at signed
  rw [greatNumber] at unsigned
  exact ⟨width, signed, unsigned⟩

end WasmCompiler.Varint
