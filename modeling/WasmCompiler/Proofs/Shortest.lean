import WasmCompiler.Proofs.Numerals

/-! # Shortest forms

The shortest form of an integer is the shortest numeral that spells it. It is what is written of the
integer, and reading it gives the integer back.

* **`unsignedForm`**, **`signedForm`** — the shortest forms, without any bound on the integer;
* **`number_unsignedForm`**, **`signedNumber_signedForm`** — they are numerals of the integer;
* **`length_unsignedForm_le`**, **`length_signedForm_le`** — as short as its digits allow;
* **`number_injective`**, **`signedNumber_injective`** — numerals of one length spell different
  integers;
* **`writeUnsigned_eq`**, **`writeSigned_eq`** — writing a word writes the shortest form of its
  integer and counts its bytes;
* **`writes_shortest`** — hence writing and reading are inverse at every width that the integer
  fits, and what is written is shortest. -/

namespace WasmCompiler.Varint

/-! ## Unsigned integers -/

/-- The shortest form of an unsigned integer. -/
def unsignedForm (value : Nat) : List UInt8 :=
  if value < 128 then [value.toUInt8]
  else (value % 128 + 128).toUInt8 :: unsignedForm (value / 128)
termination_by value

/-- A number below 128 is a single byte. -/
theorem unsignedForm_of_lt {value : Nat} (small : value < 128) :
    unsignedForm value = [value.toUInt8] := by
  rw [unsignedForm, if_pos small]

/-- Any other starts with its low group, with the high bit set. -/
theorem unsignedForm_of_le {value : Nat} (large : 128 ≤ value) :
    unsignedForm value = (value % 128 + 128).toUInt8 :: unsignedForm (value / 128) := by
  rw [unsignedForm, if_neg (Nat.not_lt.mpr large)]

/-- A byte of a numeral below its last one. -/
theorem toNat_continued {digit : Nat} (small : digit < 128) :
    (digit + 128).toUInt8.toNat = digit + 128 := by
  rw [Nat.toUInt8_eq, UInt8.toNat_ofNat']
  omega

/-- The last byte of a numeral. -/
theorem toNat_final {digit : Nat} (small : digit < 128) : digit.toUInt8.toNat = digit := by
  rw [Nat.toUInt8_eq, UInt8.toNat_ofNat']
  omega

/-- The shortest form is a numeral. -/
theorem isNumeral_unsignedForm (value : Nat) : IsNumeral (unsignedForm value) := by
  induction value using Nat.strongRecOn with
  | ind value valueInduction =>
      by_cases small : value < 128
      · rw [unsignedForm_of_lt small]
        refine .last _ ?_
        rw [testBit_seven, toNat_final small]
        exact decide_eq_false (Nat.not_le.mpr small)
      · have large : 128 ≤ value := Nat.le_of_not_lt small
        rw [unsignedForm_of_le large]
        refine .more _ ?_ (valueInduction (value / 128) (by omega))
        rw [testBit_seven, toNat_continued (Nat.mod_lt _ (by decide))]
        exact decide_eq_true (Nat.le_add_left _ _)

/-- **The shortest form spells the integer.** -/
theorem number_unsignedForm (value : Nat) : number (unsignedForm value) = value := by
  induction value using Nat.strongRecOn with
  | ind value valueInduction =>
      by_cases small : value < 128
      · rw [unsignedForm_of_lt small, number_cons, toNat_final small, number_nil]
        omega
      · have large : 128 ≤ value := Nat.le_of_not_lt small
        rw [unsignedForm_of_le large, number_cons, toNat_continued (Nat.mod_lt _ (by decide)),
          valueInduction (value / 128) (by omega)]
        omega

/-- An integer below a power takes no more bytes than that power has groups. -/
theorem length_unsignedForm_le_of_lt {value count : Nat} (bound : value < 2 ^ (7 * (count + 1))) :
    (unsignedForm value).length ≤ count + 1 := by
  induction count generalizing value with
  | zero =>
      rw [unsignedForm_of_lt bound]
      exact Nat.le_refl 1
  | succ count countInduction =>
      by_cases small : value < 128
      · rw [unsignedForm_of_lt small]
        exact Nat.succ_le_succ (Nat.zero_le _)
      · have power : 2 ^ (7 * (count + 1 + 1)) = 2 ^ (7 * (count + 1)) * 128 := by ring
        rw [unsignedForm_of_le (Nat.le_of_not_lt small), List.length_cons]
        refine Nat.succ_le_succ (countInduction ?_)
        rw [Nat.div_lt_iff_lt_mul (by decide), ← power]
        exact bound

/-- **No shorter numeral** spells the integer. -/
theorem length_unsignedForm_le {numeral : List UInt8} (isNumeral : IsNumeral numeral) :
    (unsignedForm (number numeral)).length ≤ numeral.length := by
  obtain ⟨count, -, length, -⟩ := isNumeral.exists_low
  have bound := number_lt numeral
  rw [length] at bound ⊢
  exact length_unsignedForm_le_of_lt bound

/-- Bytes with the same seven low bits and the same bit 7 are equal. -/
theorem eq_of_digit_eq {first second : UInt8}
    (digit : first.toNat % 128 = second.toNat % 128)
    (flag : first.toNat.testBit 7 = second.toNat.testBit 7) : first = second := by
  rw [testBit_seven, testBit_seven, decide_eq_decide] at flag
  have firstBound := first.toNat_lt
  have secondBound := second.toNat_lt
  rw [← UInt8.toNat_inj]
  omega

/-- **Numerals of one length spell different numbers.** -/
theorem number_injective {first second : List UInt8} (firstNumeral : IsNumeral first)
    (secondNumeral : IsNumeral second) (length : first.length = second.length)
    (same : number first = number second) : first = second := by
  induction firstNumeral generalizing second with
  | last byte clear =>
      cases secondNumeral with
      | last other otherClear =>
          simp only [number_cons, number_nil, Nat.mul_zero, Nat.add_zero] at same
          rw [eq_of_digit_eq same (clear.trans otherClear.symm)]
      -- A byte that is the last one on one side only would make the lengths differ.
      | more other set later =>
          cases later <;> cases length
  | more byte set later laterInduction =>
      cases secondNumeral with
      | last other clear =>
          cases later <;> cases length
      | more other otherSet otherLater =>
          rw [number_cons, number_cons] at same
          have digit := Nat.mod_lt byte.toNat (show 0 < 128 by decide)
          have otherDigit := Nat.mod_lt other.toNat (show 0 < 128 by decide)
          have lower : byte.toNat % 128 = other.toNat % 128 := by omega
          rw [eq_of_digit_eq lower (set.trans otherSet.symm),
            laterInduction otherLater (Nat.succ.inj length) (by omega)]

/-! ## Signed integers -/

/-- The shortest form of a signed integer: the last group carries the sign in its highest bit. -/
def signedForm (value : Int) : List UInt8 :=
  if -64 ≤ value ∧ value < 64 then [(value % 128).toNat.toUInt8]
  else ((value % 128).toNat + 128).toUInt8 :: signedForm (value / 128)
termination_by value.natAbs
decreasing_by omega

/-- A number that fits seven bits is a single byte. -/
theorem signedForm_of_near {value : Int} (near : -64 ≤ value ∧ value < 64) :
    signedForm value = [(value % 128).toNat.toUInt8] := by
  rw [signedForm, if_pos near]

/-- Any other starts with its low group, with the high bit set. -/
theorem signedForm_of_far {value : Int} (far : ¬(-64 ≤ value ∧ value < 64)) :
    signedForm value = ((value % 128).toNat + 128).toUInt8 :: signedForm (value / 128) := by
  rw [signedForm, if_neg far]

/-- The lowest digit of an integer in two's complement. -/
theorem digit_lt (value : Int) : (value % 128).toNat < 128 := by
  omega

/-- In front of a numeral, the first byte is the lowest digit also in two's complement. -/
theorem signedNumber_cons (byte : UInt8) {numeral : List UInt8} (isNumeral : IsNumeral numeral) :
    signedNumber (byte :: numeral) = (byte.toNat % 128 : Nat) + 128 * signedNumber numeral := by
  have last : (byte :: numeral).getLastD 0 = numeral.getLastD 0 := by
    cases isNumeral <;> rfl
  have power : (2 : Int) ^ (7 * (byte :: numeral).length) = 128 * 2 ^ (7 * numeral.length) := by
    rw [List.length_cons]
    ring
  unfold signedNumber
  rw [last, number_cons, power]
  split <;> push_cast <;> ring

/-- The number of a single byte in two's complement. -/
theorem signedNumber_singleton {digit : Nat} (small : digit < 128) :
    signedNumber [digit.toUInt8] = if 64 ≤ digit then (digit : Int) - 128 else digit := by
  have single : number [digit.toUInt8] = digit := by
    rw [number_cons, number_nil, toNat_final small, Nat.mod_eq_of_lt small]
    rfl
  have sign : ([digit.toUInt8].getLastD 0).toNat.testBit 6 = decide (64 ≤ digit) := by
    show digit.toUInt8.toNat.testBit 6 = _
    rw [testBit_six, toNat_final small, Nat.mod_eq_of_lt small]
  rw [signedNumber, single, sign]
  simp

/-- The shortest form is a numeral. -/
theorem isNumeral_signedForm (value : Int) : IsNumeral (signedForm value) := by
  induction value using signedForm.induct with
  | case1 value near =>
      rw [signedForm_of_near near]
      refine .last _ ?_
      rw [testBit_seven, toNat_final (digit_lt value)]
      exact decide_eq_false (Nat.not_le.mpr (digit_lt value))
  | case2 value far laterInduction =>
      rw [signedForm_of_far far]
      refine .more _ ?_ laterInduction
      rw [testBit_seven, toNat_continued (digit_lt value)]
      exact decide_eq_true (Nat.le_add_left _ _)

/-- **The shortest form spells the integer** in two's complement. -/
theorem signedNumber_signedForm (value : Int) : signedNumber (signedForm value) = value := by
  induction value using signedForm.induct with
  | case1 value near =>
      rw [signedForm_of_near near, signedNumber_singleton (digit_lt value)]
      split <;> omega
  | case2 value far laterInduction =>
      rw [signedForm_of_far far, signedNumber_cons _ (isNumeral_signedForm _), laterInduction,
        toNat_continued (digit_lt value)]
      omega

/-- An integer between powers takes no more bytes than those powers have groups. -/
theorem length_signedForm_le_of_lt {value : Int} {count : Nat}
    (least : -2 ^ (7 * count + 6) ≤ value) (greatest : value < 2 ^ (7 * count + 6)) :
    (signedForm value).length ≤ count + 1 := by
  induction count generalizing value with
  | zero =>
      rw [signedForm_of_near ⟨least, greatest⟩]
      exact Nat.le_refl 1
  | succ count countInduction =>
      by_cases near : -64 ≤ value ∧ value < 64
      · rw [signedForm_of_near near]
        exact Nat.succ_le_succ (Nat.zero_le _)
      · have power : (2 : Int) ^ (7 * (count + 1) + 6) = 128 * 2 ^ (7 * count + 6) := by ring
        rw [power] at least greatest
        rw [signedForm_of_far near, List.length_cons]
        exact Nat.succ_le_succ (countInduction (by omega) (by omega))

/-- The number of a numeral in two's complement lies between the powers of its groups. -/
theorem signedNumber_bounds {numeral : List UInt8} (isNumeral : IsNumeral numeral) {count : Nat}
    (length : numeral.length = count + 1) :
    -2 ^ (7 * count + 6) ≤ signedNumber numeral ∧ signedNumber numeral < 2 ^ (7 * count + 6) := by
  obtain ⟨fewer, low, length', small, lowBound, equation⟩ := isNumeral.exists_low
  obtain rfl : fewer = count := Nat.succ.inj (length'.symm.trans length)
  have half : (2 : Int) ^ (7 * fewer + 6) = 64 * (2 ^ (7 * fewer) : Nat) := by
    push_cast
    ring
  have whole : (2 : Int) ^ (7 * (fewer + 1)) = 128 * (2 ^ (7 * fewer) : Nat) := by
    push_cast
    ring
  rw [signedNumber_eq isNumeral, length, half, whole, equation]
  generalize (numeral.getLastD 0).toNat = last at small
  generalize 2 ^ (7 * fewer) = place at lowBound
  have most : place * last ≤ place * 127 := Nat.mul_le_mul_left _ (Nat.le_of_lt_succ small)
  split
  · next negative =>
      have least : place * 64 ≤ place * last := Nat.mul_le_mul_left _ negative
      push_cast
      omega
  · next positive =>
      have greatest : place * last ≤ place * 63 := Nat.mul_le_mul_left _ (by omega)
      push_cast
      omega

/-- **No shorter numeral** spells the integer in two's complement. -/
theorem length_signedForm_le {numeral : List UInt8} (isNumeral : IsNumeral numeral) :
    (signedForm (signedNumber numeral)).length ≤ numeral.length := by
  obtain ⟨count, -, length, -⟩ := isNumeral.exists_low
  obtain ⟨least, greatest⟩ := signedNumber_bounds isNumeral length
  rw [length]
  exact length_signedForm_le_of_lt least greatest

/-- **Numerals of one length spell different numbers** in two's complement. -/
theorem signedNumber_injective {first second : List UInt8} (firstNumeral : IsNumeral first)
    (secondNumeral : IsNumeral second) (length : first.length = second.length)
    (same : signedNumber first = signedNumber second) : first = second := by
  have firstBound := number_lt first
  have secondBound := number_lt second
  -- Numbers that differ by a multiple of the power above their digits are equal.
  have numbers : number first = number second := by
    rw [signedNumber, signedNumber, length] at same
    rw [length] at firstBound
    have power : (2 : Int) ^ (7 * second.length) = (2 ^ (7 * second.length) : Nat) := by
      push_cast
      rfl
    rw [power] at same
    split at same <;> split at same <;> omega
  exact number_injective firstNumeral secondNumeral length numbers

/-! ## Reading shortest forms -/

/-- The budget of a width counts at least one byte. -/
theorem exists_maxBytes {bits : Nat} (width : IsWidth bits) :
    ∃ count, maxBytes bits = count + 1 ∧ bits ≤ 7 * (count + 1) := by
  have least := width.1
  refine ⟨maxBytes bits - 1, ?_, ?_⟩ <;> (unfold maxBytes; omega)

/-- The shortest form keeps to the budget of every width that its integer fits. -/
theorem length_unsignedForm_le_maxBytes {bits value : Nat} (width : IsWidth bits)
    (fits : value < 2 ^ bits) : (unsignedForm value).length ≤ maxBytes bits := by
  obtain ⟨count, budget, room⟩ := exists_maxBytes width
  rw [budget]
  exact length_unsignedForm_le_of_lt (fits.trans_le (Nat.pow_le_pow_right two_pos room))

/-- The shortest form of a signed integer keeps to the budget of every width that it fits. -/
theorem length_signedForm_le_maxBytes {bits : Nat} {value : Int} (width : IsWidth bits)
    (least : -2 ^ (bits - 1) ≤ value) (greatest : value < 2 ^ (bits - 1)) :
    (signedForm value).length ≤ maxBytes bits := by
  obtain ⟨count, budget, room⟩ := exists_maxBytes width
  have power : (2 : Int) ^ (bits - 1) ≤ 2 ^ (7 * count + 6) :=
    pow_le_pow_right₀ one_le_two (by omega)
  rw [budget]
  exact length_signedForm_le_of_lt (by omega) (by omega)

/-- **An unsigned integer is read back** at every width that it fits. -/
theorem readUnsigned_unsignedForm {bits value : Nat} (width : IsWidth bits)
    (fits : value < 2 ^ bits) (rest : List UInt8) :
    readUnsigned bits (unsignedForm value ++ rest) =
      ⟨(unsignedForm value).length, .ok value⟩ := by
  have short := length_unsignedForm_le_maxBytes width fits
  rw [readUnsigned_numeral width (isNumeral_unsignedForm value) short rest, number_unsignedForm,
    if_pos fits]

/-- **A signed integer is read back** at every width that it fits. -/
theorem readSigned_signedForm {bits : Nat} {value : Int} (width : IsWidth bits)
    (least : -2 ^ (bits - 1) ≤ value) (greatest : value < 2 ^ (bits - 1)) (rest : List UInt8) :
    readSigned bits (signedForm value ++ rest) = ⟨(signedForm value).length, .ok value⟩ := by
  have short := length_signedForm_le_maxBytes width least greatest
  rw [readSigned_numeral width (isNumeral_signedForm value) short rest, signedNumber_signedForm,
    if_pos ⟨least, greatest⟩]

/-- **No fewer bytes** are read as an unsigned integer, at any width. -/
theorem length_unsignedForm_le_of_readUnsigned {bits value : Nat} {bytes : List UInt8}
    (read : (readUnsigned bits bytes).result = .ok value) :
    (unsignedForm value).length ≤ bytes.length := by
  obtain ⟨numeral, rest, rfl, isNumeral, -, -, rfl, -⟩ := exists_numeral_of_readUnsigned read
  rw [List.length_append]
  exact Nat.le_add_right_of_le (length_unsignedForm_le isNumeral)

/-- **No fewer bytes** are read as a signed integer, at any width. -/
theorem length_signedForm_le_of_readSigned {bits : Nat} {value : Int} {bytes : List UInt8}
    (read : (readSigned bits bytes).result = .ok value) :
    (signedForm value).length ≤ bytes.length := by
  obtain ⟨numeral, rest, rfl, isNumeral, -, -, rfl, -⟩ := exists_numeral_of_readSigned read
  rw [List.length_append]
  exact Nat.le_add_right_of_le (length_signedForm_le isNumeral)

/-- Bytes that are read as an unsigned integer are its shortest form if there are as many. -/
theorem eq_unsignedForm_of_readUnsigned {bits value : Nat} {bytes : List UInt8}
    (read : (readUnsigned bits bytes).result = .ok value)
    (length : bytes.length = (unsignedForm value).length) : bytes = unsignedForm value := by
  obtain ⟨numeral, rest, rfl, isNumeral, -, -, rfl, -⟩ := exists_numeral_of_readUnsigned read
  have least := length_unsignedForm_le isNumeral
  rw [List.length_append] at length
  obtain rfl : rest = [] := List.length_eq_zero_iff.mp (by omega)
  rw [List.append_nil]
  exact number_injective isNumeral (isNumeral_unsignedForm _) length
    (number_unsignedForm _).symm

/-- Bytes that are read as a signed integer are its shortest form if there are as many. -/
theorem eq_signedForm_of_readSigned {bits : Nat} {value : Int} {bytes : List UInt8}
    (read : (readSigned bits bytes).result = .ok value)
    (length : bytes.length = (signedForm value).length) : bytes = signedForm value := by
  obtain ⟨numeral, rest, rfl, isNumeral, -, -, rfl, -⟩ := exists_numeral_of_readSigned read
  have least := length_signedForm_le isNumeral
  rw [List.length_append] at length
  obtain rfl : rest = [] := List.length_eq_zero_iff.mp (by omega)
  rw [List.append_nil]
  exact signedNumber_injective isNumeral (isNumeral_signedForm _) length
    (signedNumber_signedForm _).symm

/-! ## Writing words -/

/-- The lowest group of a word is a remainder. -/
@[simp] theorem toNat_lowGroup (word : BitVec 64) : (lowGroup word).toNat = word.toNat % 128 := by
  have byte : (UInt8.ofBitVec (word.setWidth 8)).toNat = word.toNat % 2 ^ 8 :=
    BitVec.toNat_setWidth ..
  rw [lowGroup, toNat_group, byte]
  omega

/-- A last byte that is written holds the lowest group. -/
theorem ofBitVec_lowGroup (word : BitVec 64) :
    UInt8.ofBitVec (lowGroup word) = (word.toNat % 128).toUInt8 := by
  rw [← UInt8.toNat_inj, toNat_final (Nat.mod_lt _ (by decide))]
  exact toNat_lowGroup word

/-- A byte that is written before others holds the lowest group below bit 7. -/
theorem ofBitVec_flagged (word : BitVec 64) :
    UInt8.ofBitVec (lowGroup word ||| 0x80) = (word.toNat % 128 + 128).toUInt8 := by
  have digit : word.toNat % 128 < 2 ^ 7 := Nat.mod_lt _ (by decide)
  have flagged : (lowGroup word ||| 0x80).toNat = word.toNat % 128 + 128 := by
    rw [BitVec.toNat_or, toNat_lowGroup, Nat.or_comm, Nat.add_comm]
    exact (Nat.two_pow_add_eq_or_of_lt digit 1).symm
  rw [← UInt8.toNat_inj, toNat_continued digit]
  exact flagged

/-- **The loop over an unsigned word ends** where the integer lies within one group. -/
theorem rest_eq_zero_iff (word : BitVec 64) : word >>> 7 = 0 ↔ word.toNat < 128 := by
  rw [← BitVec.toNat_inj, toNat_rest]
  show word.toNat / 128 = 0 ↔ _
  omega

/-- **The loop over an unsigned word** writes the shortest form of its integer after what has been
written, and counts the bytes. -/
theorem pushUnsigned_eq (word : BitVec 64) (writing : Writing) :
    pushUnsigned word writing =
      ⟨writing.bytes ++ unsignedForm word.toNat,
        writing.written + (unsignedForm word.toNat).length⟩ := by
  -- What has been written grows from one round to the next, so it varies in the induction.
  induction word, writing using pushUnsigned.induct with
  | case1 word writing rest ends =>
      simp only [rest] at ends
      have small := (rest_eq_zero_iff word).mp ends
      rw [pushUnsigned]
      simp only [if_pos ends]
      rw [unsignedForm_of_lt small, Writing.push, ofBitVec_lowGroup, Nat.mod_eq_of_lt small]
      rfl
  | case2 word writing rest more restInduction =>
      simp only [rest] at more restInduction
      have large := Nat.le_of_not_lt (mt (rest_eq_zero_iff word).mpr more)
      rw [pushUnsigned]
      simp only [if_neg more]
      rw [restInduction, unsignedForm_of_le large, Writing.push, ofBitVec_flagged, toNat_rest]
      simp only [List.append_assoc, List.singleton_append, List.length_cons, Nat.add_assoc,
        Nat.add_comm 1]

/-- An integer in two's complement has the lowest digit of its word. -/
theorem toNat_toInt_emod (word : BitVec 64) : (word.toInt % 128).toNat = word.toNat % 128 := by
  rw [BitVec.toInt_eq_toNat_cond]
  split <;> omega

/-- The lowest group of a word is negative if its digit is. -/
theorem lowGroup_sign (word : BitVec 64) :
    lowGroup word &&& 0x40 ≠ 0 ↔ 64 ≤ word.toInt % 128 := by
  have byte : (UInt8.ofBitVec (word.setWidth 8)).toNat % 128 = word.toNat % 128 := by
    rw [← toNat_group]
    exact toNat_lowGroup word
  have digit := toNat_toInt_emod word
  rw [lowGroup, and_sign_ne_zero_iff, testBit_six, byte, decide_eq_true_eq]
  omega

/-- **The loop over a signed word ends** where the integer lies within one group. -/
theorem endsSigned_iff (word : BitVec 64) :
    endsSigned (lowGroup word) (word.sshiftRight 7) = true ↔
      -64 ≤ word.toInt ∧ word.toInt < 64 := by
  have zero : word.sshiftRight 7 = 0 ↔ word.toInt / 128 = 0 := by
    rw [← BitVec.toInt_inj, toInt_rest]
    rfl
  have ones : word.sshiftRight 7 = -1 ↔ word.toInt / 128 = -1 := by
    rw [← BitVec.toInt_inj, toInt_rest]
    rfl
  have sign := lowGroup_sign word
  have clear := not_congr sign
  rw [ne_eq, not_not] at clear
  simp only [endsSigned, Bool.or_eq_true, Bool.and_eq_true, beq_iff_eq, bne_iff_ne]
  rw [zero, ones, sign, clear]
  omega

/-- **The loop over a signed word** writes the shortest form of its integer after what has been
written, and counts the bytes. -/
theorem pushSigned_eq (word : BitVec 64) (writing : Writing) :
    pushSigned word writing =
      ⟨writing.bytes ++ signedForm word.toInt,
        writing.written + (signedForm word.toInt).length⟩ := by
  induction word, writing using pushSigned.induct with
  | case1 word writing rest ends =>
      simp only [rest] at ends
      have near := (endsSigned_iff word).mp ends
      rw [pushSigned]
      simp only [if_pos ends]
      rw [signedForm_of_near near, Writing.push, ofBitVec_lowGroup, toNat_toInt_emod]
      rfl
  | case2 word writing rest more restInduction =>
      simp only [rest] at more restInduction
      have far := mt (endsSigned_iff word).mpr more
      rw [pushSigned]
      simp only [if_neg more]
      rw [restInduction, signedForm_of_far far, Writing.push, ofBitVec_flagged, toInt_rest,
        toNat_toInt_emod]
      simp only [List.append_assoc, List.singleton_append, List.length_cons, Nat.add_assoc,
        Nat.add_comm 1]

/-- **Writing an unsigned word** gives the shortest form of its integer, and its length. -/
theorem writeUnsigned_eq (value : BitVec 64) :
    writeUnsigned value = ⟨unsignedForm value.toNat, (unsignedForm value.toNat).length⟩ := by
  rw [writeUnsigned, pushUnsigned_eq, List.nil_append, Nat.zero_add]

/-- **Writing a signed word** gives the shortest form of its integer, and its length. -/
theorem writeSigned_eq (value : BitVec 64) :
    writeSigned value = ⟨signedForm value.toInt, (signedForm value.toInt).length⟩ := by
  rw [writeSigned, pushSigned_eq, List.nil_append, Nat.zero_add]

/-- **Reading undoes writing, and writing is shortest.** A word is written as many bytes as are
counted. At every width that its integer fits, they are read back whole, whatever follows them: the
integer is that of the word, and as many bytes are used as were counted. No fewer bytes are read as
the integer at any width, and of as many bytes only the written ones are read as it at the full
width. -/
theorem writes_shortest {bits : Nat} (width : IsWidth bits) :
    (∀ value : BitVec 64, value.toNat < 2 ^ bits →
      (writeUnsigned value).written = (writeUnsigned value).bytes.length ∧
      (∀ rest : List UInt8, readUnsigned bits ((writeUnsigned value).bytes ++ rest) =
        ⟨(writeUnsigned value).written, .ok value.toNat⟩) ∧
      (∀ (other : Nat) (bytes : List UInt8),
        (readUnsigned other bytes).result = .ok value.toNat →
        (writeUnsigned value).bytes.length ≤ bytes.length) ∧
      ∀ bytes : List UInt8, bytes.length = (writeUnsigned value).bytes.length →
        ((readUnsigned 64 bytes).result = .ok value.toNat ↔
          bytes = (writeUnsigned value).bytes)) ∧
    ∀ value : BitVec 64, -2 ^ (bits - 1) ≤ value.toInt → value.toInt < 2 ^ (bits - 1) →
      (writeSigned value).written = (writeSigned value).bytes.length ∧
      (∀ rest : List UInt8, readSigned bits ((writeSigned value).bytes ++ rest) =
        ⟨(writeSigned value).written, .ok value.toInt⟩) ∧
      (∀ (other : Nat) (bytes : List UInt8),
        (readSigned other bytes).result = .ok value.toInt →
        (writeSigned value).bytes.length ≤ bytes.length) ∧
      ∀ bytes : List UInt8, bytes.length = (writeSigned value).bytes.length →
        ((readSigned 64 bytes).result = .ok value.toInt ↔ bytes = (writeSigned value).bytes) := by
  have full : IsWidth 64 := by decide
  constructor
  · intro value fits
    rw [writeUnsigned_eq]
    refine ⟨rfl, readUnsigned_unsignedForm width fits,
      fun _ _ read => length_unsignedForm_le_of_readUnsigned read, fun bytes length => ?_⟩
    refine ⟨fun read => eq_unsignedForm_of_readUnsigned read length, ?_⟩
    rintro rfl
    have read := readUnsigned_unsignedForm full value.isLt []
    rw [List.append_nil] at read
    rw [read]
  · intro value least greatest
    rw [writeSigned_eq]
    refine ⟨rfl, readSigned_signedForm width least greatest,
      fun _ _ read => length_signedForm_le_of_readSigned read, fun bytes length => ?_⟩
    refine ⟨fun read => eq_signedForm_of_readSigned read length, ?_⟩
    rintro rfl
    have read := readSigned_signedForm full value.le_toInt value.toInt_lt []
    rw [List.append_nil] at read
    rw [read]

/-- The least integer of 64 bits takes ten bytes, and 300 takes two at a width of nine bits. -/
theorem writes_shortest_extremes :
    IsWidth 9 ∧ (300 : BitVec 64).toNat < 2 ^ 9 ∧
      readUnsigned 9 ((writeUnsigned 300).bytes ++ [0x0b]) = ⟨2, .ok 300⟩ ∧
      IsWidth 64 ∧ -2 ^ 63 ≤ (BitVec.intMin 64).toInt ∧ (BitVec.intMin 64).toInt < 2 ^ 63 ∧
      (writeSigned (BitVec.intMin 64)).written = 10 ∧
      (∀ bytes, (readSigned 64 bytes).result = .ok (BitVec.intMin 64).toInt →
        10 ≤ bytes.length) := by
  have narrow : IsWidth 9 := by decide
  have full : IsWidth 64 := by decide
  have small : (300 : BitVec 64).toNat < 2 ^ 9 := by decide
  have low : -2 ^ (64 - 1) ≤ (BitVec.intMin 64).toInt := by decide
  have high : (BitVec.intMin 64).toInt < 2 ^ (64 - 1) := by decide
  have two : (writeUnsigned 300).written = 2 := by
    rw [writeUnsigned_eq]
    simp [unsignedForm]
  have ten : (writeSigned (BitVec.intMin 64)).written = 10 := by
    have least : (BitVec.intMin 64).toInt = -2 ^ 63 := by decide
    rw [writeSigned_eq, least]
    simp [signedForm]
  have unsigned := ((writes_shortest narrow).1 300 small).2.1 [0x0b]
  obtain ⟨counted, -, signed, -⟩ := (writes_shortest full).2 (BitVec.intMin 64) low high
  rw [two] at unsigned
  rw [← counted, ten] at signed
  exact ⟨narrow, small, unsigned, full, low, high, ten, signed 64⟩

end WasmCompiler.Varint
