import WasmCompiler.Proofs.Decimals

/-! # Texts of constants

The text of a constant reads back as the constant: that of an integer in its digits, and that of a
floating-point number in the digits of its shortest decimal, wherever the layout puts the point and
whether or not it adds an exponent.

* **`Format.decode_finite`**, **`Format.decode_infinite`** — a word by its exact datum;
* **`readDecimal?_decimal`** — a decimal that is laid out reads back as the same number;
* **`readWord?_write`** — a word that is a number reads back as it is;
* **`Value.read?_text`** — and so does every constant that is a number;
* **`Value.solid_text`** — the text of a constant is one word. -/

namespace WasmCompiler.Floating

/-! ## Fields of a word -/

namespace Format

variable (format : Format)

/-- A word is its magnitude under its sign. -/
theorem withSign_magnitude {word : Nat} (fits : word < 2 * format.signWord) :
    format.withSign (format.isNegative word) (format.magnitude word) = word := by
  have parts := Nat.div_add_mod word format.signWord
  have quotient : word / format.signWord < 2 := Nat.div_lt_of_lt_mul (by rwa [Nat.mul_comm])
  rw [withSign, isNegative, magnitude]
  split
  · next negative =>
    rw [beq_iff_eq, Nat.mod_eq_of_lt quotient] at negative
    rw [negative, Nat.mul_one] at parts
    exact parts
  · next positive =>
    rw [beq_iff_eq, Nat.mod_eq_of_lt quotient] at positive
    have zero : word / format.signWord = 0 :=
      Nat.lt_one_iff.mp (lt_of_le_of_ne (Nat.le_of_lt_succ quotient) positive)
    rw [zero, Nat.mul_zero, Nat.zero_add] at parts
    exact parts

/-- The fraction of a word is that of its magnitude. -/
theorem magnitude_mod (word : Nat) :
    format.magnitude word % 2 ^ format.fractionBits = word % 2 ^ format.fractionBits := by
  rw [magnitude, signWord, Nat.pow_eq, Nat.pow_add, Nat.mul_comm, Nat.mod_mul_right_mod]

/-- A magnitude is an exponent in front of a fraction. -/
theorem magnitude_eq (word : Nat) : format.magnitude word =
    format.magnitude word / 2 ^ format.fractionBits * 2 ^ format.fractionBits +
      word % 2 ^ format.fractionBits := by
  rw [← format.magnitude_mod, Nat.div_add_mod']

/-- The exponent of a magnitude keeps to its bits. -/
theorem magnitude_div_lt (word : Nat) :
    format.magnitude word / 2 ^ format.fractionBits < 2 ^ format.exponentBits := by
  refine Nat.div_lt_of_lt_mul ?_
  rw [← Nat.pow_add, Nat.add_comm]
  exact Nat.mod_lt _ (Nat.pow_pos two_pos)

variable {format}

/-- **The word of a finite number.** -/
theorem decode_finite {word significand : Nat} {negative : Bool} {exponent : Int}
    (fits : word < 2 * format.signWord)
    (decoded : format.decode word = .finite negative significand exponent) :
    word = format.withSign negative (format.magnitudeWord significand exponent) ∧
      (significand = 0 ∧ exponent = format.minExponent ∨ format.Holds significand exponent) := by
  have parts := format.withSign_magnitude fits
  have magnitude := format.magnitude_eq word
  have small := format.magnitude_div_lt word
  have fraction := Nat.mod_lt word (Nat.pow_pos two_pos : 0 < 2 ^ format.fractionBits)
  simp only [decode, Nat.pow_eq] at decoded
  generalize format.magnitude word / 2 ^ format.fractionBits = field at *
  generalize word % 2 ^ format.fractionBits = part at *
  -- A field of all ones is infinite or no number; a field of zero is subnormal; the others have a
  -- leading bit that is not written.
  split at decoded
  · split at decoded <;> cases decoded
  · next below =>
    have finite : format.magnitude word < format.infinityWord := by
      rw [magnitude, infinityWord, Nat.pow_eq, Nat.pow_eq]
      calc field * 2 ^ format.fractionBits + part
          < (field + 1) * 2 ^ format.fractionBits := by rw [Nat.add_mul]; omega
        _ ≤ (2 ^ format.exponentBits - 1) * 2 ^ format.fractionBits :=
            Nat.mul_le_mul_right _ (by omega)
    split at decoded
    · next subnormal =>
      cases decoded
      have same : format.magnitudeWord significand format.minExponent = format.magnitude word := by
        rw [magnitude, subnormal, magnitudeWord, Int.sub_self, Int.toNat_zero]
      refine ⟨by rw [same, parts], (Nat.eq_zero_or_pos significand).imp (⟨·, rfl⟩) ?_⟩
      intro positive
      exact ⟨positive, by rw [Nat.pow_succ]; omega, Int.le_refl _, .inl rfl, by rwa [same]⟩
    · next normal =>
      cases decoded
      have same : format.magnitudeWord (2 ^ format.fractionBits + part)
          (format.minExponent + field - 1) = format.magnitude word := by
        obtain ⟨count, rfl⟩ := Nat.exists_eq_succ_of_ne_zero normal
        have steps : (format.minExponent + (count + 1 : Nat) - 1 - format.minExponent).toNat =
            count := by omega
        rw [magnitude, magnitudeWord, steps, Nat.succ_mul, Nat.add_assoc]
      refine ⟨by rw [same, parts], .inr ⟨?_, ?_, by omega, .inr (Nat.le_add_right _ _),
        by rwa [same]⟩⟩
      · exact Nat.lt_of_lt_of_le (Nat.pow_pos two_pos) (Nat.le_add_right _ _)
      · rw [Nat.pow_succ]
        omega

/-- **The word of an infinity.** -/
theorem decode_infinite {word : Nat} {negative : Bool} (fits : word < 2 * format.signWord)
    (decoded : format.decode word = .infinite negative) :
    word = format.withSign negative format.infinityWord := by
  have parts := format.withSign_magnitude fits
  have magnitude := format.magnitude_eq word
  simp only [decode, Nat.pow_eq] at decoded
  split at decoded
  · next full =>
    split at decoded
    · next none =>
      cases decoded
      rw [full, none, Nat.add_zero] at magnitude
      rw [infinityWord, Nat.pow_eq, Nat.pow_eq, ← magnitude, parts]
    · cases decoded
  · split at decoded <;> cases decoded

end Format

/-! ## Reading decimals -/

/-- The decimal digits of a number are digits. -/
theorem isDigit_toDigits (number : Nat) : ∀ char ∈ Nat.toDigits 10 number, char.isDigit = true :=
  fun _ member => Nat.isDigit_of_mem_toDigits (by decide) (by decide) member

/-- The decimal digits of a number have it for their value. -/
theorem digitsValue_toDigits (number : Nat) : digitsValue (Nat.toDigits 10 number) = number :=
  Nat.ofDigitChars_toDigits (by decide) (by decide)

/-- Digits after digits. -/
theorem digitsValue_append (front rest : List Char) :
    digitsValue (front ++ rest) = 10 ^ rest.length * digitsValue front + digitsValue rest := by
  refine (Nat.ofDigitChars_append 0).trans ?_
  exact Nat.ofDigitChars_eq_ofDigitChars_zero

/-- Zeros have the value zero, however many there are. -/
theorem digitsValue_replicate_zero (count : Nat) : digitsValue (List.replicate count '0') = 0 :=
  Nat.ofDigitChars_replicate_zero.trans (Nat.mul_zero _)

/-- A single zero has the value zero. -/
theorem digitsValue_zero : digitsValue ['0'] = 0 :=
  rfl

/-- The decimal digits of a number are read as it. -/
theorem readDigits?_toDigits (number : Nat) :
    readDigits? (Nat.toDigits 10 number) = some number := by
  rw [readDigits?, if_pos ⟨Nat.toDigits_ne_nil, List.all_eq_true.mpr (isDigit_toDigits number)⟩,
    digitsValue_toDigits]

/-- Digits and what follows them are told apart. -/
theorem span_digits (digits rest : List Char) (allDigits : ∀ char ∈ digits, char.isDigit = true)
    (stops : ∀ char ∈ rest.head?, char.isDigit = false) :
    (digits ++ rest).takeWhile Char.isDigit = digits ∧
      (digits ++ rest).dropWhile Char.isDigit = rest := by
  rw [List.takeWhile_append_of_pos allDigits, List.dropWhile_append_of_pos allDigits]
  cases rest with
  | nil => simp
  | cons char rest => simp [stops char rfl]

/-- A decimal without a point. -/
theorem readDecimal?_whole (whole tail : List Char) (nonempty : whole ≠ [])
    (wholeDigits : ∀ char ∈ whole, char.isDigit = true)
    (stops : ∀ char ∈ tail.head?, char.isDigit = false ∧ char ≠ '.') :
    readDecimal? (whole ++ tail) =
      (readExponent? tail).map fun exponent => ⟨digitsValue whole, exponent⟩ := by
  obtain ⟨front, back⟩ := span_digits whole tail wholeDigits fun char first => (stops char first).1
  unfold readDecimal?
  rw [front, back]
  cases tail with
  | nil => simp [nonempty, Option.map_eq_bind]
  | cons char tail =>
    have notPoint := (stops char rfl).2
    simp [nonempty, notPoint, Option.map_eq_bind]

/-- A decimal with a point. -/
theorem readDecimal?_point (whole fraction tail : List Char) (nonempty : whole ≠ [])
    (wholeDigits : ∀ char ∈ whole, char.isDigit = true)
    (fractionDigits : ∀ char ∈ fraction, char.isDigit = true)
    (stops : ∀ char ∈ tail.head?, char.isDigit = false) :
    readDecimal? (whole ++ '.' :: (fraction ++ tail)) =
      (readExponent? tail).map fun exponent =>
        ⟨digitsValue (whole ++ fraction), exponent - fraction.length⟩ := by
  obtain ⟨front, back⟩ := span_digits whole ('.' :: (fraction ++ tail)) wholeDigits (by simp)
  obtain ⟨fore, after⟩ := span_digits fraction tail fractionDigits stops
  unfold readDecimal?
  rw [front, back]
  simp [fore, after, nonempty, Option.map_eq_bind]

/-- Whether a text starts with neither sign. -/
def Unsigned (text : List Char) : Prop :=
  ∀ char ∈ text.head?, char ≠ '-' ∧ char ≠ '+'

/-- A sign is told apart from a text that starts with none. -/
theorem splitSign_sign (negative : Bool) {text : List Char} (unsigned : Unsigned text) :
    splitSign ((if negative then "-" else "").toList ++ text) = (negative, text) := by
  cases negative with
  | true => rfl
  | false =>
    show splitSign text = _
    unfold splitSign
    split
    · exact absurd rfl (unsigned '-' rfl).1
    · exact absurd rfl (unsigned '+' rfl).2
    · rfl

/-- The decimal digits of a number are without a sign. -/
theorem unsigned_toDigits (number : Nat) : Unsigned (Nat.toDigits 10 number) := by
  intro char member
  have digit := isDigit_toDigits number char (List.mem_of_mem_head? member)
  constructor <;> rintro rfl <;> cases digit

/-- The text of an integer. -/
theorem splitSign_toString (value : Int) :
    splitSign (toString value).toList = (decide (value < 0), Nat.toDigits 10 value.natAbs) := by
  have sign : (toString value).toList =
      (if decide (value < 0) then "-" else "").toList ++ Nat.toDigits 10 value.natAbs := by
    rw [Int.toString_eq_repr, Int.repr_eq_if]
    split
    · next natural =>
      rw [decide_eq_false (Int.not_lt.mpr natural), Nat.toList_repr,
        show value.toNat = value.natAbs by omega]
      rfl
    · next negative =>
      rw [decide_eq_true (Int.not_le.mp negative), String.toList_append, Nat.toList_repr,
        show (-value).toNat = value.natAbs by omega]
      rfl
  rw [sign, splitSign_sign _ (unsigned_toDigits _)]

/-- An exponent at the end of a number. -/
theorem readExponent?_toString (exponent : Int) :
    readExponent? ('e' :: (toString exponent).toList) = some exponent := by
  rw [readExponent?, if_pos (.inl rfl), splitSign_toString]
  simp only [readDigits?_toDigits]
  show some _ = some exponent
  congr 1
  dsimp only
  by_cases negative : exponent < 0
  · rw [decide_eq_true negative, if_pos rfl]
    omega
  · rw [decide_eq_false negative, if_neg Bool.false_ne_true]
    omega

/-- A decimal with a point and no exponent. -/
theorem readDecimal?_fraction (whole fraction : List Char) (nonempty : whole ≠ [])
    (wholeDigits : ∀ char ∈ whole, char.isDigit = true)
    (fractionDigits : ∀ char ∈ fraction, char.isDigit = true) :
    readDecimal? (whole ++ '.' :: fraction) =
      some ⟨digitsValue (whole ++ fraction), -fraction.length⟩ := by
  have read := readDecimal?_point whole fraction [] nonempty wholeDigits fractionDigits (by simp)
  rwa [List.append_nil, readExponent?, Option.map_some, Int.zero_sub] at read

/-- Zeros are digits. -/
theorem isDigit_replicate_zero (count : Nat) :
    ∀ char ∈ List.replicate count '0', char.isDigit = true := by
  intro char member
  rw [(List.mem_replicate.mp member).2]
  rfl

section Positional

variable {digits : List Char}

/-- Zeros before the point take the place of the exponent. -/
theorem readDecimal?_padded (count : Nat) (nonempty : digits ≠ [])
    (allDigits : ∀ char ∈ digits, char.isDigit = true) :
    ∃ decimal : Decimal,
      readDecimal? (digits ++ List.replicate count '0' ++ ['.', '0']) = some decimal ∧
        decimal.value = digitsValue digits * 10 ^ (count : Int) := by
  have whole : ∀ char ∈ digits ++ List.replicate count '0', char.isDigit = true := by
    intro char member
    exact (List.mem_append.mp member).elim (allDigits char) (isDigit_replicate_zero _ char)
  have fraction := readDecimal?_fraction _ ['0'] (by simp [nonempty]) whole
    (isDigit_replicate_zero 1)
  refine ⟨_, fraction, ?_⟩
  have value : digitsValue (digits ++ List.replicate count '0' ++ ['0']) =
      10 ^ (count + 1) * digitsValue digits := by
    rw [digitsValue_append, digitsValue_append, digitsValue_replicate_zero, digitsValue_zero,
      List.length_replicate, List.length_singleton]
    ring
  rw [Decimal.value, value, List.length_singleton, zpow_natCast]
  push_cast
  rw [zpow_neg_one, pow_succ]
  ring

/-- A point between the digits counts those after it. -/
theorem readDecimal?_between {place : Nat} (positive : 0 < place) (nonempty : digits ≠ [])
    (allDigits : ∀ char ∈ digits, char.isDigit = true) :
    readDecimal? (digits.take place ++ '.' :: digits.drop place) =
      some ⟨digitsValue digits, -(digits.length - place : Nat)⟩ := by
  have fraction := readDecimal?_fraction (digits.take place) (digits.drop place)
    (by simp [nonempty]; omega) (fun char member => allDigits char (List.mem_of_mem_take member))
    fun char member => allDigits char (List.mem_of_mem_drop member)
  rwa [List.take_append_drop, List.length_drop] at fraction

/-- Zeros after the point come before the digits. -/
theorem readDecimal?_beyond (count : Nat) (allDigits : ∀ char ∈ digits, char.isDigit = true) :
    readDecimal? (['0'] ++ '.' :: (List.replicate count '0' ++ digits)) =
      some ⟨digitsValue digits, -(count + digits.length : Nat)⟩ := by
  have fraction := readDecimal?_fraction ['0'] (List.replicate count '0' ++ digits) (by simp)
    (isDigit_replicate_zero 1) fun char member =>
      (List.mem_append.mp member).elim (isDigit_replicate_zero count char) (allDigits char)
  rwa [digitsValue_append, digitsValue_append, digitsValue_replicate_zero, digitsValue_zero,
    Nat.mul_zero, Nat.mul_zero, Nat.zero_add, Nat.zero_add, List.length_append,
    List.length_replicate] at fraction

/-- In positional notation a decimal reads back as the same number. -/
theorem readDecimal?_positional (exponent : Int) (nonempty : digits ≠ [])
    (allDigits : ∀ char ∈ digits, char.isDigit = true) :
    ∃ decimal : Decimal,
      readDecimal? (Value.layout.positional digits exponent).toList = some decimal ∧
        decimal.value = digitsValue digits * 10 ^ exponent := by
  unfold Layout.positional
  dsimp only
  -- The point comes after all digits, between them, or before all of them.
  split
  · next natural =>
    obtain ⟨count, rfl⟩ := Int.eq_ofNat_of_zero_le natural
    rw [String.toList_append, String.toList_ofList]
    exact readDecimal?_padded count nonempty allDigits
  · next fractional =>
    split
    · next inside =>
      have fraction := readDecimal?_between (Int.pos_iff_toNat_pos.mp inside) nonempty allDigits
      simp only [String.toList_append, String.toList_ofList, List.append_assoc]
      refine ⟨_, fraction, ?_⟩
      rw [Decimal.value]
      congr 2
      show (-(digits.length - (digits.length + exponent).toNat : Nat) : Int) = exponent
      omega
    · next beyond =>
      have fraction := readDecimal?_beyond (-(digits.length + exponent)).toNat allDigits
      simp only [String.toList_append, String.toList_ofList]
      refine ⟨_, fraction, ?_⟩
      rw [Decimal.value]
      congr 2
      show (-((-(digits.length + exponent)).toNat + digits.length : Nat) : Int) = exponent
      omega

end Positional

/-- In scientific notation a decimal reads back as it is. -/
theorem readDecimal?_scientific {digits : List Char} (exponent : Int) (nonempty : digits ≠ [])
    (allDigits : ∀ char ∈ digits, char.isDigit = true) :
    readDecimal? (Value.layout.scientific digits exponent).toList =
      some ⟨digitsValue digits, exponent⟩ := by
  obtain ⟨first, fraction, rfl⟩ := List.exists_cons_of_ne_nil nonempty
  have single : ∀ char ∈ [first], char.isDigit = true := by
    simpa using allDigits first List.mem_cons_self
  have mark (value : Int) : ∀ char ∈ ('e' :: (toString value).toList).head?,
      char.isDigit = false ∧ char ≠ '.' := by
    intro char member
    cases Option.some.inj member
    decide
  unfold Layout.scientific
  cases fraction with
  | nil =>
    have whole := readDecimal?_whole [first] _ (by simp) single (mark exponent)
    rw [readExponent?_toString, Option.map_some] at whole
    simpa [Value.layout] using whole
  | cons second rest =>
    generalize scale_eq : exponent + ((second :: rest).length : Nat) = scale
    have point := readDecimal?_point [first] (second :: rest) _ (by simp) single
      (fun char member => allDigits char (List.mem_cons_of_mem first member))
      fun char member => (mark scale char member).1
    rw [readExponent?_toString, Option.map_some, List.singleton_append] at point
    refine Eq.trans (congrArg readDecimal? ?_) (point.trans ?_)
    · simp [Value.layout, ← scale_eq]
    · congr 2
      omega

/-- **A decimal reads back as the same number**, in whichever notation it is written. -/
theorem readDecimal?_decimal (number : Decimal) :
    ∃ decimal : Decimal, readDecimal? (Value.layout.decimal number).toList = some decimal ∧
      decimal.value = number.value := by
  have value := digitsValue_toDigits number.digits
  unfold Layout.decimal
  dsimp only
  split
  · obtain ⟨decimal, read, same⟩ := readDecimal?_positional number.exponent
      Nat.toDigits_ne_nil (isDigit_toDigits number.digits)
    exact ⟨decimal, read, by rw [same, value, Decimal.value]⟩
  · exact ⟨_, readDecimal?_scientific number.exponent Nat.toDigits_ne_nil
      (isDigit_toDigits number.digits), by rw [value]⟩

/-- The text of a decimal starts with a digit or the point. -/
theorem head?_of_readDecimal? {text : List Char} {decimal : Decimal}
    (read : readDecimal? text = some decimal) :
    ∃ char ∈ text.head?, char.isDigit = true ∨ char = '.' := by
  cases text with
  | nil => cases read
  | cons char rest =>
    refine ⟨char, rfl, ?_⟩
    by_contra neither
    obtain ⟨notDigit, notPoint⟩ := not_or.mp neither
    simp [readDecimal?, notDigit, notPoint] at read

/-- Digits have no case. -/
theorem toLower_of_isDigit {char : Char} (digit : char.isDigit = true) : char.toLower = char := by
  simp only [Char.isDigit, Bool.and_eq_true, decide_eq_true_eq] at digit
  refine dif_neg fun upper => ?_
  have := UInt32.le_trans upper.1 digit.2
  revert this
  decide

/-- **A decimal under a sign is read as a word.** -/
theorem readWord?_sign (format : Format) (negative : Bool) {text : String} {decimal : Decimal}
    (read : readDecimal? text.toList = some decimal) :
    readWord? format ((if negative then "-" else "") ++ text) =
      some (decimal.toWord format negative) := by
  obtain ⟨first, member, start⟩ := head?_of_readDecimal? read
  have unsigned : Unsigned text.toList := by
    intro char other
    cases Option.mem_unique member other
    rcases start with digit | rfl
    · constructor <;> rintro rfl <;> cases digit
    · decide
  have lower : first.toLower ≠ 'i' ∧ first.toLower ≠ 'n' := by
    rcases start with digit | rfl
    · rw [toLower_of_isDigit digit]
      constructor <;> rintro rfl <;> cases digit
    · decide
  have unnamed {name : String}
      (letter : name.toList.head? = some 'i' ∨ name.toList.head? = some 'n') :
      String.ofList (text.toList.map Char.toLower) ≠ name := by
    rintro rfl
    rw [String.toList_ofList, List.head?_map, member] at letter
    simp [lower] at letter
  -- What starts with a digit or a point is none of the names of words that are no numbers.
  rw [readWord?, String.toList_append, splitSign_sign negative unsigned]
  dsimp only
  rw [if_neg (not_or.mpr ⟨unnamed (.inl rfl), unnamed (.inl rfl)⟩), if_neg (unnamed (.inr rfl)),
    read, Option.map_some]

/-- **The text of a word that is a number reads back as the word.** -/
theorem readWord?_write {format : Format} (proportionate : format.IsProportionate) {word : Nat}
    (fits : word < 2 * format.signWord) (number : format.decode word ≠ .nan) :
    readWord? format (Value.layout.write format word) = some word := by
  unfold Layout.write
  cases decoded : format.decode word with
  | nan => exact absurd decoded number
  | infinite negative =>
    have unsigned : Unsigned "inf".toList := by
      intro char member
      cases Option.some.inj member
      decide
    show readWord? format ((if negative then "-" else "") ++ "inf") = _
    rw [Format.decode_infinite fits decoded, readWord?, String.toList_append,
      splitSign_sign negative unsigned]
    exact if_pos (.inl (by decide))
  | finite negative significand exponent =>
    obtain ⟨word_eq, zero | holds⟩ := Format.decode_finite fits decoded
    · obtain ⟨rfl, rfl⟩ := zero
      have read : readDecimal? "0.0".toList = some ⟨0, -1⟩ := by decide
      refine (readWord?_sign format negative read).trans ?_
      rw [word_eq, Format.magnitudeWord, Int.sub_self, Decimal.toWord, if_pos (.inl rfl)]
      simp
    · obtain ⟨decimal, read, value⟩ :=
        readDecimal?_decimal (Decimal.shortest format significand exponent)
      dsimp only
      rw [if_neg holds.positive.ne', readWord?_sign format negative read, word_eq,
        Decimal.toWord_of_contains negative decimal proportionate holds]
      rw [value]
      exact shortest_contains proportionate holds

end WasmCompiler.Floating

namespace WasmCompiler.Value

open Floating

/-- Whether a value is not a number. -/
def isNan : Value → Bool
  | .i32 _ | .i64 _ => false
  | .f32 bits => binary32.isNan bits.toNat
  | .f64 bits => binary64.isNan bits.toNat

/-- A word that is a number does not decode to something else. -/
theorem decode_ne_nan {format : Format} {word : Nat} (number : format.isNan word = false) :
    format.decode word ≠ .nan := by
  intro missing
  rw [Format.isNan, missing] at number
  cases number

/-- **The decimal text of an integer** is read as its word. -/
theorem readInteger?_toString {width : Nat} (bits : BitVec width) :
    readInteger? width (toString bits.toInt) = some bits := by
  have sign : (if decide (bits.toInt < 0) = true then -(bits.toInt.natAbs : Int)
      else bits.toInt.natAbs) = bits.toInt := by
    by_cases negative : bits.toInt < 0
    · rw [if_pos (decide_eq_true negative)]
      omega
    · rw [if_neg (by simpa using negative)]
      omega
  have range : -((Nat.pow 2 (width - 1) : Nat) : Int) ≤ bits.toInt ∧
      bits.toInt < (Nat.pow 2 (width - 1) : Nat) := by
    have low := BitVec.le_toInt bits
    have high := BitVec.toInt_lt (x := bits)
    rw [Nat.pow_eq]
    push_cast
    exact ⟨low, high⟩
  rw [readInteger?, splitSign_toString]
  simp only [readDigits?_toDigits, Option.bind_eq_bind, Option.bind_some, sign, guard, if_pos range,
    BitVec.ofInt_toInt]
  rfl

/-- **The text of a constant that is a number reads back as the constant**, at its type. -/
theorem read?_text {value : Value} (number : value.isNan = false) :
    read? value.type value.text = some value := by
  cases value with
  | i32 bits =>
    show (readInteger? 32 (toString bits.toInt)).map _ = _
    rw [readInteger?_toString, Option.map_some]
  | i64 bits =>
    show (readInteger? 64 (toString bits.toInt)).map _ = _
    rw [readInteger?_toString, Option.map_some]
  | f32 bits =>
    show (readWord? binary32 (layout.write binary32 bits.toNat)).map _ = _
    rw [readWord?_write isProportionate_binary32 bits.isLt (decode_ne_nan number), Option.map_some,
      BitVec.ofNat_toNat, BitVec.setWidth_eq]
  | f64 bits =>
    show (readWord? binary64 (layout.write binary64 bits.toNat)).map _ = _
    rw [readWord?_write isProportionate_binary64 bits.isLt (decode_ne_nan number), Option.map_some,
      BitVec.ofNat_toNat, BitVec.setWidth_eq]

/-! ## Characters of a text -/

/-- Whether a character separates words. -/
def isSeparator (char : Char) : Bool :=
  char == ' ' || char == ',' || char == '(' || char == ')' || char == '\n'

/-- Whether a text has no separators. -/
def Solid (text : String) : Prop :=
  ∀ char ∈ text.toList, isSeparator char = false

instance : DecidablePred Solid :=
  fun text => List.decidableBAll (isSeparator · = false) text.toList

/-- Texts in a row have no separators if neither has. -/
@[simp] theorem solid_append {left right : String} :
    Solid (left ++ right) ↔ Solid left ∧ Solid right := by
  simp only [Solid, String.toList_append, List.mem_append, or_imp, forall_and]

/-- A text of characters has no separators if none of them is one. -/
theorem solid_ofList {text : List Char} :
    Solid (String.ofList text) ↔ ∀ char ∈ text, isSeparator char = false := by
  rw [Solid, String.toList_ofList]

/-- Digits separate nothing. -/
theorem isSeparator_of_isDigit {char : Char} (digit : char.isDigit = true) :
    isSeparator char = false := by
  by_contra separator
  simp only [isSeparator, Bool.not_eq_false, Bool.or_eq_true, beq_iff_eq] at separator
  rcases separator with (((rfl | rfl) | rfl) | rfl) | rfl <;> cases digit

/-- Digits have no separators. -/
theorem solid_digits {digits : List Char} (allDigits : ∀ char ∈ digits, char.isDigit = true) :
    Solid (String.ofList digits) :=
  solid_ofList.mpr fun char member => isSeparator_of_isDigit (allDigits char member)

/-- The decimal text of a number has no separators. -/
theorem solid_repr (number : Nat) : Solid number.repr :=
  solid_digits (isDigit_toDigits number)

/-- Nor has that of an integer. -/
theorem solid_toString (number : Int) : Solid (toString number) := by
  rw [Int.toString_eq_repr, Int.repr_eq_if]
  split
  · exact solid_repr _
  · exact solid_append.mpr ⟨by decide, solid_repr _⟩

/-- Nor has a decimal in either notation. -/
theorem solid_decimal (number : Decimal) : Solid (layout.decimal number) := by
  have digits := isDigit_toDigits number.digits
  have zeros := isDigit_replicate_zero
  unfold Layout.decimal
  dsimp only
  generalize Nat.toDigits 10 number.digits = text at *
  have taken (count : Nat) : Solid (String.ofList (text.take count)) :=
    solid_digits fun char member => digits char (List.mem_of_mem_take member)
  have dropped (count : Nat) : Solid (String.ofList (text.drop count)) :=
    solid_digits fun char member => digits char (List.mem_of_mem_drop member)
  split
  · unfold Layout.positional
    dsimp only
    split
    · refine solid_append.mpr ⟨solid_digits fun char member => ?_, by decide⟩
      exact (List.mem_append.mp member).elim (digits char) (zeros _ char)
    · split
      · exact solid_append.mpr ⟨solid_append.mpr ⟨taken _, by decide⟩, dropped _⟩
      · refine solid_append.mpr ⟨by decide, solid_digits fun char member => ?_⟩
        exact (List.mem_append.mp member).elim (zeros _ char) (digits char)
  · have fraction : Solid (if (text.drop 1).isEmpty then "" else
        "." ++ String.ofList (text.drop 1)) := by
      split
      · decide
      · exact solid_append.mpr ⟨by decide, dropped 1⟩
    simp only [Layout.scientific, solid_append]
    exact ⟨⟨⟨taken 1, fraction⟩, by decide⟩, solid_toString _⟩

/-- **The text of a floating-point number has no separators**, whatever it is. -/
theorem solid_write (format : Format) (word : Nat) : Solid (layout.write format word) := by
  have sign (negative : Bool) : Solid (if negative then "-" else "") := by
    cases negative <;> decide
  unfold Layout.write
  dsimp only
  split
  · decide
  · exact solid_append.mpr ⟨sign _, by decide⟩
  · refine solid_append.mpr ⟨sign _, ?_⟩
    split
    · decide
    · exact solid_decimal _

/-- **The text of a constant has no separators.** -/
theorem solid_text (value : Value) : Solid value.text := by
  cases value with
  | i32 bits => exact solid_toString bits.toInt
  | i64 bits => exact solid_toString bits.toInt
  | f32 bits => exact solid_write binary32 bits.toNat
  | f64 bits => exact solid_write binary64 bits.toNat

end WasmCompiler.Value
