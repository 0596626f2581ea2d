import Mathlib.Algebra.Order.Field.Power
import Mathlib.Algebra.Order.Field.Rat
import Mathlib.Data.Nat.Bitwise
import Mathlib.Data.Rat.Floor
import Mathlib.Order.WithBotTop
import Mathlib.Tactic.Ring
import WasmCompiler.Machine.Numeric
import WasmCompiler.NumericOp

/-! # Floating-point words as numbers

A word has a sign, an exponent and a fraction, and stands for a rational number, an infinity or
nothing. Comparisons are about these numbers: what is not a number stands in no relation to
anything, itself included. The machine compares exact data by bringing them to one exponent, and
comes to the same, as it does for the integer part of a number.

* **`Format.quantity?`** — the number that a word stands for;
* **`FloatComparison.Holds`** — when a comparison holds;
* **`integerPart`** — the integer part of a number;
* **`Datum.compare?_eq`**, **`Datum.truncate?_eq_some_iff`** — exact data by their numbers;
* **`equal_iff`**, **`less_iff`**, **`lessOrEqual_iff`** — what the machine compares. -/

namespace WasmCompiler

namespace Floating

/-- A number, finite or infinite. -/
abbrev Quantity := WithBotTop ℚ

/-- **The number that a word stands for**, if it is one. The exponent is read with a bias; that of
zero goes with fractions below one, and the greatest one with infinities and with what is not a
number. -/
def Format.quantity? (format : Format) (word : Nat) : Option Quantity :=
  let negative := word.testBit (format.exponentBits + format.fractionBits)
  let sign : ℚ := if negative then -1 else 1
  let exponent := word / 2 ^ format.fractionBits % 2 ^ format.exponentBits
  let fraction : Nat := word % 2 ^ format.fractionBits
  let part : ℚ := fraction / 2 ^ format.fractionBits
  let bias : Int := (2 ^ (format.exponentBits - 1) : Nat) - 1
  if exponent = 2 ^ format.exponentBits - 1 then
    if fraction = 0 then some (if negative then ⊥ else ⊤) else none
  else if exponent = 0 then some (sign * part * 2 ^ (1 - bias) : ℚ)
  else some (sign * (1 + part) * 2 ^ (exponent - bias) : ℚ)

/-- **The integer part of a number**: it is rounded toward zero. -/
def integerPart (number : ℚ) : Int :=
  if number < 0 then ⌈number⌉ else ⌊number⌋

/-- Whether two numbers stand in a relation. What is not a number does not. -/
def Related (relation : Quantity → Quantity → Prop) (left right : Option Quantity) : Prop :=
  ∃ x y, left = some x ∧ right = some y ∧ relation x y

/-- Relations between numbers that are the same are the same between words. -/
theorem related_congr {relation other : Quantity → Quantity → Prop}
    {left right : Option Quantity} (same : ∀ x y, relation x y ↔ other x y) :
    Related relation left right ↔ Related other left right := by
  simp only [Related, same]

end Floating

open Floating (Quantity Related)

/-- **When a comparison of two floating-point numbers holds.** -/
def FloatComparison.Holds (comparison : FloatComparison) (left right : Option Quantity) : Prop :=
  match comparison with
  | .eq => Related (· = ·) left right
  | .ne => ¬Related (· = ·) left right
  | .lt => Related (· < ·) left right
  | .gt => Related (· > ·) left right
  | .le => Related (· ≤ ·) left right
  | .ge => Related (· ≥ ·) left right

/-- **Of what is not a number only a difference holds.** -/
theorem FloatComparison.holds_iff_ne {comparison : FloatComparison} {left right : Option Quantity}
    (missing : left = none ∨ right = none) : comparison.Holds left right ↔ comparison = .ne := by
  have unrelated (relation : Quantity → Quantity → Prop) : ¬Related relation left right := by
    rintro ⟨x, y, rfl, rfl, -⟩
    rcases missing with missing | missing <;> cases missing
  cases comparison <;> simp [Holds, unrelated]

namespace Floating

namespace Datum

/-- The number that an exact datum is. -/
def quantity? : Datum → Option Quantity
  | .nan => none
  | .infinite negative => some (if negative then ⊥ else ⊤)
  | .finite negative significand exponent => some (signed negative significand * 2 ^ exponent : ℚ)

/-- A finite datum with a lower exponent. -/
theorem mul_zpow_eq {exponent lower : Int} (below : lower ≤ exponent) (significand : Int) :
    (significand * 2 ^ exponent : ℚ) =
      (significand * Nat.pow 2 (exponent - lower).toNat : Int) * 2 ^ lower := by
  have split : exponent = ((exponent - lower).toNat : Int) + lower := by omega
  conv_lhs => rw [split, zpow_add₀ two_ne_zero, zpow_natCast]
  push_cast [Nat.pow_eq]
  ring

/-- Infinities are apart from finite numbers. -/
theorem cmp_infinite (negative : Bool) (number : ℚ) :
    cmp (if negative then ⊥ else ⊤) (number : Quantity) = (if negative then .lt else .gt) ∧
      cmp (number : Quantity) (if negative then ⊥ else ⊤) = if negative then .gt else .lt := by
  have low := bot_lt_iff_ne_bot.mpr (WithBotTop.coe_ne_bot number)
  have high := lt_top_iff_ne_top.mpr (WithBotTop.coe_ne_top number)
  cases negative with
  | false => exact ⟨(cmp_eq_gt_iff _ _).mpr high, (cmp_eq_lt_iff _ _).mpr high⟩
  | true => exact ⟨(cmp_eq_lt_iff _ _).mpr low, (cmp_eq_gt_iff _ _).mpr low⟩

/-- **Data are in the order of their numbers.** -/
theorem compare?_eq (left right : Datum) : left.compare? right =
    match left.quantity?, right.quantity? with
    | some x, some y => some (cmp x y)
    | _, _ => none := by
  cases left with
  | nan => rfl
  | infinite negative =>
      cases right with
      | nan => rfl
      | infinite other => cases negative <;> cases other <;> rfl
      | finite other significand exponent =>
          exact congrArg some (cmp_infinite negative _).1.symm
  | finite negative significand exponent =>
      cases right with
      | nan => rfl
      | infinite other => exact congrArg some (cmp_infinite other _).2.symm
      | finite other otherSignificand otherExponent =>
          -- Both numbers are brought to the lower of the two exponents, which is positive.
          have positive : (0 : ℚ) < 2 ^ min exponent otherExponent := zpow_pos two_pos _
          refine congrArg some ?_
          rw [WithBotTop.coe_strictMono.cmp_map_eq,
            mul_zpow_eq (Int.min_le_left exponent otherExponent),
            mul_zpow_eq (Int.min_le_right exponent otherExponent), cmp_mul_pos_right positive,
            Int.cast_strictMono.cmp_map_eq, cmp_eq_compare]

/-- Two data are in an order if the numbers they stand for are. -/
theorem compare?_eq_some_iff {left right : Datum} {order : Ordering} :
    left.compare? right = some order ↔
      Related (fun x y => cmp x y = order) left.quantity? right.quantity? := by
  rw [compare?_eq]
  cases left.quantity? with
  | none =>
      constructor
      · intro same
        cases same
      · rintro ⟨x, y, first, -⟩
        cases first
  | some x =>
      cases right.quantity? with
      | none =>
          constructor
          · intro same
            cases same
          · rintro ⟨x, y, -, second, -⟩
            cases second
      | some y =>
          constructor
          · intro same
            exact ⟨x, y, rfl, rfl, Option.some.inj same⟩
          · rintro ⟨_, _, first, second, same⟩
            cases first
            cases second
            exact congrArg some same

/-- A magnitude as a fraction of two natural numbers. -/
theorem mul_zpow_eq_div (significand : Nat) (exponent : Int) :
    (significand * 2 ^ exponent : ℚ) =
      (significand * Nat.pow 2 exponent.toNat : Nat) / (Nat.pow 2 (-exponent).toNat : Nat) := by
  conv_lhs => rw [← Int.toNat_sub_toNat_neg exponent, zpow_sub₀ two_ne_zero]
  rw [zpow_natCast, zpow_natCast, mul_div_assoc', Nat.pow_eq, Nat.pow_eq]
  push_cast
  rfl

/-- The integer part of a number is that of its magnitude under its sign. -/
theorem integerPart_signed (negative : Bool) (significand : Nat) (exponent : Int) :
    integerPart (signed negative significand * 2 ^ exponent : ℚ) =
      signed negative
        (significand * Nat.pow 2 exponent.toNat / Nat.pow 2 (-exponent).toNat) := by
  have magnitude : ⌊(significand * 2 ^ exponent : ℚ)⌋ =
      (significand * Nat.pow 2 exponent.toNat / Nat.pow 2 (-exponent).toNat : Nat) := by
    rw [mul_zpow_eq_div, Rat.floor_natCast_div_natCast, Int.natCast_ediv]
  have nonnegative : (0 : ℚ) ≤ significand * 2 ^ exponent :=
    mul_nonneg (Nat.cast_nonneg significand) (zpow_nonneg two_pos.le exponent)
  cases negative with
  | false =>
      rw [signed, signed, if_neg Bool.false_ne_true, if_neg Bool.false_ne_true, Int.cast_natCast,
        integerPart, if_neg nonnegative.not_gt, magnitude]
  | true =>
      rw [signed, signed, if_pos rfl, if_pos rfl, Int.cast_neg, Int.cast_natCast, neg_mul,
        integerPart, Int.ceil_neg, magnitude]
      split
      · rfl
      -- A number that is not below zero with its sign turned is zero.
      · next zero =>
          have none : (significand * 2 ^ exponent : ℚ) = 0 := by linarith
          rw [none, Int.floor_zero] at magnitude
          rw [none, neg_zero, Int.floor_zero, ← magnitude, neg_zero]

/-- A datum is cut down to the integer part of the number it stands for. -/
theorem truncate?_eq_some_iff {datum : Datum} {integer : Int} :
    datum.truncate? = some integer ↔
      ∃ number : ℚ, datum.quantity? = some (number : Quantity) ∧ integerPart number = integer := by
  cases datum with
  | nan => simp [truncate?, quantity?]
  | infinite negative =>
      refine ⟨nofun, ?_⟩
      rintro ⟨number, same, -⟩
      have finite := (Option.some.inj same).symm
      cases negative with
      | false => exact absurd finite (WithBotTop.coe_ne_top number)
      | true => exact absurd finite (WithBotTop.coe_ne_bot number)
  | finite negative significand exponent =>
      simp only [truncate?, quantity?, Option.some.injEq,
        WithBotTop.coe_strictMono.injective.eq_iff, exists_eq_left', integerPart_signed]

/-- Only what is not a number stands for none. -/
theorem quantity?_eq_none_iff {datum : Datum} : datum.quantity? = none ↔ datum.isNan = true := by
  cases datum <;> simp [quantity?, isNan]

end Datum

namespace Format

variable (format : Format)

/-- The sign bit of a word. -/
theorem isNegative_eq_testBit (word : Nat) :
    format.isNegative word = word.testBit (format.exponentBits + format.fractionBits) := by
  rw [isNegative, signWord, Nat.testBit_eq_decide_div_mod_eq, Nat.pow_eq]
  rfl

/-- The exponent of a word, as it is written. -/
theorem magnitude_div (word : Nat) :
    format.magnitude word / 2 ^ format.fractionBits =
      word / 2 ^ format.fractionBits % 2 ^ format.exponentBits := by
  rw [magnitude, signWord, Nat.pow_eq, Nat.pow_add, Nat.mul_comm, Nat.mod_mul_right_div_self]

/-- A finite datum, with its significand as a fraction under a sign. -/
theorem signed_mul_zpow (negative : Bool) (significand : Nat) (exponent : Int) (bits : Nat) :
    ((Datum.signed negative significand : Int) * 2 ^ (exponent - bits) : ℚ) =
      (if negative then -1 else 1) * (significand / 2 ^ bits) * 2 ^ exponent := by
  rw [zpow_sub₀ two_ne_zero, zpow_natCast, Datum.signed]
  cases negative with
  | false =>
      rw [if_neg Bool.false_ne_true, if_neg Bool.false_ne_true, Int.cast_natCast]
      ring
  | true =>
      rw [if_pos rfl, if_pos rfl, Int.cast_neg, Int.cast_natCast]
      ring

/-- **A word stands for the number of its exact datum.** -/
theorem quantity?_decode (word : Nat) : (format.decode word).quantity? = format.quantity? word := by
  have unit : (2 : ℚ) ^ format.fractionBits ≠ 0 := pow_ne_zero _ two_ne_zero
  have least : format.minExponent =
      1 - ((2 ^ (format.exponentBits - 1) : Nat) - 1 : Int) - format.fractionBits := by
    rw [minExponent, Nat.pow_eq]
    omega
  have normal (exponent : Nat) : format.minExponent + exponent - 1 =
      exponent - ((2 ^ (format.exponentBits - 1) : Nat) - 1 : Int) - format.fractionBits := by
    omega
  simp only [decode, quantity?, isNegative_eq_testBit, magnitude_div, Nat.pow_eq]
  split
  · split <;> rfl
  · split
    · simp only [Datum.quantity?, least, signed_mul_zpow]
    · simp only [Datum.quantity?, normal, signed_mul_zpow]
      push_cast
      rw [add_div, div_self unit]

end Format

end Floating

namespace Machine

open Bytecode

variable {format : Floating.Format} {left right : Nat}

/-- Bits are equal in a format if they stand for equal numbers. -/
theorem equal_iff : format.equal left right = true ↔
    Related (· = ·) (format.quantity? left) (format.quantity? right) := by
  rw [Floating.Format.equal, beq_iff_eq, Floating.Datum.compare?_eq_some_iff,
    Floating.Format.quantity?_decode, Floating.Format.quantity?_decode]
  exact Floating.related_congr cmp_eq_eq_iff

/-- They are less if the first number is. -/
theorem less_iff : format.less left right = true ↔
    Related (· < ·) (format.quantity? left) (format.quantity? right) := by
  rw [Floating.Format.less, beq_iff_eq, Floating.Datum.compare?_eq_some_iff,
    Floating.Format.quantity?_decode, Floating.Format.quantity?_decode]
  exact Floating.related_congr cmp_eq_lt_iff

/-- They are less or equal if the first number is. -/
theorem lessOrEqual_iff : format.lessOrEqual left right = true ↔
    Related (· ≤ ·) (format.quantity? left) (format.quantity? right) := by
  rw [Floating.Format.lessOrEqual, Bool.or_eq_true, equal_iff, less_iff]
  constructor
  · rintro (⟨x, y, first, second, less⟩ | ⟨x, y, first, second, same⟩)
    · exact ⟨x, y, first, second, less.le⟩
    · exact ⟨x, y, first, second, same.le⟩
  · rintro ⟨x, y, first, second, least⟩
    rcases least.lt_or_eq with less | same
    · exact .inl ⟨x, y, first, second, less⟩
    · exact .inr ⟨x, y, first, second, same⟩

end Machine

end WasmCompiler
