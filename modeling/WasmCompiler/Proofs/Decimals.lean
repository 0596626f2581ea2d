import Mathlib.Tactic.FieldSimp
import Mathlib.Tactic.GCongr
import Mathlib.Tactic.Linarith
import Mathlib.Tactic.Positivity
import WasmCompiler.Proofs.Quantities

/-! # Decimals of floating-point numbers

The numbers that round to a floating-point number form an interval around it, whose ends belong to
it if the significand is even. A decimal is looked for in this interval on ever finer grids, in
whole numbers; it is read by rounding it to the format. Both are about the same interval, so that
the one undoes the other.

* **`RoundingInterval.Contains`** — which numbers lie inside the interval;
* **`RoundingInterval.contains_of_multiple?`**, **`RoundingInterval.exists_multiple?`** — what is
  found on a grid lies inside, and something is found on a grid that is fine enough;
* **`Format.Holds`** — the significands and exponents of a format;
* **`nearest_of_contains`** — whatever lies inside is rounded to the number;
* **`shortest_contains`** — the shortest decimal lies inside;
* **`Decimal.toWord_of_contains`** — hence it is read as the number. -/

namespace WasmCompiler.Floating

/-- The number that a decimal is. -/
def Decimal.value (decimal : Decimal) : ℚ :=
  decimal.digits * 10 ^ decimal.exponent

/-! ## Rounding intervals -/

/-- Whether two numbers are in order, and apart where they may not meet. -/
def Precedes {α : Type} [LE α] [LT α] (meet : Bool) (x y : α) : Prop :=
  if meet then x ≤ y else x < y

instance {meet : Bool} {x y : Nat} : Decidable (Precedes meet x y) :=
  inferInstanceAs (Decidable (if meet then x ≤ y else x < y))

namespace Precedes

/-- Numbers in order are not above each other, whether or not they may meet. -/
theorem le {α : Type} [Preorder α] {meet : Bool} {x y : α} (order : Precedes meet x y) :
    x ≤ y := by
  cases meet with
  | false => exact le_of_lt order
  | true => exact order

variable {meet : Bool} {x y z : ℚ}

/-- Numbers that are apart are in order in either case. -/
theorem of_lt (order : x < y) : Precedes meet x y := by
  cases meet with
  | false => exact order
  | true => exact order.le

/-- Numbers that may meet are in order if the first is not above the second. -/
theorem of_le (order : x ≤ y) : Precedes true x y :=
  order

/-- Numbers that are not in order are the other way around. -/
theorem le_of_not (order : ¬Precedes meet x y) : y ≤ x := by
  cases meet with
  | false => exact not_lt.mp order
  | true => exact (not_le.mp order).le

/-- Order is the same among natural numbers as among rational ones. -/
theorem natCast_iff {left right : Nat} :
    Precedes meet (left : ℚ) right ↔ Precedes meet left right := by
  cases meet with
  | false => exact Nat.cast_lt
  | true => exact Nat.cast_le

/-- A positive factor keeps order. -/
theorem mul_right_iff (positive : 0 < z) : Precedes meet (x * z) (y * z) ↔ Precedes meet x y := by
  cases meet with
  | false => exact mul_lt_mul_iff_left₀ positive
  | true => exact mul_le_mul_iff_left₀ positive

/-- A summand keeps order. -/
theorem add_right_iff : Precedes meet (x + z) (y + z) ↔ Precedes meet x y := by
  cases meet with
  | false => exact add_lt_add_iff_right z
  | true => exact add_le_add_iff_right z

end Precedes

/-- An integer power in the measure that makes a whole number of it. -/
theorem pow_toNat {base : ℚ} (nonzero : base ≠ 0) (exponent : Int) :
    base ^ exponent.toNat = base ^ exponent * base ^ (-exponent).toNat := by
  rw [← zpow_natCast, ← zpow_natCast, ← zpow_add₀ nonzero]
  congr 1
  omega

namespace RoundingInterval

variable (interval : RoundingInterval) (grid : Int)

/-- Whether a number lies inside. -/
def Contains (number : ℚ) : Prop :=
  Precedes interval.inclusive (interval.low * 2 ^ interval.exponent : ℚ) number ∧
    Precedes interval.inclusive number (interval.high * 2 ^ interval.exponent : ℚ)

/-- A quarter of the last bit, in the measure in which multiples are compared. -/
def unit : Nat :=
  Nat.pow 2 interval.exponent.toNat * Nat.pow 10 (-grid).toNat

/-- The distance between multiples, in the same measure. -/
def spacing : Nat :=
  Nat.pow 2 (-interval.exponent).toNat * Nat.pow 10 grid.toNat

/-- The measure that makes whole numbers of both. -/
def scale : ℚ :=
  2 ^ (-interval.exponent).toNat * 10 ^ (-grid).toNat

/-- The measure is positive. -/
theorem scale_pos : 0 < interval.scale grid := by
  unfold scale
  positivity

/-- Multiples are apart. -/
theorem spacing_pos : 0 < interval.spacing grid :=
  Nat.mul_pos (Nat.pow_pos two_pos) (Nat.pow_pos (by decide))

/-- Quarters of the last bit in the measure are so many quarters, scaled. -/
theorem cast_mul_unit (quarters : Nat) : ((quarters * interval.unit grid : Nat) : ℚ) =
    quarters * 2 ^ interval.exponent * interval.scale grid := by
  unfold unit scale
  push_cast [Nat.pow_eq]
  rw [pow_toNat two_ne_zero]
  ring

/-- A multiple in the measure is that multiple, scaled. -/
theorem cast_mul_spacing (digits : Nat) : ((digits * interval.spacing grid : Nat) : ℚ) =
    digits * 10 ^ grid * interval.scale grid := by
  unfold spacing scale
  push_cast [Nat.pow_eq]
  rw [pow_toNat (by norm_num : (10 : ℚ) ≠ 0) grid]
  ring

/-- The greatest multiple that does not exceed the middle. -/
def below : Nat :=
  interval.middle * interval.unit grid / interval.spacing grid

variable {interval} {grid}

/-- Multiples are compared with the lower end in whole numbers. -/
theorem low_precedes_iff {digits : Nat} :
    Precedes interval.inclusive (interval.low * interval.unit grid)
        (digits * interval.spacing grid) ↔
      Precedes interval.inclusive (interval.low * 2 ^ interval.exponent : ℚ)
        (digits * 10 ^ grid) := by
  rw [← Precedes.natCast_iff, cast_mul_unit, cast_mul_spacing,
    Precedes.mul_right_iff (interval.scale_pos grid)]

/-- Multiples are compared with the upper end in whole numbers. -/
theorem precedes_high_iff {digits : Nat} :
    Precedes interval.inclusive (digits * interval.spacing grid)
        (interval.high * interval.unit grid) ↔
      Precedes interval.inclusive (digits * 10 ^ grid : ℚ)
        (interval.high * 2 ^ interval.exponent) := by
  rw [← Precedes.natCast_iff, cast_mul_unit, cast_mul_spacing,
    Precedes.mul_right_iff (interval.scale_pos grid)]

/-- So are multiples with the middle. -/
theorem middle_lt_iff {digits : Nat} :
    interval.middle * interval.unit grid < digits * interval.spacing grid ↔
      (interval.middle * 2 ^ interval.exponent : ℚ) < digits * 10 ^ grid := by
  rw [← Nat.cast_lt (α := ℚ), cast_mul_unit, cast_mul_spacing,
    mul_lt_mul_iff_left₀ (interval.scale_pos grid)]

variable (interval grid)

/-- The multiple below the middle is not above it. -/
theorem below_le :
    (interval.below grid * 10 ^ grid : ℚ) ≤ interval.middle * 2 ^ interval.exponent := by
  rw [← not_lt, ← middle_lt_iff, not_lt]
  exact Nat.div_mul_le_self _ _

/-- The next multiple lies above the middle. -/
theorem lt_above : (interval.middle * 2 ^ interval.exponent : ℚ) <
    (interval.below grid + 1 : Nat) * 10 ^ grid :=
  middle_lt_iff.mp (Nat.lt_mul_of_div_lt (Nat.lt_succ_self _) (interval.spacing_pos grid))

/-- Which of the two neighbours of the middle is chosen. -/
theorem multiple?_eq : interval.multiple? grid =
    if Precedes interval.inclusive (interval.low * interval.unit grid)
          (interval.below grid * interval.spacing grid) ∧
        Precedes interval.inclusive ((interval.below grid + 1) * interval.spacing grid)
          (interval.high * interval.unit grid) then
      if 2 * (interval.middle * interval.unit grid) <
          (2 * interval.below grid + 1) * interval.spacing grid then some (interval.below grid)
      else some (interval.below grid + 1)
    else if Precedes interval.inclusive (interval.low * interval.unit grid)
        (interval.below grid * interval.spacing grid) then some (interval.below grid)
    else if Precedes interval.inclusive ((interval.below grid + 1) * interval.spacing grid)
        (interval.high * interval.unit grid) then some (interval.below grid + 1)
    else none :=
  rfl

variable {interval grid}

/-- The lower neighbour of the middle is inside if it is not below the lower end. -/
theorem contains_below (ordered : interval.middle < interval.high)
    (low : Precedes interval.inclusive (interval.low * interval.unit grid)
      (interval.below grid * interval.spacing grid)) :
    interval.Contains (interval.below grid * 10 ^ grid) := by
  refine ⟨low_precedes_iff.mp low, Precedes.of_lt ?_⟩
  calc (interval.below grid * 10 ^ grid : ℚ)
      ≤ interval.middle * 2 ^ interval.exponent := below_le interval grid
    _ < interval.high * 2 ^ interval.exponent := by gcongr

/-- The upper neighbour of the middle is inside if it is not above the upper end. -/
theorem contains_above (ordered : interval.low ≤ interval.middle)
    (high : Precedes interval.inclusive ((interval.below grid + 1) * interval.spacing grid)
      (interval.high * interval.unit grid)) :
    interval.Contains ((interval.below grid + 1 : Nat) * 10 ^ grid) := by
  refine ⟨Precedes.of_lt ?_, precedes_high_iff.mp high⟩
  calc (interval.low * 2 ^ interval.exponent : ℚ)
      ≤ interval.middle * 2 ^ interval.exponent := by gcongr
    _ < (interval.below grid + 1 : Nat) * 10 ^ grid := lt_above interval grid

/-- **A multiple that is chosen lies inside.** -/
theorem contains_of_multiple? {digits : Nat}
    (ordered : interval.low ≤ interval.middle ∧ interval.middle < interval.high)
    (chosen : interval.multiple? grid = some digits) :
    interval.Contains (digits * 10 ^ grid) := by
  rw [multiple?_eq] at chosen
  split at chosen
  · next fits =>
    split at chosen <;> cases chosen
    · exact contains_below ordered.2 fits.1
    · exact contains_above ordered.1 fits.2
  · split at chosen
    · next low =>
      cases chosen
      exact contains_below ordered.2 low
    · split at chosen <;> cases chosen
      next high => exact contains_above ordered.1 high

/-- **A grid that is finer than the interval has a multiple inside.** -/
theorem exists_multiple? (fine : (10 ^ grid : ℚ) <
      (interval.high - interval.low) * 2 ^ interval.exponent) :
    ∃ digits, interval.multiple? grid = some digits := by
  rw [multiple?_eq]
  split
  · split <;> exact ⟨_, rfl⟩
  · split
    · exact ⟨_, rfl⟩
    · next low =>
      split
      · exact ⟨_, rfl⟩
      · next high =>
        -- Otherwise the whole interval would lie between two neighbours.
        have lower := Precedes.le_of_not (low_precedes_iff.not.mp low)
        have upper := Precedes.le_of_not (precedes_high_iff.not.mp high)
        push_cast at upper
        linarith

/-- The search ends at a grid that has a multiple inside, if there is one within the attempts. -/
theorem contains_coarsest
    (ordered : interval.low ≤ interval.middle ∧ interval.middle < interval.high)
    (attempts : Nat) (grid : Int)
    (fine : ∃ count < attempts, ∃ digits, interval.multiple? (grid - count) = some digits) :
    interval.Contains (interval.coarsest attempts grid).value := by
  induction attempts generalizing grid with
  | zero =>
    obtain ⟨count, few, -⟩ := fine
    exact absurd few (Nat.not_lt_zero count)
  | succ attempts hypothesis =>
    rw [coarsest]
    split
    · next digits chosen => exact contains_of_multiple? ordered chosen
    · next none =>
      obtain ⟨count, few, digits, chosen⟩ := fine
      cases count with
      | zero =>
        rw [Nat.cast_zero, Int.sub_zero, none] at chosen
        cases chosen
      | succ count =>
        refine hypothesis (grid - 1) ⟨count, Nat.lt_of_succ_lt_succ few, digits, ?_⟩
        rw [← chosen]
        congr 1
        omega

end RoundingInterval

/-! ## Powers of ten and of two -/

/-- Powers of ten from above by powers of two. -/
theorem ten_zpow_le {power exponent : Int}
    (bound : 10 * power ≤ 3 * exponent ∧ 3 * power ≤ exponent) :
    (10 : ℚ) ^ power ≤ 2 ^ exponent := by
  rcases Int.le_total 0 power with natural | negative
  · obtain ⟨count, rfl⟩ := Int.eq_ofNat_of_zero_le natural
    -- The third power of ten is a little less than the tenth one of two.
    refine (pow_le_pow_iff_left₀ (by positivity) (by positivity) three_ne_zero).mp ?_
    calc ((10 : ℚ) ^ (count : Int)) ^ 3
        = 1000 ^ count := by rw [zpow_natCast, ← pow_mul, mul_comm, pow_mul]; norm_num
      _ ≤ 1024 ^ count := by gcongr; norm_num
      _ = 2 ^ (10 * (count : Int)) := by rw [zpow_mul, zpow_natCast]; norm_num
      _ ≤ 2 ^ (exponent * 3) := zpow_le_zpow_right₀ one_le_two (by omega)
      _ = (2 ^ exponent) ^ 3 := zpow_mul _ _ _
  · obtain ⟨count, count_eq⟩ := Int.eq_ofNat_of_zero_le (Int.neg_nonneg_of_nonpos negative)
    obtain rfl : power = -count := by omega
    calc (10 : ℚ) ^ (-count : Int)
        = (10 ^ count)⁻¹ := by rw [zpow_neg, zpow_natCast]
      _ ≤ (8 ^ count)⁻¹ := by gcongr; norm_num
      _ = 2 ^ (3 * (-count : Int)) := by
          rw [zpow_mul, zpow_neg, zpow_natCast]
          norm_num
      _ ≤ 2 ^ exponent := zpow_le_zpow_right₀ one_le_two bound.2

/-- Powers of ten from below by powers of two. -/
theorem le_ten_zpow {power exponent : Int}
    (bound : 3 * exponent ≤ 10 * power ∧ exponent ≤ 3 * power) :
    (2 : ℚ) ^ exponent ≤ 10 ^ power := by
  have : (10 : ℚ) ^ (-power) ≤ 2 ^ (-exponent) := ten_zpow_le (by omega)
  rwa [zpow_neg, zpow_neg, inv_le_inv₀ (by positivity) (by positivity)] at this

/-- **The last grid of a search is finer than half of the last bit.** -/
theorem fine_grid {fraction bits exponent : Int} (bits_le : bits ≤ fraction + 1)
    (range : -21 * fraction ≤ exponent ∧ exponent ≤ 600 * fraction) :
    (10 : ℚ) ^ (decimalBound (bits + exponent) - (fraction + 2)) ≤ 2 ^ (exponent - 1) := by
  refine ten_zpow_le ?_
  unfold decimalBound
  omega

/-! ## Numbers of a format -/

/-- How the fields of a format stand to each other: the fraction is short enough for the places
between which decimals are rounded at all, and long enough for the number of grids that are
searched. -/
structure Format.IsProportionate (format : Format) : Prop where
  /-- The fraction is no longer than the exponents reach. -/
  fraction_le : format.fractionBits ≤ 2 ^ format.exponentBits
  /-- The exponents reach no further than the grids of the fraction. -/
  range_le : 2 ^ format.exponentBits ≤ 40 * format.fractionBits

/-- The fields of single precision are in proportion. -/
theorem isProportionate_binary32 : binary32.IsProportionate :=
  ⟨by decide, by decide⟩

/-- The fields of double precision are in proportion. -/
theorem isProportionate_binary64 : binary64.IsProportionate :=
  ⟨by decide, by decide⟩

/-- The word of a positive finite number. -/
def Format.magnitudeWord (format : Format) (significand : Nat) (exponent : Int) : Nat :=
  (exponent - format.minExponent).toNat * 2 ^ format.fractionBits + significand

/-- Whether `significand * 2 ^ exponent` is how a format holds a positive finite number: the leading
bit is set unless the exponent is the least one. -/
structure Format.Holds (format : Format) (significand : Nat) (exponent : Int) : Prop where
  /-- The number is not zero. -/
  positive : 0 < significand
  /-- The significand fits the fraction and a leading bit. -/
  small : significand < 2 ^ (format.fractionBits + 1)
  /-- The exponent is one of the format. -/
  least : format.minExponent ≤ exponent
  /-- The leading bit is set, or there is no lesser exponent. -/
  normal : exponent = format.minExponent ∨ 2 ^ format.fractionBits ≤ significand
  /-- The word lies below that of infinity. -/
  finite : format.magnitudeWord significand exponent < format.infinityWord

namespace RoundingInterval

variable {format : Format} {significand : Nat} {exponent : Int}

/-- The interval around a positive number has it above the low end and below the high one. -/
theorem around_ordered (positive : 0 < significand) :
    (around format significand exponent).low ≤ (around format significand exponent).middle ∧
      (around format significand exponent).middle < (around format significand exponent).high := by
  simp only [around]
  split <;> omega

end RoundingInterval

/-! ## Rounding -/

section Rounding

variable {numerator denominator : Nat}

/-- A fraction is rounded to the integer that it is at most a half away from, in whole numbers. -/
theorem roundHalfEven_eq_of_precedes {integer : Nat} (positive : 0 < denominator)
    (lower : Precedes (integer % 2 == 0) (2 * (integer * denominator))
      (2 * numerator + denominator))
    (upper : Precedes (integer % 2 == 0) (2 * numerator)
      (2 * (integer * denominator) + denominator)) :
    roundHalfEven numerator denominator = integer := by
  have odd (parity : integer % 2 = 1) : 2 * (integer * denominator) < 2 * numerator + denominator ∧
      2 * numerator < 2 * (integer * denominator) + denominator := by
    rw [parity] at lower upper
    exact ⟨lower, upper⟩
  replace lower := lower.le
  replace upper := upper.le
  unfold roundHalfEven
  dsimp only
  have parts := Nat.div_add_mod' numerator denominator
  have small := Nat.mod_lt numerator positive
  generalize numerator / denominator = quotient at *
  generalize numerator % denominator = remainder at *
  -- The quotient is the integer or the one below it.
  have next (fewer more : Nat) (less : fewer < more) :
      fewer * denominator + denominator ≤ more * denominator := by
    rw [← Nat.succ_mul]
    exact Nat.mul_le_mul_right denominator less
  rcases Nat.lt_trichotomy integer quotient with less | rfl | greater
  · have := next integer quotient less
    omega
  · split
    · rfl
    · split <;> omega
  · rcases Nat.lt_or_ge (quotient + 1) integer with far | near
    · have := next quotient (quotient + 1) (Nat.lt_succ_self _)
      have := next (quotient + 1) integer far
      omega
    · obtain rfl : integer = quotient + 1 := by omega
      rw [Nat.add_mul, Nat.one_mul] at lower odd
      split
      · omega
      · split <;> omega

/-- **A fraction is rounded to the integer that it is nearest to**, to an even one also from the
middle between two integers. -/
theorem roundHalfEven_eq {integer : Nat} (positive : 0 < denominator)
    (low : Precedes (integer % 2 == 0) (integer - 1 / 2 : ℚ) (numerator / denominator))
    (high : Precedes (integer % 2 == 0) (numerator / denominator : ℚ) (integer + 1 / 2)) :
    roundHalfEven numerator denominator = integer := by
  have unit : (0 : ℚ) < 2 * denominator := by positivity
  refine roundHalfEven_eq_of_precedes positive ?_ ?_
  · rw [← Precedes.natCast_iff]
    convert (Precedes.add_right_iff (z := denominator)).mpr
      ((Precedes.mul_right_iff unit).mpr low) using 1 <;> push_cast <;> field_simp
    ring
  · rw [← Precedes.natCast_iff]
    convert (Precedes.mul_right_iff unit).mpr high using 1 <;> push_cast <;> field_simp

/-- A fraction lies within a factor of two of what the logarithms of its parts say. -/
theorem log2_sub_log2_spec (numerator_pos : 0 < numerator) (denominator_pos : 0 < denominator) :
    (2 : ℚ) ^ ((numerator.log2 : Int) - denominator.log2 - 1) ≤ numerator / denominator ∧
      (numerator / denominator : ℚ) < 2 ^ ((numerator.log2 : Int) - denominator.log2 + 1) := by
  have positive : (0 : ℚ) < denominator := by positivity
  constructor
  · rw [le_div_iff₀ positive]
    calc (2 : ℚ) ^ ((numerator.log2 : Int) - denominator.log2 - 1) * denominator
        ≤ 2 ^ ((numerator.log2 : Int) - denominator.log2 - 1) * 2 ^ (denominator.log2 + 1) := by
          gcongr
          exact_mod_cast Nat.lt_log2_self.le
      _ = 2 ^ numerator.log2 := by
          rw [← zpow_natCast, ← zpow_natCast, ← zpow_add₀ two_ne_zero]
          congr 1
          push_cast
          ring
      _ ≤ numerator := by exact_mod_cast Nat.log2_self_le numerator_pos.ne'
  · rw [div_lt_iff₀ positive]
    calc (numerator : ℚ)
        < 2 ^ (numerator.log2 + 1) := by exact_mod_cast Nat.lt_log2_self
      _ = 2 ^ ((numerator.log2 : Int) - denominator.log2 + 1) * 2 ^ denominator.log2 := by
          rw [← zpow_natCast, ← zpow_natCast, ← zpow_add₀ two_ne_zero]
          congr 1
          push_cast
          ring
      _ ≤ 2 ^ ((numerator.log2 : Int) - denominator.log2 + 1) * denominator := by
          gcongr
          exact_mod_cast Nat.log2_self_le denominator_pos.ne'

/-- **The binade of a fraction.** -/
theorem binade_spec (numerator_pos : 0 < numerator) (denominator_pos : 0 < denominator) :
    (2 : ℚ) ^ binade numerator denominator ≤ numerator / denominator ∧
      (numerator / denominator : ℚ) < 2 ^ (binade numerator denominator + 1) := by
  have positive : (0 : ℚ) < denominator := by positivity
  obtain ⟨below, above⟩ := log2_sub_log2_spec numerator_pos denominator_pos
  unfold binade
  dsimp only
  generalize (numerator.log2 : Int) - denominator.log2 = estimate at *
  have test : numerator * Nat.pow 2 (-estimate).toNat < denominator * Nat.pow 2 estimate.toNat ↔
      (numerator / denominator : ℚ) < 2 ^ estimate := by
    rw [← Nat.cast_lt (α := ℚ), div_lt_iff₀ positive]
    push_cast [Nat.pow_eq]
    rw [pow_toNat two_ne_zero estimate, ← mul_assoc, mul_lt_mul_iff_left₀ (by positivity), mul_comm]
  split
  · next less => exact ⟨below, by rw [Int.sub_add_cancel]; exact test.mp less⟩
  · next notLess => exact ⟨not_lt.mp (test.not.mp notLess), above⟩

/-- A power that is not above a fraction is not above its binade. -/
theorem le_binade (numerator_pos : 0 < numerator) (denominator_pos : 0 < denominator)
    {exponent : Int} (bound : (2 : ℚ) ^ exponent ≤ numerator / denominator) :
    exponent ≤ binade numerator denominator := by
  have := (binade_spec numerator_pos denominator_pos).2
  exact Int.lt_add_one_iff.mp
    ((zpow_lt_zpow_iff_right₀ one_lt_two).mp (lt_of_le_of_lt bound this))

/-- A power above a fraction is above its binade. -/
theorem binade_lt (numerator_pos : 0 < numerator) (denominator_pos : 0 < denominator)
    {exponent : Int} (bound : (numerator / denominator : ℚ) < 2 ^ exponent) :
    binade numerator denominator < exponent := by
  have := (binade_spec numerator_pos denominator_pos).1
  exact (zpow_lt_zpow_iff_right₀ one_lt_two).mp (lt_of_le_of_lt this bound)

namespace Format

variable (format : Format) (negative : Bool)

/-- **A fraction is rounded to the significand that it is nearest to**, at the exponent of its
binade or the least one. -/
theorem nearest_eq (significand : Nat) {exponent : Int} (numerator_pos : 0 < numerator)
    (denominator_pos : 0 < denominator)
    (scaled :
      max (binade numerator denominator - format.fractionBits) format.minExponent = exponent)
    (low : Precedes (significand % 2 == 0) (significand - 1 / 2 : ℚ)
      (numerator / denominator / 2 ^ exponent))
    (high : Precedes (significand % 2 == 0) (numerator / denominator / 2 ^ exponent : ℚ)
      (significand + 1 / 2)) :
    format.nearest negative numerator denominator =
      format.withSign negative
        (min ((exponent - format.minExponent).toNat * 2 ^ format.fractionBits + significand)
          format.infinityWord) := by
  have fraction : (numerator / denominator / 2 ^ exponent : ℚ) =
      (numerator * Nat.pow 2 (-exponent).toNat : Nat) /
        (denominator * Nat.pow 2 exponent.toNat : Nat) := by
    have positive : (0 : ℚ) < denominator := by positivity
    push_cast [Nat.pow_eq]
    rw [pow_toNat two_ne_zero exponent]
    field_simp
  rw [fraction] at low high
  rw [nearest, if_neg numerator_pos.ne', scaled]
  simp only [Nat.pow_eq] at *
  rw [roundHalfEven_eq (Nat.mul_pos denominator_pos (Nat.pow_pos two_pos)) low high]

end Format

end Rounding

section Canonical

variable {format : Format} {significand : Nat} {exponent : Int}

/-- What lies inside the interval around a number, in units of its last bit. -/
theorem RoundingInterval.Contains.around {number : ℚ} (positive : 0 < significand)
    (inside : (around format significand exponent).Contains number) :
    Precedes (significand % 2 == 0) (significand - 1 / 2 : ℚ) (number / 2 ^ exponent) ∧
      Precedes (significand % 2 == 0) (number / 2 ^ exponent) (significand + 1 / 2 : ℚ) ∧
      (significand = 2 ^ format.fractionBits → format.minExponent < exponent →
        (significand - 1 / 4 : ℚ) ≤ number / 2 ^ exponent) := by
  obtain ⟨low, high⟩ := inside
  simp only [RoundingInterval.around, Nat.pow_eq] at low high
  have unit : (0 : ℚ) < 2 ^ exponent := zpow_pos two_pos _
  have quarter : (2 : ℚ) ^ (exponent - 2) = 1 / 4 * 2 ^ exponent := by
    rw [zpow_sub₀ two_ne_zero]
    norm_num
    ring
  -- The interval is written in quarters of the last bit; divide by the last bit itself.
  rw [quarter, ← mul_assoc] at low high
  rw [← div_mul_cancel₀ number unit.ne', Precedes.mul_right_iff unit] at low high
  have narrowed (power : significand = 2 ^ format.fractionBits)
      (normal : format.minExponent < exponent) :
      (significand - 1 / 4 : ℚ) ≤ number / 2 ^ exponent := by
    rw [if_pos (by simp [power, normal])] at low
    refine le_of_eq_of_le ?_ low.le
    rw [Nat.cast_sub (by omega)]
    push_cast
    ring
  refine ⟨?_, ?_, narrowed⟩
  · by_cases narrow : significand = 2 ^ format.fractionBits ∧ format.minExponent < exponent
    · exact Precedes.of_lt (by linarith [narrowed narrow.1 narrow.2])
    · rw [if_neg (by simpa using narrow)] at low
      convert low using 1
      rw [Nat.cast_sub (by omega)]
      push_cast
      ring
  · convert high using 1
    push_cast
    ring

variable {numerator denominator : Nat} (negative : Bool)

/-- What lies just below a power of two has half its last bit, and is rounded up to the power. -/
theorem nearest_of_carry (numerator_pos : 0 < numerator) (denominator_pos : 0 < denominator)
    (normal : format.minExponent < exponent)
    (finite : format.magnitudeWord (2 ^ format.fractionBits) exponent ≤ format.infinityWord)
    (near : (2 ^ format.fractionBits - 1 / 4 : ℚ) ≤ numerator / denominator / 2 ^ exponent)
    (less : (numerator / denominator / 2 ^ exponent : ℚ) < 2 ^ format.fractionBits) :
    format.nearest negative numerator denominator =
      format.withSign negative (format.magnitudeWord (2 ^ format.fractionBits) exponent) := by
  have unit : (0 : ℚ) < 2 ^ exponent := zpow_pos two_pos _
  have halved : (numerator / denominator / 2 ^ (exponent - 1) : ℚ) =
      2 * (numerator / denominator / 2 ^ exponent) := by
    rw [zpow_sub_one₀ two_ne_zero]
    field_simp
  have scaled : max (binade numerator denominator - format.fractionBits) format.minExponent =
      exponent - 1 := by
    have upper : binade numerator denominator < format.fractionBits + exponent := by
      refine binade_lt numerator_pos denominator_pos ?_
      rwa [zpow_add₀ two_ne_zero, zpow_natCast, ← div_lt_iff₀ unit]
    have lower : format.fractionBits + (exponent - 1) ≤ binade numerator denominator := by
      refine le_binade numerator_pos denominator_pos ?_
      rw [zpow_add₀ two_ne_zero, zpow_natCast, ← le_div_iff₀ (zpow_pos two_pos _), halved]
      have positive : (1 : ℚ) ≤ 2 ^ format.fractionBits := one_le_pow₀ one_le_two
      linarith
    omega
  have even : (2 * 2 ^ format.fractionBits % 2 == 0) = true := by simp
  -- Rounding up in the binade below carries into the next exponent.
  have carried : (exponent - 1 - format.minExponent).toNat * 2 ^ format.fractionBits +
      2 * 2 ^ format.fractionBits = format.magnitudeWord (2 ^ format.fractionBits) exponent := by
    have steps : (exponent - format.minExponent).toNat =
        (exponent - 1 - format.minExponent).toNat + 1 := by omega
    rw [Format.magnitudeWord, steps]
    ring
  rw [format.nearest_eq negative (2 * 2 ^ format.fractionBits) numerator_pos denominator_pos scaled,
    carried, Nat.min_eq_left finite]
  · rw [even, halved]
    refine Precedes.of_le ?_
    push_cast
    linarith
  · rw [even, halved]
    refine Precedes.of_lt ?_
    push_cast
    linarith

/-- **Whatever lies inside the interval around a number is rounded to the number.** -/
theorem nearest_of_contains (holds : format.Holds significand exponent)
    (denominator_pos : 0 < denominator)
    (inside : (RoundingInterval.around format significand exponent).Contains
      (numerator / denominator)) :
    format.nearest negative numerator denominator =
      format.withSign negative (format.magnitudeWord significand exponent) := by
  obtain ⟨low, high, narrow⟩ := inside.around holds.positive
  have unit : (0 : ℚ) < 2 ^ exponent := zpow_pos two_pos _
  have numerator_pos : 0 < numerator := by
    by_contra zero
    have positive : (1 : ℚ) ≤ significand := by exact_mod_cast holds.positive
    rw [Nat.eq_zero_of_not_pos zero, Nat.cast_zero, zero_div, zero_div] at low
    linarith [low.le]
  have finite : format.magnitudeWord significand exponent ≤ format.infinityWord :=
    holds.finite.le
  have least := holds.least
  -- Below a power of two the last bit is worth half as much as above it.
  by_cases full : exponent = format.minExponent ∨
      (2 : ℚ) ^ format.fractionBits ≤ numerator / denominator / 2 ^ exponent
  · -- What is rounded has the last bit of the number.
    have scaled : max (binade numerator denominator - format.fractionBits) format.minExponent =
        exponent := by
      have upper : binade numerator denominator < format.fractionBits + 1 + exponent := by
        refine binade_lt numerator_pos denominator_pos ?_
        have small : (significand + 1 : ℚ) ≤ 2 ^ (format.fractionBits + 1) := by
          exact_mod_cast holds.small
        rw [zpow_add₀ two_ne_zero, ← div_lt_iff₀ unit]
        refine lt_of_lt_of_le ?_ small
        linarith [high.le]
      rcases full with subnormal | above
      · omega
      · rw [le_div_iff₀ unit, ← zpow_natCast, ← zpow_add₀ two_ne_zero] at above
        have := le_binade numerator_pos denominator_pos above
        omega
    rw [format.nearest_eq negative significand numerator_pos denominator_pos scaled low high,
      ← Format.magnitudeWord.eq_def, Nat.min_eq_left finite]
  · -- What is rounded lies below the number, which is a power of two.
    obtain ⟨normal, less⟩ := not_or.mp full
    have less := not_le.mp less
    obtain rfl : significand = 2 ^ format.fractionBits := by
      refine le_antisymm ?_ (holds.normal.resolve_left normal)
      by_contra more
      have more : (2 ^ format.fractionBits + 1 : ℚ) ≤ significand := by
        exact_mod_cast not_le.mp more
      linarith [low.le]
    have normal : format.minExponent < exponent := by omega
    refine nearest_of_carry negative numerator_pos denominator_pos normal finite ?_ less
    exact_mod_cast narrow rfl normal

/-! ## The shortest decimal -/

/-- The exponents of a format lie on both sides of zero. -/
theorem Format.Holds.exponent_range (holds : format.Holds significand exponent) :
    4 - (2 ^ format.exponentBits : Nat) ≤ 2 * (exponent + format.fractionBits) ∧
      2 * (exponent + format.fractionBits) ≤ (2 ^ format.exponentBits : Nat) := by
  have steps : (exponent - format.minExponent).toNat < 2 ^ format.exponentBits - 1 := by
    refine lt_of_mul_lt_mul_right (lt_of_le_of_lt ?_ holds.finite) (Nat.zero_le _)
    exact Nat.le_add_right _ _
  have least := holds.least
  have least_eq : format.minExponent =
      2 - (2 ^ (format.exponentBits - 1) : Nat) - format.fractionBits := rfl
  cases bits : format.exponentBits with
  | zero =>
    rw [bits, Nat.pow_zero] at steps
    omega
  | succ count =>
    rw [bits, Nat.pow_succ] at steps
    rw [bits, Nat.add_sub_cancel] at least_eq
    rw [Nat.pow_succ]
    omega

/-- **The shortest decimal of a number lies inside the interval around it.** -/
theorem shortest_contains (proportionate : format.IsProportionate)
    (holds : format.Holds significand exponent) :
    (RoundingInterval.around format significand exponent).Contains
      (Decimal.shortest format significand exponent).value := by
  refine RoundingInterval.contains_coarsest (RoundingInterval.around_ordered holds.positive) _ _
    ⟨format.fractionBits + 2, by omega, RoundingInterval.exists_multiple? ?_⟩
  have bits : (significand.log2 + 1 : Int) ≤ format.fractionBits + 1 := by
    have := (Nat.log2_lt holds.positive.ne').mpr holds.small
    omega
  have range := holds.exponent_range
  have proportion := proportionate.range_le
  have width : (3 : ℚ) ≤ (RoundingInterval.around format significand exponent).high -
      (RoundingInterval.around format significand exponent).low := by
    have positive := holds.positive
    have : (RoundingInterval.around format significand exponent).low + 3 ≤
        (RoundingInterval.around format significand exponent).high := by
      simp only [RoundingInterval.around]
      split <;> omega
    have : ((RoundingInterval.around format significand exponent).low + 3 : ℚ) ≤
        (RoundingInterval.around format significand exponent).high := by exact_mod_cast this
    linarith
  -- The finest grid that is tried is finer than the interval is wide, so it has a point in it.
  calc (10 : ℚ) ^ (decimalBound (significand.log2 + 1 + exponent) - (format.fractionBits + 2 : Nat))
      ≤ 2 ^ (exponent - 1) := fine_grid bits (by omega)
    _ = 2 * 2 ^ (exponent - 2) := by
        rw [← zpow_one_add₀ two_ne_zero]
        congr 1
        ring
    _ < 3 * 2 ^ (exponent - 2) := by gcongr; norm_num
    _ ≤ _ := mul_le_mul_of_nonneg_right width (zpow_nonneg two_pos.le _)

namespace Decimal

variable (decimal : Decimal)

/-- A decimal as a fraction of natural numbers. -/
theorem value_eq_div : decimal.value =
    (decimal.digits * Nat.pow 10 decimal.exponent.toNat : Nat) /
      (Nat.pow 10 (-decimal.exponent).toNat : Nat) := by
  have positive : (0 : ℚ) < 10 ^ (-decimal.exponent).toNat := by positivity
  push_cast [Nat.pow_eq]
  rw [value, pow_toNat (by norm_num : (10 : ℚ) ≠ 0)]
  field_simp

/-- A decimal is less than the power of ten beyond its first digit. -/
theorem value_lt : decimal.value <
    10 ^ (decimal.exponent + (Nat.toDigits 10 decimal.digits).length) := by
  have bound := (Nat.length_toDigits_le_iff (by decide) Nat.length_toDigits_pos).mp
    (Nat.le_refl (Nat.toDigits 10 decimal.digits).length)
  rw [zpow_add₀ (by norm_num), zpow_natCast, mul_comm, value]
  gcongr
  exact_mod_cast bound

/-- A decimal is no less than the power of ten of its first digit. -/
theorem le_value (positive : 0 < decimal.digits) :
    10 ^ (decimal.exponent + (Nat.toDigits 10 decimal.digits).length - 1) ≤ decimal.value := by
  obtain ⟨count, count_eq⟩ := Nat.exists_eq_add_of_le'
    (Nat.length_toDigits_pos (b := 10) (n := decimal.digits))
  have bound : 10 ^ count ≤ decimal.digits := by
    cases count with
    | zero => exact positive
    | succ count =>
      by_contra less
      have := (Nat.length_toDigits_le_iff (by decide) (Nat.succ_pos count)).mpr (not_le.mp less)
      omega
  have place : decimal.exponent + (Nat.toDigits 10 decimal.digits).length - 1 =
      decimal.exponent + count := by omega
  rw [place, zpow_add₀ (by norm_num), zpow_natCast, mul_comm, value]
  gcongr
  exact_mod_cast bound

/-- **A decimal inside the interval around a number is read as the number.** Its first digit is
within the places at which decimals are rounded at all. -/
theorem toWord_of_contains (proportionate : format.IsProportionate)
    (holds : format.Holds significand exponent)
    (inside : (RoundingInterval.around format significand exponent).Contains decimal.value) :
    decimal.toWord format negative =
      format.withSign negative (format.magnitudeWord significand exponent) := by
  obtain ⟨low, high, -⟩ := inside.around holds.positive
  have unit : (0 : ℚ) < 2 ^ exponent := zpow_pos two_pos _
  have positive : (1 : ℚ) ≤ significand := by exact_mod_cast holds.positive
  have small : (significand + 1 : ℚ) ≤ 2 ^ (format.fractionBits + 1) := by
    exact_mod_cast holds.small
  have above : (2 : ℚ) ^ (exponent - 1) ≤ decimal.value := by
    rw [zpow_sub_one₀ two_ne_zero, ← le_div_iff₀' unit]
    linarith [low.le]
  have below : decimal.value < 2 ^ (format.fractionBits + 1 + exponent) := by
    rw [zpow_add₀ two_ne_zero, ← div_lt_iff₀ unit]
    refine lt_of_lt_of_le ?_ small
    linarith [high.le]
  have digits_pos : 0 < decimal.digits := by
    by_contra zero
    rw [value, Nat.eq_zero_of_not_pos zero, Nat.cast_zero, zero_mul] at above
    exact absurd above (not_le.mpr (zpow_pos two_pos _))
  have range := holds.exponent_range
  have fraction := proportionate.fraction_le
  -- The number is neither so small nor so large that the digits are not looked at.
  rw [toWord, if_neg, if_neg]
  · refine nearest_of_contains negative holds (Nat.pow_pos (by decide)) ?_
    rwa [← value_eq_div]
  · intro far
    rw [Nat.pow_eq] at far
    exact not_lt.mpr (le_ten_zpow (by omega)) (lt_of_le_of_lt (le_value decimal digits_pos) below)
  · rintro (zero | far)
    · exact digits_pos.ne' zero
    · rw [Nat.pow_eq] at far
      exact not_lt.mpr (ten_zpow_le (by omega)) (lt_of_le_of_lt above (value_lt decimal))

end Decimal

end Canonical

end WasmCompiler.Floating
