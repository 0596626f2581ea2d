import WasmCompiler.Floating.Format

/-! # Shortest decimals

The shortest decimal of a floating-point number is the one on the coarsest power-of-ten grid that
still rounds to the number; of two neighbours on that grid the nearer is taken, and the upper one
when both are equally near. In the other direction a decimal is rounded once, straight to the
format. -/

namespace WasmCompiler.Floating

/-- The decimal `digits * 10 ^ exponent`. -/
structure Decimal where
  /-- The digits read as one number. -/
  digits : Nat
  /-- The power of ten of the last digit. -/
  exponent : Int
  deriving DecidableEq

/-- A power of ten no less than any number of at most `bits` bits before the binary point. -/
def decimalBound (bits : Int) : Int :=
  bits * 30103 / 100000 + 1

/-- The interval of numbers that round to a positive finite number, in quarters of its last bit. -/
structure RoundingInterval where
  /-- The number itself. -/
  middle : Nat
  /-- The lower end. -/
  low : Nat
  /-- The upper end. -/
  high : Nat
  /-- Whether the ends themselves round to the number. -/
  inclusive : Bool
  /-- The power of two of a quarter of the last bit. -/
  exponent : Int

namespace RoundingInterval

/-- The interval around `significand * 2 ^ exponent`. Below a power of two the spacing halves, and
with it the lower half of the interval, unless the power is the least normal number. -/
def around (format : Format) (significand : Nat) (exponent : Int) : RoundingInterval :=
  let narrow :=
    significand == Nat.pow 2 format.fractionBits && decide (format.minExponent < exponent)
  { middle := 4 * significand
    low := 4 * significand - (if narrow then 1 else 2)
    high := 4 * significand + 2
    inclusive := significand % 2 == 0
    exponent := exponent - 2 }

/-- The chosen multiple of `10 ^ grid` inside the interval: of the two neighbours of the middle,
the only one inside, or the nearer, or the upper. -/
def multiple? (interval : RoundingInterval) (grid : Int) : Option Nat :=
  let unit := Nat.pow 2 interval.exponent.toNat * Nat.pow 10 (-grid).toNat
  let spacing := Nat.pow 2 (-interval.exponent).toNat * Nat.pow 10 grid.toNat
  let middle := interval.middle * unit
  let below := middle / spacing
  let belowFits :=
    if interval.inclusive then interval.low * unit ≤ below * spacing
    else interval.low * unit < below * spacing
  let aboveFits :=
    if interval.inclusive then (below + 1) * spacing ≤ interval.high * unit
    else (below + 1) * spacing < interval.high * unit
  if belowFits ∧ aboveFits then
    if 2 * middle < (2 * below + 1) * spacing then some below else some (below + 1)
  else if belowFits then some below
  else if aboveFits then some (below + 1)
  else none

/-- The decimal on the coarsest grid, from `10 ^ grid` downward, that has a point inside. -/
def coarsest (interval : RoundingInterval) : (attempts : Nat) → (grid : Int) → Decimal
  | 0, grid => ⟨0, grid⟩
  | attempts + 1, grid =>
      match interval.multiple? grid with
      | some digits => ⟨digits, grid⟩
      | none => coarsest interval attempts (grid - 1)

end RoundingInterval

/-- The shortest decimal that rounds to the positive finite number `significand * 2 ^ exponent`.
A grid finer than the last bit always has a point inside, which bounds the search. -/
def Decimal.shortest (format : Format) (significand : Nat) (exponent : Int) : Decimal :=
  (RoundingInterval.around format significand exponent).coarsest (format.fractionBits + 3)
    (decimalBound (significand.log2 + 1 + exponent))

/-- The word nearest to a signed decimal. Magnitudes past every format's range are decided by the
place of their first digit, without computing the power of ten. -/
def Decimal.toWord (format : Format) (negative : Bool) (decimal : Decimal) : Nat :=
  let place := decimal.exponent + (Nat.toDigits 10 decimal.digits).length
  let range : Int := Nat.pow 2 format.exponentBits
  if decimal.digits = 0 ∨ place < -range then format.withSign negative 0
  else if range < place then format.withSign negative format.infinityWord
  else
    format.nearest negative (decimal.digits * Nat.pow 10 decimal.exponent.toNat)
      (Nat.pow 10 (-decimal.exponent).toNat)

end WasmCompiler.Floating
