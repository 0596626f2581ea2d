import WasmCompiler.Floating.Format

/-! # Arithmetic on floating-point words

Every operation decodes its words, computes exactly on integers, and rounds once. Order is decided
on the exact values, so an operand that is not a number is unordered and both zeros are equal. -/

namespace WasmCompiler.Floating

namespace Datum

/-- Whether the datum is not a number. -/
def isNan : Datum → Bool
  | .nan => true
  | _ => false

/-- A finite significand under its sign. -/
def signed (negative : Bool) (significand : Nat) : Int :=
  if negative then -significand else significand

/-- The exact order of two data; none when either is not a number. -/
def compare? : Datum → Datum → Option Ordering
  | .nan, _ | _, .nan => none
  | .infinite left, .infinite right => some (compare right.toNat left.toNat)
  | .infinite negative, .finite .. => some (if negative then .lt else .gt)
  | .finite .., .infinite negative => some (if negative then .gt else .lt)
  | .finite leftNegative leftSignificand leftExponent,
      .finite rightNegative rightSignificand rightExponent =>
      let exponent := min leftExponent rightExponent
      some (compare
        (signed leftNegative leftSignificand * Nat.pow 2 (leftExponent - exponent).toNat)
        (signed rightNegative rightSignificand * Nat.pow 2 (rightExponent - exponent).toNat))

/-- The integer part of a finite datum; none for the others. -/
def truncate? : Datum → Option Int
  | .finite negative significand exponent =>
      some (signed negative (significand * Nat.pow 2 exponent.toNat / Nat.pow 2 (-exponent).toNat))
  | _ => none

/-- The exact sum of two data, before rounding. A sum of zero is negative only if both terms are. -/
def add : Datum → Datum → Datum
  | .nan, _ | _, .nan => .nan
  | .infinite left, .infinite right => if left = right then .infinite left else .nan
  | .infinite negative, .finite .. | .finite .., .infinite negative => .infinite negative
  | .finite leftNegative leftSignificand leftExponent,
      .finite rightNegative rightSignificand rightExponent =>
      let exponent := min leftExponent rightExponent
      let sum :=
        signed leftNegative leftSignificand * Nat.pow 2 (leftExponent - exponent).toNat +
          signed rightNegative rightSignificand * Nat.pow 2 (rightExponent - exponent).toNat
      if sum = 0 then .finite (leftNegative && rightNegative) 0 exponent
      else .finite (sum < 0) sum.natAbs exponent

/-- The exact product of two data, before rounding. -/
def mul : Datum → Datum → Datum
  | .nan, _ | _, .nan => .nan
  | .infinite left, .infinite right => .infinite (left != right)
  | .infinite left, .finite right significand _ | .finite right significand _, .infinite left =>
      if significand = 0 then .nan else .infinite (left != right)
  | .finite leftNegative leftSignificand leftExponent,
      .finite rightNegative rightSignificand rightExponent =>
      .finite (leftNegative != rightNegative) (leftSignificand * rightSignificand)
        (leftExponent + rightExponent)

/-- The datum under the opposite sign. -/
def negate : Datum → Datum
  | .nan => .nan
  | .infinite negative => .infinite (!negative)
  | .finite negative significand exponent => .finite (!negative) significand exponent

end Datum

/-- How a number between two integers becomes one of them. -/
inductive RoundingMode where
  /-- Toward positive infinity. -/
  | up
  /-- Toward negative infinity. -/
  | down
  /-- Toward zero. -/
  | towardZero
  /-- To the nearest integer, a tie going to the even one. -/
  | nearestEven
  deriving DecidableEq

/-- The magnitude of the integer to which a signed fraction goes. -/
def RoundingMode.apply (mode : RoundingMode) (negative : Bool) (numerator denominator : Nat) :
    Nat :=
  let awayFromZero := numerator / denominator + (if numerator % denominator = 0 then 0 else 1)
  match mode with
  | .towardZero => numerator / denominator
  | .up => if negative then numerator / denominator else awayFromZero
  | .down => if negative then awayFromZero else numerator / denominator
  | .nearestEven => roundHalfEven numerator denominator

/-- The integer part of a square root, by doubling the root of a quarter; `2 * bits` bounds the
size of the radicand. -/
def floorRoot : (bits radicand : Nat) → Nat
  | 0, _ => 0
  | bits + 1, radicand =>
      let root := 2 * floorRoot bits (radicand / 4)
      if (root + 1) * (root + 1) ≤ radicand then root + 1 else root

namespace Format

variable (format : Format)

/-! ## Sign operations -/

/-- A word with its sign bit cleared. -/
def abs (word : Nat) : Nat :=
  format.magnitude word

/-- A word with its sign bit turned over. -/
def negate (word : Nat) : Nat :=
  format.withSign (!format.isNegative word) (format.magnitude word)

/-- The first word under the sign of the second. -/
def copySign (word sign : Nat) : Nat :=
  format.withSign (format.isNegative sign) (format.magnitude word)

/-! ## Order -/

/-- Whether two words are equal as numbers. -/
def equal (left right : Nat) : Bool :=
  (format.decode left).compare? (format.decode right) == some .eq

/-- Whether the first word is the lesser number. -/
def less (left right : Nat) : Bool :=
  (format.decode left).compare? (format.decode right) == some .lt

/-- Whether the first word is the lesser number or equal to the second. -/
def lessOrEqual (left right : Nat) : Bool :=
  format.less left right || format.equal left right

/-- Whether a word is not a number. -/
def isNan (word : Nat) : Bool :=
  (format.decode word).isNan

/-- The lesser of two words: not a number if either is not, and the negative one of two zeros. -/
def minimum (left right : Nat) : Nat :=
  if format.isNan left || format.isNan right then format.nanWord
  else if format.equal left right then (if format.isNegative left then left else right)
  else if format.less left right then left else right

/-- The greater of two words: not a number if either is not, and the positive one of two zeros. -/
def maximum (left right : Nat) : Nat :=
  if format.isNan left || format.isNan right then format.nanWord
  else if format.equal left right then (if format.isNegative left then right else left)
  else if format.less left right then right else left

/-! ## Rounded operations -/

/-- The rounded sum. -/
def add (left right : Nat) : Nat :=
  format.encode ((format.decode left).add (format.decode right))

/-- The rounded difference. -/
def sub (left right : Nat) : Nat :=
  format.encode ((format.decode left).add (format.decode right).negate)

/-- The rounded product. -/
def mul (left right : Nat) : Nat :=
  format.encode ((format.decode left).mul (format.decode right))

/-- The rounded quotient; a nonzero number over zero is an infinity. -/
def div (left right : Nat) : Nat :=
  match format.decode left, format.decode right with
  | .nan, _ | _, .nan | .infinite _, .infinite _ => format.nanWord
  | .infinite leftNegative, .finite rightNegative _ _ =>
      format.withSign (leftNegative != rightNegative) format.infinityWord
  | .finite leftNegative _ _, .infinite rightNegative =>
      format.withSign (leftNegative != rightNegative) 0
  | .finite leftNegative leftSignificand leftExponent,
      .finite rightNegative rightSignificand rightExponent =>
      let negative := leftNegative != rightNegative
      if rightSignificand = 0 then
        if leftSignificand = 0 then format.nanWord
        else format.withSign negative format.infinityWord
      else
        let exponent := leftExponent - rightExponent
        format.nearest negative (leftSignificand * Nat.pow 2 exponent.toNat)
          (rightSignificand * Nat.pow 2 (-exponent).toNat)

/-- The rounded square root; that of a negative zero is a negative zero. -/
def sqrt (word : Nat) : Nat :=
  match format.decode word with
  | .nan => format.nanWord
  | .infinite negative => if negative then format.nanWord else word
  | .finite negative significand exponent =>
      if significand = 0 then word
      else if negative then format.nanWord
      else
        -- The root of the scaled radicand has two bits more than the format needs, so one more
        -- bit for what the integer root leaves out decides the rounding.
        let extra := 2 * (format.fractionBits + 3) + (exponent % 2).toNat
        let radicand := significand * Nat.pow 2 extra
        let root := floorRoot ((radicand.log2 + 2) / 2) radicand
        let inexact := if root * root = radicand then 0 else 1
        let half := (exponent - extra) / 2 - 1
        format.nearest false ((2 * root + inexact) * Nat.pow 2 half.toNat) (Nat.pow 2 (-half).toNat)

/-- The integer next to a word in the given direction, under the sign of the word. -/
def roundToIntegral (mode : RoundingMode) (word : Nat) : Nat :=
  match format.decode word with
  | .nan => format.nanWord
  | .infinite _ => word
  | .finite negative significand exponent =>
      format.nearest negative
        (mode.apply negative (significand * Nat.pow 2 exponent.toNat)
          (Nat.pow 2 (-exponent).toNat)) 1

end Format

end WasmCompiler.Floating
