/-! # Binary floating-point formats

A format fixes the sizes of the exponent and fraction fields. Words of a format are natural
numbers; `Format.decode` gives the exact datum of a word, and `Format.nearest` the word nearest to
a fraction of two natural numbers, ties going to the even significand. -/

namespace WasmCompiler.Floating

/-- The sizes of the two magnitude fields of a binary interchange format. -/
structure Format where
  /-- Bits of the biased exponent. -/
  exponentBits : Nat
  /-- Bits of the fraction, the leading bit of a normal significand left out. -/
  fractionBits : Nat
  deriving DecidableEq

/-- The 32-bit format. -/
def binary32 : Format := ⟨8, 23⟩

/-- The 64-bit format. -/
def binary64 : Format := ⟨11, 52⟩

/-- What a word stands for. A finite datum has the magnitude `significand * 2 ^ exponent`. -/
inductive Datum where
  /-- Not a number. -/
  | nan
  /-- An infinity of either sign. -/
  | infinite (negative : Bool)
  /-- A finite number; both zeros have the significand 0. -/
  | finite (negative : Bool) (significand : Nat) (exponent : Int)
  deriving DecidableEq

namespace Format

variable (format : Format)

/-! ## Layout of a word -/

/-- The word whose only set bit is the sign. -/
def signWord : Nat :=
  Nat.pow 2 (format.exponentBits + format.fractionBits)

/-- The word of positive infinity: a full exponent field over an empty fraction. -/
def infinityWord : Nat :=
  (Nat.pow 2 format.exponentBits - 1) * Nat.pow 2 format.fractionBits

/-- The word of the quiet not-a-number that arithmetic produces. -/
def nanWord : Nat :=
  format.infinityWord + Nat.pow 2 (format.fractionBits - 1)

/-- The exponent of the last bit of a subnormal significand. -/
def minExponent : Int :=
  2 - Nat.pow 2 (format.exponentBits - 1) - format.fractionBits

/-- The word of a zero, an infinity or any other magnitude under the given sign. -/
def withSign (negative : Bool) (magnitude : Nat) : Nat :=
  if negative then format.signWord + magnitude else magnitude

/-- Whether the sign bit of a word is set. -/
def isNegative (word : Nat) : Bool :=
  word / format.signWord % 2 == 1

/-- A word without its sign bit. -/
def magnitude (word : Nat) : Nat :=
  word % format.signWord

/-- The datum that a word stands for. -/
def decode (word : Nat) : Datum :=
  let negative := format.isNegative word
  let field := format.magnitude word / Nat.pow 2 format.fractionBits
  let fraction := word % Nat.pow 2 format.fractionBits
  if field = Nat.pow 2 format.exponentBits - 1 then
    if fraction = 0 then .infinite negative else .nan
  else if field = 0 then .finite negative fraction format.minExponent
  else .finite negative (Nat.pow 2 format.fractionBits + fraction) (format.minExponent + field - 1)

end Format

/-! ## Rounding -/

/-- The natural number nearest to a fraction, a tie going to the even one. -/
def roundHalfEven (numerator denominator : Nat) : Nat :=
  let quotient := numerator / denominator
  let remainder := numerator % denominator
  if 2 * remainder < denominator then quotient
  else if denominator < 2 * remainder then quotient + 1
  else quotient + quotient % 2

/-- The greatest exponent of two that is no greater than a fraction of positive numbers. -/
def binade (numerator denominator : Nat) : Int :=
  let estimate : Int := (numerator.log2 : Int) - denominator.log2
  if numerator * Nat.pow 2 (-estimate).toNat < denominator * Nat.pow 2 estimate.toNat then
    estimate - 1
  else estimate

namespace Format

variable (format : Format)

/-- The word nearest to a signed fraction; a magnitude past the greatest finite one by half a unit
or more becomes an infinity, and a fraction of zero keeps its sign. -/
def nearest (negative : Bool) (numerator denominator : Nat) : Nat :=
  if numerator = 0 then format.withSign negative 0
  else
    let exponent := max (binade numerator denominator - format.fractionBits) format.minExponent
    let significand :=
      roundHalfEven (numerator * Nat.pow 2 (-exponent).toNat)
        (denominator * Nat.pow 2 exponent.toNat)
    -- A significand with its leading bit set carries into the exponent field by itself.
    let magnitude :=
      (exponent - format.minExponent).toNat * Nat.pow 2 format.fractionBits + significand
    format.withSign negative (min magnitude format.infinityWord)

/-- The word of the datum, rounded to the format where it does not fit. -/
def encode : Datum → Nat
  | .nan => format.nanWord
  | .infinite negative => format.withSign negative format.infinityWord
  | .finite negative significand exponent =>
      format.nearest negative (significand * Nat.pow 2 exponent.toNat) (Nat.pow 2 (-exponent).toNat)

/-- The word nearest to an integer; zero is positive. -/
def ofInt (value : Int) : Nat :=
  format.nearest (value < 0) value.natAbs 1

end Format

end WasmCompiler.Floating
