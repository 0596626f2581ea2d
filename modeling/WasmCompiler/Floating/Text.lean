import WasmCompiler.Floating.Decimal

/-! # Decimal text of floating-point words

A layout fixes how decimals are written: where positional notation ends and what the special
values are called. Reading accepts a sign, digits with an optional point and exponent, and the names
of infinity and not-a-number in any letter case. -/

namespace WasmCompiler.Floating

/-- The decisions of a written form of floating-point numbers. -/
structure Layout where
  /-- The least power of ten of a first digit that is written positionally. -/
  leastPositional : Int
  /-- The least power of ten of a first digit that is too large to be written positionally. -/
  positionalLimit : Int
  /-- What separates the digits from the exponent. -/
  exponentMark : String
  /-- The fraction of a number that has none, in positional notation. -/
  emptyFraction : String
  /-- The name of infinity. -/
  infinity : String
  /-- The name of not-a-number, which is written without a sign. -/
  nan : String

namespace Layout

variable (layout : Layout)

/-- A positive decimal in positional notation, given its digits. -/
def positional (digits : List Char) (exponent : Int) : String :=
  let wholeDigits := (digits.length + exponent).toNat
  if 0 ≤ exponent then
    String.ofList (digits ++ List.replicate exponent.toNat '0') ++ layout.emptyFraction
  else if 0 < digits.length + exponent then
    String.ofList (digits.take wholeDigits) ++ "." ++ String.ofList (digits.drop wholeDigits)
  else
    "0." ++ String.ofList (List.replicate (-(digits.length + exponent)).toNat '0' ++ digits)

/-- A positive decimal with one digit before the point and an exponent. -/
def scientific (digits : List Char) (exponent : Int) : String :=
  let fraction := digits.drop 1
  String.ofList (digits.take 1) ++
    (if fraction.isEmpty then "" else "." ++ String.ofList fraction) ++
    layout.exponentMark ++ toString (exponent + fraction.length)

/-- A positive decimal in the notation that the place of its first digit asks for. -/
def decimal (number : Decimal) : String :=
  let digits := Nat.toDigits 10 number.digits
  let place := number.exponent + digits.length - 1
  if layout.leastPositional ≤ place ∧ place < layout.positionalLimit then
    layout.positional digits number.exponent
  else layout.scientific digits number.exponent

/-- The text of a word: the shortest decimal that reads back as the word. -/
def write (format : Format) (word : Nat) : String :=
  let sign (negative : Bool) := if negative then "-" else ""
  match format.decode word with
  | .nan => layout.nan
  | .infinite negative => sign negative ++ layout.infinity
  | .finite negative significand exponent =>
      sign negative ++
        if significand = 0 then "0" ++ layout.emptyFraction
        else layout.decimal (.shortest format significand exponent)

end Layout

/-! ## Reading -/

/-- The number spelled by decimal digits. -/
def digitsValue (digits : List Char) : Nat :=
  digits.foldl (fun value digit => 10 * value + (digit.toNat - '0'.toNat)) 0

/-- A sign, if there is one, and what follows it. -/
def splitSign : List Char → Bool × List Char
  | '-' :: rest => (true, rest)
  | '+' :: rest => (false, rest)
  | text => (false, text)

/-- The value of a text that is one or more digits and nothing else. -/
def readDigits? (text : List Char) : Option Nat :=
  if text ≠ [] ∧ text.all Char.isDigit then some (digitsValue text) else none

/-- The exponent at the end of a number: nothing, or a mark and a signed run of digits. -/
def readExponent? : List Char → Option Int
  | [] => some 0
  | mark :: rest =>
      if mark = 'e' ∨ mark = 'E' then
        let (negative, digits) := splitSign rest
        (readDigits? digits).map fun value => if negative then -(value : Int) else value
      else none

/-- The decimal spelled by a text without a sign: digits with a point anywhere among them or
beside them, then an exponent. -/
def readDecimal? (text : List Char) : Option Decimal := do
  let whole := text.takeWhile Char.isDigit
  let afterWhole := text.dropWhile Char.isDigit
  let (fraction, afterFraction) := match afterWhole with
    | '.' :: rest => (rest.takeWhile Char.isDigit, rest.dropWhile Char.isDigit)
    | rest => ([], rest)
  guard (whole ≠ [] ∨ fraction ≠ [])
  let exponent ← readExponent? afterFraction
  return ⟨digitsValue (whole ++ fraction), exponent - fraction.length⟩

/-- The word spelled by a text, correctly rounded. -/
def readWord? (format : Format) (text : String) : Option Nat :=
  let (negative, magnitude) := splitSign text.toList
  let name := String.ofList (magnitude.map Char.toLower)
  if name = "inf" ∨ name = "infinity" then some (format.withSign negative format.infinityWord)
  else if name = "nan" then some (format.withSign negative format.nanWord)
  else (readDecimal? magnitude).map (Decimal.toWord format negative)

end WasmCompiler.Floating
