import WasmCompiler.Proofs.Integers
import WasmCompiler.Proofs.Quantities
import WasmCompiler.Proofs.Typing

/-! # Outcomes of numeric operations

What the numeric operations of a module may come to, by the integers and numbers that their operands
stand for. Comparisons and operations on integers come to one thing only. What operations on
floating-point numbers round is left open.

* **`NumericConversion.Allows`**, **`NumericOp.Allows`** — the outcomes that an operation may have;
* **`NumericOp.Allows.settles`** — they are values of the type of the operation, or traps;
* **`NumericOp.Allows.eq_of_missing`** — comparisons with what is not a number. -/

namespace WasmCompiler

open Floating (Quantity binary32 binary64)
open Machine (Trap)

/-! ## Values by their bits -/

/-- The value of an integer type that has some bits. -/
def IntType.value : (type : IntType) → BitVec type.width → Value
  | .i32, bits => .i32 bits
  | .i64, bits => .i64 bits

/-- The value of an integer type that keeps the low bits of an integer. -/
def IntType.ofInt (type : IntType) (integer : Int) : Value :=
  type.value (BitVec.ofInt type.width integer)

namespace IntType

variable (type : IntType)

/-- An integer type has at least one bit. -/
theorem width_pos : 0 < type.width := by
  cases type <;> decide

/-- The value of bits has the type whose bits they are. -/
@[simp] theorem type_value (bits : BitVec type.width) :
    (type.value bits).type = type.toValueType := by
  cases type <;> rfl

/-- Its bits are read back. -/
@[simp] theorem toBits_value (bits : BitVec type.width) :
    (type.value bits).toBits = bits.toNat := by
  cases type <;> rfl

/-- An integer that wraps to a type has it. -/
@[simp] theorem type_ofInt (integer : Int) : (type.ofInt integer).type = type.toValueType :=
  type.type_value _

/-- Every value of an integer type has its bits. -/
theorem exists_value {value : Value} (typed : value.type = type.toValueType) :
    ∃ bits, value = type.value bits := by
  cases type <;> cases value <;> first | exact ⟨_, rfl⟩ | cases typed

end IntType

/-- The number of bits of a floating-point type. -/
def FloatType.width : FloatType → Nat
  | .f32 => 32
  | .f64 => 64

/-- The format of a floating-point type. -/
def FloatType.format : FloatType → Floating.Format
  | .f32 => binary32
  | .f64 => binary64

/-- The value of a floating-point type that has some bits. -/
def FloatType.value : (type : FloatType) → BitVec type.width → Value
  | .f32, bits => .f32 bits
  | .f64, bits => .f64 bits

/-- **The number that a value of a floating-point type stands for**, if it is one. -/
def FloatType.quantity? (type : FloatType) (value : Value) : Option Quantity :=
  type.format.quantity? value.toBits

namespace FloatType

variable (type : FloatType)

/-- The value of bits has the type whose bits they are. -/
@[simp] theorem type_value (bits : BitVec type.width) :
    (type.value bits).type = type.toValueType := by
  cases type <;> rfl

/-- Its bits are read back. -/
@[simp] theorem toBits_value (bits : BitVec type.width) :
    (type.value bits).toBits = bits.toNat := by
  cases type <;> rfl

/-- It stands for the number that its format gives the bits. -/
@[simp] theorem quantity?_value (bits : BitVec type.width) :
    type.quantity? (type.value bits) = type.format.quantity? bits.toNat := by
  rw [quantity?, toBits_value]

/-- Every value of a floating-point type has its bits. -/
theorem exists_value {value : Value} (typed : value.type = type.toValueType) :
    ∃ bits, value = type.value bits := by
  cases type <;> cases value <;> first | exact ⟨_, rfl⟩ | cases typed

end FloatType

/-! ## What operations may come to -/

/-- Whether an outcome is one for a condition that holds and zero for one that does not. -/
def Decides (outcome : Except Trap Value) (condition : Prop) : Prop :=
  condition ∧ outcome = .ok (.i32 1) ∨ ¬condition ∧ outcome = .ok (.i32 0)

/-- The integers that so many bits can stand for. -/
def Signedness.Represents (signedness : Signedness) (width : Nat) (integer : Int) : Prop :=
  match signedness with
  | .unsigned => 0 ≤ integer ∧ integer < (2 ^ width : Nat)
  | .signed => -(2 ^ (width - 1) : Nat) ≤ integer ∧ integer < (2 ^ (width - 1) : Nat)

/-- **The outcomes of cutting a number down to an integer**: its integer part, if the type can stand
for it. -/
inductive Truncates (type : IntType) (signedness : Signedness) :
    Option Quantity → Except Trap Value → Prop where
  /-- What is not a number has no integer part. -/
  | missing : Truncates type signedness none (.error .invalidConversionToInteger)
  /-- The integer part can be stood for. -/
  | exact (number : ℚ)
      (represented : signedness.Represents type.width (Floating.integerPart number)) :
      Truncates type signedness (some (number : Quantity))
        (.ok (type.ofInt (Floating.integerPart number)))
  /-- The integer part cannot be stood for, or there is none. -/
  | beyond (quantity : Quantity)
      (exceeds : ∀ number : ℚ, quantity = number →
        ¬signedness.Represents type.width (Floating.integerPart number)) :
      Truncates type signedness (some quantity) (.error .integerOverflow)

/-- **The outcomes that a conversion may have.** What is rounded may come out as any number of the
type. -/
def NumericConversion.Allows (conversion : NumericConversion) (value : Value)
    (outcome : Except Trap Value) : Prop :=
  match conversion with
  | .wrap => outcome = .ok (IntType.i32.ofInt value.toBits)
  | .extend signedness => outcome = .ok (IntType.i64.ofInt (signedness.read 32 value.toBits))
  | .truncate target source signedness =>
      Truncates target signedness (source.quantity? value) outcome
  | .convert .. | .demote | .promote =>
      ∃ result, outcome = .ok result ∧ result.type = conversion.target
  | .bitsOfFloat _ | .floatOfBits _ =>
      ∃ result, outcome = .ok result ∧ result.type = conversion.target ∧
        result.toBits = value.toBits

/-- **The outcomes that a numeric operation may have**, by its operands in the order in which they
were added. Computations on numbers may come to any number of the type. -/
def NumericOp.Allows : NumericOp → List Value → Except Trap Value → Prop
  | .eqz _, [value], outcome => Decides outcome (value.toBits = 0)
  | .intCompare type comparison, [left, right], outcome =>
      Decides outcome (comparison.Holds type.width left.toBits right.toBits)
  | .floatCompare type comparison, [left, right], outcome =>
      Decides outcome (comparison.Holds (type.quantity? left) (type.quantity? right))
  | .intUnary type operation, [value], outcome =>
      outcome = .ok (type.ofInt (operation.count type.width value.toBits))
  | .intBinary type operation, [left, right], outcome =>
      outcome = (operation.result type.width left.toBits right.toBits).map type.ofInt
  | .floatUnary type _, [_], outcome => ∃ bits, outcome = .ok (type.value bits)
  | .floatBinary type _, [_, _], outcome => ∃ bits, outcome = .ok (type.value bits)
  | .conversion op, [value], outcome => op.Allows value outcome
  | _, _, _ => False

/-- **Of what is not a number only a difference holds.** -/
theorem NumericOp.Allows.eq_of_missing {type : FloatType} {comparison : FloatComparison}
    {left right : Value} {outcome : Except Trap Value}
    (allowed : (NumericOp.floatCompare type comparison).Allows [left, right] outcome)
    (missing : ∃ operand ∈ [left, right], type.quantity? operand = none) :
    outcome = .ok (.i32 (if comparison = .ne then 1 else 0)) := by
  have either : type.quantity? left = none ∨ type.quantity? right = none := by
    simpa using missing
  have holds : comparison.Holds _ _ ↔ comparison = .ne := FloatComparison.holds_iff_ne either
  rcases allowed with ⟨differs, same⟩ | ⟨agrees, same⟩
  · rw [same, if_pos (holds.mp differs)]
  · rw [same, if_neg (mt holds.mpr agrees)]

/-! ## Results and traps -/

/-- **Whether an outcome is a value of a type or a trap** of a computation. -/
inductive Settles (type : ValueType) : Except Trap Value → Prop where
  /-- The outcome is a value. -/
  | result (value : Value) (typed : value.type = type) : Settles type (.ok value)
  /-- The divisor is zero. -/
  | divideByZero : Settles type (.error .integerDivideByZero)
  /-- The type has no such integer. -/
  | overflow : Settles type (.error .integerOverflow)
  /-- What should be converted is not a number. -/
  | invalid : Settles type (.error .invalidConversionToInteger)

/-- A decision is a 32-bit integer. -/
theorem Decides.settles {outcome : Except Trap Value} {condition : Prop}
    (decides : Decides outcome condition) : Settles .i32 outcome := by
  rcases decides with ⟨-, rfl⟩ | ⟨-, rfl⟩ <;> exact .result _ rfl

/-- A number that is cut down is an integer of the type, or a trap. -/
theorem Truncates.settles {type : IntType} {signedness : Signedness} {number : Option Quantity}
    {outcome : Except Trap Value} (truncates : Truncates type signedness number outcome) :
    Settles type.toValueType outcome := by
  cases truncates with
  | missing => exact .invalid
  | exact number => exact .result _ (type.type_ofInt _)
  | beyond => exact .overflow

/-- So is what an operation on two integers comes to. -/
theorem IntBinary.settles (operation : IntBinary) (type : IntType) (left right : Nat) :
    Settles type.toValueType ((operation.result type.width left right).map type.ofInt) := by
  cases operation with
  | div signedness =>
      simp only [IntBinary.result]
      split
      · exact .divideByZero
      · split
        · exact .overflow
        · exact .result _ (type.type_ofInt _)
  | rem signedness =>
      simp only [IntBinary.result]
      split
      · exact .divideByZero
      · exact .result _ (type.type_ofInt _)
  | _ => exact .result _ (type.type_ofInt _)

/-- What a conversion may come to is a value of its target, or a trap. -/
theorem NumericConversion.Allows.settles {conversion : NumericConversion} {operand : Value}
    {outcome : Except Trap Value} (allowed : conversion.Allows operand outcome) :
    Settles conversion.target outcome := by
  cases conversion with
  | wrap | extend =>
      cases allowed
      exact .result _ rfl
  | truncate => exact Truncates.settles allowed
  | convert | demote | promote =>
      obtain ⟨result, rfl, typed⟩ := allowed
      exact .result result typed
  | bitsOfFloat | floatOfBits =>
      obtain ⟨result, rfl, typed, -⟩ := allowed
      exact .result result typed

/-- **Operations come to values of their type or to traps.** -/
theorem NumericOp.Allows.settles {operation : NumericOp} {operands : List Value}
    {outcome : Except Trap Value} (allowed : operation.Allows operands outcome) :
    Settles operation.resultType outcome := by
  unfold NumericOp.Allows at allowed
  split at allowed
  -- The three comparisons.
  · exact allowed.settles
  · exact allowed.settles
  · exact allowed.settles
  -- Computations on integers.
  · cases allowed
    exact .result _ (IntType.type_ofInt _ _)
  · cases allowed
    exact IntBinary.settles _ _ _ _
  -- Computations on floating-point numbers.
  · obtain ⟨bits, rfl⟩ := allowed
    exact .result _ (FloatType.type_value _ bits)
  · obtain ⟨bits, rfl⟩ := allowed
    exact .result _ (FloatType.type_value _ bits)
  · exact allowed.settles
  · exact allowed.elim

/-! ## Operands of given types -/

/-- Operands of two types are two values. -/
theorem exists_two {operands : List Value} {type : ValueType}
    (typed : operands.map Value.type = [type, type]) :
    ∃ left right, operands = [left, right] ∧ left.type = type ∧ right.type = type := by
  obtain ⟨left, others, rfl, leftTyped, othersTyped⟩ := List.map_eq_cons_iff.mp typed
  obtain ⟨right, rfl, rightTyped⟩ := List.map_eq_singleton_iff.mp othersTyped
  exact ⟨left, right, rfl, leftTyped, rightTyped⟩

/-- An operand of an integer type is an integer. -/
theorem exists_int {operands : List Value} (type : IntType)
    (typed : operands.map Value.type = [type.toValueType]) : ∃ x, operands = [type.value x] := by
  obtain ⟨value, rfl, valueTyped⟩ := List.map_eq_singleton_iff.mp typed
  obtain ⟨x, rfl⟩ := type.exists_value valueTyped
  exact ⟨x, rfl⟩

/-- Two such operands are two integers. -/
theorem exists_ints {operands : List Value} (type : IntType)
    (typed : operands.map Value.type = [type.toValueType, type.toValueType]) :
    ∃ x y, operands = [type.value x, type.value y] := by
  obtain ⟨left, right, rfl, leftTyped, rightTyped⟩ := exists_two typed
  obtain ⟨x, rfl⟩ := type.exists_value leftTyped
  obtain ⟨y, rfl⟩ := type.exists_value rightTyped
  exact ⟨x, y, rfl⟩

/-- An operand of a floating-point type is a floating-point number. -/
theorem exists_float {operands : List Value} (type : FloatType)
    (typed : operands.map Value.type = [type.toValueType]) : ∃ x, operands = [type.value x] := by
  obtain ⟨value, rfl, valueTyped⟩ := List.map_eq_singleton_iff.mp typed
  obtain ⟨x, rfl⟩ := type.exists_value valueTyped
  exact ⟨x, rfl⟩

/-- Two such operands are two of them. -/
theorem exists_floats {operands : List Value} (type : FloatType)
    (typed : operands.map Value.type = [type.toValueType, type.toValueType]) :
    ∃ x y, operands = [type.value x, type.value y] := by
  obtain ⟨left, right, rfl, leftTyped, rightTyped⟩ := exists_two typed
  obtain ⟨x, rfl⟩ := type.exists_value leftTyped
  obtain ⟨y, rfl⟩ := type.exists_value rightTyped
  exact ⟨x, y, rfl⟩

/-- The types of operands tell how many there are. -/
theorem NumericOp.length_operands {operation : NumericOp} {operands : List Value}
    (typed : operands.map Value.type = operation.operands) :
    operands.length = operation.operandCount := by
  rw [← List.length_map Value.type, typed, NumericOp.operands, List.length_replicate]

end WasmCompiler
