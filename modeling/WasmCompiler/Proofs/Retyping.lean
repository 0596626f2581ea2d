import WasmCompiler.Proofs.Typing

/-! # Types of computations

Computations of the machine take their operands as they find them and trap if the types do not fit.
The type of the result is determined by those of the operands, so a sequence of computations can be
checked on types alone. Every numeric operation becomes a sequence that passes.

* **`Gives`** — a computation gives a value of a type, or traps for another reason than its types;
* **`gives_arith`**, **`gives_compare`**, **`gives_convert`**, **`gives_unary`**,
  **`gives_binary`** — results have the types that those of the operands determine;
* **`NumericOp.retypes_lower`** — numeric operations take and leave what their types say. -/

namespace WasmCompiler

open Bytecode

/-- Whether values of a type are integers. -/
def ValueType.isInteger : ValueType → Bool
  | .i32 | .i64 => true
  | .f32 | .f64 => false

/-! ## Types of results -/

namespace Bytecode

/-- The type of a comparison of values of two types, if they fit. -/
def comparisonType? (left right : ValueType) : Option ValueType :=
  if left = right then some .i32 else none

/-- Whether a computation on two values fits values of two types. Shift counts are 32-bit
integers. -/
def Arithmetic.fits (op : Arithmetic) (left right : ValueType) : Bool :=
  match op with
  | .add | .sub | .mul | .div => decide (left = right)
  | .divUn | .rem | .remUn | .and | .or | .xor => decide (left = right) && left.isInteger
  | .shl | .shr | .shrUn => decide (right = .i32) && left.isInteger
  | .neg => false

/-- The type of a computation on values of two types, if they fit: that of the first value. -/
def Arithmetic.resultType? (op : Arithmetic) (left right : ValueType) : Option ValueType :=
  if op.fits left right then some left else none

/-- The type of a conversion of a value of a type, if it fits. -/
def Conversion.resultType? (op : Conversion) (type : ValueType) : Option ValueType :=
  match op with
  | .i4 => if type.isInteger then some .i32 else none
  | .i8 | .u8 => if type = .i32 then some .i64 else none
  | .r4 => if type = .f32 then none else some .f32
  | .r8 => if type = .f64 then none else some .f64
  | .r4Un => if type.isInteger then some .f32 else none
  | .r8Un => if type.isInteger then some .f64 else none
  | .ovfI4 | .ovfU4 => if type.isInteger then none else some .i32
  | .ovfI8 | .ovfU8 => if type.isInteger then none else some .i64

/-- The type of the other kind with the same width. -/
def reinterpretedType : ValueType → ValueType
  | .i32 => .f32
  | .i64 => .f64
  | .f32 => .i32
  | .f64 => .i64

/-- The type of an intrinsic on a value of a type, if it fits. -/
def Intrinsic.unaryType? (op : Intrinsic) (type : ValueType) : Option ValueType :=
  match op with
  | .clz | .ctz | .popcnt => if type.isInteger then some type else none
  | .abs | .ceil | .floor | .trunc | .nearest | .sqrt => if type.isInteger then none else some type
  | .reinterpret => some (reinterpretedType type)
  | .rotl | .rotr | .min | .max | .copysign => none

/-- Whether an intrinsic on two values fits values of two types. -/
def Intrinsic.fits (op : Intrinsic) (left right : ValueType) : Bool :=
  match op with
  | .rotl | .rotr => decide (left = right) && left.isInteger
  | .min | .max | .copysign => decide (left = right) && !left.isInteger
  | _ => false

/-- The type of an intrinsic on values of two types, if they fit. -/
def Intrinsic.binaryType? (op : Intrinsic) (left right : ValueType) : Option ValueType :=
  if op.fits left right then some left else none

end Bytecode

/-! ## Results -/

namespace Machine

/-- **Whether a trap is one that typed code may end with**: no operand is missing and none has
another type than expected. -/
def Trap.isSound : Trap → Bool
  | .stackUnderflow | .typeMismatch _ => false
  | _ => true

/-- **Whether a computation gives a value of a type**, if it does not trap for another reason. -/
def Gives (type : ValueType) : Except Trap Value → Prop
  | .ok value => value.type = type
  | .error trap => trap.isSound = true

/-- A result of a computation as a value. -/
theorem gives_map {α : Type} {type : ValueType} {result : Except Trap α} {wrap : α → Value}
    (wraps : ∀ bits, (wrap bits).type = type)
    (sound : ∀ trap, result = .error trap → trap.isSound = true) :
    Gives type (result.map wrap) := by
  cases result with
  | ok bits => exact wraps bits
  | error trap => exact sound trap rfl

section Integers

variable {width : Nat}

/-- Computations on integers trap only for what the integers are, but shifts are not among them. -/
theorem isSound_of_intArith {op : Arithmetic} {left right : BitVec width} {trap : Trap}
    (fits : op.fits .i64 .i64 = true) (fails : intArith op left right = .error trap) :
    trap.isSound = true := by
  cases op with
  | div =>
      simp only [intArith] at fails
      by_cases zero : right = 0
      · rw [if_pos zero] at fails
        cases fails
        rfl
      · rw [if_neg zero] at fails
        split at fails
        · cases fails
          rfl
        · cases fails
  | divUn | rem | remUn =>
      simp only [intArith] at fails
      split at fails
      · cases fails
        rfl
      · cases fails
  | add | sub | mul | and | or | xor => cases fails
  | shl | shr | shrUn | neg => cases fits

end Integers

/-- **Computations on two values.** -/
theorem gives_arith {op : Arithmetic} {left right : Value} {type : ValueType}
    (known : op.resultType? left.type right.type = some type) :
    Gives type (arith op left right) := by
  unfold Arithmetic.resultType? at known
  split at known
  · next fits =>
      cases known
      cases left with
      | i32 x =>
          cases right with
          | i32 y =>
              -- A shift of words of one width is computed apart from the other operations.
              cases shifted : shift? op x y with
              | some result =>
                  simp only [arith, shifted]
                  rfl
              | none =>
                  have integral : op.fits .i64 .i64 = true := by
                    cases op with
                    | shl | shr | shrUn => cases shifted
                    | neg => cases fits
                    | _ => rfl
                  simp only [arith, shifted]
                  exact gives_map (fun _ => rfl) fun trap => isSound_of_intArith integral
          | _ => cases op <;> cases fits
      | i64 x =>
          cases right with
          | i32 y => cases op <;> first | rfl | cases fits
          | i64 y => exact gives_map (fun _ => rfl) fun trap => isSound_of_intArith fits
          | _ => cases op <;> cases fits
      | f32 x =>
          cases right with
          | f32 y => cases op <;> first | rfl | cases fits
          | _ => cases op <;> cases fits
      | f64 x =>
          cases right with
          | f64 y => cases op <;> first | rfl | cases fits
          | _ => cases op <;> cases fits
  · cases known

/-- A number with the opposite sign has the same type. -/
theorem type_negate (value : Value) : (negate value).type = value.type := by
  cases value <;> rfl

/-- **Comparisons.** -/
theorem gives_compare {op : Comparison} {left right : Value} {type : ValueType}
    (known : comparisonType? left.type right.type = some type) :
    Gives type (compare op left right) := by
  unfold comparisonType? at known
  split at known
  · next same =>
      cases known
      cases left <;> cases right <;> first | rfl | cases same
  · cases known

/-- The integer part of a number exists, unless the number does not fit. -/
theorem isSound_of_truncate {datum : Floating.Datum} {low high : Int} {trap : Trap}
    (fails : truncate datum low high = .error trap) : trap.isSound = true := by
  unfold truncate at fails
  by_cases nan : datum.isNan = true
  · rw [if_pos nan] at fails
    cases fails
    rfl
  · rw [if_neg nan] at fails
    split at fails
    · split at fails
      · cases fails
      · cases fails
        rfl
    · cases fails
      rfl

/-- **Conversions.** -/
theorem gives_convert {op : Conversion} {value : Value} {type : ValueType}
    (known : op.resultType? value.type = some type) : Gives type (convert op value) := by
  have truncates : ∀ (datum : Floating.Datum) (low high : Int) (toValue : Int → Value),
      (∀ integer, (toValue integer).type = type) →
        Gives type ((truncate datum low high).map toValue) :=
    fun datum low high toValue typed => gives_map typed fun trap => isSound_of_truncate
  cases op <;> cases value <;> cases known <;> first | rfl | exact truncates _ _ _ _ fun _ => rfl

/-- **Intrinsics of one operand.** -/
theorem gives_unary {op : Intrinsic} {value : Value} {type : ValueType}
    (known : op.unaryType? value.type = some type) : Gives type (unary op value) := by
  cases op <;> cases value <;> cases known <;> rfl

/-- **Intrinsics of two operands.** -/
theorem gives_binary {op : Intrinsic} {left right : Value} {type : ValueType}
    (known : op.binaryType? left.type right.type = some type) :
    Gives type (binary op left right) := by
  cases op <;> cases left <;> cases right <;> cases known <;> rfl

end Machine

/-! ## Sequences of computations -/

namespace Bytecode

/-- The types of the operands after a computation on the topmost one. -/
def retypeUnary (resultType? : ValueType → Option ValueType) :
    List ValueType → Option (List ValueType)
  | type :: stack => (resultType? type).map (· :: stack)
  | [] => none

/-- The types of the operands after a computation on the two topmost ones. -/
def retypeBinary (resultType? : ValueType → ValueType → Option ValueType) :
    List ValueType → Option (List ValueType)
  | right :: left :: stack => (resultType? left right).map (· :: stack)
  | _ => none

/-- The types of the operands after a constant or a computation, if they fit. -/
def Op.retype {Target : Type} (op : Op Target) (stack : List ValueType) :
    Option (List ValueType) :=
  match op with
  | .const value => some (value.type :: stack)
  | .compare _ => retypeBinary comparisonType? stack
  | .arith .neg => retypeUnary some stack
  | .arith op => retypeBinary op.resultType? stack
  | .convert op => retypeUnary op.resultType? stack
  | .intrinsic op =>
      if Machine.isBinary op then retypeBinary op.binaryType? stack
      else retypeUnary op.unaryType? stack
  | _ => none

/-- The types of the operands after constants and computations one after the other. -/
def retypeAll {Target : Type} : List (Op Target) → List ValueType → Option (List ValueType)
  | [], stack => some stack
  | op :: ops, stack => (op.retype stack).bind (retypeAll ops)

end Bytecode

/-! ## Numeric operations -/

section

variable {Target : Type} (stack : List ValueType)

/-- A comparison of integers gives a 32-bit integer for two operands. -/
theorem IntComparison.retypes_lower (type : IntType) (op : IntComparison) :
    retypeAll (op.lower : List (Op Target)) (type.toValueType :: type.toValueType :: stack) =
      some (.i32 :: stack) := by
  cases type <;> rcases op with _ | _ | signedness | signedness | signedness | signedness <;>
    first | rfl | cases signedness <;> rfl

/-- An operation on two integers gives an integer of their type. -/
theorem IntBinary.retypes_lower (type : IntType) (op : IntBinary) :
    retypeAll (op.lower type : List (Op Target)) (type.toValueType :: type.toValueType :: stack) =
      some (type.toValueType :: stack) := by
  cases type <;>
    rcases op with _ | _ | _ | signedness | signedness | _ | _ | _ | _ | signedness | _ | _ <;>
    first | rfl | cases signedness <;> rfl

/-- A conversion gives a value of its target for one of its source. -/
theorem NumericConversion.retypes_lower (op : NumericConversion) :
    retypeAll (op.lower : List (Op Target)) (op.source :: stack) = some (op.target :: stack) := by
  cases op with
  | truncate target source signedness =>
      cases target <;> cases source <;> cases signedness <;> rfl
  | extend signedness => cases signedness <;> rfl
  | convert target source signedness =>
      cases target <;> cases source <;> cases signedness <;> rfl
  | bitsOfFloat source => cases source <;> rfl
  | floatOfBits source => cases source <;> rfl
  | wrap | demote | promote => rfl

/-- **Numeric operations take and leave operands of their types.** -/
theorem NumericOp.retypes_lower (operation : NumericOp) :
    retypeAll (operation.lower : List (Op Target)) (operation.operands ++ stack) =
      some (operation.resultType :: stack) := by
  cases operation with
  | eqz type => cases type <;> rfl
  | intCompare type op => exact op.retypes_lower stack type
  | floatCompare type op => cases type <;> cases op <;> rfl
  | intUnary type op => cases type <;> cases op <;> rfl
  | intBinary type op => exact op.retypes_lower stack type
  | floatUnary type op => cases type <;> cases op <;> rfl
  | floatBinary type op => cases type <;> cases op <;> rfl
  | conversion op => exact op.retypes_lower stack

end

end WasmCompiler
