import WasmCompiler.Emission.Numeric
import WasmCompiler.Proofs.Calculations
import WasmCompiler.Proofs.Labels
import WasmCompiler.Proofs.Outcomes

/-! # Numeric operations in bytecode

The computations that a numeric operation becomes come to what the operation allows: negations of
opposite comparisons, masked and narrowed counts of shifts and all the others, one family of
operations after the other. So does a machine that goes through them in its code.

* **`Yields`** — computations have an outcome, whatever other operands there are;
* **`NumericOp.exists_outcome`** — what operations become has an outcome that they allow;
* **`numeric_lowering_exact`** — what a machine does that comes to a numeric operation. -/

namespace WasmCompiler

open Floating (Quantity)

namespace Machine

open Bytecode (Arithmetic Comparison Intrinsic Op)
open Emission (negated)

/-! ## Values -/

section

variable (type : IntType) (x y : BitVec type.width)

/-- Values of integer types are compared as their bits. -/
theorem compare_intValue (op : Comparison) :
    compare op (type.value x) (type.value y) = .ok (ofCondition (intCompare op x y)) := by
  cases type <;> rfl

/-- An intrinsic on one integer gives the value of its bits. -/
theorem unary_intValue {op : Intrinsic} {result : BitVec type.width}
    (exact : intUnary? op x = some result) :
    unary op (type.value x) = .ok (type.value result) := by
  have other : op ≠ .reinterpret := by
    rintro rfl
    cases exact
  have counts : unary op (type.value x) =
      (orMismatch (type.value x) (intUnary? op x)).map type.value := by
    cases type <;> exact if_neg other
  rw [counts, exact]
  rfl

/-- So does a rotation. -/
theorem binary_intValue {op : Intrinsic} {result : BitVec type.width}
    (exact : rotate? op x y = some result) :
    binary op (type.value x) (type.value y) = .ok (type.value result) := by
  have rotates : binary op (type.value x) (type.value y) =
      (orMismatch (type.value x) (rotate? op x y)).map type.value := by
    cases type <;> rfl
  rw [rotates, exact]
  rfl

/-- Computations other than shifts have operands of one type. -/
theorem arith_intValue {op : Arithmetic}
    (other : ∀ count : BitVec 32, shift? op x count = none) :
    arith op (type.value x) (type.value y) = (intArith op x y).map type.value := by
  cases type with
  | i32 =>
      show (match shift? op x y with
        | some shifted => Except.ok (IntType.i32.value shifted)
        | none => (intArith op x y).map IntType.i32.value) = _
      rw [other y]
  | i64 => rfl

/-- So does a shift, by a count of 32 bits. -/
theorem arith_shift {op : Arithmetic} {count : BitVec 32} {result : BitVec type.width}
    (exact : shift? op x count = some result) :
    arith op (type.value x) (.i32 count) = .ok (type.value result) := by
  cases type with
  | i32 =>
      show (match shift? op x count with
        | some shifted => Except.ok (IntType.i32.value shifted)
        | none => (intArith op x count).map IntType.i32.value) = _
      rw [exact]
  | i64 =>
      show (orMismatch _ (shift? op x count)).map IntType.i64.value = _
      rw [exact]
      rfl

end

section

variable (type : FloatType) (x y : BitVec type.width)

/-- Values of floating-point types are compared by their format. -/
theorem compare_floatValue (op : Comparison) :
    compare op (type.value x) (type.value y) =
      .ok (ofCondition (floatCompare type.format op x.toNat y.toNat)) := by
  cases type <;> rfl

end

/-! ## Computations without other operands -/

/-- **Whether computations have an outcome** with operands in the order in which they were added,
whatever other operands there are. -/
def Yields (ops : List (Op Nat)) (operands : List Value) (outcome : Except Trap Value) : Prop :=
  ∀ rest, calculateAll ops (operands.reverse ++ rest) = outcome.map (· :: rest)

/-- The outcome of the last computation. -/
theorem calculateAll_singleton (op : Op Nat) (operands : List Value) :
    calculateAll [op] operands = calculate op operands := by
  rw [calculateAll]
  cases calculate op operands <;> rfl

/-- A comparison has its outcome on the two operands. -/
theorem yields_compare (op : Comparison) (left right : Value) :
    Yields [.compare op] [left, right] (compare op left right) :=
  fun _ => calculateAll_singleton _ _

/-- So has arithmetic on two operands. -/
theorem yields_arith {op : Arithmetic} (other : op ≠ .neg) (left right : Value) :
    Yields [.arith op] [left, right] (arith op left right) := by
  intro rest
  rw [calculateAll_singleton]
  cases op <;> first | rfl | contradiction

/-- A conversion has its outcome on the operand. -/
theorem yields_convert (op : Bytecode.Conversion) (value : Value) :
    Yields [.convert op] [value] (convert op value) :=
  fun _ => calculateAll_singleton _ _

/-- So has an intrinsic that takes one. -/
theorem yields_unary {op : Intrinsic} (single : isBinary op = false) (value : Value) :
    Yields [.intrinsic op] [value] (unary op value) := by
  intro rest
  rw [calculateAll_singleton, calculate, single]
  rfl

/-- An intrinsic that takes two has its outcome on both. -/
theorem yields_binary {op : Intrinsic} (two : isBinary op = true) (left right : Value) :
    Yields [.intrinsic op] [left, right] (binary op left right) := by
  intro rest
  rw [calculateAll_singleton, calculate, two]
  rfl

/-- A condition turned into its opposite. -/
theorem yields_negated {op : Comparison} {left right : Value} {condition : Bool}
    (decided : compare op left right = .ok (ofCondition condition)) :
    Yields (negated op) [left, right] (.ok (ofCondition !condition)) := by
  intro rest
  have first : calculate (.compare op) ([left, right].reverse ++ rest) =
      .ok (ofCondition condition :: rest) := by
    show (compare op left right).map _ = _
    rw [decided]
    rfl
  rw [negated, calculateAll, first]
  cases condition <;> rfl

/-! ## Comparisons -/

/-- The negation of what decides a condition decides that it fails. -/
theorem not_eq_true_iff {condition : Bool} {holds : Prop} (exact : condition = true ↔ holds) :
    (!condition) = true ↔ ¬holds := by
  rw [Bool.not_eq_true', ← Bool.not_eq_true, exact]

/-- The value of a condition decides what the condition does. -/
theorem decides_ofCondition {condition : Bool} {holds : Prop} (exact : condition = true ↔ holds) :
    Decides (.ok (ofCondition condition)) holds := by
  cases condition with
  | false => exact .inr ⟨fun holds => Bool.false_ne_true (exact.mpr holds), rfl⟩
  | true => exact .inl ⟨exact.mp rfl, rfl⟩

/-- A comparison that the machine makes. -/
theorem decides_compare {op : Comparison} {left right : Value} {condition : Bool} {holds : Prop}
    (decided : compare op left right = .ok (ofCondition condition))
    (exact : condition = true ↔ holds) :
    ∃ outcome, Decides outcome holds ∧ Yields [.compare op] [left, right] outcome :=
  ⟨_, decides_ofCondition exact, decided ▸ yields_compare op left right⟩

/-- The opposite of a comparison that the machine makes. -/
theorem decides_negated {op : Comparison} {left right : Value} {condition : Bool} {holds : Prop}
    (decided : compare op left right = .ok (ofCondition condition))
    (exact : condition = true ↔ ¬holds) :
    ∃ outcome, Decides outcome holds ∧ Yields (negated op) [left, right] outcome := by
  refine ⟨_, decides_ofCondition ?_, yields_negated decided⟩
  rw [not_eq_true_iff exact, not_not]

/-- An integer is zero if it is equal to zero of its type. -/
theorem decides_eqz (type : IntType) (x : BitVec type.width) :
    ∃ outcome, Decides outcome (x.toNat = 0) ∧
      Yields (NumericOp.eqz type).lower [type.value x] outcome := by
  have zero : (0 : BitVec type.width).toNat = 0 := by
    cases type <;> rfl
  have exact : intCompare .eq x 0 = true ↔ x.toNat = 0 := by
    rw [intCompare_eq_iff, zero]
  obtain ⟨outcome, decides, yields⟩ := decides_compare (compare_intValue type x 0 .eq) exact
  refine ⟨outcome, decides, fun rest => ?_⟩
  have onward := yields rest
  cases type <;> exact onward

/-- The same relation the other way around. -/
theorem related_swap {relation : Quantity → Quantity → Prop} {left right : Option Quantity} :
    Floating.Related relation left right ↔
      Floating.Related (fun x y => relation y x) right left :=
  ⟨fun ⟨x, y, first, second, holds⟩ => ⟨y, x, second, first, holds⟩,
    fun ⟨y, x, second, first, holds⟩ => ⟨x, y, first, second, holds⟩⟩

/-! ## Computations on integers -/

/-- A count of bits that the machine provides. -/
theorem yields_count {type : IntType} {x result : BitVec type.width} {op : Intrinsic} {count : Nat}
    (single : isBinary op = false) (exact : intUnary? op x = some result)
    (counts : result.toNat = count) :
    Yields [.intrinsic op] [type.value x] (.ok (type.ofInt count)) := by
  rw [IntType.ofInt, ← counts, ofInt_toNat, ← unary_intValue type x exact]
  exact yields_unary single _

section

variable {type : IntType} {x y : BitVec type.width}

/-- A computation that the machine provides for two integers of one type. -/
theorem yields_intArith {op : Arithmetic} {result : Except Trap Int} (other : op ≠ .neg)
    (unshifted : ∀ count : BitVec 32, shift? op x count = none)
    (exact : intArith op x y = result.map (BitVec.ofInt type.width)) :
    Yields [.arith op] [type.value x, type.value y] (result.map type.ofInt) := by
  have computed : arith op (type.value x) (type.value y) = result.map type.ofInt := by
    rw [arith_intValue type x y unshifted, exact]
    cases result <;> rfl
  exact computed ▸ yields_arith other _ _

/-- The count of a shift, as the code masks and narrows it. -/
def shiftCount : {type : IntType} → BitVec type.width → BitVec 32
  | .i32, (bits : BitVec 32) => bits &&& 31
  | .i64, (bits : BitVec 64) => BitVec.setWidth 32 (bits &&& 63)

/-- The low five bits are the remainder by 32. -/
theorem toNat_mask32 (bits : BitVec 32) : (bits &&& 31).toNat = bits.toNat % 32 :=
  (BitVec.toNat_and bits 31).trans (Nat.and_two_pow_sub_one_eq_mod bits.toNat 5)

/-- The low six bits are the remainder by 64. -/
theorem toNat_mask64 (bits : BitVec 64) :
    (BitVec.setWidth 32 (bits &&& 63)).toNat = bits.toNat % 64 := by
  have masked : (bits &&& 63).toNat = bits.toNat % 64 :=
    (BitVec.toNat_and bits 63).trans (Nat.and_two_pow_sub_one_eq_mod bits.toNat 6)
  rw [BitVec.toNat_setWidth, masked]
  omega

/-- **Masks keep the count modulo the width.** -/
theorem toNat_shiftCount_mod (y : BitVec type.width) :
    (shiftCount y).toNat % type.width = y.toNat % type.width := by
  cases type with
  | i32 => exact (congrArg (· % 32) (toNat_mask32 y)).trans (Nat.mod_mod y.toNat 32)
  | i64 => exact (congrArg (· % 64) (toNat_mask64 y)).trans (Nat.mod_mod y.toNat 64)

/-- A shift by the masked count. -/
theorem yields_shift {op : Arithmetic} {integer : Int} (other : op ≠ .neg)
    (exact : shift? op x (shiftCount y) = some (BitVec.ofInt type.width integer)) :
    Yields (Emission.shift type op) [type.value x, type.value y] (.ok (type.ofInt integer)) := by
  intro rest
  have masked :
      calculateAll (Emission.shift type op) ([type.value x, type.value y].reverse ++ rest) =
        calculateAll [.arith op] ([type.value x, .i32 (shiftCount y)].reverse ++ rest) := by
    cases type <;> rfl
  rw [masked, yields_arith other, arith_shift type x exact]
  rfl

/-- A rotation that the machine provides. -/
theorem yields_rotate {op : Intrinsic} {integer : Int} (two : isBinary op = true)
    (exact : rotate? op x y = some (BitVec.ofInt type.width integer)) :
    Yields [.intrinsic op] [type.value x, type.value y] (.ok (type.ofInt integer)) := by
  rw [IntType.ofInt, ← binary_intValue type x y exact]
  exact yields_binary two _ _

end

/-! ## Conversions -/

/-- **Numbers are cut down to integers** within the bounds that the machine is given, which are
those of the type. -/
theorem truncates_truncate {type : IntType} {signedness : Signedness} {low high : Int}
    (bounds : ∀ integer, low ≤ integer ∧ integer < high ↔
      signedness.Represents type.width integer) (format : Floating.Format) (word : Nat) :
    Truncates type signedness (format.quantity? word)
      ((truncate (format.decode word) low high).map type.ofInt) := by
  rw [← format.quantity?_decode]
  cases equation : (format.decode word).quantity? with
  | none =>
      rw [truncate, if_pos (Floating.Datum.quantity?_eq_none_iff.mp equation)]
      exact .missing
  | some quantity =>
      have finite : (format.decode word).isNan ≠ true := fun missing => by
        rw [Floating.Datum.quantity?_eq_none_iff.mpr missing] at equation
        cases equation
      rw [truncate, if_neg finite]
      cases cut : (format.decode word).truncate? with
      | none =>
          -- An infinity has no integer part.
          refine .beyond quantity fun number same _ => ?_
          have known := Floating.Datum.truncate?_eq_some_iff.mpr ⟨number, same ▸ equation, rfl⟩
          rw [cut] at known
          cases known
      | some integer =>
          obtain ⟨number, known, rfl⟩ := Floating.Datum.truncate?_eq_some_iff.mp cut
          obtain rfl : quantity = number := Option.some.inj (equation.symm.trans known)
          by_cases inside : low ≤ Floating.integerPart number ∧ Floating.integerPart number < high
          · simp only [if_pos inside]
            exact .exact number ((bounds _).mp inside)
          · simp only [if_neg inside]
            refine .beyond _ fun other same represented => inside ((bounds _).mpr ?_)
            rwa [WithBotTop.coe_strictMono.injective same]

/-- A conversion that cuts down a number. -/
theorem yields_truncate {op : Bytecode.Conversion} {type : IntType} {low high : Int}
    (converts : ∀ value, convert op value = do
      return type.ofInt (← truncate (← orMismatch value (datum? value)) low high))
    (source : FloatType) (bits : BitVec source.width) :
    Yields [.convert op] [source.value bits]
      ((truncate (source.format.decode bits.toNat) low high).map type.ofInt) := by
  have exact : orMismatch (source.value bits) (datum? (source.value bits)) =
      .ok (source.format.decode bits.toNat) := by
    cases source <;> rfl
  have cut : convert op (source.value bits) =
      (truncate (source.format.decode bits.toNat) low high).map type.ofInt := by
    rw [converts, exact]
    show truncate _ low high >>= _ = _
    cases truncate (source.format.decode bits.toNat) low high <;> rfl
  exact cut ▸ yields_convert op _

/-- A conversion that rounds or keeps the bits. -/
theorem exists_outcome_of_eq {ops : List (Op Nat)} {value result : Value} {type : ValueType}
    (yields : Yields ops [value] (.ok result)) (typed : result.type = type) :
    ∃ outcome, (∃ result, outcome = .ok result ∧ result.type = type) ∧
      Yields ops [value] outcome :=
  ⟨_, ⟨result, rfl, typed⟩, yields⟩

/-- Bits without sign at another width are cut off or filled up with zeros. -/
theorem ofInt_toNat_eq_setWidth {width : Nat} (x : BitVec width) (other : Nat) :
    BitVec.ofInt other x.toNat = x.setWidth other := by
  rw [BitVec.ofInt_natCast, BitVec.ofNat_toNat]

end Machine

/-! ## Families of operations -/

open Machine

/-- **Comparisons of integers.** -/
theorem IntComparison.decides (comparison : IntComparison) (type : IntType)
    (x y : BitVec type.width) :
    ∃ outcome, Decides outcome (comparison.Holds type.width x.toNat y.toNat) ∧
      Yields comparison.lower [type.value x, type.value y] outcome := by
  have positive := type.width_pos
  have decided := compare_intValue type x y
  cases comparison with
  | eq => exact decides_compare (decided _) intCompare_eq_iff
  | ne => exact decides_negated (decided _) (intCompare_eq_iff.trans not_not.symm)
  | lt signedness =>
      cases signedness with
      | signed => exact decides_compare (decided _) (intCompare_lt_iff positive)
      | unsigned => exact decides_compare (decided _) intCompare_ltUn_iff
  | gt signedness =>
      cases signedness with
      | signed => exact decides_compare (decided .gt) (intCompare_lt_iff positive)
      | unsigned => exact decides_compare (decided .gtUn) intCompare_ltUn_iff
  -- The others are lacking in the bytecode, and are the negations of their opposites.
  | le signedness =>
      cases signedness with
      | signed =>
          exact decides_negated (decided .gt) ((intCompare_lt_iff positive).trans Int.not_le.symm)
      | unsigned =>
          exact decides_negated (decided .gtUn) (intCompare_ltUn_iff.trans Int.not_le.symm)
  | ge signedness =>
      cases signedness with
      | signed =>
          exact decides_negated (decided .lt) ((intCompare_lt_iff positive).trans Int.not_le.symm)
      | unsigned =>
          exact decides_negated (decided .ltUn) (intCompare_ltUn_iff.trans Int.not_le.symm)

/-- **Comparisons of floating-point numbers.** -/
theorem FloatComparison.decides (comparison : FloatComparison) (type : FloatType)
    (x y : BitVec type.width) :
    ∃ outcome, Decides outcome (comparison.Holds (type.format.quantity? x.toNat)
        (type.format.quantity? y.toNat)) ∧
      Yields comparison.lower [type.value x, type.value y] outcome := by
  have decided := compare_floatValue type x y
  cases comparison with
  | eq => exact decides_compare (decided .eq) equal_iff
  | ne => exact decides_negated (decided .eq) (equal_iff.trans not_not.symm)
  | lt => exact decides_compare (decided .lt) less_iff
  | gt => exact decides_compare (decided .gt) (less_iff.trans related_swap)
  -- The comparisons without sign are the negations of these, which unordered operands fail.
  | le => exact decides_negated (decided .gtUn) (not_eq_true_iff lessOrEqual_iff)
  | ge =>
      exact decides_negated (decided .ltUn)
        (not_eq_true_iff (lessOrEqual_iff.trans related_swap))

/-- **Counts of bits.** -/
theorem IntUnary.yields (operation : IntUnary) (type : IntType) (x : BitVec type.width) :
    Yields operation.lower [type.value x]
      (.ok (type.ofInt (operation.count type.width x.toNat))) := by
  cases operation with
  | clz => exact yields_count rfl rfl (clz_eq_count (type.width_pos) x)
  | ctz => exact yields_count rfl rfl (ctz_eq_count x)
  | popcnt => exact yields_count rfl rfl (cpop_eq_count x)

/-- **Computations on two integers.** -/
theorem IntBinary.yields (operation : IntBinary) (type : IntType) (x y : BitVec type.width) :
    Yields (operation.lower type) [type.value x, type.value y]
      ((operation.result type.width x.toNat y.toNat).map type.ofInt) := by
  have positive := type.width_pos
  have within : y.toNat % type.width < type.width := Nat.mod_lt _ positive
  cases operation with
  | add =>
      exact yields_intArith nofun (fun _ => rfl) (congrArg Except.ok ofInt_add_toNat.symm)
  | sub =>
      exact yields_intArith nofun (fun _ => rfl) (congrArg Except.ok ofInt_sub_toNat.symm)
  | mul =>
      exact yields_intArith nofun (fun _ => rfl) (congrArg Except.ok ofInt_mul_toNat.symm)
  | div signedness =>
      cases signedness with
      | signed => exact yields_intArith nofun (fun _ => rfl) (intArith_div positive)
      | unsigned => exact yields_intArith nofun (fun _ => rfl) intArith_divUn
  | rem signedness =>
      cases signedness with
      | signed => exact yields_intArith nofun (fun _ => rfl) (intArith_rem positive)
      | unsigned => exact yields_intArith nofun (fun _ => rfl) intArith_remUn
  | and =>
      exact yields_intArith nofun (fun _ => rfl) (congrArg Except.ok ofInt_and_toNat.symm)
  | or =>
      exact yields_intArith nofun (fun _ => rfl) (congrArg Except.ok ofInt_or_toNat.symm)
  | xor =>
      exact yields_intArith nofun (fun _ => rfl) (congrArg Except.ok ofInt_xor_toNat.symm)
  -- The machine takes counts modulo the width once more, after the mask.
  | shl =>
      refine yields_shift nofun ?_
      rw [shift?, toNat_shiftCount_mod, ofInt_shiftLeft]
  | shr signedness =>
      cases signedness with
      | signed =>
          refine yields_shift nofun ?_
          rw [shift?, toNat_shiftCount_mod, ofInt_sshiftRight positive]
      | unsigned =>
          refine yields_shift nofun ?_
          rw [shift?, toNat_shiftCount_mod, ofInt_ushiftRight]
  | rotl => exact yields_rotate rfl (congrArg some (ofInt_rotateLeft within).symm)
  | rotr => exact yields_rotate rfl (congrArg some (ofInt_rotateRight within).symm)

/-- **Computations on one number.** -/
theorem FloatUnary.yields (operation : FloatUnary) (type : FloatType) (x : BitVec type.width) :
    ∃ bits, Yields operation.lower [type.value x] (.ok (type.value bits)) := by
  cases type <;> cases operation <;> exact ⟨_, fun _ => rfl⟩

/-- **Computations on two numbers.** -/
theorem FloatBinary.yields (operation : FloatBinary) (type : FloatType)
    (x y : BitVec type.width) :
    ∃ bits, Yields operation.lower [type.value x, type.value y] (.ok (type.value bits)) := by
  cases type <;> cases operation <;> exact ⟨_, fun _ => rfl⟩

/-- **What conversions become has an outcome that they allow.** -/
theorem NumericConversion.exists_outcome (conversion : NumericConversion) {value : Value}
    (typed : value.type = conversion.source) :
    ∃ outcome, conversion.Allows value outcome ∧ Yields conversion.lower [value] outcome := by
  cases conversion with
  | wrap =>
      obtain ⟨bits, rfl⟩ : ∃ bits, value = .i64 bits := IntType.i64.exists_value typed
      have low : IntType.i32.ofInt bits.toNat = .i32 (bits.setWidth 32) :=
        congrArg Value.i32 (ofInt_toNat_eq_setWidth bits 32)
      exact ⟨_, congrArg Except.ok low.symm, yields_convert .i4 _⟩
  | truncate target source signedness =>
      obtain ⟨bits, rfl⟩ := source.exists_value typed
      simp only [NumericConversion.Allows, FloatType.quantity?_value]
      cases target <;> cases signedness <;>
        exact ⟨_, truncates_truncate (fun _ => Iff.rfl) _ _, yields_truncate (fun _ => rfl) _ _⟩
  | extend signedness =>
      obtain ⟨bits, rfl⟩ : ∃ bits, value = .i32 bits := IntType.i32.exists_value typed
      cases signedness with
      | signed =>
          have wide : IntType.i64.ofInt (Signedness.signed.read 32 bits.toNat) =
              .i64 (bits.signExtend 64) :=
            congrArg (Value.i64 ∘ BitVec.ofInt 64) (read_signed (by decide) bits)
          exact ⟨_, congrArg Except.ok wide.symm, yields_convert .i8 _⟩
      | unsigned =>
          have wide : IntType.i64.ofInt (Signedness.unsigned.read 32 bits.toNat) =
              .i64 (bits.setWidth 64) :=
            congrArg Value.i64 (ofInt_toNat_eq_setWidth bits 64)
          exact ⟨_, congrArg Except.ok wide.symm, yields_convert .u8 _⟩
  | convert target source signedness =>
      obtain ⟨bits, rfl⟩ := source.exists_value typed
      cases target <;> cases source <;> cases signedness <;>
        exact exists_outcome_of_eq (yields_convert _ _) rfl
  | demote =>
      obtain ⟨bits, rfl⟩ : ∃ bits, value = .f64 bits := FloatType.f64.exists_value typed
      exact exists_outcome_of_eq (yields_convert .r4 _) rfl
  | promote =>
      obtain ⟨bits, rfl⟩ : ∃ bits, value = .f32 bits := FloatType.f32.exists_value typed
      exact exists_outcome_of_eq (yields_convert .r8 _) rfl
  | bitsOfFloat source =>
      obtain ⟨bits, rfl⟩ := source.exists_value typed
      cases source <;>
        exact ⟨.ok (reinterpret _), ⟨_, rfl, rfl, rfl⟩, yields_unary rfl _⟩
  | floatOfBits source =>
      obtain ⟨bits, rfl⟩ := source.exists_value typed
      cases source <;>
        exact ⟨.ok (reinterpret _), ⟨_, rfl, rfl, rfl⟩, yields_unary rfl _⟩

/-- **What numeric operations become has an outcome that they allow.** -/
theorem NumericOp.exists_outcome (operation : NumericOp) {operands : List Value}
    (typed : operands.map Value.type = operation.operands) :
    ∃ outcome, operation.Allows operands outcome ∧ Yields operation.lower operands outcome := by
  cases operation with
  | eqz type =>
      obtain ⟨x, rfl⟩ := exists_int type typed
      simp only [NumericOp.Allows, IntType.toBits_value]
      exact decides_eqz type x
  | intCompare type op =>
      obtain ⟨x, y, rfl⟩ := exists_ints type typed
      simp only [NumericOp.Allows, IntType.toBits_value]
      exact op.decides type x y
  | floatCompare type op =>
      obtain ⟨x, y, rfl⟩ := exists_floats type typed
      simp only [NumericOp.Allows, FloatType.quantity?_value]
      exact op.decides type x y
  | intUnary type op =>
      obtain ⟨x, rfl⟩ := exists_int type typed
      simp only [NumericOp.Allows, IntType.toBits_value]
      exact ⟨_, rfl, op.yields type x⟩
  | intBinary type op =>
      obtain ⟨x, y, rfl⟩ := exists_ints type typed
      simp only [NumericOp.Allows, IntType.toBits_value]
      exact ⟨_, rfl, op.yields type x y⟩
  | floatUnary type op =>
      obtain ⟨x, rfl⟩ := exists_float type typed
      obtain ⟨bits, yields⟩ := op.yields type x
      exact ⟨_, ⟨bits, rfl⟩, yields⟩
  | floatBinary type op =>
      obtain ⟨x, y, rfl⟩ := exists_floats type typed
      obtain ⟨bits, yields⟩ := op.yields type x y
      exact ⟨_, ⟨bits, rfl⟩, yields⟩
  | conversion op =>
      obtain ⟨value, rfl, valueTyped⟩ := List.map_eq_singleton_iff.mp typed
      exact op.exists_outcome valueTyped

/-! ## Runs of the machine -/

namespace Machine

open Bytecode (Assembly Op)

/-- Numeric operations add no more than one operand on the way. -/
theorem growthAll_lower_le (operation : NumericOp) : growthAll operation.lower ≤ 1 := by
  -- A comparison of two numbers computes, so each form of an operation is checked by evaluation.
  refine Nat.le_of_ble_eq_true ?_
  cases operation with
  | eqz type => rfl
  | intCompare type op =>
      rcases op with _ | _ | signedness | signedness | signedness | signedness <;>
        first | rfl | cases signedness <;> rfl
  | floatCompare type op => cases op <;> rfl
  | intUnary type op => cases op <;> rfl
  | intBinary type op =>
      cases type <;>
        rcases op with _ | _ | _ | signedness | signedness | _ | _ | _ | _ | signedness | _ | _ <;>
        first | rfl | cases signedness <;> rfl
  | floatUnary type op => cases op <;> rfl
  | floatBinary type op => cases op <;> rfl
  | conversion op =>
      cases op with
      | truncate target source signedness => cases target <;> cases signedness <;> rfl
      | extend signedness => cases signedness <;> rfl
      | convert target source signedness => cases target <;> cases signedness <;> rfl
      | _ => rfl

/-- **A machine that comes to a numeric operation does what the operation is defined to do.** With
operands of its types the operation comes to a result or a trap: for integers and for comparisons to
that of the definition, where of what is not a number only a difference holds. A machine that comes
to what the operation becomes takes the operands and leaves the result in their place, or traps with
the store as it is but for the count of activations. It may exhaust the bound on the number of
operands, but not if there is room for one more. -/
theorem numeric_lowering_exact (operation : NumericOp) (operands : List Value)
    (typed : operands.map Value.type = operation.operands) :
    operands.length = operation.operandCount ∧
      ∃ outcome, operation.Allows operands outcome ∧
        Settles operation.resultType outcome ∧
        (∀ type comparison, operation = .floatCompare type comparison →
          (∃ operand ∈ operands, type.quantity? operand = none) →
            outcome = .ok (.i32 (if comparison = .ne then 1 else 0))) ∧
        ∀ (assembly : Assembly) (bounds : Bounds) (code : Array (Op Nat)) (position : Nat)
          (running : Running) (callers : List Activation) (rest : List Value),
          (∀ index op, (operation.lower : List (Op Nat))[index]? = some op →
            code[position + index]? = some op) →
          running.values = operands.reverse ++ rest →
          let after := run assembly bounds (operation.lower : List (Op Nat)).length
            ⟨running.at code position, callers⟩
          (running.height < bounds.maxValueStack →
            ∀ depth store, after ≠ .trapped (.callStackExhausted depth) store) ∧
          ((∀ depth store, after ≠ .trapped (.callStackExhausted depth) store) →
            after =
              match outcome with
              | .ok value =>
                  .running ⟨(running.withValues (value :: rest)).at code
                    (position + (operation.lower : List (Op Nat)).length), callers⟩
              | .error trap => .trapped trap (running.store.uncount (callers.length + 1))) := by
  obtain ⟨outcome, allowed, yields⟩ := operation.exists_outcome typed
  have settles := NumericOp.Allows.settles allowed
  refine ⟨NumericOp.length_operands typed, outcome, allowed, settles, ?_, ?_⟩
  · rintro type comparison rfl missing
    obtain ⟨left, right, rfl, -⟩ := exists_two typed
    exact NumericOp.Allows.eq_of_missing allowed missing
  · intro assembly bounds code position running callers rest placed found
    have computed := yields rest
    rw [← found] at computed
    rcases run_calculates (fun _ => operation.isComputation_of_mem_lower) placed with
      ⟨exceeds, depth, store, exhausted⟩ | done
    · have grows := growthAll_lower_le operation
      exact ⟨fun room => by omega, fun unbounded => absurd exhausted (unbounded depth store)⟩
    · rw [computed] at done
      refine ⟨fun _ depth store same => ?_, fun _ => ?_⟩
      -- Operations trap for what they compute, never for want of room.
      · cases settles <;> cases done.symm.trans same
      · cases outcome <;> exact done

/-- A wide shift by one more than the width shifts by one, above an operand that stays. -/
theorem numeric_lowering_exact_shift :
    let operation := NumericOp.intBinary .i64 .shl
    let operands := [Value.i64 3, Value.i64 65]
    let code := (operation.lower : List (Op Nat)).toArray
    let running : Running :=
      ⟨⟨⟨0, ⟨[], []⟩, [], code⟩, 1, 0, #[], .ofValues [.i64 65, .i64 3, .i32 7]⟩,
        ⟨⟨#[], 0⟩, #[], #[], 1⟩⟩
    operands.map Value.type = operation.operands ∧
      run ⟨{}, "shift", #[]⟩ {} 4 ⟨running.at code 0, []⟩ =
        .running ⟨(running.withValues [.i64 6, .i32 7]).at code 4, []⟩ := by
  intro operation operands code running
  have typed : operands.map Value.type = operation.operands := rfl
  obtain ⟨-, outcome, allowed, -, -, runs⟩ := numeric_lowering_exact operation operands typed
  have shifted : outcome = .ok (.i64 6) := allowed.trans rfl
  have placed : ∀ index op, (operation.lower : List (Op Nat))[index]? = some op →
      code[0 + index]? = some op := fun index op known => by
    rw [Nat.zero_add, List.getElem?_toArray, known]
  obtain ⟨within, done⟩ := runs ⟨{}, "shift", #[]⟩ {} code 0 running [] [.i32 7] placed rfl
  rw [shifted] at done
  exact ⟨typed, done (within (by decide))⟩

end Machine

end WasmCompiler
