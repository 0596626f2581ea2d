import Mathlib.Data.List.TakeWhile
import Mathlib.Data.Nat.Bitwise
import Mathlib.Tactic.Ring
import WasmCompiler.Machine.Numeric
import WasmCompiler.NumericOp

/-! # Integer operations by what they compute

The integer operations of a module on numbers: the operands are the numbers below a power of two
that their bits spell, read with or without sign, and the result is an integer of which only the
remainder modulo that power is kept. The machine computes on words, and comes to the same.

* **`Signedness.read`** — the integer that bits stand for;
* **`IntComparison.Holds`**, **`IntUnary.count`**, **`IntBinary.result`** — comparisons, counts of
  bits and computations on two integers;
* **`intCompare_lt_iff`**, **`clz_eq_count`**, **`intArith_div`** and the others beside them — what
  the machine computes. -/

namespace WasmCompiler

/-! ## What integer operations are -/

/-- The number of bits of an integer type. -/
def IntType.width : IntType → Nat
  | .i32 => 32
  | .i64 => 64

/-- **The integer that bits stand for**: in two's complement, or as a plain binary number. -/
def Signedness.read (signedness : Signedness) (width bits : Nat) : Int :=
  match signedness with
  | .unsigned => bits
  | .signed => if bits < 2 ^ (width - 1) then bits else bits - (2 ^ width : Nat)

/-- **When a comparison of two integers holds.** Whether they are equal does not depend on how they
are read. -/
def IntComparison.Holds (comparison : IntComparison) (width left right : Nat) : Prop :=
  match comparison with
  | .eq => left = right
  | .ne => left ≠ right
  | .lt signedness => signedness.read width left < signedness.read width right
  | .gt signedness => signedness.read width right < signedness.read width left
  | .le signedness => signedness.read width left ≤ signedness.read width right
  | .ge signedness => signedness.read width right ≤ signedness.read width left

/-- **The number of bits that an operation counts**: zeros before the highest one, zeros after the
lowest one, or ones. -/
def IntUnary.count (operation : IntUnary) (width bits : Nat) : Nat :=
  match operation with
  | .clz =>
      ((List.range width).takeWhile fun place => !bits.testBit (width - 1 - place)).length
  | .ctz => ((List.range width).takeWhile fun place => !bits.testBit place).length
  | .popcnt => (List.range width).countP fun place => bits.testBit place

/-- **The result of a computation on two integers**, of which the remainder modulo `2 ^ width` is
kept. Quotients are rounded toward zero, and remainders have the sign of the dividend. Shifts and
rotations are by the count modulo the width: a shift to the right rounds down, and a rotation brings
in at one end what it takes away at the other. -/
def IntBinary.result (operation : IntBinary) (width left right : Nat) : Except Machine.Trap Int :=
  let count := right % width
  match operation with
  | .add => .ok (left + right)
  | .sub => .ok (left - right)
  | .mul => .ok (left * right)
  | .div signedness =>
      let dividend := signedness.read width left
      let divisor := signedness.read width right
      if divisor = 0 then .error .integerDivideByZero
      else if dividend = -(2 ^ (width - 1) : Nat) ∧ divisor = -1 then .error .integerOverflow
      else .ok (dividend.tdiv divisor)
  | .rem signedness =>
      let dividend := signedness.read width left
      let divisor := signedness.read width right
      if divisor = 0 then .error .integerDivideByZero else .ok (dividend.tmod divisor)
  | .and => .ok (left &&& right : Nat)
  | .or => .ok (left ||| right : Nat)
  | .xor => .ok (left ^^^ right : Nat)
  | .shl => .ok (left * 2 ^ count : Nat)
  | .shr signedness => .ok (signedness.read width left / (2 ^ count : Nat))
  | .rotl => .ok (left * 2 ^ count + left / 2 ^ (width - count) : Nat)
  | .rotr => .ok (left / 2 ^ count + left % 2 ^ count * 2 ^ (width - count) : Nat)

namespace Machine

open Bytecode

variable {width : Nat} {x y : BitVec width}

/-! ## Readings -/

/-- Words are read without sign as natural numbers. -/
theorem read_unsigned (x : BitVec width) : Signedness.unsigned.read width x.toNat = x.toNat :=
  rfl

/-- Words are read with sign as integers in two's complement. -/
theorem read_signed (positive : 0 < width) (x : BitVec width) :
    Signedness.signed.read width x.toNat = x.toInt := by
  have twice : 2 ^ width = 2 * 2 ^ (width - 1) := by
    rw [← Nat.pow_succ', Nat.succ_eq_add_one, Nat.sub_add_cancel positive]
  rw [BitVec.toInt_eq_toNat_cond, Signedness.read, twice]
  by_cases low : x.toNat < 2 ^ (width - 1)
  · rw [if_pos low, if_pos (by omega)]
  · rw [if_neg low, if_neg (by omega)]

/-! ## Comparisons -/

/-- Words are equal if their numbers are. -/
theorem intCompare_eq_iff : intCompare .eq x y = true ↔ x.toNat = y.toNat := by
  rw [intCompare, beq_iff_eq, BitVec.toNat_inj]

/-- The comparison without sign is that of the readings without sign. -/
theorem intCompare_ltUn_iff : intCompare .ltUn x y = true ↔
    Signedness.unsigned.read width x.toNat < Signedness.unsigned.read width y.toNat := by
  rw [intCompare, BitVec.ult_iff_toNat_lt, read_unsigned, read_unsigned, Int.ofNat_lt]

/-- The comparison with sign is that of the readings with sign. -/
theorem intCompare_lt_iff (positive : 0 < width) : intCompare .lt x y = true ↔
    Signedness.signed.read width x.toNat < Signedness.signed.read width y.toNat := by
  rw [intCompare, BitVec.slt_iff_toInt_lt, read_signed positive, read_signed positive]

/-! ## Counts of bits -/

/-- The places in front of the first one where a property fails. -/
theorem length_takeWhile_range {holds : Nat → Bool} {count bound : Nat} (within : count ≤ bound)
    (before : ∀ place < count, holds place = true)
    (ends : count < bound → holds count = false) :
    ((List.range bound).takeWhile holds).length = count := by
  obtain ⟨more, rfl⟩ := Nat.exists_eq_add_of_le within
  have front : ∀ place ∈ List.range count, holds place = true :=
    fun place member => before place (List.mem_range.mp member)
  rw [List.range_add, List.takeWhile_append_of_pos front, List.length_append, List.length_range]
  cases more with
  | zero => rfl
  | succ more =>
      have stops : holds (count + 0) = false := ends (by omega)
      rw [List.range_succ_eq_map, List.map_cons, List.takeWhile_cons, stops]
      rfl

/-- The width of a word fits in it. -/
theorem toNat_width (width : Nat) : (width : BitVec width).toNat = width :=
  (BitVec.toNat_ofNat width width).trans (Nat.mod_eq_of_lt Nat.lt_two_pow_self)

/-- There are no more leading zeros than bits. -/
theorem toNat_clz_le (x : BitVec width) : x.clz.toNat ≤ width := by
  have bound := BitVec.le_def.mp (BitVec.clz_le (x := x))
  rwa [toNat_width] at bound

/-- A word with a lower count of leading zeros is not zero. -/
theorem ne_zero_of_toNat_clz_lt (less : x.clz.toNat < width) : x ≠ 0 := by
  intro zero
  rw [BitVec.clz_eq_iff_eq_zero.mpr zero, toNat_width] at less
  exact Nat.lt_irrefl _ less

/-- **Leading zeros.** -/
theorem clz_eq_count (positive : 0 < width) (x : BitVec width) :
    x.clz.toNat = IntUnary.clz.count width x.toNat := by
  -- Places that are counted are clear, and the one behind them is not.
  refine (length_takeWhile_range (toNat_clz_le x) (fun place inside => ?_) fun less => ?_).symm
  · have small := BitVec.toNat_lt_two_pow_sub_clz (x := x)
    have high : 2 ^ (width - x.clz.toNat) ≤ 2 ^ (width - 1 - place) :=
      Nat.pow_le_pow_right (by decide) (by omega)
    rw [Nat.testBit_lt_two_pow (small.trans_le high)]
    rfl
  · have found := BitVec.getLsbD_true_clz_of_ne_zero positive (ne_zero_of_toNat_clz_lt less)
    rw [Bool.not_eq_false']
    exact found

/-- **Trailing zeros.** -/
theorem ctz_eq_count (x : BitVec width) : x.ctz.toNat = IntUnary.ctz.count width x.toNat := by
  -- The word is read from the other end.
  have reversed : x.ctz = x.reverse.clz := BitVec.ctz_eq_reverse_clz
  have bound : x.ctz.toNat ≤ width := reversed ▸ toNat_clz_le x.reverse
  refine (length_takeWhile_range bound (fun place inside => ?_) fun less => ?_).symm
  · have clear : x.toNat.testBit place = false := BitVec.getLsbD_false_of_lt_ctz inside
    rw [clear]
    rfl
  · have some : x.reverse ≠ 0 := ne_zero_of_toNat_clz_lt (reversed ▸ less)
    have found := BitVec.getLsbD_true_ctz_of_ne_zero (mt BitVec.reverse_eq_zero_iff.mpr some)
    rw [Bool.not_eq_false']
    exact found

/-- The ones below a place, on top of those counted before. -/
theorem cpopNatRec_eq_count (x : BitVec width) (places counted : Nat) :
    x.cpopNatRec places counted =
      counted + (List.range places).countP fun place => x.toNat.testBit place := by
  induction places generalizing counted with
  | zero => rfl
  | succ places placesInduction =>
      have last : ([places].countP fun place => x.toNat.testBit place) =
          (x.toNat.testBit places).toNat := by
        rw [List.countP_singleton]
        cases x.toNat.testBit places <;> rfl
      rw [BitVec.cpopNatRec_succ, placesInduction, List.range_succ, List.countP_append, last,
        Nat.add_assoc, Nat.add_comm (Bool.toNat _)]
      rfl

/-- **Ones.** -/
theorem cpop_eq_count (x : BitVec width) : x.cpop.toNat = IntUnary.popcnt.count width x.toNat := by
  rw [BitVec.toNat_cpop, cpopNatRec_eq_count, Nat.zero_add]
  rfl

/-! ## Computations -/

/-- A word is the remainder of the number that it stands for. -/
theorem ofInt_toNat (x : BitVec width) : BitVec.ofInt width x.toNat = x := by
  rw [BitVec.ofInt_natCast, BitVec.ofNat_toNat, BitVec.setWidth_eq]

/-- The sum of two numbers wraps to the sum of the words. -/
theorem ofInt_add_toNat : BitVec.ofInt width (x.toNat + y.toNat) = x + y := by
  rw [BitVec.ofInt_add, ofInt_toNat, ofInt_toNat]

/-- The difference wraps to the difference. -/
theorem ofInt_sub_toNat : BitVec.ofInt width (x.toNat - y.toNat) = x - y := by
  refine BitVec.eq_sub_iff_add_eq.mpr ?_
  calc
    BitVec.ofInt width (x.toNat - y.toNat) + y =
        BitVec.ofInt width (x.toNat - y.toNat) + BitVec.ofInt width y.toNat := by
      rw [ofInt_toNat y]
    _ = BitVec.ofInt width (x.toNat - y.toNat + y.toNat) := (BitVec.ofInt_add _ _).symm
    _ = x := by rw [Int.sub_add_cancel, ofInt_toNat]

/-- The product wraps to the product. -/
theorem ofInt_mul_toNat : BitVec.ofInt width (x.toNat * y.toNat) = x * y := by
  rw [BitVec.ofInt_mul, ofInt_toNat, ofInt_toNat]

/-- A word that spells a number is its remainder. -/
theorem ofInt_eq_of_toNat {number : Nat} (spells : x.toNat = number % 2 ^ width) :
    BitVec.ofInt width number = x := by
  refine BitVec.eq_of_toNat_eq ?_
  rw [BitVec.ofInt_natCast, BitVec.toNat_ofNat, spells]

/-- A word that stands for an integer is its remainder. -/
theorem ofInt_eq_of_toInt {integer : Int} (stands : x.toInt = integer) :
    BitVec.ofInt width integer = x := by
  rw [← stands, BitVec.ofInt_toInt]

/-- The least integer of a width. -/
theorem toInt_eq_min_iff (positive : 0 < width) :
    x.toInt = -(2 ^ (width - 1) : Nat) ↔ x = BitVec.intMin width := by
  have low : 2 ^ (width - 1) < 2 ^ width :=
    Nat.pow_lt_pow_right (by decide) (Nat.sub_lt positive Nat.one_pos)
  rw [← BitVec.toInt_inj, BitVec.toInt_intMin, Nat.mod_eq_of_lt low]

/-- Only the word of all ones is read as minus one. -/
theorem toInt_eq_neg_one_iff (positive : 0 < width) : x.toInt = -1 ↔ x = -1 := by
  have all : (-1 : BitVec width).toInt = -1 :=
    (congrArg BitVec.toInt BitVec.neg_one_eq_allOnes).trans
      (BitVec.toInt_allOnes.trans (if_pos positive))
  rw [← BitVec.toInt_inj, all]

/-- Only the word zero is read with sign as zero. -/
theorem toInt_eq_zero_iff : x.toInt = 0 ↔ x = 0 := by
  rw [← BitVec.toInt_inj]
  exact Iff.of_eq (congrArg (x.toInt = ·) BitVec.toInt_zero.symm)

/-- Only the word zero is read without sign as zero. -/
theorem toNat_eq_zero_iff : (x.toNat : Int) = 0 ↔ x = 0 := by
  rw [Int.natCast_eq_zero, ← BitVec.toNat_inj]
  exact Iff.rfl

/-- **Division with sign.** -/
theorem intArith_div (positive : 0 < width) : intArith .div x y =
    ((IntBinary.div .signed).result width x.toNat y.toNat).map (BitVec.ofInt width) := by
  simp only [intArith, IntBinary.result, read_signed positive, toInt_eq_min_iff positive,
    toInt_eq_neg_one_iff positive, toInt_eq_zero_iff]
  by_cases zero : y = 0
  · rw [if_pos zero, if_pos zero]
    rfl
  · rw [if_neg zero, if_neg zero]
    by_cases overflows : x = BitVec.intMin width ∧ y = -1
    · rw [if_pos overflows, if_pos overflows]
      rfl
    · rw [if_neg overflows, if_neg overflows]
      have exact := BitVec.toInt_sdiv_of_ne_or_ne x y (not_and_or.mp overflows)
      exact congrArg Except.ok (ofInt_eq_of_toInt exact).symm

/-- **Division without sign.** -/
theorem intArith_divUn : intArith .divUn x y =
    ((IntBinary.div .unsigned).result width x.toNat y.toNat).map (BitVec.ofInt width) := by
  have nonnegative : ¬(y.toNat : Int) = -1 := by omega
  simp only [intArith, IntBinary.result, read_unsigned, toNat_eq_zero_iff, nonnegative, and_false,
    if_false]
  by_cases zero : y = 0
  · rw [if_pos zero, if_pos zero]
    rfl
  · rw [if_neg zero, if_neg zero, ← Int.ofNat_tdiv, ← BitVec.toNat_udiv]
    exact congrArg Except.ok (ofInt_toNat _).symm

/-- **Remainders with sign.** -/
theorem intArith_rem (positive : 0 < width) : intArith .rem x y =
    ((IntBinary.rem .signed).result width x.toNat y.toNat).map (BitVec.ofInt width) := by
  simp only [intArith, IntBinary.result, read_signed positive, toInt_eq_zero_iff]
  by_cases zero : y = 0
  · rw [if_pos zero, if_pos zero]
    rfl
  · rw [if_neg zero, if_neg zero]
    exact congrArg Except.ok (ofInt_eq_of_toInt (BitVec.toInt_srem x y)).symm

/-- **Remainders without sign.** -/
theorem intArith_remUn : intArith .remUn x y =
    ((IntBinary.rem .unsigned).result width x.toNat y.toNat).map (BitVec.ofInt width) := by
  simp only [intArith, IntBinary.result, read_unsigned, toNat_eq_zero_iff]
  by_cases zero : y = 0
  · rw [if_pos zero, if_pos zero]
    rfl
  · rw [if_neg zero, if_neg zero, ← Int.ofNat_tmod, ← BitVec.toNat_umod]
    exact congrArg Except.ok (ofInt_toNat _).symm

/-- The conjunction of the numbers is that of the words. -/
theorem ofInt_and_toNat : BitVec.ofInt width (x.toNat &&& y.toNat : Nat) = x &&& y := by
  rw [← BitVec.toNat_and, ofInt_toNat]

/-- So is the disjunction. -/
theorem ofInt_or_toNat : BitVec.ofInt width (x.toNat ||| y.toNat : Nat) = x ||| y := by
  rw [← BitVec.toNat_or, ofInt_toNat]

/-- So is the exclusive disjunction. -/
theorem ofInt_xor_toNat : BitVec.ofInt width (x.toNat ^^^ y.toNat : Nat) = x ^^^ y := by
  rw [← BitVec.toNat_xor, ofInt_toNat]

/-! ## Shifts and rotations -/

/-- **Shifts to the left.** -/
theorem ofInt_shiftLeft (count : Nat) :
    BitVec.ofInt width (x.toNat * 2 ^ count : Nat) = x <<< count := by
  refine ofInt_eq_of_toNat ?_
  rw [BitVec.toNat_shiftLeft, Nat.shiftLeft_eq]

/-- **Shifts to the right without sign.** -/
theorem ofInt_ushiftRight (count : Nat) :
    BitVec.ofInt width (Signedness.unsigned.read width x.toNat / (2 ^ count : Nat)) =
      x >>> count := by
  rw [read_unsigned, ← Int.natCast_ediv]
  refine ofInt_eq_of_toNat ?_
  rw [← Nat.shiftRight_eq_div_pow, ← BitVec.toNat_ushiftRight, Nat.mod_eq_of_lt (BitVec.isLt _)]

/-- **Shifts to the right with sign.** -/
theorem ofInt_sshiftRight (positive : 0 < width) (count : Nat) :
    BitVec.ofInt width (Signedness.signed.read width x.toNat / (2 ^ count : Nat)) =
      x.sshiftRight count := by
  rw [read_signed positive, ← Int.shiftRight_eq_div_pow]
  exact ofInt_eq_of_toInt BitVec.toInt_sshiftRight

/-- Numbers that share no bit are put together by addition. -/
theorem mul_two_pow_or {number count : Nat} (small : number < 2 ^ count) (high : Nat) :
    high * 2 ^ count ||| number = high * 2 ^ count + number := by
  rw [← Nat.shiftLeft_eq, Nat.shiftLeft_add_eq_or_of_lt small]

/-- The bits of a number that stay when it is moved up. -/
theorem shiftLeft_mod {count : Nat} (within : count ≤ width) (number : Nat) :
    number <<< count % 2 ^ width = number % 2 ^ (width - count) * 2 ^ count := by
  obtain ⟨rest, rfl⟩ := Nat.exists_eq_add_of_le' within
  rw [Nat.shiftLeft_eq, Nat.add_sub_cancel, Nat.pow_add, Nat.mul_mod_mul_right]

/-- What is taken away at the end of a word is small. -/
theorem shiftRight_lt {count : Nat} (within : count ≤ width) (x : BitVec width) :
    x.toNat >>> (width - count) < 2 ^ count := by
  have bound : x.toNat < 2 ^ (width - count) * 2 ^ count := by
    rw [← Nat.pow_add, Nat.sub_add_cancel within]
    exact x.isLt
  rw [Nat.shiftRight_eq_div_pow]
  exact Nat.div_lt_of_lt_mul bound

/-- Two digits of a number in mixed bases. -/
theorem mul_add_lt {high low base bound : Nat} (highBound : high < bound) (lowBound : low < base) :
    high * base + low < bound * base :=
  calc
    high * base + low < (high + 1) * base := by
      rw [Nat.succ_mul]
      exact Nat.add_lt_add_left lowBound _
    _ ≤ bound * base := Nat.mul_le_mul_right base highBound

/-- What moves a number out of its bound at the top is a multiple of the bound. -/
theorem mul_add_div (number bound base : Nat) :
    number * base + number / bound =
      number % bound * base + number / bound + bound * base * (number / bound) :=
  calc
    number * base + number / bound =
        (number % bound + bound * (number / bound)) * base + number / bound := by
      rw [Nat.mod_add_div]
    _ = number % bound * base + number / bound + bound * base * (number / bound) := by ring

/-- **Rotations to the left.** -/
theorem ofInt_rotateLeft {count : Nat} (within : count < width) :
    BitVec.ofInt width (x.toNat * 2 ^ count + x.toNat / 2 ^ (width - count) : Nat) =
      x.rotateLeft count := by
  have small := shiftRight_lt within.le x
  refine ofInt_eq_of_toNat ?_
  rw [BitVec.toNat_rotateLeft, Nat.mod_eq_of_lt within, shiftLeft_mod within.le,
    mul_two_pow_or small]
  rw [Nat.shiftRight_eq_div_pow] at small ⊢
  have bound := mul_add_lt (Nat.mod_lt x.toNat (Nat.two_pow_pos (width - count))) small
  have whole : 2 ^ width = 2 ^ (width - count) * 2 ^ count := by
    rw [← Nat.pow_add, Nat.sub_add_cancel within.le]
  -- What is moved out of the word at the top is a multiple of its bound.
  rw [whole, mul_add_div x.toNat (2 ^ (width - count)) (2 ^ count), Nat.add_mul_mod_self_left,
    Nat.mod_eq_of_lt bound]

/-- **Rotations to the right.** -/
theorem ofInt_rotateRight {count : Nat} (within : count < width) :
    BitVec.ofInt width (x.toNat / 2 ^ count + x.toNat % 2 ^ count * 2 ^ (width - count) : Nat) =
      x.rotateRight count := by
  have back : width - (width - count) = count := Nat.sub_sub_self within.le
  have small := shiftRight_lt (Nat.sub_le width count) x
  refine ofInt_eq_of_toNat ?_
  rw [BitVec.toNat_rotateRight, Nat.mod_eq_of_lt within, shiftLeft_mod (Nat.sub_le width count)]
  rw [back] at small ⊢
  rw [Nat.or_comm, mul_two_pow_or small]
  rw [Nat.shiftRight_eq_div_pow] at small ⊢
  have bound := mul_add_lt (Nat.mod_lt x.toNat (Nat.two_pow_pos count)) small
  rw [← Nat.pow_add, Nat.add_sub_cancel' within.le] at bound
  rw [Nat.add_comm (x.toNat / 2 ^ count), Nat.mod_eq_of_lt bound]

end Machine

end WasmCompiler
