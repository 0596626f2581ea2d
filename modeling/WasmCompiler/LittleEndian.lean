/-! # Little-endian numbers

Natural numbers as bytes, lowest byte first. -/

namespace WasmCompiler.LittleEndian

/-- The number that bytes spell. -/
def toNat : List UInt8 → Nat
  | [] => 0
  | byte :: bytes => byte.toNat + 256 * toNat bytes

/-- The low bytes of a number. -/
def ofNat : (count value : Nat) → List UInt8
  | 0, _ => []
  | count + 1, value => value.toUInt8 :: ofNat count (value / 256)

/-- A number is spelled in as many bytes as asked for. -/
@[simp] theorem length_ofNat (count value : Nat) : (ofNat count value).length = count := by
  induction count generalizing value with
  | zero => rfl
  | succ count countInduction => simp only [ofNat, List.length_cons, countInduction]

end WasmCompiler.LittleEndian
