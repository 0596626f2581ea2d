import WasmCompiler.Text.Printable

/-! # Quoted text

Text between double quotes, on one line and without doubt about its characters: quotes and
backslashes are escaped, and characters that are not printable are given by name or by number. -/

namespace WasmCompiler.Text

/-- A character given by its code point, in the fewest hexadecimal digits. -/
def codePointEscape (char : Char) : String :=
  "\\u\x7b" ++ String.ofList (Nat.toDigits 16 char.toNat) ++ "\x7d"

/-- A character as it stands between double quotes. -/
def quotedChar (char : Char) : String :=
  match char with
  | '\x22' => "\\\""
  | '\\' => "\\\\"
  | '\n' => "\\n"
  | '\r' => "\\r"
  | '\t' => "\\t"
  | '\x00' => "\\0"
  | char => if isPrintable char then char.toString else codePointEscape char

/-- A text between double quotes. -/
def quoted (text : String) : String :=
  "\"" ++ String.join (text.toList.map quotedChar) ++ "\""

end WasmCompiler.Text
