import CvmMeasure.Binary.LittleEndian

/-! # Python text formatting

The texts of the tool's exceptions embed integers in hexadecimal and byte strings in `repr` form.
Only messages use these functions; no proof depends on what they print. -/

namespace CvmMeasure.Python

open Binary

/-- The bytes of an ASCII literal, `b"..."`. -/
def asciiBytes (s : String) : Bytes := s.toList.map fun ch => UInt8.ofNat ch.toNat

/-- `f"{n:0{width}X}"`: upper-case hexadecimal, zero-padded to `width` digits. -/
def hexUpper (width n : Nat) : String :=
  String.ofList (((Nat.toDigits 16 n).map Char.toUpper).leftpad width '0')

/-- `f"{n:0{width}x}"`: lower-case hexadecimal, zero-padded to `width` digits. -/
def hexLower (width n : Nat) : String :=
  String.ofList ((Nat.toDigits 16 n).leftpad width '0')

/-- One character of a `repr` inside `quote`s; bytes outside printable ASCII are escaped. -/
def reprChar (quote : Char) (code : Nat) : String :=
  if code = 0x5C then "\\\\"
  else if code = quote.toNat then "\\" ++ quote.toString
  else if code = 0x09 then "\\t"
  else if code = 0x0A then "\\n"
  else if code = 0x0D then "\\r"
  else if code < 0x20 ∨ code = 0x7F then "\\x" ++ hexLower 2 code
  else (Char.ofNat code).toString

/-- Python quotes with `'`, unless the text holds a `'` and no `"`. -/
def reprQuote (codes : List Nat) : Char :=
  if 0x27 ∈ codes ∧ 0x22 ∉ codes then '"' else '\''

/-- `repr` of a byte string. -/
def reprBytes (bs : Bytes) : String :=
  let codes := bs.map UInt8.toNat
  let quote := reprQuote codes
  let body := codes.map fun code =>
    if 0x80 ≤ code then "\\x" ++ hexLower 2 code else reprChar quote code
  "b" ++ quote.toString ++ String.join body ++ quote.toString

/-- `repr` of a string; characters past ASCII are taken to be printable. -/
def reprText (s : String) : String :=
  let codes := s.toList.map Char.toNat
  let quote := reprQuote codes
  quote.toString ++ String.join (codes.map (reprChar quote)) ++ quote.toString

end CvmMeasure.Python
