import ScriptOptimizer.Decimal.Binary64
import ScriptOptimizer.Token.Word

/-!
Numerals: hexadecimal, octal after a leading zero, and decimal with fraction and exponent.
-/

namespace ScriptOptimizer.Numeral

/-- Whole numbers are read into 64 bits. -/
def limit : Nat := 0x10000000000000000

/-- The hexadecimal numeral whose digits follow two bytes of a mark. -/
def scanHex (afterMark : Bytes) : Scan Binary64 :=
  let digits := afterMark.takeWhile Bytes.isHexDigit
  let value := Bytes.valueInBase 16 digits
  if digits = [] then Scan.fail (.invalidHexLiteral "invalid syntax") 2
  else if value ≥ limit then
    Scan.fail (.invalidHexLiteral "value out of range") (2 + digits.length)
  else .ok (2 + digits.length, Binary64.ofNat value)

/-- Are the digits an octal numeral: a leading zero and octal digits only? -/
def isOctal : Bytes → Bool
  | 48 :: d :: rest => (d :: rest).all Bytes.isOctalDigit
  | _ => false

/-- The width of a fraction, its point included. -/
def fractionWidth : Bytes → Nat
  | 46 :: rest => 1 + (rest.takeWhile Bytes.isDigit).length
  | _ => 0

/-- The width of an exponent, its letter included; none when the digits are missing, with the width
of what stands there instead. -/
def exponentWidth : Bytes → Except Nat Nat
  | e :: rest =>
    if e = 101 || e = 69 then
      let (sign, digits) := match rest with
        | s :: more => if s = 43 || s = 45 then (1, more) else (0, rest)
        | [] => (0, [])
      match (digits.takeWhile Bytes.isDigit).length with
      | 0 => .error (1 + sign)
      | n + 1 => .ok (1 + sign + (n + 1))
    else .ok 0
  | [] => .ok 0

/-- The decimal numeral at the front of a text whose whole part takes `whole` bytes. -/
def scanDecimal (whole : Nat) (text : Bytes) : Scan Binary64 :=
  let mantissa := whole + fractionWidth (text.drop whole)
  match exponentWidth (text.drop mantissa) with
  | .error width => Scan.fail .missingExponent (mantissa + width)
  | .ok exponent =>
    let width := mantissa + exponent
    match text.drop width with
    | b :: _ =>
      if Word.isStartByte b then Scan.fail .identifierAfterNumber width
      else .ok (width, Binary64.ofNumeral (text.take width))
    | [] => .ok (width, Binary64.ofNumeral (text.take width))

/-- The numeral at the front of a text. -/
def scan (text : Bytes) : Scan Binary64 :=
  match text with
  | 48 :: 120 :: rest => scanHex rest
  | 48 :: 88 :: rest => scanHex rest
  | _ =>
    let whole := text.takeWhile Bytes.isDigit
    if isOctal whole then
      let value := Bytes.valueInBase 8 whole
      if value ≥ limit then Scan.fail (.invalidOctalLiteral "value out of range") whole.length
      else .ok (whole.length, Binary64.ofNat value)
    else scanDecimal whole.length text

end ScriptOptimizer.Numeral
