/-!
Text as bytes. Source text may hold any bytes, so every offset, column and length of this library
counts bytes, and every text that can quote source text is a list of bytes.
-/

namespace ScriptOptimizer

/-- Text, as the bytes of its UTF-8 form. -/
abbrev Bytes := List UInt8

namespace Bytes

/-- The bytes of a string. -/
def ofString (s : String) : Bytes :=
  s.toList.flatMap String.utf8EncodeChar

instance : Coe String Bytes := ⟨ofString⟩

/-- The byte of an ASCII character. -/
def byte (c : Char) : UInt8 := c.toNat.toUInt8

/-- The decimal digits of a natural number. -/
def ofNat (n : Nat) : Bytes :=
  (Nat.toDigits 10 n).map byte

/-- The decimal digits of an integer, after a minus sign when it is negative. -/
def ofInt (i : Int) : Bytes :=
  if i < 0 then byte '-' :: ofNat i.natAbs else ofNat i.natAbs

/-- The pieces of a text between the occurrences of one byte; there is always at least one piece. -/
def splitOn (sep : UInt8) : Bytes → List Bytes
  | [] => [[]]
  | b :: rest =>
    if b = sep then [] :: splitOn sep rest
    else match splitOn sep rest with
      | [] => [[b]]
      | piece :: pieces => (b :: piece) :: pieces

/-- The pieces joined by a separator. -/
def join (sep : Bytes) : List Bytes → Bytes
  | [] => []
  | [piece] => piece
  | piece :: pieces => piece ++ sep ++ join sep pieces

/-- Without the trailing bytes that satisfy the test. -/
def trimEnd (drop : UInt8 → Bool) (text : Bytes) : Bytes :=
  (text.reverse.dropWhile drop).reverse

/-- Without one trailing occurrence of a byte, if it is there. -/
def dropLast (last : UInt8) (text : Bytes) : Bytes :=
  if text.getLast? = some last then List.dropLast text else text

/-- The suffix of a text after a given beginning, if it begins so. -/
def dropStart? (start : Bytes) (text : Bytes) : Option Bytes :=
  if start.isPrefixOf text then some (text.drop start.length) else none

/-- Does the text end so? -/
def endsWith (text : Bytes) (ending : Bytes) : Bool :=
  ending.isSuffixOf text

/-- A byte repeated. -/
def replicate (n : Nat) (b : UInt8) : Bytes := List.replicate n b

/-- Is the byte an ASCII decimal digit? -/
def isDigit (b : UInt8) : Bool := 48 ≤ b && b ≤ 57

/-- Is the byte an octal digit? -/
def isOctalDigit (b : UInt8) : Bool := 48 ≤ b && b ≤ 55

/-- The value of a hexadecimal digit of either case. -/
def hexValue? (b : UInt8) : Option Nat :=
  if 48 ≤ b && b ≤ 57 then some (b.toNat - 48)
  else if 97 ≤ b && b ≤ 102 then some (b.toNat - 87)
  else if 65 ≤ b && b ≤ 70 then some (b.toNat - 55)
  else none

/-- Is the byte a hexadecimal digit? -/
def isHexDigit (b : UInt8) : Bool := (hexValue? b).isSome

/-- The number that digits write in a base; bytes that are no digits count as zero. -/
def valueInBase (base : Nat) (digits : Bytes) : Nat :=
  digits.foldl (fun n b => n * base + (hexValue? b).getD 0) 0

/-- The number that exactly these hexadecimal digits write. -/
def hex? (digits : Bytes) : Option Nat :=
  if digits ≠ [] && digits.all isHexDigit then some (valueInBase 16 digits) else none

/-- The lower-case hexadecimal digits of a number, with zeros in front up to a width. -/
def hexDigits (width n : Nat) : Bytes :=
  let digits := (Nat.toDigits 16 n).map byte
  List.replicate (width - digits.length) (byte '0') ++ digits

end Bytes

/-- Text that is a string with some bytes put in between is written with plain concatenation. -/
abbrev Bytes.cat (pieces : List Bytes) : Bytes := pieces.flatten

end ScriptOptimizer
