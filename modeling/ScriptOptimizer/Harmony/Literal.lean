import ScriptOptimizer.Decimal.Binary64
import ScriptOptimizer.Text.Quoted
import ScriptOptimizer.Text.Utf16
import ScriptOptimizer.Token.Numeral

/-!
What the literals of the newer language denote: strings with escapes of up to six hexadecimal
digits, and numerals in four bases whose digits may be grouped by underscores.
-/

namespace ScriptOptimizer.Harmony

/-- The UTF-16 units of a code point. -/
def units (rune : Nat) : List Nat :=
  if rune < 0x10000 then [rune]
  else [0xD800 + (rune - 0x10000) / 0x400, 0xDC00 + (rune - 0x10000) % 0x400]

/-- The UTF-8 form of a sequence of units; a surrogate that is not part of a pair becomes the
replacement character. -/
def ofUnits : List Nat → Bytes
  | [] => []
  | [u] => Utf8.encode u
  | u :: v :: rest =>
    match Utf16.pair? u v with
    | some rune => Utf8.encode rune ++ ofUnits rest
    | none => Utf8.encode u ++ ofUnits (v :: rest)

/-- Quoted bytes after words. -/
def quoteAfter (words : String) (text : Bytes) : Bytes := Bytes.ofString words ++ Quoted.text text

/-- The code point of an escape in braces, after its opening brace, and its width with the closing
brace. `value` is that of the `width` digits read so far, which `digits` holds reversed. -/
def bracedEscape (digits : Bytes) (width value : Nat) : Bytes → Except Bytes (Nat × Nat)
  | [] => .error (quoteAfter "unterminated \\u\x7b: " digits.reverse)
  | b :: rest =>
    if b = 125 then
      if width = 0 then .error "invalid escape: \\u" else .ok (value, width + 1)
    else
      let seen := b :: digits
      match Bytes.hexValue? b with
      | none => .error (quoteAfter "invalid escape: \\u: " seen.reverse)
      | some digit =>
        let value := value * 16 + digit
        if value > 0x10FFFF then
          .error (quoteAfter "undefined Unicode code-point: " seen.reverse)
        else bracedEscape seen (width + 1) value rest

/-- The value of an escape of a fixed number of hexadecimal digits. -/
def fixedEscape (letter : String) (size : Nat) (text : Bytes) : Except Bytes Nat :=
  let digits := text.take size
  if digits.length < size then
    .error (Bytes.cat ["invalid escape: \\", letter, ": len(", Quoted.text text, ") != ",
      Bytes.ofNat size])
  else match Bytes.hex? digits with
    | some value => .ok value
    | none => .error (Bytes.cat ["invalid escape: \\", letter, ": ", Quoted.text digits])

/-- The control character of a one-letter escape. -/
def escapedControl? : UInt8 → Option Nat
  | 98 => some 8
  | 102 => some 12
  | 110 => some 10
  | 114 => some 13
  | 116 => some 9
  | 118 => some 11
  | _ => none

/-- The units that the text after a backslash begins with stand for, and how many bytes they are
written in. Where `strict`, an octal number is no escape. -/
def escape (strict : Bool) : Bytes → Except Bytes (List Nat × Nat)
  | [] => .ok ([], 0)
  | c :: rest => do
    if c ≥ 0x80 then
      let (rune, size) := Utf8.decode (c :: rest)
      return (if rune = 0x2028 || rune = 0x2029 then [] else units rune, size)
    else if c = 10 then return ([], 1)
    else if c = 13 then return ([], if rest.head? = some 10 then 2 else 1)
    else if c = 120 then return (units (← fixedEscape "x" 2 rest), 3)
    else if c = 117 then
      match rest with
      | 123 :: digits =>
        let (rune, width) ← bracedEscape [] 0 0 digits
        return (units rune, width + 2)
      | _ => return (units (← fixedEscape "u" 4 rest), 5)
    else if Bytes.isOctalDigit c then
      let digits := (c :: rest).take 3 |>.takeWhile Bytes.isOctalDigit
      if c = 48 && digits.length = 1 then return ([0], 1)
      else if strict then .error "Octal escape sequences are not allowed in this context"
      else return (units (Bytes.valueInBase 8 digits), digits.length)
    else
      match escapedControl? c with
      | some control => return ([control], 1)
      | none => return ([c.toNat], 1)

/-- The units of a text with escapes. `skip` bytes of the front belong to an escape or character
that was already read. -/
def unitsFrom (strict : Bool) (skip : Nat) : Bytes → Except Bytes (List Nat)
  | [] => .ok []
  | b :: rest =>
    match skip with
    | k + 1 => unitsFrom strict k rest
    | 0 =>
      if b = 92 then do
        let (first, width) ← escape strict rest
        return first ++ (← unitsFrom strict width rest)
      else do
        let (rune, size) := Utf8.decode (b :: rest)
        return units rune ++ (← unitsFrom strict (size - 1) rest)

/-- The text that a text with escapes denotes, or what is wrong with it. -/
def unescape (strict : Bool) (text : Bytes) : Except Bytes Bytes := do
  return ofUnits (← unitsFrom strict 0 text)

/-- What a numeral denotes: a number, or an integer without bounds. -/
inductive Number where
  | double (value : Binary64)
  | big
deriving DecidableEq, Repr

/-- The base that a prefix of a numeral selects. -/
def prefixBase? : Bytes → Option Nat
  | 48 :: c :: _ =>
    if c = 120 || c = 88 then some 16
    else if c = 111 || c = 79 then some 8
    else if c = 98 || c = 66 then some 2
    else none
  | _ => none

/-- Does every underscore stand between two digits? -/
def underscoresSeparate (afterDigit : Bool) : Bytes → Bool
  | [] => true
  | b :: rest =>
    if b = 95 then
      afterDigit && (rest.head?.any Bytes.isHexDigit) && underscoresSeparate false rest
    else underscoresSeparate (Bytes.isHexDigit b) rest

/-- The number that many hexadecimal digits write when it is rounded after each digit. -/
def roundedHex (digits : Bytes) : Binary64 :=
  digits.foldl (fun x b =>
    if x.isFinite then
      let (m, q) := x.mantissaExponent
      let (num, den) := Binary64.scale m q
      Binary64.ofFraction (num * 16 + (Bytes.hexValue? b).getD 0 * den) den
    else x) Binary64.zero

/-- Whole numbers below this are read exactly before they become doubles. -/
def wholeLimit : Nat := 0x8000000000000000

/-- What a numeral denotes, if it is well formed. The letter that marks an integer without bounds is
a small one. -/
def number? (raw : Bytes) : Option Number :=
  let digits := raw.filter (· ≠ 95)
  let separated := underscoresSeparate false raw
  if raw.getLast? = some 78 then none
  else if raw.length > 1 && raw.getLast? = some 110 then
    let body := List.dropLast raw
    let whole := match prefixBase? body with
      | some _ => true
      | none => body.all fun b => Bytes.isDigit b || b = 95
    let leadingZero := raw.length > 2 && raw.head? = some 48 && (raw.drop 1).head?.any Bytes.isDigit
    if whole && !leadingZero && separated then some .big else none
  else match prefixBase? raw with
    | some base =>
      let value := Bytes.valueInBase base (digits.drop 2)
      if !separated then none
      else if value < wholeLimit then some (.double (Binary64.ofNat value))
      else if base = 16 && digits.length = raw.length then
        some (.double (roundedHex (digits.drop 2)))
      else none
    | none =>
      let value := Bytes.valueInBase 8 digits
      if !separated then none
      else if Numeral.isOctal digits && value < wholeLimit then
        some (.double (Binary64.ofNat value))
      else some (.double (Binary64.ofNumeral digits))

end ScriptOptimizer.Harmony
