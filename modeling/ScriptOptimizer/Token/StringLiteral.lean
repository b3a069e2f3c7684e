import ScriptOptimizer.Text.Utf16
import ScriptOptimizer.Token.Gap

/-!
String literals and their escapes. A literal denotes the bytes between its quotes with every escape
replaced by the UTF-8 form of what it stands for.
-/

namespace ScriptOptimizer.StringLiteral

/-- The control character of a one-letter escape. -/
def controlEscape? : UInt8 → Option UInt8
  | 110 => some 10
  | 116 => some 9
  | 114 => some 13
  | 98 => some 8
  | 102 => some 12
  | 118 => some 11
  | _ => none

/-- How many octal digits at the front of a text one escape takes: at most three, and two when the
first is above three. -/
def octalWidth (text : Bytes) : Nat :=
  let digits := text.takeWhile Bytes.isOctalDigit
  match text with
  | d :: _ => min digits.length (if d > 51 then 2 else 3)
  | [] => 0

/-- What the body of a literal does at its front: it closes, it breaks off with a fault that shows
after so many bytes, or so many bytes of it denote a piece of the value. -/
inductive Turn where
  | close
  | fault (fault : LexicalFault) (read : Nat)
  | take (count : Nat) (piece : Bytes)
deriving DecidableEq, Repr

/-- The escape whose text follows a backslash, which is counted with it. -/
def escape : Bytes → Turn
  | [] => .fault .unterminatedString 1
  | c :: more =>
    if startsWithLineSeparator (c :: more) then .take 4 []
    else if c = 10 then .take 2 []
    else if c = 13 then .take (if more.head? = some 10 then 3 else 2) []
    else if c = 120 then
      match Bytes.hex? (more.take 2) with
      | some rune =>
        if more.length < 2 then .fault .invalidHexEscape 2 else .take 4 (Utf8.encode rune)
      | none => .fault .invalidHexEscape 2
    else if c = 117 then
      match Bytes.hex? (more.take 4) with
      | some unit =>
        if more.length < 4 then .fault .invalidUnicodeEscape 2
        else match (lowHalf? (more.drop 4)).bind (Utf16.pair? unit) with
          | some rune => .take 12 (Utf8.encode rune)
          | none => .take 6 (Utf8.encode unit)
      | none => .fault .invalidUnicodeEscape 2
    else if Bytes.isOctalDigit c then
      let n := octalWidth (c :: more)
      .take (1 + n) (Utf8.encode (Bytes.valueInBase 8 ((c :: more).take n)))
    else
      match controlEscape? c with
      | some control => .take 2 [control]
      | none =>
        let (rune, size) := Utf8.decode (c :: more)
        .take (1 + size) (Utf8.encode rune)
where
  /-- The unit of an escape that may be the second half of a pair. -/
  lowHalf? (after : Bytes) : Option Nat :=
    if after.take 2 = [92, 117] && after.length ≥ 6 then Bytes.hex? ((after.drop 2).take 4)
    else none

/-- The turn at the front of a body. -/
def turn (quote : UInt8) : Bytes → Turn
  | [] => .fault .unterminatedString 0
  | b :: rest =>
    if b = quote then .close
    else if startsWithLineBreak (b :: rest) then .fault .unterminatedString 0
    else if b = 92 then escape rest
    else .take 1 [b]

/-- The body of a literal after its opening quote. `width` bytes of the literal were read and denote
`value` (reversed); `skip` further bytes belong to an escape that was already read. -/
def scanFrom (quote : UInt8) (width skip : Nat) (value : Bytes) : Bytes → Scan Bytes
  | [] => Scan.fail .unterminatedString width
  | b :: rest =>
    match skip with
    | k + 1 => scanFrom quote (width + 1) k value rest
    | 0 =>
      match turn quote (b :: rest) with
      | .close => .ok (width + 1, value.reverse)
      | .fault fault read => Scan.fail fault (width + read)
      | .take count piece => scanFrom quote (width + 1) (count - 1) (piece.reverse ++ value) rest

/-- The literal at the front of a text that begins with its quote. -/
def scan : Bytes → Scan Bytes
  | [] => Scan.fail .unterminatedString 0
  | quote :: rest => scanFrom quote 1 0 [] rest

end ScriptOptimizer.StringLiteral
