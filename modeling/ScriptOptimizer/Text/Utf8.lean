import ScriptOptimizer.Text.Bytes

/-!
UTF-8. Decoding reads one code point from the front of a text and reports a malformed start as the
replacement character of width one, so that every text can be read to its end.
-/

namespace ScriptOptimizer.Utf8

/-- U+FFFD, which stands for what cannot be decoded. -/
def replacement : Nat := 0xFFFD

/-- Is the byte one that continues a sequence? -/
def isContinuation (b : UInt8) : Bool := 0x80 ≤ b && b ≤ 0xBF

/-- Six more bits of a code point. -/
def extend (n : Nat) (b : UInt8) : Nat := n * 64 + (b.toNat - 0x80)

/-- The code point of a well-formed sequence at the front of a text, and its width. Overlong forms,
surrogates and values above U+10FFFF are not well formed. -/
def decode? : Bytes → Option (Nat × Nat)
  | [] => none
  | a :: rest =>
    if a < 0x80 then some (a.toNat, 1)
    else if 0xC2 ≤ a && a ≤ 0xDF then
      match rest with
      | b :: _ => if isContinuation b then some (extend (a.toNat - 0xC0) b, 2) else none
      | [] => none
    else if 0xE0 ≤ a && a ≤ 0xEF then
      match rest with
      | b :: c :: _ =>
        let low : UInt8 := if a = 0xE0 then 0xA0 else 0x80
        let high : UInt8 := if a = 0xED then 0x9F else 0xBF
        if low ≤ b && b ≤ high && isContinuation c then
          some (extend (extend (a.toNat - 0xE0) b) c, 3)
        else none
      | _ => none
    else if 0xF0 ≤ a && a ≤ 0xF4 then
      match rest with
      | b :: c :: d :: _ =>
        let low : UInt8 := if a = 0xF0 then 0x90 else 0x80
        let high : UInt8 := if a = 0xF4 then 0x8F else 0xBF
        if low ≤ b && b ≤ high && isContinuation c && isContinuation d then
          some (extend (extend (extend (a.toNat - 0xF0) b) c) d, 4)
        else none
      | _ => none
    else none

/-- The code point at the front of a text and its width; a malformed start reads as one replacement
character. -/
def decode (text : Bytes) : Nat × Nat :=
  (decode? text).getD (replacement, 1)

/-- Can the number be encoded as a code point? Surrogates cannot. -/
def isScalar (n : Nat) : Bool := n < 0xD800 || (0xE000 ≤ n && n ≤ 0x10FFFF)

/-- The bytes of a code point; what is no code point is written as the replacement character. -/
def encode (n : Nat) : Bytes :=
  let tail (unit : Nat) : UInt8 := (0x80 + n / unit % 64).toUInt8
  if n < 0x80 then [n.toUInt8]
  else if n < 0x800 then [(0xC0 + n / 64).toUInt8, tail 1]
  else if !isScalar n then [0xEF, 0xBF, 0xBD]
  else if n < 0x10000 then [(0xE0 + n / 4096).toUInt8, tail 64, tail 1]
  else [(0xF0 + n / 262144).toUInt8, tail 4096, tail 64, tail 1]

/-- The code points of a text with the bytes each was read from. `skip` bytes of the front belong to
a code point that was already read. -/
def runesFrom (skip : Nat) : Bytes → List (Nat × Bytes)
  | [] => []
  | b :: rest =>
    match skip with
    | k + 1 => runesFrom k rest
    | 0 =>
      let (rune, width) := decode (b :: rest)
      (rune, (b :: rest).take width) :: runesFrom (width - 1) rest

/-- The code points of a text, with the bytes each was read from. -/
def runes (text : Bytes) : List (Nat × Bytes) := runesFrom 0 text

/-- Is the whole text well formed? -/
def isValid (text : Bytes) : Bool :=
  (runes text).all fun (rune, bytes) => rune ≠ replacement || bytes.length = 3

/-- How many bytes at the front of a text begin a sequence without being able to complete it: the
start byte and the bytes that could still continue it, at least one. -/
def illFormedWidth : Bytes → Nat
  | a :: b :: rest =>
    let low : UInt8 := if a = 0xE0 then 0xA0 else if a = 0xF0 then 0x90 else 0x80
    let high : UInt8 := if a = 0xED then 0x9F else if a = 0xF4 then 0x8F else 0xBF
    if 0xE0 ≤ a && a ≤ 0xF4 && low ≤ b && b ≤ high then
      match rest with
      | c :: _ => if a ≥ 0xF0 && isContinuation c then 3 else 2
      | [] => 2
    else 1
  | _ => 1

/-- The text with every ill-formed sequence replaced by one U+FFFD. `skip` bytes of the front belong
to a sequence that was already read. -/
def toValidFrom (skip : Nat) : Bytes → Bytes
  | [] => []
  | b :: rest =>
    match skip with
    | k + 1 => toValidFrom k rest
    | 0 =>
      match decode? (b :: rest) with
      | some (_, width) => (b :: rest).take width ++ toValidFrom (width - 1) rest
      | none => encode replacement ++ toValidFrom (illFormedWidth (b :: rest) - 1) rest

/-- The text with every ill-formed sequence replaced by one U+FFFD. -/
def toValid (text : Bytes) : Bytes := toValidFrom 0 text

end ScriptOptimizer.Utf8
