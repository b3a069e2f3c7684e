import ScriptOptimizer.Text.Bytes

/-!
Base64: each digit stands for six bits, and four digits for three bytes. The last four may be filled
up with marks, and line breaks between digits do not count.
-/

namespace ScriptOptimizer.Base64

/-- The value of a digit. -/
def digit? (b : UInt8) : Option Nat :=
  if 65 ≤ b && b ≤ 90 then some (b.toNat - 65)
  else if 97 ≤ b && b ≤ 122 then some (b.toNat - 71)
  else if 48 ≤ b && b ≤ 57 then some (b.toNat + 4)
  else if b = 43 then some 62
  else if b = 47 then some 63
  else none

/-- The bytes of two, three or four digits. Bits that do not fill a byte are dropped. -/
def groupBytes (digits : List Nat) : Bytes :=
  let bits := (digits ++ List.replicate (4 - digits.length) 0).foldl (fun n d => n * 64 + d) 0
  ([bits / 65536 % 256, bits / 256 % 256, bits % 256].map Nat.toUInt8).take (digits.length - 1)

/-- What follows the first of the marks that fill up `digits`: the bytes of the digits, or where the
text is wrong. `size` is the length of the whole text. -/
def fillUp (size : Nat) (digits : List Nat) (offset : Nat) : List (Nat × UInt8) → Except Nat Bytes
  | [] =>
    if digits.length = 3 then .ok (groupBytes digits)
    else .error (if digits.length = 2 then size else offset)
  | (next, b) :: rest =>
    if digits.length = 3 then .error next
    else if digits.length ≠ 2 then .error offset
    else if b ≠ 61 then .error (next - 1)
    else match rest with
      | [] => .ok (groupBytes digits)
      | (extra, _) :: _ => .error extra

/-- The bytes of a text whose bytes are numbered, after the `digits` of a group that were read. -/
def decodeFrom (size : Nat) (digits : List Nat) : List (Nat × UInt8) → Except Nat Bytes
  | [] => if digits.isEmpty then .ok [] else .error (size - digits.length)
  | (offset, b) :: rest =>
    match digit? b with
    | some d =>
      if digits.length = 3 then do
        return groupBytes (digits ++ [d]) ++ (← decodeFrom size [] rest)
      else decodeFrom size (digits ++ [d]) rest
    | none => if b = 61 then fillUp size digits offset rest else .error offset

/-- The bytes that a text stands for, or where it is wrong. -/
def decode (text : Bytes) : Except Nat Bytes :=
  let numbered := text.zipIdx.map fun (b, offset) => (offset, b)
  decodeFrom text.length [] (numbered.filter fun (_, b) => b ≠ 10 && b ≠ 13)

end ScriptOptimizer.Base64
