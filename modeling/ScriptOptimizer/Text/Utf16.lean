import ScriptOptimizer.Text.Utf8

/-!
UTF-16. A code point above U+FFFF is written as a high and a low surrogate; an unpaired surrogate
decodes to the replacement character.
-/

namespace ScriptOptimizer.Utf16

/-- Is the unit the first half of a pair? -/
def isHigh (u : Nat) : Bool := 0xD800 ≤ u && u < 0xDC00

/-- Is the unit the second half of a pair? -/
def isLow (u : Nat) : Bool := 0xDC00 ≤ u && u < 0xE000

/-- Is the unit one half of a pair? -/
def isSurrogate (u : Nat) : Bool := 0xD800 ≤ u && u < 0xE000

/-- The code point of a high and a low surrogate. -/
def pair? (high low : Nat) : Option Nat :=
  if isHigh high && isLow low then some (0x10000 + (high - 0xD800) * 0x400 + (low - 0xDC00))
  else none

/-- The UTF-8 form of a sequence of units. A surrogate before a low one is read together with it,
also when the two are no pair. -/
def toUtf8 : List Nat → Bytes
  | [] => []
  | [u] => Utf8.encode u
  | u :: v :: rest =>
    if isSurrogate u && isLow v then
      Utf8.encode ((pair? u v).getD Utf8.replacement) ++ toUtf8 rest
    else Utf8.encode u ++ toUtf8 (v :: rest)

/-- The units of a text of two-byte groups, the more significant byte first unless `little`. A
single byte at the end reads as a replacement character. -/
def unitsOf (little : Bool) : Bytes → List Nat
  | [] => []
  | [_] => [Utf8.replacement]
  | a :: b :: rest =>
    (if little then b.toNat * 256 + a.toNat else a.toNat * 256 + b.toNat) :: unitsOf little rest

/-- How many units the code points of a text take. -/
def length (text : Bytes) : Nat :=
  (Utf8.runes text).foldl (fun units (rune, _) => units + if rune < 0x10000 then 1 else 2) 0

end ScriptOptimizer.Utf16
