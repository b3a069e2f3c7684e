import ScriptOptimizer.Text.Category
import ScriptOptimizer.Token.Fault

/-!
Words: identifier names, in which a character may be written as `\uHHHH`.
-/

namespace ScriptOptimizer.Word

/-- Is it an ASCII letter, `_` or `$`? -/
def isStartByte (b : UInt8) : Bool :=
  (97 ≤ b && b ≤ 122) || (65 ≤ b && b ≤ 90) || b = 95 || b = 36

/-- May the ASCII character stand in a word? -/
def isPartByte (b : UInt8) : Bool := isStartByte b || Bytes.isDigit b

/-- May the code point beyond ASCII stand in a word? -/
def isPartRune (rune : Nat) : Bool :=
  Category.isLetter rune || Category.isDecimalDigit rune || Category.isMark rune

/-- A word: its name and whether a part of it was escaped. -/
structure Name where
  text : Bytes
  escaped : Bool
deriving DecidableEq, Repr

/-- The word at the front of a text of which `width` bytes were read and denote `name` (reversed);
`skip` further bytes belong to a character that was already read. -/
def scanFrom (width skip : Nat) (name : Bytes) (escaped : Bool) : Bytes → Scan Name
  | [] => .ok (width, ⟨name.reverse, escaped⟩)
  | b :: rest =>
    match skip with
    | k + 1 => scanFrom (width + 1) k (b :: name) escaped rest
    | 0 =>
      if b = 92 then
        match rest with
        | 117 :: h₁ :: h₂ :: h₃ :: h₄ :: rest =>
          match Bytes.hex? [h₁, h₂, h₃, h₄] with
          | some rune => scanFrom (width + 6) 0 ((Utf8.encode rune).reverse ++ name) true rest
          | none => .error ⟨.invalidIdentifierUnicodeEscape, width, width + 2⟩
        | 117 :: _ => .error ⟨.invalidIdentifierUnicodeEscape, width, width + 2⟩
        | _ => .error ⟨.invalidIdentifierEscape, width, width⟩
      else if b < 0x80 then
        if isPartByte b then scanFrom (width + 1) 0 (b :: name) escaped rest
        else .ok (width, ⟨name.reverse, escaped⟩)
      else
        let (rune, size) := Utf8.decode (b :: rest)
        if isPartRune rune then scanFrom (width + 1) (size - 1) (b :: name) escaped rest
        else .ok (width, ⟨name.reverse, escaped⟩)

/-- The word at the front of a text. -/
def scan (text : Bytes) : Scan Name := scanFrom 0 0 [] false text

end ScriptOptimizer.Word
