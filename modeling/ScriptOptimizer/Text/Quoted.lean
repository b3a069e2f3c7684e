import ScriptOptimizer.Text.Utf8
import ScriptOptimizer.Text.Category

/-!
Quoted text in messages: the quote and the backslash are escaped, the common controls have a letter,
and what is not printable is written by its number.
-/

namespace ScriptOptimizer.Quoted

/-- The letter of a control that has one. -/
def controlLetter? : Nat → Option Char
  | 7 => some 'a'
  | 8 => some 'b'
  | 9 => some 't'
  | 10 => some 'n'
  | 11 => some 'v'
  | 12 => some 'f'
  | 13 => some 'r'
  | _ => none

/-- A code point inside quotes. -/
def escape (quote : Char) (rune : Nat) : Bytes :=
  if rune = quote.toNat || rune = 92 then Bytes.byte '\\' :: [rune.toUInt8]
  else if Category.isPrintable rune then Utf8.encode rune
  else match controlLetter? rune with
    | some letter => [Bytes.byte '\\', Bytes.byte letter]
    | none =>
      if rune < 32 || rune = 0x7F then Bytes.ofString "\\x" ++ Bytes.hexDigits 2 rune
      else if !Utf8.isScalar rune then "\\ufffd"
      else if rune < 0x10000 then Bytes.ofString "\\u" ++ Bytes.hexDigits 4 rune
      else Bytes.ofString "\\U" ++ Bytes.hexDigits 8 rune

/-- A text in double quotes; a malformed byte is written by its number. -/
def text (t : Bytes) : Bytes :=
  let body := (Utf8.runes t).flatMap fun (rune, bytes) =>
    match rune, bytes with
    | 0xFFFD, [b] => Bytes.ofString "\\x" ++ Bytes.hexDigits 2 b.toNat
    | _, _ => escape '"' rune
  [Bytes.byte '"'] ++ body ++ [Bytes.byte '"']

/-- A code point in single quotes. -/
def rune (n : Nat) : Bytes :=
  [Bytes.byte '\''] ++ escape '\'' n ++ [Bytes.byte '\'']

end ScriptOptimizer.Quoted
