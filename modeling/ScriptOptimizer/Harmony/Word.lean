import ScriptOptimizer.Text.Category
import ScriptOptimizer.Text.Utf8

/-!
Words of the newer language: names in which a character may be written by its number, in four
hexadecimal digits or in braces.
-/

namespace ScriptOptimizer.Harmony

/-- May the code point start a name? -/
def isNameStart (rune : Nat) : Bool :=
  rune = 36 || rune = 95 || Category.isAsciiLetter rune ||
    (rune ≥ 0x80 && Category.isNameStart rune)

/-- May the code point stand in a name after the start? -/
def isNamePart (rune : Nat) : Bool :=
  isNameStart rune || (48 ≤ rune && rune ≤ 57) || (rune ≥ 0x80 && Category.isNamePart rune)

/-- May a word start at the front of a text? -/
def startsWord (text : Bytes) : Bool :=
  match text with
  | [] => false
  | b :: _ => b = 92 || isNameStart (Utf8.decode text).1

/-- An escape in a word after its backslash: the code point it denotes with its width, where its
last character stands and whether all its digits are ASCII, or how many bytes can be read of a
malformed one. -/
inductive WordEscape where
  | denotes (rune width last : Nat) (plain : Bool)
  | broken (width : Nat)
deriving DecidableEq, Repr

namespace WordEscape

/-- The value of a digit. Only the low byte of a code point is looked at. -/
def digit? (rune : Nat) : Option Nat := Bytes.hexValue? rune.toUInt8

/-- So many more digits, after `width` bytes of the escape that stand for `value`. -/
def fixed (value width last : Nat) (plain : Bool) : Nat → Bytes → WordEscape
  | 0, _ => .denotes value width last plain
  | n + 1, text =>
    match text with
    | [] => .broken width
    | b :: _ =>
      let (rune, size) := Utf8.decode text
      match digit? rune with
      | none => .broken width
      | some d => fixed (value * 16 + d) (width + size) width (plain && b < 0x80) n (text.drop size)

/-- Digits up to a closing brace, after `width` bytes of the escape that stand for `value`; `skip`
more bytes were already read. -/
def braced (value : Option Nat) (width skip : Nat) (plain : Bool) : Bytes → WordEscape
  | [] => .broken width
  | b :: rest =>
    match skip with
    | k + 1 => braced value (width + 1) k plain rest
    | 0 =>
      if b = 125 then
        match value with
        | some rune => .denotes rune (width + 1) width plain
        | none => .broken width
      else
        let (rune, size) := Utf8.decode (b :: rest)
        match digit? rune with
        | none => .broken width
        | some d =>
          let value := value.getD 0 * 16 + d
          if value > 0x10FFFF then .broken width
          else braced (some value) (width + 1) (size - 1) (plain && b < 0x80) rest

/-- The escape at the front of a text after its backslash. -/
def scan : Bytes → WordEscape
  | 117 :: 123 :: digits => braced none 2 0 true digits
  | 117 :: digits => fixed 0 1 0 true 4 digits
  | _ => .broken 0

end WordEscape

/-- A word: how many bytes it takes, the name it denotes, and whether a part of it was escaped. The
name is missing when an escape is malformed. -/
structure Word where
  width : Nat
  name : Option Bytes
  escaped : Bool
deriving DecidableEq, Repr

namespace Word

/-- The word at the front of a text, after `width` bytes that denote `name` (reversed) as long as
its escapes are `sound`; `skip` more bytes were already read. -/
def scanFrom (width skip : Nat) (name : Bytes) (escaped sound : Bool) : Bytes → Word
  | [] => ⟨width, if sound then some name.reverse else none, escaped⟩
  | b :: rest =>
    match skip with
    | k + 1 => scanFrom (width + 1) k name escaped sound rest
    | 0 =>
      if b = 92 then
        match WordEscape.scan rest with
        | .denotes rune size last plain =>
          if rune ≠ 92 && (if width = 0 then isNameStart rune else isNamePart rune) then
            let name := (Utf8.encode rune).reverse ++ name
            scanFrom (width + 1) size name true (sound && plain) rest
          else ⟨width + 1 + last, none, true⟩
        | .broken size => ⟨width + 1 + size, none, true⟩
      else
        let (rune, size) := Utf8.decode (b :: rest)
        if isNamePart rune then
          scanFrom (width + 1) (size - 1) ((Utf8.encode rune).reverse ++ name) escaped sound rest
        else ⟨width, if sound then some name.reverse else none, escaped⟩

/-- The word at the front of a text. -/
def scan (text : Bytes) : Word := scanFrom 0 0 [] false true text

end Word

end ScriptOptimizer.Harmony
