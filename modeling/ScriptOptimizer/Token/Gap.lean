import ScriptOptimizer.Text.Category
import ScriptOptimizer.Token.Fault

/-!
What stands between tokens: white space, line breaks and comments.
-/

namespace ScriptOptimizer

/-- Does U+2028 or U+2029 stand at the front of a text? -/
def startsWithLineSeparator : Bytes → Bool
  | 0xE2 :: 0x80 :: c :: _ => c = 0xA8 || c = 0xA9
  | _ => false

/-- Does a line break stand at the front of a text: a line feed, a carriage return or a
separator? -/
def startsWithLineBreak : Bytes → Bool
  | [] => false
  | b :: rest => b = 10 || b = 13 || startsWithLineSeparator (b :: rest)

/-- A run of white space: its width, and whether a line break is in it. -/
structure Gap where
  width : Nat
  lineBreak : Bool
deriving DecidableEq, Repr

namespace Gap

/-- How many bytes of white space stand at the front of a text, other than a line break: one of the
four ASCII blanks, a byte order mark or a space separator. -/
def blankWidth : Bytes → Nat
  | [] => 0
  | b :: rest =>
    if b = 32 || b = 9 || b = 11 || b = 12 then 1
    else if b < 0x80 then 0
    else
      let (rune, width) := Utf8.decode (b :: rest)
      if rune = 0xFEFF || Category.isSpaceSeparator rune then width else 0

/-- The white space at the front of a text, `skip` bytes of which were already taken. -/
def scanFrom (skip : Nat) : Bytes → Gap
  | [] => ⟨0, false⟩
  | b :: rest =>
    match skip with
    | k + 1 => let gap := scanFrom k rest; ⟨gap.width + 1, gap.lineBreak⟩
    | 0 =>
      if b = 10 || b = 13 then let gap := scanFrom 0 rest; ⟨gap.width + 1, true⟩
      else if startsWithLineSeparator (b :: rest) then
        let gap := scanFrom 2 rest; ⟨gap.width + 1, true⟩
      else
        match blankWidth (b :: rest) with
        | 0 => ⟨0, false⟩
        | width + 1 => let gap := scanFrom width rest; ⟨gap.width + 1, gap.lineBreak⟩

/-- The white space at the front of a text. -/
def scan (text : Bytes) : Gap := scanFrom 0 text

end Gap

namespace Comment

/-- The width of a comment that a line break or the end of input closes. -/
def lineWidth : Bytes → Nat
  | [] => 0
  | b :: rest => if startsWithLineBreak (b :: rest) then 0 else lineWidth rest + 1

/-- The rest of a bracketed comment after `width` bytes of it: its whole width, and whether a line
break is in it. -/
def scanBlock (width : Nat) (lineBreak : Bool) : Bytes → Scan Bool
  | [] => Scan.fail .unterminatedComment width
  | 42 :: 47 :: _ => .ok (width + 2, lineBreak)
  | b :: rest => scanBlock (width + 1) (lineBreak || startsWithLineBreak (b :: rest)) rest

end Comment

end ScriptOptimizer
