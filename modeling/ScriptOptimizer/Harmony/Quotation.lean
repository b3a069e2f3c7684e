import ScriptOptimizer.Harmony.Between

/-!
How far strings, regular expressions and the stretches of templates reach, from their opening mark
on. What they denote is left to others.
-/

namespace ScriptOptimizer.Harmony

/-- The width of the character after a backslash; a line break of two bytes counts as one. -/
def escapedWidth (text : Bytes) : Nat :=
  if startsWithLineBreak text then lineBreakWidth text
  else if text.isEmpty then 0 else (Utf8.decode text).2

/-- Is it a line feed or a carriage return? The separators beyond ASCII may stand in a string. -/
def endsLine (b : UInt8) : Bool := b = 10 || b = 13

/-- A string after its opening quote: how many bytes of it are text, or that a line break or the end
of input comes before its closing quote. -/
def stringWidth (quote : UInt8) (width skip : Nat) : Bytes → Except Nat Nat
  | [] => .error width
  | b :: rest =>
    match skip with
    | k + 1 => stringWidth quote (width + 1) k rest
    | 0 =>
      if b = quote then .ok width
      else if endsLine b then .error (width + lineBreakWidth (b :: rest))
      else stringWidth quote (width + 1) (if b = 92 then escapedWidth rest else 0) rest

/-- How the body of a regular expression ends, and after how many bytes: at its closing slash, at a
line break or the end of input, at a line break in a class, or at the end of input in a class. -/
inductive RegexEnd where
  | closed (width : Nat)
  | unclosed (width : Nat)
  | cut (width : Nat)
  | exhausted (width : Nat)
deriving DecidableEq, Repr

/-- The end of a regular expression after its opening slash, `width` bytes of which were read.
Inside a class a slash does not close it, and the separators beyond ASCII do not cut it. -/
def regexEnd (inClass : Bool) (width skip : Nat) : Bytes → RegexEnd
  | [] => if inClass then .exhausted width else .unclosed width
  | b :: rest =>
    match skip with
    | k + 1 => regexEnd inClass (width + 1) k rest
    | 0 =>
      if inClass then
        if endsLine b then .cut (width + lineBreakWidth (b :: rest))
        else if b = 92 then regexEnd true (width + 1) (escapedWidth rest) rest
        else regexEnd (b ≠ 93) (width + 1) 0 rest
      else if b = 47 then .closed width
      else if startsWithLineBreak (b :: rest) then
        .unclosed (width + lineBreakWidth (b :: rest))
      else if b = 92 then
        if rest.isEmpty || startsWithLineBreak rest then
          .unclosed (width + 1 + lineBreakWidth rest)
        else regexEnd false (width + 1) (escapedWidth rest) rest
      else regexEnd (b = 91) (width + 1) 0 rest

/-- Is a word that follows the closing slash of a regular expression parted from it, so that it does
not flag it? The blank U+0085 does not part them. -/
def partsFlags (text : Bytes) : Bool :=
  startsWithLineBreak text || (blankWidth text > 0 && (Utf8.decode text).1 ≠ 0x85)

/-- A stretch of a template: how many bytes of text it has, whether the template ends after it, and
whether an escape in it is a digit that no escape may be. -/
structure Stretch where
  width : Nat
  final : Bool
  strayDigit : Bool
deriving DecidableEq, Repr

/-- The stretch of a template at the front of a text, after `width` bytes of it; missing when the
template is not closed. -/
def stretchFrom (width skip : Nat) (strayDigit : Bool) : Bytes → Option Stretch
  | [] => none
  | b :: rest =>
    match skip with
    | k + 1 => stretchFrom (width + 1) k strayDigit rest
    | 0 =>
      if b = 96 then some ⟨width, true, strayDigit⟩
      else if b = 36 && rest.head? = some 123 then some ⟨width, false, strayDigit⟩
      else if b = 92 then
        let digit := rest.head? = some 56 || rest.head? = some 57
        stretchFrom (width + 1) (escapedWidth rest) (strayDigit || digit) rest
      else stretchFrom (width + 1) 0 strayDigit rest

/-- A text with every line break that has a carriage return written as a line feed. -/
def withPlainBreaks : Bytes → Bytes
  | [] => []
  | 13 :: 10 :: rest => 10 :: withPlainBreaks rest
  | b :: rest => (if b = 13 then 10 else b) :: withPlainBreaks rest

end ScriptOptimizer.Harmony
