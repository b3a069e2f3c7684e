import ScriptOptimizer.Text.Category.Letter
import ScriptOptimizer.Text.Category.Mark
import ScriptOptimizer.Text.Category.Printable
import ScriptOptimizer.Text.Utf8

/-!
Classes of code points, as Unicode 17.0 assigns them: U+1C89 and U+A7CB, which are letters since
16.0, and U+088F, which is one since 17.0, may stand in names. ASCII is decided by comparison;
beyond it each class is a table of ranges.
-/

namespace ScriptOptimizer.Category

/-- Does one of the ranges hold the code point? -/
def inRanges (ranges : List (Nat × Nat)) (n : Nat) : Bool :=
  ranges.any fun (first, last) => first ≤ n && n ≤ last

/-- Is it an ASCII letter? -/
def isAsciiLetter (n : Nat) : Bool := (65 ≤ n && n ≤ 90) || (97 ≤ n && n ≤ 122)

/-- Is it a letter? -/
def isLetter (n : Nat) : Bool := isAsciiLetter n || inRanges letters n

/-- The decimal digits beyond ASCII. -/
def decimalDigits : List (Nat × Nat) := [
  (0x660, 0x669), (0x6F0, 0x6F9), (0x7C0, 0x7C9), (0x966, 0x96F), (0x9E6, 0x9EF), (0xA66, 0xA6F),
  (0xAE6, 0xAEF), (0xB66, 0xB6F), (0xBE6, 0xBEF), (0xC66, 0xC6F), (0xCE6, 0xCEF), (0xD66, 0xD6F),
  (0xDE6, 0xDEF), (0xE50, 0xE59), (0xED0, 0xED9), (0xF20, 0xF29), (0x1040, 0x1049),
  (0x1090, 0x1099), (0x17E0, 0x17E9), (0x1810, 0x1819), (0x1946, 0x194F), (0x19D0, 0x19D9),
  (0x1A80, 0x1A89), (0x1A90, 0x1A99), (0x1B50, 0x1B59), (0x1BB0, 0x1BB9), (0x1C40, 0x1C49),
  (0x1C50, 0x1C59), (0xA620, 0xA629), (0xA8D0, 0xA8D9), (0xA900, 0xA909), (0xA9D0, 0xA9D9),
  (0xA9F0, 0xA9F9), (0xAA50, 0xAA59), (0xABF0, 0xABF9), (0xFF10, 0xFF19), (0x104A0, 0x104A9),
  (0x10D30, 0x10D39), (0x10D40, 0x10D49), (0x11066, 0x1106F), (0x110F0, 0x110F9),
  (0x11136, 0x1113F), (0x111D0, 0x111D9), (0x112F0, 0x112F9), (0x11450, 0x11459),
  (0x114D0, 0x114D9), (0x11650, 0x11659), (0x116C0, 0x116C9), (0x116D0, 0x116E3),
  (0x11730, 0x11739), (0x118E0, 0x118E9), (0x11950, 0x11959), (0x11BF0, 0x11BF9),
  (0x11C50, 0x11C59), (0x11D50, 0x11D59), (0x11DA0, 0x11DA9), (0x11DE0, 0x11DE9),
  (0x11F50, 0x11F59), (0x16130, 0x16139), (0x16A60, 0x16A69), (0x16AC0, 0x16AC9),
  (0x16B50, 0x16B59), (0x16D70, 0x16D79), (0x1CCF0, 0x1CCF9), (0x1D7CE, 0x1D7FF),
  (0x1E140, 0x1E149), (0x1E2F0, 0x1E2F9), (0x1E4F0, 0x1E4F9), (0x1E5F1, 0x1E5FA),
  (0x1E950, 0x1E959), (0x1FBF0, 0x1FBF9)]

/-- Is it a decimal digit? -/
def isDecimalDigit (n : Nat) : Bool := (48 ≤ n && n ≤ 57) || inRanges decimalDigits n

/-- Is it a non-spacing or spacing combining mark? -/
def isMark (n : Nat) : Bool := inRanges nonSpacingMarks n || inRanges spacingMarks n

/-- The spaces beyond ASCII. -/
def spaces : List (Nat × Nat) :=
  [(0xA0, 0xA0), (0x1680, 0x1680), (0x2000, 0x200A), (0x202F, 0x202F), (0x205F, 0x205F),
   (0x3000, 0x3000)]

/-- Is it in the category of space separators? -/
def isSpaceSeparator (n : Nat) : Bool := n = 32 || inRanges spaces n

/-- Is it white space, line breaks included? -/
def isWhiteSpace (n : Nat) : Bool :=
  (9 ≤ n && n ≤ 13) || n = 0x85 || n = 0x2028 || n = 0x2029 || isSpaceSeparator n

/-- The text without white space at its ends. -/
def trim (text : Bytes) : Bytes :=
  let isBlank := fun (r : Nat × Bytes) => isWhiteSpace r.1
  let runes := (Utf8.runes text).dropWhile isBlank
  (runes.reverse.dropWhile isBlank).reverse.flatMap (·.2)

/-- Is it shown as itself in a quoted text? The ASCII space is the only blank that is. -/
def isPrintable (n : Nat) : Bool := (32 ≤ n && n ≤ 126) || inRanges printables n

/-- Letter-like numbers and symbols that may start a name although they are no letters. -/
def otherNameStarts : List (Nat × Nat) :=
  [(0x16EE, 0x16F0), (0x1885, 0x1886), (0x2118, 0x2118), (0x212E, 0x212E), (0x2160, 0x2182),
   (0x2185, 0x2188), (0x3007, 0x3007), (0x3021, 0x3029), (0x3038, 0x303A), (0x309B, 0x309C),
   (0xA6E6, 0xA6EF), (0x10140, 0x10174), (0x10341, 0x10341), (0x1034A, 0x1034A),
   (0x103D1, 0x103D5), (0x12400, 0x1246E), (0x16FF4, 0x16FF6)]

/-- The connectors beyond ASCII. -/
def connectors : List (Nat × Nat) :=
  [(0x203F, 0x2040), (0x2054, 0x2054), (0xFE33, 0xFE34), (0xFE4D, 0xFE4F), (0xFF3F, 0xFF3F)]

/-- Joiners and symbols that may continue a name although they are no letter, digit, mark or
connector. -/
def otherNameParts : List (Nat × Nat) :=
  [(0xB7, 0xB7), (0x387, 0x387), (0x1369, 0x1371), (0x19DA, 0x19DA), (0x200C, 0x200D),
   (0x30FB, 0x30FB), (0xFF65, 0xFF65)]

/-- May it start a name? U+2E2F is a letter kept for syntax. -/
def isNameStart (n : Nat) : Bool :=
  n ≠ 0x2E2F && (isLetter n || inRanges otherNameStarts n)

/-- May it stand in a name after the start? -/
def isNamePart (n : Nat) : Bool :=
  isNameStart n || isDecimalDigit n || isMark n || inRanges connectors n ||
    inRanges otherNameParts n

end ScriptOptimizer.Category
