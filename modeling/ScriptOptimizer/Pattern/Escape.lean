import ScriptOptimizer.Pattern.Fault
import ScriptOptimizer.Text.Category

/-!
The small pieces of a pattern: decimal numbers, names, escaped characters, property references and
character classes. Each reader takes the code points after its opening and answers with the rest. A
reading that goes on after a fault needs to know the rest there too.
-/

namespace ScriptOptimizer.Pattern

/-- General categories and their groups. -/
def categoryNames : List String :=
  ["C", "Cc", "Cf", "Cn", "Co", "Cs", "L", "LC", "Ll", "Lm", "Lo", "Lt", "Lu", "M", "Mc",
   "Me", "Mn", "N", "Nd", "Nl", "No", "P", "Pc", "Pd", "Pe", "Pf", "Pi", "Po", "Ps", "S",
   "Sc", "Sk", "Sm", "So", "Z", "Zl", "Zp", "Zs"]

/-- Scripts. -/
def scriptNames : List String :=
  ["Adlam", "Ahom", "Anatolian_Hieroglyphs", "Arabic", "Armenian", "Avestan", "Balinese",
   "Bamum", "Bassa_Vah", "Batak", "Bengali", "Beria_Erfe", "Bhaiksuki", "Bopomofo", "Brahmi",
   "Braille", "Buginese", "Buhid", "Canadian_Aboriginal", "Carian", "Caucasian_Albanian",
   "Chakma", "Cham", "Cherokee", "Chorasmian", "Common", "Coptic", "Cuneiform", "Cypriot",
   "Cypro_Minoan", "Cyrillic", "Deseret", "Devanagari", "Dives_Akuru", "Dogra", "Duployan",
   "Egyptian_Hieroglyphs", "Elbasan", "Elymaic", "Ethiopic", "Garay", "Georgian", "Glagolitic",
   "Gothic", "Grantha", "Greek", "Gujarati", "Gunjala_Gondi", "Gurmukhi", "Gurung_Khema",
   "Han", "Hangul", "Hanifi_Rohingya", "Hanunoo", "Hatran", "Hebrew", "Hiragana",
   "Imperial_Aramaic", "Inherited", "Inscriptional_Pahlavi", "Inscriptional_Parthian",
   "Javanese", "Kaithi", "Kannada", "Katakana", "Kawi", "Kayah_Li", "Kharoshthi",
   "Khitan_Small_Script", "Khmer", "Khojki", "Khudawadi", "Kirat_Rai", "Lao", "Latin",
   "Lepcha", "Limbu", "Linear_A", "Linear_B", "Lisu", "Lycian", "Lydian", "Mahajani",
   "Makasar", "Malayalam", "Mandaic", "Manichaean", "Marchen", "Masaram_Gondi", "Medefaidrin",
   "Meetei_Mayek", "Mende_Kikakui", "Meroitic_Cursive", "Meroitic_Hieroglyphs", "Miao", "Modi",
   "Mongolian", "Mro", "Multani", "Myanmar", "Nabataean", "Nag_Mundari", "Nandinagari",
   "New_Tai_Lue", "Newa", "Nko", "Nushu", "Nyiakeng_Puachue_Hmong", "Ogham", "Ol_Chiki",
   "Ol_Onal", "Old_Hungarian", "Old_Italic", "Old_North_Arabian", "Old_Permic", "Old_Persian",
   "Old_Sogdian", "Old_South_Arabian", "Old_Turkic", "Old_Uyghur", "Oriya", "Osage", "Osmanya",
   "Pahawh_Hmong", "Palmyrene", "Pau_Cin_Hau", "Phags_Pa", "Phoenician", "Psalter_Pahlavi",
   "Rejang", "Runic", "Samaritan", "Saurashtra", "Sharada", "Shavian", "Siddham", "Sidetic",
   "SignWriting", "Sinhala", "Sogdian", "Sora_Sompeng", "Soyombo", "Sundanese", "Sunuwar",
   "Syloti_Nagri", "Syriac", "Tagalog", "Tagbanwa", "Tai_Le", "Tai_Tham", "Tai_Viet", "Tai_Yo",
   "Takri", "Tamil", "Tangsa", "Tangut", "Telugu", "Thaana", "Thai", "Tibetan", "Tifinagh",
   "Tirhuta", "Todhri", "Tolong_Siki", "Toto", "Tulu_Tigalari", "Ugaritic", "Vai", "Vithkuqi",
   "Wancho", "Warang_Citi", "Yezidi", "Yi", "Zanabazar_Square"]

/-- Binary properties. -/
def propertyNames : List String :=
  ["ASCII_Hex_Digit", "Bidi_Control", "Dash", "Deprecated", "Diacritic", "Extender",
   "Hex_Digit", "Hyphen", "IDS_Binary_Operator", "IDS_Trinary_Operator", "IDS_Unary_Operator",
   "ID_Compat_Math_Continue", "ID_Compat_Math_Start", "Ideographic", "Join_Control",
   "Logical_Order_Exception", "Modifier_Combining_Mark", "Noncharacter_Code_Point",
   "Other_Alphabetic", "Other_Default_Ignorable_Code_Point", "Other_Grapheme_Extend",
   "Other_ID_Continue", "Other_ID_Start", "Other_Lowercase", "Other_Math", "Other_Uppercase",
   "Pattern_Syntax", "Pattern_White_Space", "Prepended_Concatenation_Mark", "Quotation_Mark",
   "Radical", "Regional_Indicator", "STerm", "Sentence_Terminal", "Soft_Dotted",
   "Terminal_Punctuation", "Unified_Ideograph", "Variation_Selector", "White_Space"]

/-- Is there a category, script or property of this name? -/
def isPropertyName (name : Bytes) : Bool :=
  (categoryNames ++ scriptNames ++ propertyNames).any fun known => Bytes.ofString known = name

end ScriptOptimizer.Pattern

namespace ScriptOptimizer.Pattern

/-- The code points of a pattern that are still to be read. -/
abbrev Runes := List Nat

/-- Where a reader stopped at a fault. -/
structure Stop where
  fault : Fault
  rest : Runes
deriving DecidableEq, Repr

/-- Where a reader came to, whether or not at a fault. -/
def reached : Except Stop Runes → Runes
  | .ok rest => rest
  | .error stop => stop.rest

/-- What a reader found, where only its fault counts. -/
def faultOnly {α : Type} (result : Except Stop α) : Except Fault α := result.mapError Stop.fault

/-- The code point of a character. -/
abbrev rune (c : Char) : Nat := c.toNat

/-- May the code point stand in a name: a letter, non-spacing mark, decimal digit, connector or
joiner? -/
def isWordRune (n : Nat) : Bool :=
  Category.isLetter n || Category.isDecimalDigit n || n = 95 || n = 0x200C || n = 0x200D ||
    Category.inRanges Category.nonSpacingMarks n || Category.inRanges Category.connectors n

/-- Is it an ASCII decimal digit? -/
def isDigitRune (n : Nat) : Bool := 48 ≤ n && n ≤ 57

/-- The largest number in a pattern. -/
def maxNumber : Nat := 0x7FFFFFFF

/-- The decimal number at the front, after the value `n` of digits already read. -/
def decimal (n : Nat) : Runes → Except Fault (Nat × Runes)
  | [] => .ok (n, [])
  | d :: rest =>
    if isDigitRune d then
      if n * 10 + (d - 48) > maxNumber then .error .numberOutOfRange
      else decimal (n * 10 + (d - 48)) rest
    else .ok (n, d :: rest)

/-- The value of a hexadecimal digit. -/
def hexValue? (n : Nat) : Option Nat := if n < 128 then Bytes.hexValue? n.toUInt8 else none

/-- The number that exactly `count` hexadecimal digits at the front write. -/
def hexNumber? (count : Nat) (runes : Runes) : Option Nat :=
  let digits := (runes.take count).filterMap hexValue?
  if digits.length = count then some (digits.foldl (fun n d => n * 16 + d) 0) else none

/-- An octal number at the front: up to three digits, which end early when the value reaches 32. -/
def octal (value : Nat) : Nat → Runes → Nat × Runes
  | count + 1, d :: rest =>
    if 48 ≤ d && d ≤ 55 && value < 32 then octal (value * 8 + (d - 48)) count rest
    else (value % 256, d :: rest)
  | _, runes => (value % 256, runes)

/-- The number that hexadecimal digits write up to a closing brace, after the value `n` of digits
already read. `empty` says that there was none. -/
def bracedNumber (empty : Bool) (n : Nat) : Runes → Except Stop (Nat × Runes)
  | [] => .error ⟨.missingBrace, []⟩
  | c :: rest =>
    if c = 0x7D then if empty then .error ⟨.missingHexDigits, rest⟩ else .ok (n, rest)
    else match hexValue? c with
      | none => .error ⟨.missingBrace, rest⟩
      | some d =>
        if n * 16 + d > 0x10FFFF then .error ⟨.hexOutOfRange, rest⟩
        else bracedNumber false (n * 16 + d) rest

/-- The character that an escape of a single meaning denotes, read after its backslash. A letter
without a meaning here denotes itself. -/
def simpleEscape : Runes → Nat × Runes
  | [] => (0, [])
  | c :: rest =>
    if 48 ≤ c && c ≤ 55 then octal 0 3 (c :: rest)
    else if c = rune 'x' then
      match hexNumber? 2 rest with
      | some n => (n, rest.drop 2)
      | none => (c, rest)
    else if c = rune 'u' then
      match hexNumber? 4 rest with
      | some n => (n, rest.drop 4)
      | none => (c, rest)
    else if c = rune 'c' then
      match rest with
      | l :: more =>
        let upper := if 97 ≤ l && l ≤ 122 then l - 32 else l
        if 64 ≤ upper && upper < 96 then (upper - 64, more) else (c, rest)
      | [] => (c, rest)
    else
      let value :=
        if c = rune 'a' then 7 else if c = rune 'b' then 8 else if c = rune 'e' then 27
        else if c = rune 'f' then 12 else if c = rune 'n' then 10 else if c = rune 'r' then 13
        else if c = rune 't' then 9 else if c = rune 'v' then 11 else c
      (value, rest)

/-- The character that an escape denotes, read after its backslash. A number in braces has to be
right where they are known (`braces`). -/
def escapedRune (braces : Bool) (runes : Runes) : Except Stop (Nat × Runes) :=
  match runes with
  | 117 :: 0x7B :: rest => if braces then bracedNumber true 0 rest else .ok (simpleEscape runes)
  | _ => .ok (simpleEscape runes)

/-- The rest after a property reference, read after its `p` or `P`: one letter, or a name in
braces. -/
def property (runes : Runes) : Except Stop Runes :=
  match runes with
  | [] => .error ⟨.incompleteProperty, []⟩
  | c :: rest =>
    if c ≠ 0x7B then
      if isPropertyName (encode [c]) then .ok rest else .error ⟨.unknownProperty [c], rest⟩
    else if rest.length < 2 then .error ⟨.incompleteProperty, runes⟩
    else
      let name := rest.takeWhile fun n => isWordRune n || n = 45
      match rest.drop name.length with
      | 0x7D :: after =>
        if isPropertyName (encode name) then .ok after else .error ⟨.unknownProperty name, after⟩
      | after => .error ⟨.incompleteProperty, after.drop 1⟩

/-- Is it one of the letters of the digit, space and word classes? -/
def isClassLetter (n : Nat) : Bool :=
  n = rune 'd' || n = rune 'D' || n = rune 's' || n = rune 'S' || n = rune 'w' || n = rune 'W'

/-- The rest after a bracketed name `:name:]`, if that stands at the front. -/
def afterBracketedName? : Runes → Option Runes
  | 58 :: rest =>
    let rest := match rest with
      | 94 :: c :: more => c :: more
      | _ => rest
    match rest.dropWhile isWordRune with
    | 58 :: 93 :: after => some after
    | _ => none
  | _ => none

/-- How a class is read: whether its ranges are checked, and whether numbers in braces are known. -/
structure ClassReading where
  strict : Bool
  braces : Bool
deriving DecidableEq, Repr

mutual

/-- The rest after a character class, read after its opening bracket. -/
def charClass (how : ClassReading) : Nat → Runes → Except Stop Runes
  | 0, runes => .error ⟨.unterminatedClass, runes⟩
  | fuel + 1, 94 :: rest => classItems how fuel true none rest
  | fuel + 1, rest => classItems how fuel true none rest

/-- The rest of a class: `first` at its first item, and with the lower end of a range that was
begun. -/
def classItems (how : ClassReading) : Nat → Bool → Option Nat → Runes → Except Stop Runes
  | 0, _, _, runes => .error ⟨.unterminatedClass, runes⟩
  | _, _, _, [] => .error ⟨.unterminatedClass, []⟩
  | fuel + 1, first, range, c :: rest =>
    if c = 93 then .ok rest
    else if c = 92 then
      match rest with
      | [] => classItem how fuel first range c false rest
      | l :: more =>
        if isClassLetter l then
          if how.strict && range.isSome then .error ⟨.classInRange l, more⟩
          else classItems how fuel false range more
        else if l = rune 'p' || l = rune 'P' then
          if !how.strict then classItems how fuel false range (reached (property more))
          else if range.isSome then .error ⟨.classInRange l, more⟩
          else match property more with
            | .ok after => classItems how fuel false range after
            | .error stop => .error stop
        else if l = 45 then classItems how fuel false range more
        else match escapedRune how.braces (l :: more) with
          | .ok (value, after) => classItem how fuel first range value true after
          | .error stop => .error stop
    else if c = 91 && range.isNone then
      classItem how fuel first range c false ((afterBracketedName? rest).getD rest)
    else classItem how fuel first range c false rest

/-- The rest of a class after one of its characters, which `escaped` says was escaped. -/
def classItem (how : ClassReading) :
    Nat → Bool → Option Nat → Nat → Bool → Runes → Except Stop Runes
  | 0, _, _, _, _, runes => .error ⟨.unterminatedClass, runes⟩
  | fuel + 1, first, some low, c, escaped, rest =>
    if how.strict && c = 91 && !escaped && !first then subtraction how fuel rest
    else if how.strict && low > c then .error ⟨.reversedRange low c, rest⟩
    else classItems how fuel false none rest
  | fuel + 1, first, none, c, escaped, rest =>
    match rest with
    | 45 :: next :: more =>
      if next ≠ 93 then classItems how fuel false (some c) (next :: more)
      else classItems how fuel false none rest
    | 91 :: more =>
      if c = 45 && !escaped && !first then subtraction how fuel more
      else classItems how fuel false none rest
    | _ => classItems how fuel false none rest

/-- The rest of a class from which another is subtracted, read after the bracket of the other. -/
def subtraction (how : ClassReading) : Nat → Runes → Except Stop Runes
  | 0, runes => .error ⟨.unterminatedClass, runes⟩
  | fuel + 1, rest =>
    if !how.strict then classItems how fuel false none (reached (charClass how fuel rest))
    else match charClass how fuel rest with
      | .error stop => .error stop
      | .ok after =>
        match after with
        | c :: _ =>
          if c ≠ 93 then .error ⟨.subtractionNotLast, after⟩
          else classItems how fuel false none after
        | [] => classItems how fuel false none after

end

/-- The rest after a character class, read after its opening bracket. Two steps for each code point
that is left suffice. -/
def readClass (how : ClassReading) (rest : Runes) : Except Stop Runes :=
  charClass how (2 * rest.length + 4) rest

end ScriptOptimizer.Pattern
