import ScriptOptimizer.Text.Utf8

/-!
What can be wrong with the body of a regular expression.
-/

namespace ScriptOptimizer.Pattern

/-- A reason why a body is no pattern. -/
inductive Fault where
  | unterminatedComment
  | invalidRepeatSize
  | numberOutOfRange
  | unexpectedParen
  | missingParen
  | missingBrace
  | nestedRepetition
  | missingRepeatArgument
  | tooManyAlternatives
  | unrecognizedGrouping (opening : List Nat)
  | invalidGroupName
  | zeroGroupNumber
  | undefinedNumber (number : Nat)
  | undefinedName (name : List Nat)
  | conditionCapture
  | conditionComment
  | malformedCondition (number : Nat)
  | undefinedCondition (number : Nat)
  | illegalEndEscape
  | malformedNameReference
  | incompleteProperty
  | unknownProperty (name : List Nat)
  | missingHexDigits
  | hexOutOfRange
  | classInRange (letter : Nat)
  | unterminatedClass
  | subtractionNotLast
  | reversedRange (first last : Nat)
deriving DecidableEq, Repr

/-- The UTF-8 form of a sequence of code points. -/
def encode (runes : List Nat) : Bytes := runes.flatMap Utf8.encode

namespace Fault

/-- The message for a fault. -/
def message : Fault → Bytes
  | unterminatedComment => "unterminated comment"
  | invalidRepeatSize => "invalid repeat count"
  | numberOutOfRange => "capture group number out of range"
  | unexpectedParen => "unexpected )"
  | missingParen => "missing closing )"
  | missingBrace => "missing closing \x7d"
  | nestedRepetition => "invalid nested repetition operator"
  | missingRepeatArgument => "missing argument to repetition operator"
  | tooManyAlternatives => "too many | in (?()|)"
  | unrecognizedGrouping opening =>
    Bytes.ofString "unrecognized grouping construct: (" ++ encode opening
  | invalidGroupName =>
    Bytes.ofString "invalid group name: group names must begin with a word character and have " ++
      Bytes.ofString "a matching terminator"
  | zeroGroupNumber => "capture number cannot be zero"
  | undefinedNumber number =>
    Bytes.ofString "reference to undefined group number " ++ Bytes.ofNat number
  | undefinedName name => Bytes.ofString "reference to undefined group name " ++ encode name
  | conditionCapture => "alternation conditions do not capture and cannot be named"
  | conditionComment => "alternation conditions cannot be comments"
  | malformedCondition number =>
    Bytes.ofString "(?(" ++ Bytes.ofNat number ++ Bytes.ofString ") ) malformed"
  | undefinedCondition number =>
    Bytes.ofString "(?(" ++ Bytes.ofNat number ++ Bytes.ofString ") ) reference to undefined group"
  | illegalEndEscape => "illegal \\ at end of pattern"
  | malformedNameReference => "malformed \\k<...> named back reference"
  | incompleteProperty => "incomplete \\p\x7bX\x7d character escape"
  | unknownProperty name =>
    Bytes.ofString "unknown unicode category, script, or property '" ++ encode name ++
      Bytes.ofString "'"
  | missingHexDigits => "insufficient hexadecimal digits"
  | hexOutOfRange => "hex values may not be larger than 0x10FFFF"
  | classInRange letter =>
    Bytes.ofString "cannot include class \\" ++ Bytes.ofNat letter ++
      Bytes.ofString " in character range"
  | unterminatedClass => "unterminated [] set"
  | subtractionNotLast => "a subtraction must be the last element in a character class"
  | reversedRange first last =>
    Bytes.ofString "[" ++ Utf8.encode first ++ Bytes.ofString "-" ++ Utf8.encode last ++
      Bytes.ofString "] range in reverse order"

/-- The message for a fault in a body, which it quotes. -/
def report (body : Bytes) (fault : Fault) : Bytes :=
  Bytes.ofString "error parsing regexp: " ++ fault.message ++ Bytes.ofString " in `" ++ body ++
    Bytes.ofString "`"

end Fault

end ScriptOptimizer.Pattern
