import ScriptOptimizer.Text.Quoted

/-!
What can be wrong with the text of a token, and what a scanner answers: how many bytes the token
takes and what it denotes, or the fault and where it is.
-/

namespace ScriptOptimizer

/-- A reason why no token can be read. -/
inductive LexicalFault where
  | unrecognizedCharacter (rune : Nat)
  | unterminatedComment
  | invalidIdentifierEscape
  | invalidIdentifierUnicodeEscape
  | invalidHexLiteral (cause : Bytes)
  | invalidOctalLiteral (cause : Bytes)
  | missingExponent
  | identifierAfterNumber
  | unterminatedString
  | invalidHexEscape
  | invalidUnicodeEscape
  | unterminatedRegex
  | unmatchedParenthesis
  | unterminatedGroup
  | invalidFlags (flags : Bytes)
  | invalidPattern (cause : Bytes)
deriving DecidableEq, Repr

namespace LexicalFault

/-- The message for a fault. -/
def message : LexicalFault → Bytes
  | unrecognizedCharacter rune => Bytes.ofString "unrecognized character " ++ Quoted.rune rune
  | unterminatedComment => "unterminated multiline comment"
  | invalidIdentifierEscape => "invalid escape in identifier"
  | invalidIdentifierUnicodeEscape => "invalid unicode escape in identifier"
  | invalidHexLiteral _ => "invalid hexadecimal literal"
  | invalidOctalLiteral _ => "invalid octal literal"
  | missingExponent => "missing exponent in numeric literal"
  | identifierAfterNumber => "identifier starts immediately after numeric literal"
  | unterminatedString => "unterminated string literal"
  | invalidHexEscape => "invalid hexadecimal escape sequence"
  | invalidUnicodeEscape => "invalid unicode escape sequence"
  | unterminatedRegex => "unterminated regular expression literal"
  | unmatchedParenthesis => "unmatched ')' in regular expression"
  | unterminatedGroup => "unterminated group in regular expression"
  | invalidFlags flags => Bytes.ofString "invalid regular expression flags " ++ Quoted.text flags
  | invalidPattern cause => Bytes.ofString "invalid regular expression: " ++ cause

/-- The text of the error behind a fault, if there is one. -/
def cause? : LexicalFault → Option Bytes
  | invalidHexLiteral cause | invalidOctalLiteral cause | invalidPattern cause => some cause
  | _ => none

end LexicalFault

/-- A fault in a token: `start` bytes into it, found after reading `width` bytes of it. -/
structure ScanFault where
  fault : LexicalFault
  start : Nat
  width : Nat
deriving DecidableEq, Repr

/-- The answer of a scanner whose tokens denote an `α`: their width and value, or a fault. -/
abbrev Scan (α : Type) := Except ScanFault (Nat × α)

/-- A fault of the token as a whole, found after reading `width` bytes of it. -/
def Scan.fail {α : Type} (fault : LexicalFault) (width : Nat) : Scan α := .error ⟨fault, 0, width⟩

end ScriptOptimizer
