import ScriptOptimizer.Token.Gap
import ScriptOptimizer.Token.Word

/-!
Regular expression literals. Groups and classes are followed while scanning, so that an unbalanced
body is a fault here; the body is then checked as a pattern.
-/

namespace ScriptOptimizer

/-- What tells patterns from other texts: why a body is none under its flags, if it is not. -/
class PatternCheck where
  fault? (body flags : Bytes) : Option Bytes

namespace RegexLiteral

/-- The width of a literal up to its closing slash, after `width` bytes of it, inside `depth` groups
and perhaps inside a class. After a backslash (`escaped`) a byte has no meaning of its own. -/
def scanBody (width depth : Nat) (inClass escaped : Bool) : Bytes → Scan Unit
  | [] => Scan.fail .unterminatedRegex width
  | b :: rest =>
    if escaped then
      if b = 10 || b = 13 then Scan.fail .unterminatedRegex width
      else scanBody (width + 1) depth inClass false rest
    else if startsWithLineBreak (b :: rest) then Scan.fail .unterminatedRegex width
    else if b = 92 then scanBody (width + 1) depth inClass true rest
    else if b = 91 then scanBody (width + 1) depth true false rest
    else if b = 93 then scanBody (width + 1) depth false false rest
    else if inClass then scanBody (width + 1) depth inClass false rest
    else if b = 40 then scanBody (width + 1) (depth + 1) inClass false rest
    else if b = 41 then
      match depth with
      | 0 => Scan.fail .unmatchedParenthesis width
      | d + 1 => scanBody (width + 1) d inClass false rest
    else if b = 47 then
      if depth = 0 then .ok (width, ()) else Scan.fail .unterminatedGroup width
    else scanBody (width + 1) depth inClass false rest

/-- Are the flags distinct letters of `g`, `i`, `m`, `u` and `y`? -/
def validFlags : Bytes → Bool
  | [] => true
  | f :: rest => (Bytes.ofString "gimuy").contains f && !rest.contains f && validFlags rest

/-- A literal: its body and its flags. -/
structure Parts where
  body : Bytes
  flags : Bytes
deriving DecidableEq, Repr

/-- The literal at the front of a text that begins with its slash. A body with the flag `u` is only
checked for balance. -/
def scan [PatternCheck] (text : Bytes) : Scan Parts :=
  match scanBody 1 0 false false (text.drop 1) with
  | .error fault => .error fault
  | .ok (closing, _) =>
    let body := (text.take closing).drop 1
    let flags := (text.drop (closing + 1)).takeWhile Word.isPartByte
    let width := closing + 1 + flags.length
    if !validFlags flags then Scan.fail (.invalidFlags flags) width
    else if flags.contains (Bytes.byte 'u') then .ok (width, ⟨body, flags⟩)
    else match PatternCheck.fault? body flags with
      | some cause => Scan.fail (.invalidPattern cause) width
      | none => .ok (width, ⟨body, flags⟩)

end RegexLiteral

end ScriptOptimizer
