import ScriptOptimizer.Pattern.Escape

/-!
The options that change how a pattern is read, and the blanks and comments that they let it contain.
-/

namespace ScriptOptimizer.Pattern

/-- The options that change how a pattern is read: blanks and comments are skipped, plain groups do
not capture, and escapes may have numbers in braces. -/
structure Options where
  skipBlanks : Bool := false
  explicit : Bool := false
  braces : Bool := false
deriving DecidableEq, Repr

/-- The options set and cleared by letters at the front, and the rest after them. -/
def optionLetters (options : Options) (off : Bool) : Runes → Options × Runes
  | [] => (options, [])
  | c :: rest =>
    if c = 45 then optionLetters options true rest
    else if c = 43 then optionLetters options false rest
    else if c = rune 'x' || c = rune 'X' then
      optionLetters { options with skipBlanks := !off } off rest
    else if c = rune 'n' || c = rune 'N' then
      optionLetters { options with explicit := !off } off rest
    else if c = rune 'u' || c = rune 'U' then
      optionLetters { options with braces := !off } off rest
    else if (['i', 'I', 'm', 'M', 's', 'S', 'd', 'D'].map rune).contains c then
      optionLetters options off rest
    else (options, c :: rest)

/-- Is it a blank that a pattern may contain when blanks are skipped? -/
def isBlankRune (n : Nat) : Bool := (9 ≤ n && n ≤ 13) || n = 32

/-- The rest after a comment in a group. -/
def afterComment : Runes → Except Fault Runes
  | [] => .error .unterminatedComment
  | 41 :: rest => .ok rest
  | _ :: rest => afterComment rest

/-- The rest after the comment at the front, which ends with its line. -/
def afterLineComment (runes : Runes) : Runes := runes.dropWhile (· ≠ 10)

/-- The rest after the blanks and comments at the front. -/
def skipBlanks (options : Options) : Nat → Runes → Except Fault Runes
  | 0, runes => .ok runes
  | fuel + 1, runes =>
    match runes with
    | 40 :: 63 :: 35 :: rest =>
      match afterComment rest with
      | .ok after => skipBlanks options fuel after
      | .error fault => .error fault
    | c :: rest =>
      if options.skipBlanks && isBlankRune c then skipBlanks options fuel rest
      else if options.skipBlanks && c = 35 then
        skipBlanks options fuel (afterLineComment rest)
      else .ok runes
    | [] => .ok []

end ScriptOptimizer.Pattern
