import ScriptOptimizer.Pattern.Group
import ScriptOptimizer.Token.RegexLiteral

/-!
Checking the body of a regular expression. A first reading collects the capture groups, a second one
follows groups, classes, escapes and repetitions and reports the first fault.
-/

namespace ScriptOptimizer.Pattern

/-- Is a repetition at the front: `*`, `+`, `?`, or a count in braces? -/
def isRepetition : Runes → Bool
  | c :: rest =>
    if c = 42 || c = 43 || c = 63 then true
    else if c = 0x7B then
      let least := rest.takeWhile isDigitRune
      match rest.drop least.length with
      | 0x7D :: _ => least ≠ []
      | 44 :: more => least ≠ [] && (more.dropWhile isDigitRune).head? = some 0x7D
      | _ => false
    else false
  | [] => false

/-- The rest after the repetition at the front, a lazy mark included. -/
def afterRepetition (options : Options) (runes : Runes) : Except Fault Runes := do
  let afterCount ← match runes with
    | 0x7B :: rest =>
      let (least, rest) ← decimal 0 rest
      match rest with
      | 44 :: more =>
        if more.head? = some 0x7D then pure (more.drop 1, true)
        else
          let (most, more) ← decimal 0 more
          pure (more.drop 1, least ≤ most)
      | _ => pure (rest.drop 1, true)
    | _ => pure (runes.drop 1, true)
  let rest ← skipBlanks options runes.length afterCount.1
  let rest := match rest with
    | 63 :: more => more
    | _ => rest
  if afterCount.2 then pure rest else throw .invalidRepeatSize

/-- A group that is open, with the options to go back to at its end. -/
structure OpenGroup where
  kind : GroupKind
  outer : Options
deriving DecidableEq, Repr

/-- The open groups, the innermost first. -/
abbrev OpenGroups := List OpenGroup

namespace OpenGroups

/-- The kind of the innermost group. The pattern itself is a plain one. -/
def kind : OpenGroups → GroupKind
  | [] => .plain
  | group :: _ => group.kind

/-- Adds a part to the innermost group. -/
def addPart : OpenGroups → OpenGroups
  | [] => []
  | group :: outer => { group with kind := group.kind.addPart } :: outer

end OpenGroups

/-- Reads a pattern to its end, inside the groups that are open. `repeated` says that a repetition
was just read. -/
def follow (known : Captures) : Nat → Options → OpenGroups → Bool → Runes → Except Fault Unit
  | 0, _, _, _, _ => .ok ()
  | fuel + 1, options, groups, repeated, runes => do
    let runes ← skipBlanks options runes.length runes
    let atom (options : Options) (groups : OpenGroups) (rest : Runes) : Except Fault Unit := do
      let rest ← skipBlanks options rest.length rest
      if isRepetition rest then
        let rest ← afterRepetition options rest
        follow known fuel options groups true rest
      else follow known fuel options groups false rest
    match runes with
    | [] => if groups = [] then pure () else throw .missingParen
    | c :: rest =>
      if isRepetition runes then
        throw (if repeated then .nestedRepetition else .missingRepeatArgument)
      else if c = 91 then
        let rest ← faultOnly (readClass ⟨true, options.braces⟩ rest)
        atom options groups rest
      else if c = 40 then
        match ← opening known groups.kind options rest with
        | .settings changed rest => follow known fuel changed groups false rest
        | .group kind changed rest =>
          follow known fuel changed (⟨kind, options⟩ :: groups) false rest
      else if c = 124 then follow known fuel options groups.addPart false rest
      else if c = 41 then
        match groups with
        | [] => throw .unexpectedParen
        | group :: outer =>
          if group.kind.addPart.isOverfull then throw .tooManyAlternatives
          if OpenGroups.kind outer = .ifMatched 0 then
            follow known fuel group.outer (OpenGroups.addPart outer) false rest
          else atom group.outer outer rest
      else if c = 92 then
        let rest ← faultOnly (afterEscape known known.areNamed options rest)
        atom options groups rest
      else atom options groups rest

/-- The first fault in the body of a regular expression without the flag `u`. Two steps for each
code point suffice. -/
def fault? (body : Bytes) : Option Fault :=
  let runes := (Utf8.runes body).map (·.1)
  let checked : Except Fault Unit := do
    follow (← captures runes) (2 * runes.length + 2) {} [] false runes
  match checked with
  | .ok () => none
  | .error fault => some fault

/-- Literals are checked by these rules, whatever their other flags. -/
instance : PatternCheck where
  fault? body _ := (fault? body).map fun fault => fault.report body

end ScriptOptimizer.Pattern
