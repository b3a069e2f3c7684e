import ScriptOptimizer.Pattern.Options

/-!
The capture groups of a pattern. A first reading of the pattern collects them, so that a reference
may stand before its group. It leaves faults to the second reading, except for a number of a group
that is too large.
-/

namespace ScriptOptimizer.Pattern

/-- The capture groups of a pattern, by number and by name, and the number from which the next group
without one is counted. The whole pattern is group zero. -/
structure Captures where
  numbers : List Nat := [0]
  names : List Runes := []
  next : Nat := 1
deriving DecidableEq, Repr

namespace Captures

/-- Adds a group with a number. -/
def addNumber (c : Captures) (number : Nat) : Captures :=
  if c.numbers.contains number then c else { c with numbers := number :: c.numbers }

/-- Adds a group that is counted. -/
def addNext (c : Captures) : Captures := { c.addNumber c.next with next := c.next + 1 }

/-- Adds a group with a name. -/
def addName (c : Captures) (name : Runes) : Captures :=
  if c.names.contains name then c else { c with names := c.names ++ [name] }

/-- The first number from `n` on that no group has, in so many steps. -/
def freeNumber (c : Captures) : Nat → Nat → Nat
  | 0, n => n
  | steps + 1, n => if c.numbers.contains n then c.freeNumber steps (n + 1) else n

/-- Gives each name a number, after all groups that were counted. -/
def numbered (c : Captures) : Captures :=
  c.names.foldl (fun c _ =>
    let number := c.freeNumber c.numbers.length c.next
    { c.addNumber number with next := number + 1 }) c

/-- Are the groups known by name? They are as soon as one has a name, or a number is left out. -/
def areNamed (c : Captures) : Bool :=
  c.names ≠ [] || c.numbers.length ≤ c.numbers.foldl max 0

end Captures

/-- Is it a letter that is a whole escape: one of the classes or of the assertions? -/
def isWholeEscape (c : Nat) : Bool :=
  isClassLetter c || (['b', 'B', 'A', 'G', 'Z', 'z'].map rune).contains c

/-- The rest after a reference by name, read after its `k`. -/
def afterReference (known : Captures) (runes : Runes) : Except Stop Runes :=
  match runes with
  | 60 :: d :: more =>
    if isDigitRune d then
      match decimal 0 (d :: more) with
      | .error fault => .error ⟨fault, d :: more⟩
      | .ok (number, 62 :: after) =>
        if known.numbers.contains number then .ok after
        else .error ⟨.undefinedNumber number, after⟩
      | .ok _ => .ok runes
    else
      let name := (d :: more).takeWhile isWordRune
      match name, (d :: more).drop name.length with
      | [], rest => .error ⟨.malformedNameReference, rest⟩
      | _, 62 :: after =>
        if known.names.contains name then .ok after else .error ⟨.undefinedName name, after⟩
      | _, rest => .error ⟨.malformedNameReference, rest.drop 1⟩
  | _ => .error ⟨.malformedNameReference, runes.drop 1⟩

/-- The rest after an escape outside classes, read after its backslash. A reference by name is one
only where groups are known by name (`named`). -/
def afterEscape (known : Captures) (named : Bool) (options : Options) (runes : Runes) :
    Except Stop Runes :=
  let single : Except Stop Runes := (escapedRune options.braces runes).map (·.2)
  match runes with
  | [] => .error ⟨.illegalEndEscape, []⟩
  | c :: rest =>
    if isWholeEscape c then .ok rest
    else if c = rune 'p' || c = rune 'P' then property rest
    else if c = rune 'k' && named then afterReference known rest
    else if 49 ≤ c && c ≤ 57 then
      match decimal 0 runes with
      | .error fault => .error ⟨fault, rest⟩
      | .ok (number, after) => if known.numbers.contains number then .ok after else single
    else single

/-- Adds the group whose number or name is at the front, if one is. -/
def addLabelled (found : Captures) (runes : Runes) : Except Fault Captures :=
  match runes with
  | [] => .ok found
  | c :: _ =>
    if c = 48 || !isWordRune c then .ok found
    else if isDigitRune c then do
      let (number, _) ← decimal 0 runes
      return found.addNumber number
    else .ok (found.addName (runes.takeWhile isWordRune))

/-- How far the first reading has come: the options in force and those to go back to at each closing
parenthesis, whether the parenthesis at the front opens a condition, which does not capture, the
groups found, and what is left. -/
structure Collecting where
  options : Options := {}
  outer : List Options := []
  condition : Bool := false
  found : Captures := {}
  rest : Runes
deriving DecidableEq, Repr

namespace Collecting

/-- Goes on with what is left, inside the same groups. -/
def passTo (s : Collecting) (rest : Runes) : Collecting := { s with condition := false, rest }

/-- Goes on inside another group. -/
def enter (s : Collecting) (found : Captures) (rest : Runes) : Collecting :=
  { s with outer := s.options :: s.outer, condition := false, found, rest }

/-- Goes back to the options of the enclosing group. -/
def leave (s : Collecting) (rest : Runes) : Collecting :=
  match s.outer with
  | saved :: outer => { s with options := saved, outer, condition := false, rest }
  | [] => s.passTo rest

/-- The step over the opening of a group that starts with a question mark, read after that. -/
def special (s : Collecting) (runes : Runes) : Except Fault Collecting :=
  match runes with
  | 35 :: more => .ok (s.passTo ((afterComment more).toOption.getD []))
  | 60 :: label :: more | 39 :: label :: more => do
    return s.enter (← addLabelled s.found (label :: more)) (label :: more)
  | _ =>
    let (options, after) := optionLetters s.options false runes
    match after with
    | 41 :: rest => .ok { s with options, condition := false, rest }
    | _ => .ok { s.enter s.found after with options, condition := after.head? = some 40 }

/-- The step over the next part, which starts with `c`. -/
def step (s : Collecting) (c : Nat) (rest : Runes) : Except Fault Collecting :=
  if c = 92 then
    .ok (s.passTo (reached (afterEscape s.found (s.found.names ≠ []) s.options rest)))
  else if c = 35 && s.options.skipBlanks then .ok (s.passTo (afterLineComment rest))
  else if c = 91 then .ok (s.passTo (reached (readClass ⟨false, s.options.braces⟩ rest)))
  else if c = 41 then .ok (s.leave rest)
  else if c = 40 then
    match rest with
    | 63 :: more => s.special more
    | _ =>
      .ok (s.enter (if s.options.explicit || s.condition then s.found else s.found.addNext) rest)
  else .ok (s.passTo rest)

/-- The groups found after so many steps, or at the end. -/
def run : Nat → Collecting → Except Fault Captures
  | 0, s => .ok s.found
  | steps + 1, s =>
    match s.rest with
    | [] => .ok s.found
    | c :: rest => do (← s.step c rest).run steps

end Collecting

/-- The capture groups of a pattern. Each step takes one code point or more. -/
def captures (pattern : Runes) : Except Fault Captures := do
  return (← Collecting.run pattern.length { rest := pattern }).numbered

end ScriptOptimizer.Pattern
