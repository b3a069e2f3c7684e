import ScriptOptimizer.Harmony.Scanner

/-!
Reading tokens in order. A reader looks at the current token, now and then at the one after it. It
goes on after a fault, of which the first one counts, and it can return to a place that it passed,
which takes back the faults since then.
-/

namespace ScriptOptimizer.Harmony

/-- Where a reader stands: at a token, with the scanner behind it, nested in a setting. `declares`
says that a declaration may stand here, `stop` is where reading last went on after a fault and
`stops` how often it did so there. `collapsed` says that a range was cut out of the text that ends
before it starts. -/
structure Position where
  text : Bytes
  scanner : Scanner
  token : Token
  setting : Setting := {}
  declares : Bool := false
  stop : Option Nat := none
  stops : Nat := 0
  collapsed : Bool := false

/-- A reader of tokens. -/
abbrev Reader := StateM Position

namespace Reader

/-- The current token. -/
def current : Reader Token := return (← get).token

/-- What the current token is. -/
def lexeme : Reader Lexeme := return (← current).lexeme

/-- Is the current token this one? -/
def sees (l : Lexeme) : Reader Bool := return (← lexeme) = l

/-- What the current token is nested in. -/
def setting : Reader Setting := return (← get).setting

/-- Was there no fault so far? -/
def isSound : Reader Bool := return (← get).scanner.fault.isNone

/-- Reports a fault at an offset; one that has no offset is reported where the scanner stands. -/
def report (offset : Int) (message : Bytes) : Reader Unit :=
  modify fun p =>
    let place : Int := if offset < 0 then p.scanner.offset else offset
    { p with scanner := p.scanner.report place message }

/-- Reads the current token. -/
def advance : Reader Token := do
  let p ← get
  let (token, scanner) := p.scanner.next p.setting.takesAsName
  set { p with scanner, token }
  return p.token

/-- What the token after the current one is. A fault in it is found already now. -/
def peek : Reader Lexeme := do
  let p ← get
  let (token, scanner) := p.scanner.next p.setting.takesAsName
  set { p with scanner := { p.scanner with fault := scanner.fault } }
  return token.lexeme

/-- Reports a token that cannot stand here, at the current one. The end of input is reported at the
end of the text. -/
def unexpectedAs (l : Lexeme) : Reader Unit := do
  let start : Int := (← current).start
  match l with
  | .endOfInput => report (← get).scanner.offset "Unexpected end of input"
  | .name => report start "Unexpected identifier"
  | .reserved => report start "Unexpected reserved word"
  | .escapedWord => report start "Keyword must not contain escaped characters"
  | .number => report start "Unexpected number"
  | .string => report start "Unexpected string"
  | l => report start (Bytes.ofString "Unexpected token " ++ l.text)

/-- Reports that the current token cannot stand here. -/
def unexpected : Reader Unit := do unexpectedAs (← lexeme)

/-- Reads the current token if it is this one, and says whether it was. -/
def accept (l : Lexeme) : Reader Bool := do
  if ← sees l then
    let _ ← advance
    return true
  else return false

/-- Reads the current token, which has to be this one. -/
def expect (l : Lexeme) : Reader Token := do
  if !(← sees l) then unexpected
  advance

/-- Returns to a place that was passed. -/
def returnTo (origin : Position) : Reader Unit :=
  modify fun p => { p with scanner := origin.scanner, token := origin.token }

/-- Reads something in another setting. -/
def within {α : Type} (f : Setting → Setting) (x : Reader α) : Reader α := do
  let outer ← setting
  modify fun p => { p with setting := f outer }
  let a ← x
  modify fun p => { p with setting := outer }
  return a

/-- Says whether a declaration may stand here. -/
def declaring (allowed : Bool) : Reader Unit := modify fun p => { p with declares := allowed }

/-- How often reading goes on at one place after a fault before the place is passed over. -/
def stopLimit : Nat := 10

/-- More rounds than a repetition can take. Each round reads a token, unless it only goes on at a
place where reading went on after a fault. -/
def rounds : Reader Nat := do
  let s := (← get).scanner
  return (stopLimit + 2) * (s.size - s.offset + 2)

/-- Items until the test holds, in at most so many rounds. -/
def manyIn {α : Type} (isEnd : Reader Bool) (item : Reader α) : Nat → Reader (List α)
  | 0 => return []
  | n + 1 => do
    if ← isEnd then return []
    let first ← item
    return first :: (← manyIn isEnd item n)

/-- Items until the test holds. -/
def many {α : Type} (isEnd : Reader Bool) (item : Reader α) : Reader (List α) := do
  manyIn isEnd item (← rounds)

/-- A value extended by a step as long as the step applies, in at most so many rounds. -/
def extendIn {α : Type} (step : α → Reader (Option α)) : Nat → α → Reader α
  | 0, a => return a
  | n + 1, a => do
    match ← step a with
    | none => return a
    | some b => extendIn step n b

/-- A value extended by a step as long as the step applies. -/
def extend {α : Type} (step : α → Reader (Option α)) (a : α) : Reader α := do
  extendIn step (← rounds) a

/-- Does the word start a statement at which reading can go on after a fault? -/
def resumesAt : Lexeme → Bool
  | .word k => match k with
    | .kwBreak | .kwContinue | .kwFor | .kwIf | .kwReturn | .kwSwitch | .kwVar | .kwDo | .kwTry
    | .kwWith | .kwWhile | .kwThrow | .kwCatch | .kwFinally => true
    | _ => false
  | _ => false

/-- Skips to the next statement or the end of input, in at most so many rounds. -/
def recoverIn : Nat → Reader Unit
  | 0 => return
  | n + 1 => do
    let p ← get
    if p.token.lexeme = .endOfInput then return
    if resumesAt p.token.lexeme then
      if p.stop = some p.token.start && p.stops < stopLimit then
        set { p with stops := p.stops + 1 }
        return
      if p.stop.all (· < p.token.start) then
        set { p with stop := some p.token.start, stops := 0 }
        return
    let _ ← advance
    recoverIn n

/-- Skips to the next statement after a fault. -/
def recover : Reader Unit := do recoverIn (← rounds)

/-- Takes the line break before the current token as the end of a statement, once. -/
def endAtBreak : Reader Bool := do
  let t ← current
  modify fun p => { p with token := { t with afterBreak := false } }
  return t.afterBreak

/-- Ends a statement that is not an expression: by a semicolon or a line break, or where a
parenthesis or brace closes. -/
def semicolon : Reader Unit := do
  if (← sees (.mark .rightParen)) || (← sees (.mark .rightBrace)) then return
  if ← endAtBreak then return
  let _ ← expect (.mark .semicolon)

/-- Ends an expression statement: by a semicolon or a line break, or where a brace closes or the
input ends. -/
def optionalSemicolon : Reader Unit := do
  if ← accept (.mark .semicolon) then return
  if ← endAtBreak then return
  if (← sees .endOfInput) || (← sees (.mark .rightBrace)) then return
  let _ ← expect (.mark .semicolon)

/-- May a return or a `yield` stand without what follows it? -/
def atStatementEnd : Reader Bool := do
  let t ← current
  return t.afterBreak || t.lexeme = .mark .semicolon || t.lexeme = .mark .rightBrace ||
    t.lexeme = .endOfInput

/-- Where the first comma stands in a part of the text. -/
def commaBetween (start stop : Int) : Reader (Option Nat) := do
  if start > stop then
    modify fun p => { p with collapsed := true }
    return none
  let part := ((← get).text.drop start.toNat).take (stop - start).toNat
  return (part.findIdx? (· = 44)).map (· + start.toNat)

end Reader

end ScriptOptimizer.Harmony
