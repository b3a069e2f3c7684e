import ScriptOptimizer.Harmony.Operand

/-!
The rules for functions and classes. Of a class only its range is kept, but all of it has to be well
formed.
-/

namespace ScriptOptimizer.Harmony

namespace Rules

open Reader

/-- A function from its word, of which a declaration has to be named. `start` is where it starts,
which for an asynchronous one is the word before. -/
def functionLiteral (r : Rules) (declaration async : Bool) (start : Nat) : Reader Function := do
  let _ ← expect (.word .kwFunction)
  let generator ← accept (.mark .times)
  let inner := Setting.functionHead async generator
  let id ← if declaration then requiredName else within inner name?
  let (params, rest) ← within inner r.parameters
  let body ← r.functionBlock async async generator
  return .mk ⟨start, body.range.stop⟩ async generator id params rest body

/-- An asynchronous function from its first word, if that is what follows. -/
def asyncFunction? (r : Rules) (declaration : Bool) : Reader (Option Function) := do
  if (← sees .kwAsync) then
    if (← peek) = .word .kwFunction then
      let word ← advance
      return some (← r.functionLiteral declaration true word.start)
  return none

/-- What a member of a class starts with: `get`, `set` or `async` where that is not its name. -/
def memberKind : Reader (Option EntryKind × Bool) := do
  let t ← current
  let isGet := t.raw = Bytes.ofString "get"
  if isGet || t.raw = Bytes.ofString "set" || t.lexeme = .kwAsync then
    let ahead ← peek
    if ahead = .mark .semicolon || ahead = .mark .leftParen then return (none, false)
    let _ ← advance
    if t.lexeme = .kwAsync then return (some .method, true)
    return (some (if isGet then .getter else .setter), false)
  else return (none, false)

/-- Reports methods that cannot be called `constructor`. -/
def checkConstructor (k : Key) (isStatic : Bool) (kind : EntryKind) (async generator : Bool) :
    Reader Unit := do
  if k.isName "constructor" then
    let start := k.expr.range.start
    if isStatic then
      if k.isPrivate then report start "Class constructor may not be a private method"
    else if kind ≠ .method then report start "Class constructor may not be an accessor"
    else if async then report start "Class constructor may not be an async method"
    else if generator then report start "Class constructor may not be a generator"

/-- A field of a class after its key, and whether other members may follow it. -/
def field (r : Rules) (k : Key) : Reader Bool := do
  if k.isName "constructor" then
    report k.expr.range.start "Classes may not have a field named 'constructor'"
  if ← accept (.mark .assign) then
    let _ ← r.expression
  let t ← current
  if t.afterBreak || t.lexeme = .mark .semicolon || t.lexeme = .mark .rightBrace then return true
  unexpected
  return false

/-- A member of a class after the word `static`, if that stood there, and whether other members may
follow it. -/
def memberRest (r : Rules) (isStatic : Bool) : Reader Bool := do
  let start := (← current).start
  let (kind, async) ← memberKind
  let generator ← if kind.all (· = .method) then accept (.mark .times) else pure false
  let kind := if generator then some .method else kind
  match ← r.key? with
  | none => return true
  | some k =>
    if isStatic && !k.isPrivate && k.isName "prototype" then
      report k.expr.range.start "Classes may not have a static property named 'prototype'"
    let opens ← sees (.mark .leftParen)
    match kind <|> (if opens then some EntryKind.method else none) with
    | some kind =>
      checkConstructor k isStatic kind async generator
      let _ ← r.method start kind generator async
      return true
    | none => r.field k

/-- A member of a class, and whether other members may follow it: a method, a field, a block of
statements, or a semicolon. -/
def classMember (r : Rules) : Reader Bool := do
  if ← accept (.mark .semicolon) then return true
  if ← sees .kwStatic then
    match ← peek with
    | .mark .assign | .mark .semicolon | .mark .rightBrace | .mark .leftParen =>
      r.memberRest false
    | _ =>
      let _ ← advance
      if ← sees (.mark .leftBrace) then
        let _ ← r.functionBlock false true false
        return true
      else r.memberRest true
  else r.memberRest false

/-- The members of a class up to its closing brace, in at most so many rounds. -/
def classMembers (r : Rules) : Nat → Reader Unit
  | 0 => return
  | n + 1 => do
    if (← sees (.mark .rightBrace)) || (← sees .endOfInput) then return
    if ← r.classMember then classMembers r n

/-- A class. As a declaration it has to be named, and cannot be the body of another statement. -/
def classLiteral (r : Rules) (declaration : Bool) : Reader Range := do
  if declaration && !(← get).declares then unexpectedAs .kwClass
  let opening ← expect .kwClass
  let _ ← if declaration then requiredName else name?
  if !(← sees (.mark .leftBrace)) then
    let _ ← expect .kwExtends
    let _ ← r.leftHandSide
  let _ ← expect (.mark .leftBrace)
  r.classMembers (← rounds)
  let closing ← expect (.mark .rightBrace)
  return ⟨opening.start, closing.start + 1⟩

end Rules

end ScriptOptimizer.Harmony
