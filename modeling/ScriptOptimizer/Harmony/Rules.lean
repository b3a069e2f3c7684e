import ScriptOptimizer.Harmony.Target

/-!
The rules of the newer grammar that refer to each other, as a record. As in the older grammar, each
rule is written against a record that stands for the same rules one nesting further in.
-/

namespace ScriptOptimizer.Harmony

/-- The rules that refer to each other. -/
structure Rules where
  assignment : Reader Expression
  relational : Reader Expression
  exponent : Reader Expression
  unary : Reader Expression
  callee : Reader Expression
  leftHandSide : Reader Expression
  object : Reader Expression
  statement : Reader Statement

namespace Rules

open Reader

/-- Reports that what stands here cannot be read. -/
def giveUp : Reader Expression := do
  unexpected
  return .unread

/-- Passes over what cannot be read, up to the next statement. -/
def passOver : Reader Expression := do
  recover
  return .unread

/-- A name where none was found, so that what stands here is passed over. -/
def missingName : Reader Expression := do
  let _ ← expect .name
  passOver

/-- The rules at a nesting that no text reaches. -/
def empty : Rules where
  assignment := giveUp
  relational := giveUp
  exponent := giveUp
  unary := giveUp
  callee := giveUp
  leftHandSide := giveUp
  object := giveUp
  statement := .expression <$> giveUp

/-- A name if there is one. -/
def name? : Reader (Option Name) := do
  let t ← current
  if (← setting).takesAsName t.lexeme then
    let _ ← advance
    return some ⟨t.start, t.value⟩
  else return none

/-- A name that has to be there. -/
def requiredName : Reader (Option Name) := do
  let found ← name?
  if found.isNone then
    let _ ← expect .name
  return found

/-- Assignments separated by commas. -/
def expression (r : Rules) : Reader Expression := do
  let first ← r.assignment
  if ← sees (.mark .comma) then
    let rest ← many (return !(← accept (.mark .comma))) r.assignment
    let last := (rest.getLast?).getD first
    return .sequence (first.range.to last.range) (first :: rest)
  else return first

/-- An assignment, or one spread after dots. -/
def spreadable (r : Rules) : Reader Expression := do
  if ← accept .ellipsis then return .spread (← r.assignment) else r.assignment

/-- A statement of a list, which may be a declaration. -/
def listed (r : Rules) : Reader Statement := do
  declaring true
  r.statement

/-- A statement that is the body of another one and no declaration. -/
def nestedStatement (r : Rules) : Reader Statement := do
  declaring false
  r.statement

/-- Statements in braces. -/
def block (r : Rules) : Reader Block := do
  let opening ← expect (.mark .leftBrace)
  let body ← many (return (← sees (.mark .rightBrace)) || (← sees .endOfInput)) r.listed
  let closing ← expect (.mark .rightBrace)
  return .braces ⟨opening.start, closing.start + 1⟩ body

/-- The body of a function. The token after it is still cut in the setting of the body. -/
def functionBlock (r : Rules) (async allowAwait generator : Bool) : Reader Block := do
  let outer := (← get).declares
  declaring false
  let body ← within (fun _ => Setting.function async allowAwait generator) r.block
  declaring outer
  return body

end Rules

end ScriptOptimizer.Harmony
