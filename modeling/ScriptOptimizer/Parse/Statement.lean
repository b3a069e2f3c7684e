import ScriptOptimizer.Parse.Expression

/-!
The rules for statements, and reading whole programs with them. Every nesting reads a token, so
rules nested deeper than there are tokens are never used.
-/

namespace ScriptOptimizer

namespace Grammar

open Parse

/-- An expression in parentheses. -/
def parenthesized (g : Grammar) : Parse Expr := do
  let _ ← expect (.punctuator .leftParen)
  let e ← g.expression false
  let _ ← expect (.punctuator .rightParen)
  return e

/-- A block as a statement. -/
def blockStatement (g : Grammar) (c : Context) : Parse Stmt := do
  let (span, body) ← g.block c
  return .block span body

/-- A name with an optional initializer. -/
def declarator (g : Grammar) (noIn : Bool) : Parse Declarator := do
  let start ← position
  let id ← name
  let init ← if ← accept (.punctuator .assign) then Slot.holds <$> g.assignment noIn
    else pure .absent
  let span ← spanFrom start
  let target ← inSlot (.ident id)
  return .bind span (.holds target) init

/-- A declaration without its end: where it starts and its declarators. -/
def declarators (g : Grammar) (noIn : Bool) : Parse (Place × List Declarator) := do
  let start ← position
  let _ ← expect (.keyword .kwVar)
  let first ← g.declarator noIn
  let rest ← many (return !(← accept (.punctuator .comma))) (g.declarator noIn)
  return (start, first :: rest)

/-- A declaration as a statement. -/
def variableStatement (g : Grammar) : Parse Stmt := do
  let (start, list) ← g.declarators false
  semicolon
  return .declaration (← spanFrom start) "var" list

/-- An empty statement. -/
def emptyStatement : Parse Stmt := do
  let t ← advance
  return .empty t.span

/-- An expression as a statement. -/
def expressionStatement (g : Grammar) : Parse Stmt := do
  let start ← position
  let e ← g.expression false
  semicolon
  return .expression (← spanFrom start) (.holds e)

/-- An `if` with an optional `else`. -/
def ifStatement (g : Grammar) (c : Context) : Parse Stmt := do
  let start ← position
  let _ ← expect (.keyword .kwIf)
  let test ← g.parenthesized
  let consequent ← g.statement c
  let alternate ← if ← accept (.keyword .kwElse) then g.statement c else pure .absent
  return .conditional (← spanFrom start) (.holds test) consequent alternate

/-- A `while` loop. -/
def whileStatement (g : Grammar) (c : Context) : Parse Stmt := do
  let start ← position
  let _ ← expect (.keyword .kwWhile)
  let test ← g.parenthesized
  let body ← g.statement c.loop
  return .whileLoop (← spanFrom start) (.holds test) body

/-- A `do` loop. The semicolon after it may always be left out. -/
def doWhileStatement (g : Grammar) (c : Context) : Parse Stmt := do
  let start ← position
  let _ ← expect (.keyword .kwDo)
  let body ← g.statement c.loop
  let _ ← expect (.keyword .kwWhile)
  let test ← g.parenthesized
  let _ ← accept (.punctuator .semicolon)
  return .doWhile (← spanFrom start) body (.holds test)

/-- The rest of a for-in loop from the word `in`. -/
def forInRest (g : Grammar) (c : Context) (start : Place) (left : ForHead) : Parse Stmt := do
  let _ ← expect (.keyword .kwIn)
  let right ← g.expression false
  let _ ← expect (.punctuator .rightParen)
  let body ← g.statement c.loop
  return .forIn (← spanFrom start) left (.holds right) body

/-- The rest of a `for` loop after the first part of its head. -/
def forRest (g : Grammar) (c : Context) (start : Place) (init : ForHead) : Parse Stmt := do
  let _ ← expect (.punctuator .semicolon)
  let test ← if ← sees (.punctuator .semicolon) then pure .absent
    else Slot.holds <$> g.expression false
  let _ ← expect (.punctuator .semicolon)
  let update ← if ← sees (.punctuator .rightParen) then pure .absent
    else Slot.holds <$> g.expression false
  let _ ← expect (.punctuator .rightParen)
  let body ← g.statement c.loop
  return .forLoop (← spanFrom start) init test update body

/-- A loop whose head starts with a declaration. -/
def forVariables (g : Grammar) (c : Context) (start : Place) : Parse Stmt := do
  let (headStart, list) ← g.declarators true
  let head := ForHead.declaration (← spanFrom headStart) "var" list
  if ← sees (.keyword .kwIn) then
    if list.length ≠ 1 then
      failAt (← current) "for-in loop variable declaration may declare only one variable"
    g.forInRest c start head
  else g.forRest c start head

/-- A loop whose head starts with an expression. -/
def forExpression (g : Grammar) (c : Context) (start : Place) : Parse Stmt := do
  let first ← current
  let e ← g.expression true
  if ← sees (.keyword .kwIn) then
    if !e.isAssignable then failAt first "invalid left-hand side in for-in"
    g.forInRest c start (.expression (.holds e))
  else g.forRest c start (.expression (.holds e))

/-- A `for` loop of either sort. -/
def forStatement (g : Grammar) (c : Context) : Parse Stmt := do
  let start ← position
  let _ ← expect (.keyword .kwFor)
  let _ ← expect (.punctuator .leftParen)
  match (← current).type with
  | .punctuator .semicolon => g.forRest c start .absent
  | .keyword .kwVar => g.forVariables c start
  | _ => g.forExpression c start

/-- The label of a jump, which stands on the line of its word and names an enclosing statement. -/
def jumpLabel (c : Context) : Parse (Option Ident) := do
  let t ← current
  if t.type ≠ .identifier || t.newlineBefore then return none
  let label ← name
  if !c.labels.contains label.name then
    failAt t (Bytes.cat ["undefined label '", label.name, "'"])
  return some label

/-- A `continue`. -/
def continueStatement (c : Context) : Parse Stmt := do
  let start ← position
  let word ← expect (.keyword .kwContinue)
  let label ← jumpLabel c
  if !c.inLoop then failAt word "continue must be inside a loop"
  semicolon
  return .continueTo (← spanFrom start) label

/-- A `break`. -/
def breakStatement (c : Context) : Parse Stmt := do
  let start ← position
  let word ← expect (.keyword .kwBreak)
  let label ← jumpLabel c
  if label.isNone && !c.inLoop && !c.inSwitch then
    failAt word "break must be inside a loop or switch"
  semicolon
  return .breakTo (← spanFrom start) label

/-- A `return`. -/
def returnStatement (g : Grammar) (c : Context) : Parse Stmt := do
  let start ← position
  let word ← expect (.keyword .kwReturn)
  if !c.inFunction then failAt word "return outside of function"
  let argument ← if ← atStatementEnd then pure .absent else Slot.holds <$> g.expression false
  semicolon
  return .returnValue (← spanFrom start) argument

/-- A `with`. -/
def withStatement (g : Grammar) (c : Context) : Parse Stmt := do
  let start ← position
  let _ ← expect (.keyword .kwWith)
  let object ← g.parenthesized
  let body ← g.statement c
  return .withObject (← spanFrom start) (.holds object) body

/-- Does the current token end the statements of a clause? -/
def atClauseEnd : Parse Bool := do
  match (← current).type with
  | .keyword .kwCase | .keyword .kwDefault | .punctuator .rightBrace => return true
  | _ => return false

/-- The test of a clause, which a default clause lacks. There may be one default clause. -/
def caseTest (g : Grammar) (sawDefault : Bool) : Parse Slot := do
  let t ← current
  match t.type with
  | .keyword .kwCase =>
    let _ ← advance
    Slot.holds <$> g.expression false
  | .keyword .kwDefault =>
    if sawDefault then failAt t "more than one default clause in switch statement"
    let _ ← advance
    return .absent
  | _ => unexpected "'case', 'default' or '\x7d'"

/-- A clause of a switch. -/
def clause (g : Grammar) (c : Context) (sawDefault : Bool) : Parse Case := do
  let start ← position
  let test ← g.caseTest sawDefault
  let _ ← expect (.punctuator .colon)
  let consequent ← many atClauseEnd (g.inBlock c)
  return .clause (← spanFrom start) test consequent

/-- The clauses of a switch up to its closing brace, in at most so many rounds. -/
def casesIn (g : Grammar) (c : Context) : Nat → Bool → Parse (List Case)
  | 0, _ => unexpected []
  | n + 1, sawDefault => do
    if ← accept (.punctuator .rightBrace) then return []
    let clause ← g.clause c sawDefault
    return clause :: (← g.casesIn c n (sawDefault || clause.isDefault))

/-- A `switch`. -/
def switchStatement (g : Grammar) (c : Context) : Parse Stmt := do
  let start ← position
  let _ ← expect (.keyword .kwSwitch)
  let discriminant ← g.parenthesized
  let _ ← expect (.punctuator .leftBrace)
  let cases ← g.casesIn c.switch (← rounds) false
  return .switchOn (← spanFrom start) (.holds discriminant) cases

/-- A `throw`, whose argument starts on its line. -/
def throwStatement (g : Grammar) : Parse Stmt := do
  let start ← position
  let _ ← expect (.keyword .kwThrow)
  let t ← current
  if t.newlineBefore then failAt t "illegal newline after throw"
  let e ← g.expression false
  semicolon
  return .throwValue (← spanFrom start) (.holds e)

/-- The handler of a try statement, if there is one. -/
def catchClause (g : Grammar) (c : Context) : Parse Handler := do
  if ← sees (.keyword .kwCatch) then
    let start ← position
    let _ ← advance
    let _ ← expect (.punctuator .leftParen)
    let param ← name
    let _ ← expect (.punctuator .rightParen)
    let (span, body) ← g.block c
    let whole ← spanFrom start
    let target ← inSlot (.ident param)
    return .clause whole (.holds target) (.braces span body)
  else return .absent

/-- A `try` with a handler, a finalizer, or both. -/
def tryStatement (g : Grammar) (c : Context) : Parse Stmt := do
  let start ← position
  let word ← expect (.keyword .kwTry)
  let (span, body) ← g.block c
  let handler ← g.catchClause c
  if ← accept (.keyword .kwFinally) then
    let (finalSpan, finalBody) ← g.block c
    return .tryCatch (← spanFrom start) (.braces span body) handler (.braces finalSpan finalBody)
  else
    match handler with
    | .absent => failAt word "missing catch or finally after try"
    | handler => return .tryCatch (← spanFrom start) (.braces span body) handler .absent

/-- A `debugger`. -/
def debuggerStatement : Parse Stmt := do
  let start ← position
  let _ ← advance
  semicolon
  return .debugger (← spanFrom start)

/-- A function as a statement. -/
def functionDeclaration (g : Grammar) : Parse Stmt := do
  let start ← position
  let _ ← expect (.keyword .kwFunction)
  let id ← name
  let fn ← g.functionRest (some id)
  return .function (← spanFrom start) fn

/-- A labelled statement. A label may not be nested in itself. -/
def labeledStatement (g : Grammar) (c : Context) : Parse Stmt := do
  let start ← position
  let t ← current
  let label ← name
  let _ ← expect (.punctuator .colon)
  if c.labels.contains label.name then
    failAt t (Bytes.cat ["label '", label.name, "' has already been declared"])
  let body ← g.statement (c.label label.name)
  return .labeled (← spanFrom start) (some label) body

/-- A statement. -/
def statementRule (g : Grammar) (c : Context) : Parse Stmt := do
  match (← current).type with
  | .punctuator .leftBrace => g.blockStatement c
  | .keyword .kwVar => g.variableStatement
  | .punctuator .semicolon => emptyStatement
  | .keyword .kwIf => g.ifStatement c
  | .keyword .kwFor => g.forStatement c
  | .keyword .kwWhile => g.whileStatement c
  | .keyword .kwDo => g.doWhileStatement c
  | .keyword .kwContinue => continueStatement c
  | .keyword .kwBreak => breakStatement c
  | .keyword .kwReturn => g.returnStatement c
  | .keyword .kwWith => g.withStatement c
  | .keyword .kwSwitch => g.switchStatement c
  | .keyword .kwThrow => g.throwStatement
  | .keyword .kwTry => g.tryStatement c
  | .keyword .kwDebugger => debuggerStatement
  | .keyword .kwFunction => g.functionDeclaration
  | .identifier =>
    match (← get).upcoming.head? with
    | some t => if t.type = .punctuator .colon then g.labeledStatement c else g.expressionStatement
    | none => g.expressionStatement
  | _ => g.expressionStatement

/-- The rules around rules for what is nested in them. -/
def around (g : Grammar) : Grammar where
  assignment := g.assignmentRule
  binary := g.binaryRule
  unary := g.unaryRule
  construct := g.constructRule
  statement := g.statementRule

/-- The rules for texts nested at most so deep. -/
def nested : Nat → Grammar
  | 0 => empty
  | n + 1 => (nested n).around

/-- Statements up to the end of input. -/
def program (g : Grammar) : Parse Program := do
  let start ← position
  let body ← many (sees .endOfInput) (g.statement Context.program)
  return ⟨⟨start, ← position⟩, body⟩

end Grammar

/-! ### Programs -/

namespace Lexer

/-- The tokens of a text without comments, and the lexical error after them. -/
def significant [PatternCheck] (l : Lexer) : List Token × Option Diagnostic :=
  let steps := l.run
  (steps.map (·.1) |>.filter fun t => t.type ≠ .illegal && t.type ≠ .comment,
    steps.getLast?.bind (·.2.failure))

end Lexer

namespace Program

/-- The program that a lexer's text reads as, and the count of nodes after the attempt. -/
def readFrom [PatternCheck] (census : Census) (l : Lexer) : Except Diagnostic Program × Census :=
  let (tokens, failure) := l.significant
  match Stream.start l.source census tokens failure with
  | .error d => (.error d, census)
  | .ok stream =>
    match (Grammar.nested (tokens.length + 1)).program stream with
    | .ok program after => (.ok program, after.census)
    | .error d after => (.error d, after.census)

/-- Reads a source as a program, or gives the first error. -/
def parse [PatternCheck] (source : Source) : Except Diagnostic Program :=
  (readFrom {} (Lexer.ofSource source)).1

end Program

end ScriptOptimizer
