import ScriptOptimizer.Frontend
import ScriptOptimizer.Harmony.Operator
import ScriptOptimizer.SourceMap.Basic

/-!
The rules for statements, and the reading of whole programs with their source maps.
-/

namespace ScriptOptimizer.Harmony

namespace Rules

open Reader

/-- Reports a statement that cannot stand where it does, and passes over it. -/
def illegalStatement (offset : Int) (message : Bytes) : Reader Statement := do
  report offset message
  recover
  return .unread

/-- An expression in parentheses after a word, and where it closes. -/
def condition (r : Rules) : Reader (Expression × Token) := do
  let _ ← expect (.mark .leftParen)
  let e ← r.expression
  let closing ← expect (.mark .rightParen)
  return (e, closing)

/-- Bindings separated by commas. -/
def bindings (r : Rules) : Reader (List Binding) := do
  let first ← r.binding
  let rest ← many (return !(← accept (.mark .comma))) r.binding
  return first :: rest

/-- Is the target a pattern without an initializer? -/
def lacksInitializer : Binding → Bool
  | .bind (.arrayPattern _ _) .absent | .bind (.objectPattern _ _) .absent => true
  | _ => false

/-- Reports the first pattern without an initializer. -/
def checkInitializers (list : List Binding) : Reader Unit := do
  match list.find? lacksInitializer with
  | some b => report b.range.stop "Missing initializer in destructuring declaration"
  | none => return

/-- The end of the last binding. -/
def lastStop (list : List Binding) : Int := (list.getLast?.map (·.range.stop)).getD 0

/-- A declaration of variables after its word. -/
def declarationAfter (r : Rules) (word : Token) (kind : DeclarationKind) : Reader Statement := do
  let list ← r.bindings
  checkInitializers list
  semicolon
  return .declaration ⟨word.start, lastStop list⟩ kind list

/-- A declaration of variables that may stand anywhere. -/
def variableDeclaration (r : Rules) : Reader Statement := do
  let word ← advance
  r.declarationAfter word .varKind

/-- A declaration that cannot be the body of another statement. -/
def lexicalDeclaration (r : Rules) (kind : DeclarationKind) : Reader Statement := do
  let word ← advance
  if !(← get).declares then
    report word.start "Lexical declaration cannot appear in a single-statement context"
  r.declarationAfter word kind

/-- The body of an `if` or a `do`, whose braces do not make declarations in it any less allowed. -/
def branch (r : Rules) : Reader Statement := do
  if ← sees (.mark .leftBrace) then .block <$> r.block else r.nestedStatement

/-- The body of a loop. -/
def loopBody (r : Rules) : Reader Statement := within Setting.loop r.nestedStatement

/-- An `if` with an optional `else`. Where it starts is not kept. -/
def ifStatement (r : Rules) : Reader Statement := do
  let _ ← advance
  let (test, _) ← r.condition
  let consequent ← r.branch
  if ← accept (.word .kwElse) then
    let alternate ← r.nestedStatement
    return .conditional ⟨-1, alternate.range.stop⟩ test consequent alternate
  else return .conditional ⟨-1, consequent.range.stop⟩ test consequent .absent

/-- A `while` loop. -/
def whileStatement (r : Rules) : Reader Statement := do
  let word ← advance
  let (test, _) ← r.condition
  let body ← r.loopBody
  return .whileLoop ⟨word.start, body.range.stop⟩ test body

/-- A `do` loop. The semicolon after it may always be left out. -/
def doWhileStatement (r : Rules) : Reader Statement :=
  within Setting.loop do
    let word ← advance
    let body ← r.branch
    let _ ← expect (.word .kwWhile)
    let (test, closing) ← r.condition
    let _ ← accept (.mark .semicolon)
    return .doWhile ⟨word.start, closing.start + 1⟩ body test

/-- A `with`. -/
def withStatement (r : Rules) : Reader Statement := do
  let word ← advance
  let (object, _) ← r.condition
  let body ← r.nestedStatement
  return .withObject ⟨word.start, body.range.stop⟩ object body

/-- The ways in which the head of a loop can go on. -/
inductive LoopSort where
  | steps
  | keys
  | values
deriving DecidableEq, Repr

/-- How the head of a loop goes on, with the word that says so read. -/
def loopSort : Reader LoopSort := do
  let t ← current
  if t.lexeme = .word .kwIn then
    let _ ← advance
    return .keys
  else if t.lexeme = .name && t.raw = Bytes.ofString "of" then
    let _ ← advance
    return .values
  else return .steps

/-- The rest of a loop over keys. -/
def forInRest (r : Rules) (start : Nat) (head : LoopHead) : Reader Statement := do
  let source ← r.expression
  let _ ← expect (.mark .rightParen)
  let body ← r.loopBody
  return .forIn ⟨start, body.range.stop⟩ head source body

/-- The rest of a loop over values. -/
def forOfRest (r : Rules) (start : Nat) : Reader Statement := do
  let _ ← r.assignment
  let _ ← expect (.mark .rightParen)
  let body ← r.loopBody
  return .forOf ⟨start, body.range.stop⟩

/-- The rest of a loop after the first part of its head. -/
def forRest (r : Rules) (start : Nat) (init : LoopHead) : Reader Statement := do
  let _ ← expect (.mark .semicolon)
  let test ← if ← sees (.mark .semicolon) then pure .absent else r.expression
  let _ ← expect (.mark .semicolon)
  let update ← if ← sees (.mark .rightParen) then pure .absent else r.expression
  let _ ← expect (.mark .rightParen)
  let body ← r.loopBody
  return .forLoop ⟨start, body.range.stop⟩ init test update body

/-- The rest of a loop of any sort. -/
def loopRest (r : Rules) (start : Nat) (sort : LoopSort) (head : LoopHead) : Reader Statement :=
  match sort with
  | .steps => r.forRest start head
  | .keys => r.forInRest start head
  | .values => r.forOfRest start

/-- The range of the declaration in a loop over keys is that of its binding, and the list of an
older declaration starts nowhere. -/
def headRange (sort : LoopSort) (kind : DeclarationKind) (start : Nat) (list : List Binding) :
    Range :=
  match sort, kind, list with
  | .keys, _, [b] => b.range
  | _, .varKind, _ => ⟨-1, lastStop list⟩
  | _, _, _ => ⟨start, lastStop list⟩

/-- Reports what cannot be in the declaration of a loop of this sort. -/
def checkHead (sort : LoopSort) (list : List Binding) : Reader Unit := do
  match sort, list with
  | .steps, _ => checkInitializers list
  | _, .bind _ initializer :: _ =>
    if !initializer.isAbsent then
      report initializer.range.start "for-in loop variable declaration may not have an initializer"
  | _, [] => return

/-- A loop whose head starts with a declaration. -/
def forVariables (r : Rules) (start : Nat) (kind : DeclarationKind) : Reader Statement := do
  let word ← advance
  let list ← within Setting.loopHead r.bindings
  let sort ← if list.length = 1 then loopSort else pure .steps
  checkHead sort list
  r.loopRest start sort (.declaration (headRange sort kind word.start list) kind list)

/-- An expression that takes the keys or values of a loop, if it can. -/
def loopTarget? (e : Expression) : Reader (Option Expression) := do
  match e with
  | .array _ _ | .object _ _ => some <$> e.assignTarget false
  | _ => return if e.isAssignable then some e else none

/-- A loop whose head starts with an expression. -/
def forExpression (r : Rules) (start : Nat) : Reader Statement := do
  let e ← within Setting.loopHead r.expression
  let sort ← loopSort
  if sort = .steps then r.loopRest start sort (.expression e)
  else
    match ← loopTarget? e with
    | some target => r.loopRest start sort (.expression target)
    | none => illegalStatement start "Invalid left-hand side in for-in or for-of"

/-- Does `let` start a declaration in the head of a loop? -/
def letStartsHead : Reader Bool := do
  match ← peek with
  | .name | .mark .leftBracket | .mark .leftBrace => return true
  | _ => return false

/-- A `for` loop of any sort. -/
def forStatement (r : Rules) : Reader Statement := do
  let word ← advance
  let _ ← expect (.mark .leftParen)
  match ← lexeme with
  | .mark .semicolon => r.forRest word.start .absent
  | .word .kwVar => r.forVariables word.start .varKind
  | .word .kwConst => r.forVariables word.start .constKind
  | .kwLet =>
    if ← letStartsHead then r.forVariables word.start .letKind
    else r.forExpression word.start
  | _ => r.forExpression word.start

/-- Does a jump stand without a label? -/
def atJumpEnd : Reader Bool := do
  let afterBreak ← endAtBreak
  if ← accept (.mark .semicolon) then return true
  return afterBreak || (← sees (.mark .rightBrace))

/-- Reports the label of a jump that no enclosing statement has. -/
def undefinedLabel (offset : Int) (label : Name) : Reader Statement := do
  report offset (Bytes.cat ["Undefined label '", label.text, "'"])
  return .unread

/-- A `break`. -/
def breakStatement : Reader Statement := do
  let word ← advance
  let setting ← setting
  let illegal := illegalStatement word.start "Illegal break statement"
  if ← atJumpEnd then
    if setting.inLoop || setting.inSwitch then
      return .breakTo ⟨word.start, word.start + 5⟩ none
    else illegal
  else
    match ← requiredName with
    | none => illegal
    | some label =>
      if setting.labels.contains label.text then
        semicolon
        return .breakTo ⟨word.start, label.range.stop⟩ (some label)
      else undefinedLabel word.start label

/-- A `continue`. -/
def continueStatement : Reader Statement := do
  let word ← advance
  let setting ← setting
  let illegal := illegalStatement word.start "Illegal continue statement"
  if ← atJumpEnd then
    if setting.inLoop then return .continueTo ⟨word.start, word.start + 8⟩ none else illegal
  else
    match ← requiredName with
    | none => illegal
    | some label =>
      if !setting.labels.contains label.text then undefinedLabel word.start label
      else if setting.inLoop then
        semicolon
        return .continueTo ⟨word.start, label.range.stop⟩ (some label)
      else illegal

/-- A `return`. -/
def returnStatement (r : Rules) : Reader Statement := do
  let word ← advance
  if !(← setting).inFunction then
    return ← illegalStatement word.start "Illegal return statement"
  let argument ← if ← atStatementEnd then pure .absent else r.expression
  semicolon
  let stop : Int := if argument.isAbsent then word.start + 6 else argument.range.stop
  return .returnValue ⟨word.start, stop⟩ argument

/-- A `throw`, whose argument starts on its line. -/
def throwStatement (r : Rules) : Reader Statement := do
  let word ← advance
  if (← current).afterBreak then
    let message := if (← get).scanner.rest.isEmpty then "Unexpected end of input"
      else "Illegal newline after throw"
    return ← illegalStatement word.start message
  let argument ← r.expression
  semicolon
  return .throwValue ⟨word.start, argument.range.stop⟩ argument

/-- A `debugger`. -/
def debuggerStatement : Reader Statement := do
  let word ← advance
  semicolon
  return .debugger ⟨word.start, word.start + 8⟩

/-- Does the current token end the statements of a clause? -/
def atClauseEnd : Reader Bool := do
  match ← lexeme with
  | .endOfInput | .mark .rightBrace | .word .kwCase | .word .kwDefault => return true
  | _ => return false

/-- The test of a clause, which is absent from a default clause. -/
def clauseTest (r : Rules) : Reader Expression := do
  if ← accept (.word .kwDefault) then return .absent
  let _ ← expect (.word .kwCase)
  r.expression

/-- A clause of a switch. There may be one default clause. -/
def clause (r : Rules) (sawDefault : Bool) : Reader (Case × Bool) := do
  let word ← current
  let test ← r.clauseTest
  let _ ← expect (.mark .colon)
  let body ← many atClauseEnd r.listed
  if test.isAbsent && sawDefault then report word.start "Already saw a default in switch"
  return (.clause word.start test body, sawDefault || test.isAbsent)

/-- The clauses of a switch and the end of its closing brace, in at most so many rounds. The brace
may be missing at the end of input; the switch then ends where the text starts. -/
def clausesIn (r : Rules) : Nat → Bool → Reader (List Case × Int)
  | 0, _ => return ([], 0)
  | n + 1, sawDefault => do
    let t ← current
    if t.lexeme = .endOfInput then return ([], 0)
    if ← accept (.mark .rightBrace) then return ([], t.start + 1)
    let (first, sawDefault) ← r.clause sawDefault
    let (rest, stop) ← r.clausesIn n sawDefault
    return (first :: rest, stop)

/-- A `switch`. -/
def switchStatement (r : Rules) : Reader Statement := do
  let word ← advance
  let (discriminant, _) ← r.condition
  let _ ← expect (.mark .leftBrace)
  let (cases, stop) ← within Setting.switch do r.clausesIn (← rounds) false
  return .switchOn ⟨word.start, stop⟩ discriminant cases

/-- The parameter of a handler, which may be left out. -/
def catchParameter (r : Rules) : Reader Expression := do
  if ← accept (.mark .leftParen) then
    let t ← r.target
    let _ ← expect (.mark .rightParen)
    return t
  else return .absent

/-- The handler of a try statement, if there is one. -/
def catchClause (r : Rules) : Reader Handler := do
  let word ← current
  if ← accept (.word .kwCatch) then
    let param ← r.catchParameter
    let body ← r.block
    return .clause ⟨word.start, body.range.stop⟩ param body
  else return .absent

/-- The end of a try statement: that of its last block. -/
def tryStop (block : Block) (handler : Handler) (finalizer : Block) : Int :=
  match finalizer, handler with
  | .braces range _, _ => range.stop
  | .absent, .clause range _ _ => range.stop
  | .absent, .absent => block.range.stop

/-- A `try` with a handler, a finalizer, or both. -/
def tryStatement (r : Rules) : Reader Statement := do
  let word ← advance
  let block ← r.block
  let handler ← r.catchClause
  let finalizer ← if ← accept (.word .kwFinally) then r.block else pure .absent
  match handler, finalizer with
  | .absent, .absent =>
    report word.start "Missing catch or finally after try"
    return .unread
  | _, _ => return .tryCatch ⟨word.start, tryStop block handler finalizer⟩ block handler finalizer

/-- The statement after a label and its colon. -/
def labeledStatement (r : Rules) (label : Name) : Reader Statement := do
  let _ ← expect (.mark .colon)
  if (← setting).labels.contains label.text then
    report label.start (Bytes.cat ["Label '", label.text, "' already exists"])
  let body ← within (Setting.label label.text) r.nestedStatement
  return .labeled ⟨label.start, body.range.stop⟩ label body

/-- A statement that starts with an expression: a labelled one if that is a name before a colon. -/
def expressionStatement (r : Rules) : Reader Statement := do
  let e ← r.expression
  match e, ← lexeme with
  | .name label, .mark .colon => r.labeledStatement label
  | _, _ =>
    optionalSemicolon
    return .expression e

/-- A statement that starts with `let`, which may also be a name. -/
def letStatement (r : Rules) : Reader Statement := do
  let ahead ← peek
  let allowed := (← get).declares
  if ahead = .mark .leftBracket || (allowed && (ahead.isWord || ahead = .mark .leftBrace)) then
    r.lexicalDeclaration .letKind
  else
    modify fun p => { p with scanner := { p.scanner with breakEnds := true } }
    r.expressionStatement

/-- A statement that starts with `async`, a name or an operator. -/
def otherStatement (r : Rules) : Reader Statement := do
  match ← r.asyncFunction? true with
  | some fn => return .function fn
  | none => r.expressionStatement

/-- A statement. -/
def statementRule (r : Rules) : Reader Statement := do
  let t ← current
  match t.lexeme with
  | .endOfInput =>
    unexpected
    return .unread
  | .mark .semicolon =>
    let _ ← advance
    return .empty ⟨t.start, t.start + 1⟩
  | .mark .leftBrace => .block <$> r.block
  | .word .kwIf => r.ifStatement
  | .word .kwDo => r.doWhileStatement
  | .word .kwWhile => r.whileStatement
  | .word .kwFor => r.forStatement
  | .word .kwBreak => breakStatement
  | .word .kwContinue => continueStatement
  | .word .kwDebugger => debuggerStatement
  | .word .kwWith => r.withStatement
  | .word .kwVar => r.variableDeclaration
  | .word .kwConst => r.lexicalDeclaration .constKind
  | .kwLet => r.letStatement
  | .word .kwFunction => .function <$> r.functionLiteral true false t.start
  | .kwClass => return .classDeclaration (← r.classLiteral true)
  | .word .kwSwitch => r.switchStatement
  | .word .kwReturn => r.returnStatement
  | .word .kwThrow => r.throwStatement
  | .word .kwTry => r.tryStatement
  | _ => r.otherStatement

/-- The rules around rules for what is nested in them. -/
def around (r : Rules) : Rules where
  assignment := r.assignmentRule
  relational := r.relationalRule
  exponent := r.exponentRule
  unary := r.unaryRule
  callee := r.calleeRule
  leftHandSide := r.leftHandSideRule
  object := r.objectRule
  statement := r.statementRule

/-- The rules for texts nested at most so deep. -/
def nested : Nat → Rules
  | 0 => empty
  | n + 1 => (nested n).around

/-- Statements up to the end of input. -/
def script (r : Rules) : Reader Script := do
  return ⟨← many (sees .endOfInput) r.listed⟩

end Rules

/-- Why a text gives no script: a fault in it, or a range that ends before it starts. -/
inductive ScriptError where
  | faulty (fault : Fault)
  | collapsed
deriving DecidableEq, Repr

/-- Reads a text as a program, or tells why it is none. A token is nested in at most two rules more
than the one before it. -/
def Script.parse (text : Bytes) : Except ScriptError Script :=
  let (first, scanner) := (Scanner.start text).next ({} : Setting).takesAsName
  let origin : Position := { text, scanner, token := first }
  let (script, position) := (Rules.nested (2 * text.length + 4)).script.run origin
  if position.collapsed then .error .collapsed
  else match position.scanner.fault with
    | some fault => .error (.faulty fault)
    | none => .ok script

/-- A fault by the line and column at which it is in a source. -/
def Fault.failure (source : Source) (f : Fault) : ScriptFailure :=
  let place := source.placeAt f.offset
  .listed place.line place.column f.message

/-- Why the source map of a script cannot be used, as a fault at the end of the script, unless
reading cannot go on without it. -/
def mapFault (source : Source) : SourceMap.Fault → Option Fault
  | .unavailable reason =>
    some ⟨source.content.length, Bytes.ofString "Could not load source map: " ++ reason⟩
  | .malformed reason =>
    some ⟨source.content.length, Bytes.ofString "Could not parse source map: " ++ reason⟩
  | .noChart => none

/-- Reads a source as a script with its source map. A fault in the script comes before one in the
map. -/
def readScript (files : FileTree) (source : Source) :
    Except ScriptFailure (Script × SourceMap) := do
  match Script.parse source.content, SourceMap.ofScript files source.displayName source.content with
  | .error .collapsed, _ => throw .brokenOff
  | script, .error fault =>
    match mapFault source fault, script with
    | none, _ => throw .brokenOff
    | some _, .error (.faulty first) => throw (first.failure source)
    | some fault, _ => throw (fault.failure source)
  | .error (.faulty fault), .ok _ => throw (fault.failure source)
  | .ok script, .ok map => return (script, map)

/-- The places in a source as its map tells them. -/
def placesIn (source : Source) (map : SourceMap) : Places :=
  let lineStarts := source.lineStarts
  fun offset => match map.trace? (Place.ofOffset lineStarts offset) with
    | some place => .ok place
    | none => .error .untold

/-- Scripts as these rules read them, with the places that the source map tells. -/
instance : ScriptReader where
  read files source := do
    let (script, map) ← readScript files source
    return (script, placesIn source map)

end ScriptOptimizer.Harmony
