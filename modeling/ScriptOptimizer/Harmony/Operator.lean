import ScriptOptimizer.Harmony.Member

/-!
The rules for operators, from those that bind tightest to assignments and arrow functions.
-/

namespace ScriptOptimizer.Harmony

namespace Rules

open Reader

/-- Reports `=`, `++` and the like on what cannot be assigned to. -/
def invalidTarget (offset : Int) : Reader Expression := do
  report offset "Invalid left-hand side in assignment"
  passOver

/-- Is it `++` or `--`? -/
def isStep : Lexeme → Bool
  | .mark .increment | .mark .decrement => true
  | _ => false

/-- An operand with `++` or `--` on one side. After it, they have to stand on its line. -/
def update (r : Rules) : Reader Expression := do
  let t ← current
  if isStep t.lexeme then
    let _ ← advance
    let e ← r.unary
    if !e.isAssignable then return ← invalidTarget t.start
    return .update ⟨t.start, e.range.stop⟩ t.lexeme.text false e
  let e ← r.leftHandSideRule
  let t ← current
  if isStep t.lexeme && !t.afterBreak then
    let _ ← advance
    if !e.isAssignable then return ← invalidTarget t.start
    return .update ⟨e.range.start, e.range.stop + 2⟩ t.lexeme.text true e
  return e

/-- Is it an operator before its operand? -/
def isPrefixOperator : Lexeme → Bool
  | .mark .plus | .mark .minus | .mark .bang | .mark .tilde | .word .kwDelete | .word .kwVoid
  | .word .kwTypeof => true
  | _ => false

/-- An `await` with its operand. -/
def awaitExpression (r : Rules) : Reader Expression := do
  let word ← advance
  if !(← setting).inAsync then
    unexpectedAs .kwAwait
    return .unread
  if (← setting).inParameters then
    report word.start "Illegal await-expression in formal parameters of async function"
  let e ← r.unary
  return .foreign ⟨word.start, e.range.stop⟩ .awaitExpression

/-- An operand with operators before it. -/
def unaryRule (r : Rules) : Reader Expression := do
  let t ← current
  if isPrefixOperator t.lexeme then
    let _ ← advance
    let e ← r.unary
    return .unary ⟨t.start, e.range.stop⟩ t.lexeme.text e
  if t.lexeme = .kwAwait && (← setting).allowAwait then r.awaitExpression
  else r.update

/-- Two operands joined by an operator. -/
def join (operator : Lexeme) (left right : Expression) : Expression :=
  .binary (left.range.to right.range) operator.text left right

/-- Is it an operator other than `++` and `--` before its operand? -/
def isUnary : Expression → Bool
  | .unary _ _ _ => true
  | _ => false

/-- A power, which groups to the right. An operator before its base needs parentheses. -/
def exponentRule (r : Rules) : Reader Expression := do
  let parentheses ← sees (.mark .leftParen)
  let left ← r.unaryRule
  let t ← current
  if t.lexeme = .power && !parentheses && isUnary left then
    report t.start (Bytes.ofString "Unary operator used immediately before exponentiation " ++
      Bytes.ofString "expression. Parenthesis must be used to disambiguate operator precedence")
  extend (fun e => do
    if ← accept .power then return some (join .power e (← r.exponent)) else return none) left

/-- Operands joined by some operators, grouped to the left. -/
def leftGrouped (isOperator : Lexeme → Bool) (operand : Reader Expression) : Reader Expression := do
  let left ← operand
  extend (fun e => do
    let operator ← lexeme
    if isOperator operator then
      let _ ← advance
      return some (join operator e (← operand))
    else return none) left

/-- Products, sums and shifts. -/
def shift (r : Rules) : Reader Expression :=
  let product := leftGrouped
    (fun l => l = .mark .times || l = .mark .divide || l = .mark .remainder) r.exponentRule
  let sum := leftGrouped (fun l => l = .mark .plus || l = .mark .minus) product
  leftGrouped
    (fun l => l = .mark .shiftLeft || l = .mark .shiftRight || l = .mark .shiftRightZero) sum

/-- Is it an operator that compares by order or membership? -/
def isRelation (allowIn : Bool) : Lexeme → Bool
  | .mark .less | .mark .lessEqual | .mark .greater | .mark .greaterEqual | .word .kwInstanceof =>
    true
  | .word .kwIn => allowIn
  | _ => false

/-- A private name, which can be looked for in an object. -/
def privateMembership (r : Rules) : Reader Expression := do
  let t ← advance
  let e := Expression.foreign ⟨t.start, t.start + nameWidth t.value⟩ .privateName
  if ← accept (.word .kwIn) then return join (.word .kwIn) e (← r.shift) else return e

/-- A comparison, which groups to the right; to the right of an operator a bare `in` is one too. -/
def relationalRule (r : Rules) : Reader Expression := do
  let allowIn := (← setting).allowIn
  if allowIn && (← sees .privateName) then return ← r.privateMembership
  let left ← r.shift
  let operator ← lexeme
  if isRelation allowIn operator then
    let _ ← advance
    return join operator left (← within Setting.operand r.relational)
  else return left

/-- Is it an operator that compares by equality? -/
def isEquality : Lexeme → Bool
  | .mark .equal | .mark .notEqual | .mark .strictEqual | .mark .strictNotEqual => true
  | _ => false

/-- Equalities, bitwise operators, and `&&`. -/
def conjunction (r : Rules) : Reader Expression :=
  let equality := leftGrouped isEquality r.relationalRule
  let bitAnd := leftGrouped (· = .mark .bitAnd) equality
  let bitXor := leftGrouped (· = .mark .bitXor) bitAnd
  let bitOr := leftGrouped (· = .mark .bitOr) bitXor
  leftGrouped (· = .mark .andAnd) bitOr

/-- Is it joined by `&&`? -/
def isConjunction : Expression → Bool
  | .binary _ operator _ _ => operator = Bytes.ofString "&&"
  | _ => false

/-- Reports `??` beside `&&` or `||`. Nothing more is joined then. -/
def mixed (offset : Int) : Reader (Option Expression) := do
  report offset (Bytes.ofString "Logical expressions and coalesce expressions cannot be mixed. " ++
    Bytes.ofString "Wrap either by parentheses")
  return none

/-- One more operand after `||`. -/
def orStep (r : Rules) (e : Expression) : Reader (Option Expression) := do
  match ← lexeme with
  | .mark .orOr =>
    let _ ← advance
    return some (join (.mark .orOr) e (← r.conjunction))
  | .coalesce => mixed (← current).start
  | _ => return none

/-- One more operand after `??`. -/
def coalesceStep (r : Rules) (e : Expression) : Reader (Option Expression) := do
  let t ← current
  match t.lexeme with
  | .coalesce =>
    let _ ← advance
    let parentheses ← sees (.mark .leftParen)
    let right ← r.conjunction
    if !parentheses && isConjunction right then mixed t.start
    else return some (join .coalesce e right)
  | .mark .orOr => mixed t.start
  | _ => return none

/-- Operands joined by `||` or by `??`, which may not be mixed. -/
def disjunction (r : Rules) : Reader Expression := do
  let parentheses ← sees (.mark .leftParen)
  let left ← r.conjunction
  if (← sees (.mark .orOr)) || (!parentheses && isConjunction left) then extend r.orStep left
  else extend r.coalesceStep left

/-- A conditional. -/
def conditional (r : Rules) : Reader Expression := do
  let test ← r.disjunction
  if ← accept (.mark .question) then
    let consequent ← within Setting.operand r.assignment
    let _ ← expect (.mark .colon)
    let alternate ← r.assignment
    return .conditional (test.range.to alternate.range) test consequent alternate
  else return test

/-- The arrow of a function and its body: where the body ends. -/
def arrowBody (r : Rules) (async : Bool) : Reader Int := do
  let _ ← expect .arrow
  if ← sees (.mark .leftBrace) then return (← r.functionBlock async async false).range.stop
  else return (← within (Setting.arrowBody async) r.assignment).range.stop

/-- An arrow function whose parameters were read. -/
def arrowFunction (r : Rules) (async : Bool) (start : Nat) : Reader Expression := do
  return .foreign ⟨start, ← r.arrowBody async⟩ .arrowFunction

/-- An asynchronous arrow function with one parameter without parentheses. -/
def asyncArrow (r : Rules) : Reader Expression := do
  let word ← advance
  within Setting.awaiting do
    match ← name? with
    | some _ => r.arrowFunction true word.start
    | none =>
      unexpected
      let _ ← advance
      return .unread

/-- The value of a `yield`, which may be left out. What cannot be read is taken for left out. -/
def yielded (r : Rules) : Reader Expression := do
  if ← atStatementEnd then return .absent
  let origin ← get
  let e ← r.assignment
  if e.isUnread then
    returnTo origin
    return .absent
  return e

/-- A `yield` with an optional value, which starts on its line. -/
def yieldExpression (r : Rules) : Reader Expression := do
  let word ← advance
  if (← setting).inParameters then
    report word.start "Yield expression not allowed in formal parameter"
  if !(← current).afterBreak then
    let _ ← accept (.mark .times)
  let e ← r.yielded
  let stop : Int := if e.isAbsent then word.start + 5 else e.range.stop
  return .foreign ⟨word.start, stop⟩ .yieldExpression

/-- The operator that an assignment computes with: none for a plain one. -/
def assignmentOperator? : Lexeme → Option (Option Bytes)
  | .mark .assign => some none
  | .mark .plusAssign => some (some "+")
  | .mark .minusAssign => some (some "-")
  | .mark .timesAssign => some (some "*")
  | .powerAssign => some (some "**")
  | .mark .divideAssign => some (some "/")
  | .mark .remainderAssign => some (some "%")
  | .mark .bitAndAssign => some (some "&")
  | .mark .bitOrAssign => some (some "|")
  | .mark .bitXorAssign => some (some "^")
  | .mark .shiftLeftAssign => some (some "<<")
  | .mark .shiftRightAssign => some (some ">>")
  | .mark .shiftRightZeroAssign => some (some ">>>")
  | .andAssign => some (some "&&")
  | .orAssign => some (some "||")
  | .coalesceAssign => some (some "??")
  | _ => none

/-- What an assignment can start with that turns out to be the head of an arrow function: items in
parentheses, or a call of `async`. -/
inductive ArrowStart where
  | other
  | items
  | async
deriving DecidableEq, Repr

/-- Reports what stands before an arrow and cannot be parameters. -/
def malformedArrow (left : Expression) : Reader Expression := do
  report left.range.start "Malformed arrow function parameter list"
  return .unread

/-- An arrow function of which what stands before the arrow was read from its place of origin. Items
in parentheses that were read without a fault are checked, others and the arguments of a call of
`async` are read again. -/
def arrowAfter (r : Rules) (origin : Position) (start : ArrowStart) (left : Expression) :
    Reader Expression := do
  let first := origin.token.start
  match left, start with
  | .name _, _ => r.arrowFunction (start = .async) first
  | .sequence _ items, .items =>
    if ← isSound then Expression.checkParameters items
    else
      returnTo origin
      let _ ← r.parameters
    r.arrowFunction false first
  | _, .items =>
    returnTo origin
    let _ ← r.parameters
    r.arrowFunction false first
  | .call _ _ _, .async =>
    within Setting.awaiting do
      returnTo origin
      let _ ← advance
      let _ ← r.parameters
      r.arrowFunction true first
  | _, _ => malformedArrow left

/-- The target of an assignment, if it can be one. Arrays and objects are patterns unless they stand
in parentheses. -/
def assignmentTarget? (parentheses : Bool) (compound : Option Bytes) (left : Expression) :
    Reader (Option Expression) := do
  match left with
  | .array _ _ | .object _ _ =>
    if !parentheses && compound.isNone then some <$> left.assignTarget false else return none
  | _ => return if left.isAssignable then some left else none

/-- An assignment after its left side, or that side alone. -/
def assignmentAfter (r : Rules) (parentheses : Bool) (left : Expression) : Reader Expression := do
  match assignmentOperator? (← lexeme) with
  | some compound =>
    let _ ← advance
    match ← assignmentTarget? parentheses compound left with
    | some target =>
      let right ← r.assignment
      return .assign (target.range.to right.range) compound target right
    | none => invalidTarget left.range.start
  | none => return left

/-- An assignment, which groups to the right, or an arrow function. -/
def assignmentRule (r : Rules) : Reader Expression := do
  let first ← lexeme
  if first = .kwYield && (← setting).allowYield then return ← r.yieldExpression
  let ahead ← if first = .kwAsync then peek else pure .endOfInput
  if first = .kwAsync && (← setting).takesAsName ahead then return ← r.asyncArrow
  let start : ArrowStart :=
    if first = .mark .leftParen then .items
    else if first = .kwAsync && ahead = .mark .leftParen then .async
    else .other
  let origin ← get
  let left ← r.conditional
  if ← sees .arrow then r.arrowAfter origin start left
  else r.assignmentAfter (start = .items) left

end Rules

end ScriptOptimizer.Harmony
