import ScriptOptimizer.Parse.Grammar
import ScriptOptimizer.Syntax.Node
import ScriptOptimizer.Syntax.Precedence

/-!
The rules for expressions, functions included.
-/

namespace ScriptOptimizer

/-- May the expression be assigned to? -/
def Expr.isAssignable : Expr → Bool
  | .ident _ | .member _ _ _ _ => true
  | _ => false

/-- What a literal token denotes. -/
def Token.literalValue (t : Token) : LiteralValue :=
  match t.type with
  | .number => .number t.number
  | .string => .string t.value
  | .regex => .regexp t.value t.flags
  | .keyword .kwNull => .null
  | .keyword .kwTrue => .boolean true
  | .keyword .kwFalse => .boolean false
  | _ => .invalid

namespace Parse

/-- The literal of a token. -/
def literalAt (t : Token) : Parse Expr := do
  modify fun s => { s with census := s.census.addLiteral }
  return .literal ⟨t.span, t.literal, t.literalValue⟩

/-- An element of an array and the comma after it, which alone leaves a hole. -/
def element (item : Parse Expr) : Parse Slot := do
  if ← accept (.punctuator .comma) then return .absent
  withComma item (.punctuator .rightBracket) .holds

end Parse

namespace Grammar

open Parse

/-- Assignments separated by commas. -/
def expression (g : Grammar) (noIn : Bool) : Parse Expr := do
  let first ← g.assignment noIn
  if ← sees (.punctuator .comma) then
    let rest ← many (return !(← accept (.punctuator .comma))) (g.assignment noIn)
    inSlot (.sequence (← spanFrom first.span.start) ((first :: rest).map .holds))
  else return first

/-- A statement in braces, where the input may not end. -/
def inBlock (g : Grammar) (c : Context) : Parse Stmt := do
  if ← sees .endOfInput then unexpected "'\x7d'" else g.statement c

/-- A block of statements. -/
def block (g : Grammar) (c : Context) : Parse (Span × List Stmt) := do
  let start ← position
  let _ ← expect (.punctuator .leftBrace)
  let body ← many (sees (.punctuator .rightBrace)) (g.inBlock c)
  let _ ← advance
  return (← spanFrom start, body)

/-- The parameters and the body of a function. -/
def functionRest (g : Grammar) (id : Option Ident) : Parse Function := do
  let _ ← expect (.punctuator .leftParen)
  let params ← commaSeparated (.punctuator .rightParen) do inSlot (.ident (← name))
  let (span, body) ← g.block Context.function
  return .mk id (params.map .holds) [] none (.braces span body) false

/-- A function used as a value. -/
def functionExpression (g : Grammar) : Parse Expr := do
  let start ← position
  let _ ← advance
  let id ← if ← sees .identifier then some <$> name else pure none
  let fn ← g.functionRest id
  inSlot (.function (← spanFrom start) fn)

/-- The elements of an array. -/
def arrayLiteral (g : Grammar) : Parse Expr := do
  let start ← position
  let _ ← expect (.punctuator .leftBracket)
  let elements ← many (accept (.punctuator .rightBracket)) (element (g.assignment false))
  inSlot (.array (← spanFrom start) elements)

/-- The key of an entry: a string, a number, or any word. -/
def propertyKey : Parse Expr := do
  let t ← current
  match t.type with
  | .string | .number =>
    let _ ← advance
    inSlot (← literalAt t)
  | .identifier => inSlot (.ident (← name))
  | .keyword _ =>
    let _ ← advance
    inSlot (.ident (← nameAt t t.literal))
  | _ => unexpected "property name"

/-- The rest of an accessor after its word. -/
def accessor (g : Grammar) (start : Place) (word : Token) : Parse Property := do
  let _ ← advance
  let key ← propertyKey
  let fnStart ← position
  let fn ← g.functionRest none
  let count := match fn with
    | .mk _ params _ _ _ _ => params.length
  if word.value = Bytes.ofString "get" && count ≠ 0 then
    failAt word "getter must not have parameters"
  if word.value = Bytes.ofString "set" && count ≠ 1 then
    failAt word "setter must have exactly one parameter"
  let value ← inSlot (.function (← spanFrom fnStart) fn)
  return .entry (← spanFrom start) word.value (.holds key) (.holds value) false false

/-- May the word `get` or `set` before this token be a key? -/
def endsKey (t : Option Token) : Bool :=
  match t with
  | some t => t.type = .punctuator .colon || t.type = .punctuator .comma ||
      t.type = .punctuator .rightBrace
  | none => false

/-- An entry of an object: a key with a value, or an accessor. -/
def property (g : Grammar) : Parse Property := do
  let start ← position
  let word ← current
  let isAccessor := word.type = .identifier &&
    (word.value = Bytes.ofString "get" || word.value = Bytes.ofString "set") &&
    !endsKey (← get).upcoming.head?
  if isAccessor then g.accessor start word
  else
    let key ← propertyKey
    let _ ← expect (.punctuator .colon)
    let value ← g.assignment false
    return .entry (← spanFrom start) "init" (.holds key) (.holds value) false false

/-- The entries of an object. -/
def objectLiteral (g : Grammar) : Parse Expr := do
  let start ← position
  let _ ← expect (.punctuator .leftBrace)
  let entries ← many (accept (.punctuator .rightBrace))
    (withComma g.property (.punctuator .rightBrace) id)
  inSlot (.object (← spanFrom start) entries)

/-- Names, literals, functions, arrays, objects and what stands in parentheses. -/
def primary (g : Grammar) : Parse Expr := do
  let t ← current
  match t.type with
  | .identifier => inSlot (.ident (← name))
  | .keyword .kwThis =>
    let _ ← advance
    inSlot (.this t.span)
  | .number | .string | .regex | .keyword .kwNull | .keyword .kwTrue | .keyword .kwFalse =>
    let _ ← advance
    inSlot (← literalAt t)
  | .punctuator .leftParen =>
    let _ ← advance
    let e ← g.expression false
    let _ ← expect (.punctuator .rightParen)
    return e
  | .punctuator .leftBracket => g.arrayLiteral
  | .punctuator .leftBrace => g.objectLiteral
  | .keyword .kwFunction => g.functionExpression
  | _ => unexpected []

/-- The arguments of a call. -/
def arguments (g : Grammar) : Parse (List Slot) := do
  let _ ← expect (.punctuator .leftParen)
  let list ← commaSeparated (.punctuator .rightParen) (g.assignment false)
  return list.map .holds

/-- One more member access, or call where calls are allowed, applied to an expression. -/
def memberStep (g : Grammar) (calls : Bool) (e : Expr) : Parse (Option Expr) := do
  let start := e.span.start
  match (← current).type with
  | .punctuator .dot =>
    let _ ← advance
    let id ← name
    let span ← spanFrom start
    let property ← inSlot (.ident id)
    modify fun s => { s with census := s.census.addMember }
    some <$> inSlot (.member span (.holds e) (.holds property) false)
  | .punctuator .leftBracket =>
    let _ ← advance
    let property ← g.expression false
    let _ ← expect (.punctuator .rightBracket)
    let span ← spanFrom start
    modify fun s => { s with census := s.census.addMember }
    some <$> inSlot (.member span (.holds e) (.holds property) true)
  | .punctuator .leftParen =>
    if calls then
      let list ← g.arguments
      let span ← spanFrom start
      modify fun s => { s with census := s.census.addCall }
      some <$> inSlot (.call span (.holds e) list)
    else return none
  | _ => return none

/-- The member accesses and calls after an expression. -/
def memberTail (g : Grammar) (calls : Bool) (e : Expr) : Parse Expr :=
  extend (g.memberStep calls) e

/-- A construction. The callee takes member accesses but no calls. -/
def constructRule (g : Grammar) : Parse Expr := do
  let start ← position
  let _ ← expect (.keyword .kwNew)
  let head ← if ← sees (.keyword .kwNew) then g.construct else g.primary
  let callee ← g.memberTail false head
  let list ← if ← sees (.punctuator .leftParen) then g.arguments else pure []
  inSlot (.construct (← spanFrom start) (.holds callee) list)

/-- Member accesses, calls and constructions. -/
def leftHandSide (g : Grammar) : Parse Expr := do
  let head ← if ← sees (.keyword .kwNew) then g.constructRule else g.primary
  g.memberTail true head

/-- An operand with `++` or `--` after it on the same line. -/
def afterOperand (g : Grammar) : Parse Expr := do
  let first ← current
  let e ← g.leftHandSide
  let t ← current
  if (t.type = .punctuator .increment || t.type = .punctuator .decrement) && !t.newlineBefore then
    if !e.isAssignable then failAt first "invalid left-hand side in postfix operation"
    let _ ← advance
    inSlot (.update (← spanFrom e.span.start) t.literal false (.holds e))
  else return e

/-- An operand with operators before it. -/
def unaryRule (g : Grammar) : Parse Expr := do
  let t ← current
  match t.type with
  | .punctuator .bang | .punctuator .tilde | .punctuator .plus | .punctuator .minus
  | .keyword .kwTypeof | .keyword .kwVoid | .keyword .kwDelete =>
    let _ ← advance
    let e ← g.unary
    inSlot (.unary (← spanFrom t.startPlace) t.literal (.holds e))
  | .punctuator .increment | .punctuator .decrement =>
    let _ ← advance
    let first ← current
    let e ← g.unary
    if !e.isAssignable then failAt first "invalid left-hand side in prefix operation"
    inSlot (.update (← spanFrom t.startPlace) t.literal true (.holds e))
  | _ => g.afterOperand

/-- How tightly a token binds as a binary operator, where a bare `in` may be none. -/
def precedenceOf (noIn : Bool) (t : Token) : Nat :=
  if noIn && t.type = .keyword .kwIn then 0 else t.type.precedence

/-- One more binary operator that binds at least as tightly as wanted, with its right operand. -/
def binaryStep (g : Grammar) (least : Nat) (noIn : Bool) (left : Expr) : Parse (Option Expr) := do
  let operator ← current
  let precedence := precedenceOf noIn operator
  if precedence = 0 || precedence < least then return none
  let _ ← advance
  let right ← g.binary (precedence + 1) noIn
  let span := Span.join left.span right.span
  match operator.type with
  | .punctuator .andAnd | .punctuator .orOr =>
    some <$> inSlot (.logical span operator.literal (.holds left) (.holds right))
  | _ =>
    modify fun s => { s with census := s.census.addBinary }
    some <$> inSlot (.binary span operator.literal (.holds left) (.holds right))

/-- Operands joined by operators that bind at least as tightly as wanted, grouped to the left. -/
def binaryRule (g : Grammar) (least : Nat) (noIn : Bool) : Parse Expr := do
  let left ← g.unaryRule
  extend (g.binaryStep least noIn) left

/-- A conditional. -/
def conditional (g : Grammar) (noIn : Bool) : Parse Expr := do
  let test ← g.binaryRule 1 noIn
  if ← accept (.punctuator .question) then
    let consequent ← g.assignment false
    let _ ← expect (.punctuator .colon)
    let alternate ← g.assignment noIn
    inSlot (.conditional (Span.join test.span alternate.span) (.holds test) (.holds consequent)
      (.holds alternate))
  else return test

/-- An assignment, which groups to the right. -/
def assignmentRule (g : Grammar) (noIn : Bool) : Parse Expr := do
  let first ← current
  let left ← g.conditional noIn
  let operator ← current
  if operator.type.isAssignment then
    if !left.isAssignable then failAt first "invalid assignment target"
    let _ ← advance
    let right ← g.assignment noIn
    inSlot (.assign (Span.join left.span right.span) operator.literal (.holds left) (.holds right))
  else return left

end Grammar

end ScriptOptimizer
