import ScriptOptimizer.Harmony.Class

/-!
The rules for what operators apply to: operands with the member accesses, calls and constructions
around them.
-/

namespace ScriptOptimizer.Harmony

namespace Rules

open Reader

/-- The arguments of a call up to its closing parenthesis, in at most so many rounds. -/
def argumentsIn (r : Rules) : Nat → Reader (List Expression)
  | 0 => return []
  | n + 1 => do
    if ← sees (.mark .rightParen) then return []
    let e ← r.spreadable
    if ← accept (.mark .comma) then return e :: (← argumentsIn r n)
    return [e]

/-- The arguments of a call and where its parenthesis closes. -/
def arguments (r : Rules) : Reader (List Expression × Nat) := do
  let _ ← expect (.mark .leftParen)
  let list ← r.argumentsIn (← rounds)
  let closing ← expect (.mark .rightParen)
  return (list, closing.start)

/-- A call of an expression. -/
def callOf (r : Rules) (e : Expression) : Reader Expression := do
  let (list, closing) ← r.arguments
  return .call ⟨e.range.start, closing + 1⟩ e list

/-- The member of an expression that the current word names. -/
def wordMember (e : Expression) : Reader Expression := do
  let t ← current
  if t.lexeme.isWord then
    let _ ← advance
    let property : Name := ⟨t.start, t.value⟩
    return .dot (e.range.to property.range) e property
  else missingName

/-- The member of an expression that is named after the current token. -/
def dotMember (e : Expression) : Reader Expression := do
  let _ ← advance
  let t ← current
  if t.lexeme = .privateName then
    let _ ← advance
    return .foreign ⟨e.range.start, t.start + nameWidth t.value⟩ .privateMember
  else wordMember e

/-- The member of an expression that brackets select. -/
def indexMember (r : Rules) (e : Expression) : Reader Expression := do
  let _ ← expect (.mark .leftBracket)
  let property ← r.expression
  let closing ← expect (.mark .rightBracket)
  return .index ⟨e.range.start, closing.start + 1⟩ e property

/-- A member or a call of the class above. -/
def superMember (r : Rules) : Reader Expression := do
  let word ← advance
  let e := Expression.foreign ⟨word.start, word.start + 5⟩ .superExpression
  match ← lexeme with
  | .mark .dot =>
    let _ ← advance
    wordMember e
  | .mark .leftBracket => r.indexMember e
  | .mark .leftParen => r.callOf e
  | _ =>
    report word.start "'super' keyword unexpected here"
    passOver

/-- One item in parentheses. Dots before it are a fault unless the items turn out to be
parameters. -/
def parenthesizedItem (r : Rules) : Reader Expression := do
  if ← sees .ellipsis then
    unexpected
    let _ ← advance
    let _ ← r.assignment
    return .unread
  else r.assignment

/-- Items in parentheses up to the closing one, in at most so many rounds. A comma before it is a
fault unless the items turn out to be parameters. -/
def parenthesizedItems (r : Rules) : Nat → Reader (List Expression)
  | 0 => return []
  | n + 1 => do
    let e ← r.parenthesizedItem
    if ← accept (.mark .comma) then
      if ← sees (.mark .rightParen) then
        unexpected
        return [e]
      else return e :: (← parenthesizedItems r n)
    else return [e]

/-- What stands in parentheses. One item is itself unless there was a fault, so that parameters are
read again. -/
def parenthesized (r : Rules) : Reader Expression := do
  let _ ← expect (.mark .leftParen)
  let items ← if ← sees (.mark .rightParen) then pure [] else r.parenthesizedItems (← rounds)
  let _ ← expect (.mark .rightParen)
  match items, ← isSound with
  | [e], true => return e
  | [], _ =>
    unexpectedAs (.mark .rightParen)
    return .unread
  | first :: rest, _ =>
    let last := (rest.getLast?).getD first
    return .sequence (first.range.to last.range) items

/-- A name, or an asynchronous function. -/
def nameOrFunction (r : Rules) : Reader Expression := do
  match ← r.asyncFunction? false with
  | some fn => return .function fn
  | none =>
    match ← name? with
    | some id => return .name id
    | none =>
      unexpected
      passOver

/-- Names, literals, functions, classes, arrays, objects and what stands in parentheses. -/
def primary (r : Rules) : Reader Expression := do
  let t ← current
  let range : Range := ⟨t.start, t.start + t.raw.length⟩
  match t.lexeme with
  | .word .kwNull =>
    let _ ← advance
    return .literal range t.raw .null
  | .word .kwTrue =>
    let _ ← advance
    return .literal range t.raw (.boolean true)
  | .word .kwFalse =>
    let _ ← advance
    return .literal range t.raw (.boolean false)
  | .string =>
    let _ ← advance
    return .literal range t.raw (.string t.value)
  | .number =>
    let _ ← advance
    return (← numeralAt? t).getD (.literal range t.raw (.number Binary64.zero))
  | .mark .divide | .mark .divideAssign => regexLiteral
  | .mark .leftBrace => r.objectRule
  | .mark .leftBracket => r.arrayLiteral
  | .mark .leftParen => r.parenthesized
  | .backtick => r.template false
  | .word .kwThis =>
    let _ ← advance
    return .this range
  | .kwSuper => r.superMember
  | .word .kwFunction => .function <$> r.functionLiteral false false t.start
  | .kwClass => return .foreign (← r.classLiteral false) .classExpression
  | _ => r.nameOrFunction

/-- The construction of what follows. -/
def constructed (r : Rules) (start : Nat) : Reader Expression := do
  let callee ← r.callee
  if callee.isUnread then return callee
  if ← sees (.mark .leftParen) then
    let (list, closing) ← r.arguments
    let stop : Int := if list.isEmpty then callee.range.stop else closing + 1
    return .construct ⟨start, stop⟩ callee list
  else return .construct ⟨start, callee.range.stop⟩ callee []

/-- A construction from its word, or the property that says how a function was called. -/
def construct (r : Rules) : Reader Expression := do
  let word ← expect (.word .kwNew)
  if ← accept (.mark .dot) then
    let t ← current
    if t.raw = Bytes.ofString "target" then
      let _ ← advance
      return .foreign ⟨-1, t.start + nameWidth t.value⟩ .metaProperty
    unexpectedAs .name
  r.constructed word.start

/-- One more member access of an expression that is about to be constructed. -/
def calleeStep (r : Rules) (e : Expression) : Reader (Option Expression) := do
  match ← lexeme with
  | .mark .dot => some <$> dotMember e
  | .mark .leftBracket => some <$> r.indexMember e
  | .backtick => some <$> r.template true
  | _ => return none

/-- An expression with some of the member accesses and calls after it. `optional` says that some
access so far is optional, and `done` that no more of them are read. -/
structure Chain where
  expr : Expression
  optional : Bool := false
  done : Bool := false

/-- One more member access or call of an expression. -/
def memberStep (r : Rules) (c : Chain) : Reader (Option Chain) := do
  if c.done then return none
  match ← lexeme with
  | .mark .dot => return some { c with expr := ← dotMember c.expr }
  | .mark .leftBracket => return some { c with expr := ← r.indexMember c.expr }
  | .mark .leftParen => return some { c with expr := ← r.callOf c.expr }
  | .backtick =>
    if c.optional then
      report (← current).start "Invalid template literal on optional chain"
      return some ⟨← passOver, false, true⟩
    else return some { c with expr := ← r.template true }
  | .optionalDot =>
    match ← peek with
    | .mark .leftBracket | .mark .leftParen | .backtick =>
      let _ ← advance
      return some { c with optional := true }
    | _ => return some ⟨← dotMember c.expr, true, false⟩
  | _ => return none

/-- An operand or a construction. -/
def head (r : Rules) : Reader Expression := do
  if ← sees (.word .kwNew) then r.construct else r.primary

/-- An operand or a construction with its member accesses, as it can be constructed. -/
def calleeRule (r : Rules) : Reader Expression := do
  extend r.calleeStep (← r.head)

/-- An operand or a construction with its member accesses and calls. -/
def leftHandSideRule (r : Rules) : Reader Expression :=
  within Setting.operand do
    let c ← extend r.memberStep { expr := ← r.head }
    return if c.optional then .foreign c.expr.range .optionalChain else c.expr

end Rules

end ScriptOptimizer.Harmony
