import ScriptOptimizer.Syntax.Basic
import ScriptOptimizer.Token.Basic

/-!
How tightly operators bind. The reader of programs groups by these numbers and the printer puts
parentheses by them.
-/

namespace ScriptOptimizer

/-- How tightly a token binds as a binary operator, from one up; zero for a token that is none. -/
def TokenType.precedence : TokenType → Nat
  | .punctuator .orOr => 1
  | .punctuator .andAnd => 2
  | .punctuator .bitOr => 3
  | .punctuator .bitXor => 4
  | .punctuator .bitAnd => 5
  | .punctuator .equal | .punctuator .notEqual | .punctuator .strictEqual
  | .punctuator .strictNotEqual => 6
  | .punctuator .less | .punctuator .greater | .punctuator .lessEqual | .punctuator .greaterEqual
  | .keyword .kwInstanceof | .keyword .kwIn => 7
  | .punctuator .shiftLeft | .punctuator .shiftRight | .punctuator .shiftRightZero => 8
  | .punctuator .plus | .punctuator .minus => 9
  | .punctuator .times | .punctuator .divide | .punctuator .remainder => 10
  | _ => 0

/-- How tightly an operator with this spelling binds. Powers bind like products, and an operator
that is not known binds like `||`. -/
def operatorPrecedence (operator : Bytes) : Nat :=
  if operator = Bytes.ofString "**" then 10
  else
    let known := match Punctuator.ofText? operator with
      | some mark => (TokenType.punctuator mark).precedence
      | none => match Keyword.ofText? operator with
        | some word => (TokenType.keyword word).precedence
        | none => 0
    if known = 0 then 1 else known

namespace Level

/-- The level of a comma-separated list. -/
def sequence : Nat := 0
/-- The level of an assignment. -/
def assign : Nat := 1
/-- The level of a conditional. -/
def conditional : Nat := 2
/-- The level of the loosest binary operator. -/
def loosestBinary : Nat := 3
/-- The level of a binary operator. -/
def binary (operator : Bytes) : Nat := 2 + operatorPrecedence operator
/-- The level of an operator before its operand. -/
def unary : Nat := 13
/-- The level of an operator after its operand. -/
def after : Nat := 14
/-- The level of calls, constructions and member accesses. -/
def call : Nat := 15
/-- The level of what needs no parentheses anywhere. -/
def primary : Nat := 16

end Level

/-- The level of an expression: that of its outermost operator. -/
def Expr.level : Expr → Nat
  | sequence _ _ => Level.sequence
  | assign _ _ _ _ => Level.assign
  | conditional _ _ _ _ => Level.conditional
  | binary _ operator _ _ | logical _ operator _ _ => Level.binary operator
  | unary _ _ _ => Level.unary
  | update _ _ before _ => if before then Level.unary else Level.after
  | construct _ _ _ | call _ _ _ | member _ _ _ _ => Level.call
  | _ => Level.primary

end ScriptOptimizer
