import ScriptOptimizer.Text.Bytes

/-!
Operators and punctuators, their spelling, and which of them a text begins with.
-/

namespace ScriptOptimizer

/-- An operator or punctuator. -/
inductive Punctuator where
  | shiftRightZeroAssign | strictEqual | strictNotEqual | shiftRightZero | shiftLeftAssign
  | shiftRightAssign | lessEqual | greaterEqual | equal | notEqual | shiftLeft | shiftRight
  | andAnd | orOr | increment | decrement | plusAssign | minusAssign | timesAssign
  | divideAssign | remainderAssign | bitAndAssign | bitOrAssign | bitXorAssign | assign | plus
  | minus | bang | tilde | times | divide | remainder | less | greater | bitAnd | bitOr
  | bitXor | question | dot | comma | semicolon | colon | leftParen | rightParen | leftBrace
  | rightBrace | leftBracket | rightBracket
deriving DecidableEq, Repr

namespace Punctuator

/-- The spelling of a punctuator. -/
def text : Punctuator → String
  | shiftRightZeroAssign => ">>>="
  | strictEqual => "==="
  | strictNotEqual => "!=="
  | shiftRightZero => ">>>"
  | shiftLeftAssign => "<<="
  | shiftRightAssign => ">>="
  | lessEqual => "<="
  | greaterEqual => ">="
  | equal => "=="
  | notEqual => "!="
  | shiftLeft => "<<"
  | shiftRight => ">>"
  | andAnd => "&&"
  | orOr => "||"
  | increment => "++"
  | decrement => "--"
  | plusAssign => "+="
  | minusAssign => "-="
  | timesAssign => "*="
  | divideAssign => "/="
  | remainderAssign => "%="
  | bitAndAssign => "&="
  | bitOrAssign => "|="
  | bitXorAssign => "^="
  | assign => "="
  | plus => "+"
  | minus => "-"
  | bang => "!"
  | tilde => "~"
  | times => "*"
  | divide => "/"
  | remainder => "%"
  | less => "<"
  | greater => ">"
  | bitAnd => "&"
  | bitOr => "|"
  | bitXor => "^"
  | question => "?"
  | dot => "."
  | comma => ","
  | semicolon => ";"
  | colon => ":"
  | leftParen => "("
  | rightParen => ")"
  | leftBrace => "\x7b"
  | rightBrace => "\x7d"
  | leftBracket => "["
  | rightBracket => "]"

/-- Every punctuator, longer spellings first, so that the first match is the longest. -/
def all : List Punctuator :=
  [.shiftRightZeroAssign, .strictEqual, .strictNotEqual, .shiftRightZero, .shiftLeftAssign,
   .shiftRightAssign, .lessEqual, .greaterEqual, .equal, .notEqual, .shiftLeft, .shiftRight,
   .andAnd, .orOr, .increment, .decrement, .plusAssign, .minusAssign, .timesAssign,
   .divideAssign, .remainderAssign, .bitAndAssign, .bitOrAssign, .bitXorAssign, .assign,
   .plus, .minus, .bang, .tilde, .times, .divide, .remainder, .less, .greater, .bitAnd,
   .bitOr, .bitXor, .question, .dot, .comma, .semicolon, .colon, .leftParen, .rightParen,
   .leftBrace, .rightBrace, .leftBracket, .rightBracket]

/-- The punctuator with a spelling. -/
def ofText? (spelling : Bytes) : Option Punctuator :=
  all.find? fun p => Bytes.ofString p.text = spelling

/-- The longest punctuator that a text begins with. -/
def atStart? (text : Bytes) : Option Punctuator :=
  all.find? fun p => (Bytes.ofString p.text).isPrefixOf text

/-- Is it `=` or a compound assignment? -/
def isAssignment : Punctuator → Bool
  | assign | plusAssign | minusAssign | timesAssign | divideAssign | remainderAssign
  | shiftLeftAssign | shiftRightAssign | shiftRightZeroAssign | bitAndAssign | bitOrAssign
  | bitXorAssign => true
  | _ => false

/-- Does it divide or enclose, rather than compute? -/
def isSeparator : Punctuator → Bool
  | dot | comma | semicolon | colon | leftParen | rightParen | leftBrace | rightBrace
  | leftBracket | rightBracket => true
  | _ => false

end Punctuator

end ScriptOptimizer
