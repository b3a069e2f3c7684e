import ScriptOptimizer.Decimal.Binary64
import ScriptOptimizer.Text.Quoted
import ScriptOptimizer.Token.Keyword
import ScriptOptimizer.Token.Punctuator

/-!
Tokens: their types, the coarse kinds that consumers ask for, and how a message names a token.
-/

namespace ScriptOptimizer

/-- The type of a token. An illegal token reports a lexical error. -/
inductive TokenType where
  | illegal
  | endOfInput
  | comment
  | identifier
  | number
  | string
  | regex
  | keyword (word : Keyword)
  | punctuator (mark : Punctuator)
deriving DecidableEq, Repr

namespace TokenType

/-- The name of a type: a word in capitals, or the spelling of a punctuator. -/
def name : TokenType → Bytes
  | illegal => "ILLEGAL"
  | endOfInput => "EOF"
  | comment => "COMMENT"
  | identifier => "IDENT"
  | number => "NUMBER"
  | string => "STRING"
  | regex => "REGEX"
  | keyword word => word.typeName
  | punctuator mark => mark.text

/-- Every type. -/
def all : List TokenType :=
  [illegal, endOfInput, comment, identifier, number, string, regex] ++
    Keyword.all.map keyword ++ Punctuator.all.map punctuator

/-- The type with a name. -/
def ofName? (typeName : Bytes) : Option TokenType := all.find? fun t => t.name = typeName

/-- The type of a word: that of the reserved word, or an identifier. -/
def ofWord (word : Bytes) : TokenType :=
  match Keyword.ofText? word with
  | some k => keyword k
  | none => identifier

/-- Is it `=` or a compound assignment? -/
def isAssignment : TokenType → Bool
  | punctuator mark => mark.isAssignment
  | _ => false

end TokenType

/-- The coarse kind of a token. -/
inductive TokenKind where
  | illegal | eof | comment | identifier | keyword | number | string | regex | operator
  | punctuator | null | boolean
deriving DecidableEq, Repr

namespace TokenKind

/-- The kinds in the order of their numbers. -/
def all : List TokenKind :=
  [illegal, eof, comment, identifier, keyword, number, string, regex, operator, punctuator, null,
   boolean]

/-- The word for a kind. -/
def name : TokenKind → Bytes
  | illegal => "illegal"
  | eof => "eof"
  | comment => "comment"
  | identifier => "identifier"
  | keyword => "keyword"
  | number => "number"
  | string => "string"
  | regex => "regex"
  | operator => "operator"
  | punctuator => "punctuator"
  | null => "null"
  | boolean => "boolean"

/-- The word for the kind with a number; a number beyond the last kind is shown as such. -/
def nameOfIndex (n : Nat) : Bytes :=
  match all[n]? with
  | some kind => kind.name
  | none => Bytes.ofString "Kind(" ++ Bytes.ofNat n ++ Bytes.ofString ")"

/-- The kind that a literal alone decides: a reserved word is a keyword, all else an operator. -/
def ofLiteral (literal : Bytes) : TokenKind :=
  if (Keyword.ofText? literal).isSome then keyword else operator

/-- The kind of a type with a literal; a type that has no name here is decided by its literal. -/
def of (type : Option TokenType) (literal : Bytes) : TokenKind :=
  match type with
  | some .illegal => illegal
  | some .endOfInput => eof
  | some .comment => comment
  | some .identifier => identifier
  | some .number => number
  | some .string => string
  | some .regex => regex
  | some (.keyword .kwNull) => null
  | some (.keyword .kwTrue) | some (.keyword .kwFalse) => boolean
  | some (.keyword .kwIn) | some (.keyword .kwInstanceof) | some (.keyword .kwTypeof)
  | some (.keyword .kwNew) | some (.keyword .kwVoid) | some (.keyword .kwDelete) => operator
  | some (.punctuator mark) => if mark.isSeparator then punctuator else ofLiteral literal
  | _ => ofLiteral literal

end TokenKind

/-- How a message names a token: by its name, by its kind and text, or by its text alone. -/
def describeToken (type : Option TokenType) (literal value : Bytes) : Bytes :=
  match type with
  | some .endOfInput => "end of input"
  | some .identifier => Bytes.ofString "identifier " ++ Quoted.text value
  | some .number | some .string | some .regex =>
    (TokenKind.of type literal).name ++ Bytes.ofString " " ++ literal
  | _ => Bytes.ofString "'" ++ literal ++ Bytes.ofString "'"

/-- A token. `literal` is its text in the source and `value` what that denotes: the contents of a
string, the name of an identifier, the body of a regular expression. `newlineBefore` says that a
line break separates it from the token before it. -/
structure Token where
  type : TokenType
  literal : Bytes
  value : Bytes := []
  number : Binary64 := Binary64.zero
  flags : Bytes := []
  line : Nat
  column : Nat
  start : Nat
  stop : Nat
  newlineBefore : Bool := false
deriving DecidableEq, Repr

namespace Token

/-- The coarse kind. -/
def kind (t : Token) : TokenKind := TokenKind.of (some t.type) t.literal

/-- How a message names the token. -/
def describe (t : Token) : Bytes := describeToken (some t.type) t.literal t.value

/-- Has it this type? -/
def is (t : Token) (type : TokenType) : Bool := t.type = type

end Token

end ScriptOptimizer
