import ScriptOptimizer.Text.Utf16
import ScriptOptimizer.Token.Keyword
import ScriptOptimizer.Token.Punctuator

/-!
The tokens of the newer language: those of the older one, the marks and words that were added to it,
and names that a class keeps to itself.
-/

namespace ScriptOptimizer.Harmony

/-- What sort of token it is. Reserved words without a meaning of their own are `reserved`, words
that are reserved and written with an escape are `escapedWord`. -/
inductive Lexeme where
  | illegal
  | endOfInput
  | string
  | number
  | name
  | privateName
  | reserved
  | escapedWord
  | mark (p : Punctuator)
  | power
  | powerAssign
  | coalesce
  | andAssign
  | orAssign
  | coalesceAssign
  | optionalDot
  | arrow
  | ellipsis
  | backtick
  | word (k : Keyword)
  | kwClass
  | kwExtends
  | kwSuper
  | kwLet
  | kwStatic
  | kwAsync
  | kwAwait
  | kwYield
deriving DecidableEq, Repr

namespace Lexeme

/-- The text by which messages call a token. -/
def text : Lexeme → Bytes
  | illegal => "ILLEGAL"
  | endOfInput => "EOF"
  | string => "STRING"
  | number => "NUMBER"
  | name => "IDENTIFIER"
  | privateName => "PRIVATE_IDENTIFIER"
  | reserved => "KEYWORD"
  | escapedWord => "ESCAPED_RESERVED_WORD"
  | mark p => p.text
  | power => "**"
  | powerAssign => "**="
  | coalesce => "??"
  | andAssign => "&&="
  | orAssign => "||="
  | coalesceAssign => "??="
  | optionalDot => "?."
  | arrow => "=>"
  | ellipsis => "..."
  | backtick => "`"
  | word k => k.text
  | kwClass => "class"
  | kwExtends => "extends"
  | kwSuper => "super"
  | kwLet => "let"
  | kwStatic => "static"
  | kwAsync => "async"
  | kwAwait => "await"
  | kwYield => "yield"

/-- The words that were added to the older language. -/
def addedWords : List Lexeme :=
  [kwClass, kwExtends, kwSuper, kwLet, kwStatic, kwAsync, kwAwait, kwYield]

/-- The marks that were added to the older language, longer spellings first. -/
def addedMarks : List Lexeme :=
  [powerAssign, andAssign, orAssign, coalesceAssign, ellipsis, power, coalesce, optionalDot, arrow,
   backtick]

/-- The words that are reserved without a meaning of their own. -/
def reservedWords : List String := ["enum", "export", "import"]

/-- What a word is. -/
def ofWord (text : Bytes) : Lexeme :=
  match Keyword.ofText? text with
  | some k => word k
  | none =>
    match addedWords.find? fun l => l.text = text with
    | some l => l
    | none => if reservedWords.any fun w => Bytes.ofString w = text then reserved else name

/-- Is it spelled like a name? A name that a class keeps to itself is not, because of its mark. -/
def isWord : Lexeme → Bool
  | name | reserved | escapedWord | word _ | kwClass | kwExtends | kwSuper | kwLet
  | kwStatic | kwAsync | kwAwait | kwYield => true
  | _ => false

/-- May a statement end at a line break after a word? A word for which this is not settled leaves it
as it was before the word. -/
def endsStatement? : Lexeme → Option Bool
  | name | kwYield => some true
  | word .kwTrue | word .kwFalse | word .kwNull | word .kwThis | word .kwBreak | word .kwThrow
  | word .kwReturn | word .kwContinue | word .kwDebugger => some true
  | _ => none

/-- May a statement end at a line break after a mark? -/
def markEndsStatement : Lexeme → Bool
  | mark p => match p with
    | .rightParen | .rightBracket | .rightBrace | .increment | .decrement | .divide
    | .divideAssign => true
    | _ => false
  | _ => false

end Lexeme

/-- A token. `raw` is its text, `value` the name or text it denotes, and `afterBreak` says that a
line break in front of it ends the statement before. -/
structure Token where
  lexeme : Lexeme
  raw : Bytes
  value : Bytes
  start : Nat
  afterBreak : Bool
deriving DecidableEq, Repr

/-- The width by which a name counts: its bytes if they are ASCII, and otherwise two bytes for each
UTF-16 unit and two more. -/
def nameWidth (name : Bytes) : Nat :=
  if name.all (· < 0x80) then name.length else 2 + 2 * Utf16.length name

/-- Why a text is no program, and where. -/
structure Fault where
  offset : Int
  message : Bytes
deriving DecidableEq, Repr

end ScriptOptimizer.Harmony
