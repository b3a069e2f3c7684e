import ScriptOptimizer.Text.Bytes

/-!
Reserved words and their spelling.
-/

namespace ScriptOptimizer

/-- A reserved word. -/
inductive Keyword where
  | kwBreak | kwCase | kwCatch | kwConst | kwContinue | kwDebugger | kwDefault | kwDelete
  | kwDo | kwElse | kwFinally | kwFor | kwFunction | kwIf | kwIn | kwInstanceof
  | kwNew | kwReturn | kwSwitch | kwThis | kwThrow | kwTry | kwTypeof | kwVar
  | kwVoid | kwWhile | kwWith | kwNull | kwTrue | kwFalse
deriving DecidableEq, Repr

namespace Keyword

/-- The spelling of a reserved word. -/
def text : Keyword → String
  | kwBreak => "break"
  | kwCase => "case"
  | kwCatch => "catch"
  | kwConst => "const"
  | kwContinue => "continue"
  | kwDebugger => "debugger"
  | kwDefault => "default"
  | kwDelete => "delete"
  | kwDo => "do"
  | kwElse => "else"
  | kwFinally => "finally"
  | kwFor => "for"
  | kwFunction => "function"
  | kwIf => "if"
  | kwIn => "in"
  | kwInstanceof => "instanceof"
  | kwNew => "new"
  | kwReturn => "return"
  | kwSwitch => "switch"
  | kwThis => "this"
  | kwThrow => "throw"
  | kwTry => "try"
  | kwTypeof => "typeof"
  | kwVar => "var"
  | kwVoid => "void"
  | kwWhile => "while"
  | kwWith => "with"
  | kwNull => "null"
  | kwTrue => "true"
  | kwFalse => "false"

/-- Every reserved word. -/
def all : List Keyword :=
  [.kwBreak, .kwCase, .kwCatch, .kwConst, .kwContinue, .kwDebugger, .kwDefault, .kwDelete,
   .kwDo, .kwElse, .kwFinally, .kwFor, .kwFunction, .kwIf, .kwIn, .kwInstanceof, .kwNew,
   .kwReturn, .kwSwitch, .kwThis, .kwThrow, .kwTry, .kwTypeof, .kwVar, .kwVoid, .kwWhile,
   .kwWith, .kwNull, .kwTrue, .kwFalse]

/-- The reserved word with a spelling. -/
def ofText? (word : Bytes) : Option Keyword :=
  all.find? fun k => Bytes.ofString k.text = word

/-- The name of the word's token type: its spelling in capitals. -/
def typeName (k : Keyword) : Bytes := Bytes.ofString (k.text.map Char.toUpper)

end Keyword

end ScriptOptimizer
