import ScriptOptimizer.Diagnostic
import ScriptOptimizer.Token.Basic
import ScriptOptimizer.Token.Cursor
import ScriptOptimizer.Token.Numeral
import ScriptOptimizer.Token.RegexLiteral
import ScriptOptimizer.Token.StringLiteral

/-!
Cutting a text into tokens. A slash opens a regular expression or divides, and a word is reserved or
a plain name, as the token before it decides; nothing else of what was read matters.
-/

namespace ScriptOptimizer

/-- What a scan of one token found. `lineBreak` says that a line break is inside it, which matters
for comments only. -/
structure Lexeme where
  type : TokenType
  width : Nat
  value : Bytes := []
  number : Binary64 := Binary64.zero
  flags : Bytes := []
  lineBreak : Bool := false
deriving DecidableEq, Repr

namespace Lexeme

/-- May a regular expression stand after a token? -/
def regexAllowedAfter : Option Token → Bool
  | none => true
  | some before =>
    match before.type with
    | .keyword .kwReturn | .keyword .kwNew | .keyword .kwDelete | .keyword .kwThrow
    | .keyword .kwElse | .keyword .kwCase => true
    | .punctuator .increment | .punctuator .decrement | .punctuator .rightParen
    | .punctuator .rightBracket | .punctuator .rightBrace => false
    | _ => before.kind = .operator || before.kind = .punctuator

/-- The type of a word after a token: a word after a dot, or one with an escape, is a plain name. -/
def wordType (before : Option Token) (name : Word.Name) : TokenType :=
  let afterDot := match before with
    | some token => token.type = .punctuator .dot
    | none => false
  if afterDot || name.escaped then .identifier else TokenType.ofWord name.text

/-- The comment after `//`. -/
def lineComment (text : Bytes) : Lexeme :=
  let width := Comment.lineWidth text
  { type := .comment, width, value := (text.take width).drop 2 }

/-- The comment after `/*`. -/
def blockComment (text : Bytes) : Except ScanFault Lexeme := do
  let (width, lineBreak) ← Comment.scanBlock 2 false (text.drop 2)
  return { type := .comment, width, value := (text.take (width - 2)).drop 2, lineBreak }

/-- A number. -/
def numeral (text : Bytes) : Except ScanFault Lexeme := do
  let (width, number) ← Numeral.scan text
  return { type := .number, width, value := text.take width, number }

/-- A string. -/
def stringLiteral (text : Bytes) : Except ScanFault Lexeme := do
  let (width, value) ← StringLiteral.scan text
  return { type := .string, width, value }

/-- A regular expression. -/
def regexLiteral [PatternCheck] (text : Bytes) : Except ScanFault Lexeme := do
  let (width, parts) ← RegexLiteral.scan text
  return { type := .regex, width, value := parts.body, flags := parts.flags }

/-- A word. -/
def word (before : Option Token) (text : Bytes) : Except ScanFault Lexeme := do
  let (width, name) ← Word.scan text
  return { type := wordType before name, width, value := name.text }

/-- A punctuator. -/
def punctuator (text : Bytes) : Except ScanFault Lexeme :=
  match Punctuator.atStart? text with
  | some mark => .ok { type := .punctuator mark, width := mark.text.length }
  | none => .error ⟨.unrecognizedCharacter (Utf8.decode text).1, 0, 0⟩

/-- The token at the front of a text, after the token before it. -/
def scan [PatternCheck] (before : Option Token) (text : Bytes) : Except ScanFault Lexeme :=
  match text with
  | [] => .ok { type := .endOfInput, width := 0 }
  | b :: rest =>
    let next := rest.headD 0
    if b = 34 || b = 39 then stringLiteral text
    else if Bytes.isDigit b || (b = 46 && Bytes.isDigit next) then numeral text
    else if b = 47 && next = 47 then .ok (lineComment text)
    else if b = 47 && next = 42 then blockComment text
    else if b = 47 && regexAllowedAfter before then regexLiteral text
    else if Word.isStartByte b || b = 92 then word before text
    else if b ≥ 0x80 && Category.isLetter (Utf8.decode text).1 then word before text
    else punctuator text

end Lexeme

/-- A text that is being cut into tokens. `before` is the last token that was no comment, and
`lineBreak` says that a line break was read since. After a lexical error nothing more is read. -/
structure Lexer where
  cursor : Cursor
  before : Option Token
  lineBreak : Bool
  failure : Option Diagnostic
  source : Option Source
deriving Repr

namespace Lexer

/-- The start of a plain text. -/
def ofText (text : Bytes) : Lexer := ⟨Cursor.start text, none, false, none, none⟩

/-- The start of a source, to which errors refer. -/
def ofSource (source : Source) : Lexer := { ofText source.content with source := some source }

/-- The token that reports an error. -/
def illegalToken (d : Diagnostic) : Token :=
  { type := .illegal, literal := d.message, line := d.location.line.toNat
    column := d.location.column.toNat, start := d.location.start.toNat
    stop := d.location.stop.toNat }

/-- The error for a fault in the token at a cursor. Its range covers at least one byte. -/
def diagnostic (source : Option Source) (cursor : Cursor) (f : ScanFault) : Diagnostic :=
  let place := cursor.advance f.start
  let stop := max (cursor.offset + f.width) (place.offset + 1)
  Diagnostic.lexical ⟨place.line, place.column, place.offset, stop, source⟩ f.fault.message
    f.fault.cause?

/-- The token of a lexeme at a cursor. -/
def token (cursor : Cursor) (lexeme : Lexeme) (newlineBefore : Bool) : Token :=
  { type := lexeme.type, literal := cursor.rest.take lexeme.width, value := lexeme.value
    number := lexeme.number, flags := lexeme.flags, line := cursor.line, column := cursor.column
    start := cursor.offset, stop := cursor.offset + lexeme.width, newlineBefore }

/-- The next token, comments included. At the end of input, and after an error, every call gives the
same token. -/
def next [PatternCheck] (l : Lexer) : Token × Lexer :=
  match l.failure with
  | some d => (illegalToken d, l)
  | none =>
    let gap := Gap.scan l.cursor.rest
    let cursor := l.cursor.advance gap.width
    let lineBreak := l.lineBreak || gap.lineBreak
    match Lexeme.scan l.before cursor.rest with
    | .error f =>
      let d := diagnostic l.source cursor f
      (illegalToken d, { l with cursor, lineBreak, failure := some d })
    | .ok lexeme =>
      let after := cursor.advance lexeme.width
      if lexeme.type = .comment then
        (token cursor lexeme false,
          { l with cursor := after, lineBreak := lineBreak || lexeme.lineBreak })
      else
        let t := token cursor lexeme lineBreak
        (t, { l with cursor := after, before := some t, lineBreak := false })

/-- Did a line break precede the last token that was no comment? -/
def lineBreakBefore (l : Lexer) : Bool :=
  match l.before with
  | some token => token.newlineBefore
  | none => false

/-- Is it the last token of a text? -/
def isLast (t : Token) : Bool := t.type = .endOfInput || t.type = .illegal

/-- The tokens up to and including the end of input or the illegal token, each with the lexer after
it. `fuel` bounds their number; one more than the bytes left suffices, because every other token
takes at least one byte. -/
def steps [PatternCheck] (l : Lexer) : Nat → List (Token × Lexer)
  | 0 => []
  | fuel + 1 =>
    let (t, l) := l.next
    if isLast t then [(t, l)] else (t, l) :: l.steps fuel

/-- The tokens up to and including the end of input or the illegal token, each with the lexer after
it. -/
def run [PatternCheck] (l : Lexer) : List (Token × Lexer) := l.steps (l.cursor.rest.length + 1)

end Lexer

/-- The tokens of a text up to and including the end of input; up to an error, and the error, if
there is one. -/
def tokenize [PatternCheck] (text : Bytes) : List Token × Option Diagnostic :=
  let steps := (Lexer.ofText text).run
  (steps.map (·.1) |>.filter (·.type ≠ .illegal), steps.getLast?.bind (·.2.failure))

end ScriptOptimizer
