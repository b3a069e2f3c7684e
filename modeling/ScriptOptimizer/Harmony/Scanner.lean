import ScriptOptimizer.Harmony.Numeral
import ScriptOptimizer.Harmony.Quotation
import ScriptOptimizer.Harmony.Setting

/-!
Cutting a text into tokens, one at a time. Which token a slash or a closing brace starts depends on
where it stands, so the reader asks for the next token, the rest of a regular expression or the rest
of a template as it needs them. A fault does not stop the cutting: the first one is remembered.
-/

namespace ScriptOptimizer.Harmony

/-- The place up to which a text was cut. `breakEnds` says that a line break here would end a
statement, `size` is the length of the whole text, `malformed` the first byte of it that is no
UTF-8, and `fault` the first fault found so far. -/
structure Scanner where
  rest : Bytes
  offset : Nat
  breakEnds : Bool
  size : Nat
  malformed : Option Nat
  fault : Option Fault
deriving DecidableEq, Repr

/-- Where the first malformed byte of a text stands, `offset` bytes of which were read; `skip` more
bytes belong to a character that was already read. -/
def malformedFrom (offset skip : Nat) : Bytes → Option Nat
  | [] => none
  | b :: rest =>
    match skip with
    | k + 1 => malformedFrom (offset + 1) k rest
    | 0 =>
      match Utf8.decode? (b :: rest) with
      | none => some offset
      | some (_, width) => malformedFrom (offset + 1) (width - 1) rest

namespace Scanner

/-- Remembers a fault unless there was one before. -/
def report (s : Scanner) (offset : Int) (message : Bytes) : Scanner :=
  { s with fault := s.fault <|> some ⟨offset, message⟩ }

/-- The place some bytes further on. The character there is looked at, so a malformed byte before it
or at it is a fault. -/
def move (s : Scanner) (width : Nat) : Scanner :=
  let offset := s.offset + width
  let after := { s with rest := s.rest.drop width, offset := offset }
  match s.malformed with
  | some k => if k ≤ offset then after.report k "Invalid UTF-8 character" else after
  | none => after

/-- The start of a text. -/
def start (text : Bytes) : Scanner :=
  move ⟨text, 0, false, text.length, malformedFrom 0 0 text, none⟩ 0

/-- The place after what stands between two tokens, and whether that ends a statement. A text may
start with a line for an interpreter. -/
def skipGap (s : Scanner) : Bool × Scanner :=
  let interpreter := s.offset = 0 && (Bytes.ofString "#!").isPrefixOf s.rest
  let region := if interpreter then .line else .blank
  let g := Between.scanFrom region 0 { width := 0, afterBreak := false, breakEnds := s.breakEnds }
    s.rest
  let after := { s.move g.width with breakEnds := g.breakEnds }
  (g.afterBreak, if g.closed then after else after.report after.offset "Unexpected end of input")

/-- A token that is none. -/
def illegal (start : Nat) (afterBreak : Bool) : Token := ⟨.illegal, [], [], start, afterBreak⟩

/-- What a word is that has an escape in it: a name if the word may be one here. -/
def escapedLexeme (isName : Lexeme → Bool) (lexeme : Lexeme) : Lexeme :=
  if isName lexeme then .name else .escapedWord

/-- A word as a token. A reserved word may not be escaped, and `async` before a line break is a
name. The blanks after `async` are skipped to see which it is. -/
def word (s : Scanner) (isName : Lexeme → Bool) (afterBreak : Bool) : Token × Scanner :=
  let w := Word.scan s.rest
  let after := s.move w.width
  match w.name with
  | none => (illegal s.offset afterBreak, { after with breakEnds := false })
  | some name =>
    let token (lexeme : Lexeme) : Token :=
      ⟨lexeme, s.rest.take w.width, name, s.offset, afterBreak⟩
    let lexeme := if name.length > 1 then Lexeme.ofWord name else .name
    if w.escaped then (token (escapedLexeme isName lexeme), { after with breakEnds := true })
    else if lexeme = .kwAsync then
      let beyond := after.move (blanksWidth 0 after.rest)
      if startsWithLineBreak beyond.rest then (token .name, { beyond with breakEnds := true })
      else (token lexeme, beyond)
    else (token lexeme, { after with breakEnds := lexeme.endsStatement?.getD after.breakEnds })

/-- A name that a class keeps to itself, after its mark. -/
def privateName (s : Scanner) (afterBreak : Bool) : Token × Scanner :=
  let w := Word.scan (s.rest.drop 1)
  let after := s.move (1 + w.width)
  match w.name with
  | some (c :: name) =>
    (⟨.privateName, (s.rest.drop 1).take w.width, c :: name, s.offset, afterBreak⟩,
      { after with breakEnds := true })
  | _ => (illegal s.offset afterBreak, { after with breakEnds := false })

/-- A numeral as a token. -/
def numeral (s : Scanner) (afterBreak : Bool) : Token × Scanner :=
  let shape := NumeralShape.scan s.rest
  let checked := match shape.missing with
    | some width =>
      (s.move width).report (s.offset + width) "Only one underscore is allowed as numeric separator"
    | none => s
  let after := checked.move (s.offset + shape.width - checked.offset)
  (⟨if shape.wellFormed then .number else .illegal, s.rest.take shape.width, [], s.offset,
    afterBreak⟩, { after with breakEnds := true })

/-- A string as a token. -/
def string (s : Scanner) (quote : UInt8) (afterBreak : Bool) : Token × Scanner :=
  match stringWidth quote 0 0 (s.rest.drop 1) with
  | .error width => (illegal s.offset afterBreak, { s.move (1 + width) with breakEnds := true })
  | .ok width =>
    let after := { s.move (width + 2) with breakEnds := true }
    let raw := s.rest.take (width + 2)
    match unescape false ((s.rest.drop 1).take width) with
    | .ok value => (⟨.string, raw, value, s.offset, afterBreak⟩, after)
    | .error _ => (⟨.illegal, raw, [], s.offset, afterBreak⟩, after)

/-- The mark at the front of a text, if there is one. `?.` before a digit is two marks, two dots are
none, and an arrow cannot stand after a line break. -/
def markAt (afterBreak : Bool) (text : Bytes) : Option (Lexeme × Nat) :=
  match Lexeme.addedMarks.find? fun l => l.text.isPrefixOf text with
  | some .optionalDot =>
    if (text.drop 2).head?.any Bytes.isDigit then some (.mark .question, 1)
    else some (.optionalDot, 2)
  | some .arrow => some (if afterBreak then .illegal else .arrow, 2)
  | some l => some (l, l.text.length)
  | none =>
    if (Bytes.ofString "..").isPrefixOf text then some (.illegal, 2)
    else (Punctuator.atStart? text).map fun p => (.mark p, p.text.length)

/-- A mark as a token, or the fault of a character that starts no token. -/
def mark (s : Scanner) (afterBreak : Bool) : Token × Scanner :=
  match markAt afterBreak s.rest with
  | some (lexeme, width) =>
    (⟨lexeme, s.rest.take width, [], s.offset, afterBreak⟩,
      { s.move width with breakEnds := lexeme.markEndsStatement })
  | none =>
    let after := (s.move (Utf8.decode s.rest).2).report s.offset "Unexpected token ILLEGAL"
    (illegal s.offset afterBreak, { after with breakEnds := false })

/-- The next token, where some words may be names. -/
def next (s : Scanner) (isName : Lexeme → Bool) : Token × Scanner :=
  let (afterBreak, s) := s.skipGap
  match s.rest with
  | [] =>
    (⟨.endOfInput, [], [], s.offset, afterBreak || s.breakEnds⟩, { s with breakEnds := false })
  | b :: rest =>
    if startsWord s.rest then s.word isName afterBreak
    else if Bytes.isDigit b || (b = 46 && rest.head?.any Bytes.isDigit) then s.numeral afterBreak
    else if b = 34 || b = 39 then s.string b afterBreak
    else if b = 35 then s.privateName afterBreak
    else s.mark afterBreak

end Scanner

end ScriptOptimizer.Harmony
