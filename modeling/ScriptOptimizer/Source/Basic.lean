import ScriptOptimizer.Syntax.Span
import ScriptOptimizer.Text.Utf16
import ScriptOptimizer.Token.Gap

/-!
Units of input: a text with the name it goes by in messages, and its division into lines. A byte
order mark selects the encoding of raw input and is dropped; input without one is taken as UTF-8,
with ill-formed sequences replaced. Lines as a program's text has them end at a line feed, a
carriage return, the two together, or one of the two separators beyond ASCII.
-/

namespace ScriptOptimizer

/-- One unit of input. The path is empty unless the text was read from a file. -/
structure Source where
  name : Bytes
  path : Bytes
  content : Bytes
deriving DecidableEq, Repr, Inhabited

namespace Source

/-- A snippet that did not come from a file. -/
def inline (content : Bytes) : Source := ⟨"<inline>", [], content⟩

/-- What was read from standard input. -/
def standardInput (content : Bytes) : Source := ⟨"<stdin>", [], content⟩

/-- The name used in messages: the path, or the name of a text without one. -/
def displayName (s : Source) : Bytes := if s.path = [] then s.name else s.path

/-- The lines of a text, which line feeds divide. A text without one has one line. -/
def lines (s : Source) : List Bytes := Bytes.splitOn 10 s.content

/-- How many lines the text has. -/
def lineCount (s : Source) : Nat := s.lines.length

/-- The line with a number, counted from one, without a carriage return at its end; empty when there
is no such line. -/
def line (s : Source) (n : Int) : Bytes :=
  if n < 1 then [] else Bytes.dropLast 13 ((s.lines[n.toNat - 1]?).getD [])

end Source

/-- The last element of a path: the text after the last slash, trailing slashes apart. -/
def baseName (path : Bytes) : Bytes :=
  if path = [] then "."
  else
    let trimmed := Bytes.trimEnd (· = 47) path
    if trimmed = [] then "/" else ((Bytes.splitOn 47 trimmed).getLast?).getD []

namespace Source

/-- What was read from the file at a path. -/
def file (path content : Bytes) : Source := ⟨baseName path, path, content⟩

/-- The text of raw input. After the mark of UTF-8 the bytes are kept as they are. -/
def decode : Bytes → Bytes
  | 0xFF :: 0xFE :: rest => Utf16.toUtf8 (Utf16.unitsOf true rest)
  | 0xFE :: 0xFF :: rest => Utf16.toUtf8 (Utf16.unitsOf false rest)
  | 0xEF :: 0xBB :: 0xBF :: rest => rest
  | raw => Utf8.toValid raw

end Source

/-! ### Lines of a program -/

/-- Where the lines after the first start, in a text of which `offset` bytes were read. -/
def lineStartsFrom (offset : Nat) : Bytes → List Nat
  | [] => []
  | b :: rest =>
    if b = 10 || (b = 13 && rest.head? ≠ some 10) then
      (offset + 1) :: lineStartsFrom (offset + 1) rest
    else if startsWithLineSeparator (b :: rest) then
      (offset + 3) :: lineStartsFrom (offset + 1) rest
    else lineStartsFrom (offset + 1) rest

/-- The place at an offset on a line or after it, by where the line and the lines after it start. -/
def Place.fromLine (line lineStart : Nat) (offset : Int) : List Nat → Place
  | [] => ⟨line, offset - lineStart + 1, offset⟩
  | next :: rest =>
    if next ≤ offset then Place.fromLine (line + 1) next offset rest
    else ⟨line, offset - lineStart + 1, offset⟩

/-- The place at an offset, by where the lines after the first start. -/
def Place.ofOffset (lineStarts : List Nat) (offset : Int) : Place :=
  Place.fromLine 1 0 offset lineStarts

/-- Where the lines after the first start. -/
def Source.lineStarts (s : Source) : List Nat := lineStartsFrom 0 s.content

/-- The place at an offset of a source. -/
def Source.placeAt (s : Source) (offset : Int) : Place := Place.ofOffset s.lineStarts offset

end ScriptOptimizer
