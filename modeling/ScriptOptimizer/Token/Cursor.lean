import ScriptOptimizer.Text.Bytes

/-!
A place in a text that is read byte by byte: what was read, what is left, and the line and column of
the next byte.
-/

namespace ScriptOptimizer

/-- A place between two bytes of a text. `past` is what was read, the latest byte first. Line and
column count from one, the offset from zero. -/
structure Cursor where
  past : Bytes
  rest : Bytes
  line : Nat
  column : Nat
  offset : Nat
deriving DecidableEq, Repr

namespace Cursor

/-- The start of a text. -/
def start (text : Bytes) : Cursor := ⟨[], text, 1, 1, 0⟩

/-- Does a line end between what was read and what is left: after a line feed, a carriage return
that no line feed follows, or the last byte of U+2028 or U+2029? -/
def endsLine : Bytes → Bytes → Bool
  | 10 :: _, _ => true
  | 13 :: _, rest => rest.head? ≠ some 10
  | 0xA8 :: 0x80 :: 0xE2 :: _, _ => true
  | 0xA9 :: 0x80 :: 0xE2 :: _, _ => true
  | _, _ => false

/-- The place after the next byte. -/
def next (c : Cursor) : Cursor :=
  match c.rest with
  | [] => c
  | b :: rest =>
    if endsLine (b :: c.past) rest then ⟨b :: c.past, rest, c.line + 1, 1, c.offset + 1⟩
    else ⟨b :: c.past, rest, c.line, c.column + 1, c.offset + 1⟩

/-- The place after the next `n` bytes. -/
def advance (c : Cursor) : Nat → Cursor
  | 0 => c
  | n + 1 => c.next.advance n

/-- Is the whole text read? -/
def atEnd (c : Cursor) : Bool := c.rest.isEmpty

end Cursor

end ScriptOptimizer
