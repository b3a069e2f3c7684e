import ScriptOptimizer.Text.Bytes

/-!
Places in a source and the ranges between them.
-/

namespace ScriptOptimizer

/-- A place in a source. Line and column count from one, the offset in bytes from zero. -/
structure Place where
  line : Int
  column : Int
  offset : Int
deriving DecidableEq, Repr, Inhabited

/-- The range of a node in its source. -/
structure Span where
  start : Place
  stop : Place
deriving DecidableEq, Repr, Inhabited

namespace Span

/-- The range of a node that no source text stands for. -/
def none : Span := ⟨⟨0, 0, 0⟩, ⟨0, 0, 0⟩⟩

/-- From the start of one range to the end of another. -/
def join (first last : Span) : Span := ⟨first.start, last.stop⟩

end Span

end ScriptOptimizer
