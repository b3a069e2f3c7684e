import ScriptOptimizer.Frontend

/-!
Compiling a source: it is read, and the configured passes ride on one walk over its tree.
-/

namespace ScriptOptimizer

/-- The outcome of compiling one source. What declares a name is a node of the program; the passes
change what is inside it, so the table tells it by what they leave. -/
structure Compiled where
  source : Source
  program : Program
  symbols : ScopeTable Landmark
  globals : List ImplicitGlobal
  hoisted : List Hoist
  log : List LogEntry

namespace Compiled

/-- The bytes that declarations of literals save together. -/
def savedBy (hoisted : List Hoist) : Int := hoisted.foldl (fun total h => total + h.saved) 0

/-- The bytes saved by all declarations of literals. -/
def saved (c : Compiled) : Int := savedBy c.hoisted

/-- The entry that ends a compilation. -/
def entry (globals : List ImplicitGlobal) (hoisted : List Hoist) : LogEntry :=
  ⟨.info, "compiled",
    [("globals", .int globals.length), ("hoisted", .int hoisted.length),
     ("saved", .int (savedBy hoisted))]⟩

end Compiled

/-- Compiles a source among files that it may refer to. Every log entry starts with the name of the
source. -/
def Options.compile [PatternCheck] [ScriptReader] (o : Options) (files : FileTree)
    (source : Source) : Except ReadError Compiled := do
  let program ← source.read o.frontend files
  let (program, symbols, session) := (Session.start o.literals o.passNames).walkProgram program
  let globals := session.globals?.getD []
  let hoisted := session.hoisted?.getD []
  let log := (session.log ++ [Compiled.entry globals hoisted]).map fun e =>
    { e with fields := ("source", .text source.displayName) :: e.fields }
  return ⟨source, program, symbols.map Node.landmark, globals, hoisted, log⟩

end ScriptOptimizer
