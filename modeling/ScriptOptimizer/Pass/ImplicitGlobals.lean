import ScriptOptimizer.Log
import ScriptOptimizer.Walk.Basic

/-!
Names that come into being by assignment. A name is an implicit global where it is first assigned to
while no open scope declares it.
-/

namespace ScriptOptimizer

/-- An implicit global and the place of its first assignment. -/
structure ImplicitGlobal where
  name : Bytes
  place : Place
deriving DecidableEq, Repr

namespace ImplicitGlobal

/-- The entry that reports a new implicit global. -/
def entry (g : ImplicitGlobal) : LogEntry :=
  ⟨.debug, "implicit global",
    [("name", .text g.name), ("line", .int g.place.line), ("column", .int g.place.column)]⟩

/-- The names of a declarator are declared by it. -/
def declare (d : Declarator) (symbols : ScopeTable Node) : ScopeTable Node :=
  match d with
  | .bind _ id _ => id.boundNames.foldl (fun t name => t.declare name.name (.declarator d)) symbols

/-- The name that an expression assigns to as a whole. -/
def target? : Expr → Option Ident
  | .assign _ _ (.holds (.ident id)) _ => some id
  | _ => none

/-- Is the name declared in an open scope? -/
def isDeclared (name : Bytes) (symbols : ScopeTable Node) : Bool :=
  symbols.declaresHere name || (symbols.find? name).isSome

/-- An assignment to a name: an undeclared name is declared in the root scope and listed, once. -/
def assign (id : Ident) (symbols : ScopeTable Node) (known : List ImplicitGlobal) :
    ScopeTable Node × Option ImplicitGlobal :=
  if isDeclared id.name symbols then (symbols, none)
  else
    let new := if known.any fun g => g.name = id.name then none
      else some ⟨id.name, id.span.start⟩
    (symbols.declareGlobal id.name (.expr (.ident id)), new)

end ImplicitGlobal

end ScriptOptimizer
