import ScriptOptimizer.Syntax.Basic

/-!
The names that binding targets introduce. A target is a name, a pattern of targets, or a target with
a default value.
-/

namespace ScriptOptimizer

mutual

/-- The names that a binding target introduces, from left to right. -/
def Slot.boundNames : Slot → List Ident
  | .holds e => e.boundNames
  | .absent | .vacant => []

/-- The names that an expression introduces as a binding target. -/
def Expr.boundNames : Expr → List Ident
  | .ident id => [id]
  | .arrayPattern _ elements => Slot.boundNamesOfAll elements
  | .objectPattern _ properties => Property.boundNamesOfAll properties
  | .assign _ _ left _ => left.boundNames
  | _ => []

/-- The names that several targets introduce. -/
def Slot.boundNamesOfAll : List Slot → List Ident
  | [] => []
  | s :: rest => s.boundNames ++ Slot.boundNamesOfAll rest

/-- The names that the values of a pattern's entries introduce. -/
def Property.boundNamesOfAll : List Property → List Ident
  | [] => []
  | p :: rest => p.boundNames ++ Property.boundNamesOfAll rest

/-- The names that the value of a pattern's entry introduces. -/
def Property.boundNames : Property → List Ident
  | .absent => []
  | .entry _ _ _ value _ _ => value.boundNames

end

/-- The name of a declarator whose target is a plain name. -/
def Declarator.name? : Declarator → Option Bytes
  | .bind _ (.holds (.ident id)) _ => some id.name
  | _ => none

namespace Function

/-- The name of the function. -/
def id : Function → Option Ident
  | mk id _ _ _ _ _ => id

/-- The parameters. -/
def params : Function → List Slot
  | mk _ params _ _ _ _ => params

/-- The rest parameter. -/
def rest : Function → Option Ident
  | mk _ _ _ rest _ _ => rest

/-- The body. -/
def body : Function → Block
  | mk _ _ _ _ body _ => body

/-- Every name that the parameter list introduces, the rest parameter last. -/
def paramNames (fn : Function) : List Ident :=
  Slot.boundNamesOfAll fn.params ++ fn.rest.toList

end Function

end ScriptOptimizer
