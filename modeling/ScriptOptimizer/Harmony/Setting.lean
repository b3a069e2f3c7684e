import ScriptOptimizer.Harmony.Token

/-!
What a place in a program is nested in. It decides which words may be names there and which
statements may stand there.
-/

namespace ScriptOptimizer.Harmony

/-- What a place in a program is nested in. -/
structure Setting where
  allowIn : Bool := true
  allowYield : Bool := false
  allowAwait : Bool := false
  inAsync : Bool := false
  inParameters : Bool := false
  inFunction : Bool := false
  inLoop : Bool := false
  inSwitch : Bool := false
  labels : List Bytes := []
deriving DecidableEq, Repr

namespace Setting

/-- The start of a function body. Loops, switches and labels outside it cannot be reached. -/
def function (async allowAwait allowYield : Bool) : Setting :=
  { inFunction := true, inAsync := async, allowAwait := allowAwait, allowYield := allowYield }

/-- Inside an operand, where a bare `in` is an operator again. -/
def operand (c : Setting) : Setting := { c with allowIn := true }

/-- The head of a loop, where a bare `in` is none. -/
def loopHead (c : Setting) : Setting := { c with allowIn := false }

/-- The body of a loop. -/
def loop (c : Setting) : Setting := { c with inLoop := true }

/-- The clauses of a switch. -/
def switch (c : Setting) : Setting := { c with inSwitch := true }

/-- The body of a labelled statement. -/
def label (name : Bytes) (c : Setting) : Setting := { c with labels := name :: c.labels }

/-- The name, parameters and initializers of a function of this sort. -/
def functionHead (async generator : Bool) (c : Setting) : Setting :=
  { c with allowAwait := async, allowYield := generator }

/-- The parameters of a function. -/
def parameters (c : Setting) : Setting := { c with inParameters := true }

/-- Where `await` is an operator. -/
def awaiting (c : Setting) : Setting := { c with allowAwait := true }

/-- The body of an arrow function without braces. It keeps what it is nested in unless the two
differ in being asynchronous. -/
def arrowBody (async : Bool) (c : Setting) : Setting :=
  if async ≠ c.inAsync || async ≠ c.allowAwait then
    { c with inAsync := async, allowAwait := async, allowYield := false }
  else c

/-- Can the token be a name here? -/
def takesAsName (c : Setting) : Lexeme → Bool
  | .name | .kwLet | .kwStatic | .kwAsync => true
  | .kwAwait => !c.allowAwait
  | .kwYield => !c.allowYield
  | _ => false

end Setting

end ScriptOptimizer.Harmony
