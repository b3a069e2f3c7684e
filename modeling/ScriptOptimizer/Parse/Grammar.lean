import ScriptOptimizer.Parse.Stream

/-!
The mutually recursive rules of the grammar as a record. Each rule is written against a record that
stands for the same rules one nesting further in, so rules are ordinary definitions and a whole
grammar is the record built so many times over.
-/

namespace ScriptOptimizer

/-- What a statement is nested in, within its function. -/
structure Context where
  inFunction : Bool := false
  inLoop : Bool := false
  inSwitch : Bool := false
  labels : List Bytes := []
deriving DecidableEq, Repr

namespace Context

/-- The start of a program. -/
def program : Context := {}

/-- The start of a function body. Loops, switches and labels outside it cannot be reached. -/
def function : Context := { inFunction := true }

/-- The body of a loop. -/
def loop (c : Context) : Context := { c with inLoop := true }

/-- The clauses of a switch. -/
def switch (c : Context) : Context := { c with inSwitch := true }

/-- The body of a labelled statement. -/
def label (name : Bytes) (c : Context) : Context := { c with labels := name :: c.labels }

end Context

/-- The rules that refer to each other. The flag of an expression rule says that a bare `in` ends
it. -/
structure Grammar where
  assignment : Bool → Parse Expr
  binary : Nat → Bool → Parse Expr
  unary : Parse Expr
  construct : Parse Expr
  statement : Context → Parse Stmt

namespace Grammar

/-- The rules at a nesting that no text reaches. -/
def empty : Grammar where
  assignment _ := Parse.unexpected []
  binary _ _ := Parse.unexpected []
  unary := Parse.unexpected []
  construct := Parse.unexpected []
  statement _ := Parse.unexpected []

end Grammar

end ScriptOptimizer
