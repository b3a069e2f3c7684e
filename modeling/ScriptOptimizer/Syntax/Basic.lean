import ScriptOptimizer.Decimal.Binary64
import ScriptOptimizer.Syntax.Span

/-!
The syntax tree of a program. Expressions sit in slots, which can be given another expression; a
tree that was built by hand may lack any of its parts, so a slot can be absent or vacant, and
statements, blocks, properties and handlers can be absent.
-/

namespace ScriptOptimizer

/-- A name at a place. -/
structure Ident where
  span : Span
  name : Bytes
deriving DecidableEq, Repr, Inhabited

/-- What a literal denotes. A literal without a usable value is invalid. -/
inductive LiteralValue where
  | invalid
  | string (text : Bytes)
  | number (value : Binary64)
  | boolean (value : Bool)
  | null
  | regexp (pattern flags : Bytes)
  | emptyRegexp
deriving DecidableEq, Repr

namespace LiteralValue

/-- The word for the kind of a value. -/
def kindName : LiteralValue → String
  | invalid => "invalid"
  | string _ => "string"
  | number _ => "number"
  | boolean _ => "boolean"
  | null => "null"
  | regexp _ _ | emptyRegexp => "regexp"

/-- The word for the kind with a number; numbers beyond the last kind are invalid. -/
def kindOfIndex (n : Nat) : String :=
  ["invalid", "string", "number", "boolean", "null", "regexp"].getD n "invalid"

/-- Is there a usable value? -/
def isUsable : LiteralValue → Bool
  | invalid | emptyRegexp => false
  | _ => true

end LiteralValue

/-- A literal: its text in the source and what that denotes. -/
structure Literal where
  span : Span
  raw : Bytes
  value : LiteralValue
deriving DecidableEq, Repr

mutual

/-- A place for an expression: there is none, it is vacant, or it holds one. -/
inductive Slot where
  | absent
  | vacant
  | holds (expr : Expr)

/-- Expressions and binding patterns. -/
inductive Expr where
  | ident (id : Ident)
  | literal (lit : Literal)
  | this (span : Span)
  | array (span : Span) (elements : List Slot)
  | object (span : Span) (properties : List Property)
  | function (span : Span) (fn : Function)
  | sequence (span : Span) (items : List Slot)
  | unary (span : Span) (operator : Bytes) (argument : Slot)
  | binary (span : Span) (operator : Bytes) (left right : Slot)
  | logical (span : Span) (operator : Bytes) (left right : Slot)
  | assign (span : Span) (operator : Bytes) (left right : Slot)
  | update (span : Span) (operator : Bytes) (before : Bool) (argument : Slot)
  | conditional (span : Span) (test consequent alternate : Slot)
  | construct (span : Span) (callee : Slot) (arguments : List Slot)
  | call (span : Span) (callee : Slot) (arguments : List Slot)
  | member (span : Span) (object property : Slot) (computed : Bool)
  | objectPattern (span : Span) (properties : List Property)
  | arrayPattern (span : Span) (elements : List Slot)

/-- An entry of an object or object pattern. Its kind is `init`, `get` or `set`. -/
inductive Property where
  | absent
  | entry (span : Span) (kind : Bytes) (key value : Slot) (computed shorthand : Bool)

/-- What function declarations and function expressions share. `defaults` runs beside `params`; a
parameter beyond its end has no default. -/
inductive Function where
  | mk (id : Option Ident) (params defaults : List Slot) (rest : Option Ident) (body : Block)
      (generator : Bool)

/-- A braced list of statements. -/
inductive Block where
  | absent
  | braces (span : Span) (body : List Stmt)

/-- Statements and declarations. -/
inductive Stmt where
  | absent
  | empty (span : Span)
  | block (span : Span) (body : List Stmt)
  | expression (span : Span) (expr : Slot)
  | conditional (span : Span) (test : Slot) (consequent alternate : Stmt)
  | labeled (span : Span) (label : Option Ident) (body : Stmt)
  | breakTo (span : Span) (label : Option Ident)
  | continueTo (span : Span) (label : Option Ident)
  | withObject (span : Span) (object : Slot) (body : Stmt)
  | switchOn (span : Span) (discriminant : Slot) (cases : List Case)
  | returnValue (span : Span) (argument : Slot)
  | throwValue (span : Span) (argument : Slot)
  | tryCatch (span : Span) (block : Block) (handler : Handler) (finalizer : Block)
  | whileLoop (span : Span) (test : Slot) (body : Stmt)
  | doWhile (span : Span) (body : Stmt) (test : Slot)
  | forLoop (span : Span) (init : ForHead) (test update : Slot) (body : Stmt)
  | forIn (span : Span) (left : ForHead) (right : Slot) (body : Stmt)
  | debugger (span : Span)
  | function (span : Span) (fn : Function)
  | declaration (span : Span) (kind : Bytes) (declarators : List Declarator)

/-- A clause of a switch; a default clause has no test. -/
inductive Case where
  | clause (span : Span) (test : Slot) (consequent : List Stmt)

/-- The handler of a try statement. -/
inductive Handler where
  | absent
  | clause (span : Span) (param : Slot) (body : Block)

/-- A binding target with an optional initializer. -/
inductive Declarator where
  | bind (span : Span) (id init : Slot)

/-- The first part of a loop head: a declaration or an expression. -/
inductive ForHead where
  | absent
  | declaration (span : Span) (kind : Bytes) (declarators : List Declarator)
  | expression (slot : Slot)

end

instance : Inhabited Slot := ⟨.absent⟩
instance : Inhabited Property := ⟨.absent⟩
instance : Inhabited Block := ⟨.absent⟩
instance : Inhabited Stmt := ⟨.absent⟩
instance : Inhabited Handler := ⟨.absent⟩
instance : Inhabited ForHead := ⟨.absent⟩
instance : Inhabited Function := ⟨.mk none [] [] none .absent false⟩

/-- A whole program. -/
structure Program where
  span : Span
  body : List Stmt

end ScriptOptimizer
