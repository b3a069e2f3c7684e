import ScriptOptimizer.Harmony.Token
import ScriptOptimizer.Syntax.Basic

/-!
The tree of a program in the newer language. A compound assignment is kept by the operator it
computes with, a key that is a plain word as a string without quotes, an element left out of an
array as a hole, and `++` or `--` with a flag that says on which side it stands. What the optimizer
has no tree for is kept as a leaf that says what it is and where.
-/

namespace ScriptOptimizer.Harmony

/-- A range of offsets. -/
structure Range where
  start : Int
  stop : Int
deriving DecidableEq, Repr, Inhabited

/-- From the start of one range to the end of another. -/
def Range.to (first last : Range) : Range := ⟨first.start, last.stop⟩

/-- A name at a place. -/
structure Name where
  start : Nat
  text : Bytes
deriving DecidableEq, Repr

/-- The range of a name. -/
def Name.range (n : Name) : Range := ⟨n.start, n.start + nameWidth n.text⟩

/-- Expressions that the optimizer has no tree for. What could not be read is `malformed`, and what
is of a type that is not among those of this language is `other`. -/
inductive Foreign where
  | arrowFunction
  | classExpression
  | templateLiteral
  | bigInteger
  | optionalChain
  | metaProperty
  | yieldExpression
  | awaitExpression
  | superExpression
  | privateName
  | privateMember
  | malformed
  | other (type : Bytes)
deriving DecidableEq, Repr

namespace Foreign

/-- What messages call the expression. -/
def text : Foreign → Bytes
  | arrowFunction => "arrow function"
  | classExpression => "class expression"
  | templateLiteral => "template literal"
  | bigInteger => "bigint literal"
  | optionalChain => "expression *ast.OptionalChain"
  | metaProperty => "expression *ast.MetaProperty"
  | yieldExpression => "expression *ast.YieldExpression"
  | awaitExpression => "expression *ast.AwaitExpression"
  | superExpression => "expression *ast.SuperExpression"
  | privateName => "expression *ast.PrivateIdentifier"
  | privateMember => "expression *ast.PrivateDotExpression"
  | malformed => "expression *ast.BadExpression"
  | other type => "expression " ++ type

end Foreign

/-- What an entry of an object is: a value after its key, a method, or an accessor. -/
inductive EntryKind where
  | value
  | method
  | getter
  | setter
deriving DecidableEq, Repr

/-- The words that can start a declaration of variables. -/
inductive DeclarationKind where
  | varKind
  | letKind
  | constKind
deriving DecidableEq, Repr

/-- The spelling of the word. -/
def DeclarationKind.text : DeclarationKind → Bytes
  | varKind => "var"
  | letKind => "let"
  | constKind => "const"

mutual

/-- Expressions, and the targets of bindings and assignments. An expression that may be left out and
is left out is `absent`, and so is a hole of an array. The last element of a pattern may be spread;
it takes the rest. -/
inductive Expression where
  | absent
  | name (id : Name)
  | this (range : Range)
  | literal (range : Range) (raw : Bytes) (value : LiteralValue)
  | array (range : Range) (elements : List Expression)
  | object (range : Range) (entries : List Entry)
  | arrayPattern (range : Range) (elements : List Expression)
  | objectPattern (range : Range) (entries : List Entry)
  | spread (argument : Expression)
  | function (fn : Function)
  | sequence (range : Range) (items : List Expression)
  | unary (range : Range) (operator : Bytes) (operand : Expression)
  | update (range : Range) (operator : Bytes) (postfixed : Bool) (operand : Expression)
  | binary (range : Range) (operator : Bytes) (left right : Expression)
  | assign (range : Range) (compound : Option Bytes) (left right : Expression)
  | conditional (range : Range) (test consequent alternate : Expression)
  | construct (range : Range) (callee : Expression) (arguments : List Expression)
  | call (range : Range) (callee : Expression) (arguments : List Expression)
  | dot (range : Range) (object : Expression) (property : Name)
  | index (range : Range) (object property : Expression)
  | foreign (range : Range) (what : Foreign)

/-- An entry of an object or object pattern. -/
inductive Entry where
  | keyed (range : Range) (kind : EntryKind) (computed : Bool) (key value : Expression)
  | short (id : Name) (initializer : Expression)
  | spread (argument : Expression)

/-- A target with the value it takes when there is none for it. -/
inductive Binding where
  | bind (target initializer : Expression)

/-- A function. The parameter that takes the rest of the arguments may be absent. -/
inductive Function where
  | mk (range : Range) (async generator : Bool) (id : Option Name) (params : List Binding)
      (rest : Expression) (body : Block)

/-- A braced list of statements, where there is one. -/
inductive Block where
  | absent
  | braces (range : Range) (body : List Statement)

/-- Statements and declarations. A statement that may be left out and is left out is `absent`; a
statement of any type that is not among those of this language is `foreign`. -/
inductive Statement where
  | absent
  | empty (range : Range)
  | block (block : Block)
  | expression (expr : Expression)
  | conditional (range : Range) (test : Expression) (consequent alternate : Statement)
  | labeled (range : Range) (label : Name) (body : Statement)
  | breakTo (range : Range) (label : Option Name)
  | continueTo (range : Range) (label : Option Name)
  | withObject (range : Range) (object : Expression) (body : Statement)
  | switchOn (range : Range) (discriminant : Expression) (cases : List Case)
  | returnValue (range : Range) (argument : Expression)
  | throwValue (range : Range) (argument : Expression)
  | tryCatch (range : Range) (block : Block) (handler : Handler) (finalizer : Block)
  | whileLoop (range : Range) (test : Expression) (body : Statement)
  | doWhile (range : Range) (body : Statement) (test : Expression)
  | forLoop (range : Range) (init : LoopHead) (test update : Expression) (body : Statement)
  | forIn (range : Range) (head : LoopHead) (source : Expression) (body : Statement)
  | forOf (range : Range)
  | debugger (range : Range)
  | declaration (range : Range) (kind : DeclarationKind) (bindings : List Binding)
  | function (fn : Function)
  | classDeclaration (range : Range)
  | foreign (range : Range) (type : Bytes)

/-- A clause of a switch. The test is absent from a default clause. -/
inductive Case where
  | clause (start : Int) (test : Expression) (consequent : List Statement)

/-- The handler of a try statement. Its parameter may be absent. -/
inductive Handler where
  | absent
  | clause (range : Range) (param : Expression) (body : Block)

/-- The first part of a loop head. -/
inductive LoopHead where
  | absent
  | declaration (range : Range) (kind : DeclarationKind) (bindings : List Binding)
  | expression (expr : Expression)

end

/-- A whole program. -/
structure Script where
  body : List Statement

instance : Inhabited Expression := ⟨.absent⟩
instance : Inhabited Block := ⟨.absent⟩
instance : Inhabited Statement := ⟨.absent⟩

mutual

/-- The range of an expression. One that is absent has none. -/
def Expression.range : Expression → Range
  | .absent => ⟨0, 0⟩
  | .name id => id.range
  | .spread argument => argument.range
  | .function fn => fn.range
  | .this range | .literal range _ _ | .array range _ | .object range _ | .arrayPattern range _
  | .objectPattern range _ | .sequence range _ | .unary range _ _ | .update range _ _ _
  | .binary range _ _ _ | .assign range _ _ _ | .conditional range _ _ _ | .construct range _ _
  | .call range _ _ | .dot range _ _ | .index range _ _ | .foreign range _ => range

/-- The range of a function. -/
def Function.range : Function → Range
  | .mk range _ _ _ _ _ _ => range

end

namespace Expression

/-- Is there none? -/
def isAbsent : Expression → Bool
  | absent => true
  | _ => false

/-- What stands for an expression that could not be read. -/
def unread : Expression := foreign ⟨0, 0⟩ .malformed

/-- Could it not be read? -/
def isUnread : Expression → Bool
  | foreign _ .malformed => true
  | _ => false

/-- May it be assigned to, or stepped by `++` and `--`? -/
def isAssignable : Expression → Bool
  | name _ | dot _ _ _ | index _ _ _ | foreign _ .privateMember => true
  | _ => false

end Expression

/-- The range of an entry. -/
def Entry.range : Entry → Range
  | .keyed range _ _ _ _ => range
  | .short id initializer =>
    if initializer.isAbsent then id.range else id.range.to initializer.range
  | .spread argument => argument.range

/-- The range of a binding: its target, up to the initializer if there is one. -/
def Binding.range : Binding → Range
  | .bind target initializer =>
    if initializer.isAbsent then target.range else target.range.to initializer.range

/-- The range of a block. -/
def Block.range : Block → Range
  | .absent => ⟨0, 0⟩
  | .braces range _ => range

/-- The range of a statement. -/
def Statement.range : Statement → Range
  | .absent => ⟨0, 0⟩
  | .block b => b.range
  | .expression e => e.range
  | .function fn => fn.range
  | .empty range | .conditional range _ _ _ | .labeled range _ _ | .breakTo range _
  | .continueTo range _ | .withObject range _ _ | .switchOn range _ _ | .returnValue range _
  | .throwValue range _ | .tryCatch range _ _ _ | .whileLoop range _ _ | .doWhile range _ _
  | .forLoop range _ _ _ _ | .forIn range _ _ _ | .forOf range | .debugger range
  | .declaration range _ _ | .classDeclaration range | .foreign range _ => range

/-- What stands for a statement that could not be read. -/
def Statement.unread : Statement := .expression Expression.unread

/-- The range of a list of statements, which an empty list lacks. -/
def Statement.rangeOfList? (list : List Statement) : Option Range :=
  match list.head?, list.getLast? with
  | some first, some last => some (first.range.to last.range)
  | _, _ => none

/-- The range of a clause, which a clause without statements lacks. -/
def Case.range? : Case → Option Range
  | .clause start _ consequent => consequent.getLast?.map fun last => ⟨start, last.range.stop⟩

end ScriptOptimizer.Harmony
