import ScriptOptimizer.Syntax.Basic

/-!
Nodes of every sort under one roof: their types, their ranges and their direct children in the order
of their parts.
-/

namespace ScriptOptimizer

/-- The ESTree name of a sort of node. -/
abbrev NodeType := String

namespace NodeType

/-- Does the type tag a declaration? -/
def isDeclaration (t : NodeType) : Bool := t = "FunctionDeclaration" || t = "VariableDeclaration"

/-- Does the type tag a statement, declarations included? -/
def isStatement (t : NodeType) : Bool :=
  Bytes.endsWith (Bytes.ofString t) "Statement" || isDeclaration t

/-- Does the type tag an expression, identifiers and literals included? -/
def isExpression (t : NodeType) : Bool :=
  Bytes.endsWith (Bytes.ofString t) "Expression" || t = "Identifier" || t = "Literal"

/-- Does the type tag a destructuring pattern? -/
def isPattern (t : NodeType) : Bool := t = "ObjectPattern" || t = "ArrayPattern"

/-- Does the type tag a node that owns a function scope? -/
def isFunction (t : NodeType) : Bool := t = "FunctionDeclaration" || t = "FunctionExpression"

/-- Does a node of this type have a scope of its own? -/
def isScopeOwner (t : NodeType) : Bool := t = "Program" || isFunction t

end NodeType

namespace Expr

/-- The type of an expression. -/
def type : Expr → NodeType
  | ident _ => "Identifier"
  | literal _ => "Literal"
  | this _ => "ThisExpression"
  | array _ _ => "ArrayExpression"
  | object _ _ => "ObjectExpression"
  | function _ _ => "FunctionExpression"
  | sequence _ _ => "SequenceExpression"
  | unary _ _ _ => "UnaryExpression"
  | binary _ _ _ _ => "BinaryExpression"
  | logical _ _ _ _ => "LogicalExpression"
  | assign _ _ _ _ => "AssignmentExpression"
  | update _ _ _ _ => "UpdateExpression"
  | conditional _ _ _ _ => "ConditionalExpression"
  | construct _ _ _ => "NewExpression"
  | call _ _ _ => "CallExpression"
  | member _ _ _ _ => "MemberExpression"
  | objectPattern _ _ => "ObjectPattern"
  | arrayPattern _ _ => "ArrayPattern"

/-- The range of an expression. -/
def span : Expr → Span
  | ident id => id.span
  | literal lit => lit.span
  | this s | array s _ | object s _ | function s _ | sequence s _ | unary s _ _ | binary s _ _ _
  | logical s _ _ _ | assign s _ _ _ | update s _ _ _ | conditional s _ _ _ | construct s _ _
  | call s _ _ | member s _ _ _ | objectPattern s _ | arrayPattern s _ => s

end Expr

namespace Slot

/-- The expression in a slot. -/
def expr? : Slot → Option Expr
  | holds e => some e
  | _ => none

/-- Is there no slot at all? -/
def isAbsent : Slot → Bool
  | absent => true
  | _ => false

end Slot

/-- Is it the default clause? -/
def Case.isDefault : Case → Bool
  | .clause _ test _ => test.isAbsent

namespace Stmt

/-- The type of a statement; an absent one has none. -/
def type : Stmt → NodeType
  | absent => ""
  | empty _ => "EmptyStatement"
  | block _ _ => "BlockStatement"
  | expression _ _ => "ExpressionStatement"
  | conditional _ _ _ _ => "IfStatement"
  | labeled _ _ _ => "LabeledStatement"
  | breakTo _ _ => "BreakStatement"
  | continueTo _ _ => "ContinueStatement"
  | withObject _ _ _ => "WithStatement"
  | switchOn _ _ _ => "SwitchStatement"
  | returnValue _ _ => "ReturnStatement"
  | throwValue _ _ => "ThrowStatement"
  | tryCatch _ _ _ _ => "TryStatement"
  | whileLoop _ _ _ => "WhileStatement"
  | doWhile _ _ _ => "DoWhileStatement"
  | forLoop _ _ _ _ _ => "ForStatement"
  | forIn _ _ _ _ => "ForInStatement"
  | debugger _ => "DebuggerStatement"
  | function _ _ => "FunctionDeclaration"
  | declaration _ _ _ => "VariableDeclaration"

/-- The range of a statement. -/
def span : Stmt → Span
  | absent => Span.none
  | empty s | block s _ | expression s _ | conditional s _ _ _ | labeled s _ _ | breakTo s _
  | continueTo s _ | withObject s _ _ | switchOn s _ _ | returnValue s _ | throwValue s _
  | tryCatch s _ _ _ | whileLoop s _ _ | doWhile s _ _ | forLoop s _ _ _ _ | forIn s _ _ _
  | debugger s | function s _ | declaration s _ _ => s

/-- Is there a statement? -/
def isPresent : Stmt → Bool
  | absent => false
  | _ => true

/-- Is it a bare literal, as the directives at the start of a body are? -/
def isDirective : Stmt → Bool
  | expression _ (.holds (.literal _)) => true
  | _ => false

end Stmt

namespace Block

/-- A block as a statement. -/
def stmt : Block → Stmt
  | absent => .absent
  | braces span body => .block span body

end Block

/-- A node of a tree. -/
inductive Node where
  | program (p : Program)
  | stmt (s : Stmt)
  | expr (e : Expr)
  | property (p : Property)
  | case (c : Case)
  | handler (h : Handler)
  | declarator (d : Declarator)

/-- A direct child of a node, and whether it sits in a slot. -/
structure Child where
  node : Node
  inSlot : Bool

namespace Node

/-- The type of a node. -/
def type : Node → NodeType
  | program _ => "Program"
  | stmt s => s.type
  | expr e => e.type
  | property _ => "Property"
  | case _ => "SwitchCase"
  | handler _ => "CatchClause"
  | declarator _ => "VariableDeclarator"

/-- The range of a node. -/
def span : Node → Span
  | program p => p.span
  | stmt s => s.span
  | expr e => e.span
  | property (.entry s _ _ _ _ _) => s
  | property .absent => Span.none
  | case (.clause s _ _) => s
  | handler (.clause s _ _) => s
  | handler .absent => Span.none
  | declarator (.bind s _ _) => s

end Node

/-- How a node can be told in the source: by its type and its range. -/
structure Landmark where
  type : NodeType
  span : Span
deriving DecidableEq, Repr

/-- The landmark of a node. -/
def Node.landmark (n : Node) : Landmark := ⟨n.type, n.span⟩

namespace Child

/-- The child in a slot. -/
def slot : Slot → List Child
  | .holds e => [⟨.expr e, true⟩]
  | _ => []

/-- The children in slots. -/
def slots (list : List Slot) : List Child := list.flatMap slot

/-- A statement that is present. -/
def stmt (s : Stmt) : List Child := if s.isPresent then [⟨.stmt s, false⟩] else []

/-- The statements that are present. -/
def stmts (list : List Stmt) : List Child := list.flatMap stmt

/-- A name outside slots. -/
def ident : Option Ident → List Child
  | some id => [⟨.expr (.ident id), false⟩]
  | none => []

/-- A block that is present. -/
def block (b : Block) : List Child := stmt b.stmt

/-- The properties that are present. -/
def properties (list : List Property) : List Child :=
  list.flatMap fun
    | .absent => []
    | p => [⟨.property p, false⟩]

/-- Declarators. -/
def declarators (list : List Declarator) : List Child := list.map fun d => ⟨.declarator d, false⟩

/-- The first part of a loop head. -/
def forHead : ForHead → List Child
  | .absent => []
  | .declaration span kind list => [⟨.stmt (.declaration span kind list), false⟩]
  | .expression s => slot s

/-- The parts of a function. -/
def function : Function → List Child
  | .mk id params defaults rest body _ =>
    ident id ++ slots params ++ slots defaults ++ ident rest ++ block body

/-- The children of an expression. -/
def ofExpr : Expr → List Child
  | .ident _ | .literal _ | .this _ => []
  | .array _ elements | .arrayPattern _ elements => slots elements
  | .object _ list | .objectPattern _ list => properties list
  | .function _ fn => function fn
  | .sequence _ items => slots items
  | .unary _ _ argument | .update _ _ _ argument => slot argument
  | .binary _ _ left right | .logical _ _ left right | .assign _ _ left right =>
    slot left ++ slot right
  | .conditional _ test consequent alternate => slot test ++ slot consequent ++ slot alternate
  | .construct _ callee arguments | .call _ callee arguments => slot callee ++ slots arguments
  | .member _ object property _ => slot object ++ slot property

/-- The children of a statement. -/
def ofStmt : Stmt → List Child
  | .absent | .empty _ | .debugger _ => []
  | .block _ body => stmts body
  | .expression _ expr => slot expr
  | .conditional _ test consequent alternate => slot test ++ stmt consequent ++ stmt alternate
  | .labeled _ label body => ident label ++ stmt body
  | .breakTo _ label | .continueTo _ label => ident label
  | .withObject _ object body => slot object ++ stmt body
  | .switchOn _ discriminant cases => slot discriminant ++ cases.map fun c => ⟨.case c, false⟩
  | .returnValue _ argument | .throwValue _ argument => slot argument
  | .tryCatch _ body handler finalizer =>
    block body ++ (match handler with
      | .absent => []
      | h => [⟨.handler h, false⟩]) ++ block finalizer
  | .whileLoop _ test body => slot test ++ stmt body
  | .doWhile _ body test => stmt body ++ slot test
  | .forLoop _ init test update body => forHead init ++ slot test ++ slot update ++ stmt body
  | .forIn _ left right body => forHead left ++ slot right ++ stmt body
  | .function _ fn => function fn
  | .declaration _ _ list => declarators list

end Child

/-- The direct children of a node in the order of its parts. What is absent is left out, and the
value of a shorthand property is its key. -/
def Node.children : Node → List Child
  | program p => Child.stmts p.body
  | stmt s => Child.ofStmt s
  | expr e => Child.ofExpr e
  | property (.entry _ _ key value _ shorthand) =>
    Child.slot key ++ if shorthand then [] else Child.slot value
  | property .absent => []
  | case (.clause _ test consequent) => Child.slot test ++ Child.stmts consequent
  | handler (.clause _ param body) => Child.slot param ++ Child.block body
  | handler .absent => []
  | declarator (.bind _ id init) => Child.slot id ++ Child.slot init

end ScriptOptimizer
