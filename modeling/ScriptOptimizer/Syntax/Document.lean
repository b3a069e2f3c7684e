import ScriptOptimizer.Json
import ScriptOptimizer.Syntax.Node

/-!
Trees as ESTree documents. Every object starts with its type; with locations it ends with the lines
and columns and the offsets of its range. What is absent is null.
-/

namespace ScriptOptimizer

namespace Document

/-- A place: the line, and the column counted from zero. -/
def place (p : Place) : Json :=
  .object [("column", .int (p.column - 1)), ("line", .int p.line)]

/-- The fields that say where a node stands. -/
def location (locations : Bool) (s : Span) : List (Bytes × Json) :=
  if locations then
    [("loc", .object [("end", place s.stop), ("start", place s.start)]),
     ("range", .array [.int s.start.offset, .int s.stop.offset])]
  else []

/-- The object of a node. -/
def object (locations : Bool) (type : NodeType) (s : Span) (fields : List (Bytes × Json)) : Json :=
  .object ((Bytes.ofString "type", .text type) :: fields ++ location locations s)

/-- An optional name. -/
def ident (locations : Bool) : Option Ident → Json
  | none => .null
  | some id => object locations "Identifier" id.span [("name", .text id.name)]

/-- The value of a literal. Regular expressions and numbers that are not finite have no JSON
form. -/
def literalValue : LiteralValue → Json
  | .string text => .text text
  | .number value => if value.isFinite then .number value else .null
  | .boolean value => .bool value
  | .invalid | .null | .regexp _ _ | .emptyRegexp => .null

/-- The parts of a regular expression, which its value cannot show. -/
def regexField : LiteralValue → List (Bytes × Json)
  | .regexp pattern flags =>
    [("regex", .object [("flags", .text flags), ("pattern", .text pattern)])]
  | _ => []

/-- The fields of a literal. -/
def literal (lit : Literal) : List (Bytes × Json) :=
  ("value", literalValue lit.value) :: ("raw", .text lit.raw) :: regexField lit.value

mutual

/-- What a slot holds. -/
def slot (locations : Bool) : Slot → Json
  | .holds e => expr locations e
  | .absent | .vacant => .null

/-- What slots hold. -/
def slots (locations : Bool) : List Slot → List Json
  | [] => []
  | s :: rest => slot locations s :: slots locations rest

/-- An expression. -/
def expr (locations : Bool) : Expr → Json
  | .ident id => object locations "Identifier" id.span [("name", .text id.name)]
  | .literal lit => object locations "Literal" lit.span (literal lit)
  | .this s => object locations "ThisExpression" s []
  | .array s elements =>
    object locations "ArrayExpression" s [("elements", .array (slots locations elements))]
  | .object s list =>
    object locations "ObjectExpression" s [("properties", .array (properties locations list))]
  | .function s fn => object locations "FunctionExpression" s (function locations fn)
  | .sequence s items =>
    object locations "SequenceExpression" s [("expressions", .array (slots locations items))]
  | .unary s operator argument =>
    object locations "UnaryExpression" s
      [("operator", .text operator), ("prefix", .bool true), ("argument", slot locations argument)]
  | .binary s operator left right =>
    object locations "BinaryExpression" s
      [("operator", .text operator), ("left", slot locations left), ("right", slot locations right)]
  | .logical s operator left right =>
    object locations "LogicalExpression" s
      [("operator", .text operator), ("left", slot locations left), ("right", slot locations right)]
  | .assign s operator left right =>
    object locations "AssignmentExpression" s
      [("operator", .text operator), ("left", slot locations left), ("right", slot locations right)]
  | .update s operator before argument =>
    object locations "UpdateExpression" s
      [("operator", .text operator), ("prefix", .bool before),
       ("argument", slot locations argument)]
  | .conditional s test consequent alternate =>
    object locations "ConditionalExpression" s
      [("test", slot locations test), ("consequent", slot locations consequent),
       ("alternate", slot locations alternate)]
  | .construct s callee arguments =>
    object locations "NewExpression" s
      [("callee", slot locations callee), ("arguments", .array (slots locations arguments))]
  | .call s callee arguments =>
    object locations "CallExpression" s
      [("callee", slot locations callee), ("arguments", .array (slots locations arguments))]
  | .member s target property computed =>
    object locations "MemberExpression" s
      [("object", slot locations target), ("property", slot locations property),
       ("computed", .bool computed)]
  | .objectPattern s list =>
    object locations "ObjectPattern" s [("properties", .array (properties locations list))]
  | .arrayPattern s elements =>
    object locations "ArrayPattern" s [("elements", .array (slots locations elements))]

/-- An entry of an object. -/
def property (locations : Bool) : Property → Json
  | .absent => .null
  | .entry s kind key value computed shorthand =>
    object locations "Property" s
      [("key", slot locations key), ("value", slot locations value), ("kind", .text kind),
       ("computed", .bool computed), ("shorthand", .bool shorthand)]

/-- The entries of an object. -/
def properties (locations : Bool) : List Property → List Json
  | [] => []
  | p :: rest => property locations p :: properties locations rest

/-- The fields of a function. -/
def function (locations : Bool) : Function → List (Bytes × Json)
  | .mk id params defaults rest body generator =>
    [("id", ident locations id), ("params", .array (slots locations params)),
     ("defaults", .array (slots locations defaults)), ("rest", ident locations rest),
     ("body", block locations body), ("generator", .bool generator), ("expression", .bool false)]

/-- A block. -/
def block (locations : Bool) : Block → Json
  | .absent => .null
  | .braces s body => object locations "BlockStatement" s [("body", .array (stmts locations body))]

/-- Statements. -/
def stmts (locations : Bool) : List Stmt → List Json
  | [] => []
  | s :: rest => stmt locations s :: stmts locations rest

/-- A statement. -/
def stmt (locations : Bool) : Stmt → Json
  | .absent => .null
  | .empty s => object locations "EmptyStatement" s []
  | .block s body => object locations "BlockStatement" s [("body", .array (stmts locations body))]
  | .expression s e => object locations "ExpressionStatement" s [("expression", slot locations e)]
  | .conditional s test consequent alternate =>
    object locations "IfStatement" s
      [("test", slot locations test), ("consequent", stmt locations consequent),
       ("alternate", stmt locations alternate)]
  | .labeled s label body =>
    object locations "LabeledStatement" s
      [("label", ident locations label), ("body", stmt locations body)]
  | .breakTo s label => object locations "BreakStatement" s [("label", ident locations label)]
  | .continueTo s label => object locations "ContinueStatement" s [("label", ident locations label)]
  | .withObject s target body =>
    object locations "WithStatement" s
      [("object", slot locations target), ("body", stmt locations body)]
  | .switchOn s discriminant list =>
    object locations "SwitchStatement" s
      [("discriminant", slot locations discriminant), ("cases", .array (cases locations list))]
  | .returnValue s argument =>
    object locations "ReturnStatement" s [("argument", slot locations argument)]
  | .throwValue s argument =>
    object locations "ThrowStatement" s [("argument", slot locations argument)]
  | .tryCatch s main guard finalizer =>
    object locations "TryStatement" s
      [("block", block locations main), ("handler", handler locations guard),
       ("finalizer", block locations finalizer)]
  | .whileLoop s test body =>
    object locations "WhileStatement" s
      [("test", slot locations test), ("body", stmt locations body)]
  | .doWhile s body test =>
    object locations "DoWhileStatement" s
      [("body", stmt locations body), ("test", slot locations test)]
  | .forLoop s init test update body =>
    object locations "ForStatement" s
      [("init", forHead locations init), ("test", slot locations test),
       ("update", slot locations update), ("body", stmt locations body)]
  | .forIn s left right body =>
    object locations "ForInStatement" s
      [("left", forHead locations left), ("right", slot locations right),
       ("body", stmt locations body), ("each", .bool false)]
  | .debugger s => object locations "DebuggerStatement" s []
  | .function s fn => object locations "FunctionDeclaration" s (function locations fn)
  | .declaration s kind list =>
    object locations "VariableDeclaration" s
      [("declarations", .array (declarators locations list)), ("kind", .text kind)]

/-- The clauses of a switch. -/
def cases (locations : Bool) : List Case → List Json
  | [] => []
  | c :: rest => case locations c :: cases locations rest

/-- A clause of a switch. -/
def case (locations : Bool) : Case → Json
  | .clause s test consequent =>
    object locations "SwitchCase" s
      [("test", slot locations test), ("consequent", .array (stmts locations consequent))]

/-- The handler of a try statement. -/
def handler (locations : Bool) : Handler → Json
  | .absent => .null
  | .clause s param body =>
    object locations "CatchClause" s
      [("param", slot locations param), ("body", block locations body)]

/-- Declarators. -/
def declarators (locations : Bool) : List Declarator → List Json
  | [] => []
  | d :: rest => declarator locations d :: declarators locations rest

/-- A declarator. -/
def declarator (locations : Bool) : Declarator → Json
  | .bind s id init =>
    object locations "VariableDeclarator" s
      [("id", slot locations id), ("init", slot locations init)]

/-- The first part of a loop head. -/
def forHead (locations : Bool) : ForHead → Json
  | .absent => .null
  | .declaration s kind list =>
    object locations "VariableDeclaration" s
      [("declarations", .array (declarators locations list)), ("kind", .text kind)]
  | .expression e => slot locations e

end

end Document

/-- The ESTree document of a program. -/
def Program.document (locations : Bool) (p : Program) : Json :=
  Document.object locations "Program" p.span [("body", .array (Document.stmts locations p.body))]

/-- The ESTree text of a program on one line, without locations. -/
def Program.estree (p : Program) : Bytes := (p.document false).compact

end ScriptOptimizer
