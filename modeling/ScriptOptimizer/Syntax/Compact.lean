import ScriptOptimizer.Syntax.Basic

/-!
The one-line text of a tree, in which every operator application stands in parentheses. It exists
only where every part that it would write is there: an absent slot reads as empty text, an absent
statement, function body or label has no text.
-/

namespace ScriptOptimizer

/-- Is the operator written with a blank before its operand? -/
def isWordOperator (operator : Bytes) : Bool :=
  ["typeof", "void", "delete", "in", "instanceof"].any fun w => Bytes.ofString w = operator

/-- A jump with its label. -/
def Stmt.jumpText (keyword : Bytes) : Option Ident → Bytes
  | none => keyword ++ Bytes.ofString ";"
  | some label => keyword ++ Bytes.ofString " " ++ label.name ++ Bytes.ofString ";"

/-- Does the slot hold a function? -/
def Slot.isFunction : Slot → Bool
  | .holds (.function _ _) => true
  | _ => false

namespace Compact

/-- Parameters beside their defaults. -/
def withDefaults : List Bytes → List (Option (Option Bytes)) → Option (List Bytes)
  | [], _ => some []
  | params, [] => some params
  | p :: params, d :: defaults => do
    let first := match ← d with
      | none => p
      | some value => Bytes.cat [p, " = ", value]
    return first :: (← withDefaults params defaults)

mutual

/-- A slot; one without an expression is empty text. -/
def slot : Slot → Option Bytes
  | .holds e => expr e
  | .absent | .vacant => some []

/-- An expression. -/
def expr : Expr → Option Bytes
  | .ident id => some id.name
  | .literal lit => some lit.raw
  | .this _ => some "this"
  | .array _ elements | .arrayPattern _ elements => do
    let items ← slots elements
    return Bytes.cat ["[", Bytes.join ", " items, "]"]
  | .object _ list | .objectPattern _ list => do
    let items ← properties list
    return Bytes.cat ["\x7b", Bytes.join ", " items, "\x7d"]
  | .function _ fn => do return Bytes.ofString "function" ++ (← function fn)
  | .sequence _ items => do
    let items ← slots items
    return Bytes.cat ["(", Bytes.join ", " items, ")"]
  | .unary _ operator argument => do
    let argument ← slot argument
    return Bytes.cat ["(", operator, if isWordOperator operator then " " else "", argument, ")"]
  | .binary _ operator left right | .logical _ operator left right => do
    let left ← slot left
    let right ← slot right
    return Bytes.cat ["(", left, " ", operator, " ", right, ")"]
  | .assign _ operator left right => do
    let left ← slot left
    let right ← slot right
    return Bytes.cat [left, " ", operator, " ", right]
  | .update _ operator before argument => do
    let argument ← slot argument
    return if before then Bytes.cat ["(", operator, argument, ")"]
      else Bytes.cat ["(", argument, operator, ")"]
  | .conditional _ test consequent alternate => do
    let test ← slot test
    let consequent ← slot consequent
    let alternate ← slot alternate
    return Bytes.cat ["(", test, " ? ", consequent, " : ", alternate, ")"]
  | .construct _ callee arguments => do
    let callee ← slot callee
    let arguments ← slots arguments
    return Bytes.cat ["new ", callee, "(", Bytes.join ", " arguments, ")"]
  | .call _ callee arguments => do
    let callee ← slot callee
    let arguments ← slots arguments
    return Bytes.cat [callee, "(", Bytes.join ", " arguments, ")"]
  | .member _ object property computed => do
    let object ← slot object
    let property ← slot property
    return Bytes.cat (if computed then [object, "[", property, "]"] else [object, ".", property])

/-- The texts of several slots. -/
def slots : List Slot → Option (List Bytes)
  | [] => some []
  | s :: rest => do
    let first ← slot s
    return first :: (← slots rest)

/-- An entry of an object. The value of an accessor continues its key. -/
def property : Property → Option Bytes
  | .absent => none
  | .entry _ kind key value computed shorthand => do
    let key ← slot key
    let key := if computed then Bytes.cat ["[", key, "]"] else key
    if kind = Bytes.ofString "get" || kind = Bytes.ofString "set" then
      match value with
      | .absent => none
      | .holds (.function _ fn) => return Bytes.cat [kind, " ", key, ← function fn]
      | value => if shorthand then return key else return Bytes.cat [key, ": ", ← slot value]
    else if shorthand then return key
    else return Bytes.cat [key, ": ", ← slot value]

/-- The texts of several entries. -/
def properties : List Property → Option (List Bytes)
  | [] => some []
  | p :: rest => do
    let first ← property p
    return first :: (← properties rest)

/-- A function without the word that starts it. -/
def function : Function → Option Bytes
  | .mk id params list rest body generator => do
    let params ← withDefaults (← slots params) (defaults list)
    let rest := rest.toList.map fun r => Bytes.ofString "..." ++ r.name
    let body ← block body
    return Bytes.cat [if generator then "*" else "",
      (match id with
        | some id => Bytes.ofString " " ++ id.name
        | none => []),
      "(", Bytes.join ", " (params ++ rest), ") ", body]

/-- The texts of defaults. Where there is no default there is no text, and a default whose parts are
missing fails only when it is used. -/
def defaults : List Slot → List (Option (Option Bytes))
  | [] => []
  | .absent :: rest => some none :: defaults rest
  | d :: rest => (slot d).map some :: defaults rest

/-- A block. -/
def block : Block → Option Bytes
  | .absent => none
  | .braces _ body => do
    let items ← stmts body
    return if items.isEmpty then Bytes.ofString "\x7b\x7d"
      else Bytes.cat ["\x7b ", Bytes.join " " items, " \x7d"]

/-- The texts of several statements. -/
def stmts : List Stmt → Option (List Bytes)
  | [] => some []
  | s :: rest => do
    let first ← stmt s
    return first :: (← stmts rest)

/-- A statement. -/
def stmt : Stmt → Option Bytes
  | .absent => none
  | .empty _ => some ";"
  | .block _ body => do
    let items ← stmts body
    return if items.isEmpty then Bytes.ofString "\x7b\x7d"
      else Bytes.cat ["\x7b ", Bytes.join " " items, " \x7d"]
  | .expression _ e => do return (← slot e) ++ Bytes.ofString ";"
  | .conditional _ test consequent .absent => do
    let test ← slot test
    let consequent ← stmt consequent
    return Bytes.cat ["if (", test, ") ", consequent]
  | .conditional _ test consequent alternate => do
    let test ← slot test
    let consequent ← stmt consequent
    let alternate ← stmt alternate
    return Bytes.cat ["if (", test, ") ", consequent, " else ", alternate]
  | .labeled _ none _ => none
  | .labeled _ (some label) body => do
    let body ← stmt body
    return Bytes.cat [label.name, ": ", body]
  | .breakTo _ label => some (Stmt.jumpText "break" label)
  | .continueTo _ label => some (Stmt.jumpText "continue" label)
  | .withObject _ object body => do
    let object ← slot object
    let body ← stmt body
    return Bytes.cat ["with (", object, ") ", body]
  | .switchOn _ discriminant list => do
    let discriminant ← slot discriminant
    let list ← cases list
    return Bytes.cat ["switch (", discriminant, ") \x7b",
      Bytes.cat (list.map (Bytes.ofString " " ++ ·)), " \x7d"]
  | .returnValue _ .absent => some "return;"
  | .returnValue _ argument => do return Bytes.cat ["return ", ← slot argument, ";"]
  | .throwValue _ argument => do return Bytes.cat ["throw ", ← slot argument, ";"]
  | .tryCatch _ body guard finalizer => do
    let body ← block body
    let guard ← handler guard
    match finalizer with
    | .absent => return Bytes.cat ["try ", body, guard]
    | finalizer => return Bytes.cat ["try ", body, guard, " finally ", ← block finalizer]
  | .whileLoop _ test body => do
    let test ← slot test
    let body ← stmt body
    return Bytes.cat ["while (", test, ") ", body]
  | .doWhile _ body test => do
    let body ← stmt body
    let test ← slot test
    return Bytes.cat ["do ", body, " while (", test, ");"]
  | .forLoop _ init test update body => do
    let init ← match init with
      | .absent => some []
      | init => forHead init
    let test ← slot test
    let update ← slot update
    let body ← stmt body
    return Bytes.cat ["for (", init, "; ", test, "; ", update, ") ", body]
  | .forIn _ left right body => do
    let left ← forHead left
    let right ← slot right
    let body ← stmt body
    return Bytes.cat ["for (", left, " in ", right, ") ", body]
  | .debugger _ => some "debugger;"
  | .function _ fn => do return Bytes.ofString "function" ++ (← function fn)
  | .declaration _ kind list => do
    let list ← declarators list
    return Bytes.cat [kind, " ", Bytes.join ", " list, ";"]

/-- The texts of several clauses. -/
def cases : List Case → Option (List Bytes)
  | [] => some []
  | c :: rest => do
    let first ← case c
    return first :: (← cases rest)

/-- A clause of a switch. -/
def case : Case → Option Bytes
  | .clause _ test consequent => do
    let text ← slot test
    let head := if test matches .absent then Bytes.ofString "default:"
      else Bytes.cat ["case ", text, ":"]
    let body ← stmts consequent
    return if body.isEmpty then head else Bytes.cat [head, " ", Bytes.join " " body]

/-- The handler of a try statement. -/
def handler : Handler → Option Bytes
  | .absent => some []
  | .clause _ param body => do
    let param ← slot param
    let body ← block body
    return Bytes.cat [" catch (", param, ") ", body]

/-- The texts of several declarators. -/
def declarators : List Declarator → Option (List Bytes)
  | [] => some []
  | d :: rest => do
    let first ← declarator d
    return first :: (← declarators rest)

/-- A declarator. -/
def declarator : Declarator → Option Bytes
  | .bind _ id .absent => slot id
  | .bind _ id init => do
    let id ← slot id
    let init ← slot init
    return Bytes.cat [id, " = ", init]

/-- The first part of a loop head. -/
def forHead : ForHead → Option Bytes
  | .absent => none
  | .declaration _ kind list => do
    let list ← declarators list
    return Bytes.cat [kind, " ", Bytes.join ", " list]
  | .expression s => slot s

end

end Compact

/-- The one-line texts of the statements, each on a line; there is none when a part that would be
written is absent. -/
def Program.compact? (p : Program) : Option Bytes :=
  (Compact.stmts p.body).map (Bytes.join "\n")

end ScriptOptimizer
