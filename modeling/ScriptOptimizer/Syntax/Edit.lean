import ScriptOptimizer.Syntax.Node

/-!
Editing a tree at places that were found while walking it. A place is given by the way to it from
the root; an edit puts a name into a slot, or statements after the leading literals of a body.
-/

namespace ScriptOptimizer

/-- The way to a node: the number of each child among its parent's children, the innermost first. -/
abbrev Path := List Nat

/-- The edits to a tree: names to put into slots, the latest first, and statements to put into the
bodies of programs and functions. -/
structure Edits where
  names : List (Path × Ident) := []
  bodies : List (Path × List Stmt) := []

namespace Edits

/-- The name that goes into a slot. -/
def name? (e : Edits) (place : Path) : Option Ident :=
  (e.names.find? fun entry => entry.1 = place).map (·.2)

/-- The statements that go into a body. -/
def inserted (e : Edits) (owner : Path) : List Stmt :=
  ((e.bodies.find? fun entry => entry.1 = owner).map (·.2)).getD []

/-- Puts a name into a slot. -/
def putName (place : Path) (id : Ident) (e : Edits) : Edits :=
  { e with names := (place, id) :: e.names }

/-- Puts a statement among those that go into a body, after so many of them. -/
def insert (owner : Path) (position : Nat) (s : Stmt) (e : Edits) : Edits :=
  let before := e.inserted owner
  { e with bodies := (owner, before.take position ++ s :: before.drop position) :: e.bodies }

/-- A body with statements after its leading literals. -/
def splice (new body : List Stmt) : List Stmt :=
  body.takeWhile (·.isDirective) ++ new ++ body.dropWhile (·.isDirective)

mutual

/-- A slot at a place. -/
def slot (e : Edits) (place : Path) : Slot → Slot
  | .holds x => match e.name? place with
    | some id => .holds (.ident id)
    | none => .holds (expr e place x)
  | .absent => .absent
  | .vacant => .vacant

/-- Slots that are the children of one node from a number on. -/
def slots (e : Edits) (parent : Path) (first : Nat) : List Slot → List Slot
  | [] => []
  | s :: rest =>
    slot e (first :: parent) s :: slots e parent (first + (Child.slot s).length) rest

/-- An expression at a place. -/
def expr (e : Edits) (place : Path) : Expr → Expr
  | .ident id => .ident id
  | .literal lit => .literal lit
  | .this s => .this s
  | .array s elements => .array s (slots e place 0 elements)
  | .arrayPattern s elements => .arrayPattern s (slots e place 0 elements)
  | .object s list => .object s (properties e place 0 list)
  | .objectPattern s list => .objectPattern s (properties e place 0 list)
  | .function s fn => .function s (function e place fn)
  | .sequence s items => .sequence s (slots e place 0 items)
  | .unary s operator argument => .unary s operator (slot e (0 :: place) argument)
  | .update s operator before argument => .update s operator before (slot e (0 :: place) argument)
  | .binary s operator left right =>
    .binary s operator (slot e (0 :: place) left) (slot e ((Child.slot left).length :: place) right)
  | .logical s operator left right =>
    .logical s operator (slot e (0 :: place) left)
      (slot e ((Child.slot left).length :: place) right)
  | .assign s operator left right =>
    .assign s operator (slot e (0 :: place) left) (slot e ((Child.slot left).length :: place) right)
  | .conditional s test consequent alternate =>
    let second := (Child.slot test).length
    let third := second + (Child.slot consequent).length
    .conditional s (slot e (0 :: place) test) (slot e (second :: place) consequent)
      (slot e (third :: place) alternate)
  | .construct s callee arguments =>
    .construct s (slot e (0 :: place) callee) (slots e place (Child.slot callee).length arguments)
  | .call s callee arguments =>
    .call s (slot e (0 :: place) callee) (slots e place (Child.slot callee).length arguments)
  | .member s object property computed =>
    .member s (slot e (0 :: place) object) (slot e ((Child.slot object).length :: place) property)
      computed

/-- Entries that are the children of one node from a number on. -/
def properties (e : Edits) (parent : Path) (first : Nat) : List Property → List Property
  | [] => []
  | p :: rest =>
    property e (first :: parent) p ::
      properties e parent (first + (Child.properties [p]).length) rest

/-- An entry at a place. The value of a shorthand entry is no child of it. -/
def property (e : Edits) (place : Path) : Property → Property
  | .absent => .absent
  | .entry s kind key value computed shorthand =>
    let value := if shorthand then value else slot e ((Child.slot key).length :: place) value
    .entry s kind (slot e (0 :: place) key) value computed shorthand

/-- A function at a place. -/
def function (e : Edits) (place : Path) : Function → Function
  | .mk id params defaults rest body generator =>
    let first := (Child.ident id).length
    let second := first + (Child.slots params).length
    let third := second + (Child.slots defaults).length + (Child.ident rest).length
    .mk id (slots e place first params) (slots e place second defaults) rest
      (block e (e.inserted place) (third :: place) body) generator

/-- A block at a place, with statements put into it. -/
def block (e : Edits) (new : List Stmt) (place : Path) : Block → Block
  | .absent => .absent
  | .braces s body => .braces s (splice new (stmts e place 0 body))

/-- Statements that are the children of one node from a number on. -/
def stmts (e : Edits) (parent : Path) (first : Nat) : List Stmt → List Stmt
  | [] => []
  | s :: rest =>
    stmt e (first :: parent) s :: stmts e parent (first + (Child.stmt s).length) rest

/-- A statement at a place. -/
def stmt (e : Edits) (place : Path) : Stmt → Stmt
  | .absent => .absent
  | .empty s => .empty s
  | .debugger s => .debugger s
  | .breakTo s label => .breakTo s label
  | .continueTo s label => .continueTo s label
  | .block s body => .block s (stmts e place 0 body)
  | .expression s x => .expression s (slot e (0 :: place) x)
  | .conditional s test consequent alternate =>
    let second := (Child.slot test).length
    let third := second + (Child.stmt consequent).length
    .conditional s (slot e (0 :: place) test) (stmt e (second :: place) consequent)
      (stmt e (third :: place) alternate)
  | .labeled s label body => .labeled s label (stmt e ((Child.ident label).length :: place) body)
  | .withObject s object body =>
    .withObject s (slot e (0 :: place) object) (stmt e ((Child.slot object).length :: place) body)
  | .switchOn s discriminant list =>
    .switchOn s (slot e (0 :: place) discriminant)
      (cases e place (Child.slot discriminant).length list)
  | .returnValue s argument => .returnValue s (slot e (0 :: place) argument)
  | .throwValue s argument => .throwValue s (slot e (0 :: place) argument)
  | .tryCatch s body guard finalizer =>
    let second := (Child.block body).length
    let third := second + (if guard matches .absent then 0 else 1)
    .tryCatch s (block e [] (0 :: place) body) (handler e (second :: place) guard)
      (block e [] (third :: place) finalizer)
  | .whileLoop s test body =>
    .whileLoop s (slot e (0 :: place) test) (stmt e ((Child.slot test).length :: place) body)
  | .doWhile s body test =>
    .doWhile s (stmt e (0 :: place) body) (slot e ((Child.stmt body).length :: place) test)
  | .forLoop s init test update body =>
    let second := (Child.forHead init).length
    let third := second + (Child.slot test).length
    let fourth := third + (Child.slot update).length
    .forLoop s (forHead e (0 :: place) init) (slot e (second :: place) test)
      (slot e (third :: place) update) (stmt e (fourth :: place) body)
  | .forIn s left right body =>
    let second := (Child.forHead left).length
    let third := second + (Child.slot right).length
    .forIn s (forHead e (0 :: place) left) (slot e (second :: place) right)
      (stmt e (third :: place) body)
  | .function s fn => .function s (function e place fn)
  | .declaration s kind list => .declaration s kind (declarators e place 0 list)

/-- Clauses that are the children of one node from a number on. -/
def cases (e : Edits) (parent : Path) (first : Nat) : List Case → List Case
  | [] => []
  | c :: rest => case e (first :: parent) c :: cases e parent (first + 1) rest

/-- A clause at a place. -/
def case (e : Edits) (place : Path) : Case → Case
  | .clause s test consequent =>
    .clause s (slot e (0 :: place) test) (stmts e place (Child.slot test).length consequent)

/-- A handler at a place. -/
def handler (e : Edits) (place : Path) : Handler → Handler
  | .absent => .absent
  | .clause s param body =>
    .clause s (slot e (0 :: place) param) (block e [] ((Child.slot param).length :: place) body)

/-- Declarators that are the children of one node from a number on. -/
def declarators (e : Edits) (parent : Path) (first : Nat) : List Declarator → List Declarator
  | [] => []
  | d :: rest => declarator e (first :: parent) d :: declarators e parent (first + 1) rest

/-- A declarator at a place. -/
def declarator (e : Edits) (place : Path) : Declarator → Declarator
  | .bind s id init =>
    .bind s (slot e (0 :: place) id) (slot e ((Child.slot id).length :: place) init)

/-- The first part of a loop head at a place. -/
def forHead (e : Edits) (place : Path) : ForHead → ForHead
  | .absent => .absent
  | .declaration s kind list => .declaration s kind (declarators e place 0 list)
  | .expression x => .expression (slot e place x)

end

end Edits

/-- The program with the edits made. -/
def Program.edit (e : Edits) (p : Program) : Program :=
  { p with body := Edits.splice (e.inserted []) (e.stmts [] 0 p.body) }

end ScriptOptimizer
