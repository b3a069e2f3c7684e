import ScriptOptimizer.Syntax.Names
import ScriptOptimizer.Syntax.Node

/-!
When a program makes sense as a whole: jumps have somewhere to go, labels are not nested in
themselves, what is assigned to can be, and no node lacks a part that it needs. Where a node stands
is told by the nodes around it.
-/

namespace ScriptOptimizer

/-- A node of a program with the nodes around it, the nearest first. -/
inductive Program.Has (p : Program) : List Node → Node → Prop
  | root : p.Has [] (.program p)
  | child {around : List Node} {n : Node} {c : Child} :
      p.Has around n → c ∈ n.children → p.Has (n :: around) c.node

/-- Does the slot hold a plain name? -/
def Slot.isName : Slot → Bool
  | .holds (.ident _) => true
  | _ => false

/-- Has the function plain names as parameters, and nothing else beside its name and body? -/
def Function.isPlain : Function → Bool
  | .mk _ params defaults rest _ generator =>
    params.all Slot.isName && defaults.isEmpty && rest.isNone && !generator

/-- Does the slot hold something that can be assigned to? -/
def Slot.isTarget : Slot → Bool
  | .holds (.ident _) | .holds (.member _ _ _ _) => true
  | _ => false

/-- Does the slot hold an expression? -/
def Slot.isHeld : Slot → Bool
  | .holds _ => true
  | _ => false

/-- Is the slot absent, or does it hold an expression? -/
def Slot.isWhole : Slot → Bool
  | .vacant => false
  | _ => true

/-- Is there a block? -/
def Block.isPresent : Block → Bool
  | .absent => false
  | .braces _ _ => true

/-- Has the function a body? -/
def Function.hasBody : Function → Bool
  | .mk _ _ _ _ body _ => body.isPresent

namespace Node

/-- The function that a node is. -/
def function? : Node → Option Function
  | .stmt (.function _ fn) | .expr (.function _ fn) => some fn
  | _ => none

/-- Is the node a function? -/
def isFunction (n : Node) : Bool := n.function?.isSome

/-- Is the node a loop? -/
def isLoop : Node → Bool
  | .stmt (.whileLoop _ _ _) | .stmt (.doWhile _ _ _) | .stmt (.forLoop _ _ _ _ _)
  | .stmt (.forIn _ _ _ _) => true
  | _ => false

/-- Is the node a switch? -/
def isSwitch : Node → Bool
  | .stmt (.switchOn _ _ _) => true
  | _ => false

/-- The label that a node has. -/
def label? : Node → Option Bytes
  | .stmt (.labeled _ (some id) _) => some id.name
  | _ => none

/-- The nodes around a node that are in the same function. -/
def own (around : List Node) : List Node := around.takeWhile fun n => !n.isFunction

/-- Has the expression its parts? -/
def exprComplete : Expr → Bool
  | .ident _ | .literal _ | .this _ => true
  | .array _ elements | .arrayPattern _ elements => elements.all Slot.isWhole
  | .object _ list | .objectPattern _ list => list.all fun
    | .absent => false
    | .entry _ _ _ _ _ _ => true
  | .function _ fn => fn.hasBody && fn.params.all Slot.isHeld
  | .sequence _ items => items.all Slot.isHeld
  | .unary _ _ argument | .update _ _ _ argument => argument.isHeld
  | .binary _ _ left right | .logical _ _ left right | .assign _ _ left right =>
    left.isHeld && right.isHeld
  | .conditional _ test consequent alternate =>
    test.isHeld && consequent.isHeld && alternate.isHeld
  | .construct _ callee arguments | .call _ callee arguments =>
    callee.isHeld && arguments.all Slot.isHeld
  | .member _ object name _ => object.isHeld && name.isHeld

/-- Has the statement its parts? -/
def stmtComplete : Stmt → Bool
  | .absent => false
  | .empty _ | .debugger _ | .breakTo _ _ | .continueTo _ _ => true
  | .block _ body => body.all Stmt.isPresent
  | .expression _ e | .throwValue _ e => e.isHeld
  | .conditional _ test consequent _ => test.isHeld && consequent.isPresent
  | .labeled _ label body => label.isSome && body.isPresent
  | .withObject _ object body => object.isHeld && body.isPresent
  | .switchOn _ discriminant _ => discriminant.isHeld
  | .returnValue _ argument => argument.isWhole
  | .tryCatch _ block _ _ => block.isPresent
  | .whileLoop _ test body | .doWhile _ body test => test.isHeld && body.isPresent
  | .forLoop _ init test update body =>
    (match init with
      | .absent => true
      | .declaration _ _ list => !list.isEmpty
      | .expression slot => slot.isHeld) && test.isWhole && update.isWhole && body.isPresent
  | .forIn _ left right body =>
    (match left with
      | .absent => false
      | .declaration _ _ list => !list.isEmpty
      | .expression slot => slot.isHeld) && right.isHeld && body.isPresent
  | .function _ fn =>
    (match fn with
      | .mk id _ _ _ _ _ => id.isSome) && fn.hasBody && fn.params.all Slot.isHeld
  | .declaration _ _ list => !list.isEmpty

/-- Has the node every part that it needs? Parts that may be missing are missing as a whole. -/
def isComplete : Node → Bool
  | .program p => p.body.all Stmt.isPresent
  | .stmt s => stmtComplete s
  | .expr e => exprComplete e
  | .property .absent => false
  | .property (.entry _ _ key value _ _) => key.isHeld && value.isHeld
  | .case (.clause _ test consequent) => test.isWhole && consequent.all Stmt.isPresent
  | .handler .absent => false
  | .handler (.clause _ param body) => param.isHeld && body.isPresent
  | .declarator (.bind _ id init) => id.isHeld && init.isWhole

end Node

/-- Jumps, labels, targets, clauses and functions of the program are as they must be, and no node
lacks a part that it needs. -/
structure Program.WellFormed (p : Program) : Prop where
  breaks {around : List Node} {span : Span} (h : p.Has around (.stmt (.breakTo span none))) :
    ∃ n ∈ Node.own around, n.isLoop = true ∨ n.isSwitch = true
  continues {around : List Node} {span : Span} {label : Option Ident}
    (h : p.Has around (.stmt (.continueTo span label))) :
    ∃ n ∈ Node.own around, n.isLoop = true
  breakLabels {around : List Node} {span : Span} {id : Ident}
    (h : p.Has around (.stmt (.breakTo span (some id)))) :
    ∃ n ∈ Node.own around, n.label? = some id.name
  continueLabels {around : List Node} {span : Span} {id : Ident}
    (h : p.Has around (.stmt (.continueTo span (some id)))) :
    ∃ n ∈ Node.own around, n.label? = some id.name
  labels {around : List Node} {s : Stmt} {name : Bytes} (h : p.Has around (.stmt s))
    (hLabel : (Node.stmt s).label? = some name) :
    ∀ n ∈ Node.own around, n.label? ≠ some name
  returns {around : List Node} {span : Span} {argument : Slot}
    (h : p.Has around (.stmt (.returnValue span argument))) :
    ∃ n ∈ around, n.isFunction = true
  defaults {around : List Node} {span : Span} {discriminant : Slot} {cases : List Case}
    (h : p.Has around (.stmt (.switchOn span discriminant cases))) :
    cases.countP Case.isDefault ≤ 1
  tries {around : List Node} {span : Span} {block finalizer : Block} {handler : Handler}
    (h : p.Has around (.stmt (.tryCatch span block handler finalizer))) :
    handler ≠ .absent ∨ finalizer ≠ .absent
  assignments {around : List Node} {span : Span} {operator : Bytes} {left right : Slot}
    (h : p.Has around (.expr (.assign span operator left right))) : left.isTarget = true
  updates {around : List Node} {span : Span} {operator : Bytes} {before : Bool} {argument : Slot}
    (h : p.Has around (.expr (.update span operator before argument))) :
    argument.isTarget = true
  forInTargets {around : List Node} {span : Span} {target right : Slot} {body : Stmt}
    (h : p.Has around (.stmt (.forIn span (.expression target) right body))) :
    target.isTarget = true
  forInDeclarations {around : List Node} {span inner : Span} {kind : Bytes}
    {list : List Declarator} {right : Slot} {body : Stmt}
    (h : p.Has around (.stmt (.forIn span (.declaration inner kind list) right body))) :
    list.length = 1
  getters {around : List Node} {span : Span} {key value : Slot} {computed shorthand : Bool}
    (h : p.Has around (.property
      (.entry span (Bytes.ofString "get") key value computed shorthand))) :
    ∃ inner fn, value = .holds (.function inner fn) ∧ fn.params = []
  setters {around : List Node} {span : Span} {key value : Slot} {computed shorthand : Bool}
    (h : p.Has around (.property
      (.entry span (Bytes.ofString "set") key value computed shorthand))) :
    ∃ inner fn, value = .holds (.function inner fn) ∧ fn.params.length = 1
  functions {around : List Node} {n : Node} {fn : Function} (h : p.Has around n)
    (hFunction : n.function? = some fn) : fn.isPlain = true
  sequences {around : List Node} {span : Span} {items : List Slot}
    (h : p.Has around (.expr (.sequence span items))) : 2 ≤ items.length
  complete {around : List Node} {n : Node} (h : p.Has around n) : n.isComplete = true

end ScriptOptimizer
