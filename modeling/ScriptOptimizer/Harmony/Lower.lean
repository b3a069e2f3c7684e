import ScriptOptimizer.Harmony.Tree

/-!
A program of the newer language as a tree of the optimizer. A program that uses a construct for
which the optimizer has no tree gives none.
-/

namespace ScriptOptimizer.Harmony

/-- Why a program has no tree in the optimizer: a construct in it has none, or it cannot be told
where a part is, as when there is nothing in it. -/
inductive Refusal where
  | unsupported (what : Bytes) (range : Option Range)
  | untold
deriving DecidableEq, Repr

/-- Places in a text by their offset, as far as they can be told. -/
abbrev Places := Int → Except Refusal Place

/-- The span of a range. -/
def Range.span (places : Places) (r : Range) : Except Refusal Span := do
  return ⟨← places r.start, ← places r.stop⟩

/-- The span of a range, which has to be there. -/
def spanOf? (places : Places) : Option Range → Except Refusal Span
  | some range => range.span places
  | none => .error .untold

/-- A name in the optimizer's tree. -/
def Name.lower (places : Places) (n : Name) : Except Refusal Ident := do
  return ⟨← n.range.span places, n.text⟩

/-- A name in a slot of the optimizer's tree. -/
def Name.lowerSlot (places : Places) (n : Name) : Except Refusal Slot := do
  return .holds (.ident (← n.lower places))

/-- A name that may be left out, in the optimizer's tree. -/
def lowerName? (places : Places) : Option Name → Except Refusal (Option Ident)
  | none => .ok none
  | some n => do return some (← n.lower places)

/-- Refuses a construct at a range. -/
def refuse {α : Type} (what : Bytes) (range : Range) : Except Refusal α :=
  .error (.unsupported what (some range))

/-- The word for the kind of an entry. -/
def EntryKind.text : EntryKind → Bytes
  | value | method => "init"
  | getter => "get"
  | setter => "set"

/-- Is it the text of a string in quotes? -/
def isQuoted (raw : Bytes) : Bool := raw.head? = some 34 || raw.head? = some 39

/-- The range and the name of a key that is a plain word: a string without quotes that is not
computed. -/
def Expression.plainKey? (computed : Bool) : Expression → Option (Range × Bytes)
  | .literal range raw (.string text) =>
    if computed || isQuoted raw then none else some (range, text)
  | _ => none

/-- The operator of an assignment: `=` after the operator it computes with. -/
def assignmentText : Option Bytes → Bytes
  | none => "="
  | some operator => operator ++ Bytes.ofString "="

/-- Does the operator decide from its left operand whether to look at the right one? -/
def isLogical (operator : Bytes) : Bool :=
  operator = Bytes.ofString "&&" || operator = Bytes.ofString "||" || operator = Bytes.ofString "??"

/-- The part of a pattern that takes the rest, if it has one. -/
def restElement? : List Expression → Option Expression
  | [] => none
  | [.spread argument] => some argument
  | _ :: rest => restElement? rest

/-- The part of an object pattern that takes the rest, if it has one. -/
def restProperty? : List Entry → Option Expression
  | [] => none
  | [.spread argument] => some argument
  | _ :: rest => restProperty? rest

/-- Refuses a pattern with a part that takes the rest. -/
def refuseRest : Option Expression → Except Refusal Unit
  | some argument => refuse "rest element" argument.range
  | none => .ok ()

/-- Refuses a loop over names without a part that takes them. -/
def refuseNoHead : LoopHead → Except Refusal Unit
  | .absent => .error (.unsupported "for-in head <nil>" none)
  | _ => .ok ()

/-- Has one of the bindings an initializer? -/
def hasInitializer (params : List Binding) : Bool :=
  params.any fun
    | .bind _ initializer => !initializer.isAbsent

/-- The parameter that takes the rest of the arguments, which has to be a name. -/
def lowerRest (places : Places) : Expression → Except Refusal (Option Ident)
  | .absent => .ok none
  | .name id => do return some (← id.lower places)
  | e => refuse "rest parameter pattern" e.range

mutual

/-- An expression in a slot of the optimizer's tree. -/
def Expression.lower (places : Places) : Expression → Except Refusal Slot
  | .absent => .ok .absent
  | .name id => id.lowerSlot places
  | .this range => do return .holds (.this (← range.span places))
  | .literal range raw value => do return .holds (.literal ⟨← range.span places, raw, value⟩)
  | .array range elements => do
    return .holds (.array (← range.span places) (← Expression.lowerList places elements))
  | .object range entries => do
    return .holds (.object (← range.span places) (← Entry.lowerList places entries))
  | .arrayPattern range elements => do
    refuseRest (restElement? elements)
    return .holds (.arrayPattern (← range.span places) (← Expression.lowerList places elements))
  | .objectPattern range entries => do
    refuseRest (restProperty? entries)
    return .holds (.objectPattern (← range.span places) (← Entry.lowerList places entries))
  | .spread argument => refuse "spread element" argument.range
  | .function fn => do return .holds (.function (← fn.range.span places) (← fn.lower places))
  | .sequence range items => do
    return .holds (.sequence (← range.span places) (← Expression.lowerList places items))
  | .unary range operator operand => do
    return .holds (.unary (← range.span places) operator (← operand.lower places))
  | .update range operator postfixed operand => do
    return .holds (.update (← range.span places) operator (!postfixed) (← operand.lower places))
  | .binary range operator left right => do
    let span ← range.span places
    let left ← left.lower places
    let right ← right.lower places
    return .holds (if isLogical operator then .logical span operator left right
      else .binary span operator left right)
  | .assign range compound left right => do
    let span ← range.span places
    let left ← left.lower places
    let right ← right.lower places
    return .holds (.assign span (assignmentText compound) left right)
  | .conditional range test consequent alternate => do
    let span ← range.span places
    let test ← test.lower places
    let consequent ← consequent.lower places
    let alternate ← alternate.lower places
    return .holds (.conditional span test consequent alternate)
  | .construct range callee arguments => do
    let span ← range.span places
    let callee ← callee.lower places
    return .holds (.construct span callee (← Expression.lowerList places arguments))
  | .call range callee arguments => do
    let span ← range.span places
    let callee ← callee.lower places
    return .holds (.call span callee (← Expression.lowerList places arguments))
  | .dot range object property => do
    let property ← property.lowerSlot places
    let span ← range.span places
    return .holds (.member span (← object.lower places) property false)
  | .index range object property => do
    let span ← range.span places
    let object ← object.lower places
    let property ← property.lower places
    return .holds (.member span object property true)
  | .foreign range what => refuse what.text range

/-- Expressions in order. -/
def Expression.lowerList (places : Places) : List Expression → Except Refusal (List Slot)
  | [] => .ok []
  | e :: rest => do
    let first ← e.lower places
    return first :: (← Expression.lowerList places rest)

/-- An entry. A name alone stands for its key and its value; a value it is given turns it into one
with a key and an assignment. -/
def Entry.lower (places : Places) : Entry → Except Refusal Property
  | .keyed range kind computed key value => do
    let span ← range.span places
    let key ← match key.plainKey? computed with
      | some (range, text) => do
        let span ← range.span places
        pure (.holds (.ident ⟨span, text⟩))
      | none => key.lower places
    let value ← value.lower places
    return .entry span kind.text key value computed false
  | .short id .absent => do
    let key ← id.lowerSlot places
    return .entry (← id.range.span places) "init" key key false true
  | .short id initializer => do
    let key ← id.lowerSlot places
    let span ← (id.range.to initializer.range).span places
    let value ← initializer.lower places
    return .entry span "init" key (.holds (.assign span "=" key value)) false false
  | .spread _ => .error (.unsupported "property *ast.SpreadElement" none)

/-- Entries in order. -/
def Entry.lowerList (places : Places) : List Entry → Except Refusal (List Property)
  | [] => .ok []
  | e :: rest => do
    let first ← e.lower places
    return first :: (← Entry.lowerList places rest)

/-- The targets of bindings. -/
def Binding.lowerTargets (places : Places) : List Binding → Except Refusal (List Slot)
  | [] => .ok []
  | .bind target _ :: rest => do
    let first ← target.lower places
    return first :: (← Binding.lowerTargets places rest)

/-- The initializers of bindings. -/
def Binding.lowerInitializers (places : Places) : List Binding → Except Refusal (List Slot)
  | [] => .ok []
  | .bind _ initializer :: rest => do
    let first ← initializer.lower places
    return first :: (← Binding.lowerInitializers places rest)

/-- Bindings as declarators. -/
def Binding.lowerList (places : Places) : List Binding → Except Refusal (List Declarator)
  | [] => .ok []
  | .bind target initializer :: rest => do
    let span ← (Binding.bind target initializer).range.span places
    let id ← target.lower places
    let init ← initializer.lower places
    return .bind span id init :: (← Binding.lowerList places rest)

/-- A function, which may not be asynchronous. All targets come before the first default. -/
def Function.lower (places : Places) : Function → Except Refusal ScriptOptimizer.Function
  | .mk range async generator id params rest body => do
    if async then refuse "async function" range
    let id ← lowerName? places id
    let targets ← Binding.lowerTargets places params
    let defaults ← Binding.lowerInitializers places params
    let rest ← lowerRest places rest
    let body ← body.lower places
    let defaults := if hasInitializer params then defaults else []
    return .mk id targets defaults rest body generator

/-- A block. -/
def Block.lower (places : Places) : Block → Except Refusal ScriptOptimizer.Block
  | .absent => .ok .absent
  | .braces range body => do
    return .braces (← range.span places) (← Statement.lowerList places body)

/-- A statement. -/
def Statement.lower (places : Places) : Statement → Except Refusal Stmt
  | .absent => .ok .absent
  | .empty range => do return .empty (← range.span places)
  | .block .absent => .ok .absent
  | .block (.braces range body) => do
    return .block (← range.span places) (← Statement.lowerList places body)
  | .expression expr => do
    return .expression (← expr.range.span places) (← expr.lower places)
  | .conditional range test consequent alternate => do
    let span ← range.span places
    let test ← test.lower places
    let consequent ← consequent.lower places
    let alternate ← alternate.lower places
    return .conditional span test consequent alternate
  | .labeled range label body => do
    let span ← range.span places
    let label ← label.lower places
    return .labeled span (some label) (← body.lower places)
  | .breakTo range label => do
    let label ← lowerName? places label
    return .breakTo (← range.span places) label
  | .continueTo range label => do
    let label ← lowerName? places label
    return .continueTo (← range.span places) label
  | .withObject range object body => do
    let span ← range.span places
    let object ← object.lower places
    let body ← body.lower places
    return .withObject span object body
  | .switchOn range discriminant cases => do
    let cases ← Case.lowerList places cases
    let span ← range.span places
    let discriminant ← discriminant.lower places
    return .switchOn span discriminant cases
  | .returnValue range argument => do
    return .returnValue (← range.span places) (← argument.lower places)
  | .throwValue range argument => do
    return .throwValue (← range.span places) (← argument.lower places)
  | .tryCatch range block handler finalizer => do
    let handler ← handler.lower places
    let finalizer ← finalizer.lower places
    let span ← range.span places
    let block ← block.lower places
    return .tryCatch span block handler finalizer
  | .whileLoop range test body => do
    let span ← range.span places
    let test ← test.lower places
    let body ← body.lower places
    return .whileLoop span test body
  | .doWhile range body test => do
    let span ← range.span places
    let body ← body.lower places
    let test ← test.lower places
    return .doWhile span body test
  | .forLoop range init test update body => do
    let span ← range.span places
    let init ← init.lower places
    let test ← test.lower places
    let update ← update.lower places
    let body ← body.lower places
    return .forLoop span init test update body
  | .forIn range head source body => do
    let span ← range.span places
    refuseNoHead head
    let head ← head.lower places
    let source ← source.lower places
    let body ← body.lower places
    return .forIn span head source body
  | .forOf range => refuse "for-of statement" range
  | .debugger range => do return .debugger (← range.span places)
  | .declaration range kind bindings => do
    return .declaration (← range.span places) kind.text (← Binding.lowerList places bindings)
  | .function fn => do return .function (← fn.range.span places) (← fn.lower places)
  | .classDeclaration range => refuse "class declaration" range
  | .foreign range type => refuse ("statement " ++ type) range

/-- Statements in order, without those that are absent. -/
def Statement.lowerList (places : Places) : List Statement → Except Refusal (List Stmt)
  | [] => .ok []
  | .absent :: rest => Statement.lowerList places rest
  | s :: rest => do
    let first ← s.lower places
    return first :: (← Statement.lowerList places rest)

/-- Clauses in order. A clause without statements has no range. -/
def Case.lowerList (places : Places) : List Case → Except Refusal (List ScriptOptimizer.Case)
  | [] => .ok []
  | .clause start test consequent :: rest => do
    let span ← spanOf? places (Case.clause start test consequent).range?
    let test ← test.lower places
    let consequent ← Statement.lowerList places consequent
    return .clause span test consequent :: (← Case.lowerList places rest)

/-- A handler, which needs a parameter. -/
def Handler.lower (places : Places) : Handler → Except Refusal ScriptOptimizer.Handler
  | .absent => .ok .absent
  | .clause range .absent _ => refuse "catch without binding" range
  | .clause range param body => do
    let span ← range.span places
    let param ← param.lower places
    let body ← body.lower places
    return .clause span param body

/-- The first part of a loop head. -/
def LoopHead.lower (places : Places) : LoopHead → Except Refusal ForHead
  | .absent => .ok .absent
  | .declaration range kind bindings => do
    let bindings ← Binding.lowerList places bindings
    return .declaration (← range.span places) kind.text bindings
  | .expression expr => do return .expression (← expr.lower places)

end

/-- A program of the newer language as one of the optimizer. An empty program has no range. -/
def Script.lower (places : Places) (s : Script) : Except Refusal Program := do
  let body ← Statement.lowerList places s.body
  return ⟨← spanOf? places (Statement.rangeOfList? s.body), body⟩

end ScriptOptimizer.Harmony
