import Mathlib.Data.List.Forall2
import ScriptOptimizer.Syntax.Basic

/-!
Trees without their places. The bare form of a tree has the same nodes, each with the range that
stands for no source text, so that two trees have the same bare form when they differ in ranges
only.
-/

namespace ScriptOptimizer

/-- The name without its place. -/
def Ident.bare (id : Ident) : Ident := { id with span := .none }

/-- The literal without its place. -/
def Literal.bare (lit : Literal) : Literal := { lit with span := .none }

mutual

/-- The slot with the bare form of what it holds. -/
def Slot.bare : Slot → Slot
  | .absent => .absent
  | .vacant => .vacant
  | .holds e => .holds e.bare

/-- The expression without places. -/
def Expr.bare : Expr → Expr
  | .ident id => .ident id.bare
  | .literal lit => .literal lit.bare
  | .this _ => .this .none
  | .array _ elements => .array .none (Slot.bares elements)
  | .object _ properties => .object .none (Property.bares properties)
  | .function _ fn => .function .none fn.bare
  | .sequence _ items => .sequence .none (Slot.bares items)
  | .unary _ operator argument => .unary .none operator argument.bare
  | .binary _ operator left right => .binary .none operator left.bare right.bare
  | .logical _ operator left right => .logical .none operator left.bare right.bare
  | .assign _ operator left right => .assign .none operator left.bare right.bare
  | .update _ operator before argument => .update .none operator before argument.bare
  | .conditional _ test consequent alternate =>
    .conditional .none test.bare consequent.bare alternate.bare
  | .construct _ callee arguments => .construct .none callee.bare (Slot.bares arguments)
  | .call _ callee arguments => .call .none callee.bare (Slot.bares arguments)
  | .member _ object property computed => .member .none object.bare property.bare computed
  | .objectPattern _ properties => .objectPattern .none (Property.bares properties)
  | .arrayPattern _ elements => .arrayPattern .none (Slot.bares elements)

/-- The slots without places. -/
def Slot.bares : List Slot → List Slot
  | [] => []
  | s :: rest => s.bare :: Slot.bares rest

/-- The entry without places. -/
def Property.bare : Property → Property
  | .absent => .absent
  | .entry _ kind key value computed shorthand =>
    .entry .none kind key.bare value.bare computed shorthand

/-- The entries without places. -/
def Property.bares : List Property → List Property
  | [] => []
  | p :: rest => p.bare :: Property.bares rest

/-- The function without places. -/
def Function.bare : Function → Function
  | .mk id params defaults rest body generator =>
    .mk (id.map Ident.bare) (Slot.bares params) (Slot.bares defaults) (rest.map Ident.bare)
      body.bare generator

/-- The block without places. -/
def Block.bare : Block → Block
  | .absent => .absent
  | .braces _ body => .braces .none (Stmt.bares body)

/-- The statement without places. -/
def Stmt.bare : Stmt → Stmt
  | .absent => .absent
  | .empty _ => .empty .none
  | .block _ body => .block .none (Stmt.bares body)
  | .expression _ e => .expression .none e.bare
  | .conditional _ test consequent alternate =>
    .conditional .none test.bare consequent.bare alternate.bare
  | .labeled _ label body => .labeled .none (label.map Ident.bare) body.bare
  | .breakTo _ label => .breakTo .none (label.map Ident.bare)
  | .continueTo _ label => .continueTo .none (label.map Ident.bare)
  | .withObject _ object body => .withObject .none object.bare body.bare
  | .switchOn _ discriminant cases => .switchOn .none discriminant.bare (Case.bares cases)
  | .returnValue _ argument => .returnValue .none argument.bare
  | .throwValue _ argument => .throwValue .none argument.bare
  | .tryCatch _ block handler finalizer =>
    .tryCatch .none block.bare handler.bare finalizer.bare
  | .whileLoop _ test body => .whileLoop .none test.bare body.bare
  | .doWhile _ body test => .doWhile .none body.bare test.bare
  | .forLoop _ init test update body =>
    .forLoop .none init.bare test.bare update.bare body.bare
  | .forIn _ left right body => .forIn .none left.bare right.bare body.bare
  | .debugger _ => .debugger .none
  | .function _ fn => .function .none fn.bare
  | .declaration _ kind declarators => .declaration .none kind (Declarator.bares declarators)

/-- The statements without places. -/
def Stmt.bares : List Stmt → List Stmt
  | [] => []
  | s :: rest => s.bare :: Stmt.bares rest

/-- The clause without places. -/
def Case.bare : Case → Case
  | .clause _ test consequent => .clause .none test.bare (Stmt.bares consequent)

/-- The clauses without places. -/
def Case.bares : List Case → List Case
  | [] => []
  | c :: rest => c.bare :: Case.bares rest

/-- The handler without places. -/
def Handler.bare : Handler → Handler
  | .absent => .absent
  | .clause _ param body => .clause .none param.bare body.bare

/-- The declarator without places. -/
def Declarator.bare : Declarator → Declarator
  | .bind _ id init => .bind .none id.bare init.bare

/-- The declarators without places. -/
def Declarator.bares : List Declarator → List Declarator
  | [] => []
  | d :: rest => d.bare :: Declarator.bares rest

/-- The head of a loop without places. -/
def ForHead.bare : ForHead → ForHead
  | .absent => .absent
  | .declaration _ kind declarators => .declaration .none kind (Declarator.bares declarators)
  | .expression s => .expression s.bare

end

/-- The program without places. -/
def Program.bare (p : Program) : Program := ⟨.none, Stmt.bares p.body⟩

theorem Stmt.bare_block (span : Span) (list : List Stmt) :
    (Stmt.block span list).bare = .block .none (Stmt.bares list) := by
  rw [Stmt.bare]

theorem Slot.bares_eq_map (list : List Slot) : Slot.bares list = list.map Slot.bare := by
  induction list with
  | nil => rfl
  | cons s rest ih => rw [Slot.bares, ih, List.map_cons]

theorem Property.bares_eq_map (list : List Property) :
    Property.bares list = list.map Property.bare := by
  induction list with
  | nil => rfl
  | cons p rest ih => rw [Property.bares, ih, List.map_cons]

theorem Stmt.bares_eq_map (list : List Stmt) : Stmt.bares list = list.map Stmt.bare := by
  induction list with
  | nil => rfl
  | cons s rest ih => rw [Stmt.bares, ih, List.map_cons]

theorem Case.bares_eq_map (list : List Case) : Case.bares list = list.map Case.bare := by
  induction list with
  | nil => rfl
  | cons c rest ih => rw [Case.bares, ih, List.map_cons]

theorem Declarator.bares_eq_map (list : List Declarator) :
    Declarator.bares list = list.map Declarator.bare := by
  induction list with
  | nil => rfl
  | cons d rest ih => rw [Declarator.bares, ih, List.map_cons]

/-- Two trees that look the same through `f`. Through a bare form, they differ in places only. -/
def Alike {α β : Type} (f : α → β) (a b : α) : Prop := f a = f b

theorem Alike.map_eq {α β : Type} {f : α → β} {as bs : List α} (h : List.Forall₂ (Alike f) as bs) :
    as.map f = bs.map f := by
  induction h with
  | nil => rfl
  | cons hFirst _ ih => rw [List.map_cons, List.map_cons, hFirst, ih]

end ScriptOptimizer
