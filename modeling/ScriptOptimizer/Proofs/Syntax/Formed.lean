import ScriptOptimizer.Proofs.Parse.Statement

/-!
The trees that the grammar can give. A tree is formed when every node has the parts that its rule
asks for, names, literals and operators come from tokens of the right types, and every statement
stands where its rule lets it stand. Which tokens there are is left open.
-/

namespace ScriptOptimizer

/-- The tokens that names, literals and operators may come from. The flag says that a token stands
after a dot. -/
abbrev TokenSet := Bool → Token → Prop

/-- Is it an operator between two operands other than `&&` and `||`? -/
def TokenType.isBinary (type : TokenType) : Bool :=
  0 < type.precedence && type ≠ .punctuator .andAnd && type ≠ .punctuator .orOr

/-- Is it `&&` or `||`? -/
def TokenType.isLogical (type : TokenType) : Bool :=
  type = .punctuator .andAnd || type = .punctuator .orOr

/-- May a token of this type be the key of an entry as it is written? -/
def TokenType.isKeyLiteral (type : TokenType) : Bool := type = .string || type = .number

/-- The text is that of a token of an allowed type. -/
def TokenSet.Writes (ts : TokenSet) (allowed : TokenType → Bool) (text : Bytes) : Prop :=
  ∃ t, ts false t ∧ allowed t.type = true ∧ text = t.literal

/-- The name is that of a token, perhaps one after a dot. -/
def Ident.From (ts : TokenSet) (dot : Bool) (id : Ident) : Prop :=
  ∃ t, ts dot t ∧ t.type = .identifier ∧ id.name = t.value

/-- The literal is that of a token of an allowed type. -/
def Literal.From (ts : TokenSet) (allowed : TokenType → Bool) (lit : Literal) : Prop :=
  ∃ t, ts false t ∧ allowed t.type = true ∧ lit.raw = t.literal ∧ lit.value = t.literalValue

/-- The key of an entry is a string, a number, a name or a reserved word. -/
def Slot.KeyFrom (ts : TokenSet) : Slot → Prop
  | .holds (.literal lit) => lit.From ts TokenType.isKeyLiteral
  | .holds (.ident id) => id.From ts false ∨ ∃ k t, ts false t ∧ t.type = .keyword k ∧
      id.name = t.literal
  | _ => False

/-- May what the slot holds be assigned to? -/
def Slot.isAssignable : Slot → Bool
  | .holds e => e.isAssignable
  | _ => false

/-- The slot holds a plain name. -/
def Slot.NameFrom (ts : TokenSet) (dot : Bool) : Slot → Prop
  | .holds (.ident id) => id.From ts dot
  | _ => False

/-- The label is a name, if there is one, and names an enclosing statement. -/
def Context.Reaches (ts : TokenSet) (c : Context) (label : Option Ident) : Prop :=
  ∀ id, label = some id → id.From ts false ∧ c.labels.contains id.name = true

/-- An entry's value is an expression or, for an accessor, a function without a name that has no
parameter or one. -/
def Property.Sorted (kind : Bytes) (value : Slot) : Prop :=
  kind = Bytes.ofString "init" ∨ ∃ span params body, StartsAccessor kind params.length ∧
    value = .holds (.function span (.mk none params [] none body false))

namespace Function

/-- Has the function a name? -/
def isNamed : Function → Bool
  | .mk id _ _ _ _ _ => id.isSome

/-- The parts of a function but its body: plain names, without defaults, a rest or a star. -/
def Signed (ts : TokenSet) : Function → Prop
  | .mk id params defaults rest _ generator =>
    (∀ n, id = some n → n.From ts false) ∧ (∀ p ∈ params, p.NameFrom ts false) ∧
      defaults = [] ∧ rest = none ∧ generator = false

end Function

mutual

/-- The slot holds a formed expression. -/
def Slot.Formed (ts : TokenSet) : Slot → Prop
  | .holds e => e.Formed ts
  | _ => False

/-- The slot is absent or holds a formed expression. -/
def Slot.Optional (ts : TokenSet) : Slot → Prop
  | .absent => True
  | .vacant => False
  | .holds e => e.Formed ts

/-- All slots hold formed expressions. -/
def Slot.AllFormed (ts : TokenSet) : List Slot → Prop
  | [] => True
  | s :: rest => s.Formed ts ∧ Slot.AllFormed ts rest

/-- All slots are absent or hold formed expressions. -/
def Slot.AllOptional (ts : TokenSet) : List Slot → Prop
  | [] => True
  | s :: rest => s.Optional ts ∧ Slot.AllOptional ts rest

/-- The expression is one that the grammar can give. -/
def Expr.Formed (ts : TokenSet) : Expr → Prop
  | .ident id => id.From ts false
  | .literal lit => lit.From ts TokenType.isValue
  | .this _ => True
  | .array _ elements => Slot.AllOptional ts elements
  | .object _ properties => Property.AllFormed ts properties
  | .function _ fn => fn.Formed ts
  | .sequence _ items => 2 ≤ items.length ∧ Slot.AllFormed ts items
  | .unary _ operator argument => ts.Writes TokenType.isUnary operator ∧ argument.Formed ts
  | .binary _ operator left right =>
    ts.Writes TokenType.isBinary operator ∧ left.Formed ts ∧ right.Formed ts
  | .logical _ operator left right =>
    ts.Writes TokenType.isLogical operator ∧ left.Formed ts ∧ right.Formed ts
  | .assign _ operator left right =>
    ts.Writes TokenType.isAssignment operator ∧ left.isAssignable = true ∧ left.Formed ts ∧
      right.Formed ts
  | .update _ operator _ argument =>
    ts.Writes TokenType.isUpdate operator ∧ argument.isAssignable = true ∧ argument.Formed ts
  | .conditional _ test consequent alternate =>
    test.Formed ts ∧ consequent.Formed ts ∧ alternate.Formed ts
  | .construct _ callee arguments => callee.Formed ts ∧ Slot.AllFormed ts arguments
  | .call _ callee arguments => callee.Formed ts ∧ Slot.AllFormed ts arguments
  | .member _ object property computed =>
    object.Formed ts ∧ if computed then property.Formed ts else property.NameFrom ts true
  | .objectPattern _ _ => False
  | .arrayPattern _ _ => False

/-- The entry is one that the grammar can give. -/
def Property.Formed (ts : TokenSet) : Property → Prop
  | .absent => False
  | .entry _ kind key value computed shorthand =>
    key.KeyFrom ts ∧ value.Formed ts ∧ Property.Sorted kind value ∧ computed = false ∧
      shorthand = false

/-- All entries are ones that the grammar can give. -/
def Property.AllFormed (ts : TokenSet) : List Property → Prop
  | [] => True
  | p :: rest => p.Formed ts ∧ Property.AllFormed ts rest

/-- The function is one that the grammar can give. -/
def Function.Formed (ts : TokenSet) : Function → Prop
  | .mk id params defaults rest body generator =>
    Function.Signed ts (.mk id params defaults rest body generator) ∧ body.Formed ts .function

/-- The block is there and its statements are formed. -/
def Block.Formed (ts : TokenSet) (c : Context) : Block → Prop
  | .absent => False
  | .braces _ body => Stmt.AllFormed ts c body

/-- The statement is one that the grammar can give in a context. -/
def Stmt.Formed (ts : TokenSet) (c : Context) : Stmt → Prop
  | .absent => False
  | .empty _ => True
  | .block _ body => Stmt.AllFormed ts c body
  | .expression _ e => e.Formed ts
  | .conditional _ test consequent alternate =>
    test.Formed ts ∧ consequent.Formed ts c ∧
      (alternate = .absent ∨ alternate.Formed ts c ∧ consequent.endsOpen = false)
  | .labeled _ label body =>
    ∃ id, label = some id ∧ id.From ts false ∧ c.labels.contains id.name = false ∧
      body.Formed ts (c.label id.name)
  | .breakTo _ label =>
    (label.isNone && !c.inLoop && !c.inSwitch) = false ∧ c.Reaches ts label
  | .continueTo _ label => c.inLoop = true ∧ c.Reaches ts label
  | .withObject _ object body => object.Formed ts ∧ body.Formed ts c
  | .switchOn _ discriminant cases =>
    discriminant.Formed ts ∧ ReadsStmt.oneDefault false cases = true ∧
      Case.AllFormed ts c.switch cases
  | .returnValue _ argument => c.inFunction = true ∧ argument.Optional ts
  | .throwValue _ argument => argument.Formed ts
  | .tryCatch _ block handler finalizer =>
    block.Formed ts c ∧ handler.Optional ts c ∧ (finalizer = .absent ∨ finalizer.Formed ts c) ∧
      (handler ≠ .absent ∨ finalizer ≠ .absent)
  | .whileLoop _ test body => test.Formed ts ∧ body.Formed ts c.loop
  | .doWhile _ body test => body.Formed ts c.loop ∧ test.Formed ts
  | .forLoop _ init test update body =>
    init.Formed ts ∧ test.Optional ts ∧ update.Optional ts ∧ body.Formed ts c.loop
  | .forIn _ left right body =>
    left.Formed ts ∧ ReadsStmt.isTarget left = true ∧ right.Formed ts ∧ body.Formed ts c.loop
  | .debugger _ => True
  | .function _ fn => fn.isNamed = true ∧ fn.Formed ts
  | .declaration _ kind declarators =>
    kind = Bytes.ofString "var" ∧ declarators ≠ [] ∧ Declarator.AllFormed ts declarators

/-- All statements are ones that the grammar can give in a context. -/
def Stmt.AllFormed (ts : TokenSet) (c : Context) : List Stmt → Prop
  | [] => True
  | s :: rest => s.Formed ts c ∧ Stmt.AllFormed ts c rest

/-- The clause is one that the grammar can give. -/
def Case.Formed (ts : TokenSet) (c : Context) : Case → Prop
  | .clause _ test consequent => test.Optional ts ∧ Stmt.AllFormed ts c consequent

/-- All clauses are ones that the grammar can give. -/
def Case.AllFormed (ts : TokenSet) (c : Context) : List Case → Prop
  | [] => True
  | s :: rest => s.Formed ts c ∧ Case.AllFormed ts c rest

/-- There is no handler, or one that the grammar can give. -/
def Handler.Optional (ts : TokenSet) (c : Context) : Handler → Prop
  | .absent => True
  | .clause _ param body => param.NameFrom ts false ∧ body.Formed ts c

/-- The declarator is one that the grammar can give. -/
def Declarator.Formed (ts : TokenSet) : Declarator → Prop
  | .bind _ id init => id.NameFrom ts false ∧ init.Optional ts

/-- All declarators are ones that the grammar can give. -/
def Declarator.AllFormed (ts : TokenSet) : List Declarator → Prop
  | [] => True
  | d :: rest => d.Formed ts ∧ Declarator.AllFormed ts rest

/-- The first part of a loop head is missing or one that the grammar can give. -/
def ForHead.Formed (ts : TokenSet) : ForHead → Prop
  | .absent => True
  | .declaration _ kind declarators =>
    kind = Bytes.ofString "var" ∧ declarators ≠ [] ∧ Declarator.AllFormed ts declarators
  | .expression s => s.Formed ts

end

theorem Slot.allFormed_iff {ts : TokenSet} {list : List Slot} :
    Slot.AllFormed ts list ↔ ∀ s ∈ list, s.Formed ts := by
  induction list with
  | nil => simp [Slot.AllFormed]
  | cons s rest ih => simp [Slot.AllFormed, ih]

theorem Slot.allOptional_iff {ts : TokenSet} {list : List Slot} :
    Slot.AllOptional ts list ↔ ∀ s ∈ list, s.Optional ts := by
  induction list with
  | nil => simp [Slot.AllOptional]
  | cons s rest ih => simp [Slot.AllOptional, ih]

theorem Property.allFormed_iff {ts : TokenSet} {list : List Property} :
    Property.AllFormed ts list ↔ ∀ p ∈ list, p.Formed ts := by
  induction list with
  | nil => simp [Property.AllFormed]
  | cons p rest ih => simp [Property.AllFormed, ih]

theorem Stmt.allFormed_iff {ts : TokenSet} {c : Context} {list : List Stmt} :
    Stmt.AllFormed ts c list ↔ ∀ s ∈ list, s.Formed ts c := by
  induction list with
  | nil => simp [Stmt.AllFormed]
  | cons s rest ih => simp [Stmt.AllFormed, ih]

theorem Case.allFormed_iff {ts : TokenSet} {c : Context} {list : List Case} :
    Case.AllFormed ts c list ↔ ∀ clause ∈ list, clause.Formed ts c := by
  induction list with
  | nil => simp [Case.AllFormed]
  | cons clause rest ih => simp [Case.AllFormed, ih]

theorem Declarator.allFormed_iff {ts : TokenSet} {list : List Declarator} :
    Declarator.AllFormed ts list ↔ ∀ d ∈ list, d.Formed ts := by
  induction list with
  | nil => simp [Declarator.AllFormed]
  | cons d rest ih => simp [Declarator.AllFormed, ih]

end ScriptOptimizer
