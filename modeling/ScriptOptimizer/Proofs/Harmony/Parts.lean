import Mathlib.Data.List.Forall2
import ScriptOptimizer.Harmony.Lower

/-!
The parts of a program in the newer language, down to every depth; what of them the optimizer has no
tree for; and when a tree of the optimizer shows the same program as one of the newer language.
-/

namespace ScriptOptimizer.Harmony

/-- A part of a program. The parameter that takes the rest of the arguments is one of its own. -/
inductive Part where
  | expression (e : Expression)
  | entry (e : Entry)
  | rest (param : Expression)
  | function (fn : Function)
  | block (b : Block)
  | statement (s : Statement)
  | clause (c : Case)
  | handler (h : Handler)
  | head (h : LoopHead)

def Binding.target : Binding → Expression
  | .bind target _ => target

def Binding.initializer : Binding → Expression
  | .bind _ initializer => initializer

/-! ### What a part is made of -/

@[simp] def Binding.parts (b : Binding) : List Part :=
  [.expression b.target, .expression b.initializer]

@[simp] def Expression.parts : Expression → List Part
  | .absent | .name _ | .this _ | .literal _ _ _ | .foreign _ _ => []
  | .array _ items | .arrayPattern _ items | .sequence _ items => items.map .expression
  | .object _ entries | .objectPattern _ entries => entries.map .entry
  | .function fn => [.function fn]
  | .spread e | .unary _ _ e | .update _ _ _ e | .dot _ e _ => [.expression e]
  | .binary _ _ left right | .assign _ _ left right | .index _ left right =>
    [.expression left, .expression right]
  | .conditional _ test consequent alternate =>
    [.expression test, .expression consequent, .expression alternate]
  | .construct _ callee arguments | .call _ callee arguments =>
    .expression callee :: arguments.map .expression

@[simp] def Entry.parts : Entry → List Part
  | .keyed _ _ _ key value => [.expression key, .expression value]
  | .short _ e | .spread e => [.expression e]

@[simp] def Function.parts : Function → List Part
  | .mk _ _ _ _ params rest body =>
    params.map (.expression ·.target) ++ (params.map (.expression ·.initializer) ++
      [.rest rest, .block body])

@[simp] def Block.parts : Block → List Part
  | .absent => []
  | .braces _ body => body.map .statement

@[simp] def Statement.parts : Statement → List Part
  | .absent | .empty _ | .breakTo _ _ | .continueTo _ _ | .forOf _ | .debugger _
  | .classDeclaration _ | .foreign _ _ => []
  | .block b => [.block b]
  | .expression e | .returnValue _ e | .throwValue _ e => [.expression e]
  | .conditional _ test consequent alternate =>
    [.expression test, .statement consequent, .statement alternate]
  | .labeled _ _ body => [.statement body]
  | .withObject _ e body | .whileLoop _ e body => [.expression e, .statement body]
  | .switchOn _ discriminant cases => cases.map .clause ++ [.expression discriminant]
  | .tryCatch _ body handler finalizer => [.handler handler, .block finalizer, .block body]
  | .doWhile _ body test => [.statement body, .expression test]
  | .forLoop _ init test update body =>
    [.head init, .expression test, .expression update, .statement body]
  | .forIn _ head source body => [.head head, .expression source, .statement body]
  | .declaration _ _ bindings => bindings.flatMap Binding.parts
  | .function fn => [.function fn]

@[simp] def Case.parts : Case → List Part
  | .clause _ test consequent => .expression test :: consequent.map .statement

@[simp] def Handler.parts : Handler → List Part
  | .absent => []
  | .clause _ param body => [.expression param, .block body]

@[simp] def LoopHead.parts : LoopHead → List Part
  | .absent => []
  | .declaration _ _ bindings => bindings.flatMap Binding.parts
  | .expression e => [.expression e]

namespace Part

/-- The parts right below a part. -/
@[simp] def children : Part → List Part
  | expression e => e.parts
  | entry e => e.parts
  | rest param => [.expression param]
  | function fn => fn.parts
  | block b => b.parts
  | statement s => s.parts
  | clause c => c.parts
  | handler h => h.parts
  | head h => h.parts

/-- The parts of a part: itself, and at any depth those below it. -/
inductive Holds : Part → Part → Prop
  | self (part : Part) : part.Holds part
  | inside {part child held : Part} (hChild : child ∈ part.children) (hHeld : child.Holds held) :
      part.Holds held

/-- Is it one of the parts of a list, at whatever depth? -/
def Within (held : Part) (parts : List Part) : Prop := ∃ part ∈ parts, part.Holds held

@[simp] theorem not_within_nil {held : Part} : ¬held.Within [] := by
  rintro ⟨part, hMem, -⟩
  cases hMem

theorem within_append {held : Part} {parts more : List Part} :
    held.Within (parts ++ more) ↔ held.Within parts ∨ held.Within more := by
  simp only [Within, List.mem_append, or_and_right, exists_or]

/-- A part comes before the parts right below it, and those before the parts that follow it. -/
@[simp] theorem within_cons {held part : Part} {parts : List Part} :
    held.Within (part :: parts) ↔ held = part ∨ held.Within (part.children ++ parts) := by
  rw [within_append]
  constructor
  · rintro ⟨top, hMem, hHolds⟩
    rcases List.mem_cons.1 hMem with rfl | hMem
    · cases hHolds with
      | self => exact .inl rfl
      | inside hChild hHeld => exact .inr (.inl ⟨_, hChild, hHeld⟩)
    · exact .inr (.inr ⟨top, hMem, hHolds⟩)
  · rintro (rfl | ⟨child, hChild, hHeld⟩ | ⟨top, hMem, hHolds⟩)
    · exact ⟨held, List.mem_cons_self, .self held⟩
    · exact ⟨part, List.mem_cons_self, .inside hChild hHeld⟩
    · exact ⟨top, List.mem_cons_of_mem part hMem, hHolds⟩

/-- What messages call a part that by itself, whatever is below it, has no tree in the optimizer. -/
def unsupported? : Part → Option Bytes
  | expression (.foreign _ what) => some what.text
  | expression (.spread _) => some "spread element"
  | expression (.arrayPattern _ elements) => (restElement? elements).map fun _ => "rest element"
  | expression (.objectPattern _ entries) => (restProperty? entries).map fun _ => "rest element"
  | entry (.spread _) => some "property *ast.SpreadElement"
  | rest .absent | rest (.name _) => none
  | rest _ => some "rest parameter pattern"
  | function (.mk _ true _ _ _ _ _) => some "async function"
  | statement (.forIn _ .absent _ _) => some "for-in head <nil>"
  | statement (.forOf _) => some "for-of statement"
  | statement (.classDeclaration _) => some "class declaration"
  | statement (.foreign _ type) => some ("statement " ++ type)
  | handler (.clause _ .absent _) => some "catch without binding"
  | _ => none

end Part

/-- Is the part in the program, at whatever depth? -/
def Script.Holds (s : Script) (part : Part) : Prop := part.Within (s.body.map .statement)

/-! ### The same program in both trees -/

def Statement.isAbsent : Statement → Bool
  | .absent => true
  | _ => false

/-- Does the identifier have the name? -/
def Name.Matches (n : Name) (id : Ident) : Prop := id.name = n.text

/-- Is the key a plain word, which is kept as a string without quotes? -/
def Expression.IsPlainKey (computed : Bool) (key : Expression) (word : Bytes) : Prop :=
  computed = false ∧ ∃ range raw, key = .literal range raw (.string word) ∧ isQuoted raw = false

/-- The name shows the parameter that takes the rest of the arguments. -/
inductive Expression.MatchesRest : Expression → Option Ident → Prop
  | absent : Expression.MatchesRest .absent none
  | name {id ident} : id.Matches ident → Expression.MatchesRest (.name id) (some ident)

mutual

/-- The slot shows the expression: the same construct, operator, names and literal, around parts
that show its parts. Where the ranges are does not matter. -/
inductive Expression.Matches : Expression → Slot → Prop
  | absent : Expression.Matches .absent .absent
  | name {id ident} : id.Matches ident → Expression.Matches (.name id) (.holds (.ident ident))
  | this {range span} : Expression.Matches (.this range) (.holds (.this span))
  | literal {range raw value span} :
      Expression.Matches (.literal range raw value) (.holds (.literal ⟨span, raw, value⟩))
  | array {range items span slots} : List.Forall₂ Expression.Matches items slots →
      Expression.Matches (.array range items) (.holds (.array span slots))
  | object {range entries span properties} : List.Forall₂ Entry.Matches entries properties →
      Expression.Matches (.object range entries) (.holds (.object span properties))
  | arrayPattern {range items span slots} : List.Forall₂ Expression.Matches items slots →
      Expression.Matches (.arrayPattern range items) (.holds (.arrayPattern span slots))
  | objectPattern {range entries span properties} : List.Forall₂ Entry.Matches entries properties →
      Expression.Matches (.objectPattern range entries) (.holds (.objectPattern span properties))
  | function {f span fn} : Function.Matches f fn →
      Expression.Matches (.function f) (.holds (.function span fn))
  | sequence {range items span slots} : List.Forall₂ Expression.Matches items slots →
      Expression.Matches (.sequence range items) (.holds (.sequence span slots))
  | unary {range operator e span slot} : Expression.Matches e slot →
      Expression.Matches (.unary range operator e) (.holds (.unary span operator slot))
  | update {range operator postfixed e span slot} : Expression.Matches e slot →
      Expression.Matches (.update range operator postfixed e)
        (.holds (.update span operator (!postfixed) slot))
  | binary {range operator e₁ e₂ span slot₁ slot₂} : isLogical operator = false →
      Expression.Matches e₁ slot₁ → Expression.Matches e₂ slot₂ →
      Expression.Matches (.binary range operator e₁ e₂) (.holds (.binary span operator slot₁ slot₂))
  | logical {range operator e₁ e₂ span slot₁ slot₂} : isLogical operator = true →
      Expression.Matches e₁ slot₁ → Expression.Matches e₂ slot₂ →
      Expression.Matches (.binary range operator e₁ e₂)
        (.holds (.logical span operator slot₁ slot₂))
  | assign {range e₁ e₂ span slot₁ slot₂} :
      Expression.Matches e₁ slot₁ → Expression.Matches e₂ slot₂ →
      Expression.Matches (.assign range none e₁ e₂) (.holds (.assign span "=" slot₁ slot₂))
  | compound {range operator e₁ e₂ span slot₁ slot₂} :
      Expression.Matches e₁ slot₁ → Expression.Matches e₂ slot₂ →
      Expression.Matches (.assign range (some operator) e₁ e₂)
        (.holds (.assign span (operator ++ Bytes.ofString "=") slot₁ slot₂))
  | conditional {range e₁ e₂ e₃ span slot₁ slot₂ slot₃} : Expression.Matches e₁ slot₁ →
      Expression.Matches e₂ slot₂ → Expression.Matches e₃ slot₃ →
      Expression.Matches (.conditional range e₁ e₂ e₃)
        (.holds (.conditional span slot₁ slot₂ slot₃))
  | construct {range callee items span slot slots} : Expression.Matches callee slot →
      List.Forall₂ Expression.Matches items slots →
      Expression.Matches (.construct range callee items) (.holds (.construct span slot slots))
  | call {range callee items span slot slots} : Expression.Matches callee slot →
      List.Forall₂ Expression.Matches items slots →
      Expression.Matches (.call range callee items) (.holds (.call span slot slots))
  | dot {range e property span slot ident} : Expression.Matches e slot → property.Matches ident →
      Expression.Matches (.dot range e property)
        (.holds (.member span slot (.holds (.ident ident)) false))
  | index {range e₁ e₂ span slot₁ slot₂} :
      Expression.Matches e₁ slot₁ → Expression.Matches e₂ slot₂ →
      Expression.Matches (.index range e₁ e₂) (.holds (.member span slot₁ slot₂ true))

/-- The property shows the entry. A name alone is its own key and value, and what it is given is
assigned to it. -/
inductive Entry.Matches : Entry → Property → Prop
  | plain {range kind key value span ident slot} : key.IsPlainKey false ident.name →
      Expression.Matches value slot →
      Entry.Matches (.keyed range kind false key value)
        (.entry span kind.text (.holds (.ident ident)) slot false false)
  | keyed {range kind computed key value span slot₁ slot₂} :
      (∀ word, ¬key.IsPlainKey computed word) → Expression.Matches key slot₁ →
      Expression.Matches value slot₂ →
      Entry.Matches (.keyed range kind computed key value)
        (.entry span kind.text slot₁ slot₂ computed false)
  | short {id span ident} : id.Matches ident →
      Entry.Matches (.short id .absent)
        (.entry span "init" (.holds (.ident ident)) (.holds (.ident ident)) false true)
  | initialized {id e span span' ident slot} : id.Matches ident → e ≠ .absent →
      Expression.Matches e slot →
      Entry.Matches (.short id e) (.entry span "init" (.holds (.ident ident))
        (.holds (.assign span' "=" (.holds (.ident ident)) slot)) false false)

/-- The declarator shows the binding. -/
inductive Binding.Matches : Binding → Declarator → Prop
  | bind {e₁ e₂ span slot₁ slot₂} : Expression.Matches e₁ slot₁ → Expression.Matches e₂ slot₂ →
      Binding.Matches (.bind e₁ e₂) (.bind span slot₁ slot₂)

/-- The function of the optimizer shows the one of the newer language. There are defaults beside the
parameters as soon as one parameter has an initializer. -/
inductive Function.Matches : Function → ScriptOptimizer.Function → Prop
  | plain {range generator name params rest body id targets last block} :
      Option.Rel Name.Matches name id → (∀ b ∈ params, b.initializer = .absent) →
      List.Forall₂ Expression.Matches (params.map Binding.target) targets →
      Expression.MatchesRest rest last → Block.Matches body block →
      Function.Matches (.mk range false generator name params rest body)
        (.mk id targets [] last block generator)
  | defaulted {range generator name params rest body id targets defaults last block} :
      Option.Rel Name.Matches name id → (∃ b ∈ params, b.initializer ≠ .absent) →
      List.Forall₂ Expression.Matches (params.map Binding.target) targets →
      List.Forall₂ Expression.Matches (params.map Binding.initializer) defaults →
      Expression.MatchesRest rest last → Block.Matches body block →
      Function.Matches (.mk range false generator name params rest body)
        (.mk id targets defaults last block generator)

/-- The block of the optimizer shows the one of the newer language. -/
inductive Block.Matches : Block → ScriptOptimizer.Block → Prop
  | absent : Block.Matches .absent .absent
  | braces {range body span stmts} :
      List.Forall₂ Statement.Matches (body.filter (!·.isAbsent)) stmts →
      Block.Matches (.braces range body) (.braces span stmts)

/-- The statement of the optimizer shows the one of the newer language. -/
inductive Statement.Matches : Statement → Stmt → Prop
  | absent : Statement.Matches .absent .absent
  | noBlock : Statement.Matches (.block .absent) .absent
  | empty {range span} : Statement.Matches (.empty range) (.empty span)
  | block {range body span stmts} :
      List.Forall₂ Statement.Matches (body.filter (!·.isAbsent)) stmts →
      Statement.Matches (.block (.braces range body)) (.block span stmts)
  | expression {e span slot} : Expression.Matches e slot →
      Statement.Matches (.expression e) (.expression span slot)
  | conditional {range e s₁ s₂ span slot stmt₁ stmt₂} : Expression.Matches e slot →
      Statement.Matches s₁ stmt₁ → Statement.Matches s₂ stmt₂ →
      Statement.Matches (.conditional range e s₁ s₂) (.conditional span slot stmt₁ stmt₂)
  | labeled {range label s span id stmt} : label.Matches id → Statement.Matches s stmt →
      Statement.Matches (.labeled range label s) (.labeled span (some id) stmt)
  | breakTo {range label span id} : Option.Rel Name.Matches label id →
      Statement.Matches (.breakTo range label) (.breakTo span id)
  | continueTo {range label span id} : Option.Rel Name.Matches label id →
      Statement.Matches (.continueTo range label) (.continueTo span id)
  | withObject {range e s span slot stmt} : Expression.Matches e slot → Statement.Matches s stmt →
      Statement.Matches (.withObject range e s) (.withObject span slot stmt)
  | switchOn {range e cases span slot clauses} : Expression.Matches e slot →
      List.Forall₂ Case.Matches cases clauses →
      Statement.Matches (.switchOn range e cases) (.switchOn span slot clauses)
  | returnValue {range e span slot} : Expression.Matches e slot →
      Statement.Matches (.returnValue range e) (.returnValue span slot)
  | throwValue {range e span slot} : Expression.Matches e slot →
      Statement.Matches (.throwValue range e) (.throwValue span slot)
  | tryCatch {range b handler finalizer span block handler' finalizer'} : Block.Matches b block →
      Handler.Matches handler handler' → Block.Matches finalizer finalizer' →
      Statement.Matches (.tryCatch range b handler finalizer)
        (.tryCatch span block handler' finalizer')
  | whileLoop {range e s span slot stmt} : Expression.Matches e slot → Statement.Matches s stmt →
      Statement.Matches (.whileLoop range e s) (.whileLoop span slot stmt)
  | doWhile {range s e span stmt slot} : Statement.Matches s stmt → Expression.Matches e slot →
      Statement.Matches (.doWhile range s e) (.doWhile span stmt slot)
  | forLoop {range head e₁ e₂ s span head' slot₁ slot₂ stmt} : LoopHead.Matches head head' →
      Expression.Matches e₁ slot₁ → Expression.Matches e₂ slot₂ → Statement.Matches s stmt →
      Statement.Matches (.forLoop range head e₁ e₂ s) (.forLoop span head' slot₁ slot₂ stmt)
  | forIn {range head e s span head' slot stmt} : LoopHead.Matches head head' →
      Expression.Matches e slot → Statement.Matches s stmt →
      Statement.Matches (.forIn range head e s) (.forIn span head' slot stmt)
  | debugger {range span} : Statement.Matches (.debugger range) (.debugger span)
  | declaration {range kind bindings span declarators} :
      List.Forall₂ Binding.Matches bindings declarators →
      Statement.Matches (.declaration range kind bindings) (.declaration span kind.text declarators)
  | function {f span fn} : Function.Matches f fn →
      Statement.Matches (.function f) (.function span fn)

/-- The clause of the optimizer shows the one of the newer language. -/
inductive Case.Matches : Case → ScriptOptimizer.Case → Prop
  | clause {start test consequent span slot stmts} : Expression.Matches test slot →
      List.Forall₂ Statement.Matches (consequent.filter (!·.isAbsent)) stmts →
      Case.Matches (.clause start test consequent) (.clause span slot stmts)

/-- The handler of the optimizer shows the one of the newer language. -/
inductive Handler.Matches : Handler → ScriptOptimizer.Handler → Prop
  | absent : Handler.Matches .absent .absent
  | clause {range param body span slot block} : Expression.Matches param slot →
      Block.Matches body block →
      Handler.Matches (.clause range param body) (.clause span slot block)

/-- The first part of the loop head shows the one of the newer language. -/
inductive LoopHead.Matches : LoopHead → ForHead → Prop
  | absent : LoopHead.Matches .absent .absent
  | declaration {range kind bindings span declarators} :
      List.Forall₂ Binding.Matches bindings declarators →
      LoopHead.Matches (.declaration range kind bindings) (.declaration span kind.text declarators)
  | expression {e slot} : Expression.Matches e slot →
      LoopHead.Matches (.expression e) (.expression slot)

end

/-- The program of the optimizer shows the script, statement by statement. -/
def Script.Matches (s : Script) (p : Program) : Prop :=
  List.Forall₂ Statement.Matches (s.body.filter (!·.isAbsent)) p.body

end ScriptOptimizer.Harmony
