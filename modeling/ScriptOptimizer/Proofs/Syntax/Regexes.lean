import ScriptOptimizer.Proofs.Walk.Schedule
import ScriptOptimizer.Syntax.Precedence

/-!
Regular expressions in trees. In a text a slash begins one only after a token that ends no operand,
and of the tokens that end one the printer writes three directly before an expression: the sign of
an update before its operand, the parenthesis after the head of a compound statement (or the word
`do`), and the brace at the end of a statement. A tree keeps its regular expressions if none of them
is the first token of what stands there.
-/

namespace ScriptOptimizer

/-- Does the value say that the literal is a regular expression? -/
def LiteralValue.isRegexp : LiteralValue → Bool
  | .regexp _ _ => true
  | _ => false

mutual

/-- Does the text of what the slot holds begin with a regular expression where a level is wanted? It
does not if it is in parentheses. -/
def Slot.leadsRegex (level : Nat) : Slot → Bool
  | .holds e => decide (level ≤ e.level) && e.leadsRegex
  | _ => false

/-- Does the text of the expression begin with a regular expression? -/
def Expr.leadsRegex : Expr → Bool
  | .literal lit => lit.value.isRegexp
  | .sequence _ (first :: _) => first.leadsRegex Level.assign
  | .update _ _ false argument => argument.leadsRegex Level.call
  | .binary _ operator left _ | .logical _ operator left _ =>
    left.leadsRegex (Level.binary operator)
  | .assign _ _ left _ => left.leadsRegex Level.call
  | .conditional _ test _ _ => test.leadsRegex Level.loosestBinary
  | .call _ callee _ => callee.leadsRegex Level.call
  | .member _ object _ _ => object.leadsRegex Level.call
  | _ => false

end

namespace Stmt

/-- Does the text of the statement begin with a regular expression? -/
def leadsRegex : Stmt → Bool
  | .expression _ e => e.leadsRegex Level.sequence
  | _ => false

/-- Does the text of the statement end with a brace? -/
def endsBrace : Stmt → Bool
  | .block _ _ | .switchOn _ _ _ | .tryCatch _ _ _ _ | .function _ _ => true
  | .conditional _ _ consequent .absent => consequent.endsBrace
  | .conditional _ _ _ alternate => alternate.endsBrace
  | .labeled _ _ body | .withObject _ _ body | .whileLoop _ _ body | .forLoop _ _ _ _ body
  | .forIn _ _ _ body => body.endsBrace
  | _ => false

/-- Does no statement of a row begin with a regular expression behind one that ends with a brace?
The flag says whether the first may. -/
def rowKeepsRegex : Bool → List Stmt → Bool
  | _, [] => true
  | allowed, s :: rest => (!s.leadsRegex || allowed) && rowKeepsRegex (!s.endsBrace) rest

end Stmt

namespace Node

/-- Does no regular expression begin an operand, a body or a statement of the node directly after a
token that ends an operand? -/
def keepsRegex : Node → Bool
  | .expr (.update _ _ true argument) => !argument.leadsRegex Level.unary
  | .stmt (.conditional _ _ body _) | .stmt (.withObject _ _ body) | .stmt (.whileLoop _ _ body)
  | .stmt (.doWhile _ body _) | .stmt (.forLoop _ _ _ _ body) | .stmt (.forIn _ _ _ body) =>
    !body.leadsRegex
  | .stmt (.block _ list) | .case (.clause _ _ list) => Stmt.rowKeepsRegex true list
  | .program p => Stmt.rowKeepsRegex true p.body
  | _ => true

/-- Every node of the tree keeps its regular expressions. -/
def KeepsRegexes (n : Node) : Prop := ∀ m ∈ n.preorder, m.keepsRegex = true

instance (n : Node) : Decidable n.KeepsRegexes := inferInstanceAs (Decidable (∀ m ∈ _, _))

theorem keepsRegexes_iff (n : Node) :
    n.KeepsRegexes ↔ n.keepsRegex = true ∧ ∀ c ∈ n.children, c.node.KeepsRegexes := by
  unfold KeepsRegexes
  rw [preorder_eq]
  simp only [List.forall_mem_cons, List.mem_flatMap]
  exact and_congr_right fun _ =>
    ⟨fun h c hc m hm => h m ⟨c, hc, hm⟩, fun h m ⟨c, hc, hm⟩ => h c hc m hm⟩

end Node

/-- The tree of the expression keeps its regular expressions. -/
def Expr.KeepsRegexes (e : Expr) : Prop := (Node.expr e).KeepsRegexes

/-- The tree of the statement keeps its regular expressions. -/
def Stmt.KeepsRegexes (s : Stmt) : Prop := (Node.stmt s).KeepsRegexes

/-- The tree of the program keeps its regular expressions. -/
def Program.KeepsRegexes (p : Program) : Prop := (Node.program p).KeepsRegexes

instance (p : Program) : Decidable p.KeepsRegexes :=
  inferInstanceAs (Decidable (Node.program p).KeepsRegexes)

/-- The trees of a row of statements keep their regular expressions, and so does the row. -/
def Stmt.RowKeepsRegexes (list : List Stmt) : Prop :=
  Stmt.rowKeepsRegex true list = true ∧ ∀ s ∈ list, s.KeepsRegexes

namespace Child

/-- The trees of the children keep their regular expressions. -/
def KeepRegexes (list : List Child) : Prop := ∀ c ∈ list, c.node.KeepsRegexes

@[simp] theorem keep_nil : KeepRegexes [] := List.forall_mem_nil _

@[simp] theorem keep_append (xs ys : List Child) :
    KeepRegexes (xs ++ ys) ↔ KeepRegexes xs ∧ KeepRegexes ys := List.forall_mem_append

@[simp] theorem keep_flatMap {α : Type} (f : α → List Child) (list : List α) :
    KeepRegexes (list.flatMap f) ↔ ∀ a ∈ list, KeepRegexes (f a) := by
  simp only [KeepRegexes, List.mem_flatMap]
  exact ⟨fun h a ha c hc => h c ⟨a, ha, hc⟩, fun h c ⟨a, ha, hc⟩ => h a ha c hc⟩

end Child

theorem Expr.keepsRegexes_iff (e : Expr) : e.KeepsRegexes ↔
    (Node.expr e).keepsRegex = true ∧ Child.KeepRegexes (Child.ofExpr e) :=
  (Node.expr e).keepsRegexes_iff

theorem Stmt.endsBrace_conditional {span : Span} {test : Slot} {y n : Stmt} (h : n ≠ .absent) :
    (Stmt.conditional span test y n).endsBrace = n.endsBrace := by
  cases n with
  | absent => exact absurd rfl h
  | _ => rfl

theorem Stmt.keepsRegexes_iff (s : Stmt) : s.KeepsRegexes ↔
    (Node.stmt s).keepsRegex = true ∧ Child.KeepRegexes (Child.ofStmt s) :=
  (Node.stmt s).keepsRegexes_iff

namespace Child

@[simp] theorem keep_slot_absent : KeepRegexes (slot .absent) := keep_nil

@[simp] theorem keep_slot_holds (e : Expr) : KeepRegexes (slot (.holds e)) ↔ e.KeepsRegexes := by
  simp [KeepRegexes, slot, Expr.KeepsRegexes]

@[simp] theorem keep_slots (list : List Slot) :
    KeepRegexes (slots list) ↔ ∀ s ∈ list, KeepRegexes (slot s) := keep_flatMap _ _

@[simp] theorem keep_absent : Stmt.absent.KeepsRegexes :=
  (Stmt.keepsRegexes_iff _).2 ⟨rfl, keep_nil⟩

@[simp] theorem keep_stmt (s : Stmt) : KeepRegexes (stmt s) ↔ s.KeepsRegexes := by
  cases s with
  | absent => simp [stmt, Stmt.isPresent]
  | _ => simp [KeepRegexes, stmt, Stmt.isPresent, Stmt.KeepsRegexes]

@[simp] theorem keep_stmts (list : List Stmt) :
    KeepRegexes (stmts list) ↔ ∀ s ∈ list, s.KeepsRegexes := by
  simp [stmts]

@[simp] theorem keep_name (id : Ident) : (Expr.ident id).KeepsRegexes :=
  (Expr.keepsRegexes_iff _).2 ⟨rfl, keep_nil⟩

@[simp] theorem keep_literal (lit : Literal) : (Expr.literal lit).KeepsRegexes :=
  (Expr.keepsRegexes_iff _).2 ⟨rfl, keep_nil⟩

@[simp] theorem keep_ident (id : Option Ident) : KeepRegexes (ident id) := by
  cases id with
  | none => exact keep_nil
  | some id =>
    intro c hc
    obtain rfl := List.mem_singleton.1 hc
    exact keep_name id

@[simp] theorem keep_block (span : Span) (list : List Stmt) :
    KeepRegexes (block (.braces span list)) ↔ Stmt.RowKeepsRegexes list := by
  simp [block, Block.stmt, Stmt.keepsRegexes_iff (.block _ _), Node.keepsRegex, ofStmt,
    Stmt.RowKeepsRegexes]

@[simp] theorem keep_block_absent : KeepRegexes (block .absent) := keep_nil

theorem keep_cons (c : Child) (list : List Child) :
    KeepRegexes (c :: list) ↔ c.node.KeepsRegexes ∧ KeepRegexes list := List.forall_mem_cons

theorem keep_singleton (c : Child) : KeepRegexes [c] ↔ c.node.KeepsRegexes := by
  simp [KeepRegexes]

@[simp] theorem keep_properties (list : List Property) :
    KeepRegexes (properties list) ↔ ∀ p ∈ list, (Node.property p).KeepsRegexes := by
  rw [properties, keep_flatMap]
  refine forall₂_congr fun p _ => ?_
  cases p with
  | absent =>
    have hAbsent : (Node.property .absent).KeepsRegexes :=
      (Node.keepsRegexes_iff _).2 ⟨rfl, List.forall_mem_nil _⟩
    simp [hAbsent]
  | entry => exact keep_singleton _

@[simp] theorem keep_declarator (span : Span) (id : Ident) (init : Slot) :
    (Node.declarator (.bind span (.holds (.ident id)) init)).KeepsRegexes ↔
      KeepRegexes (slot init) := by
  rw [Node.keepsRegexes_iff, ← KeepRegexes]
  simp [Node.keepsRegex, Node.children]

@[simp] theorem keep_declaration (span : Span) (kind : Bytes) (list : List Declarator) :
    (Stmt.declaration span kind list).KeepsRegexes ↔
      ∀ d ∈ list, (Node.declarator d).KeepsRegexes := by
  rw [Stmt.keepsRegexes_iff]
  simp [Node.keepsRegex, ofStmt, declarators, KeepRegexes]

@[simp] theorem keep_head_declaration (span : Span) (kind : Bytes) (list : List Declarator) :
    KeepRegexes (forHead (.declaration span kind list)) ↔
      (Stmt.declaration span kind list).KeepsRegexes := keep_singleton _

@[simp] theorem keep_cases (list : List Case) :
    KeepRegexes (list.map fun c => ⟨.case c, false⟩) ↔
      ∀ clause ∈ list, (Node.case clause).KeepsRegexes := by
  simp [KeepRegexes]

theorem keep_case (span : Span) (test : Slot) (list : List Stmt) :
    (Node.case (.clause span test list)).KeepsRegexes ↔
      KeepRegexes (slot test) ∧ Stmt.RowKeepsRegexes list := by
  rw [Node.keepsRegexes_iff, ← KeepRegexes]
  simp [Node.keepsRegex, Node.children, Stmt.RowKeepsRegexes, and_left_comm]

theorem keep_handler (span inner : Span) (id : Ident) (list : List Stmt) :
    (Node.handler (.clause span (.holds (.ident id)) (.braces inner list))).KeepsRegexes ↔
      Stmt.RowKeepsRegexes list := by
  rw [Node.keepsRegexes_iff, ← KeepRegexes]
  simp [Node.keepsRegex, Node.children]

theorem keep_tryCatch (span inner : Span) (list : List Stmt) (handler : Handler)
    (finalizer : Block) :
    (Stmt.tryCatch span (.braces inner list) handler finalizer).KeepsRegexes ↔
      (Stmt.RowKeepsRegexes list ∧ (Node.handler handler).KeepsRegexes) ∧
        KeepRegexes (block finalizer) := by
  have hAbsent : (Node.handler .absent).KeepsRegexes :=
    (Node.keepsRegexes_iff _).2 ⟨rfl, List.forall_mem_nil _⟩
  rw [Stmt.keepsRegexes_iff]
  cases handler with
  | absent => simp [Node.keepsRegex, ofStmt, hAbsent]
  | clause => simp [Node.keepsRegex, ofStmt, keep_cons, and_assoc]

end Child

theorem Program.keepsRegexes_iff (p : Program) :
    p.KeepsRegexes ↔ Stmt.RowKeepsRegexes p.body := by
  rw [KeepsRegexes, Node.keepsRegexes_iff, Stmt.RowKeepsRegexes, ← Child.keep_stmts]
  rfl

/-! ### Which there are -/

/-- The text of a regular expression. -/
def Node.regex? : Node → Option Bytes
  | .expr (.literal ⟨_, raw, .regexp _ _⟩) => some raw
  | _ => none

/-- The regular expressions of the tree as they are written, in order. -/
def Node.regexes (n : Node) : List Bytes := n.preorder.filterMap Node.regex?

/-- The regular expressions of the program as they are written, in order. -/
def Program.regexes (p : Program) : List Bytes := (Node.program p).regexes

/-- There is no regular expression in the children. -/
def Child.Plain (list : List Child) : Prop := ∀ c ∈ list, c.node.regexes = []

namespace Child.Plain

variable {xs ys : List Child}

theorem left (h : Plain (xs ++ ys)) : Plain xs := (List.forall_mem_append.1 h).1

theorem right (h : Plain (xs ++ ys)) : Plain ys := (List.forall_mem_append.1 h).2

end Child.Plain

theorem Node.plain_children {n : Node} (h : n.regexes = []) : Child.Plain n.children := by
  intro c hc
  rw [regexes, List.filterMap_eq_nil_iff] at h ⊢
  rw [preorder_eq] at h
  exact fun m hm => h m (List.mem_cons_of_mem _ (List.mem_flatMap.2 ⟨c, hc, hm⟩))

mutual

theorem Slot.leadsRegex_of_plain (level : Nat) : (s : Slot) → Child.Plain (Child.slot s) →
    s.leadsRegex level = false
  | .holds e, h => by
    rw [Slot.leadsRegex, Expr.leadsRegex_of_plain e (h _ List.mem_cons_self), Bool.and_false]
  | .absent, _ => rfl
  | .vacant, _ => rfl

theorem Expr.leadsRegex_of_plain : (e : Expr) → (Node.expr e).regexes = [] → e.leadsRegex = false
  | .literal ⟨_, _, value⟩, h => by
    cases value with
    | regexp =>
      exact absurd (List.filterMap_eq_nil_iff.1 h _ (Node.self_mem_preorder _)) nofun
    | _ => rfl
  | .sequence _ (first :: _), h =>
    first.leadsRegex_of_plain Level.assign (Node.plain_children h).left
  | .update _ _ false argument, h =>
    argument.leadsRegex_of_plain Level.call (Node.plain_children h)
  | .binary _ operator left _, h =>
    left.leadsRegex_of_plain (Level.binary operator) (Node.plain_children h).left
  | .logical _ operator left _, h =>
    left.leadsRegex_of_plain (Level.binary operator) (Node.plain_children h).left
  | .assign _ _ left _, h => left.leadsRegex_of_plain Level.call (Node.plain_children h).left
  | .conditional _ test _ _, h =>
    test.leadsRegex_of_plain Level.loosestBinary (Node.plain_children h).left.left
  | .call _ callee _, h => callee.leadsRegex_of_plain Level.call (Node.plain_children h).left
  | .member _ object _ _, h => object.leadsRegex_of_plain Level.call (Node.plain_children h).left
  | .ident _, _ | .this _, _ | .array _ _, _ | .object _ _, _ | .function _ _, _
  | .sequence _ [], _ | .unary _ _ _, _ | .update _ _ true _, _ | .construct _ _ _, _
  | .objectPattern _ _, _ | .arrayPattern _ _, _ => rfl

end

namespace Stmt

theorem leadsRegex_of_plain (s : Stmt) (h : Child.Plain (Child.stmt s)) : s.leadsRegex = false := by
  cases s with
  | expression span e =>
    exact e.leadsRegex_of_plain Level.sequence (Node.plain_children (h _ List.mem_cons_self))
  | _ => rfl

theorem rowKeepsRegex_of_leads {list : List Stmt} (h : ∀ s ∈ list, s.leadsRegex = false)
    (allowed : Bool) : rowKeepsRegex allowed list = true := by
  induction list generalizing allowed with
  | nil => rfl
  | cons s rest ih =>
    obtain ⟨hFirst, hMore⟩ := List.forall_mem_cons.1 h
    rw [rowKeepsRegex, hFirst, ih hMore]
    rfl

theorem rowKeepsRegex_of_plain {list : List Stmt} (h : Child.Plain (Child.stmts list))
    (allowed : Bool) : rowKeepsRegex allowed list = true :=
  rowKeepsRegex_of_leads (fun s hs => s.leadsRegex_of_plain fun c hc =>
    h c (List.mem_flatMap.2 ⟨s, hs, hc⟩)) allowed

end Stmt

namespace Node

theorem keepsRegex_of_plain {n : Node} (h : n.regexes = []) : n.keepsRegex = true := by
  have hChildren := plain_children h
  have hBody {body : Stmt} (hPlain : Child.Plain (Child.stmt body)) :
      (!body.leadsRegex) = true := by rw [body.leadsRegex_of_plain hPlain]; rfl
  unfold keepsRegex
  split
  · rw [Slot.leadsRegex_of_plain _ _ hChildren]
    rfl
  · exact hBody hChildren.left.right
  · exact hBody hChildren.right
  · exact hBody hChildren.right
  · exact hBody hChildren.left
  · exact hBody hChildren.right
  · exact hBody hChildren.right
  · exact Stmt.rowKeepsRegex_of_plain hChildren true
  · exact Stmt.rowKeepsRegex_of_plain hChildren.right true
  · exact Stmt.rowKeepsRegex_of_plain hChildren true
  · rfl

/-- A tree without regular expressions keeps them. -/
theorem keepsRegexes_of_plain {n : Node} (h : n.regexes = []) : n.KeepsRegexes := by
  induction n using childInduction with
  | step n ih =>
    exact (keepsRegexes_iff n).2 ⟨keepsRegex_of_plain h,
      fun c hc => ih c hc (plain_children h c hc)⟩

end Node

end ScriptOptimizer
