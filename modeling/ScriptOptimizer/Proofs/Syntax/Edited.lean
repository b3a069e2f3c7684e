import Mathlib.Algebra.Ring.Nat
import Mathlib.Data.List.Basic
import ScriptOptimizer.Proofs.Syntax.Outline

/-!
Edits as changes to outlines. An edited tree has the outline of the tree with names in some slots
and statements in some bodies: the place that edits use for a part is its number among the parts
that are there.
-/

namespace ScriptOptimizer

namespace Outline

@[simp] theorem splice_nil (body : List Outline) : splice [] body = body := by
  simp [splice, List.takeWhile_append_dropWhile]

/-- How many nodes parts are. -/
def total (parts : List Outline) : Nat := (parts.map count).sum

theorem rewriteAll_append (c : Changes) (inFunction : Bool) (parent : Path) (first : Nat)
    (xs ys : List Outline) : rewriteAll c inFunction parent first (xs ++ ys) =
      rewriteAll c inFunction parent first xs ++
        rewriteAll c inFunction parent (first + total xs) ys := by
  induction xs generalizing first with
  | nil => simp [rewriteAll, total]
  | cons x xs ih => simp [rewriteAll, ih, total, Nat.add_assoc]

end Outline

/-! ### Numbers of parts -/

theorem Slot.count_outline (s : Slot) : s.outline.count = (Child.slot s).length := by
  cases s <;> rfl

theorem Slot.isBlock_outline (s : Slot) : s.outline.isBlock = false := by
  cases s <;> rfl

theorem Slot.total_outlines (list : List Slot) :
    Outline.total (Slot.outlines list) = (Child.slots list).length := by
  induction list with
  | nil => rfl
  | cons s rest ih =>
    rw [Slot.outlines, Outline.total, List.map_cons, List.sum_cons, s.count_outline]
    rw [Outline.total] at ih
    simp [Child.slots, ih]

theorem Ident.count_outline (id : Option Ident) :
    (Ident.outline id).count = (Child.ident id).length := by
  cases id <;> rfl

theorem Ident.isBlock_outline (id : Option Ident) : (Ident.outline id).isBlock = false := by
  cases id <;> rfl

theorem Ident.rewrite_outline (c : Outline.Changes) (place : Path) (id : Option Ident) :
    (Ident.outline id).rewrite c [] place = Ident.outline id := by
  cases id <;> simp [Ident.outline, Outline.rewrite, Outline.rewriteAll]

theorem Stmt.count_enclose (s : Stmt) (parts : List Outline) :
    (s.enclose parts).count = (Child.stmt s).length := by
  cases s <;> rfl

theorem Block.count_outline (b : Block) : b.outline.count = (Child.block b).length := by
  cases b <;> rfl

/-- Only a block that is there receives statements. -/
theorem Block.rewrite_outline (b : Block) (c : Outline.Changes) (new : List Outline)
    (place : Path) : b.outline.rewrite c (if b.outline.isBlock then new else []) place =
      b.outline.rewrite c new place := by
  cases b with
  | absent => simp [Block.outline, Outline.rewrite]
  | braces s body => rfl

theorem Property.count_outline (p : Property) :
    p.outline.count = (Child.properties [p]).length := by
  cases p <;> rfl

theorem Handler.count_outline (h : Handler) :
    h.outline.count = if h matches .absent then 0 else 1 := by
  cases h <;> rfl

theorem ForHead.count_outline (head : ForHead) :
    head.outline.count = (Child.forHead head).length := by
  cases head with
  | expression s => exact s.count_outline
  | _ => rfl

theorem Case.count_outline (c : Case) : c.outline.count = 1 := by
  cases c
  rfl

theorem Declarator.count_outline (d : Declarator) : d.outline.count = 1 := by
  cases d
  rfl

/-! ### Edits keep what a node says itself -/

namespace Edits

variable (e : Edits)

theorem length_slots (parent : Path) (first : Nat) (list : List Slot) :
    (e.slots parent first list).length = list.length := by
  induction list generalizing first with
  | nil => rfl
  | cons s rest ih => simp [slots, ih]

theorem husk_function (place : Path) (fn : Function) : (e.function place fn).husk = fn.husk := by
  obtain ⟨id, params, defaults, rest, body, generator⟩ := fn
  simp [function, Function.husk, List.map_const', length_slots]

theorem husk_expr (place : Path) (x : Expr) : (e.expr place x).husk = x.husk := by
  cases x with
  | function s fn => simp [expr, Expr.husk, husk_function]
  | _ => rfl

theorem husk_forHead (place : Path) (head : ForHead) : (e.forHead place head).husk = head.husk := by
  cases head <;> rfl

theorem husk_stmt (place : Path) (s : Stmt) : (e.stmt place s).husk = s.husk := by
  cases s with
  | function s fn => simp [stmt, Stmt.husk, husk_function]
  | forLoop s init test update body => simp [stmt, Stmt.husk, husk_forHead]
  | forIn s left right body => simp [stmt, Stmt.husk, husk_forHead]
  | _ => rfl

theorem isPresent_stmt (place : Path) (s : Stmt) : (e.stmt place s).isPresent = s.isPresent := by
  cases s <;> rfl

/-- A node at a place. -/
def node (place : Path) : Node → Node
  | .program p => .program (p.edit e)
  | .stmt s => .stmt (e.stmt place s)
  | .expr x => .expr (e.expr place x)
  | .property p => .property (e.property place p)
  | .case c => .case (e.case place c)
  | .handler h => .handler (e.handler place h)
  | .declarator d => .declarator (e.declarator place d)

/-- What is put into the slots and bodies inside a node leaves its landmark as it is. -/
theorem landmark_node (place : Path) (n : Node) : (e.node place n).landmark = n.landmark := by
  cases n with
  | program p => rfl
  | stmt s => cases s <;> rfl
  | expr x => cases x <;> rfl
  | property p => cases p <;> rfl
  | case c => cases c; rfl
  | handler h => cases h <;> rfl
  | declarator d => cases d; rfl

/-- The edits as changes to outlines. -/
def changes : Outline.Changes := ⟨e.name?, fun place => (e.inserted place).map Stmt.outline⟩

theorem enclose_stmt {place : Path} {s : Stmt}
    (h : (e.stmt place s).parts =
      Outline.rewriteAll e.changes (Node.stmt s.husk).opensScope place 0 s.parts) :
    (e.stmt place s).enclose (e.stmt place s).parts =
      (s.enclose s.parts).rewrite e.changes [] place := by
  rw [Stmt.enclose, isPresent_stmt, husk_stmt, h, Stmt.enclose]
  split <;> simp [Outline.rewrite]

end Edits

theorem Stmt.outlines_eq_map (list : List Stmt) : Stmt.outlines list = list.map Stmt.outline := by
  induction list with
  | nil => rfl
  | cons s rest ih => rw [Stmt.outlines, ih, List.map_cons, Stmt.outline]

theorem Stmt.isDirective_outline (s : Stmt) : s.outline.isDirective = s.isDirective := by
  cases s with
  | expression span x =>
    cases x with
    | holds x => cases x <;> rfl
    | _ => rfl
  | _ => rfl

theorem Stmt.outlines_splice (new body : List Stmt) :
    Stmt.outlines (Edits.splice new body) =
      Outline.splice (new.map Stmt.outline) (Stmt.outlines body) := by
  have hdirective : Outline.isDirective ∘ Stmt.outline = Stmt.isDirective :=
    funext Stmt.isDirective_outline
  simp only [Stmt.outlines_eq_map, Edits.splice, Outline.splice, List.map_append,
    List.takeWhile_map, List.dropWhile_map, hdirective]

/-! ### Edits as changes to outlines -/

namespace Edits

mutual

theorem outline_slot (e : Edits) (place : Path) (s : Slot) :
    (e.slot place s).outline = s.outline.rewrite e.changes [] place := by
  cases s with
  | absent => simp [slot, Slot.outline, Outline.rewrite]
  | vacant => simp [slot, Slot.outline, Outline.rewrite]
  | holds x =>
    have hparts := outline_expr e place x
    have hname : e.changes.name? place = e.name? place := rfl
    simp only [slot, Slot.outline, Outline.rewrite, if_true, hname]
    cases e.name? place with
    | none => simp [Slot.outline, husk_expr, hparts]
    | some id => simp [Slot.outline, Expr.husk, Expr.parts]
termination_by structural s

theorem outline_slots (e : Edits) (inFunction : Bool) (parent : Path) (first : Nat)
    (list : List Slot) : Slot.outlines (e.slots parent first list) =
      Outline.rewriteAll e.changes inFunction parent first (Slot.outlines list) := by
  cases list with
  | nil => rfl
  | cons s rest =>
    have hs := outline_slot e (first :: parent) s
    have hrest := outline_slots e inFunction parent (first + (Child.slot s).length) rest
    simp [slots, Slot.outlines, Outline.rewriteAll, Slot.isBlock_outline, Slot.count_outline, hs,
      hrest]
termination_by structural list

theorem outline_expr (e : Edits) (place : Path) (x : Expr) :
    (e.expr place x).parts =
      Outline.rewriteAll e.changes (Node.expr x.husk).opensScope place 0 x.parts := by
  cases x with
  | ident id => rfl
  | literal lit => rfl
  | this s => rfl
  | array s list => exact outline_slots e false place 0 list
  | arrayPattern s list => exact outline_slots e false place 0 list
  | object s list => exact outline_properties e place 0 list
  | objectPattern s list => exact outline_properties e place 0 list
  | function s fn => exact outline_function e place fn
  | sequence s list => exact outline_slots e false place 0 list
  | unary s operator x =>
    have hx (i : Nat) := outline_slot e (i :: place) x
    simp [expr, Expr.parts, Expr.husk, Node.opensScope, Outline.rewriteAll, hx]
  | update s operator before x =>
    have hx (i : Nat) := outline_slot e (i :: place) x
    simp [expr, Expr.parts, Expr.husk, Node.opensScope, Outline.rewriteAll, hx]
  | binary s operator x y =>
    have hx (i : Nat) := outline_slot e (i :: place) x
    have hy (i : Nat) := outline_slot e (i :: place) y
    simp [expr, Expr.parts, Expr.husk, Node.opensScope, Outline.rewriteAll, Slot.count_outline, hx,
      hy]
  | logical s operator x y =>
    have hx (i : Nat) := outline_slot e (i :: place) x
    have hy (i : Nat) := outline_slot e (i :: place) y
    simp [expr, Expr.parts, Expr.husk, Node.opensScope, Outline.rewriteAll, Slot.count_outline, hx,
      hy]
  | assign s operator x y =>
    have hx (i : Nat) := outline_slot e (i :: place) x
    have hy (i : Nat) := outline_slot e (i :: place) y
    simp [expr, Expr.parts, Expr.husk, Node.opensScope, Outline.rewriteAll, Slot.count_outline, hx,
      hy]
  | conditional s x y z =>
    have hx (i : Nat) := outline_slot e (i :: place) x
    have hy (i : Nat) := outline_slot e (i :: place) y
    have hz (i : Nat) := outline_slot e (i :: place) z
    simp [expr, Expr.parts, Expr.husk, Node.opensScope, Outline.rewriteAll, Slot.count_outline, hx,
      hy, hz]
  | construct s x list =>
    have hx (i : Nat) := outline_slot e (i :: place) x
    have hlist (i : Nat) := outline_slots e false place i list
    simp [expr, Expr.parts, Expr.husk, Node.opensScope, Outline.rewriteAll, Slot.count_outline, hx,
      hlist]
  | call s x list =>
    have hx (i : Nat) := outline_slot e (i :: place) x
    have hlist (i : Nat) := outline_slots e false place i list
    simp [expr, Expr.parts, Expr.husk, Node.opensScope, Outline.rewriteAll, Slot.count_outline, hx,
      hlist]
  | member s x y computed =>
    have hx (i : Nat) := outline_slot e (i :: place) x
    have hy (i : Nat) := outline_slot e (i :: place) y
    simp [expr, Expr.parts, Expr.husk, Node.opensScope, Outline.rewriteAll, Slot.count_outline, hx,
      hy]
termination_by structural x

theorem outline_properties (e : Edits) (parent : Path) (first : Nat) (list : List Property) :
    Property.outlines (e.properties parent first list) =
      Outline.rewriteAll e.changes false parent first (Property.outlines list) := by
  cases list with
  | nil => rfl
  | cons p rest =>
    have hp := outline_property e (first :: parent) p
    have hrest := outline_properties e parent (first + (Child.properties [p]).length) rest
    simp [properties, Property.outlines, Outline.rewriteAll, Property.count_outline, hp, hrest]
termination_by structural list

theorem outline_property (e : Edits) (place : Path) (p : Property) :
    (e.property place p).outline = p.outline.rewrite e.changes [] place := by
  cases p with
  | absent => simp [property, Property.outline, Outline.rewrite]
  | entry s kind key value computed shorthand =>
    have hkey (i : Nat) := outline_slot e (i :: place) key
    have hvalue (i : Nat) := outline_slot e (i :: place) value
    cases shorthand <;>
      simp [property, Property.outline, Outline.rewrite, Property.husk, Node.opensScope,
        Outline.rewriteAll, Slot.count_outline, hkey, hvalue]
termination_by structural p

theorem outline_function (e : Edits) (place : Path) (fn : Function) :
    (e.function place fn).parts = Outline.rewriteAll e.changes true place 0 fn.parts := by
  cases fn with
  | mk id params defaults rest body generator =>
    have hslots (i : Nat) := outline_slots e true place i params
    have hdefaults (i : Nat) := outline_slots e true place i defaults
    have hbody (i : Nat) := outline_block e (e.inserted place) (i :: place) body
    have hinserted : e.changes.inserted place = (e.inserted place).map Stmt.outline := rfl
    simp [function, Function.parts, Outline.rewriteAll, Outline.rewriteAll_append,
      Ident.isBlock_outline, Ident.count_outline, Ident.rewrite_outline, Slot.total_outlines,
      Block.rewrite_outline, hslots, hdefaults, hbody, hinserted]
termination_by structural fn

theorem outline_block (e : Edits) (new : List Stmt) (place : Path) (b : Block) :
    (e.block new place b).outline =
      b.outline.rewrite e.changes (new.map Stmt.outline) place := by
  cases b with
  | absent => simp [block, Block.outline, Outline.rewrite]
  | braces s body =>
    have hbody := outline_stmts e place 0 body
    simp [block, Block.outline, Outline.rewrite, Node.opensScope, Stmt.outlines_splice, hbody]
termination_by structural b

theorem outline_stmts (e : Edits) (parent : Path) (first : Nat) (list : List Stmt) :
    Stmt.outlines (e.stmts parent first list) =
      Outline.rewriteAll e.changes false parent first (Stmt.outlines list) := by
  cases list with
  | nil => rfl
  | cons s rest =>
    have hs := enclose_stmt e (outline_stmt e (first :: parent) s)
    have hrest := outline_stmts e parent (first + (Child.stmt s).length) rest
    simp [stmts, Stmt.outlines, Outline.rewriteAll, Stmt.count_enclose, hs, hrest]
termination_by structural list

theorem outline_stmt (e : Edits) (place : Path) (s : Stmt) :
    (e.stmt place s).parts =
      Outline.rewriteAll e.changes (Node.stmt s.husk).opensScope place 0 s.parts := by
  cases s with
  | absent => rfl
  | empty s => rfl
  | debugger s => rfl
  | breakTo s label =>
    simp [stmt, Stmt.parts, Outline.rewriteAll, Stmt.husk, Node.opensScope, Ident.rewrite_outline]
  | continueTo s label =>
    simp [stmt, Stmt.parts, Outline.rewriteAll, Stmt.husk, Node.opensScope, Ident.rewrite_outline]
  | block s body => exact outline_stmts e place 0 body
  | expression s x =>
    have hx (i : Nat) := outline_slot e (i :: place) x
    simp [stmt, Stmt.parts, Outline.rewriteAll, Stmt.husk, Node.opensScope, hx]
  | conditional s x y z =>
    have hx (i : Nat) := outline_slot e (i :: place) x
    have hy (i : Nat) := enclose_stmt e (outline_stmt e (i :: place) y)
    have hz (i : Nat) := enclose_stmt e (outline_stmt e (i :: place) z)
    simp [stmt, Stmt.parts, Outline.rewriteAll, Stmt.husk, Node.opensScope, Slot.count_outline,
      Stmt.count_enclose, hx, hy, hz]
  | labeled s label body =>
    have hbody (i : Nat) := enclose_stmt e (outline_stmt e (i :: place) body)
    simp [stmt, Stmt.parts, Outline.rewriteAll, Stmt.husk, Node.opensScope, Ident.rewrite_outline,
      Ident.count_outline, hbody]
  | withObject s x body =>
    have hx (i : Nat) := outline_slot e (i :: place) x
    have hbody (i : Nat) := enclose_stmt e (outline_stmt e (i :: place) body)
    simp [stmt, Stmt.parts, Outline.rewriteAll, Stmt.husk, Node.opensScope, Slot.count_outline, hx,
      hbody]
  | switchOn s x list =>
    have hx (i : Nat) := outline_slot e (i :: place) x
    have hlist (i : Nat) := outline_cases e place i list
    simp [stmt, Stmt.parts, Outline.rewriteAll, Stmt.husk, Node.opensScope, Slot.count_outline, hx,
      hlist]
  | returnValue s x =>
    have hx (i : Nat) := outline_slot e (i :: place) x
    simp [stmt, Stmt.parts, Outline.rewriteAll, Stmt.husk, Node.opensScope, hx]
  | throwValue s x =>
    have hx (i : Nat) := outline_slot e (i :: place) x
    simp [stmt, Stmt.parts, Outline.rewriteAll, Stmt.husk, Node.opensScope, hx]
  | tryCatch s body guard finalizer =>
    have hbody (i : Nat) := outline_block e [] (i :: place) body
    have hguard (i : Nat) := outline_handler e (i :: place) guard
    have hfinalizer (i : Nat) := outline_block e [] (i :: place) finalizer
    simp only [List.map_nil] at hbody hfinalizer
    cases guard <;> simp [stmt, Stmt.parts, Outline.rewriteAll, Stmt.husk, Node.opensScope,
      Block.count_outline, Handler.count_outline, hbody, hguard, hfinalizer]
  | whileLoop s x body =>
    have hx (i : Nat) := outline_slot e (i :: place) x
    have hbody (i : Nat) := enclose_stmt e (outline_stmt e (i :: place) body)
    simp [stmt, Stmt.parts, Outline.rewriteAll, Stmt.husk, Node.opensScope, Slot.count_outline, hx,
      hbody]
  | doWhile s body x =>
    have hbody (i : Nat) := enclose_stmt e (outline_stmt e (i :: place) body)
    have hx (i : Nat) := outline_slot e (i :: place) x
    simp [stmt, Stmt.parts, Outline.rewriteAll, Stmt.husk, Node.opensScope, Stmt.count_enclose, hx,
      hbody]
  | forLoop s head x y body =>
    have hhead (i : Nat) := outline_forHead e (i :: place) head
    have hx (i : Nat) := outline_slot e (i :: place) x
    have hy (i : Nat) := outline_slot e (i :: place) y
    have hbody (i : Nat) := enclose_stmt e (outline_stmt e (i :: place) body)
    simp [stmt, Stmt.parts, Outline.rewriteAll, Stmt.husk, Node.opensScope, Slot.count_outline,
      ForHead.count_outline, hhead, hx, hy, hbody]
  | forIn s head x body =>
    have hhead (i : Nat) := outline_forHead e (i :: place) head
    have hx (i : Nat) := outline_slot e (i :: place) x
    have hbody (i : Nat) := enclose_stmt e (outline_stmt e (i :: place) body)
    simp [stmt, Stmt.parts, Outline.rewriteAll, Stmt.husk, Node.opensScope, Slot.count_outline,
      ForHead.count_outline, hhead, hx, hbody]
  | function s fn => exact outline_function e place fn
  | declaration s kind list => exact outline_declarators e place 0 list
termination_by structural s

theorem outline_cases (e : Edits) (parent : Path) (first : Nat) (list : List Case) :
    Case.outlines (e.cases parent first list) =
      Outline.rewriteAll e.changes false parent first (Case.outlines list) := by
  cases list with
  | nil => rfl
  | cons c rest =>
    have hc := outline_case e (first :: parent) c
    have hrest := outline_cases e parent (first + 1) rest
    simp [cases, Case.outlines, Outline.rewriteAll, Case.count_outline, hc, hrest]
termination_by structural list

theorem outline_case (e : Edits) (place : Path) (c : Case) :
    (e.case place c).outline = c.outline.rewrite e.changes [] place := by
  cases c with
  | clause s test consequent =>
    have htest (i : Nat) := outline_slot e (i :: place) test
    have hbody (i : Nat) := outline_stmts e place i consequent
    simp [case, Case.outline, Outline.rewrite, Outline.rewriteAll, Node.opensScope,
      Slot.count_outline, htest, hbody]
termination_by structural c

theorem outline_handler (e : Edits) (place : Path) (h : Handler) :
    (e.handler place h).outline = h.outline.rewrite e.changes [] place := by
  cases h with
  | absent => simp [handler, Handler.outline, Outline.rewrite]
  | clause s param body =>
    have hparam (i : Nat) := outline_slot e (i :: place) param
    have hbody (i : Nat) := outline_block e [] (i :: place) body
    simp only [List.map_nil] at hbody
    simp [handler, Handler.outline, Outline.rewrite, Outline.rewriteAll, Node.opensScope,
      Slot.count_outline, hparam, hbody]
termination_by structural h

theorem outline_declarators (e : Edits) (parent : Path) (first : Nat) (list : List Declarator) :
    Declarator.outlines (e.declarators parent first list) =
      Outline.rewriteAll e.changes false parent first (Declarator.outlines list) := by
  cases list with
  | nil => rfl
  | cons d rest =>
    have hd := outline_declarator e (first :: parent) d
    have hrest := outline_declarators e parent (first + 1) rest
    simp [declarators, Declarator.outlines, Outline.rewriteAll, Declarator.count_outline, hd, hrest]
termination_by structural list

theorem outline_declarator (e : Edits) (place : Path) (d : Declarator) :
    (e.declarator place d).outline = d.outline.rewrite e.changes [] place := by
  cases d with
  | bind s id init =>
    have hid (i : Nat) := outline_slot e (i :: place) id
    have hinit (i : Nat) := outline_slot e (i :: place) init
    simp [declarator, Declarator.outline, Outline.rewrite, Outline.rewriteAll, Node.opensScope,
      Slot.count_outline, hid, hinit]
termination_by structural d

theorem outline_forHead (e : Edits) (place : Path) (head : ForHead) :
    (e.forHead place head).outline = head.outline.rewrite e.changes [] place := by
  cases head with
  | absent => simp [forHead, ForHead.outline, Outline.rewrite]
  | declaration s kind list =>
    have hlist := outline_declarators e place 0 list
    simp [forHead, ForHead.outline, Outline.rewrite, Node.opensScope, hlist]
  | expression x => exact outline_slot e place x
termination_by structural head

end

end Edits

/-- The outline of an edited program. -/
theorem Program.outline_edit (e : Edits) (p : Program) :
    (p.edit e).outline = p.outline.rewrite e.changes (e.changes.inserted []) [] := by
  have hbody := e.outline_stmts [] 0 p.body
  have hinserted : e.changes.inserted [] = (e.inserted []).map Stmt.outline := rfl
  simp [Program.edit, Program.outline, Outline.rewrite, Node.opensScope, Stmt.outlines_splice,
    hbody, hinserted]

end ScriptOptimizer
