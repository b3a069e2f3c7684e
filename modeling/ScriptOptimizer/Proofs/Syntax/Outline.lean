import Mathlib.Data.List.Basic
import ScriptOptimizer.Proofs.Walk.Schedule

/-!
Trees as outlines. In an outline every node is what it says itself, without its parts, followed by
the outlines of all its parts in order, gaps included; so the changes that edits make can be told
for all sorts of nodes at once.
-/

namespace ScriptOptimizer

/-! ### Nodes without their parts -/

/-- The function without its parts, except how many parameters it has. -/
def Function.husk : Function → Function
  | .mk _ params _ _ _ generator =>
    .mk none (params.map fun _ => .absent) [] none .absent generator

/-- The expression without its parts. -/
def Expr.husk : Expr → Expr
  | .ident id => .ident id
  | .literal lit => .literal lit
  | .this s => .this s
  | .array s _ => .array s []
  | .arrayPattern s _ => .arrayPattern s []
  | .object s _ => .object s []
  | .objectPattern s _ => .objectPattern s []
  | .function s fn => .function s fn.husk
  | .sequence s _ => .sequence s []
  | .unary s operator _ => .unary s operator .absent
  | .update s operator before _ => .update s operator before .absent
  | .binary s operator _ _ => .binary s operator .absent .absent
  | .logical s operator _ _ => .logical s operator .absent .absent
  | .assign s operator _ _ => .assign s operator .absent .absent
  | .conditional s _ _ _ => .conditional s .absent .absent .absent
  | .construct s _ _ => .construct s .absent []
  | .call s _ _ => .call s .absent []
  | .member s _ _ computed => .member s .absent .absent computed

/-- The entry without its parts. The value of a shorthand entry is none of them. -/
def Property.husk : Property → Property
  | .absent => .absent
  | .entry s kind _ value computed shorthand =>
    .entry s kind .absent (if shorthand then value else .absent) computed shorthand

/-- The first part of a loop head, only whether it is an expression. -/
def ForHead.husk : ForHead → ForHead
  | .expression _ => .expression .absent
  | .absent | .declaration _ _ _ => .absent

/-- The statement without its parts. -/
def Stmt.husk : Stmt → Stmt
  | .absent => .absent
  | .empty s => .empty s
  | .debugger s => .debugger s
  | .breakTo s _ => .breakTo s none
  | .continueTo s _ => .continueTo s none
  | .block s _ => .block s []
  | .expression s _ => .expression s .absent
  | .conditional s _ _ _ => .conditional s .absent .absent .absent
  | .labeled s _ _ => .labeled s none .absent
  | .withObject s _ _ => .withObject s .absent .absent
  | .switchOn s _ _ => .switchOn s .absent []
  | .returnValue s _ => .returnValue s .absent
  | .throwValue s _ => .throwValue s .absent
  | .tryCatch s _ _ _ => .tryCatch s .absent .absent .absent
  | .whileLoop s _ _ => .whileLoop s .absent .absent
  | .doWhile s _ _ => .doWhile s .absent .absent
  | .forLoop s init _ _ _ => .forLoop s init.husk .absent .absent .absent
  | .forIn s left _ _ => .forIn s left.husk .absent .absent
  | .function s fn => .function s fn.husk
  | .declaration s kind _ => .declaration s kind []

/-- The node without its parts. -/
def Node.husk : Node → Node
  | .program p => .program { p with body := [] }
  | .stmt s => .stmt s.husk
  | .expr x => .expr x.husk
  | .property p => .property p.husk
  | .case (.clause s _ _) => .case (.clause s .absent [])
  | .handler .absent => .handler .absent
  | .handler (.clause s _ _) => .handler (.clause s .absent .absent)
  | .declarator (.bind s _ _) => .declarator (.bind s .absent .absent)

/-! ### Outlines -/

/-- A part of a tree: a gap, where a part is absent or vacant, or a node without its parts and the
outlines of these. -/
inductive Outline where
  | gap (vacant : Bool)
  | node (own : Node) (inSlot : Bool) (parts : List Outline)

/-- The name outside slots. -/
def Ident.outline : Option Ident → Outline
  | none => .gap false
  | some id => .node (.expr (.ident id)) false []

/-- A statement with the outlines of its parts. -/
def Stmt.enclose (s : Stmt) (parts : List Outline) : Outline :=
  if s.isPresent then .node (.stmt s.husk) false parts else .gap false

-- Each sort of node lists the outlines of its parts in the order in which a walk visits them.
mutual

def Slot.outline : Slot → Outline
  | .absent => .gap false
  | .vacant => .gap true
  | .holds x => .node (.expr x.husk) true x.parts

def Slot.outlines : List Slot → List Outline
  | [] => []
  | s :: rest => s.outline :: Slot.outlines rest

def Expr.parts : Expr → List Outline
  | .ident _ | .literal _ | .this _ => []
  | .array _ elements => Slot.outlines elements
  | .arrayPattern _ elements => Slot.outlines elements
  | .object _ list => Property.outlines list
  | .objectPattern _ list => Property.outlines list
  | .function _ fn => fn.parts
  | .sequence _ items => Slot.outlines items
  | .unary _ _ argument => [argument.outline]
  | .update _ _ _ argument => [argument.outline]
  | .binary _ _ left right => [left.outline, right.outline]
  | .logical _ _ left right => [left.outline, right.outline]
  | .assign _ _ left right => [left.outline, right.outline]
  | .conditional _ test consequent alternate =>
    [test.outline, consequent.outline, alternate.outline]
  | .construct _ callee arguments => callee.outline :: Slot.outlines arguments
  | .call _ callee arguments => callee.outline :: Slot.outlines arguments
  | .member _ object property _ => [object.outline, property.outline]

def Property.outline : Property → Outline
  | .absent => .gap false
  | .entry s kind key value computed shorthand =>
    .node (.property (Property.entry s kind key value computed shorthand).husk) false
      (key.outline :: if shorthand then [] else [value.outline])

def Property.outlines : List Property → List Outline
  | [] => []
  | p :: rest => p.outline :: Property.outlines rest

def Function.parts : Function → List Outline
  | .mk id params defaults rest body _ =>
    Ident.outline id :: (Slot.outlines params ++ (Slot.outlines defaults ++
      [Ident.outline rest, body.outline]))

def Block.outline : Block → Outline
  | .absent => .gap false
  | .braces s body => .node (.stmt (.block s [])) false (Stmt.outlines body)

def Stmt.parts : Stmt → List Outline
  | .absent | .empty _ | .debugger _ => []
  | .breakTo _ label => [Ident.outline label]
  | .continueTo _ label => [Ident.outline label]
  | .block _ body => Stmt.outlines body
  | .expression _ x => [x.outline]
  | .conditional _ test consequent alternate =>
    [test.outline, consequent.enclose consequent.parts, alternate.enclose alternate.parts]
  | .labeled _ label body => [Ident.outline label, body.enclose body.parts]
  | .withObject _ object body => [object.outline, body.enclose body.parts]
  | .switchOn _ discriminant list => discriminant.outline :: Case.outlines list
  | .returnValue _ argument => [argument.outline]
  | .throwValue _ argument => [argument.outline]
  | .tryCatch _ body guard finalizer => [body.outline, guard.outline, finalizer.outline]
  | .whileLoop _ test body => [test.outline, body.enclose body.parts]
  | .doWhile _ body test => [body.enclose body.parts, test.outline]
  | .forLoop _ init test update body =>
    [init.outline, test.outline, update.outline, body.enclose body.parts]
  | .forIn _ left right body => [left.outline, right.outline, body.enclose body.parts]
  | .function _ fn => fn.parts
  | .declaration _ _ list => Declarator.outlines list

def Stmt.outlines : List Stmt → List Outline
  | [] => []
  | s :: rest => s.enclose s.parts :: Stmt.outlines rest

def Case.outline : Case → Outline
  | .clause s test consequent =>
    .node (.case (.clause s .absent [])) false (test.outline :: Stmt.outlines consequent)

def Case.outlines : List Case → List Outline
  | [] => []
  | c :: rest => c.outline :: Case.outlines rest

def Handler.outline : Handler → Outline
  | .absent => .gap false
  | .clause s param body =>
    .node (.handler (.clause s .absent .absent)) false [param.outline, body.outline]

def Declarator.outline : Declarator → Outline
  | .bind s id init =>
    .node (.declarator (.bind s .absent .absent)) false [id.outline, init.outline]

def Declarator.outlines : List Declarator → List Outline
  | [] => []
  | d :: rest => d.outline :: Declarator.outlines rest

def ForHead.outline : ForHead → Outline
  | .absent => .gap false
  | .declaration s kind list =>
    .node (.stmt (.declaration s kind [])) false (Declarator.outlines list)
  | .expression x => x.outline

end

/-- The outline of a statement. -/
def Stmt.outline (s : Stmt) : Outline := s.enclose s.parts

/-- The outline of a program. -/
def Program.outline (p : Program) : Outline :=
  .node (.program { p with body := [] }) false (Stmt.outlines p.body)

/-! ### Outlines tell trees apart -/

theorem Ident.outline_inj {a b : Option Ident} (h : Ident.outline a = Ident.outline b) : a = b := by
  cases a <;> cases b <;> simp_all [Ident.outline]

theorem Stmt.eq_of_enclose {s t : Stmt}
    (hparts : s.husk = t.husk → s.parts = t.parts → s = t)
    (h : s.enclose s.parts = t.enclose t.parts) : s = t := by
  have habsent {s : Stmt} (hs : ¬s.isPresent = true) : s = .absent := by
    cases s <;> simp_all [isPresent]
  unfold enclose at h
  split at h <;> split at h
  · simp only [Outline.node.injEq, Node.stmt.injEq, true_and] at h
    exact hparts h.1 h.2
  · cases h
  · cases h
  · rename_i hs ht
    rw [habsent hs, habsent ht]

theorem Slot.length_outlines (list : List Slot) : (Slot.outlines list).length = list.length := by
  induction list with
  | nil => rfl
  | cons s rest ih => simp [Slot.outlines, ih]

mutual

theorem Slot.outline_inj (s t : Slot) (h : s.outline = t.outline) : s = t := by
  cases s with
  | absent => cases t <;> simp_all [Slot.outline]
  | vacant => cases t <;> simp_all [Slot.outline]
  | holds x =>
    cases t with
    | absent => simp [Slot.outline] at h
    | vacant => simp [Slot.outline] at h
    | holds y =>
      simp only [Slot.outline, Outline.node.injEq, Node.expr.injEq, true_and] at h
      rw [Expr.parts_inj x y h.1 h.2]
termination_by structural s

theorem Slot.outlines_inj (xs ys : List Slot) (h : Slot.outlines xs = Slot.outlines ys) :
    xs = ys := by
  cases xs with
  | nil => cases ys <;> simp_all [Slot.outlines]
  | cons x xs =>
    cases ys with
    | nil => simp [Slot.outlines] at h
    | cons y ys =>
      obtain ⟨hx, hxs⟩ := List.cons.inj h
      rw [Slot.outline_inj x y hx, Slot.outlines_inj xs ys hxs]
termination_by structural xs

theorem Expr.parts_inj (x y : Expr) (hhusk : x.husk = y.husk) (hparts : x.parts = y.parts) :
    x = y := by
  cases x with
  | ident id => cases y <;> first | exact hhusk | cases hhusk
  | literal lit => cases y <;> first | exact hhusk | cases hhusk
  | this s => cases y <;> first | exact hhusk | cases hhusk
  | array s list =>
    cases y <;> cases hhusk
    rw [Slot.outlines_inj list _ hparts]
  | arrayPattern s list =>
    cases y <;> cases hhusk
    rw [Slot.outlines_inj list _ hparts]
  | object s list =>
    cases y <;> cases hhusk
    rw [Property.outlines_inj list _ hparts]
  | objectPattern s list =>
    cases y <;> cases hhusk
    rw [Property.outlines_inj list _ hparts]
  | function s fn =>
    cases y with
    | function t gn =>
      simp only [Expr.husk, Expr.function.injEq] at hhusk
      rw [hhusk.1, Function.parts_inj fn gn hhusk.2 hparts]
    | _ => cases hhusk
  | sequence s list =>
    cases y <;> cases hhusk
    rw [Slot.outlines_inj list _ hparts]
  | unary s operator a =>
    cases y <;> cases hhusk
    simp only [Expr.parts, List.cons.injEq, and_true] at hparts
    rw [Slot.outline_inj a _ hparts]
  | update s operator before a =>
    cases y <;> cases hhusk
    simp only [Expr.parts, List.cons.injEq, and_true] at hparts
    rw [Slot.outline_inj a _ hparts]
  | binary s operator a b =>
    cases y <;> cases hhusk
    simp only [Expr.parts, List.cons.injEq, and_true] at hparts
    rw [Slot.outline_inj a _ hparts.1, Slot.outline_inj b _ hparts.2]
  | logical s operator a b =>
    cases y <;> cases hhusk
    simp only [Expr.parts, List.cons.injEq, and_true] at hparts
    rw [Slot.outline_inj a _ hparts.1, Slot.outline_inj b _ hparts.2]
  | assign s operator a b =>
    cases y <;> cases hhusk
    simp only [Expr.parts, List.cons.injEq, and_true] at hparts
    rw [Slot.outline_inj a _ hparts.1, Slot.outline_inj b _ hparts.2]
  | conditional s a b c =>
    cases y <;> cases hhusk
    simp only [Expr.parts, List.cons.injEq, and_true] at hparts
    rw [Slot.outline_inj a _ hparts.1, Slot.outline_inj b _ hparts.2.1,
      Slot.outline_inj c _ hparts.2.2]
  | construct s a list =>
    cases y <;> cases hhusk
    obtain ⟨ha, hlist⟩ := List.cons.inj hparts
    rw [Slot.outline_inj a _ ha, Slot.outlines_inj list _ hlist]
  | call s a list =>
    cases y <;> cases hhusk
    obtain ⟨ha, hlist⟩ := List.cons.inj hparts
    rw [Slot.outline_inj a _ ha, Slot.outlines_inj list _ hlist]
  | member s a b computed =>
    cases y <;> cases hhusk
    simp only [Expr.parts, List.cons.injEq, and_true] at hparts
    rw [Slot.outline_inj a _ hparts.1, Slot.outline_inj b _ hparts.2]
termination_by structural x

theorem Property.outline_inj (p q : Property) (h : p.outline = q.outline) : p = q := by
  cases p with
  | absent => cases q <;> simp_all [Property.outline]
  | entry s kind key value computed shorthand =>
    cases q with
    | absent => simp [Property.outline] at h
    | entry s' kind' key' value' computed' shorthand' =>
      simp only [Property.outline, Property.husk, Outline.node.injEq, Node.property.injEq,
        Property.entry.injEq, true_and, List.cons.injEq] at h
      obtain ⟨⟨rfl, rfl, hvalue, rfl, rfl⟩, hkey, hparts⟩ := h
      rw [Slot.outline_inj key key' hkey]
      cases shorthand with
      | true => rw [if_pos rfl, if_pos rfl] at hvalue; rw [hvalue]
      | false =>
        simp only [Bool.false_eq_true, if_false, List.cons.injEq, and_true] at hparts
        rw [Slot.outline_inj value value' hparts]
termination_by structural p

theorem Property.outlines_inj (xs ys : List Property)
    (h : Property.outlines xs = Property.outlines ys) : xs = ys := by
  cases xs with
  | nil => cases ys <;> simp_all [Property.outlines]
  | cons x xs =>
    cases ys with
    | nil => simp [Property.outlines] at h
    | cons y ys =>
      obtain ⟨hx, hxs⟩ := List.cons.inj h
      rw [Property.outline_inj x y hx, Property.outlines_inj xs ys hxs]
termination_by structural xs

theorem Function.parts_inj (f g : Function) (hhusk : f.husk = g.husk) (hparts : f.parts = g.parts) :
    f = g := by
  cases f with
  | mk id params defaults rest body generator =>
    cases g with
    | mk id' params' defaults' rest' body' generator' =>
      simp only [Function.husk, Function.mk.injEq, true_and] at hhusk
      have hlength : (Slot.outlines params).length = (Slot.outlines params').length := by
        rw [Slot.length_outlines, Slot.length_outlines]
        simpa using congrArg List.length hhusk.1
      obtain ⟨hid, htail⟩ := List.cons.inj hparts
      obtain ⟨hparams, htail⟩ := List.append_inj htail hlength
      obtain ⟨hdefaults, hlast⟩ := List.append_inj' htail rfl
      simp only [List.cons.injEq, and_true] at hlast
      rw [Ident.outline_inj hid, Slot.outlines_inj params params' hparams,
        Slot.outlines_inj defaults defaults' hdefaults, Ident.outline_inj hlast.1,
        Block.outline_inj body body' hlast.2, hhusk.2]
termination_by structural f

theorem Block.outline_inj (a b : Block) (h : a.outline = b.outline) : a = b := by
  cases a with
  | absent => cases b <;> simp_all [Block.outline]
  | braces s body =>
    cases b with
    | absent => simp [Block.outline] at h
    | braces t other =>
      simp only [Block.outline, Outline.node.injEq, Node.stmt.injEq, Stmt.block.injEq, and_true,
        true_and] at h
      rw [h.1, Stmt.outlines_inj body other h.2]
termination_by structural a

theorem Stmt.parts_inj (x y : Stmt) (hhusk : x.husk = y.husk) (hparts : x.parts = y.parts) :
    x = y := by
  cases x with
  | absent => cases y <;> first | rfl | cases hhusk
  | empty s => cases y <;> first | exact hhusk | cases hhusk
  | debugger s => cases y <;> first | exact hhusk | cases hhusk
  | breakTo s label =>
    cases y <;> cases hhusk
    simp only [Stmt.parts, List.cons.injEq, and_true] at hparts
    rw [Ident.outline_inj hparts]
  | continueTo s label =>
    cases y <;> cases hhusk
    simp only [Stmt.parts, List.cons.injEq, and_true] at hparts
    rw [Ident.outline_inj hparts]
  | block s body =>
    cases y <;> cases hhusk
    rw [Stmt.outlines_inj body _ hparts]
  | expression s a =>
    cases y <;> cases hhusk
    simp only [Stmt.parts, List.cons.injEq, and_true] at hparts
    rw [Slot.outline_inj a _ hparts]
  | conditional s a b c =>
    cases y <;> cases hhusk
    simp only [Stmt.parts, List.cons.injEq, and_true] at hparts
    rw [Slot.outline_inj a _ hparts.1, Stmt.eq_of_enclose (Stmt.parts_inj b _) hparts.2.1,
      Stmt.eq_of_enclose (Stmt.parts_inj c _) hparts.2.2]
  | labeled s label a =>
    cases y <;> cases hhusk
    simp only [Stmt.parts, List.cons.injEq, and_true] at hparts
    rw [Ident.outline_inj hparts.1, Stmt.eq_of_enclose (Stmt.parts_inj a _) hparts.2]
  | withObject s a b =>
    cases y <;> cases hhusk
    simp only [Stmt.parts, List.cons.injEq, and_true] at hparts
    rw [Slot.outline_inj a _ hparts.1, Stmt.eq_of_enclose (Stmt.parts_inj b _) hparts.2]
  | switchOn s a list =>
    cases y <;> cases hhusk
    obtain ⟨ha, hlist⟩ := List.cons.inj hparts
    rw [Slot.outline_inj a _ ha, Case.outlines_inj list _ hlist]
  | returnValue s a =>
    cases y <;> cases hhusk
    simp only [Stmt.parts, List.cons.injEq, and_true] at hparts
    rw [Slot.outline_inj a _ hparts]
  | throwValue s a =>
    cases y <;> cases hhusk
    simp only [Stmt.parts, List.cons.injEq, and_true] at hparts
    rw [Slot.outline_inj a _ hparts]
  | tryCatch s a b c =>
    cases y <;> cases hhusk
    simp only [Stmt.parts, List.cons.injEq, and_true] at hparts
    rw [Block.outline_inj a _ hparts.1, Handler.outline_inj b _ hparts.2.1,
      Block.outline_inj c _ hparts.2.2]
  | whileLoop s a b =>
    cases y <;> cases hhusk
    simp only [Stmt.parts, List.cons.injEq, and_true] at hparts
    rw [Slot.outline_inj a _ hparts.1, Stmt.eq_of_enclose (Stmt.parts_inj b _) hparts.2]
  | doWhile s a b =>
    cases y <;> cases hhusk
    simp only [Stmt.parts, List.cons.injEq, and_true] at hparts
    rw [Stmt.eq_of_enclose (Stmt.parts_inj a _) hparts.1, Slot.outline_inj b _ hparts.2]
  | forLoop s head a b c =>
    cases y with
    | forLoop t other =>
      simp only [Stmt.husk, Stmt.forLoop.injEq, and_true] at hhusk
      simp only [Stmt.parts, List.cons.injEq, and_true] at hparts
      rw [hhusk.1, ForHead.outline_inj head other hhusk.2 hparts.1,
        Slot.outline_inj a _ hparts.2.1, Slot.outline_inj b _ hparts.2.2.1,
        Stmt.eq_of_enclose (Stmt.parts_inj c _) hparts.2.2.2]
    | _ => cases hhusk
  | forIn s head a b =>
    cases y with
    | forIn t other =>
      simp only [Stmt.husk, Stmt.forIn.injEq, and_true] at hhusk
      simp only [Stmt.parts, List.cons.injEq, and_true] at hparts
      rw [hhusk.1, ForHead.outline_inj head other hhusk.2 hparts.1,
        Slot.outline_inj a _ hparts.2.1, Stmt.eq_of_enclose (Stmt.parts_inj b _) hparts.2.2]
    | _ => cases hhusk
  | function s fn =>
    cases y with
    | function t gn =>
      simp only [Stmt.husk, Stmt.function.injEq] at hhusk
      rw [hhusk.1, Function.parts_inj fn gn hhusk.2 hparts]
    | _ => cases hhusk
  | declaration s kind list =>
    cases y <;> cases hhusk
    rw [Declarator.outlines_inj list _ hparts]
termination_by structural x

theorem Stmt.outlines_inj (xs ys : List Stmt) (h : Stmt.outlines xs = Stmt.outlines ys) :
    xs = ys := by
  cases xs with
  | nil => cases ys <;> simp_all [Stmt.outlines]
  | cons x xs =>
    cases ys with
    | nil => simp [Stmt.outlines] at h
    | cons y ys =>
      obtain ⟨hx, hxs⟩ := List.cons.inj h
      rw [Stmt.eq_of_enclose (Stmt.parts_inj x y) hx, Stmt.outlines_inj xs ys hxs]
termination_by structural xs

theorem Case.outline_inj (c d : Case) (h : c.outline = d.outline) : c = d := by
  cases c with
  | clause s test body =>
    cases d with
    | clause t other more =>
      simp only [Case.outline, Outline.node.injEq, Node.case.injEq, Case.clause.injEq, and_true,
        true_and, List.cons.injEq] at h
      rw [h.1, Slot.outline_inj test other h.2.1, Stmt.outlines_inj body more h.2.2]
termination_by structural c

theorem Case.outlines_inj (xs ys : List Case) (h : Case.outlines xs = Case.outlines ys) :
    xs = ys := by
  cases xs with
  | nil => cases ys <;> simp_all [Case.outlines]
  | cons x xs =>
    cases ys with
    | nil => simp [Case.outlines] at h
    | cons y ys =>
      obtain ⟨hx, hxs⟩ := List.cons.inj h
      rw [Case.outline_inj x y hx, Case.outlines_inj xs ys hxs]
termination_by structural xs

theorem Handler.outline_inj (a b : Handler) (h : a.outline = b.outline) : a = b := by
  cases a with
  | absent => cases b <;> simp_all [Handler.outline]
  | clause s param body =>
    cases b with
    | absent => simp [Handler.outline] at h
    | clause t other more =>
      simp only [Handler.outline, Outline.node.injEq, Node.handler.injEq, Handler.clause.injEq,
        and_true, true_and, List.cons.injEq] at h
      rw [h.1, Slot.outline_inj param other h.2.1, Block.outline_inj body more h.2.2]
termination_by structural a

theorem Declarator.outline_inj (c d : Declarator) (h : c.outline = d.outline) : c = d := by
  cases c with
  | bind s id init =>
    cases d with
    | bind t other more =>
      simp only [Declarator.outline, Outline.node.injEq, Node.declarator.injEq,
        Declarator.bind.injEq, and_true, true_and, List.cons.injEq] at h
      rw [h.1, Slot.outline_inj id other h.2.1, Slot.outline_inj init more h.2.2]
termination_by structural c

theorem Declarator.outlines_inj (xs ys : List Declarator)
    (h : Declarator.outlines xs = Declarator.outlines ys) : xs = ys := by
  cases xs with
  | nil => cases ys <;> simp_all [Declarator.outlines]
  | cons x xs =>
    cases ys with
    | nil => simp [Declarator.outlines] at h
    | cons y ys =>
      obtain ⟨hx, hxs⟩ := List.cons.inj h
      rw [Declarator.outline_inj x y hx, Declarator.outlines_inj xs ys hxs]
termination_by structural xs

theorem ForHead.outline_inj (a b : ForHead) (hhusk : a.husk = b.husk) (h : a.outline = b.outline) :
    a = b := by
  cases a with
  | absent => cases b <;> simp_all [ForHead.outline, ForHead.husk]
  | declaration s kind list =>
    cases b with
    | declaration t other more =>
      simp only [ForHead.outline, Outline.node.injEq, Node.stmt.injEq, Stmt.declaration.injEq,
        and_true, true_and] at h
      rw [h.1.1, h.1.2, Declarator.outlines_inj list more h.2]
    | absent => simp [ForHead.outline] at h
    | expression y => cases hhusk
  | expression x =>
    cases b with
    | expression y => rw [Slot.outline_inj x y h]
    | _ => cases hhusk
termination_by structural a

end

/-- Programs with the same outline are the same. -/
theorem Program.outline_injective : Function.Injective Program.outline := by
  intro p q h
  simp only [Program.outline, Outline.node.injEq, Node.program.injEq, Program.mk.injEq, and_true,
    true_and] at h
  obtain ⟨span, body⟩ := p
  obtain ⟨other, more⟩ := q
  obtain ⟨rfl, hbody⟩ := h
  rw [Stmt.outlines_inj body more hbody]

/-! ### Changes -/

namespace Outline

/-- How many nodes the part is. -/
def count : Outline → Nat
  | gap _ => 0
  | node _ _ _ => 1

/-- Is it a bare literal as a statement? -/
def isDirective : Outline → Bool
  | node (.stmt (.expression _ _)) _ [node (.expr (.literal _)) _ _] => true
  | _ => false

/-- Is it a block? -/
def isBlock : Outline → Bool
  | node (.stmt (.block _ _)) _ _ => true
  | _ => false

/-- Statements with others after the leading literals. -/
def splice (new body : List Outline) : List Outline :=
  body.takeWhile isDirective ++ new ++ body.dropWhile isDirective

/-- Changes to a tree: the names that go into slots, and the statements that go into the bodies of
the program and of functions. -/
structure Changes where
  name? : Path → Option Ident
  inserted : Path → List Outline

mutual

/-- The part at a place with changes made to it. A block in a function receives statements. -/
def rewrite (c : Changes) (new : List Outline) (place : Path) : Outline → Outline
  | gap vacant => gap vacant
  | node own inSlot parts =>
    match if inSlot then c.name? place else none with
    | some id => node (.expr (.ident id)) true []
    | none => node own inSlot (splice new (rewriteAll c own.opensScope place 0 parts))

/-- The parts of one node from a number on with changes made to them. -/
def rewriteAll (c : Changes) (inFunction : Bool) (parent : Path) (first : Nat) :
    List Outline → List Outline
  | [] => []
  | o :: rest =>
    o.rewrite c (if inFunction && o.isBlock then c.inserted parent else []) (first :: parent) ::
      rewriteAll c inFunction parent (first + o.count) rest

end

theorem count_rewrite (c : Changes) (new : List Outline) (place : Path) (o : Outline) :
    (o.rewrite c new place).count = o.count := by
  cases o with
  | gap vacant => simp [rewrite]
  | node own inSlot parts =>
    rw [rewrite]
    split <;> rfl

end Outline

end ScriptOptimizer
