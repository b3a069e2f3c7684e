import ScriptOptimizer.Proofs.Syntax.Outline
import ScriptOptimizer.Proofs.Walk.Sights

/-!
Outlines and walks. The parts of a node that are no gaps are its children, so the nodes of an
outline have the places at which a walk sees them.
-/

namespace ScriptOptimizer

/-! ### Parts and children -/

namespace Outline

/-- Is it no gap? -/
def isNode : Outline → Bool
  | gap _ => false
  | node _ _ _ => true

end Outline

/-- The outlines of the parts of a node. -/
def Node.outlines : Node → List Outline
  | .program p => Stmt.outlines p.body
  | .stmt s => s.parts
  | .expr x => x.parts
  | .property .absent => []
  | .property (.entry _ _ key value _ shorthand) =>
    key.outline :: if shorthand then [] else [value.outline]
  | .case (.clause _ test consequent) => test.outline :: Stmt.outlines consequent
  | .handler .absent => []
  | .handler (.clause _ param body) => [param.outline, body.outline]
  | .declarator (.bind _ id init) => [id.outline, init.outline]

/-- The outline of a child. -/
def Child.outline (c : Child) : Outline := .node c.node.husk c.inSlot c.node.outlines

namespace Child

/-- The children are the parts that are there. -/
def Among (parts : List Outline) (list : List Child) : Prop :=
  parts.filter Outline.isNode = list.map outline

theorem Among.nil : Among [] [] := rfl

theorem Among.append {xs ys : List Outline} {cs ds : List Child} (h : Among xs cs)
    (h' : Among ys ds) : Among (xs ++ ys) (cs ++ ds) := by
  rw [Among, List.filter_append, List.map_append, h, h']

theorem Among.cons {x : Outline} {ys : List Outline} {cs ds : List Child} (h : Among [x] cs)
    (h' : Among ys ds) : Among (x :: ys) (cs ++ ds) := h.append h'

theorem among_slot (s : Slot) : Among [s.outline] (slot s) := by
  cases s <;> rfl

theorem among_slots (list : List Slot) : Among (Slot.outlines list) (slots list) := by
  induction list with
  | nil => exact .nil
  | cons s rest ih => exact (among_slot s).cons ih

theorem among_ident (id : Option Ident) : Among [Ident.outline id] (ident id) := by
  cases id <;> rfl

theorem among_stmt (s : Stmt) : Among [s.enclose s.parts] (stmt s) := by
  cases s <;> rfl

theorem among_stmts (list : List Stmt) : Among (Stmt.outlines list) (stmts list) := by
  induction list with
  | nil => exact .nil
  | cons s rest ih => exact (among_stmt s).cons ih

theorem among_block (b : Block) : Among [b.outline] (block b) := by
  cases b <;> rfl

theorem among_properties (list : List Property) :
    Among (Property.outlines list) (properties list) := by
  induction list with
  | nil => exact .nil
  | cons p rest ih =>
    have hp : Among [p.outline] (properties [p]) := by cases p <;> rfl
    have h := hp.cons ih
    rwa [properties, properties, ← List.flatMap_append] at h

theorem among_cases (list : List Case) :
    Among (Case.outlines list) (list.map fun c => ⟨.case c, false⟩) := by
  induction list with
  | nil => exact .nil
  | cons c rest ih =>
    have hc : Among [c.outline] [⟨.case c, false⟩] := by cases c; rfl
    exact hc.cons ih

theorem among_declarators (list : List Declarator) :
    Among (Declarator.outlines list) (declarators list) := by
  induction list with
  | nil => exact .nil
  | cons d rest ih =>
    have hd : Among [d.outline] [⟨.declarator d, false⟩] := by cases d; rfl
    exact hd.cons ih

theorem among_forHead (head : ForHead) : Among [head.outline] (forHead head) := by
  cases head with
  | expression s => exact among_slot s
  | _ => rfl

theorem among_handler (h : Handler) : Among [h.outline] (match h with
    | .absent => []
    | h => [⟨.handler h, false⟩]) := by
  cases h <;> rfl

theorem among_function (fn : Function) : Among fn.parts (function fn) := by
  obtain ⟨id, params, defaults, rest, body, generator⟩ := fn
  have h := (among_ident id).cons ((among_slots params).append ((among_slots defaults).append
    ((among_ident rest).cons (among_block body))))
  simpa [function, Function.parts] using h

theorem among_ofExpr (x : Expr) : Among x.parts (ofExpr x) := by
  cases x with
  | ident id => exact .nil
  | literal lit => exact .nil
  | this s => exact .nil
  | array s list => exact among_slots list
  | arrayPattern s list => exact among_slots list
  | object s list => exact among_properties list
  | objectPattern s list => exact among_properties list
  | function s fn => exact among_function fn
  | sequence s list => exact among_slots list
  | unary s op x => exact among_slot x
  | update s op before x => exact among_slot x
  | binary s op x y => exact (among_slot x).cons (among_slot y)
  | logical s op x y => exact (among_slot x).cons (among_slot y)
  | assign s op x y => exact (among_slot x).cons (among_slot y)
  | conditional s x y z =>
    have h := (among_slot x).cons ((among_slot y).cons (among_slot z))
    simpa [ofExpr, Expr.parts] using h
  | construct s x list => exact (among_slot x).cons (among_slots list)
  | call s x list => exact (among_slot x).cons (among_slots list)
  | member s x y computed => exact (among_slot x).cons (among_slot y)

theorem among_ofStmt (s : Stmt) : Among s.parts (ofStmt s) := by
  cases s with
  | absent => exact .nil
  | empty s => exact .nil
  | debugger s => exact .nil
  | block s body => exact among_stmts body
  | expression s x => exact among_slot x
  | conditional s x y z =>
    have h := (among_slot x).cons ((among_stmt y).cons (among_stmt z))
    simpa [ofStmt, Stmt.parts] using h
  | labeled s label body => exact (among_ident label).cons (among_stmt body)
  | breakTo s label => exact among_ident label
  | continueTo s label => exact among_ident label
  | withObject s x body => exact (among_slot x).cons (among_stmt body)
  | switchOn s x list => exact (among_slot x).cons (among_cases list)
  | returnValue s x => exact among_slot x
  | throwValue s x => exact among_slot x
  | tryCatch s body guard finalizer =>
    have h := (among_block body).cons ((among_handler guard).cons (among_block finalizer))
    cases guard <;> simpa [ofStmt, Stmt.parts] using h
  | whileLoop s x body => exact (among_slot x).cons (among_stmt body)
  | doWhile s body x => exact (among_stmt body).cons (among_slot x)
  | forLoop s head x y body =>
    have h := (among_forHead head).cons
      ((among_slot x).cons ((among_slot y).cons (among_stmt body)))
    simpa [ofStmt, Stmt.parts] using h
  | forIn s head x body =>
    have h := (among_forHead head).cons ((among_slot x).cons (among_stmt body))
    simpa [ofStmt, Stmt.parts] using h
  | function s fn => exact among_function fn
  | declaration s kind list => exact among_declarators list

end Child

/-- The children of a node are its parts without the gaps. -/
theorem Node.among_children (n : Node) : Child.Among n.outlines n.children := by
  cases n with
  | program p => exact Child.among_stmts p.body
  | stmt s => exact Child.among_ofStmt s
  | expr x => exact Child.among_ofExpr x
  | property p =>
    cases p with
    | absent => exact .nil
    | entry s kind key value computed shorthand =>
      refine (Child.among_slot key).cons ?_
      split
      · exact .nil
      · exact Child.among_slot value
  | case c =>
    obtain ⟨s, test, consequent⟩ := c
    exact (Child.among_slot test).cons (Child.among_stmts consequent)
  | handler h =>
    cases h with
    | absent => exact .nil
    | clause s param body => exact (Child.among_slot param).cons (Child.among_block body)
  | declarator d =>
    obtain ⟨s, id, init⟩ := d
    exact (Child.among_slot id).cons (Child.among_slot init)

/-! ### The nodes of an outline are the sights of the tree -/

/-- A node of an outline, its place, and whether it has no parts. -/
structure Mark where
  place : Path
  own : Node
  inSlot : Bool
  isLeaf : Bool

namespace Outline

mutual

/-- The nodes of an outline, parents before their parts. -/
def marks (place : Path) : Outline → List Mark
  | gap _ => []
  | node own inSlot parts => ⟨place, own, inSlot, parts.isEmpty⟩ :: marksAll place 0 parts

/-- The nodes of the parts of one node from a number on. -/
def marksAll (parent : Path) (first : Nat) : List Outline → List Mark
  | [] => []
  | o :: rest => o.marks (first :: parent) ++ marksAll parent (first + o.count) rest

end

theorem marksAll_eq (parent : Path) (first : Nat) (parts : List Outline) :
    marksAll parent first parts =
      ((parts.filter isNode).zipIdx first).flatMap fun x => x.1.marks (x.2 :: parent) := by
  induction parts generalizing first with
  | nil => rfl
  | cons o rest ih =>
    cases o with
    | gap vacant =>
      rw [marksAll, ih, List.filter_cons_of_neg (by simp [isNode])]
      rfl
    | node own inSlot parts =>
      rw [marksAll, ih, List.filter_cons_of_pos rfl]
      rfl

end Outline

/-- The sight as a node of the outline. -/
def Sight.mark (v : Sight) : Mark :=
  ⟨v.place, v.node.husk, v.inSlot, v.node.outlines.isEmpty⟩

theorem Node.marks_outline (n : Node) : ∀ place inSlot parent around,
    (Child.outline ⟨n, inSlot⟩).marks place =
      (n.sights place inSlot parent around).map Sight.mark := by
  induction n using childInduction with
  | step n ih =>
    intro place inSlot parent around
    have hchildren : n.outlines.filter Outline.isNode = n.children.map Child.outline :=
      n.among_children
    rw [sights_eq, Child.outline, Outline.marks, Outline.marksAll_eq, hchildren, List.map_cons,
      List.zipIdx_map, List.flatMap_map, List.map_flatMap, List.flatMap_def, List.flatMap_def]
    refine congrArg (_ :: List.flatten ·) (List.map_congr_left fun c hc => ?_)
    exact ih c.1 (List.fst_mem_of_mem_zipIdx hc) _ _ _ _

/-- The nodes of the outline of a program are its sights. -/
theorem Program.marks_outline (p : Program) :
    p.outline.marks [] = p.sights.map Sight.mark :=
  Node.marks_outline (.program p) [] false none []

end ScriptOptimizer
