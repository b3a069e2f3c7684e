import ScriptOptimizer.Proofs.Syntax.Bare
import ScriptOptimizer.Proofs.Walk.Schedule

/-!
Walks of trees without their places: they go through the same nodes in the same order.
-/

namespace ScriptOptimizer

/-- The node without places. -/
def Node.bare : Node → Node
  | .program p => .program p.bare
  | .stmt s => .stmt s.bare
  | .expr e => .expr e.bare
  | .property p => .property p.bare
  | .case c => .case c.bare
  | .handler h => .handler h.bare
  | .declarator d => .declarator d.bare

namespace Child

/-- The child without places. -/
def bare (c : Child) : Child := { c with node := c.node.bare }

@[simp] theorem slot_bare (s : Slot) : slot s.bare = (slot s).map bare := by
  cases s <;> simp [Slot.bare, slot, bare, Node.bare]

@[simp] theorem slots_bare (list : List Slot) :
    slots (Slot.bares list) = (slots list).map bare := by
  simp [slots, Slot.bares_eq_map, List.flatMap_map, List.map_flatMap]

@[simp] theorem stmt_bare (s : Stmt) : stmt s.bare = (stmt s).map bare := by
  cases s <;> simp [Stmt.bare, stmt, Stmt.isPresent, bare, Node.bare]

@[simp] theorem stmts_bare (list : List Stmt) :
    stmts (Stmt.bares list) = (stmts list).map bare := by
  simp [stmts, Stmt.bares_eq_map, List.flatMap_map, List.map_flatMap]

@[simp] theorem ident_bare (id : Option Ident) :
    ident (id.map Ident.bare) = (ident id).map bare := by
  cases id <;> simp [ident, bare, Node.bare, Expr.bare]

@[simp] theorem block_bare (b : Block) : block b.bare = (block b).map bare := by
  cases b <;> simp [block, Block.bare, Block.stmt, stmt, Stmt.isPresent, bare, Node.bare, Stmt.bare]

@[simp] theorem properties_bare (list : List Property) :
    properties (Property.bares list) = (properties list).map bare := by
  rw [properties, properties, Property.bares_eq_map, List.flatMap_map, List.map_flatMap]
  refine congrArg (List.flatMap · list) (funext fun p => ?_)
  cases p <;> simp [Property.bare, bare, Node.bare]

@[simp] theorem declarators_bare (list : List Declarator) :
    declarators (Declarator.bares list) = (declarators list).map bare := by
  simp [declarators, Declarator.bares_eq_map, bare, Node.bare]

@[simp] theorem cases_bare (list : List Case) :
    ((Case.bares list).map fun c => (⟨.case c, false⟩ : Child)) =
      (list.map fun c => (⟨.case c, false⟩ : Child)).map bare := by
  simp [Case.bares_eq_map, bare, Node.bare]

@[simp] theorem forHead_bare (head : ForHead) : forHead head.bare = (forHead head).map bare := by
  cases head <;> simp [forHead, ForHead.bare, bare, Node.bare, Stmt.bare]

@[simp] theorem function_bare (fn : Function) : function fn.bare = (function fn).map bare := by
  cases fn
  simp [function, Function.bare]

theorem ofExpr_bare (e : Expr) : ofExpr e.bare = (ofExpr e).map bare := by
  cases e <;> simp [ofExpr, Expr.bare]

theorem ofStmt_bare (s : Stmt) : ofStmt s.bare = (ofStmt s).map bare := by
  cases s with
  | tryCatch span body handler finalizer =>
    cases handler <;> simp [ofStmt, Stmt.bare, Handler.bare, bare, Node.bare]
  | _ => simp [ofStmt, Stmt.bare]

end Child

namespace Node

theorem children_bare (n : Node) : n.bare.children = n.children.map Child.bare := by
  cases n with
  | program p => exact Child.stmts_bare p.body
  | stmt s => exact Child.ofStmt_bare s
  | expr e => exact Child.ofExpr_bare e
  | property p =>
    cases p with
    | absent => rfl
    | entry span kind key value computed shorthand =>
      cases shorthand <;> simp [bare, Property.bare, children]
  | case c =>
    cases c
    simp [bare, Case.bare, children]
  | handler h => cases h <;> simp [bare, Handler.bare, children]
  | declarator d =>
    cases d
    simp [bare, Declarator.bare, children]

theorem preorder_bare (n : Node) : n.bare.preorder = n.preorder.map bare := by
  induction n using childInduction with
  | step n ih =>
    rw [preorder_eq, preorder_eq, children_bare, List.map_cons, List.flatMap_map, List.map_flatMap,
      List.flatMap_def, List.flatMap_def]
    exact congrArg (n.bare :: ·) (congrArg List.flatten (List.map_congr_left ih))

end Node

end ScriptOptimizer
