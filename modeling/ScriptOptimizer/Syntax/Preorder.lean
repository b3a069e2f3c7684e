import ScriptOptimizer.Syntax.Node

/-!
All nodes below a node, parents before children. A child is smaller than its parent, which makes the
recursion over children well founded.
-/

namespace ScriptOptimizer

namespace Child

theorem mem_slot_lt {c : Child} {s : Slot} (h : c ∈ slot s) : sizeOf c.node < sizeOf s + 1 := by
  cases s with
  | absent => simp [slot] at h
  | vacant => simp [slot] at h
  | holds e =>
    simp only [slot, List.mem_singleton] at h
    subst h
    simp

theorem mem_slots_lt {c : Child} {list : List Slot} (h : c ∈ slots list) :
    sizeOf c.node < sizeOf list := by
  obtain ⟨s, hs, hc⟩ := List.mem_flatMap.1 h
  have := mem_slot_lt hc
  have := List.sizeOf_lt_of_mem hs
  omega

theorem mem_stmt_lt {c : Child} {s : Stmt} (h : c ∈ stmt s) : sizeOf c.node ≤ sizeOf s + 1 := by
  unfold stmt at h
  split at h
  · simp only [List.mem_singleton] at h
    subst h
    simp
    omega
  · simp at h

theorem mem_stmts_lt {c : Child} {list : List Stmt} (h : c ∈ stmts list) :
    sizeOf c.node ≤ sizeOf list := by
  obtain ⟨s, hs, hc⟩ := List.mem_flatMap.1 h
  have := mem_stmt_lt hc
  have := List.sizeOf_lt_of_mem hs
  omega

theorem mem_ident_lt {c : Child} {id : Option Ident} (h : c ∈ ident id) :
    sizeOf c.node ≤ sizeOf id + 1 := by
  cases id with
  | none => simp [ident] at h
  | some id =>
    simp only [ident, List.mem_singleton] at h
    subst h
    simp
    omega

theorem mem_block_lt {c : Child} {b : Block} (h : c ∈ block b) : sizeOf c.node ≤ sizeOf b + 1 := by
  cases b with
  | absent => simp [block, Block.stmt, stmt, Stmt.isPresent] at h
  | braces span body =>
    have := mem_stmt_lt (s := .block span body) h
    simpa using this

theorem mem_properties_lt {c : Child} {list : List Property} (h : c ∈ properties list) :
    sizeOf c.node ≤ sizeOf list := by
  obtain ⟨p, hp, hc⟩ := List.mem_flatMap.1 h
  have hlt := List.sizeOf_lt_of_mem hp
  cases p with
  | absent => simp at hc
  | entry span kind key value computed shorthand =>
    simp only [List.mem_singleton] at hc
    subst hc
    simp only [Node.property.sizeOf_spec]
    omega

theorem mem_declarators_lt {c : Child} {list : List Declarator} (h : c ∈ declarators list) :
    sizeOf c.node ≤ sizeOf list := by
  obtain ⟨d, hd, rfl⟩ := List.mem_map.1 h
  have := List.sizeOf_lt_of_mem hd
  simp
  omega

theorem mem_forHead_lt {c : Child} {head : ForHead} (h : c ∈ forHead head) :
    sizeOf c.node ≤ sizeOf head + 1 := by
  cases head with
  | absent => simp [forHead] at h
  | declaration span kind list =>
    simp only [forHead, List.mem_singleton] at h
    subst h
    simp
    omega
  | expression s =>
    have := mem_slot_lt (s := s) h
    simp
    omega

theorem mem_function_lt {c : Child} {fn : Function} (h : c ∈ function fn) :
    sizeOf c.node ≤ sizeOf fn := by
  obtain ⟨id, params, defaults, rest, body, generator⟩ := fn
  simp only [function, List.mem_append] at h
  simp only [Function.mk.sizeOf_spec]
  rcases h with (((h | h) | h) | h) | h
  · have := mem_ident_lt h; omega
  · have := mem_slots_lt h; omega
  · have := mem_slots_lt h; omega
  · have := mem_ident_lt h; omega
  · have := mem_block_lt h; omega

theorem mem_ofExpr_lt {c : Child} {e : Expr} (h : c ∈ ofExpr e) : sizeOf c.node ≤ sizeOf e := by
  cases e <;> simp only [ofExpr, List.mem_append, List.not_mem_nil, or_assoc] at h <;>
    simp +arith only [Expr.array.sizeOf_spec, Expr.arrayPattern.sizeOf_spec,
      Expr.object.sizeOf_spec, Expr.objectPattern.sizeOf_spec, Expr.function.sizeOf_spec,
      Expr.sequence.sizeOf_spec,
      Expr.unary.sizeOf_spec, Expr.update.sizeOf_spec, Expr.binary.sizeOf_spec,
      Expr.logical.sizeOf_spec, Expr.assign.sizeOf_spec, Expr.conditional.sizeOf_spec,
      Expr.construct.sizeOf_spec, Expr.call.sizeOf_spec, Expr.member.sizeOf_spec]
  case array => have := mem_slots_lt h; omega
  case arrayPattern => have := mem_slots_lt h; omega
  case sequence => have := mem_slots_lt h; omega
  case object => have := mem_properties_lt h; omega
  case objectPattern => have := mem_properties_lt h; omega
  case function => have := mem_function_lt h; omega
  case unary => have := mem_slot_lt h; omega
  case update => have := mem_slot_lt h; omega
  case binary =>
    rcases h with h | h
    all_goals have := mem_slot_lt h
    all_goals omega
  case logical =>
    rcases h with h | h
    all_goals have := mem_slot_lt h
    all_goals omega
  case assign =>
    rcases h with h | h
    all_goals have := mem_slot_lt h
    all_goals omega
  case member =>
    rcases h with h | h
    all_goals have := mem_slot_lt h
    all_goals omega
  case conditional =>
    rcases h with h | h | h
    all_goals have := mem_slot_lt h
    all_goals omega
  case construct =>
    rcases h with h | h
    · have := mem_slot_lt h; omega
    · have := mem_slots_lt h; omega
  case call =>
    rcases h with h | h
    · have := mem_slot_lt h; omega
    · have := mem_slots_lt h; omega

theorem mem_ofStmt_lt {c : Child} {s : Stmt} (h : c ∈ ofStmt s) : sizeOf c.node ≤ sizeOf s := by
  cases s <;> simp only [ofStmt, List.mem_append, List.not_mem_nil, or_assoc] at h <;>
    simp +arith only [Stmt.block.sizeOf_spec, Stmt.expression.sizeOf_spec,
      Stmt.conditional.sizeOf_spec, Stmt.labeled.sizeOf_spec, Stmt.breakTo.sizeOf_spec,
      Stmt.continueTo.sizeOf_spec, Stmt.withObject.sizeOf_spec, Stmt.switchOn.sizeOf_spec,
      Stmt.returnValue.sizeOf_spec, Stmt.throwValue.sizeOf_spec, Stmt.tryCatch.sizeOf_spec,
      Stmt.whileLoop.sizeOf_spec, Stmt.doWhile.sizeOf_spec, Stmt.forLoop.sizeOf_spec,
      Stmt.forIn.sizeOf_spec, Stmt.function.sizeOf_spec, Stmt.declaration.sizeOf_spec]
  case block => have := mem_stmts_lt h; omega
  case expression => have := mem_slot_lt h; omega
  case conditional =>
    rcases h with h | h | h
    · have := mem_slot_lt h; omega
    · have := mem_stmt_lt h; omega
    · have := mem_stmt_lt h; omega
  case labeled =>
    rcases h with h | h
    · have := mem_ident_lt h; omega
    · have := mem_stmt_lt h; omega
  case breakTo => have := mem_ident_lt h; omega
  case continueTo => have := mem_ident_lt h; omega
  case withObject =>
    rcases h with h | h
    · have := mem_slot_lt h; omega
    · have := mem_stmt_lt h; omega
  case switchOn =>
    rcases h with h | h
    · have := mem_slot_lt h; omega
    · obtain ⟨clause, hmem, rfl⟩ := List.mem_map.1 h
      have := List.sizeOf_lt_of_mem hmem
      simp only [Node.case.sizeOf_spec]
      omega
  case returnValue => have := mem_slot_lt h; omega
  case throwValue => have := mem_slot_lt h; omega
  case tryCatch span body handler finalizer =>
    rcases h with h | h | h
    · have := mem_block_lt h; omega
    · cases handler with
      | absent => simp at h
      | clause span param body =>
        simp only [List.mem_singleton] at h
        subst h
        simp only [Node.handler.sizeOf_spec]
        omega
    · have := mem_block_lt h; omega
  case whileLoop =>
    rcases h with h | h
    · have := mem_slot_lt h; omega
    · have := mem_stmt_lt h; omega
  case doWhile =>
    rcases h with h | h
    · have := mem_stmt_lt h; omega
    · have := mem_slot_lt h; omega
  case forLoop =>
    rcases h with h | h | h | h
    · have := mem_forHead_lt h; omega
    · have := mem_slot_lt h; omega
    · have := mem_slot_lt h; omega
    · have := mem_stmt_lt h; omega
  case forIn =>
    rcases h with h | h | h
    · have := mem_forHead_lt h; omega
    · have := mem_slot_lt h; omega
    · have := mem_stmt_lt h; omega
  case function => have := mem_function_lt h; omega
  case declaration => have := mem_declarators_lt h; omega

end Child

/-- A child is smaller than its parent. -/
theorem Node.sizeOf_child_lt {c : Child} {n : Node} (h : c ∈ n.children) :
    sizeOf c.node < sizeOf n := by
  cases n with
  | program p =>
    obtain ⟨span, body⟩ := p
    have := Child.mem_stmts_lt h
    simp only [Node.program.sizeOf_spec, Program.mk.sizeOf_spec] at *
    omega
  | stmt s => have := Child.mem_ofStmt_lt h; simp only [Node.stmt.sizeOf_spec]; omega
  | expr e => have := Child.mem_ofExpr_lt h; simp only [Node.expr.sizeOf_spec]; omega
  | property p =>
    cases p with
    | absent => simp [Node.children] at h
    | entry span kind key value computed shorthand =>
      simp only [Node.children, List.mem_append] at h
      simp only [Node.property.sizeOf_spec, Property.entry.sizeOf_spec]
      rcases h with h | h
      · have := Child.mem_slot_lt h; omega
      · split at h
        · simp at h
        · have := Child.mem_slot_lt h; omega
  | case c =>
    obtain ⟨span, test, consequent⟩ := c
    simp only [Node.children, List.mem_append] at h
    simp only [Node.case.sizeOf_spec, Case.clause.sizeOf_spec]
    rcases h with h | h
    · have := Child.mem_slot_lt h; omega
    · have := Child.mem_stmts_lt h; omega
  | handler handler =>
    cases handler with
    | absent => simp [Node.children] at h
    | clause span param body =>
      simp only [Node.children, List.mem_append] at h
      simp only [Node.handler.sizeOf_spec, Handler.clause.sizeOf_spec]
      rcases h with h | h
      · have := Child.mem_slot_lt h; omega
      · have := Child.mem_block_lt h; omega
  | declarator d =>
    obtain ⟨span, id, init⟩ := d
    simp only [Node.children, List.mem_append] at h
    simp only [Node.declarator.sizeOf_spec, Declarator.bind.sizeOf_spec]
    rcases h with h | h <;> exact Nat.lt_of_lt_of_le (Child.mem_slot_lt h) (by omega)

/-- A node met on the way down a tree: how deep it lies and whether it sits in a slot. -/
structure Visit where
  depth : Nat
  node : Node
  inSlot : Bool

/-- The node at a depth and all nodes below it, parents before children, children in order. -/
def Node.visits (depth : Nat) (inSlot : Bool) (n : Node) : List Visit :=
  ⟨depth, n, inSlot⟩ :: n.children.attach.flatMap fun ⟨c, h⟩ =>
    have := Node.sizeOf_child_lt h
    Node.visits (depth + 1) c.inSlot c.node
termination_by sizeOf n

/-- All nodes of a tree, parents before children. -/
def Node.preorder (n : Node) : List Node := (n.visits 0 false).map (·.node)

end ScriptOptimizer
