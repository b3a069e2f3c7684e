import ScriptOptimizer.Proofs.Walk.Schedule
import ScriptOptimizer.Syntax.Document

/-!
Nodes in documents. The document of a program has the object of every node of the tree in it, with
the type and the range of the node.
-/

namespace ScriptOptimizer

/-- The document is the other one or a part of it. -/
inductive Json.Within (j : Json) : Json → Prop
  | self : Within j j
  | item {k : Json} {items : List Json} : k ∈ items → Within j k → Within j (.array items)
  | field {name : Bytes} {k : Json} {fields : List (Bytes × Json)} : (name, k) ∈ fields →
      Within j k → Within j (.object fields)

theorem Json.within_array {j : Json} {items : List Json} (h : j ∈ items) :
    j.Within (.array items) :=
  .item h .self

theorem Json.Within.trans {i j k : Json} (h : i.Within j) (h' : j.Within k) : i.Within k := by
  induction h' with
  | self => exact h
  | item hItem _ ih => exact .item hItem ih
  | field hField _ ih => exact .field hField ih

/-- The document of a node. -/
def Node.document (locations : Bool) : Node → Json
  | program p => p.document locations
  | stmt s => Document.stmt locations s
  | expr e => Document.expr locations e
  | property p => Document.property locations p
  | case c => Document.case locations c
  | handler h => Document.handler locations h
  | declarator d => Document.declarator locations d

open Json (Within within_array)

variable {locations : Bool}

namespace Document

/-- Every node with a place is an object with its type and its range. -/
theorem node_object {n : Node} (h : n.span ≠ Span.none) : ∃ fields,
    n.document locations = object locations n.type n.span fields := by
  cases n with
  | program p => exact ⟨_, rfl⟩
  | stmt s =>
    cases s with
    | absent => exact absurd rfl h
    | _ => exact ⟨_, by rw [Node.document, stmt]; rfl⟩
  | expr e => cases e <;> exact ⟨_, by rw [Node.document, expr]; rfl⟩
  | property p =>
    cases p with
    | absent => exact absurd rfl h
    | entry => exact ⟨_, by rw [Node.document, property]; rfl⟩
  | case c =>
    cases c
    exact ⟨_, by rw [Node.document, case]; rfl⟩
  | handler g =>
    cases g with
    | absent => exact absurd rfl h
    | clause => exact ⟨_, by rw [Node.document, handler]; rfl⟩
  | declarator d =>
    cases d
    exact ⟨_, by rw [Node.document, declarator]; rfl⟩

section

variable {α β : Type} {f : List α → List β} {g : α → β}

/-- What goes through a list from its front maps it. -/
theorem eq_map (hNil : f [] = []) (hCons : ∀ a list, f (a :: list) = g a :: f list)
    (list : List α) : f list = list.map g := by
  induction list with
  | nil => exact hNil
  | cons a list ih => rw [hCons, ih, List.map_cons]

end

theorem slots_eq : ∀ list, slots locations list = list.map (slot locations) :=
  eq_map (by rw [slots]) fun _ _ => by rw [slots]

theorem properties_eq : ∀ list, properties locations list = list.map (property locations) :=
  eq_map (by rw [properties]) fun _ _ => by rw [properties]

theorem stmts_eq : ∀ list, stmts locations list = list.map (stmt locations) :=
  eq_map (by rw [stmts]) fun _ _ => by rw [stmts]

theorem cases_eq : ∀ list, cases locations list = list.map (case locations) :=
  eq_map (by rw [cases]) fun _ _ => by rw [cases]

theorem declarators_eq : ∀ list, declarators locations list = list.map (declarator locations) :=
  eq_map (by rw [declarators]) fun _ _ => by rw [declarators]

/-- What is in the value of a field is in the object. -/
theorem within_object {type : NodeType} {s : Span} {fields : List (Bytes × Json)} {j : Json}
    (h : ∃ field ∈ fields, j.Within field.2) : j.Within (object locations type s fields) := by
  obtain ⟨field, hField, hWithin⟩ := h
  exact .field (List.mem_cons_of_mem _ (List.mem_append_left _ hField)) hWithin

end Document

/-! ### Children -/

namespace Child

variable {c : Child}

theorem slot_document {s : Slot} (h : c ∈ slot s) :
    c.node.document locations = Document.slot locations s := by
  cases s with
  | holds e =>
    rw [List.mem_singleton.1 h, Document.slot]
    rfl
  | _ => cases h

theorem slots_document {list : List Slot} (h : c ∈ slots list) :
    c.node.document locations ∈ Document.slots locations list := by
  obtain ⟨s, hs, hc⟩ := List.mem_flatMap.1 h
  rw [Document.slots_eq, slot_document hc]
  exact List.mem_map_of_mem hs

theorem stmt_document {s : Stmt} (h : c ∈ stmt s) :
    c.node.document locations = Document.stmt locations s := by
  unfold stmt at h
  split at h
  · rw [List.mem_singleton.1 h]
    rfl
  · cases h

theorem stmts_document {list : List Stmt} (h : c ∈ stmts list) :
    c.node.document locations ∈ Document.stmts locations list := by
  obtain ⟨s, hs, hc⟩ := List.mem_flatMap.1 h
  rw [Document.stmts_eq, stmt_document hc]
  exact List.mem_map_of_mem hs

theorem ident_document {id : Option Ident} (h : c ∈ ident id) :
    c.node.document locations = Document.ident locations id := by
  cases id with
  | none => cases h
  | some id =>
    rw [List.mem_singleton.1 h, Node.document, Document.expr]
    rfl

theorem block_document {b : Block} (h : c ∈ block b) :
    c.node.document locations = Document.block locations b := by
  cases b with
  | absent => cases h
  | braces span body =>
    rw [stmt_document h, Block.stmt, Document.stmt, Document.block]

theorem properties_document {list : List Property} (h : c ∈ properties list) :
    c.node.document locations ∈ Document.properties locations list := by
  obtain ⟨p, hp, hc⟩ := List.mem_flatMap.1 h
  rw [Document.properties_eq]
  cases p with
  | absent => cases hc
  | entry =>
    rw [List.mem_singleton.1 hc]
    exact List.mem_map_of_mem hp

theorem declarators_document {list : List Declarator} (h : c ∈ declarators list) :
    c.node.document locations ∈ Document.declarators locations list := by
  obtain ⟨d, hd, rfl⟩ := List.mem_map.1 h
  rw [Document.declarators_eq]
  exact List.mem_map_of_mem hd

theorem forHead_document {head : ForHead} (h : c ∈ forHead head) :
    c.node.document locations = Document.forHead locations head := by
  cases head with
  | absent => cases h
  | declaration span kind list =>
    rw [List.mem_singleton.1 h, Node.document, Document.stmt, Document.forHead]
  | expression s => rw [slot_document h, Document.forHead]

theorem cases_document {list : List Case}
    (h : c ∈ list.map fun clause => ⟨.case clause, false⟩) :
    c.node.document locations ∈ Document.cases locations list := by
  obtain ⟨clause, hClause, rfl⟩ := List.mem_map.1 h
  rw [Document.cases_eq]
  exact List.mem_map_of_mem hClause

theorem function_within {fn : Function} (h : c ∈ function fn) :
    ∃ field ∈ Document.function locations fn, Within (c.node.document locations) field.2 := by
  cases fn with
  | mk id params defaults rest body generator =>
    rw [Document.function]
    simp only [function, List.mem_append] at h
    simp only [List.mem_cons, List.not_mem_nil, or_false, exists_eq_or_imp, exists_eq_left]
    rcases h with (((h | h) | h) | h) | h
    · exact .inl (ident_document h ▸ .self)
    · exact .inr (.inl (within_array (slots_document h)))
    · exact .inr (.inr (.inl (within_array (slots_document h))))
    · exact .inr (.inr (.inr (.inl (ident_document h ▸ .self))))
    · exact .inr (.inr (.inr (.inr (.inl (block_document h ▸ .self)))))

/-- The document of an expression has those of its children in it. -/
theorem ofExpr_within {e : Expr} (h : c ∈ ofExpr e) :
    Within (c.node.document locations) (Document.expr locations e) := by
  cases e with
  | ident | literal | this => cases h
  | function s fn =>
    rw [Document.expr]
    exact Document.within_object (function_within h)
  | _ =>
    rw [Document.expr]
    refine Document.within_object ?_
    simp only [ofExpr, List.mem_append] at h
    simp only [List.mem_cons, List.not_mem_nil, or_false, exists_eq_or_imp, exists_eq_left]
    grind [slot_document, slots_document, properties_document, Within.self, within_array]

/-- The document of a statement has those of its children in it. -/
theorem ofStmt_within {s : Stmt} (h : c ∈ ofStmt s) :
    Within (c.node.document locations) (Document.stmt locations s) := by
  cases s with
  | absent | empty | debugger => cases h
  | function s fn =>
    rw [Document.stmt]
    exact Document.within_object (function_within h)
  | tryCatch s main guard finalizer =>
    rw [Document.stmt]
    refine Document.within_object ?_
    simp only [ofStmt, List.mem_append] at h
    simp only [List.mem_cons, List.not_mem_nil, or_false, exists_eq_or_imp, exists_eq_left]
    rcases h with (h | h) | h
    · exact .inl (block_document h ▸ .self)
    · cases guard with
      | absent => cases h
      | clause => exact .inr (.inl (List.mem_singleton.1 h ▸ .self))
    · exact .inr (.inr (block_document h ▸ .self))
  | _ =>
    rw [Document.stmt]
    refine Document.within_object ?_
    simp only [ofStmt, List.mem_append] at h
    simp only [List.mem_cons, List.not_mem_nil, or_false, exists_eq_or_imp, exists_eq_left]
    grind [slot_document, stmt_document, stmts_document, ident_document, block_document,
      forHead_document, cases_document, declarators_document, Within.self, within_array]

/-- A child in one of two parts is in the first two fields, if these hold the parts. -/
theorem parts_within {type : NodeType} {span : Span} {a b : Bytes} {j k : Json}
    {fields : List (Bytes × Json)} {front back : List Child} (h : c ∈ front ++ back)
    (hFront : c ∈ front → Within (c.node.document locations) j)
    (hBack : c ∈ back → Within (c.node.document locations) k) :
    Within (c.node.document locations)
      (Document.object locations type span ((a, j) :: (b, k) :: fields)) := by
  refine Document.within_object ?_
  rcases List.mem_append.1 h with h | h
  · exact ⟨_, List.mem_cons_self, hFront h⟩
  · exact ⟨_, List.mem_cons_of_mem _ List.mem_cons_self, hBack h⟩

end Child

namespace Node

/-- The document of a node has those of its children in it. -/
theorem child_within {n : Node} {c : Child} (h : c ∈ n.children) :
    Within (c.node.document locations) (n.document locations) := by
  cases n with
  | program p =>
    exact Document.within_object
      ⟨("body", _), List.mem_cons_self, within_array (Child.stmts_document h)⟩
  | stmt s => exact Child.ofStmt_within h
  | expr e => exact Child.ofExpr_within h
  | property p =>
    cases p with
    | absent => cases h
    | entry s kind key value computed shorthand =>
      rw [document, Document.property]
      refine Child.parts_within h (fun h => Child.slot_document h ▸ .self) fun h => ?_
      split at h
      · cases h
      · exact Child.slot_document h ▸ .self
  | case c =>
    cases c with
    | clause s test consequent =>
      rw [document, Document.case]
      exact Child.parts_within h (fun h => Child.slot_document h ▸ .self) fun h =>
        within_array (Child.stmts_document h)
  | handler g =>
    cases g with
    | absent => cases h
    | clause s param body =>
      rw [document, Document.handler]
      exact Child.parts_within h (fun h => Child.slot_document h ▸ .self) fun h =>
        Child.block_document h ▸ .self
  | declarator d =>
    cases d with
    | bind s id init =>
      rw [document, Document.declarator]
      exact Child.parts_within h (fun h => Child.slot_document h ▸ .self) fun h =>
        Child.slot_document h ▸ .self

/-- The document of a tree has those of all its nodes in it. -/
theorem preorder_within (n : Node) :
    ∀ m ∈ n.preorder, Within (m.document locations) (n.document locations) := by
  induction n using childInduction with
  | step n ih =>
    intro m hm
    rw [preorder_eq] at hm
    rcases List.mem_cons.1 hm with rfl | hm
    · exact .self
    · obtain ⟨c, hc, hm⟩ := List.mem_flatMap.1 hm
      exact (ih c hc m hm).trans (child_within hc)

end Node

end ScriptOptimizer
