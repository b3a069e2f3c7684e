import Mathlib.Data.List.Nodup
import ScriptOptimizer.Proofs.Walk.Schedule

/-!
What a walk passes. A sight is a node with its place and the functions around it; the sights of a
tree in pre-order carry all that a description of a walk's outcome refers to, without the state of
the walk.
-/

namespace ScriptOptimizer

/-- A function around a node, and its place. -/
structure Enclosure where
  place : Path
  node : Node

/-- A node, its place, the node above it, and the functions around it, the innermost first. -/
structure Sight where
  node : Node
  place : Path
  inSlot : Bool
  parent : Option Node
  around : List Enclosure

namespace Node

/-- The functions around the children of a node. -/
def within (place : Path) (around : List Enclosure) (n : Node) : List Enclosure :=
  if n.opensScope then ⟨place, n⟩ :: around else around

theorem suffix_within (place : Path) (around : List Enclosure) (n : Node) :
    around <:+ n.within place around := by
  unfold within
  split
  · exact List.suffix_cons _ _
  · exact List.suffix_refl _

/-- A node and everything below it, parents before children, children in order. -/
def sights (place : Path) (inSlot : Bool) (parent : Option Node) (around : List Enclosure)
    (n : Node) : List Sight :=
  ⟨n, place, inSlot, parent, around⟩ ::
    n.children.zipIdx.attach.flatMap fun ⟨(c, i), h⟩ =>
      have := Node.sizeOf_child_lt (List.fst_mem_of_mem_zipIdx h)
      c.node.sights (i :: place) c.inSlot (some n) (n.within place around)
termination_by sizeOf n

variable {place : Path} {inSlot : Bool} {parent : Option Node} {around : List Enclosure}

theorem sights_eq (n : Node) : n.sights place inSlot parent around =
    ⟨n, place, inSlot, parent, around⟩ ::
      n.children.zipIdx.flatMap fun c =>
        c.1.node.sights (c.2 :: place) c.1.inSlot (some n) (n.within place around) := by
  rw [sights, List.flatMap_subtype fun _ _ => rfl, List.unattach_attach]

theorem mem_sights {n : Node} {v : Sight} : v ∈ n.sights place inSlot parent around ↔
    v = ⟨n, place, inSlot, parent, around⟩ ∨ ∃ c ∈ n.children.zipIdx,
      v ∈ c.1.node.sights (c.2 :: place) c.1.inSlot (some n) (n.within place around) := by
  rw [sights_eq, List.mem_cons, List.mem_flatMap]

/-- A sight below a node lies at a longer way from the root. -/
theorem suffix_of_mem_sights (n : Node) : ∀ (place inSlot parent around) (v : Sight),
    v ∈ n.sights place inSlot parent around → place <:+ v.place := by
  induction n using childInduction with
  | step n ih =>
    intro place inSlot parent around v hv
    rcases mem_sights.1 hv with rfl | ⟨c, hc, hv⟩
    · exact List.suffix_refl place
    · have h := ih c.1 (List.fst_mem_of_mem_zipIdx hc) _ _ _ _ v hv
      exact (List.suffix_cons c.2 place).trans h

/-- The functions around what lies below a node are those around the node and others below. -/
theorem around_of_mem_sights (n : Node) : ∀ (place inSlot parent around) (v : Sight),
    v ∈ n.sights place inSlot parent around → ∀ f ∈ v.around, f ∈ around ∨ place <:+ f.place := by
  induction n using childInduction with
  | step n ih =>
    intro place inSlot parent around v hv f hf
    rcases mem_sights.1 hv with rfl | ⟨c, hc, hv⟩
    · exact .inl hf
    · rcases ih c.1 (List.fst_mem_of_mem_zipIdx hc) _ _ _ _ v hv f hf with h | h
      · unfold within at h
        split at h
        · rcases List.mem_cons.1 h with rfl | h
          · exact .inr (List.suffix_refl place)
          · exact .inl h
        · exact .inl h
      · exact .inr ((List.suffix_cons c.2 place).trans h)

/-- No two sights of a tree have the same place. -/
theorem nodup_places (n : Node) : ∀ place inSlot parent around,
    ((n.sights place inSlot parent around).map (·.place)).Nodup := by
  induction n using childInduction with
  | step n ih =>
    intro place inSlot parent around
    rw [sights_eq, List.map_cons, List.map_flatMap, List.nodup_cons, List.nodup_flatMap]
    refine ⟨?_, ?_, ?_⟩
    · rw [List.mem_flatMap]
      rintro ⟨c, -, hplace⟩
      obtain ⟨v, hv, hplace⟩ := List.mem_map.1 hplace
      have := (suffix_of_mem_sights _ _ _ _ _ v hv).length_le
      rw [hplace] at this
      exact Nat.not_succ_le_self _ this
    · intro c hc
      exact ih c.1 (List.fst_mem_of_mem_zipIdx hc) _ _ _ _
    · have hne : n.children.zipIdx.Pairwise fun c d => c.2 ≠ d.2 := by
        rw [← List.pairwise_map (f := Prod.snd), List.zipIdx_map_snd]
        exact List.nodup_range'
      refine hne.imp fun {c d} hne => ?_
      intro q hq hq'
      obtain ⟨v, hv, rfl⟩ := List.mem_map.1 hq
      obtain ⟨w, hw, hplace⟩ := List.mem_map.1 hq'
      have hc := suffix_of_mem_sights _ _ _ _ _ v hv
      have hd := suffix_of_mem_sights _ _ _ _ _ w hw
      rw [hplace] at hd
      have hsame := (List.suffix_of_suffix_length_le hc hd (by simp)).eq_of_length (by simp)
      exact hne (List.cons.inj hsame).1

end Node

/-- The sight of a child. -/
def Sight.child (v : Sight) (c : Child × Nat) : Sight :=
  ⟨c.1.node, c.2 :: v.place, c.1.inSlot, some v.node, v.node.within v.place v.around⟩

namespace Node

/-- The children of what is seen are seen. -/
theorem child_mem_sights (n : Node) : ∀ (place inSlot parent around) (v : Sight),
    v ∈ n.sights place inSlot parent around → ∀ c ∈ v.node.children.zipIdx,
      v.child c ∈ n.sights place inSlot parent around := by
  induction n using childInduction with
  | step n ih =>
    intro place inSlot parent around v hv c hc
    rcases mem_sights.1 hv with rfl | ⟨d, hd, hv⟩
    · refine mem_sights.2 (.inr ⟨c, hc, ?_⟩)
      rw [sights_eq]
      exact List.mem_cons_self ..
    · exact mem_sights.2 (.inr ⟨d, hd, ih d.1 (List.fst_mem_of_mem_zipIdx hd) _ _ _ _ v hv c hc⟩)

/-- What is seen below a node is the child of something seen. -/
theorem eq_child_of_mem_sights (n : Node) : ∀ (place inSlot parent around) (w : Sight),
    w ∈ n.sights place inSlot parent around → w = ⟨n, place, inSlot, parent, around⟩ ∨
      ∃ v ∈ n.sights place inSlot parent around, ∃ c ∈ v.node.children.zipIdx, w = v.child c := by
  induction n using childInduction with
  | step n ih =>
    intro place inSlot parent around w hw
    rcases mem_sights.1 hw with rfl | ⟨d, hd, hw⟩
    · exact .inl rfl
    · rcases ih d.1 (List.fst_mem_of_mem_zipIdx hd) _ _ _ _ w hw with rfl | ⟨v, hv, c, hc, rfl⟩
      · refine .inr ⟨⟨n, place, inSlot, parent, around⟩, ?_, d, hd, rfl⟩
        rw [sights_eq]
        exact List.mem_cons_self ..
      · exact .inr ⟨v, mem_sights.2 (.inr ⟨d, hd, hv⟩), c, hc, rfl⟩

end Node

/-- The sights of a program. -/
def Program.sights (p : Program) : List Sight := (Node.program p).sights [] false none []

/-! ### Children are present and never programs -/

namespace Node

/-- Is the node a whole program? -/
def isProgram : Node → Bool
  | .program _ => true
  | _ => false

/-- Is there a node? -/
def isPresent : Node → Bool
  | .stmt .absent | .property .absent | .handler .absent => false
  | _ => true

end Node

namespace Child

/-- The children are there, and none of them is a whole program. -/
def Parts (list : List Child) : Prop :=
  ∀ c ∈ list, (c.node.isPresent && !c.node.isProgram) = true

theorem Parts.append {xs ys : List Child} (hx : Parts xs) (hy : Parts ys) : Parts (xs ++ ys) :=
  fun c hc => (List.mem_append.1 hc).elim (hx c) (hy c)

theorem Parts.nil : Parts [] := fun _ h => by cases h

theorem Parts.single {c : Child} (h : (c.node.isPresent && !c.node.isProgram) = true) :
    Parts [c] := by
  intro d hd
  rwa [List.mem_singleton.1 hd]

theorem Parts.flatMap {α : Type} {list : List α} {f : α → List Child} (h : ∀ a, Parts (f a)) :
    Parts (list.flatMap f) := by
  intro c hc
  obtain ⟨a, -, hc⟩ := List.mem_flatMap.1 hc
  exact h a c hc

theorem Parts.map {α : Type} {list : List α} {f : α → Child}
    (h : ∀ a, ((f a).node.isPresent && !(f a).node.isProgram) = true) : Parts (list.map f) := by
  intro c hc
  obtain ⟨a, -, rfl⟩ := List.mem_map.1 hc
  exact h a

theorem parts_slot (s : Slot) : Parts (slot s) := by
  cases s with
  | holds e => exact .single rfl
  | absent => exact .nil
  | vacant => exact .nil

theorem parts_slots (list : List Slot) : Parts (slots list) := .flatMap parts_slot

theorem parts_stmt (s : Stmt) : Parts (stmt s) := by
  cases s with
  | absent => exact .nil
  | _ => exact .single rfl

theorem parts_stmts (list : List Stmt) : Parts (stmts list) := .flatMap parts_stmt

theorem parts_ident (id : Option Ident) : Parts (ident id) := by
  cases id with
  | none => exact .nil
  | some id => exact .single rfl

theorem parts_properties (list : List Property) : Parts (properties list) := by
  refine .flatMap fun p => ?_
  cases p with
  | absent => exact .nil
  | entry span kind key value computed shorthand => exact .single rfl

theorem parts_forHead (head : ForHead) : Parts (forHead head) := by
  cases head with
  | absent => exact .nil
  | declaration span kind list => exact .single rfl
  | expression s => exact parts_slot s

theorem parts_function (fn : Function) : Parts (function fn) := by
  obtain ⟨id, params, defaults, rest, body, generator⟩ := fn
  exact ((((parts_ident id).append (parts_slots params)).append (parts_slots defaults)).append
    (parts_ident rest)).append (parts_stmt _)

theorem parts_ofExpr (e : Expr) : Parts (ofExpr e) := by
  cases e with
  | ident id => exact .nil
  | literal lit => exact .nil
  | this s => exact .nil
  | array s list => exact parts_slots list
  | arrayPattern s list => exact parts_slots list
  | object s list => exact parts_properties list
  | objectPattern s list => exact parts_properties list
  | function s fn => exact parts_function fn
  | sequence s list => exact parts_slots list
  | unary s op x => exact parts_slot x
  | update s op before x => exact parts_slot x
  | binary s op x y => exact (parts_slot x).append (parts_slot y)
  | logical s op x y => exact (parts_slot x).append (parts_slot y)
  | assign s op x y => exact (parts_slot x).append (parts_slot y)
  | conditional s x y z => exact ((parts_slot x).append (parts_slot y)).append (parts_slot z)
  | construct s x list => exact (parts_slot x).append (parts_slots list)
  | call s x list => exact (parts_slot x).append (parts_slots list)
  | member s x y computed => exact (parts_slot x).append (parts_slot y)

theorem parts_ofStmt (s : Stmt) : Parts (ofStmt s) := by
  cases s with
  | absent => exact .nil
  | empty s => exact .nil
  | debugger s => exact .nil
  | block s body => exact parts_stmts body
  | expression s x => exact parts_slot x
  | conditional s x y z => exact ((parts_slot x).append (parts_stmt y)).append (parts_stmt z)
  | labeled s label body => exact (parts_ident label).append (parts_stmt body)
  | breakTo s label => exact parts_ident label
  | continueTo s label => exact parts_ident label
  | withObject s x body => exact (parts_slot x).append (parts_stmt body)
  | switchOn s x list => exact (parts_slot x).append (.map fun _ => rfl)
  | returnValue s x => exact parts_slot x
  | throwValue s x => exact parts_slot x
  | tryCatch s body handler finalizer =>
    refine ((parts_stmt _).append ?_).append (parts_stmt _)
    cases handler with
    | absent => exact .nil
    | clause span param body => exact .single rfl
  | whileLoop s x body => exact (parts_slot x).append (parts_stmt body)
  | doWhile s body x => exact (parts_stmt body).append (parts_slot x)
  | forLoop s head x y body =>
    exact (((parts_forHead head).append (parts_slot x)).append (parts_slot y)).append
      (parts_stmt body)
  | forIn s head x body =>
    exact ((parts_forHead head).append (parts_slot x)).append (parts_stmt body)
  | function s fn => exact parts_function fn
  | declaration s kind list => exact .map fun _ => rfl

end Child

namespace Node

theorem parts_children (n : Node) : Child.Parts n.children := by
  cases n with
  | program p => exact Child.parts_stmts p.body
  | stmt s => exact Child.parts_ofStmt s
  | expr e => exact Child.parts_ofExpr e
  | property p =>
    cases p with
    | absent => exact .nil
    | entry s kind key value computed shorthand =>
      refine (Child.parts_slot key).append ?_
      split
      · exact .nil
      · exact Child.parts_slot value
  | case c =>
    obtain ⟨s, test, consequent⟩ := c
    exact (Child.parts_slot test).append (Child.parts_stmts consequent)
  | handler x =>
    cases x with
    | absent => exact .nil
    | clause s param body => exact (Child.parts_slot param).append (Child.parts_stmt _)
  | declarator d =>
    obtain ⟨s, id, init⟩ := d
    exact (Child.parts_slot id).append (Child.parts_slot init)

theorem isPresent_child {n : Node} {c : Child} (h : c ∈ n.children) : c.node.isPresent = true :=
  (Bool.and_eq_true_iff.1 (parts_children n c h)).1

theorem isProgram_child {n : Node} {c : Child} (h : c ∈ n.children) :
    c.node.isProgram = false := by
  simpa using (Bool.and_eq_true_iff.1 (parts_children n c h)).2

/-- Below a node that is no program, no program is announced. -/
theorem isProgram_of_mem_events (n : Node) : ∀ (place inSlot parent) (e : Event),
    n.isProgram = false → e ∈ n.events place inSlot parent → e.node.isProgram = false := by
  induction n using childInduction with
  | step n ih =>
    intro place inSlot parent e hn he
    rw [events_eq, List.mem_append, List.mem_cons, List.mem_flatMap, List.mem_singleton] at he
    rcases he with (rfl | ⟨c, hc, he⟩) | rfl
    · exact hn
    · have hmem := List.fst_mem_of_mem_zipIdx hc
      exact ih c.1 hmem _ _ _ e (isProgram_child hmem) he
    · exact hn

/-- Below a node that is no program, no program is seen. -/
theorem isProgram_of_mem_sights (n : Node) : ∀ (place inSlot parent around) (v : Sight),
    n.isProgram = false → v ∈ n.sights place inSlot parent around → v.node.isProgram = false := by
  induction n using childInduction with
  | step n ih =>
    intro place inSlot parent around v hn hv
    rcases mem_sights.1 hv with rfl | ⟨c, hc, hv⟩
    · exact hn
    · have hmem := List.fst_mem_of_mem_zipIdx hc
      exact ih c.1 hmem _ _ _ _ v (isProgram_child hmem) hv

/-- Before a tree is left, no program in it is. -/
theorem enter_of_mem_dropLast {n : Node} {place : Path} {inSlot : Bool} {parent : Option Node}
    {e : Event} (he : e ∈ (n.events place inSlot parent).dropLast) :
    e.phase = .enter ∨ e.node.isProgram = false := by
  rw [dropLast_events, List.mem_cons, List.mem_flatMap] at he
  rcases he with rfl | ⟨c, hc, he⟩
  · exact .inl rfl
  · exact .inr (isProgram_of_mem_events _ _ _ _ e
      (isProgram_child (List.fst_mem_of_mem_zipIdx hc)) he)

end Node

/-! ### The order of the nodes, told by their places alone -/

/-- A walk enters the node at the first place before the one at the second: it is above it, or they
are at or below children of one node, an earlier and a later one. -/
inductive Path.Before : Path → Path → Prop
  | above {place : Path} (k : Nat) (inner : Path) : Path.Before place (inner ++ k :: place)
  | beside {i j : Nat} {list place other : Path} : i < j → i :: list <:+ place →
      j :: list <:+ other → Path.Before place other

namespace Path.Before

variable {place other : Path}

theorem of_suffix {k : Nat} (h : k :: place <:+ other) : Before place other := by
  obtain ⟨inner, rfl⟩ := h
  exact above k inner

/-- Two children of one node that a place is at or below are the same. -/
theorem child_unique {i j : Nat} {list : Path} (hi : i :: list <:+ place)
    (hj : j :: list <:+ place) : i = j :=
  (List.cons.inj ((List.suffix_of_suffix_length_le hi hj (Nat.le_refl _)).eq_of_length rfl)).1

theorem asymm (h : Before place other) (h' : Before other place) : False := by
  have hAbove {place : Path} {k : Nat} {inner : Path} (h : Before (inner ++ k :: place) place) :
      False := by
    generalize hother : inner ++ k :: place = other at h
    cases h with
    | above l outer =>
      have := congrArg List.length hother
      simp at this
      omega
    | @beside i j list _ _ hlt hi hj =>
      have hsuffix : j :: list <:+ other := by
        rw [← hother]
        exact hj.trans ((List.suffix_cons k place).trans (List.suffix_append _ _))
      exact Nat.ne_of_lt hlt (child_unique hi hsuffix)
  cases h with
  | above k inner => exact hAbove h'
  | @beside i j list _ _ hlt hi hj =>
    cases h' with
    | above k inner => exact hAbove (.beside hlt hi hj)
    | @beside k l more _ _ hlt' hk hl =>
      -- Where the two nodes part is the same both times, or one parting is above the other.
      rcases Nat.lt_trichotomy list.length more.length with hlength | hlength | hlength
      · have hi' := List.suffix_of_suffix_length_le hi ((List.suffix_cons l more).trans hl) hlength
        have hj' := List.suffix_of_suffix_length_le hj ((List.suffix_cons k more).trans hk) hlength
        exact Nat.ne_of_lt hlt (child_unique hi' hj')
      · have hsame := (List.suffix_of_suffix_length_le hi hl (by simp [hlength])).eq_of_length
          (by simp [hlength])
        have hsame' := (List.suffix_of_suffix_length_le hj hk (by simp [hlength])).eq_of_length
          (by simp [hlength])
        have := (List.cons.inj hsame).1
        have := (List.cons.inj hsame').1
        omega
      · have hl' := List.suffix_of_suffix_length_le hl ((List.suffix_cons i list).trans hi) hlength
        have hk' := List.suffix_of_suffix_length_le hk ((List.suffix_cons j list).trans hj) hlength
        exact Nat.ne_of_lt hlt' (child_unique hk' hl')

end Path.Before

/-- The sights of a tree come in the order of a walk. -/
theorem Node.sights_ordered (n : Node) : ∀ place inSlot parent around,
    (n.sights place inSlot parent around).Pairwise fun v w => Path.Before v.place w.place := by
  induction n using childInduction with
  | step n ih =>
    intro place inSlot parent around
    have hbelow {c : Child × Nat} {v : Sight}
        (hv : v ∈ c.1.node.sights (c.2 :: place) c.1.inSlot (some n) (n.within place around)) :
        c.2 :: place <:+ v.place := suffix_of_mem_sights _ _ _ _ _ v hv
    rw [sights_eq, List.pairwise_cons, List.pairwise_flatMap]
    refine ⟨fun w hw => ?_, fun c hc => ih c.1 (List.fst_mem_of_mem_zipIdx hc) _ _ _ _, ?_⟩
    · obtain ⟨c, -, hw⟩ := List.mem_flatMap.1 hw
      exact .of_suffix (hbelow hw)
    · have hlt : n.children.zipIdx.Pairwise fun c d => c.2 < d.2 := by
        rw [← List.pairwise_map (f := Prod.snd), List.zipIdx_map_snd]
        exact List.pairwise_lt_range'
      exact hlt.imp fun hlt v hv w hw => .beside hlt (hbelow hv) (hbelow hw)

theorem Program.sights_ordered (p : Program) :
    p.sights.Pairwise fun v w => Path.Before v.place w.place :=
  Node.sights_ordered _ _ _ _ _

end ScriptOptimizer
