import Mathlib.Data.List.Forall2
import Mathlib.Data.List.Nodup
import ScriptOptimizer.Pattern.Check
import ScriptOptimizer.Proofs.Parse.ExtentStatement
import ScriptOptimizer.Proofs.Parse.PairedProgram
import ScriptOptimizer.Proofs.Parse.Rows
import ScriptOptimizer.Proofs.Walk.Schedule

/-!
Ranges of whole trees. The range of every node lies in its source and holds the ranges of its
children one after another, and the names and literals of a tree are tokens of its source: all that
could leave a node behind, in their order.
-/

namespace ScriptOptimizer

/-! ### Trees -/

namespace Node

theorem preorder_parts (n : Node) :
    n.preorder = n :: n.parts.flatMap fun x => x.node.preorder := by
  have hnodes : (n.parts.map (·.node)).flatMap preorder =
      (n.children.map (·.node)).flatMap preorder := by rw [map_parts]
  rw [List.flatMap_map, List.flatMap_map] at hnodes
  rw [preorder_eq, hnodes]

theorem isLeaf_children {n : Node} (h : n.isLeaf = true) : n.children = [] := by
  unfold isLeaf at h
  split at h
  · rfl
  · rfl
  · cases h

theorem preorder_leaf {n : Node} (h : n.isLeaf = true) : n.preorder = [n] := by
  rw [preorder_eq, isLeaf_children h]
  rfl

theorem Fits.of_leaf {n : Node} (h : n.isLeaf = true)
    (hle : n.span.start.offset ≤ n.span.stop.offset) : n.Fits := by
  have hparts : n.parts = [] := by
    have hnodes := map_parts n
    rwa [isLeaf_children h, List.map_nil, List.map_eq_nil_iff] at hnodes
  exact ⟨hle, by simp [hparts], by simp [hparts], by simp [hparts]⟩

theorem isLeaf_of_isAccessor {n : Node} (h : n.isAccessor = true) : n.isLeaf = false := by
  unfold isAccessor at h
  split at h
  · rfl
  · cases h

/-- When the children of every node lie in its range, all that is below a node does. -/
theorem within_of_fits (n : Node) (h : ∀ m ∈ n.preorder, m.Fits) : ∀ m ∈ n.preorder,
    n.span.start.offset ≤ m.span.start.offset ∧ m.span.stop.offset ≤ n.span.stop.offset := by
  induction n using childInduction with
  | step n ih =>
    rw [preorder_eq] at h
    rw [preorder_eq]
    have hfits := h n List.mem_cons_self
    intro m hm
    rcases List.mem_cons.1 hm with rfl | hm
    · exact ⟨Int.le_refl _, Int.le_refl _⟩
    obtain ⟨c, hc, hm⟩ := List.mem_flatMap.1 hm
    have hbelow : ∀ m ∈ c.node.preorder, m.Fits := fun m hm =>
      h m (List.mem_cons_of_mem _ (List.mem_flatMap.2 ⟨c, hc, hm⟩))
    have hwithin := ih c hc hbelow m hm
    have hpart : c.node ∈ n.parts.map (·.node) := by
      rw [map_parts]
      exact List.mem_map_of_mem hc
    obtain ⟨x, hx, hnode⟩ := List.mem_map.1 hpart
    have hlow := hfits.low x hx
    have hhigh := hfits.high x hx
    rw [Part.start, hnode] at hlow
    rw [Part.stop, hnode] at hhigh
    omega

theorem Fits.children {n : Node} (h : n.Fits) :
    (∀ c ∈ n.children, n.span.start.offset ≤ c.node.span.start.offset ∧
      c.node.span.stop.offset ≤ n.span.stop.offset) ∧
    n.children.Pairwise fun c d => c.node.span.stop.offset ≤ d.node.span.start.offset := by
  constructor
  · intro c hc
    have hpart : c.node ∈ n.parts.map (·.node) := by
      rw [map_parts]
      exact List.mem_map_of_mem hc
    obtain ⟨x, hx, hnode⟩ := List.mem_map.1 hpart
    rw [← hnode]
    exact ⟨h.low x hx, h.high x hx⟩
  · have hapart : (n.parts.map (·.node)).Pairwise
        fun m m' => m.span.stop.offset ≤ m'.span.start.offset := List.pairwise_map.2 h.apart
    rw [map_parts] at hapart
    exact List.pairwise_map.1 hapart

/-- The key of an entry. -/
def key? : Node → Option Expr
  | .property (.entry _ _ (.holds key) _ _ _) => some key
  | _ => none

theorem key?_of_isKey {n : Node} {x : Part} (hx : x ∈ n.parts) (hkey : x.isKey = true) :
    ∃ key, n.key? = some key ∧ x.node = .expr key := by
  have hno (list : List Child) : x ∉ Part.ofChildren list := by
    intro hx
    obtain ⟨c, -, rfl⟩ := List.mem_map.1 hx
    cases hkey
  cases n with
  | property p =>
    cases p with
    | absent => exact absurd hx (hno _)
    | entry span kind key value computed shorthand =>
      rcases List.mem_append.1 hx with hx | hx
      · cases key with
        | holds e =>
          obtain rfl := List.mem_singleton.1 hx
          exact ⟨e, rfl, rfl⟩
        | _ => cases hx
      · exact absurd hx (hno _)
  | _ => exact absurd hx (hno _)

theorem isLeaf_of_key? {n : Node} {key : Expr} (h : n.key? = some key) : n.isLeaf = false := by
  unfold key? at h
  split at h
  · rfl
  · cases h

theorem mem_parts_of_key? {n : Node} {key : Expr} (h : n.key? = some key) :
    ⟨.expr key, true⟩ ∈ n.parts := by
  unfold key? at h
  split at h
  · obtain rfl := Option.some.inj h
    exact List.mem_cons_self
  · cases h

/-- The node is a name or a literal with the range of the token, and a literal has its text. -/
def Marks : Node → Token → Prop
  | .expr (.literal lit), t => lit.span = t.span ∧ lit.raw = t.literal
  | n, t => n.span = t.span

theorem Marks.span_eq {n : Node} {t : Token} (h : n.Marks t) : n.span = t.span := by
  unfold Marks at h
  split at h
  · exact h.1
  · exact h

end Node

/-! ### What was read as a row of nodes -/

/-- The nodes of parts and all that is below them. -/
def Part.nodes (xs : List Part) : List Node := xs.flatMap fun x => x.node.preorder

namespace Piece

/-- The token of a name or a literal. -/
def leaf? : Piece → Option Token
  | leaf t => some t
  | _ => none

theorem eq_of_leaf? {p : Piece} {t : Token} (h : p.leaf? = some t) : p = .leaf t := by
  cases p with
  | leaf u => exact congrArg leaf (Option.some.inj h)
  | _ => cases h

/-- What nodes show of a token that was read: a word that is a name in spite of being reserved is
the key of an entry, and the word of an accessor stands where the accessor starts. -/
def Shown (xs : List Part) : Piece → Prop
  | leaf t => t.type = .identifier ∨ t.type.isValue = true ∨ (∃ word, t.type = .keyword word) ∧
      ∃ key : Expr, key.span = t.span ∧
        (⟨.expr key, true⟩ ∈ xs ∨ ∃ n ∈ Part.nodes xs, n.key? = some key)
  | word t => t.type = .identifier ∧
      ∃ n ∈ Part.nodes xs, n.isAccessor = true ∧ n.span.start = t.startPlace
  | mark t => t.type.isMark = true

end Piece

namespace Part

variable {xs ys : List Part} {ps : List Piece} {n m : Node}

@[simp] theorem nodes_singleton (x : Part) : nodes [x] = x.node.preorder :=
  List.append_nil _

theorem nodes_cons (x : Part) (xs : List Part) :
    nodes (x :: xs) = x.node.preorder ++ nodes xs := List.flatMap_cons

theorem mem_nodes_head {isKey : Bool} : n ∈ nodes (⟨n, isKey⟩ :: xs) := by
  rw [nodes_cons]
  exact List.mem_append_left _ n.self_mem_preorder

theorem mem_nodes_parts {isKey : Bool} (h : m ∈ nodes n.parts) : m ∈ nodes (⟨n, isKey⟩ :: xs) := by
  rw [nodes_cons, Node.preorder_parts]
  exact List.mem_append_left _ (List.mem_cons_of_mem _ h)

theorem mem_nodes_tail {x : Part} (h : m ∈ nodes xs) : m ∈ nodes (x :: xs) := by
  rw [nodes_cons]
  exact List.mem_append_right _ h

/-- A node is the first of the parts, below it, or among the others. -/
theorem mem_nodes_cons {isKey : Bool} (h : m ∈ nodes (⟨n, isKey⟩ :: xs)) :
    m = n ∨ m ∈ nodes n.parts ∨ m ∈ nodes xs := by
  rw [nodes_cons, Node.preorder_parts] at h
  rcases List.mem_append.1 h with h | h
  · rcases List.mem_cons.1 h with h | h
    · exact .inl h
    · exact .inr (.inl h)
  · exact .inr (.inr h)

end Part

namespace Piece

variable {xs : List Part} {p : Piece}

/-- A reserved word that is a key. -/
theorem Shown.key {t : Token} {word : Keyword} {name : Bytes} (htype : t.type = .keyword word) :
    (leaf t).Shown (⟨.expr (.ident ⟨t.span, name⟩), true⟩ :: xs) :=
  Or.inr (Or.inr ⟨⟨word, htype⟩, .ident ⟨t.span, name⟩, rfl, Or.inl List.mem_cons_self⟩)

/-- What the other nodes show. -/
theorem Shown.tail {x : Part} (h : p.Shown xs) : p.Shown (x :: xs) := by
  cases p with
  | leaf t =>
    rcases h with h | h | ⟨hword, key, hspan, h | ⟨n, hn, hkey⟩⟩
    · exact .inl h
    · exact .inr (.inl h)
    · exact .inr (.inr ⟨hword, key, hspan, .inl (List.mem_cons_of_mem _ h)⟩)
    · exact .inr (.inr ⟨hword, key, hspan, .inr ⟨n, Part.mem_nodes_tail hn, hkey⟩⟩)
  | word t =>
    obtain ⟨htype, n, hn, h⟩ := h
    exact ⟨htype, n, Part.mem_nodes_tail hn, h⟩
  | mark t => exact h

/-- What the parts of a node show: a key among them is the key of the node. -/
theorem Shown.inside {n : Node} {isKey : Bool} (h : p.Shown n.parts) :
    p.Shown (⟨n, isKey⟩ :: xs) := by
  cases p with
  | leaf t =>
    rcases h with h | h | ⟨hword, key, hspan, h | ⟨m, hm, hkey⟩⟩
    · exact .inl h
    · exact .inr (.inl h)
    · obtain ⟨key', hkey, hnode⟩ := Node.key?_of_isKey h rfl
      obtain rfl : key = key' := Node.expr.inj hnode
      exact .inr (.inr ⟨hword, key, hspan, .inr ⟨n, Part.mem_nodes_head, hkey⟩⟩)
    · exact .inr (.inr ⟨hword, key, hspan, .inr ⟨m, Part.mem_nodes_parts hm, hkey⟩⟩)
  | word t =>
    obtain ⟨htype, m, hm, h⟩ := h
    exact ⟨htype, m, Part.mem_nodes_parts hm, h⟩
  | mark t => exact h

end Piece

namespace Part

/-- The tokens that nodes tell of: every accessor starts at its word, and every key is a token. -/
structure Backed (xs : List Part) (ps : List Piece) : Prop where
  words : ∀ m ∈ nodes xs, m.isAccessor = true → ∃ t, .word t ∈ ps ∧ m.span.start = t.startPlace
  parts : ∀ x ∈ xs, x.isKey = true → ∃ t, .leaf t ∈ ps ∧ x.node.span = t.span
  keys : ∀ m ∈ nodes xs, ∀ key, m.key? = some key → ∃ t, .leaf t ∈ ps ∧ key.span = t.span

theorem Backed.mono {xs : List Part} {ps qs : List Piece} (h : Backed xs ps) (hsub : ps ⊆ qs) :
    Backed xs qs where
  words m hm haccessor :=
    have ⟨t, ht, hstart⟩ := h.words m hm haccessor
    ⟨t, hsub ht, hstart⟩
  parts x hx hkey :=
    have ⟨t, ht, hspan⟩ := h.parts x hx hkey
    ⟨t, hsub ht, hspan⟩
  keys m hm key hkey :=
    have ⟨t, ht, hspan⟩ := h.keys m hm key hkey
    ⟨t, hsub ht, hspan⟩

namespace Row

variable {xs : List Part} {ps : List Piece}

/-- The names and literals of nodes are tokens one by one. -/
theorem leaves (h : Row xs ps) :
    List.Forall₂ Node.Marks ((nodes xs).filter Node.isLeaf) (ps.filterMap Piece.leaf?) := by
  have hleaf {x : Part} {xs : List Part} {t : Token} {ts : List Token} (hx : x.node.isLeaf = true)
      (hmarks : x.node.Marks t)
      (ih : List.Forall₂ Node.Marks ((nodes xs).filter Node.isLeaf) ts) :
      List.Forall₂ Node.Marks ((nodes (x :: xs)).filter Node.isLeaf) (t :: ts) := by
    rw [nodes_cons, Node.preorder_leaf hx, List.singleton_append, List.filter_cons_of_pos hx]
    exact .cons hmarks ih
  have hinner {n : Node} {xs : List Part} {ts us : List Token} (hn : n.isLeaf = false)
      (ih : List.Forall₂ Node.Marks ((nodes n.parts).filter Node.isLeaf) ts)
      (ih' : List.Forall₂ Node.Marks ((nodes xs).filter Node.isLeaf) us) :
      List.Forall₂ Node.Marks ((nodes (⟨n, false⟩ :: xs)).filter Node.isLeaf) (ts ++ us) := by
    rw [nodes_cons, Node.preorder_parts, List.filter_append,
      List.filter_cons_of_neg (by simp [hn])]
    exact List.rel_append ih ih'
  induction h with
  | nil => exact .nil
  | mark _ _ ih => exact ih
  | name _ _ _ ih => exact hleaf rfl rfl ih
  | key _ _ _ ih => exact hleaf rfl rfl ih
  | literal _ _ _ ih => exact hleaf rfl ⟨rfl, rfl⟩ ih
  | @accessor n t xs ps qs haccessor _ _ _ _ _ _ ih ih' =>
    rw [List.cons_append, List.filterMap_cons_none rfl, List.filterMap_append]
    exact hinner (Node.isLeaf_of_isAccessor haccessor) ih ih'
  | inner hleaf _ _ _ _ _ ih ih' =>
    rw [List.filterMap_append]
    exact hinner hleaf ih ih'

/-- Every node holds its children, and starts and stops with a token. -/
theorem ranged (h : Row xs ps) : ∀ m ∈ nodes xs, m.Fits ∧ m.Bound ps := by
  have hmono {n : Node} {ps qs : List Piece} (hn : n.Fits ∧ n.Bound ps) (hsub : ps ⊆ qs) :
      n.Fits ∧ n.Bound qs := ⟨hn.1, hn.2.mono hsub⟩
  have hinner {n : Node} {xs : List Part} {ps qs : List Piece} (hn : n.Fits ∧ n.Bound ps)
      (ih : ∀ m ∈ nodes n.parts, m.Fits ∧ m.Bound ps) (ih' : ∀ m ∈ nodes xs, m.Fits ∧ m.Bound qs) :
      ∀ m ∈ nodes (⟨n, false⟩ :: xs), m.Fits ∧ m.Bound (ps ++ qs) := by
    intro m hm
    rcases mem_nodes_cons hm with rfl | hm | hm
    · exact hmono hn (List.subset_append_left ps qs)
    · exact hmono (ih m hm) (List.subset_append_left ps qs)
    · exact hmono (ih' m hm) (List.subset_append_right ps qs)
  have hleaf {x : Part} {xs : List Part} {ps : List Piece} {t : Token} (hx : x.node.isLeaf = true)
      (hspan : x.node.span = t.span) (hle : t.start ≤ t.stop)
      (ih : ∀ m ∈ nodes xs, m.Fits ∧ m.Bound ps) :
      ∀ m ∈ nodes (x :: xs), m.Fits ∧ m.Bound (.leaf t :: ps) := by
    intro m hm
    rw [nodes_cons, Node.preorder_leaf hx] at hm
    rcases List.mem_cons.1 hm with rfl | hm
    · exact ⟨Node.Fits.of_leaf hx (by rw [hspan]; exact Int.ofNat_le.2 hle),
        .of_token hspan List.mem_cons_self rfl⟩
    · exact hmono (ih m hm) (List.subset_cons_self _ _)
  induction h with
  | nil => exact List.forall_mem_nil _
  | mark _ _ ih => exact fun m hm => hmono (ih m hm) (List.subset_cons_self _ _)
  | name _ hle _ ih => exact hleaf rfl rfl hle ih
  | key _ hle _ ih => exact hleaf rfl rfl hle ih
  | literal _ hle _ ih => exact hleaf rfl rfl hle ih
  | accessor _ _ _ hfits hbound _ _ ih ih' =>
    exact hinner ⟨hfits, hbound⟩ (fun m hm => hmono (ih m hm) (List.subset_cons_self _ _)) ih'
  | inner _ _ hfits hbound _ _ ih ih' => exact hinner ⟨hfits, hbound⟩ ih ih'

theorem fits (h : Row xs ps) : ∀ m ∈ nodes xs, m.Fits := fun m hm => (h.ranged m hm).1

theorem bounds (h : Row xs ps) : ∀ m ∈ nodes xs, m.Bound ps := fun m hm => (h.ranged m hm).2

theorem shown (h : Row xs ps) : ∀ p ∈ ps, p.Shown xs := by
  have hinner {n : Node} {xs : List Part} {ps qs : List Piece}
      (ih : ∀ p ∈ ps, p.Shown n.parts) (ih' : ∀ p ∈ qs, p.Shown xs) :
      ∀ p ∈ ps ++ qs, p.Shown (⟨n, false⟩ :: xs) := by
    intro p hp
    rcases List.mem_append.1 hp with hp | hp
    · exact (ih p hp).inside
    · exact (ih' p hp).tail
  induction h with
  | nil => exact List.forall_mem_nil _
  | mark hmark _ ih => exact List.forall_mem_cons.2 ⟨hmark, ih⟩
  | name htype _ _ ih =>
    exact List.forall_mem_cons.2 ⟨Or.inl htype, fun p hp => (ih p hp).tail⟩
  | key htype _ _ ih =>
    exact List.forall_mem_cons.2 ⟨.key htype, fun p hp => (ih p hp).tail⟩
  | literal hvalue _ _ ih =>
    exact List.forall_mem_cons.2 ⟨Or.inr (Or.inl hvalue), fun p hp => (ih p hp).tail⟩
  | accessor haccessor htype hstart _ _ _ _ ih ih' =>
    exact List.forall_mem_cons.2 ⟨⟨htype, _, mem_nodes_head, haccessor, hstart⟩, hinner ih ih'⟩
  | inner _ _ _ _ _ _ ih ih' => exact hinner ih ih'

theorem backed (h : Row xs ps) : Backed xs ps := by
  have hleaf {x : Part} {xs : List Part} {ps : List Piece} {t : Token}
      (hx : x.node.isLeaf = true) (hspan : x.node.span = t.span) (ih : Backed xs ps) :
      Backed (x :: xs) (.leaf t :: ps) := by
    have ih := ih.mono (List.subset_cons_self (.leaf t) ps)
    have hnodes {m : Node} (hm : m ∈ nodes (x :: xs)) : m = x.node ∨ m ∈ nodes xs := by
      rwa [nodes_cons, Node.preorder_leaf hx, List.singleton_append, List.mem_cons] at hm
    refine ⟨fun m hm haccessor => ?_, fun y hy hkey => ?_, fun m hm key hkey => ?_⟩
    · rcases hnodes hm with rfl | hm
      · rw [Node.isLeaf_of_isAccessor haccessor] at hx
        cases hx
      · exact ih.words m hm haccessor
    · rcases List.mem_cons.1 hy with rfl | hy
      · exact ⟨t, List.mem_cons_self, hspan⟩
      · exact ih.parts y hy hkey
    · rcases hnodes hm with rfl | hm
      · rw [Node.isLeaf_of_key? hkey] at hx
        cases hx
      · exact ih.keys m hm key hkey
  have hinner {n : Node} {xs : List Part} {ps qs : List Piece}
      (hword : n.isAccessor = true → ∃ t, .word t ∈ ps ∧ n.span.start = t.startPlace)
      (ih : Backed n.parts ps) (ih' : Backed xs qs) : Backed (⟨n, false⟩ :: xs) (ps ++ qs) := by
    have ih := ih.mono (List.subset_append_left ps qs)
    have ih' := ih'.mono (List.subset_append_right ps qs)
    refine ⟨fun m hm haccessor => ?_, fun y hy hkey => ?_, fun m hm key hkey => ?_⟩
    · rcases mem_nodes_cons hm with rfl | hm | hm
      · obtain ⟨t, ht, hstart⟩ := hword haccessor
        exact ⟨t, List.mem_append_left _ ht, hstart⟩
      · exact ih.words m hm haccessor
      · exact ih'.words m hm haccessor
    · rcases List.mem_cons.1 hy with rfl | hy
      · cases hkey
      · exact ih'.parts y hy hkey
    · rcases mem_nodes_cons hm with rfl | hm | hm
      · exact ih.parts _ (Node.mem_parts_of_key? hkey) rfl
      · exact ih.keys m hm key hkey
      · exact ih'.keys m hm key hkey
  induction h with
  | nil => exact ⟨List.forall_mem_nil _, List.forall_mem_nil _, List.forall_mem_nil _⟩
  | mark _ _ ih => exact ih.mono (List.subset_cons_self _ _)
  | name _ _ _ ih => exact hleaf rfl rfl ih
  | key _ _ _ ih => exact hleaf rfl rfl ih
  | literal _ _ _ ih => exact hleaf rfl rfl ih
  | accessor haccessor _ hstart _ _ _ _ ih ih' =>
    exact hinner (fun _ => ⟨_, List.mem_cons_self, hstart⟩) (ih.mono (List.subset_cons_self _ _))
      ih'
  | inner _ haccessor _ _ _ _ ih ih' =>
    exact hinner (fun h => by simp [haccessor] at h) ih ih'

end Row

end Part

/-! ### The tokens of a source -/

namespace Lexer

/-- Tokens follow each other, each with text of its own, and only the last ends the input. -/
def Follows (t u : Token) : Prop :=
  t.type ≠ .endOfInput ∧ t.start < t.stop ∧ t.stop ≤ u.start

theorem Cuts.le {text : Bytes} {offset : Nat} {steps : List (Token × Lexer)}
    (h : Cuts text offset steps) : ∀ t ∈ steps.map (·.1), offset ≤ t.start := by
  induction h with
  | last hStep _ => exact List.forall_mem_singleton.2 hStep.offset_le
  | more hStep _ _ ih =>
    refine List.forall_mem_cons.2 ⟨hStep.offset_le, fun u hu => ?_⟩
    have := hStep.offset_le
    have := hStep.start_le
    have := ih u hu
    omega

theorem Cuts.follows {text : Bytes} {offset : Nat} {steps : List (Token × Lexer)}
    (h : Cuts text offset steps) : (steps.map (·.1)).Pairwise Follows := by
  induction h with
  | last => exact List.pairwise_singleton _ _
  | more hStep hLast hRest ih =>
    have hType := (isLast_eq_false.1 hLast).1
    exact List.pairwise_cons.2 ⟨fun u hu => ⟨hType, hStep.progress hType, hRest.le u hu⟩, ih⟩

variable [PatternCheck]

theorem significant_follows (source : Source) :
    (ofSource source).significant.1.Pairwise Follows :=
  (cuts_ofSource source).follows.filter _

theorem significant_inside (source : Source) : ∀ t ∈ (ofSource source).significant.1,
    t.start ≤ t.stop ∧ t.stop ≤ source.content.length ∧
      t.literal = source.content.slice t.start t.stop := by
  intro t ht
  obtain ⟨hRun, hType⟩ := List.mem_filter.1 ht
  obtain ⟨step, hStep, rfl⟩ := List.mem_map.1 hRun
  obtain ⟨offset, hAdvances⟩ := (cuts_ofSource source).exists_advances hStep
  have hLegal : step.1.type ≠ .illegal := fun hIllegal => by simp [hIllegal] at hType
  exact ⟨hAdvances.start_le, hAdvances.stop_le, hAdvances.literal_eq hLegal⟩

end Lexer

/-! ### Programs -/

namespace Program

/-- Does an accessor start at the token? -/
def startsAccessor (p : Program) (t : Token) : Bool :=
  (Node.program p).preorder.any fun n => n.isAccessor && n.span.start = t.startPlace

/-- Is the token the key of an entry? -/
def isKey (p : Program) (t : Token) : Bool :=
  (Node.program p).preorder.any fun n => match n.key? with
    | some key => key.span = t.span
    | none => false

/-- Does the token become a name or a literal of the program? Literals do, identifiers but for the
words of accessors, and reserved words that are keys. -/
def isLeaf (p : Program) (t : Token) : Bool :=
  match t.type with
  | .identifier => !p.startsAccessor t
  | .keyword word => (TokenType.keyword word).isValue || p.isKey t
  | type => type.isValue

/-- The stream of a source starts ready to be read, with all tokens of the source. -/
theorem start_ready [PatternCheck] {source : Source} {census : Census} {s : Stream}
    (h : Stream.start (Lexer.ofSource source).source census (Lexer.ofSource source).significant.1
      (Lexer.ofSource source).significant.2 = .ok s) :
    Parse.Ready s ∧ s.current :: s.upcoming = (Lexer.ofSource source).significant.1 := by
  have hfollows := Lexer.significant_follows source
  have hinside := Lexer.significant_inside source
  have hin : (Lexer.ofSource source).cursor.In source.content := Cursor.In.start _
  have hlast := Lexer.significant_last hin rfl
  revert h hfollows hinside hlast
  generalize (Lexer.ofSource source).significant.1 = tokens
  generalize (Lexer.ofSource source).significant.2 = failure
  intro h hfollows hinside hlast
  have hready {first : Token} {rest : List Token} (htokens : tokens = first :: rest)
      (hunread : failure.isSome = true → rest ≠ []) (hs : s =
        ⟨first, rest, failure, ⟨0, 0, 0⟩, (Lexer.ofSource source).source, census⟩) :
      Parse.Ready s ∧ s.current :: s.upcoming = tokens := by
    subst hs htokens
    refine ⟨⟨hfollows.imp fun h => h.2.2, fun t ht => (hinside t ht).1, fun hnone t ht => ?_,
      hunread, Int.natCast_nonneg _⟩, rfl⟩
    obtain ⟨front, last, heq, htype, -⟩ := hlast hnone
    change t ∈ (first :: rest).getLast? at ht
    rw [heq, List.getLast?_concat] at ht
    exact Option.some.inj ht ▸ htype
  cases tokens with
  | nil =>
    cases hfailure : failure with
    | none =>
      obtain ⟨front, last, heq, -⟩ := hlast hfailure
      simp at heq
    | some d =>
      rw [hfailure] at h
      cases h
  | cons first rest =>
    cases rest with
    | nil =>
      cases hfailure : failure with
      | none =>
        rw [hfailure] at h
        refine hready rfl (by simp [hfailure]) ?_
        rw [hfailure]
        exact (Except.ok.inj h).symm
      | some d =>
        rw [hfailure] at h
        cases h
    | cons next rest =>
      refine hready rfl (fun _ => List.cons_ne_nil _ _) ?_
      cases failure <;> exact (Except.ok.inj h).symm

/-- A program was read from the tokens of its source up to the end of input, and its range reaches
from the first of them to the end of input. -/
theorem exists_row_from [PatternCheck] {source : Source} {p : Program} (h : parse source = .ok p) :
    ∃ (ps : List Piece) (last : Token), Part.Row [⟨.program p, false⟩] ps ∧
      last.type = .endOfInput ∧
      (Lexer.ofSource source).significant.1 = ps.map Piece.token ++ [last] ∧
      (∃ first ∈ (Lexer.ofSource source).significant.1, p.span.start = first.startPlace) ∧
      p.span.stop = last.startPlace := by
  unfold parse readFrom at h
  dsimp only at h
  split at h
  case h_1 => cases h
  case h_2 s hstart =>
    obtain ⟨hready, htokens⟩ := start_ready hstart
    have hyields :=
      (Parse.Extents.nested ((Lexer.ofSource source).significant.1.length + 1)).program hready
    unfold Parse.Yields at hyields
    split at h
    case h_2 => cases h
    case h_1 q t hrun =>
      obtain rfl : q = p := Except.ok.inj h
      rw [hrun] at hyields
      obtain ⟨hreads, htype, hspan⟩ := hyields
      obtain ⟨ps, hrow, hpieces, -⟩ := hreads.pieces
      have hfirst : s.current ∈ (Lexer.ofSource source).significant.1 :=
        htokens ▸ List.mem_cons_self
      rw [htokens] at hpieces
      -- Nothing follows the end of input.
      have hnil : t.upcoming = [] := by
        have hfollows := Lexer.significant_follows source
        rw [hpieces] at hfollows
        have hrest := (List.pairwise_append.1 hfollows).2.1
        refine List.eq_nil_iff_forall_not_mem.2 fun u hu => ?_
        exact ((List.pairwise_cons.1 hrest).1 u hu).1 htype
      rw [hnil] at hpieces
      have hfits : (Node.program q).Fits := by
        have hstop := hreads.ready.stop_le
        refine ⟨?_, fun x hx => ?_, fun x hx => ?_, hreads.apart⟩
        · show q.span.start.offset ≤ q.span.stop.offset
          rw [hspan]
          exact Int.ofNat_le.2 hreads.current_le
        · show q.span.start.offset ≤ _
          rw [hspan]
          exact hreads.low x hx
        · show _ ≤ q.span.stop.offset
          rw [hspan]
          exact Int.le_trans (hreads.high x hx) hstop
      have hprogram := Part.Row.inner rfl rfl hfits (show (Node.program q).Bound ps from trivial)
        hrow .nil
      rw [List.append_nil] at hprogram
      refine ⟨ps, t.current, hprogram, htype, hpieces, ⟨s.current, hfirst, ?_⟩, ?_⟩
      · rw [hspan]
      · rw [hspan]

/-- A program was read from the tokens of its source up to the end of input. -/
theorem exists_row [PatternCheck] {source : Source} {p : Program} (h : parse source = .ok p) :
    ∃ (ps : List Piece) (last : Token), Part.Row [⟨.program p, false⟩] ps ∧
      last.type = .endOfInput ∧
      (Lexer.ofSource source).significant.1 = ps.map Piece.token ++ [last] ∧
      0 ≤ p.span.start.offset ∧ p.span.stop.offset = last.start := by
  obtain ⟨ps, last, hrow, htype, htokens, ⟨first, -, hstart⟩, hstop⟩ := exists_row_from h
  refine ⟨ps, last, hrow, htype, htokens, ?_, ?_⟩
  · rw [hstart]
    exact Int.natCast_nonneg _
  · rw [hstop]
    rfl

variable {p : Program} {t : Token}

theorem startsAccessor_iff : p.startsAccessor t = true ↔
    ∃ n ∈ (Node.program p).preorder, n.isAccessor = true ∧ n.span.start = t.startPlace := by
  simp only [startsAccessor, List.any_eq_true, Bool.and_eq_true, decide_eq_true_eq]

theorem isKey_iff : p.isKey t = true ↔
    ∃ n ∈ (Node.program p).preorder, ∃ key, n.key? = some key ∧ key.span = t.span := by
  rw [isKey, List.any_eq_true]
  refine exists_congr fun n => and_congr_right fun _ => ?_
  cases n.key? <;> simp

/-- A token that was read is a leaf of the program just if it was read as one. -/
theorem isLeaf_eq {ps : List Piece} (h : Part.Row [⟨.program p, false⟩] ps)
    (hinj : ∀ a ∈ ps, ∀ b ∈ ps, a.token.start = b.token.start → a = b) {piece : Piece}
    (hmem : piece ∈ ps) : p.isLeaf piece.token = piece.leaf?.isSome := by
  have hbacked := h.backed
  have hshown := h.shown piece hmem
  have hnodes : Part.nodes [⟨.program p, false⟩] = (Node.program p).preorder :=
    Part.nodes_singleton _
  cases piece with
  | leaf t =>
    show p.isLeaf t = true
    rcases hshown with htype | hvalue | ⟨⟨word, htype⟩, key, hspan, hkey⟩
    · -- The word of an accessor stands nowhere else.
      have hno : p.startsAccessor t = false := by
        refine Bool.eq_false_iff.2 fun hstarts => ?_
        obtain ⟨n, hn, haccessor, hstart⟩ := startsAccessor_iff.1 hstarts
        obtain ⟨u, hu, hplace⟩ := hbacked.words n (hnodes ▸ hn) haccessor
        have hsame : t.startPlace = u.startPlace := hstart.symm.trans hplace
        cases hinj _ hmem _ hu (Int.ofNat_inj.1 (congrArg Place.offset hsame))
      simp [isLeaf, htype, hno]
    · unfold isLeaf
      split
      case h_1 htype => simp [htype, TokenType.isValue, TokenType.isLiteral] at hvalue
      case h_2 htype => rw [← htype, hvalue, Bool.true_or]
      case h_3 => exact hvalue
    · have hkey : p.isKey t = true := by
        rcases hkey with hkey | ⟨n, hn, hkey⟩
        · cases List.mem_singleton.1 hkey
        · exact isKey_iff.2 ⟨n, hnodes ▸ hn, key, hkey, hspan⟩
      simp [isLeaf, htype, hkey]
  | word t =>
    obtain ⟨htype, n, hn, h⟩ := hshown
    have hstarts : p.startsAccessor t = true := startsAccessor_iff.2 ⟨n, hnodes ▸ hn, h⟩
    show p.isLeaf t = false
    simp [isLeaf, htype, hstarts]
  | mark t =>
    have hno : p.isKey t = false := by
      refine Bool.eq_false_iff.2 fun hkey => ?_
      obtain ⟨n, hn, key, hkey, hspan⟩ := isKey_iff.1 hkey
      obtain ⟨u, hu, hplace⟩ := hbacked.keys n (hnodes ▸ hn) key hkey
      have hsame : t.span = u.span := hspan.symm.trans hplace
      have hstart := congrArg (fun s : Span => s.start.offset) hsame
      cases hinj _ hmem _ hu (Int.ofNat_inj.1 hstart)
    have hmark : t.type.isMark = true := hshown
    show p.isLeaf t = false
    unfold isLeaf
    unfold TokenType.isMark at hmark
    split at hmark
    case h_1 htype =>
      rw [htype]
      rfl
    case h_2 htype =>
      rw [htype]
      simpa [hno] using hmark
    case h_3 => cases hmark

/-- The tokens that are leaves are those read as such. -/
theorem filter_isLeaf {qs : List Piece} (h : ∀ piece ∈ qs,
    p.isLeaf piece.token = piece.leaf?.isSome) :
    (qs.map Piece.token).filter p.isLeaf = qs.filterMap Piece.leaf? := by
  induction qs with
  | nil => rfl
  | cons piece qs ih =>
    have ih := ih fun q hq => h q (List.mem_cons_of_mem _ hq)
    have hpiece := h piece List.mem_cons_self
    rw [List.map_cons, List.filter_cons, hpiece, ih]
    cases piece <;> rfl

/-- Comments and lexical errors are no leaves. -/
theorem filter_run [PatternCheck] (l : Lexer) :
    (l.run.map (·.1)).filter p.isLeaf = l.significant.1.filter p.isLeaf := by
  rw [Lexer.significant, List.filter_filter]
  refine List.filter_congr fun t _ => ?_
  cases htype : t.type <;> simp [isLeaf, htype, TokenType.isValue, TokenType.isLiteral]

/-- Pieces of a source that start together are the same. -/
theorem piece_eq {tokens : List Token} {ps : List Piece} {last : Token}
    (hfollows : tokens.Pairwise Lexer.Follows) (htokens : tokens = ps.map Piece.token ++ [last]) :
    ∀ a ∈ ps, ∀ b ∈ ps, a.token.start = b.token.start → a = b := by
  rw [htokens] at hfollows
  have hpieces := List.pairwise_map.1 (List.pairwise_append.1 hfollows).1
  have hnodup : (ps.map fun a => a.token.start).Nodup := by
    refine List.pairwise_map.2 (hpieces.imp fun {a b} hab => ?_)
    have hstop := hab.2.1
    have hnext := hab.2.2
    omega
  exact fun a ha b hb h => List.inj_on_of_nodup_map hnodup ha hb h

/-- Ranges nest and no leaf is lost. The range of every node of a program lies in its source and
holds those of its children, which come one after another. The names and literals of the program in
order are the tokens of the source that are literals, identifiers other than the word of an
accessor, and reserved words that are keys; each has the range of its token, and a literal is
written as the source is there. -/
theorem spans_nest [PatternCheck] {source : Source} {p : Program} (h : parse source = .ok p) :
    (∀ n ∈ (Node.program p).preorder,
      0 ≤ n.span.start.offset ∧ n.span.start.offset ≤ n.span.stop.offset ∧
      n.span.stop.offset ≤ source.content.length ∧
      (∀ c ∈ n.children, n.span.start.offset ≤ c.node.span.start.offset ∧
        c.node.span.stop.offset ≤ n.span.stop.offset) ∧
      n.children.Pairwise fun c d => c.node.span.stop.offset ≤ d.node.span.start.offset) ∧
    List.Forall₂ (fun n t => n.span = t.span) ((Node.program p).preorder.filter Node.isLeaf)
      (((Lexer.ofSource source).run.map (·.1)).filter p.isLeaf) ∧
    ∀ lit, .expr (.literal lit) ∈ (Node.program p).preorder →
      lit.raw = source.content.slice lit.span.start.offset.toNat lit.span.stop.offset.toNat := by
  obtain ⟨ps, last, hrow, hlast, htokens, hstart, hstop⟩ := exists_row h
  have hfollows := Lexer.significant_follows source
  have hinside := Lexer.significant_inside source
  have hnodes : Part.nodes [⟨.program p, false⟩] = (Node.program p).preorder :=
    Part.nodes_singleton _
  have hfits : ∀ n ∈ (Node.program p).preorder, n.Fits := hnodes ▸ hrow.fits
  have hwithin := (Node.program p).within_of_fits hfits
  have hinj := piece_eq hfollows htokens
  have hleaves := hrow.leaves
  rw [hnodes] at hleaves
  refine ⟨fun n hn => ?_, ?_, fun lit hlit => ?_⟩
  · have hsource : last.start ≤ source.content.length := by
      have hmem : last ∈ (Lexer.ofSource source).significant.1 := by simp [htokens]
      have := hinside last hmem
      omega
    have hn' := hwithin n hn
    change p.span.start.offset ≤ _ ∧ _ ≤ p.span.stop.offset at hn'
    refine ⟨by omega, (hfits n hn).le, by omega, (hfits n hn).children⟩
  · rw [filter_run, htokens, List.filter_append, filter_isLeaf fun piece hpiece =>
      isLeaf_eq hrow hinj hpiece]
    have hend : p.isLeaf last = false := by
      unfold isLeaf
      rw [hlast]
      rfl
    rw [List.filter_cons_of_neg (by simp [hend]), List.filter_nil, List.append_nil]
    exact hleaves.imp fun n t hmarks => hmarks.span_eq
  · have hmem : Node.expr (.literal lit) ∈ (Node.program p).preorder.filter Node.isLeaf :=
      List.mem_filter.2 ⟨hlit, rfl⟩
    obtain ⟨t, ht, hspan, hraw⟩ := exists_of_forall₂ hleaves hmem
    obtain ⟨piece, hpiece, hleaf⟩ := List.mem_filterMap.1 ht
    obtain rfl : piece = .leaf t := Piece.eq_of_leaf? hleaf
    have hsource : t ∈ (Lexer.ofSource source).significant.1 := by
      rw [htokens]
      exact List.mem_append_left _ (List.mem_map.2 ⟨_, hpiece, rfl⟩)
    rw [hraw, hspan]
    exact (hinside t hsource).2.2

/-- A reserved word for a key, an accessor with one, a reserved word that is a literal, and
parentheses that leave nothing behind. -/
theorem spans_nest_accessor :
    let source := Source.inline
      (Bytes.ofString "get = {get if() {return (1)}, new: (a + b), true: true}")
    ∃ p, parse source = .ok p ∧
      List.Forall₂ (fun n t => n.span = t.span) ((Node.program p).preorder.filter Node.isLeaf)
        (((Lexer.ofSource source).run.map (·.1)).filter p.isLeaf) := by
  intro source
  have hSome : (parse source).toOption.isSome = true := by decide +kernel
  cases h : parse source with
  | ok p => exact ⟨p, rfl, (spans_nest h).2.1⟩
  | error d =>
    rw [h] at hSome
    cases hSome

end Program

end ScriptOptimizer
