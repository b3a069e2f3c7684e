import Mathlib.Data.List.Infix
import ScriptOptimizer.Scope.Basic

/-!
The open scopes of a table. Declaring changes the innermost of them, declaring in the root the
outermost; a scope that is entered comes in front and one that is left goes.
-/

namespace ScriptOptimizer

variable {α : Type}

namespace Scope

theorem declares_iff {s : Scope α} {name : Bytes} :
    s.declares name = true ↔ ∃ pair ∈ s.index, name = pair.1 := by
  simp [declares, List.lookup_isSome_iff]

theorem declares_add (s : Scope α) (name other : Bytes) (node : α) :
    (s.add name node).declares other = true ↔ name = other ∨ s.declares other = true := by
  simp only [declares_iff, add, List.mem_cons, exists_eq_or_imp]
  rw [eq_comm]

/-- The index leads to an entry. -/
theorem index_lt {s : Scope α} {name : Bytes} {i : Nat} (h : s.index.lookup name = some i) :
    i < s.entries.length := by
  obtain ⟨front, back, hSplit, -⟩ := List.lookup_eq_some_iff.1 h
  exact s.indexed (name, i) (by simp [hSplit])

theorem lookup_isSome (s : Scope α) (name : Bytes) : (s.lookup name).isSome = s.declares name := by
  rw [lookup, declares]
  cases h : s.index.lookup name with
  | none => rfl
  | some i => simp [index_lt h]

/-- A declaration hides those of its name before it, and no others. -/
theorem lookup_add (s : Scope α) (name other : Bytes) (node : α) :
    (s.add name node).lookup other =
      if name = other then some ⟨name, node⟩ else s.lookup other := by
  rw [lookup, lookup, add, List.lookup_cons]
  by_cases hName : name = other
  · simp [hName]
  · rw [if_neg hName, beq_false_of_ne (Ne.symm hName)]
    cases h : s.index.lookup other with
    | none => rfl
    | some i => exact List.getElem?_append_left (index_lt h)

end Scope

namespace ScopeTable

theorem live_eq (t : ScopeTable α) : ∃ rest, t.live = t.current :: rest := by
  obtain ⟨root, inner, left, next⟩ := t
  cases inner with
  | nil => exact ⟨[], rfl⟩
  | cons scope inner => exact ⟨inner ++ [root], rfl⟩

theorem live_declare (t : ScopeTable α) (name : Bytes) (node : α) :
    (t.declare name node).live = t.current.add name node :: t.live.tail := by
  obtain ⟨root, inner, left, next⟩ := t
  cases inner <;> rfl

theorem live_declareGlobal (t : ScopeTable α) (name : Bytes) (node : α) :
    (t.declareGlobal name node).live = t.inner ++ [t.root.add name node] := rfl

theorem live_enter (t : ScopeTable α) :
    t.enter.live =
      .new t.next (t.current.id :: t.current.enclosing) (t.current.level + 1) :: t.live := rfl

theorem live_leave {t : ScopeTable α} (h : t.live.length ≠ 1) : t.leave.live = t.live.tail := by
  obtain ⟨root, inner, left, next⟩ := t
  cases inner with
  | nil => simp [live] at h
  | cons scope inner => rfl

/-- The root scope is never left. -/
theorem leave_root {t : ScopeTable α} (h : t.live.length = 1) : t.leave = t := by
  obtain ⟨root, inner, left, next⟩ := t
  cases inner with
  | nil => rfl
  | cons scope inner => simp [live] at h

theorem root_leave (t : ScopeTable α) : t.leave.root = t.root := by
  obtain ⟨root, inner, left, next⟩ := t
  cases inner <;> rfl

/-- A name is found where an open scope declares it. -/
theorem find?_isSome {t : ScopeTable α} {name : Bytes} :
    (t.find? name).isSome = true ↔ ∃ s ∈ t.live, s.declares name = true := by
  simp [find?, resolve, Scope.lookup_isSome, List.findSome?_isSome_iff]

theorem root_declare (t : ScopeTable α) (name : Bytes) (node : α) :
    t.root.entries ⊆ (t.declare name node).root.entries := by
  obtain ⟨root, inner, left, next⟩ := t
  cases inner with
  | nil => exact List.subset_append_left _ _
  | cons scope inner => exact List.Subset.refl _

/-- After names were declared the innermost scope declares them, and the scopes around it are as
they were. -/
structure Declares (names : List Bytes) (t t' : ScopeTable α) : Prop where
  live : ∃ scope, t'.live = scope :: t.live.tail ∧
    ∀ name, scope.declares name = true ↔ name ∈ names ∨ t.current.declares name = true
  root : t.root.entries ⊆ t'.root.entries

theorem Declares.refl (t : ScopeTable α) : Declares [] t t := by
  obtain ⟨rest, hrest⟩ := live_eq t
  exact ⟨⟨t.current, by simp [hrest], fun _ => by simp⟩, List.Subset.refl _⟩

theorem Declares.single (t : ScopeTable α) (name : Bytes) (node : α) :
    Declares [name] t (t.declare name node) := by
  refine ⟨⟨_, live_declare t name node, fun other => ?_⟩, root_declare t name node⟩
  rw [Scope.declares_add, List.mem_singleton, eq_comm]

theorem Declares.trans {t t' t'' : ScopeTable α} {names more : List Bytes}
    (h : Declares names t t') (h' : Declares more t' t'') : Declares (names ++ more) t t'' := by
  obtain ⟨⟨scope, hlive, hnames⟩, hroot⟩ := h
  obtain ⟨⟨scope', hlive', hnames'⟩, hroot'⟩ := h'
  have hcurrent : t'.current = scope := by
    obtain ⟨rest, hrest⟩ := live_eq t'
    rw [hlive] at hrest
    exact (List.cons.inj hrest).1.symm
  refine ⟨⟨scope', by rw [hlive', hlive, List.tail_cons], fun name => ?_⟩,
    List.Subset.trans hroot hroot'⟩
  rw [hnames', hcurrent, hnames, List.mem_append, ← or_assoc, or_comm (a := name ∈ more)]

/-- Declaring names one after another, each by its node. -/
theorem Declares.foldl {β : Type} (list : List β) (name : β → Bytes) (node : β → α)
    (t : ScopeTable α) :
    Declares (list.map name) t (list.foldl (fun t b => t.declare (name b) (node b)) t) := by
  induction list generalizing t with
  | nil => exact .refl t
  | cons b rest ih => exact (Declares.single t (name b) (node b)).trans (ih _)

end ScopeTable

/-! ### Numbers of the open scopes -/

theorem tails_dropLast_cons {β : Type} (a : β) (l : List β) :
    (a :: l).tails.dropLast = (a :: l) :: l.tails.dropLast := by
  have : l.tails ≠ [] := by cases l <;> simp
  rw [List.tails_cons, List.dropLast_cons_of_ne_nil this]

/-- The open scopes have these numbers, the innermost first, and each knows those around it. -/
def ScopeTable.Stacked (ids : List Nat) (t : ScopeTable α) : Prop :=
  t.live.map (fun s => s.id :: s.enclosing) = ids.tails.dropLast

namespace ScopeTable

variable {ids : List Nat} {id : Nat} {t : ScopeTable α}

theorem Stacked.current (h : t.Stacked ids) : t.current.id :: t.current.enclosing = ids := by
  obtain ⟨rest, hrest⟩ := live_eq t
  cases ids with
  | nil => simp [Stacked, hrest] at h
  | cons id ids =>
    rw [Stacked, hrest, tails_dropLast_cons] at h
    exact (List.cons.inj h).1

theorem Stacked.declare (h : t.Stacked ids) (name : Bytes) (node : α) :
    (t.declare name node).Stacked ids := by
  obtain ⟨rest, hrest⟩ := live_eq t
  rw [Stacked, hrest] at h
  rw [Stacked, live_declare, hrest]
  exact h

theorem next_declare (t : ScopeTable α) (name : Bytes) (node : α) :
    (t.declare name node).next = t.next := by
  obtain ⟨root, inner, left, next⟩ := t
  cases inner <;> rfl

theorem next_leave (t : ScopeTable α) : t.leave.next = t.next := by
  obtain ⟨root, inner, left, next⟩ := t
  cases inner <;> rfl

theorem Stacked.foldl {β : Type} (h : t.Stacked ids) (list : List β) (name : β → Bytes)
    (node : β → α) :
    (list.foldl (fun t b => t.declare (name b) (node b)) t).Stacked ids ∧
      (list.foldl (fun t b => t.declare (name b) (node b)) t).next = t.next := by
  induction list generalizing t with
  | nil => exact ⟨h, rfl⟩
  | cons b rest ih =>
    obtain ⟨hstacked, hnext⟩ := ih (h.declare (name b) (node b))
    exact ⟨hstacked, hnext.trans (next_declare t (name b) (node b))⟩

theorem Stacked.enter (h : t.Stacked ids) : t.enter.Stacked (t.next :: ids) := by
  have hcurrent := h.current
  rw [Stacked, live_enter, List.map_cons, tails_dropLast_cons, h]
  exact congrArg (· :: _) (congrArg (t.next :: ·) hcurrent)

theorem Stacked.leave (h : t.Stacked (id :: ids)) (hne : ids ≠ []) : t.leave.Stacked ids := by
  have hlength : t.live.length = ids.length + 1 := by
    have := congrArg List.length h
    simpa using this
  have hlive : t.live.length ≠ 1 := by
    have := List.length_pos_iff.2 hne
    omega
  rw [Stacked, live_leave hlive, List.map_tail, h, tails_dropLast_cons, List.tail_cons]

end ScopeTable

/-! ### Tables with the same open scopes -/

/-- Both tables have open scopes with the same numbers, and the next number is the same. -/
structure ScopeTable.Alike (t t' : ScopeTable α) : Prop where
  live : t.live.map (fun s => s.id :: s.enclosing) = t'.live.map fun s => s.id :: s.enclosing
  next : t.next = t'.next

namespace ScopeTable

variable {ids : List Nat} {t t' t'' : ScopeTable α}

theorem Alike.refl (t : ScopeTable α) : t.Alike t := ⟨rfl, rfl⟩

theorem Alike.symm (h : t.Alike t') : t'.Alike t := ⟨h.live.symm, h.next.symm⟩

theorem Alike.trans (h : t.Alike t') (h' : t'.Alike t'') : t.Alike t'' :=
  ⟨h.live.trans h'.live, h.next.trans h'.next⟩

theorem Alike.stacked (h : t.Alike t') (ht : t.Stacked ids) : t'.Stacked ids := h.live.symm.trans ht

theorem Alike.current (h : t.Alike t') :
    t.current.id :: t.current.enclosing = t'.current.id :: t'.current.enclosing := by
  obtain ⟨rest, hrest⟩ := live_eq t
  obtain ⟨rest', hrest'⟩ := live_eq t'
  have hlive := h.live
  rw [hrest, hrest'] at hlive
  exact (List.cons.inj hlive).1

/-- Declaring a name opens and leaves no scope. -/
theorem Alike.declare (t : ScopeTable α) (name : Bytes) (node : α) :
    t.Alike (t.declare name node) := by
  refine ⟨?_, (next_declare t name node).symm⟩
  obtain ⟨rest, hrest⟩ := live_eq t
  rw [live_declare, hrest]
  rfl

theorem Alike.declareGlobal (t : ScopeTable α) (name : Bytes) (node : α) :
    t.Alike (t.declareGlobal name node) := by
  refine ⟨?_, rfl⟩
  rw [live_declareGlobal, ScopeTable.live, List.map_append, List.map_append]
  rfl

theorem Alike.enter (h : t.Alike t') : t.enter.Alike t'.enter := by
  refine ⟨?_, congrArg (· + 1) h.next⟩
  rw [live_enter, live_enter, List.map_cons, List.map_cons, h.live, h.current, h.next]
  rfl

theorem Alike.leave (h : t.Alike t') : t.leave.Alike t'.leave := by
  refine ⟨?_, by rw [next_leave, next_leave, h.next]⟩
  have hlength : t.live.length = t'.live.length := by
    simpa using congrArg List.length h.live
  by_cases hroot : t.live.length = 1
  · rw [leave_root hroot, leave_root (hlength.symm.trans hroot), h.live]
  · rw [live_leave hroot, live_leave (hlength ▸ hroot), List.map_tail, List.map_tail, h.live]

end ScopeTable

/-- The second table comes from the first by declaring names, in the current scope or in the root
scope. -/
inductive ScopeTable.Grows : ScopeTable α → ScopeTable α → Prop
  | refl (t : ScopeTable α) : Grows t t
  | declare {t t' : ScopeTable α} (name : Bytes) (node : α) :
    Grows t t' → Grows t (t'.declare name node)
  | declareGlobal {t t' : ScopeTable α} (name : Bytes) (node : α) :
    Grows t t' → Grows t (t'.declareGlobal name node)

namespace ScopeTable

variable {t t' t'' : ScopeTable α}

theorem Grows.trans (h : t.Grows t') (h' : t'.Grows t'') : t.Grows t'' := by
  induction h' with
  | refl => exact h
  | declare name node _ ih => exact .declare name node ih
  | declareGlobal name node _ ih => exact .declareGlobal name node ih

theorem Grows.foldl {β : Type} (list : List β) (name : β → Bytes) (node : β → α)
    (t : ScopeTable α) : t.Grows (list.foldl (fun t b => t.declare (name b) (node b)) t) := by
  induction list generalizing t with
  | nil => exact .refl t
  | cons b rest ih => exact (Grows.declare (name b) (node b) (.refl t)).trans (ih _)

theorem Grows.alike (h : t.Grows t') : t.Alike t' := by
  induction h with
  | refl => exact .refl t
  | declare name node _ ih => exact ih.trans (.declare _ name node)
  | declareGlobal name node _ ih => exact ih.trans (.declareGlobal _ name node)

end ScopeTable

/-! ### Tables that declare the same names -/

/-- The names that a scope declares. -/
def Scope.knows (s : Scope α) : Bytes → Bool := fun name => s.declares name

theorem Scope.knows_add {s s' : Scope α} (h : s.knows = s'.knows) (name : Bytes) (node node' : α) :
    (s.add name node).knows = (s'.add name node').knows := by
  funext other
  have hother : s.declares other = s'.declares other := congrFun h other
  rw [knows, knows, Bool.eq_iff_iff, declares_add, declares_add, hother]

theorem Scope.knows_add_again {s : Scope α} {name : Bytes} (h : s.declares name = true) (node : α) :
    (s.add name node).knows = s.knows := by
  funext other
  rw [knows, knows, Bool.eq_iff_iff, declares_add, or_iff_right_iff_imp]
  rintro rfl
  exact h

/-- The open scopes of both tables declare the same names, one by one. -/
def ScopeTable.SameNames (t t' : ScopeTable α) : Prop :=
  t.live.map Scope.knows = t'.live.map Scope.knows

namespace ScopeTable

variable {t t' t'' : ScopeTable α}

theorem SameNames.current (h : t.SameNames t') : t.current.knows = t'.current.knows := by
  obtain ⟨rest, hrest⟩ := live_eq t
  obtain ⟨rest', hrest'⟩ := live_eq t'
  rw [SameNames, hrest, hrest'] at h
  exact (List.cons.inj h).1

theorem SameNames.declare (h : t.SameNames t') (name : Bytes) (node node' : α) :
    (t.declare name node).SameNames (t'.declare name node') := by
  rw [SameNames, live_declare, live_declare, List.map_cons, List.map_cons, List.map_tail,
    List.map_tail, show t.live.map Scope.knows = t'.live.map Scope.knows from h,
    Scope.knows_add h.current name node node']

theorem SameNames.declareGlobal (h : t.SameNames t') (name : Bytes) (node node' : α) :
    (t.declareGlobal name node).SameNames (t'.declareGlobal name node') := by
  rw [SameNames, live, live, List.map_append, List.map_append] at h
  obtain ⟨hinner, hroot⟩ := List.append_inj' h rfl
  rw [SameNames, live_declareGlobal, live_declareGlobal, List.map_append, List.map_append, hinner,
    List.map_singleton, List.map_singleton, Scope.knows_add (List.cons.inj hroot).1 name node node']

theorem SameNames.enter (h : t.SameNames t') : t.enter.SameNames t'.enter := by
  rw [SameNames, live_enter, live_enter, List.map_cons, List.map_cons]
  exact congrArg₂ List.cons rfl h

theorem SameNames.leave (h : t.SameNames t') : t.leave.SameNames t'.leave := by
  have hlength : t.live.length = t'.live.length := by
    simpa using congrArg List.length h
  by_cases hroot : t.live.length = 1
  · rw [leave_root hroot, leave_root (hlength.symm.trans hroot)]
    exact h
  · rw [SameNames, live_leave hroot, live_leave (hlength ▸ hroot), List.map_tail, List.map_tail]
    exact congrArg List.tail h

/-- A name that the current scope declares is declared again. -/
theorem SameNames.again {name : Bytes} (h : t.current.declares name = true) (node : α) :
    (t.declare name node).SameNames t := by
  obtain ⟨rest, hrest⟩ := live_eq t
  rw [SameNames, live_declare, hrest, List.map_cons, Scope.knows_add_again h]
  rfl

/-- Names are declared one after another in both tables. -/
theorem SameNames.foldl {β : Type} (h : t.SameNames t') (list : List β) (name : β → Bytes)
    (node : β → α) : (list.foldl (fun t b => t.declare (name b) (node b)) t).SameNames
      (list.foldl (fun t b => t.declare (name b) (node b)) t') := by
  induction list generalizing t t' with
  | nil => exact h
  | cons b rest ih => exact ih (h.declare (name b) _ _)

/-- Names that the current scope declares are declared again, one after another. -/
theorem SameNames.foldl_again {β : Type} {list : List β} {name : β → Bytes}
    (h : ∀ b ∈ list, t.current.declares (name b) = true) (node : β → α) :
    (list.foldl (fun t b => t.declare (name b) (node b)) t).SameNames t := by
  induction list generalizing t with
  | nil => exact rfl
  | cons b rest ih =>
    have hagain := SameNames.again (h b List.mem_cons_self) (node b)
    refine (ih fun c hc => ?_).trans hagain
    exact (congrFun hagain.current (name c)).trans (h c (List.mem_cons_of_mem b hc))

end ScopeTable

end ScriptOptimizer
