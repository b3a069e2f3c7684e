import ScriptOptimizer.Proofs.Scope.History

/-!
Scopes that are entered and left again. What is done between entering a scope and leaving it
changes the scopes around it only by what it declares in the root scope, so that every other name
means afterwards what it meant before.
-/

namespace ScriptOptimizer

variable {α : Type}

namespace Scope

/-- A scope in which several names were declared, one after another. -/
def addAll (list : List (Entry α)) (s : Scope α) : Scope α :=
  list.foldl (fun s e => s.add e.name e.node) s

theorem addAll_append (list more : List (Entry α)) (s : Scope α) :
    s.addAll (list ++ more) = (s.addAll list).addAll more := by
  simp [addAll]

variable {list : List (Entry α)} {name : Bytes}

/-- More declarations leave a scope in its place. -/
theorem ref_addAll (list : List (Entry α)) (k : Nat) (s : Scope α) :
    (s.addAll list).ref k = s.ref k := by
  induction list generalizing s with
  | nil => rfl
  | cons e rest ih => exact ih (s.add e.name e.node)

/-- Declarations of other names do not matter to a name. -/
theorem lookup_addAll (h : ∀ e ∈ list, e.name ≠ name) (s : Scope α) :
    (s.addAll list).lookup name = s.lookup name := by
  induction list generalizing s with
  | nil => rfl
  | cons e rest ih =>
    rw [List.forall_mem_cons] at h
    rw [addAll, List.foldl_cons, ← addAll, ih h.2, lookup_add, if_neg h.1]

end Scope

namespace ScopeTable

/-- Actions in which every scope that is entered is left, and no other is. -/
inductive Balanced : List (Action α) → Prop
  | nil : Balanced []
  | declare (name : Bytes) (node : α) {rest : List (Action α)} :
      Balanced rest → Balanced (.declare name node :: rest)
  | declareGlobal (name : Bytes) (node : α) {rest : List (Action α)} :
      Balanced rest → Balanced (.declareGlobal name node :: rest)
  | nested {inner rest : List (Action α)} :
      Balanced inner → Balanced rest → Balanced (.enter :: inner ++ .leave :: rest)

/-- What the actions declare in the root scope from any scope, in order. -/
def globals (actions : List (Action α)) : List (Entry α) :=
  actions.filterMap fun
    | .declareGlobal name node => some ⟨name, node⟩
    | _ => none

/-- The table after more actions. -/
def runAll (t : ScopeTable α) (actions : List (Action α)) : ScopeTable α :=
  actions.foldl Action.run t

theorem after_append (actions more : List (Action α)) :
    after (actions ++ more) = (after actions).runAll more :=
  List.foldl_append

/-! ### Between entering and leaving -/

/-- Inside a scope balanced actions change only that scope, and the root scope by what they declare
there. -/
theorem Balanced.runAll {actions : List (Action α)} (h : Balanced actions) {t : ScopeTable α}
    {s : Scope α} {outer : List (Scope α)} (ht : t.inner = s :: outer) :
    ∃ s', (t.runAll actions).inner = s' :: outer ∧
      (t.runAll actions).root = t.root.addAll (globals actions) := by
  induction h generalizing t s outer with
  | nil => exact ⟨s, ht, rfl⟩
  | declare name node _ ih =>
    have hDeclare : t.declare name node = { t with inner := s.add name node :: outer } := by
      simp [ScopeTable.declare, ht]
    obtain ⟨s', hInner, hRoot⟩ := ih (t := t.declare name node) (by rw [hDeclare])
    exact ⟨s', hInner, hRoot.trans (by rw [hDeclare]; rfl)⟩
  | declareGlobal name node _ ih => exact ih (t := t.declareGlobal name node) ht
  | @nested within rest _ _ ihInner ihRest =>
    have hEnter : t.enter.inner =
        .new t.next (t.current.id :: t.current.enclosing) (t.current.level + 1) :: s :: outer :=
      congrArg (_ :: ·) ht
    obtain ⟨entered, hInner, hRoot⟩ := ihInner hEnter
    have hLeave : (t.enter.runAll within).leave.inner = s :: outer := by
      simp [ScopeTable.leave, hInner]
    obtain ⟨s', hInner', hRoot'⟩ := ihRest hLeave
    have hRun : t.runAll (Action.enter :: within ++ Action.leave :: rest) =
        ((t.enter.runAll within).leave).runAll rest := by
      simp [ScopeTable.runAll, Action.run]
    have hGlobals : globals (Action.enter :: within ++ Action.leave :: rest) =
        globals within ++ globals rest := by
      simp [globals]
    refine ⟨s', hRun ▸ hInner', ?_⟩
    rw [hRun, hRoot', root_leave, hRoot, hGlobals, Scope.addAll_append]
    rfl

/-- Entering a scope, balanced actions in it and leaving it change the open scopes only by what the
actions declare in the root scope. -/
theorem Balanced.live_left {actions : List (Action α)} (h : Balanced actions) (t : ScopeTable α) :
    (t.runAll (Action.enter :: actions ++ [Action.leave])).live =
      t.inner ++ [t.root.addAll (globals actions)] := by
  obtain ⟨s, hInner, hRoot⟩ := h.runAll (t := t.enter) rfl
  have hRun : t.runAll (Action.enter :: actions ++ [Action.leave]) =
      (t.enter.runAll actions).leave := by
    simp [ScopeTable.runAll, Action.run]
  rw [hRun, live, root_leave, hRoot]
  simp [ScopeTable.leave, hInner]
  rfl

/-- The nearest declaration of a name and the scope that holds it, known by its number and those
around it. -/
def found (k : Nat) (name : Bytes) (t : ScopeTable α) : Option (Entry α × ScopeRef) :=
  (t.resolve name).map fun pair => (pair.1, pair.2.ref k)

theorem find?_eq (k : Nat) (name : Bytes) (t : ScopeTable α) :
    t.find? name = (t.found k name).map (·.1.node) := by
  rw [find?, found, Option.map_map]
  rfl

theorem isGlobal_eq (k : Nat) (name : Bytes) (t : ScopeTable α) :
    t.isGlobal name = (t.found k name).any (·.2.chain.tail.isEmpty) := by
  rw [isGlobal, found]
  cases t.resolve name <;> rfl

/-- Where the open scopes differ only in the declarations of the root scope, and not by a name, the
name means the same. -/
theorem found_of_live {t t' : ScopeTable α} {list : List (Entry α)} {name : Bytes}
    (hLive : t'.live = t.inner ++ [t.root.addAll list]) (h : ∀ e ∈ list, e.name ≠ name) (k : Nat) :
    t'.found k name = t.found k name := by
  rw [found, found, resolve, resolve, hLive, live, List.findSome?_append, List.findSome?_append]
  cases t.inner.findSome? fun scope => (scope.lookup name).map (·, scope) with
  | some pair => rfl
  | none =>
    rw [Option.none_or, Option.none_or, List.findSome?_singleton, List.findSome?_singleton,
      Scope.lookup_addAll h]
    cases t.root.lookup name with
    | none => rfl
    | some e => simp [Scope.ref_addAll]

/-! ### What is declared in the root scope -/

/-- A name that no scope inside the root scope declares means what it means there. -/
theorem resolve_of_inner {t : ScopeTable α} {name : Bytes}
    (h : ∀ s ∈ t.inner, s.declares name = false) :
    t.resolve name = (t.root.lookup name).map (·, t.root) := by
  have hInner : t.inner.findSome? (fun scope => (scope.lookup name).map (·, scope)) = none := by
    refine List.findSome?_eq_none_iff.2 fun s hs => ?_
    have hNone : s.lookup name = none := by
      simpa [h s hs] using s.lookup_isSome name
    rw [hNone, Option.map_none]
  rw [resolve, live, List.findSome?_append, hInner, Option.none_or, List.findSome?_singleton]

theorem found_of_inner {t : ScopeTable α} {name : Bytes}
    (h : ∀ s ∈ t.inner, s.declares name = false) (hRoot : t.root.enclosing = []) :
    t.find? name = (t.root.lookup name).map (·.node) ∧
      t.isGlobal name = t.root.declares name := by
  rw [find?, isGlobal, resolve_of_inner h, ← Scope.lookup_isSome]
  cases t.root.lookup name with
  | none => exact ⟨rfl, rfl⟩
  | some e => exact ⟨rfl, by simp [Scope.isRoot, hRoot]⟩

/-- What the root scope declares it keeps declaring. -/
theorem root_declares_run {t : ScopeTable α} {name : Bytes} (h : t.root.declares name = true)
    (a : Action α) : (a.run t).root.declares name = true := by
  cases a with
  | enter => exact h
  | leave => exact (root_leave t).symm ▸ h
  | declare other node =>
    obtain ⟨root, inner, left, next⟩ := t
    cases inner with
    | nil => exact (Scope.declares_add root other name node).2 (.inr h)
    | cons scope inner => exact h
  | declareGlobal other node => exact (Scope.declares_add t.root other name node).2 (.inr h)

/-- An action that does not declare a name in the current scope declares it in no scope inside the
root scope. -/
theorem inner_run {t : ScopeTable α} {name : Bytes} (h : ∀ s ∈ t.inner, s.declares name = false)
    {a : Action α} (ha : ∀ node, a ≠ .declare name node) :
    ∀ s ∈ (a.run t).inner, s.declares name = false := by
  obtain ⟨root, inner, left, next⟩ := t
  cases a with
  | enter => exact List.forall_mem_cons.2 ⟨rfl, h⟩
  | leave =>
    cases inner with
    | nil => exact h
    | cons scope inner => exact (List.forall_mem_cons.1 h).2
  | declare other node =>
    cases inner with
    | nil => exact h
    | cons scope inner =>
      obtain ⟨hScope, hInner⟩ := List.forall_mem_cons.1 h
      have hOther : other ≠ name := fun hName => ha node (by rw [hName])
      refine List.forall_mem_cons.2 ⟨?_, hInner⟩
      rw [← Bool.not_eq_true, Scope.declares_add, hScope]
      simpa using hOther
  | declareGlobal other node => exact h

/-- While nothing declares a name in the current scope, what the root scope knows under it is the
latest declared there. -/
theorem root_lookup_run {t : ScopeTable α} {name : Bytes} {node : α}
    (h : t.root.lookup name = some ⟨name, node⟩) {a : Action α}
    (ha : ∀ node, a ≠ .declare name node) :
    ∃ node', (a.run t).root.lookup name = some ⟨name, node'⟩ ∧
      (node' = node ∨ a = .declareGlobal name node') := by
  cases a with
  | enter => exact ⟨node, h, .inl rfl⟩
  | leave => exact ⟨node, (root_leave t).symm ▸ h, .inl rfl⟩
  | declare other node' =>
    have hOther : other ≠ name := fun hName => ha node' (by rw [hName])
    refine ⟨node, ?_, .inl rfl⟩
    obtain ⟨root, inner, left, next⟩ := t
    cases inner with
    | nil => exact (Scope.lookup_add root other name node').trans ((if_neg hOther).trans h)
    | cons scope inner => exact h
  | declareGlobal other node' =>
    have hLookup := Scope.lookup_add t.root other name node'
    by_cases hName : other = name
    · subst hName
      exact ⟨node', hLookup.trans (if_pos rfl), .inr rfl⟩
    · exact ⟨node, hLookup.trans ((if_neg hName).trans h), .inl rfl⟩

theorem ne_of_mem_globals {actions : List (Action α)} {name : Bytes}
    (h : ∀ node, .declareGlobal name node ∉ actions) : ∀ e ∈ globals actions, e.name ≠ name := by
  rintro e he rfl
  obtain ⟨a, ha, hEntry⟩ := List.mem_filterMap.1 he
  cases a <;> simp at hEntry
  subst hEntry
  exact h _ ha

/-- Where the open scopes differ only in the declarations of the root scope, so does the current
one. -/
theorem current_of_live {t t' : ScopeTable α} {list : List (Entry α)}
    (hLive : t'.live = t.inner ++ [t.root.addAll list]) :
    t'.current = t.current ∨ t'.current = t.current.addAll list := by
  obtain ⟨rest, hRest⟩ := live_eq t'
  obtain ⟨root, inner, left, next⟩ := t
  rw [hRest] at hLive
  cases inner with
  | nil => exact .inr (List.cons.inj hLive).1
  | cons scope inner => exact .inl (List.cons.inj hLive).1

theorem root_declares_runAll {t : ScopeTable α} {name : Bytes}
    (h : t.root.declares name = true) (more : List (Action α)) :
    (t.runAll more).root.declares name = true := by
  induction more generalizing t with
  | nil => exact h
  | cons a rest ih => exact ih (root_declares_run h a)

theorem inner_runAll {t : ScopeTable α} {name : Bytes}
    (h : ∀ s ∈ t.inner, s.declares name = false) {more : List (Action α)}
    (hMore : ∀ node, .declare name node ∉ more) :
    ∀ s ∈ (t.runAll more).inner, s.declares name = false := by
  induction more generalizing t with
  | nil => exact h
  | cons a rest ih =>
    simp only [List.mem_cons, not_or] at hMore
    exact ih (inner_run h fun node => Ne.symm (hMore node).1) fun node => (hMore node).2

theorem root_lookup_runAll {t : ScopeTable α} {name : Bytes} {node : α}
    (h : t.root.lookup name = some ⟨name, node⟩) {more : List (Action α)}
    (hMore : ∀ node, .declare name node ∉ more) :
    ∃ node', (t.runAll more).root.lookup name = some ⟨name, node'⟩ ∧
      .declareGlobal name node' ∈ .declareGlobal name node :: more := by
  induction more generalizing t node with
  | nil => exact ⟨node, h, List.mem_cons_self⟩
  | cons a rest ih =>
    simp only [List.mem_cons, not_or] at hMore
    obtain ⟨here, hHere, hFrom⟩ := root_lookup_run h fun node => Ne.symm (hMore node).1
    obtain ⟨node', hLookup, hMem⟩ := ih hHere fun node => (hMore node).2
    refine ⟨node', hLookup, ?_⟩
    rcases List.mem_cons.1 hMem with hLast | hLater
    · obtain rfl : node' = here := by simpa using hLast
      rcases hFrom with rfl | rfl <;> simp
    · exact List.mem_cons_of_mem _ (List.mem_cons_of_mem _ hLater)

/-- Whatever was done with a table, entering a scope, balanced actions in it and leaving it again
leave the same scopes open, and but for the names that the actions declare in the root scope every
name is found where it was before, by the same declaration. A name that is declared in the root
scope is known from then on, and as a global one, whenever no open scope inside the root declares
it; if none does when it is declared there, that is as long as the name is not declared in the
scope that is then the current one, and it is known by a node it was declared by in the root. -/
theorem leave_restores (before : List (Action α)) {actions : List (Action α)}
    (h : Balanced actions) :
    let t := after before
    let t' := after (before ++ (.enter :: actions ++ [.leave]))
    (t'.depth = t.depth ∧ (∀ k, t'.current.ref k = t.current.ref k) ∧
      t'.live = t.inner ++ [t.root.addAll (globals actions)] ∧
      ∀ name, (∀ node, .declareGlobal name node ∉ actions) →
        (∀ k, t'.found k name = t.found k name) ∧ t'.find? name = t.find? name ∧
        t'.declaresHere name = t.declaresHere name ∧ t'.isGlobal name = t.isGlobal name) ∧
    ∀ name node more,
      let later := after (before ++ .declareGlobal name node :: more)
      ((∀ s ∈ later.inner, s.declares name = false) →
        (later.find? name).isSome = true ∧ later.isGlobal name = true) ∧
      ((∀ s ∈ t.live, s.declares name = false) → (∀ node', .declare name node' ∉ more) →
        later.isGlobal name = true ∧ ∃ node', later.find? name = some node' ∧
          .declareGlobal name node' ∈ .declareGlobal name node :: more) := by
  intro t t'
  refine ⟨?_, fun name node more => ?_⟩
  case refine_1 =>
    have hLive : t'.live = t.inner ++ [t.root.addAll (globals actions)] := by
      simpa only [t', after_append] using h.live_left t
    have hDepth : t'.depth = t.depth := by
      simpa [live, depth] using congrArg List.length hLive
    have hCurrent := current_of_live hLive
    refine ⟨hDepth, fun k => ?_, hLive, fun name hName => ?_⟩
    · rcases hCurrent with hCurrent | hCurrent
      · rw [hCurrent]
      · rw [hCurrent, Scope.ref_addAll]
    · have hGlobals := ne_of_mem_globals hName
      have hFound := found_of_live hLive hGlobals
      refine ⟨hFound, ?_, ?_, ?_⟩
      · rw [find?_eq 0, find?_eq 0, hFound]
      · rcases hCurrent with hCurrent | hCurrent
        · rw [declaresHere, declaresHere, hCurrent]
        · rw [declaresHere, declaresHere, hCurrent, ← Scope.lookup_isSome,
            Scope.lookup_addAll hGlobals, Scope.lookup_isSome]
      · rw [isGlobal_eq 0, isGlobal_eq 0, hFound]
  case refine_2 =>
    intro later
    have hRoot : later.root.enclosing = [] := (intact_after _).root.2
    have hLater : later = (t.declareGlobal name node).runAll more := after_append _ _
    refine ⟨fun hInner => ?_, fun hLive hMore => ?_⟩
    · obtain ⟨hFind, hGlobal⟩ := found_of_inner hInner hRoot
      have hHere : (t.declareGlobal name node).root.declares name = true :=
        (Scope.declares_add t.root name name node).2 (.inl rfl)
      have hDeclares : later.root.declares name = true :=
        hLater ▸ root_declares_runAll hHere more
      refine ⟨?_, hGlobal.trans hDeclares⟩
      rw [hFind, Option.isSome_map, Scope.lookup_isSome, hDeclares]
    · have hHere : ∀ s ∈ (t.declareGlobal name node).inner, s.declares name = false :=
        fun s hs => hLive s (List.mem_append_left _ hs)
      have hInner : ∀ s ∈ later.inner, s.declares name = false :=
        hLater ▸ inner_runAll hHere hMore
      obtain ⟨hFind, hGlobal⟩ := found_of_inner hInner hRoot
      have hNode : (t.declareGlobal name node).root.lookup name = some ⟨name, node⟩ :=
        (Scope.lookup_add t.root name name node).trans (if_pos rfl)
      obtain ⟨node', hLookup, hMem⟩ := root_lookup_runAll hNode hMore
      rw [← hLater] at hLookup
      refine ⟨?_, node', ?_, hMem⟩
      · rw [hGlobal, ← Scope.lookup_isSome, hLookup]
        rfl
      · rw [hFind, hLookup]
        rfl

/-- In a function that declares `a` and, from inside another one, `b` in the root. -/
theorem leave_restores_nested :
    let inside : List (Action Nat) :=
      [.declare "a" 1, .enter, .declareGlobal "b" 2, .leave]
    Balanced inside ∧
      (after (.declare "a" 0 :: .enter :: inside ++ [.leave])).find? "a" =
        (after [.declare "a" 0]).find? "a" ∧
      (after [.declareGlobal "b" 2, .enter]).isGlobal "b" = true := by
  intro inside
  have hInside : Balanced inside := .declare _ _ (.nested (.declareGlobal _ _ .nil) .nil)
  obtain ⟨⟨-, -, -, hNames⟩, -⟩ := leave_restores [.declare "a" 0] hInside
  obtain ⟨-, hLater⟩ := leave_restores [] (.nil : Balanced ([] : List (Action Nat)))
  refine ⟨hInside, (hNames "a" ?_).2.1, ?_⟩
  · simp [inside]
    decide
  · exact ((hLater "b" 2 [.enter]).2 (by decide) (by simp)).1

end ScopeTable

end ScriptOptimizer
