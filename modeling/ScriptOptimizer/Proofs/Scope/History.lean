import Mathlib.Data.List.Perm.Basic
import ScriptOptimizer.Proofs.Scope.Table

/-!
The history of a table. Whatever is done with a new table, its open scopes stay nested in the root
scope, the scopes are numbered in the order in which they were opened, and each of them, open or
left, knows the latest of what was declared in it under a name.
-/

namespace ScriptOptimizer

variable {α : Type}

/-- An addition to the scopes of a table: the number of the scope and what is declared in it. -/
abbrev Addition (α : Type) := Nat × Entry α

/-- The latest of the additions to the scope with a number under a name. -/
def latest (id : Nat) (name : Bytes) (list : List (Addition α)) : Option (Entry α) :=
  (list.filter fun a => a.1 = id && a.2.name = name).getLast?.map (·.2)

theorem latest_concat (id : Nat) (name : Bytes) (list : List (Addition α)) (a : Addition α) :
    latest id name (list ++ [a]) =
      if a.1 = id ∧ a.2.name = name then some a.2 else latest id name list := by
  rw [latest, List.filter_append]
  split
  case isTrue h => simp [h]
  case isFalse h =>
    have hOther : ([a].filter fun a => a.1 = id && a.2.name = name) = [] := by simpa using h
    rw [hOther, List.append_nil, latest]

theorem latest_eq_none {id : Nat} (name : Bytes) {list : List (Addition α)}
    (h : ∀ a ∈ list, a.1 ≠ id) : latest id name list = none := by
  have hNone : (list.filter fun a => a.1 = id && a.2.name = name) = [] := by
    refine List.filter_eq_nil_iff.2 fun a ha hKept => ?_
    exact h a ha (by simp_all)
  rw [latest, hNone]
  rfl

namespace Scope

/-- The scope after an addition to the scopes of its table. -/
def receive (a : Addition α) (s : Scope α) : Scope α :=
  if s.id = a.1 then s.add a.2.name a.2.node else s

@[simp] theorem receive_id (a : Addition α) (s : Scope α) : (s.receive a).id = s.id := by
  unfold receive
  split <;> rfl

@[simp] theorem receive_enclosing (a : Addition α) (s : Scope α) :
    (s.receive a).enclosing = s.enclosing := by
  unfold receive
  split <;> rfl

@[simp] theorem receive_level (a : Addition α) (s : Scope α) : (s.receive a).level = s.level := by
  unfold receive
  split <;> rfl

theorem lookup_receive (a : Addition α) (s : Scope α) (name : Bytes) :
    (s.receive a).lookup name =
      if a.1 = s.id ∧ a.2.name = name then some a.2 else s.lookup name := by
  unfold receive
  by_cases hId : s.id = a.1
  · simp [hId, lookup_add]
  · simp [hId, Ne.symm hId]

/-- Of scopes with different numbers only one receives an addition. -/
theorem map_receive (front : List (Scope α)) {back : List (Scope α)} {s : Scope α}
    (h : ((front ++ s :: back).map Scope.id).Nodup) (e : Entry α) :
    (front ++ s :: back).map (receive (s.id, e)) = front ++ s.add e.name e.node :: back := by
  rw [List.map_append, List.map_cons, List.perm_middle.nodup_iff, List.nodup_cons,
    List.mem_append] at h
  have hSame (list : List (Scope α)) (hList : s.id ∉ list.map Scope.id) :
      list.map (receive (s.id, e)) = list := by
    refine (List.map_congr_left fun other hOther => ?_).trans (List.map_id list)
    have hId : other.id ≠ s.id := fun hId => hList (hId ▸ List.mem_map_of_mem hOther)
    exact if_neg hId
  rw [List.map_append, List.map_cons, hSame front (h.1 ∘ .inl), hSame back (h.1 ∘ .inr)]
  simp [receive]

end Scope

namespace ScopeTable

/-- What can be done with a table. -/
inductive Action (α : Type) where
  | enter
  | leave
  | declare (name : Bytes) (node : α)
  | declareGlobal (name : Bytes) (node : α)

namespace Action

/-- The table after the action. -/
def run (t : ScopeTable α) : Action α → ScopeTable α
  | enter => t.enter
  | leave => t.leave
  | declare name node => t.declare name node
  | declareGlobal name node => t.declareGlobal name node

/-- What the action adds to a scope of the table. -/
def addition? (t : ScopeTable α) : Action α → Option (Addition α)
  | declare name node => some (t.current.id, ⟨name, node⟩)
  | declareGlobal name node => some (t.root.id, ⟨name, node⟩)
  | enter | leave => none

/-- Does the action open a scope? -/
def opens : Action α → Bool
  | enter => true
  | _ => false

end Action

/-- The table after some actions on a new one. -/
def after (actions : List (Action α)) : ScopeTable α := actions.foldl Action.run empty

/-- What the actions on a table add to its scopes, in order. -/
def additionsFrom (t : ScopeTable α) : List (Action α) → List (Addition α)
  | [] => []
  | a :: rest => (a.addition? t).toList ++ additionsFrom (a.run t) rest

/-- What the actions on a new table add to its scopes, in order. -/
def additions (actions : List (Action α)) : List (Addition α) := additionsFrom empty actions

theorem after_concat (actions : List (Action α)) (a : Action α) :
    after (actions ++ [a]) = a.run (after actions) := by
  simp [after]

theorem additions_concat (actions : List (Action α)) (a : Action α) :
    additions (actions ++ [a]) = additions actions ++ (a.addition? (after actions)).toList := by
  have hFrom (t : ScopeTable α) : additionsFrom t (actions ++ [a]) =
      additionsFrom t actions ++ (a.addition? (actions.foldl Action.run t)).toList := by
    induction actions generalizing t with
    | nil => simp [additionsFrom]
    | cons first rest ih => simp [additionsFrom, ih, List.append_assoc]
  exact hFrom empty

/-- The open scopes from the root on. -/
def stack (t : ScopeTable α) : List (Scope α) := t.live.reverse

/-- All scopes that were ever opened. -/
def scopes (t : ScopeTable α) : List (Scope α) := t.live ++ t.left

/-- The scope is the root scope, or it stands directly in another scope, which was opened before. -/
def Placed (t : ScopeTable α) (s : Scope α) : Prop :=
  s.id = 0 ∧ s.enclosing = [] ∨
    ∃ parent ∈ t.scopes, s.enclosing = parent.id :: parent.enclosing ∧ parent.id < s.id

/-- What holds of a table after some actions that opened `opened` scopes and left additions. -/
structure Intact (opened : Nat) (added : List (Addition α)) (t : ScopeTable α) : Prop where
  stacked : ∃ ids, t.Stacked (ids ++ [0])
  next : t.next = opened + 1
  numbers : (t.scopes.map Scope.id).Perm (List.range t.next)
  placed : ∀ s ∈ t.scopes, t.Placed s
  level : ∀ s ∈ t.scopes, s.level = s.enclosing.length
  known : ∀ s ∈ t.scopes, ∀ name, s.lookup name = latest s.id name added
  added_lt : ∀ a ∈ added, a.1 < t.next

variable {opened : Nat} {added : List (Addition α)} {t t' : ScopeTable α}

theorem current_mem (t : ScopeTable α) : t.current ∈ t.scopes := by
  obtain ⟨rest, hLive⟩ := live_eq t
  simp [scopes, hLive]

theorem root_mem (t : ScopeTable α) : t.root ∈ t.scopes := by simp [scopes, live]

theorem Intact.lt_next (h : t.Intact opened added) {s : Scope α} (hs : s ∈ t.scopes) :
    s.id < t.next :=
  List.mem_range.1 (h.numbers.mem_iff.1 (List.mem_map_of_mem hs))

theorem Intact.empty : Intact 0 [] (.empty : ScopeTable α) where
  stacked := ⟨[], rfl⟩
  next := rfl
  numbers := .refl _
  placed := by simp [scopes, live, ScopeTable.empty, Scope.new, Placed]
  level := by simp [scopes, live, ScopeTable.empty, Scope.new]
  known := by simp [scopes, live, ScopeTable.empty, Scope.new, Scope.lookup, latest]
  added_lt := by simp

/-- One of the scopes receives an addition. -/
theorem Intact.receive (h : t.Intact opened added) {a : Addition α}
    (hScope : ∃ s ∈ t.scopes, s.id = a.1) (hAlike : t.Alike t')
    (hScopes : t'.scopes = t.scopes.map (Scope.receive a)) :
    t'.Intact opened (added ++ [a]) where
  stacked := h.stacked.imp fun _ => hAlike.stacked
  next := hAlike.next ▸ h.next
  numbers := by
    rw [hScopes, List.map_map, ← hAlike.next]
    refine .trans (.of_eq (List.map_congr_left fun s _ => ?_)) h.numbers
    exact s.receive_id a
  placed := by
    simp only [hScopes, List.forall_mem_map]
    intro s hs
    refine (h.placed s hs).imp (by simp) ?_
    rintro ⟨parent, hParent, hEnclosing, hLt⟩
    exact ⟨parent.receive a, hScopes ▸ List.mem_map_of_mem hParent, by simp [hEnclosing], by simpa⟩
  level := by
    simp only [hScopes, List.forall_mem_map]
    intro s hs
    simpa using h.level s hs
  known := by
    simp only [hScopes, List.forall_mem_map]
    intro s hs name
    rw [Scope.lookup_receive, latest_concat, Scope.receive_id, h.known s hs]
  added_lt := by
    obtain ⟨s, hs, hId⟩ := hScope
    have hLt := h.lt_next hs
    intro b hb
    rw [List.mem_append, List.mem_singleton] at hb
    rw [← hAlike.next]
    rcases hb with hb | rfl
    · exact h.added_lt b hb
    · omega

theorem Intact.declare (h : t.Intact opened added) (name : Bytes) (node : α) :
    (t.declare name node).Intact opened (added ++ [(t.current.id, ⟨name, node⟩)]) := by
  refine h.receive ⟨t.current, current_mem t, rfl⟩ (.declare t name node) ?_
  have hNodup : (t.scopes.map Scope.id).Nodup := h.numbers.nodup_iff.2 List.nodup_range
  obtain ⟨rest, hLive⟩ := live_eq t
  rw [scopes, hLive, List.cons_append] at hNodup
  have hLeft : (t.declare name node).left = t.left := by
    obtain ⟨root, inner, left, next⟩ := t
    cases inner <;> rfl
  rw [scopes, scopes, live_declare, hLive, hLeft]
  exact (Scope.map_receive (s := t.current) [] hNodup ⟨name, node⟩).symm

theorem Intact.declareGlobal (h : t.Intact opened added) (name : Bytes) (node : α) :
    (t.declareGlobal name node).Intact opened (added ++ [(t.root.id, ⟨name, node⟩)]) := by
  refine h.receive ⟨t.root, root_mem t, rfl⟩ (.declareGlobal t name node) ?_
  have hNodup : (t.scopes.map Scope.id).Nodup := h.numbers.nodup_iff.2 List.nodup_range
  rw [scopes, live, List.append_assoc] at hNodup
  rw [scopes, scopes, live_declareGlobal, live, List.append_assoc, List.append_assoc]
  exact (Scope.map_receive t.inner hNodup ⟨name, node⟩).symm

/-- The scope that is entered stands in the current one and has received nothing. -/
theorem Intact.enter (h : t.Intact opened added) : t.enter.Intact (opened + 1) added := by
  have hScopes : t.enter.scopes =
      .new t.next (t.current.id :: t.current.enclosing) (t.current.level + 1) :: t.scopes := rfl
  obtain ⟨ids, hIds⟩ := h.stacked
  refine ⟨⟨t.next :: ids, hIds.enter⟩, congrArg (· + 1) h.next, ?_, ?_, ?_, ?_, ?_⟩
  case refine_1 =>
    rw [hScopes, List.map_cons, show t.enter.next = t.next + 1 from rfl, List.range_succ]
    exact (h.numbers.cons t.next).trans (List.perm_append_singleton t.next _).symm
  case refine_2 =>
    rw [hScopes, List.forall_mem_cons]
    refine ⟨.inr ⟨t.current, ?_, rfl, h.lt_next (current_mem t)⟩, fun s hs => ?_⟩
    · exact hScopes ▸ List.mem_cons_of_mem _ (current_mem t)
    · refine (h.placed s hs).imp_right ?_
      rintro ⟨parent, hParent, hIn⟩
      exact ⟨parent, hScopes ▸ List.mem_cons_of_mem _ hParent, hIn⟩
  case refine_3 =>
    rw [hScopes, List.forall_mem_cons]
    exact ⟨congrArg (· + 1) (h.level t.current (current_mem t)), h.level⟩
  case refine_4 =>
    rw [hScopes, List.forall_mem_cons]
    refine ⟨fun name => ?_, h.known⟩
    exact (latest_eq_none name fun a ha => (h.added_lt a ha).ne).symm
  case refine_5 => exact fun a ha => Nat.lt_succ_of_lt (h.added_lt a ha)

theorem scopes_leave (t : ScopeTable α) : t.leave.scopes.Perm t.scopes := by
  obtain ⟨root, inner, left, next⟩ := t
  cases inner with
  | nil => exact .refl _
  | cons scope inner =>
    change ((inner ++ [root]) ++ scope :: left).Perm (scope :: (inner ++ [root]) ++ left)
    exact List.perm_middle

theorem Intact.leave (h : t.Intact opened added) : t.leave.Intact opened added := by
  have hMem {s : Scope α} : s ∈ t.leave.scopes ↔ s ∈ t.scopes := (scopes_leave t).mem_iff
  have hNext : t.leave.next = t.next := next_leave t
  refine ⟨?_, hNext.trans h.next, ?_, ?_, ?_, ?_, ?_⟩
  case refine_1 =>
    obtain ⟨ids, hIds⟩ := h.stacked
    cases ids with
    | nil =>
      have hLength : t.live.length = 1 := by simpa using congrArg List.length hIds
      exact ⟨[], by rwa [leave_root hLength]⟩
    | cons id ids => exact ⟨ids, hIds.leave (by simp)⟩
  case refine_2 => exact hNext ▸ ((scopes_leave t).map Scope.id).trans h.numbers
  case refine_3 =>
    intro s hs
    refine (h.placed s (hMem.1 hs)).imp_right ?_
    rintro ⟨parent, hParent, hIn⟩
    exact ⟨parent, hMem.2 hParent, hIn⟩
  case refine_4 => exact fun s hs => h.level s (hMem.1 hs)
  case refine_5 => exact fun s hs => h.known s (hMem.1 hs)
  case refine_6 => exact fun a ha => hNext ▸ h.added_lt a ha

/-- What one action does to a table. -/
theorem Intact.run (h : t.Intact opened added) (a : Action α) :
    (a.run t).Intact (opened + if a.opens then 1 else 0) (added ++ (a.addition? t).toList) := by
  cases a with
  | enter => exact (List.append_nil added).symm ▸ h.enter
  | leave => exact (List.append_nil added).symm ▸ h.leave
  | declare name node => exact h.declare name node
  | declareGlobal name node => exact h.declareGlobal name node

/-- What any actions do to a new table. -/
theorem intact_after (actions : List (Action α)) :
    (after actions).Intact (actions.countP Action.opens) (additions actions) := by
  induction actions using List.reverseRecOn with
  | nil => exact .empty
  | append_singleton actions a ih =>
    rw [after_concat, additions_concat, List.countP_append, List.countP_singleton]
    exact ih.run a

/-- What an open scope and those around it are numbered, from the root scope on. -/
theorem Stacked.stack {ids : List Nat} (h : t.Stacked ids) {i : Nat} (hi : i < t.stack.length) :
    t.stack[i].id :: t.stack[i].enclosing = ids.drop (ids.length - 1 - i) := by
  have hLength : t.live.length = ids.length := by simpa using congrArg List.length h
  have hLt : i < t.live.length := by simpa [ScopeTable.stack] using hi
  have hAt : t.live.length - 1 - i < t.live.length := by omega
  have hIds : t.live.length - 1 - i < ids.tails.dropLast.length := by simpa [hLength] using hAt
  have hChain := congrArg (·[t.live.length - 1 - i]?) h
  rw [List.getElem?_map, List.getElem?_eq_getElem hAt, List.getElem?_eq_getElem hIds] at hChain
  simpa [ScopeTable.stack, hLength] using hChain

theorem Intact.root (h : t.Intact opened added) : t.root.id = 0 ∧ t.root.enclosing = [] := by
  obtain ⟨ids, hIds⟩ := h.stacked
  have hStack : t.stack = t.root :: t.inner.reverse := by simp [ScopeTable.stack, live]
  have hRoot : t.root.id :: t.root.enclosing = [0] := by
    simpa [hStack] using hIds.stack (i := 0) (by simp [hStack])
  exact List.cons.inj hRoot

/-- An open scope stands directly in the one before it. -/
theorem Intact.stack_enclosing (h : t.Intact opened added) {i : Nat} (hi : i + 1 < t.stack.length) :
    t.stack[i + 1].enclosing = t.stack[i].id :: t.stack[i].enclosing := by
  obtain ⟨ids, hIds⟩ := h.stacked
  have hLength : t.stack.length = ids.length + 1 := by
    simpa [ScopeTable.stack] using congrArg List.length hIds
  have hDrop : ids.length - i = ids.length - (i + 1) + 1 := by omega
  have hInner := congrArg List.tail (hIds.stack hi)
  have hOuter := hIds.stack (Nat.lt_of_succ_lt hi)
  simp only [List.length_append, List.length_singleton, Nat.add_sub_cancel] at hInner hOuter
  rw [hOuter, hDrop, ← List.tail_drop]
  exact hInner

theorem Intact.stack_level (h : t.Intact opened added) {i : Nat} (hi : i < t.stack.length) :
    t.stack[i].level = i := by
  obtain ⟨ids, hIds⟩ := h.stacked
  have hLength : t.stack.length = ids.length + 1 := by
    simpa [ScopeTable.stack] using congrArg List.length hIds
  have hMem : t.stack[i] ∈ t.scopes :=
    List.mem_append_left _ (List.mem_reverse.1 (List.getElem_mem hi))
  have hChain := congrArg List.length (hIds.stack hi)
  rw [h.level _ hMem]
  simp only [List.length_cons, List.length_drop, List.length_append, List.length_nil] at hChain
  omega

/-- After any actions on a new table the open scopes start with the root scope, which has the number
0 and stands in no scope, and each of them stands directly in the one before it, at the distance
that its place among them says. The scopes that were ever opened are numbered in turn from 0 on, the
next one will get the next number, and each but the root scope stands in one with a smaller number.
Each of them knows under a name the latest of what was declared in it under that name, and knows
nothing exactly where there is none. -/
theorem history (actions : List (Action α)) :
    (∃ inner, (after actions).stack = (after actions).root :: inner) ∧
    (after actions).root.id = 0 ∧ (after actions).root.enclosing = [] ∧
    (∀ i (hi : i + 1 < (after actions).stack.length), (after actions).stack[i + 1].enclosing =
      (after actions).stack[i].id :: (after actions).stack[i].enclosing) ∧
    (∀ i (hi : i < (after actions).stack.length), (after actions).stack[i].level = i) ∧
    ((after actions).scopes.map Scope.id).Perm (List.range (actions.countP Action.opens + 1)) ∧
    (after actions).enter.current.id = actions.countP Action.opens + 1 ∧
    (∀ s ∈ (after actions).scopes, s.id ≠ 0 → ∃ parent ∈ (after actions).scopes,
      s.enclosing = parent.id :: parent.enclosing ∧ parent.id < s.id) ∧
    (∀ s ∈ (after actions).scopes, ∀ name,
      s.lookup name = latest s.id name (additions actions) ∧
      (s.lookup name = none ↔ ∀ a ∈ additions actions, a.1 = s.id → a.2.name ≠ name)) := by
  have hIntact := intact_after actions
  refine ⟨⟨(after actions).inner.reverse, by simp [stack, live]⟩, hIntact.root.1, hIntact.root.2,
    fun i hi => hIntact.stack_enclosing hi, fun i hi => hIntact.stack_level hi,
    hIntact.next ▸ hIntact.numbers, hIntact.next, fun s hs hId => ?_, fun s hs name => ?_⟩
  · exact (hIntact.placed s hs).resolve_left fun hRoot => hId hRoot.1
  · have hLookup := hIntact.known s hs name
    exact ⟨hLookup, by simp [hLookup, latest]⟩

end ScopeTable

end ScriptOptimizer
