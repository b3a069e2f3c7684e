import Mathlib.Data.List.Induction
import ScriptOptimizer.Walk.Basic

/-!
The order of a walk. The handlers an event is for come out of the registry in the order of their
registration, and while no handler replaces a node a visit is a fixed list of steps: arrive at the
node, announce it, go through its children, announce it again, depart.
-/

namespace ScriptOptimizer

variable {σ : Type}

/-- Is the event for the subscription? -/
def Subscription.concerns (s : Subscription σ) (e : Event) : Bool :=
  s.phase = e.phase && (s.type = none || s.type = some e.node.type)

namespace Registry

theorem merge_concat_left {xs ys : List (Registered σ)} {x : Registered σ}
    (hlt : ∀ y ∈ ys, y.number < x.number) :
    (xs ++ [x]).merge ys (fun a b => a.number < b.number) =
      xs.merge ys (fun a b => a.number < b.number) ++ [x] := by
  induction xs generalizing ys with
  | nil =>
    induction ys with
    | nil => simp
    | cons y ys ih =>
      have hy : ¬x.number < y.number := by
        have := hlt y (by simp)
        omega
      have := ih fun z hz => hlt z (by simp [hz])
      simp_all
  | cons z zs ih =>
    induction ys with
    | nil => simp
    | cons y ys ihy =>
      by_cases hz : z.number < y.number
      · simp [hz, ih hlt]
      · have := ihy fun w hw => hlt w (by simp [hw])
        simp_all

theorem merge_concat_right {xs ys : List (Registered σ)} {y : Registered σ}
    (hlt : ∀ x ∈ xs, x.number < y.number) :
    xs.merge (ys ++ [y]) (fun a b => a.number < b.number) =
      xs.merge ys (fun a b => a.number < b.number) ++ [y] := by
  induction xs generalizing ys with
  | nil => simp
  | cons x xs ih =>
    have hx : x.number < y.number := hlt x (by simp)
    have ih : ∀ {ys : List (Registered σ)}, _ := @fun ys => @ih ys fun z hz => hlt z (by simp [hz])
    induction ys with
    | nil => simpa [List.cons_merge_cons, hx] using @ih []
    | cons z ys ihy =>
      by_cases hz : x.number < z.number
      · simpa [List.cons_merge_cons, hz] using @ih (z :: ys)
      · simp_all

/-- Every handler was registered under a number before the next one. -/
def Numbered (r : Registry σ) : Prop :=
  ∀ type phase, ∀ h ∈ r.handlers type phase, h.number < r.next

theorem Numbered.empty : (empty : Registry σ).Numbered := by
  intro type phase h hmem
  cases hmem

theorem Numbered.on {r : Registry σ} (hr : r.Numbered) (s : Subscription σ) :
    (r.on s).Numbered := by
  intro type phase h hmem
  simp only [Registry.on] at hmem ⊢
  split at hmem
  · rcases List.mem_append.1 hmem with hmem | hmem
    · have := hr type phase h hmem
      omega
    · rw [List.mem_singleton.1 hmem]
      simp
  · have := hr type phase h hmem
    omega

/-- One more handler comes last at the events that it is for. -/
theorem due_on {r : Registry σ} (hr : r.Numbered) (s : Subscription σ) (e : Event) :
    (r.on s).due e = r.due e ++ if s.concerns e then [⟨r.next, s.handle⟩] else [] := by
  obtain ⟨type, phase, handle⟩ := s
  by_cases hphase : phase = e.phase
  · subst hphase
    cases type with
    | none => simp [due, Registry.on, Subscription.concerns,
        merge_concat_right (y := ⟨r.next, handle⟩) (hr (some e.node.type) e.phase)]
    | some type =>
      by_cases htype : type = e.node.type
      · subst htype
        simp [due, Registry.on, Subscription.concerns,
          merge_concat_left (x := ⟨r.next, handle⟩) (hr none e.phase)]
      · have hne : ¬e.node.type = type := fun h => htype h.symm
        simp [due, Registry.on, Subscription.concerns, htype, hne]
  · have hne : ¬e.phase = phase := fun h => hphase h.symm
    simp [due, Registry.on, Subscription.concerns, hphase, hne]

theorem ofList_concat (subs : List (Subscription σ)) (s : Subscription σ) :
    ofList (subs ++ [s]) = (ofList subs).on s := by simp [ofList]

theorem numbered_ofList (subs : List (Subscription σ)) :
    (ofList subs).Numbered ∧ (ofList subs).next = subs.length := by
  induction subs using List.reverseRecOn with
  | nil => exact ⟨Numbered.empty, rfl⟩
  | append_singleton subs s ih =>
    rw [ofList_concat]
    exact ⟨ih.1.on s, by simp [Registry.on, ih.2]⟩

/-- An event is for the subscriptions it concerns, in the order of their registration. -/
theorem due_ofList (subs : List (Subscription σ)) (e : Event) :
    (ofList subs).due e =
      (subs.zipIdx.filter (·.1.concerns e)).map fun (s, number) => ⟨number, s.handle⟩ := by
  induction subs using List.reverseRecOn with
  | nil => simp [ofList, empty, due]
  | append_singleton subs s ih =>
    obtain ⟨hnumbered, hnext⟩ := numbered_ofList subs
    rw [ofList_concat, due_on hnumbered, ih, hnext, List.zipIdx_append]
    by_cases hs : s.concerns e <;> simp [List.zipIdx, List.filter, hs]

end Registry

/-- What holds of a node when it holds of its children holds of every node. -/
theorem Node.childInduction {motive : Node → Prop}
    (step : ∀ n, (∀ c ∈ n.children, motive c.node) → motive n) (n : Node) : motive n :=
  step n fun c h =>
    have := Node.sizeOf_child_lt h
    Node.childInduction step c.node
termination_by sizeOf n

namespace Node

theorem map_visits (n : Node) : ∀ depth inSlot,
    (n.visits depth inSlot).map (·.node) =
      n :: n.children.flatMap fun c => (c.node.visits (depth + 1) c.inSlot).map (·.node) := by
  intro depth inSlot
  rw [visits, List.flatMap_subtype fun _ _ => rfl, List.unattach_attach, List.map_cons,
    List.map_flatMap]

theorem map_visits_eq_preorder (n : Node) : ∀ depth inSlot,
    (n.visits depth inSlot).map (·.node) = n.preorder := by
  induction n using childInduction with
  | step n ih =>
    intro depth inSlot
    rw [preorder, map_visits, map_visits]
    refine congrArg (n :: ·) ?_
    rw [List.flatMap_def, List.flatMap_def]
    refine congrArg List.flatten (List.map_congr_left fun c hc => ?_)
    rw [ih c hc, ih c hc]

/-- A node comes before what is below it, and its children come in order. -/
theorem preorder_eq (n : Node) :
    n.preorder = n :: n.children.flatMap fun c => c.node.preorder := by
  rw [preorder, map_visits]
  simp only [map_visits_eq_preorder]

theorem self_mem_preorder (n : Node) : n ∈ n.preorder := by
  rw [preorder_eq]
  exact List.mem_cons_self

/-- Does the node own a scope that a walk opens? -/
def opensScope : Node → Bool
  | .stmt (.function _ _) | .expr (.function _ _) => true
  | _ => false

/-- The announcements of a node and of everything below it: the node before its children and again
after them, the children in order. -/
def events (place : Path) (inSlot : Bool) (parent : Option Node) (n : Node) : List Event :=
  ⟨.enter, n, place, inSlot, parent⟩ ::
    (n.children.zipIdx.attach.flatMap fun ⟨(c, i), h⟩ =>
      have := Node.sizeOf_child_lt (List.fst_mem_of_mem_zipIdx h)
      c.node.events (i :: place) c.inSlot (some n)) ++
    [⟨.leave, n, place, inSlot, parent⟩]
termination_by sizeOf n

end Node

/-- A step of a walk. -/
inductive Step where
  | arrive (n : Node)
  | announce (e : Event)
  | depart (n : Node)

/-- The steps of a walk from a node on. -/
def Node.steps (place : Path) (inSlot : Bool) (parent : Option Node) (n : Node) : List Step :=
  .arrive n :: .announce ⟨.enter, n, place, inSlot, parent⟩ ::
    (n.children.zipIdx.attach.flatMap fun ⟨(c, i), h⟩ =>
      have := Node.sizeOf_child_lt (List.fst_mem_of_mem_zipIdx h)
      c.node.steps (i :: place) c.inSlot (some n)) ++
    [.announce ⟨.leave, n, place, inSlot, parent⟩, .depart n]
termination_by sizeOf n

/-- What a step announces. -/
def Step.event? : Step → Option Event
  | .announce e => some e
  | .arrive _ | .depart _ => none

/-- Takes a step. -/
def Step.run (r : Registry σ) : Step → Walk σ Unit
  | .arrive n => do
    modify fun s => { s with nodes := s.nodes + 1 }
    let _ ← Walk.enterScope n
  | .announce e => Walk.dispatch r e
  | .depart n => if n.opensScope then Walk.modifySymbols (·.leave) else pure ()

namespace Node

variable {place : Path} {inSlot : Bool} {parent : Option Node}

theorem events_eq (n : Node) : n.events place inSlot parent =
    ⟨.enter, n, place, inSlot, parent⟩ ::
      (n.children.zipIdx.flatMap fun c => c.1.node.events (c.2 :: place) c.1.inSlot (some n)) ++
      [⟨.leave, n, place, inSlot, parent⟩] := by
  rw [events, List.flatMap_subtype fun _ _ => rfl, List.unattach_attach]

theorem steps_eq (n : Node) : n.steps place inSlot parent =
    Step.arrive n :: .announce ⟨.enter, n, place, inSlot, parent⟩ ::
      (n.children.zipIdx.flatMap fun c => c.1.node.steps (c.2 :: place) c.1.inSlot (some n)) ++
      [Step.announce ⟨.leave, n, place, inSlot, parent⟩, .depart n] := by
  rw [steps, List.flatMap_subtype fun _ _ => rfl, List.unattach_attach]

/-- The steps of a walk announce its events. -/
theorem filterMap_steps (n : Node) : ∀ place inSlot parent,
    (n.steps place inSlot parent).filterMap Step.event? = n.events place inSlot parent := by
  induction n using childInduction with
  | step n ih =>
    intro place inSlot parent
    rw [steps_eq, events_eq]
    simp only [List.cons_append, List.filterMap_cons, List.filterMap_append, Step.event?,
      List.filterMap_nil, List.filterMap_flatMap, List.cons.injEq, List.append_cancel_right_eq,
      true_and]
    rw [List.flatMap_def, List.flatMap_def]
    refine congrArg List.flatten (List.map_congr_left fun c hc => ?_)
    exact ih c.1 (List.fst_mem_of_mem_zipIdx hc) _ _ _

theorem mem_events_of_announce {n : Node} {e : Event}
    (h : .announce e ∈ n.steps place inSlot parent) : e ∈ n.events place inSlot parent := by
  rw [← filterMap_steps]
  exact List.mem_filterMap.2 ⟨_, h, rfl⟩

theorem dropLast_events (n : Node) : (n.events place inSlot parent).dropLast =
    ⟨.enter, n, place, inSlot, parent⟩ ::
      n.children.zipIdx.flatMap fun c => c.1.node.events (c.2 :: place) c.1.inSlot (some n) := by
  rw [events_eq, List.dropLast_concat]

theorem mem_dropLast_events {n : Node} {c : Child × Nat} {e : Event}
    (hc : c ∈ n.children.zipIdx) (he : e ∈ c.1.node.events (c.2 :: place) c.1.inSlot (some n)) :
    e ∈ (n.events place inSlot parent).dropLast := by
  rw [dropLast_events]
  exact List.mem_cons_of_mem _ (List.mem_flatMap.2 ⟨c, hc, he⟩)

theorem children_of_isName {n : Node} (h : Walk.isName n = true) : n.children = [] := by
  unfold Walk.isName at h
  split at h
  · rfl
  · cases h

end Node

namespace Walk

/-- The step puts no name into a slot. -/
def KeepsNames {α : Type} (m : Walk σ α) : Prop :=
  ∀ s, match m s with
    | .ok _ t => t.edits.names = s.edits.names
    | .error _ _ => True

namespace KeepsNames

variable {α β : Type}

theorem pure (a : α) : KeepsNames (pure a : Walk σ α) := fun _ => rfl

theorem bind {m : Walk σ α} {k : α → Walk σ β} (hm : KeepsNames m) (hk : ∀ a, KeepsNames (k a)) :
    KeepsNames (m >>= k) := by
  intro s
  have hm := hm s
  simp only [Bind.bind, EStateM.bind]
  cases hrun : m s with
  | error f t => trivial
  | ok a t =>
    rw [hrun] at hm
    have hk := hk a t
    cases hnext : k a t with
    | error f u => simp [hnext]
    | ok b u =>
      rw [hnext] at hk
      simp only [hnext]
      exact hk.trans hm

theorem modify {f : WalkState σ → WalkState σ} (hf : ∀ s, (f s).edits.names = s.edits.names) :
    KeepsNames (modify f) := hf

theorem forM {list : List α} {f : α → Walk σ Unit} (hf : ∀ a ∈ list, KeepsNames (f a)) :
    KeepsNames (list.forM f) := by
  induction list with
  | nil => exact pure ()
  | cons a rest ih =>
    exact bind (hf a (by simp)) fun _ => ih fun b hb => hf b (by simp [hb])

end KeepsNames

/-- What arriving at a node does to the table of scopes. -/
def arriveAt (n : Node) (symbols : ScopeTable Node) : ScopeTable Node :=
  let declareAll (names : List Ident) (t : ScopeTable Node) : ScopeTable Node :=
    names.foldl (fun t id => t.declare id.name (.expr (.ident id))) t
  let own (fn : Function) (t : ScopeTable Node) : ScopeTable Node :=
    fn.id.toList.foldl (fun t id => t.declare id.name n) t
  match n with
  | .stmt (.function _ fn) => declareAll fn.paramNames (own fn symbols).enter
  | .expr (.function _ fn) => declareAll fn.paramNames (own fn symbols.enter)
  | .handler (.clause _ param _) => declareAll param.boundNames symbols
  | _ => symbols

theorem declareAll_run (names : List Ident) (s : WalkState σ) :
    declareAll names s = .ok () { s with
      symbols := names.foldl (fun t id => t.declare id.name (.expr (.ident id))) s.symbols } := by
  induction names generalizing s with
  | nil => rfl
  | cons id rest ih => exact ih _

theorem enterFunction_run (n : Node) (fn : Function) (isDeclaration : Bool) (s : WalkState σ) :
    enterFunction n fn isDeclaration s =
      declareAll fn.paramNames { s with
        symbols :=
          if isDeclaration then
            (fn.id.toList.foldl (fun t id => t.declare id.name n) s.symbols).enter
          else fn.id.toList.foldl (fun t id => t.declare id.name n) s.symbols.enter
        functions := s.functions + 1 } := by
  obtain ⟨id, params, defaults, rest, body, generator⟩ := fn
  cases isDeclaration <;> cases id <;> rfl

/-- Entering a scope only counts the function and changes the table of scopes. -/
theorem enterScope_run (n : Node) (s : WalkState σ) :
    enterScope n s = .ok n.opensScope { s with
      symbols := arriveAt n s.symbols
      functions := s.functions + if n.opensScope then 1 else 0 } := by
  have hFunction (fn : Function) (isDeclaration : Bool) :
      (enterFunction n fn isDeclaration >>= fun _ => pure true) s = .ok true
        { s with
          symbols := fn.paramNames.foldl (fun t id => t.declare id.name (.expr (.ident id)))
            (if isDeclaration then
              (fn.id.toList.foldl (fun t id => t.declare id.name n) s.symbols).enter
            else fn.id.toList.foldl (fun t id => t.declare id.name n) s.symbols.enter)
          functions := s.functions + 1 } := by
    simp only [bind, EStateM.bind, enterFunction_run, declareAll_run]
    rfl
  cases n with
  | stmt x =>
    cases x with
    | function span fn => exact hFunction fn true
    | _ => rfl
  | expr x =>
    cases x with
    | function span fn => exact hFunction fn false
    | _ => rfl
  | handler h =>
    cases h with
    | absent => rfl
    | clause span param body =>
      simp only [enterScope, bind, EStateM.bind, declareAll_run]
      rfl
  | _ => rfl

/-- No handler that the event is for puts a name into a slot. -/
def QuietAt (r : Registry σ) (e : Event) : Prop := ∀ h ∈ r.due e, KeepsNames (h.handle e)

theorem KeepsNames.dispatch {r : Registry σ} {e : Event} (h : QuietAt r e) :
    KeepsNames (dispatch r e) := by
  refine KeepsNames.forM fun entry hmem s => ?_
  have hkeeps := h entry hmem s
  simp only [tryCatch, tryCatchThe, MonadExceptOf.tryCatch, EStateM.tryCatch]
  cases hrun : entry.handle e s with
  | error f t => trivial
  | ok a t => rwa [hrun] at hkeeps

theorem run_arrive (r : Registry σ) (n : Node) (s : WalkState σ) :
    (Step.arrive n).run r s = .ok () { s with
      symbols := arriveAt n s.symbols
      nodes := s.nodes + 1
      functions := s.functions + if n.opensScope then 1 else 0 } := by
  have h : (modify fun s => { s with nodes := s.nodes + 1 } : Walk σ Unit) s =
      .ok () { s with nodes := s.nodes + 1 } := rfl
  simp only [Step.run, bind, EStateM.bind, h, enterScope_run]
  rfl

theorem run_depart (r : Registry σ) (n : Node) (s : WalkState σ) :
    (Step.depart n).run r s = .ok () { s with
      symbols := if n.opensScope then s.symbols.leave else s.symbols } := by
  simp only [Step.run]
  split <;> rfl

theorem KeepsNames.step {r : Registry σ} {x : Step} (h : ∀ e, x = .announce e → QuietAt r e) :
    KeepsNames (x.run r) := by
  intro s
  cases x with
  | arrive n => rw [run_arrive]
  | announce e => exact KeepsNames.dispatch (h e rfl) s
  | depart n => rw [run_depart]

theorem KeepsNames.steps {r : Registry σ} {n : Node} {place : Path} {inSlot : Bool}
    {parent : Option Node} (h : ∀ e ∈ n.events place inSlot parent, QuietAt r e) :
    KeepsNames ((n.steps place inSlot parent).forM (Step.run r)) :=
  KeepsNames.forM fun _ hx => KeepsNames.step fun e he =>
    h e (Node.mem_events_of_announce (he ▸ hx))

theorem modify_run (f : WalkState σ → WalkState σ) (s : WalkState σ) :
    (modify f : Walk σ Unit) s = .ok () (f s) := rfl

theorem get_run (s : WalkState σ) : (get : Walk σ (WalkState σ)) s = .ok s s := rfl

theorem bind_ok {α β : Type} {m : Walk σ α} {k : α → Walk σ β} {s t : WalkState σ} {a : α}
    (h : m s = .ok a t) : (m >>= k) s = k a t := by
  simp only [bind, EStateM.bind, h]

theorem forM_append_ok {α : Type} {f : α → Walk σ Unit} {xs ys : List α} {s t : WalkState σ}
    (h : xs.forM f s = .ok () t) : (xs ++ ys).forM f s = ys.forM f t := by
  rw [List.forM_eq_forM] at h ⊢
  rw [List.forM_append, bind_ok h]

theorem forM_cons_ok {α : Type} {f : α → Walk σ Unit} {x : α} {xs : List α} {s t : WalkState σ}
    (h : f x s = .ok () t) : (x :: xs).forM f s = xs.forM f t := by
  rw [List.forM_eq_forM, List.forM_cons, bind_ok h]

theorem bind_error {α β : Type} {m : Walk σ α} {k : α → Walk σ β} {s t : WalkState σ} {f : Bytes}
    (h : m s = .error f t) : (m >>= k) s = .error f t := by
  simp only [bind, EStateM.bind, h]

theorem bind_congr {α β : Type} {m m' : Walk σ α} {k k' : α → Walk σ β} {s : WalkState σ}
    (hm : m s = m' s) (hk : ∀ a t, m' s = .ok a t → k a t = k' a t) :
    (m >>= k) s = (m' >>= k') s := by
  cases hrun : m' s with
  | error f t => rw [bind_error (hm.trans hrun), bind_error hrun]
  | ok a t => rw [bind_ok (hm.trans hrun), bind_ok hrun, hk a t hrun]

theorem KeepsNames.of_run {α : Type} {m : Walk σ α} (h : KeepsNames m) {s t : WalkState σ} {a : α}
    (hrun : m s = .ok a t) : t.edits.names = s.edits.names := by
  have := h s
  rwa [hrun] at this

theorem forM_attach {α : Type} (list : List α) (f : α → Walk σ Unit) :
    (list.attach.forM fun a => f a.1) = list.forM f := by
  have h := List.forM_map (l := list.attach) (g := (·.1)) (f := f)
  rw [List.attach_map_subtype_val] at h
  simpa using h.symm

theorem visit_eq (r : Registry σ) (place : Path) (inSlot : Bool) (parent : Option Node)
    (n : Node) : visit r place inSlot parent n = (do
      modify fun s => { s with nodes := s.nodes + 1 }
      let opened ← enterScope n
      dispatch r ⟨.enter, n, place, inSlot, parent⟩
      let entered ← currentNode n place inSlot
      if !isName entered then
        n.children.zipIdx.forM fun c => visit r (c.2 :: place) c.1.inSlot (some n) c.1.node
      dispatch r ⟨.leave, entered, place, inSlot, parent⟩
      if opened then modifySymbols (·.leave)) := by
  have h := forM_attach n.children.zipIdx fun c =>
    visit r (c.2 :: place) c.1.inSlot (some n) c.1.node
  rw [visit]
  simp only [← h]

/-- While no name was put into a slot, the node at a place is the one that was there. -/
theorem currentNode_of_nil {n : Node} {place : Path} {inSlot : Bool} {s : WalkState σ}
    (h : s.edits.names = []) : currentNode n place inSlot s = .ok n s := by
  unfold currentNode
  split
  · rw [bind_ok (get_run s)]
    simp only [Edits.name?, h]
    rfl
  · rfl

theorem forM_steps (r : Registry σ) (place : Path) (inSlot : Bool) (parent : Option Node)
    (n : Node) : (n.steps place inSlot parent).forM (Step.run r) = (do
      (Step.arrive n).run r
      dispatch r ⟨.enter, n, place, inSlot, parent⟩
      (n.children.zipIdx.flatMap fun c =>
        c.1.node.steps (c.2 :: place) c.1.inSlot (some n)).forM (Step.run r)
      dispatch r ⟨.leave, n, place, inSlot, parent⟩
      (Step.depart n).run r) := by
  rw [Node.steps_eq]
  simp [Step.run]

/-- While no name is put into a slot before it is left, a visit takes the steps of the walk. -/
theorem visit_eq_steps {r : Registry σ} (n : Node) : ∀ (place inSlot parent) (s : WalkState σ),
    (∀ e ∈ (n.events place inSlot parent).dropLast, QuietAt r e) → s.edits.names = [] →
    visit r place inSlot parent n s = (n.steps place inSlot parent).forM (Step.run r) s := by
  induction n using Node.childInduction with
  | step n ih =>
    intro place inSlot parent s hquiet hnames
    -- All children before one keep the names, so it finds none put into slots either.
    have hchildren (cs : List (Child × Nat)) (hcs : cs ⊆ n.children.zipIdx) (s : WalkState σ)
        (hnames : s.edits.names = []) :
        cs.forM (fun c => visit r (c.2 :: place) c.1.inSlot (some n) c.1.node) s =
          (cs.flatMap fun c => c.1.node.steps (c.2 :: place) c.1.inSlot (some n)).forM
            (Step.run r) s := by
      induction cs generalizing s with
      | nil => rfl
      | cons c cs ihc =>
        have hc : c ∈ n.children.zipIdx := hcs (by simp)
        have hall (e) (he : e ∈ c.1.node.events (c.2 :: place) c.1.inSlot (some n)) :
            QuietAt r e := hquiet e (Node.mem_dropLast_events hc he)
        have hvisit := ih c.1 (List.fst_mem_of_mem_zipIdx hc) (c.2 :: place) c.1.inSlot (some n) s
          (fun e he => hall e (List.dropLast_subset _ he)) hnames
        rw [List.flatMap_cons, List.forM_eq_forM, List.forM_eq_forM, List.forM_append,
          List.forM_cons]
        refine bind_congr hvisit fun _ t hrun => ?_
        have hnames : t.edits.names = [] := ((KeepsNames.steps hall).of_run hrun).trans hnames
        simpa using ihc (fun d hd => hcs (by simp [hd])) t hnames
    rw [visit_eq, forM_steps, bind_ok (modify_run _ s), bind_ok (enterScope_run n _),
      bind_ok (run_arrive r n s)]
    refine bind_congr rfl fun _ t hrun => ?_
    have hquietEnter : QuietAt r ⟨.enter, n, place, inSlot, parent⟩ :=
      hquiet _ (Node.dropLast_events n ▸ List.mem_cons_self)
    have hnames : t.edits.names = [] :=
      ((KeepsNames.dispatch hquietEnter).of_run hrun).trans hnames
    rw [bind_ok (currentNode_of_nil hnames)]
    by_cases hname : isName n = true
    · have hnil := Node.children_of_isName hname
      simp only [hname, hnil, Bool.not_true, Bool.false_eq_true, if_false, List.zipIdx_nil,
        List.flatMap_nil]
      rfl
    · simp only [hname, Bool.not_false, if_true]
      exact bind_congr (hchildren _ (List.Subset.refl _) t hnames) fun _ _ _ => rfl

/-- The call of a handler by the walker. -/
def call (e : Event) (s : Subscription σ) : Walk σ Unit :=
  tryCatch (s.handle e) fun failure =>
    throw (Bytes.cat [e.phase.name, ":", e.node.type, ": ", failure])

theorem call_ok {e : Event} {sub : Subscription σ} {s t : WalkState σ}
    (h : sub.handle e s = .ok () t) : call e sub s = .ok () t := by
  simp only [call, tryCatch, tryCatchThe, MonadExceptOf.tryCatch, EStateM.tryCatch, h]

/-- An announcement calls the handlers of the subscriptions it concerns, in order. -/
theorem dispatch_ofList (subs : List (Subscription σ)) (e : Event) :
    dispatch (Registry.ofList subs) e = (subs.filter (·.concerns e)).forM (call e) := by
  have hfst : subs = subs.zipIdx.map (·.1) := (List.zipIdx_map_fst 0 subs).symm
  conv_rhs => rw [hfst]
  rw [dispatch, Registry.due_ofList, List.filter_map]
  simp [List.forM_map, Function.comp_def, call]

theorem quietAt_ofList {subs : List (Subscription σ)} {e : Event}
    (h : ∀ s ∈ subs, KeepsNames (s.handle e)) : QuietAt (Registry.ofList subs) e := by
  intro entry hentry
  rw [Registry.due_ofList] at hentry
  obtain ⟨⟨s, number⟩, hs, rfl⟩ := List.mem_map.1 hentry
  exact h s (List.fst_mem_of_mem_zipIdx (List.mem_filter.1 hs).1)

end Walk

end ScriptOptimizer
