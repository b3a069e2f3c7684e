import Mathlib.Data.List.Basic
import ScriptOptimizer.Proofs.Walk.Schedule

/-!
The calls that a walk makes. Beside a walk runs one whose handlers record each call of them and how
it ended; it ends as the first does, and its record says which handlers were called with which
events.
-/

namespace ScriptOptimizer

variable {σ : Type}

/-- A call of a handler: the number of its registration, and the event. -/
structure Call where
  number : Nat
  event : Event

/-- A call that was made, and the failure in which it ended. -/
structure Made where
  call : Call
  failure : Option Bytes

namespace Event

/-- The calls that an event is due: those of the subscriptions that it concerns, in order. -/
def calls (subs : List (Subscription σ)) (e : Event) : List Call :=
  (subs.zipIdx.filter (·.1.concerns e)).map fun (_, number) => ⟨number, e⟩

/-- The error of a walk in which a handler of the event failed. -/
def wrap (e : Event) (failure : Bytes) : Bytes :=
  Bytes.cat [e.phase.name, ":", e.node.type, ": ", failure]

end Event

/-- The state without the record of the calls. -/
def WalkState.forget (s : WalkState (σ × List Made)) : WalkState σ :=
  { symbols := s.symbols, edits := s.edits, nodes := s.nodes, functions := s.functions,
    own := s.own.1 }

/-- The state with a record of the calls. -/
def WalkState.recalling (made : List Made) (s : WalkState σ) : WalkState (σ × List Made) :=
  { symbols := s.symbols, edits := s.edits, nodes := s.nodes, functions := s.functions,
    own := (s.own, made) }

/-- The subscription with a handler that also records how each of its calls ended. -/
def Subscription.recorded (s : Subscription σ) (number : Nat) :
    Subscription (σ × List Made) where
  type := s.type
  phase := s.phase
  handle e := fun state =>
    match s.handle e state.forget with
    | .ok _ t => .ok () (t.recalling (state.own.2 ++ [⟨⟨number, e⟩, none⟩]))
    | .error failure t =>
      .error failure (t.recalling (state.own.2 ++ [⟨⟨number, e⟩, some failure⟩]))

namespace Walk

/-- The subscriptions with handlers that record their calls. -/
def recorded (subs : List (Subscription σ)) : List (Subscription (σ × List Made)) :=
  subs.zipIdx.map fun (s, number) => s.recorded number

/-- How many of the calls that were due were made: all of them and none failed, or those up to the
first that failed, and the error is its failure with the event it failed at. -/
def Delivered (due : List Call) (error : Option Bytes) (made : List Made) : Prop :=
  match error with
  | none => made = due.map (⟨·, none⟩)
  | some error => ∃ done call rest failure, due = done ++ call :: rest ∧
      made = done.map (⟨·, none⟩) ++ [⟨call, some failure⟩] ∧ error = call.event.wrap failure

/-- A step that records its calls beside the same step without a record. -/
def Traces {α : Type} (m : Walk (σ × List Made) α) (n : Walk σ α) (due : List Call) : Prop :=
  ∀ s, match m s with
    | .ok a t => n s.forget = .ok a t.forget ∧
        ∃ made, t.own.2 = s.own.2 ++ made ∧ Delivered due none made
    | .error error t => n s.forget = .error error t.forget ∧
        ∃ made, t.own.2 = s.own.2 ++ made ∧ Delivered due (some error) made

namespace Traces

variable {α β : Type}

theorem pure (a : α) : Traces (σ := σ) (pure a) (pure a) [] :=
  fun _ => ⟨rfl, [], by simp, rfl⟩

theorem bind {m : Walk (σ × List Made) α} {n : Walk σ α} {k : α → Walk (σ × List Made) β}
    {l : α → Walk σ β} {due later : List Call} (hm : Traces m n due)
    (hk : ∀ a, Traces (k a) (l a) later) : Traces (m >>= k) (n >>= l) (due ++ later) := by
  intro s
  have hm := hm s
  cases hrun : m s with
  | error error t =>
    rw [hrun] at hm
    obtain ⟨hn, made, hmade, done, call, rest, failure, rfl, rfl, herror⟩ := hm
    rw [bind_error hrun, bind_error hn]
    exact ⟨rfl, _, hmade, done, call, rest ++ later, failure, by simp, rfl, herror⟩
  | ok a t =>
    rw [hrun] at hm
    obtain ⟨hn, made, hmade, rfl⟩ := hm
    rw [bind_ok hrun, bind_ok hn]
    have hk := hk a t
    cases hnext : k a t with
    | error error u =>
      rw [hnext] at hk
      obtain ⟨hl, after, hafter, done, call, rest, failure, rfl, rfl, herror⟩ := hk
      refine ⟨hl, _, by rw [hafter, hmade, List.append_assoc], due ++ done, call, rest, failure, ?_⟩
      simp [herror]
    | ok b u =>
      rw [hnext] at hk
      obtain ⟨hl, after, hafter, rfl⟩ := hk
      exact ⟨hl, _, by rw [hafter, hmade, List.append_assoc], List.map_append.symm⟩

theorem forM {list : List α} {f : α → Walk (σ × List Made) Unit} {g : α → Walk σ Unit}
    {due : α → List Call} (h : ∀ a ∈ list, Traces (f a) (g a) (due a)) :
    Traces (list.forM f) (list.forM g) (list.flatMap due) := by
  induction list with
  | nil => exact pure ()
  | cons a rest ih =>
    rw [List.flatMap_cons]
    exact bind (h a (by simp)) fun _ => ih fun b hb => h b (by simp [hb])

/-- A handler that records its calls records the one that is made. -/
theorem call (s : Subscription σ) (number : Nat) (e : Event) :
    Traces (tryCatch ((s.recorded number).handle e) fun failure => throw (e.wrap failure))
      (tryCatch (s.handle e) fun failure => throw (e.wrap failure)) [⟨number, e⟩] := by
  intro state
  simp only [tryCatch, tryCatchThe, MonadExceptOf.tryCatch, EStateM.tryCatch,
    Subscription.recorded]
  cases hrun : s.handle e state.forget with
  | error failure t => exact ⟨rfl, _, rfl, [], ⟨number, e⟩, [], failure, rfl, rfl, rfl⟩
  | ok a t => exact ⟨rfl, _, rfl, rfl⟩

end Traces

theorem zipIdx_recorded (subs : List (Subscription σ)) (first : Nat) :
    ((subs.zipIdx first).map fun (s, number) => s.recorded number).zipIdx first =
      (subs.zipIdx first).map fun (s, number) => (s.recorded number, number) := by
  induction subs generalizing first with
  | nil => rfl
  | cons s subs ih => simp [ih]

theorem due_recorded (subs : List (Subscription σ)) (e : Event) :
    (Registry.ofList (recorded subs)).due e = (subs.zipIdx.filter (·.1.concerns e)).map
      fun (s, number) => ⟨number, (s.recorded number).handle⟩ := by
  rw [Registry.due_ofList, recorded, zipIdx_recorded, List.filter_map, List.map_map]
  rfl

theorem Traces.dispatch (subs : List (Subscription σ)) (e : Event) :
    Traces (dispatch (Registry.ofList (recorded subs)) e) (dispatch (Registry.ofList subs) e)
      (e.calls subs) := by
  have hcall : ∀ s ∈ subs.zipIdx.filter (·.1.concerns e),
      Traces (tryCatch ((s.1.recorded s.2).handle e) fun failure => throw (e.wrap failure))
        (tryCatch (s.1.handle e) fun failure => throw (e.wrap failure)) [⟨s.2, e⟩] :=
    fun s _ => Traces.call s.1 s.2 e
  have h := Traces.forM hcall
  rw [Walk.dispatch, Walk.dispatch, due_recorded, Registry.due_ofList]
  simpa only [List.forM_eq_forM, List.forM_map, Event.calls, Event.wrap,
    ← List.map_eq_flatMap] using h

theorem Traces.step (subs : List (Subscription σ)) (x : Step) :
    Traces (x.run (Registry.ofList (recorded subs))) (x.run (Registry.ofList subs))
      (x.event?.toList.flatMap (Event.calls subs)) := by
  cases x with
  | announce e =>
    have h := Traces.dispatch subs e
    rwa [← List.append_nil (e.calls subs)] at h
  | arrive n =>
    intro s
    rw [run_arrive]
    exact ⟨run_arrive _ n _, [], by simp, rfl⟩
  | depart n =>
    intro s
    rw [run_depart]
    exact ⟨run_depart _ n _, [], by simp, rfl⟩

theorem Traces.steps (subs : List (Subscription σ)) (place : Path) (inSlot : Bool)
    (parent : Option Node) (n : Node) :
    Traces ((n.steps place inSlot parent).forM (Step.run (Registry.ofList (recorded subs))))
      ((n.steps place inSlot parent).forM (Step.run (Registry.ofList subs)))
      ((n.events place inSlot parent).flatMap (Event.calls subs)) := by
  have hstep : ∀ x ∈ n.steps place inSlot parent,
      Traces (x.run (Registry.ofList (recorded subs))) (x.run (Registry.ofList subs))
        (x.event?.toList.flatMap (Event.calls subs)) := fun x _ => Traces.step subs x
  have h := Traces.forM hstep
  rwa [← List.flatMap_assoc, ← List.filterMap_eq_flatMap_toList, Node.filterMap_steps] at h

theorem KeepsNames.recorded {s : Subscription σ} {e : Event} (h : KeepsNames (s.handle e))
    (number : Nat) : KeepsNames ((s.recorded number).handle e) := by
  intro state
  have h := h state.forget
  simp only [Subscription.recorded]
  cases hrun : s.handle e state.forget with
  | error failure t => trivial
  | ok a t => rwa [hrun] at h

/-- A walk whose handlers replace no node announces every node once before and once after its
children, and at each announcement calls the handlers that are due, each once and in the order of
their registration, up to the first that fails. -/
theorem run_delivers (subs : List (Subscription σ))
    (hkeeps : ∀ s ∈ subs, ∀ e, KeepsNames (s.handle e)) (place : Path) (root : Node) (own : σ) :
    let walk := run (recorded subs) place root (own, [])
    Delivered ((root.events place false none).flatMap (Event.calls subs)) walk.1 walk.2.own.2 ∧
      run subs place root own = (walk.1, walk.2.forget) := by
  have hquiet (e : Event) : QuietAt (Registry.ofList subs) e :=
    quietAt_ofList fun s hs => hkeeps s hs e
  have hquietRecorded (e : Event) : QuietAt (Registry.ofList (recorded subs)) e := by
    refine quietAt_ofList fun s hs => ?_
    obtain ⟨⟨s, number⟩, hmem, rfl⟩ := List.mem_map.1 hs
    exact (hkeeps s (List.fst_mem_of_mem_zipIdx hmem) e).recorded number
  have htraces := Traces.steps subs place false none root (start (own, []))
  rw [← visit_eq_steps root place false none _ (fun e _ => hquietRecorded e) rfl] at htraces
  have hforget : (start (own, [])).forget = start own := rfl
  rw [hforget, ← visit_eq_steps root place false none _ (fun e _ => hquiet e) rfl] at htraces
  intro walk
  simp only [walk, run]
  cases hrun : visit (Registry.ofList (recorded subs)) place false none root (start (own, [])) with
  | error error w =>
    rw [hrun] at htraces
    obtain ⟨hvisit, made, hmade, hdelivered⟩ := htraces
    rw [hvisit]
    rw [hmade, start, List.nil_append]
    exact ⟨hdelivered, rfl⟩
  | ok a w =>
    rw [hrun] at htraces
    obtain ⟨hvisit, made, hmade, hdelivered⟩ := htraces
    rw [hvisit]
    rw [hmade, start, List.nil_append]
    exact ⟨hdelivered, rfl⟩

/-- The program `x` under two handlers: one counts names, one fails at whatever is left first. -/
theorem run_delivers_failing :
    let subs : List (Subscription Nat) :=
      [⟨some "Identifier", .enter, fun _ => modifyOwn (· + 1)⟩,
        ⟨none, .leave, fun _ => throw [120]⟩]
    let root : Node :=
      .program ⟨Span.none, [.expression Span.none (.holds (.ident ⟨Span.none, [120]⟩))]⟩
    (∀ s ∈ subs, ∀ e, KeepsNames (s.handle e)) ∧
      Delivered ((root.events [] false none).flatMap (Event.calls subs))
        (run (recorded subs) [] root (0, [])).1 (run (recorded subs) [] root (0, [])).2.own.2 ∧
      run subs [] root 0 = ((run (recorded subs) [] root (0, [])).1,
        (run (recorded subs) [] root (0, [])).2.forget) := by
  intro subs root
  have hkeeps : ∀ s ∈ subs, ∀ e, KeepsNames (s.handle e) := by
    intro s hs e
    simp only [subs, List.mem_cons, List.not_mem_nil, or_false] at hs
    rcases hs with rfl | rfl
    · exact KeepsNames.modify fun _ => rfl
    · exact fun _ => trivial
  exact ⟨hkeeps, run_delivers subs hkeeps [] root 0⟩

end Walk

end ScriptOptimizer
