import ScriptOptimizer.Proofs.Scope.Table
import ScriptOptimizer.Proofs.Walk.Sights

/-!
The open scopes during a walk. A watcher that is registered among other handlers notes each event
with the table of scopes at it. As long as the others only declare names and only replace what they
are called with, the open scopes are those of the functions on the way to the node of the event.
-/

namespace ScriptOptimizer

variable {σ τ : Type}

/-- An event and the table of scopes at it. -/
structure Glimpse where
  event : Event
  symbols : ScopeTable Node

/-- The state with something else for the handlers to keep. -/
def WalkState.keeping (s : WalkState σ) (own : τ) : WalkState τ :=
  { symbols := s.symbols, edits := s.edits, nodes := s.nodes, functions := s.functions, own }

/-- The state without what a watcher noted. -/
def WalkState.unwatched (s : WalkState (σ × List Glimpse)) : WalkState σ := s.keeping s.own.1

/-- The subscription beside a watcher, whose notes it leaves alone. -/
def Subscription.beside (s : Subscription σ) : Subscription (σ × List Glimpse) where
  type := s.type
  phase := s.phase
  handle e := fun state =>
    match s.handle e state.unwatched with
    | .ok _ t => .ok () (t.keeping (t.own, state.own.2))
    | .error failure t => .error failure (t.keeping (t.own, state.own.2))

namespace Walk

/-- Notes an event with the table of scopes at it. -/
def note (e : Event) : Walk (σ × List Glimpse) Unit :=
  modify fun s => { s with own := (s.own.1, s.own.2 ++ [⟨e, s.symbols⟩]) }

/-- Subscriptions with a watcher of all nodes in both phases among them. -/
def watched (before after : List (Subscription σ)) : List (Subscription (σ × List Glimpse)) :=
  before.map .beside ++ [⟨none, .enter, note⟩, ⟨none, .leave, note⟩] ++ after.map .beside

/-- What a handler may do at an event: declare names, and put names into the slot of the event. -/
structure Mild (e : Event) (s t : WalkState σ) : Prop where
  symbols : s.symbols.Grows t.symbols
  names : ∃ put : List Ident, (e.inSlot = false → put = []) ∧
    t.edits.names = put.map (fun id => (e.place, id)) ++ s.edits.names

/-- The handler never fails, and does no more than it may. -/
def Gentle (handle : Event → Walk σ Unit) : Prop :=
  ∀ e s, ∃ t, handle e s = .ok () t ∧ Mild e s t

/-- Gentle handlers do beside a watcher what they do without one. -/
theorem forM_beside {subs : List (Subscription σ)} (hgentle : ∀ sub ∈ subs, Gentle sub.handle)
    (e : Event) (s : WalkState (σ × List Glimpse)) :
    ∃ t, (subs.map .beside).forM (call e) s = .ok () t ∧
      subs.forM (call e) s.unwatched = .ok () t.unwatched ∧
      s.symbols.Grows t.symbols ∧ t.own.2 = s.own.2 := by
  induction subs generalizing s with
  | nil => exact ⟨s, rfl, rfl, .refl _, rfl⟩
  | cons sub rest ih =>
    obtain ⟨u, hu, hmild⟩ := hgentle sub (by simp) e s.unwatched
    have hbeside : sub.beside.handle e s = .ok () (u.keeping (u.own, s.own.2)) := by
      simp only [Subscription.beside, hu]
    obtain ⟨t, ht, hplain, hgrows, hnotes⟩ := ih (fun x hx => hgentle x (by simp [hx]))
      (u.keeping (u.own, s.own.2))
    refine ⟨t, ?_, ?_, hmild.symbols.trans hgrows, hnotes⟩
    · rw [List.map_cons, forM_cons_ok (call_ok hbeside), ht]
    · rw [forM_cons_ok (call_ok hu)]
      exact hplain

theorem filter_watched (before after : List (Subscription σ)) (e : Event) :
    (watched before after).filter (·.concerns e) =
      (before.filter (·.concerns e)).map .beside ++ [⟨none, e.phase, note⟩] ++
        (after.filter (·.concerns e)).map .beside := by
  have hbeside (subs : List (Subscription σ)) : (subs.map Subscription.beside).filter
      (·.concerns e) = (subs.filter (·.concerns e)).map .beside := List.filter_map ..
  have hwatcher : ([⟨none, .enter, note⟩, ⟨none, .leave, note⟩] :
      List (Subscription (σ × List Glimpse))).filter (·.concerns e) = [⟨none, e.phase, note⟩] := by
    cases hphase : e.phase <;> simp [Subscription.concerns, hphase]
  rw [watched, List.filter_append, List.filter_append, hbeside, hbeside, hwatcher]

/-- At every event the watcher notes the table as it is between two handlers. -/
theorem dispatch_watched {before after : List (Subscription σ)}
    (hgentle : ∀ sub ∈ before ++ after, Gentle sub.handle) (e : Event)
    (s : WalkState (σ × List Glimpse)) :
    ∃ t table, dispatch (Registry.ofList (watched before after)) e s = .ok () t ∧
      dispatch (Registry.ofList (before ++ after)) e s.unwatched = .ok () t.unwatched ∧
      s.symbols.Grows table ∧ table.Grows t.symbols ∧ t.own.2 = s.own.2 ++ [⟨e, table⟩] := by
  have hsome {subs : List (Subscription σ)} (hsubs : subs ⊆ before ++ after) :
      ∀ sub ∈ subs.filter (·.concerns e), Gentle sub.handle :=
    fun sub hsub => hgentle sub (hsubs (List.mem_of_mem_filter hsub))
  obtain ⟨u, hu, hplain, hgrows, hnotes⟩ :=
    forM_beside (hsome (List.subset_append_left _ _)) e s
  let noted : WalkState (σ × List Glimpse) :=
    { u with own := (u.own.1, u.own.2 ++ [⟨e, u.symbols⟩]) }
  have hnoted : [⟨none, e.phase, note⟩].forM (call e) u = .ok () noted := rfl
  obtain ⟨t, ht, hplain', hgrows', hnotes'⟩ :=
    forM_beside (hsome (List.subset_append_right _ _)) e noted
  refine ⟨t, u.symbols, ?_, ?_, hgrows, hgrows', by rw [hnotes', ← hnotes]⟩
  · rw [dispatch_ofList, filter_watched]
    rw [List.append_assoc, forM_append_ok hu, forM_append_ok hnoted, ht]
  · rw [dispatch_ofList, List.filter_append]
    rw [forM_append_ok hplain]
    exact hplain'

/-- The node at a place after edits: a name, if one was put into its slot. -/
def nodeAfter (e : Edits) (n : Node) (place : Path) (inSlot : Bool) : Node :=
  if inSlot then (e.name? place).elim n fun id => .expr (.ident id) else n

theorem isName_nodeAfter (e : Edits) (n : Node) (place : Path) (inSlot : Bool) :
    nodeAfter e n place inSlot = n ∨
      inSlot = true ∧ isName (nodeAfter e n place inSlot) = true := by
  unfold nodeAfter
  cases inSlot with
  | false => exact .inl rfl
  | true =>
    cases e.name? place with
    | none => exact .inl rfl
    | some id => exact .inr ⟨rfl, rfl⟩

theorem currentNode_run (n : Node) (place : Path) (inSlot : Bool) (s : WalkState σ) :
    currentNode n place inSlot s = .ok (nodeAfter s.edits n place inSlot) s := by
  unfold currentNode nodeAfter
  split
  · rw [bind_ok (get_run s)]
    cases s.edits.name? place <;> rfl
  · rfl

/-- A function opens a scope with the next number; no other node opens one. -/
theorem stacked_arriveAt {ids : List Nat} {t : ScopeTable Node} (h : t.Stacked ids) (n : Node) :
    (arriveAt n t).Stacked (if n.opensScope then t.next :: ids else ids) ∧
      (arriveAt n t).next = t.next + if n.opensScope then 1 else 0 := by
  cases n with
  | stmt x =>
    cases x with
    | function span fn =>
      obtain ⟨hname, hnext⟩ := h.foldl fn.id.toList (·.name) fun _ => .stmt (.function span fn)
      obtain ⟨hparams, hlast⟩ := hname.enter.foldl fn.paramNames (·.name)
        fun id => .expr (.ident id)
      rw [hnext] at hparams
      exact ⟨hparams, hlast.trans (congrArg (· + 1) hnext)⟩
    | _ => exact ⟨h, rfl⟩
  | expr x =>
    cases x with
    | function span fn =>
      obtain ⟨hname, hnext⟩ := h.enter.foldl fn.id.toList (·.name)
        fun _ => .expr (.function span fn)
      obtain ⟨hparams, hlast⟩ := hname.foldl fn.paramNames (·.name) fun id => .expr (.ident id)
      exact ⟨hparams, hlast.trans hnext⟩
    | _ => exact ⟨h, rfl⟩
  | handler x =>
    cases x with
    | absent => exact ⟨h, rfl⟩
    | clause span param body => exact h.foldl param.boundNames (·.name) fun id => .expr (.ident id)
  | _ => exact ⟨h, rfl⟩

/-- Arriving at a node does the same to the open scopes of tables that have the same ones. -/
theorem alike_arriveAt {t t' : ScopeTable Node} (h : t.Alike t') (n : Node) :
    (arriveAt n t).Alike (arriveAt n t') := by
  have hdeclare (list : List Ident) (node : Ident → Node) {t t' : ScopeTable Node}
      (h : t.Alike t') : (list.foldl (fun t id => t.declare id.name (node id)) t).Alike
        (list.foldl (fun t id => t.declare id.name (node id)) t') :=
    ((ScopeTable.Grows.foldl list (·.name) node t).alike.symm.trans h).trans
      (ScopeTable.Grows.foldl list (·.name) node t').alike
  cases n with
  | stmt x =>
    cases x with
    | function span fn => exact hdeclare _ _ (hdeclare _ _ h).enter
    | _ => exact h
  | expr x =>
    cases x with
    | function span fn => exact hdeclare _ _ (hdeclare _ _ h.enter)
    | _ => exact h
  | handler x =>
    cases x with
    | absent => exact h
    | clause span param body => exact hdeclare _ _ h
  | _ => exact h

end Walk

/-! ### Scopes and functions -/

namespace Glimpse

/-- Is it a function that is entered? -/
def entersFunction (g : Glimpse) : Bool := g.event.phase = .enter && g.event.node.opensScope

/-- The places of the functions that were entered, in order. -/
def entered (glimpses : List Glimpse) : List Path :=
  (glimpses.filter entersFunction).map (·.event.place)

/-- The numbers of the scopes of functions and of the root scope around them: a function has the
number of its turn to be entered. -/
def scopeIds (entered : List Path) (fs : List Enclosure) : List Nat :=
  fs.map (fun f => entered.idxOf f.place + 1) ++ [0]

/-- The event is one of the node of a sight, and the open scopes are those of the functions on the
way to it, itself included, in the root scope. -/
structure Mirrors (entered : List Path) (v : Sight) (g : Glimpse) : Prop where
  place : g.event.place = v.place
  inSlot : g.event.inSlot = v.inSlot
  parent : g.event.parent = v.parent
  node : g.event.node = v.node ∨
    g.event.phase = .leave ∧ v.inSlot = true ∧ Walk.isName g.event.node = true
  known : ∀ f ∈ v.node.within v.place v.around, f.place ∈ entered
  depth : g.symbols.depth = 1 + (v.node.within v.place v.around).length
  scope : g.symbols.current.id :: g.symbols.current.enclosing =
    scopeIds entered (v.node.within v.place v.around)
  stacked : g.symbols.Stacked (scopeIds entered (v.node.within v.place v.around))

theorem entered_append (xs ys : List Glimpse) : entered (xs ++ ys) = entered xs ++ entered ys := by
  simp [entered]

/-- What is entered later changes no number. -/
theorem scopeIds_append {entered : List Path} {fs : List Enclosure}
    (h : ∀ f ∈ fs, f.place ∈ entered) (more : List Path) :
    scopeIds (entered ++ more) fs = scopeIds entered fs := by
  refine congrArg (· ++ [0]) (List.map_congr_left fun f hf => ?_)
  rw [List.idxOf_append_of_mem (h f hf)]

theorem Mirrors.append {entered : List Path} {v : Sight} {g : Glimpse} (h : g.Mirrors entered v)
    (more : List Path) : g.Mirrors (entered ++ more) v where
  place := h.place
  inSlot := h.inSlot
  parent := h.parent
  node := h.node
  known f hf := List.mem_append_left _ (h.known f hf)
  depth := h.depth
  scope := by
    rw [scopeIds_append h.known]
    exact h.scope
  stacked := by
    rw [scopeIds_append h.known]
    exact h.stacked

/-- The open scopes say how many there are and which is the innermost. -/
theorem Mirrors.of_stacked {entered : List Path} {v : Sight} {g : Glimpse} {n : Node}
    {phase : Phase} (hevent : g.event = ⟨phase, n, v.place, v.inSlot, v.parent⟩)
    (hnode : n = v.node ∨ phase = .leave ∧ v.inSlot = true ∧ Walk.isName n = true)
    (hknown : ∀ f ∈ v.node.within v.place v.around, f.place ∈ entered)
    (hstacked : g.symbols.Stacked (scopeIds entered (v.node.within v.place v.around))) :
    g.Mirrors entered v where
  place := by rw [hevent]
  inSlot := by rw [hevent]
  parent := by rw [hevent]
  node := by rwa [hevent]
  known := hknown
  depth := by
    have hlength := congrArg List.length hstacked
    simp only [ScopeTable.live, scopeIds, List.length_map, List.length_append,
      List.length_singleton, List.length_dropLast, List.length_tails] at hlength
    rw [ScopeTable.depth]
    omega
  scope := hstacked.current
  stacked := hstacked

end Glimpse

/-- Every glimpse shows the open scopes of the functions around its node, and a function that is
entered has the next number. -/
structure Faithful (all : List Sight) (glimpses : List Glimpse) : Prop where
  mirrors : ∀ g ∈ glimpses, ∃ v ∈ all, g.Mirrors (Glimpse.entered glimpses) v
  numbered : ∀ xs g ys, glimpses = xs ++ g :: ys → g.entersFunction = true →
    g.symbols.current.id = (Glimpse.entered xs).length + 1

theorem Faithful.concat {all : List Sight} {glimpses : List Glimpse} {g : Glimpse} {v : Sight}
    (h : Faithful all glimpses) (hv : v ∈ all)
    (hg : g.Mirrors (Glimpse.entered (glimpses ++ [g])) v)
    (hnumber : g.entersFunction = true →
      g.symbols.current.id = (Glimpse.entered glimpses).length + 1) :
    Faithful all (glimpses ++ [g]) := by
  constructor
  · intro x hx
    rcases List.mem_append.1 hx with hx | hx
    · obtain ⟨w, hw, hmirrors⟩ := h.mirrors x hx
      rw [Glimpse.entered_append]
      exact ⟨w, hw, hmirrors.append _⟩
    · rw [List.mem_singleton.1 hx]
      exact ⟨v, hv, hg⟩
  · intro xs x ys hsplit hx
    rcases List.eq_nil_or_concat ys with rfl | ⟨ys, y, rfl⟩
    · obtain ⟨rfl, hlast⟩ := List.append_inj' hsplit rfl
      obtain ⟨rfl, -⟩ := List.cons.inj hlast
      exact hnumber hx
    · have hsplit : glimpses ++ [g] = (xs ++ x :: ys) ++ [y] := by simpa using hsplit
      obtain ⟨hsame, -⟩ := List.append_inj' hsplit rfl
      exact h.numbered xs x ys hsame hx

/-- The state of a watched walk inside some functions, after some sights. -/
structure Watching (all before : List Sight) (around : List Enclosure)
    (s : WalkState (σ × List Glimpse)) : Prop where
  stacked : s.symbols.Stacked (Glimpse.scopeIds (Glimpse.entered s.own.2) around)
  next : s.symbols.next = (Glimpse.entered s.own.2).length + 1
  known : ∀ f ∈ around, f.place ∈ Glimpse.entered s.own.2
  faithful : Faithful all s.own.2
  sublist : (Glimpse.entered s.own.2).Sublist (before.map (·.place))

namespace Watching

open Glimpse

variable {all before after : List Sight} {around : List Enclosure} {v : Sight}
  {s t : WalkState (σ × List Glimpse)} {table : ScopeTable Node}

theorem mono {more : List Sight} (h : Watching all before around s) (hmore : before.Sublist more) :
    Watching all more around s :=
  { h with sublist := h.sublist.trans (hmore.map _) }

/-- A function that is entered gets the next number. -/
theorem scopeIds_within (h : Watching all before v.around s) (hnew : v.place ∉ entered s.own.2) :
    scopeIds (entered s.own.2 ++ if v.node.opensScope then [v.place] else [])
        (v.node.within v.place v.around) =
      if v.node.opensScope then s.symbols.next :: scopeIds (entered s.own.2) v.around
      else scopeIds (entered s.own.2) v.around := by
  unfold Node.within
  split
  · have hothers := scopeIds_append h.known [v.place]
    rw [h.next, ← hothers, scopeIds, List.map_cons, List.cons_append, scopeIds,
      List.idxOf_append_of_notMem hnew]
    simp
  · rw [List.append_nil]

/-- A node is entered. -/
theorem enter (h : Watching all before v.around s) (hall : before ++ v :: after = all)
    (hnodup : (all.map (·.place)).Nodup) (hgrows : (Walk.arriveAt v.node s.symbols).Grows table)
    (hgrows' : table.Grows t.symbols)
    (hnotes : t.own.2 = s.own.2 ++ [⟨⟨.enter, v.node, v.place, v.inSlot, v.parent⟩, table⟩]) :
    Watching all (before ++ [v]) (v.node.within v.place v.around) t := by
  let g : Glimpse := ⟨⟨.enter, v.node, v.place, v.inSlot, v.parent⟩, table⟩
  have hentered : entered (s.own.2 ++ [g]) =
      entered s.own.2 ++ if v.node.opensScope then [v.place] else [] := by
    rw [entered_append]
    cases hopens : v.node.opensScope <;> simp [entered, entersFunction, g, hopens]
  have hnew : v.place ∉ entered s.own.2 := by
    intro hmem
    rw [← hall, List.map_append, List.map_cons] at hnodup
    exact (List.nodup_append.1 hnodup).2.2 _ (h.sublist.subset hmem) _ (by simp) rfl
  have hknown : ∀ f ∈ v.node.within v.place v.around, f.place ∈ entered (s.own.2 ++ [g]) := by
    intro f hf
    rw [hentered]
    unfold Node.within at hf
    split at hf
    · rename_i hopens
      rcases List.mem_cons.1 hf with rfl | hf
      · simp [hopens]
      · exact List.mem_append_left _ (h.known f hf)
    · exact List.mem_append_left _ (h.known f hf)
  obtain ⟨hstacked, hnext⟩ := Walk.stacked_arriveAt h.stacked v.node
  rw [← h.scopeIds_within hnew, ← hentered] at hstacked
  have htable := hgrows.alike.stacked hstacked
  have hmirrors : g.Mirrors (entered (s.own.2 ++ [g])) v :=
    .of_stacked rfl (.inl rfl) hknown htable
  have hnumber : g.entersFunction = true →
      g.symbols.current.id = (entered s.own.2).length + 1 := by
    intro henters
    have hopens : v.node.opensScope = true := by simpa [entersFunction, g] using henters
    have hcurrent := htable.current
    rw [hentered, h.scopeIds_within hnew, if_pos hopens, h.next] at hcurrent
    exact (List.cons.inj hcurrent).1
  constructor
  · rw [hnotes]
    exact hgrows'.alike.stacked htable
  · rw [hnotes, hentered, ← (hgrows.trans hgrows').alike.next, hnext, h.next]
    split <;> simp
  · rw [hnotes]
    exact hknown
  · rw [hnotes]
    exact h.faithful.concat (by simp [← hall]) hmirrors hnumber
  · rw [hnotes, hentered, List.map_append]
    refine h.sublist.append ?_
    split
    · exact .refl _
    · exact List.nil_sublist _

/-- A node is left. -/
theorem leave (h : Watching all before (v.node.within v.place v.around) s) (hv : v ∈ all)
    {n : Node} (hn : n = v.node ∨ v.inSlot = true ∧ Walk.isName n = true)
    (hgrows : s.symbols.Grows table) (hgrows' : table.Grows t.symbols)
    (hnotes : t.own.2 = s.own.2 ++ [⟨⟨.leave, n, v.place, v.inSlot, v.parent⟩, table⟩]) :
    Watching all before v.around
      { t with symbols := if v.node.opensScope then t.symbols.leave else t.symbols } := by
  let g : Glimpse := ⟨⟨.leave, n, v.place, v.inSlot, v.parent⟩, table⟩
  have hentered : entered (s.own.2 ++ [g]) = entered s.own.2 := by
    simp [entered, entersFunction, g]
  have htable := hgrows.alike.stacked h.stacked
  have hstacked := hgrows'.alike.stacked htable
  have hnext : t.symbols.next = (entered s.own.2).length + 1 := by
    rw [← (hgrows.trans hgrows').alike.next, h.next]
  have hsuffix := Node.suffix_within v.place v.around v.node
  constructor
  · rw [hnotes, hentered]
    unfold Node.within at hstacked
    split at hstacked
    · rename_i hopens
      rw [if_pos hopens]
      exact hstacked.leave (by simp)
    · rename_i hopens
      rwa [if_neg hopens]
  · rw [hnotes, hentered]
    split
    · rw [ScopeTable.next_leave, hnext]
    · exact hnext
  · rw [hnotes, hentered]
    exact fun f hf => h.known f (hsuffix.subset hf)
  · rw [hnotes]
    rw [← hentered] at htable
    refine h.faithful.concat hv (.of_stacked rfl ?_ ?_ htable) (by simp [entersFunction])
    · exact hn.imp_right fun hname => ⟨rfl, hname⟩
    · exact fun f hf => hentered ▸ h.known f hf
  · rw [hnotes, hentered]
    exact h.sublist

end Watching

/-! ### Whole walks -/

namespace Walk

variable {before after : List (Subscription σ)} {all : List Sight}

/-- A visit, told by the states between its parts: after the node is announced, after its children
were walked if it was not replaced by a name, and after it is announced again. -/
theorem visit_run {r : Registry σ} {n : Node} {place : Path} {inSlot : Bool} {parent : Option Node}
    {s entered inside t : WalkState σ}
    (henter : dispatch r ⟨.enter, n, place, inSlot, parent⟩ { s with
      symbols := arriveAt n s.symbols
      nodes := s.nodes + 1
      functions := s.functions + if n.opensScope then 1 else 0 } = .ok () entered)
    (hinside : (if isName (nodeAfter entered.edits n place inSlot) then []
      else n.children.zipIdx).forM (fun c => visit r (c.2 :: place) c.1.inSlot (some n) c.1.node)
        entered = .ok () inside)
    (hleave : dispatch r ⟨.leave, nodeAfter entered.edits n place inSlot, place, inSlot, parent⟩
      inside = .ok () t) :
    visit r place inSlot parent n s = .ok () { t with
      symbols := if n.opensScope then t.symbols.leave else t.symbols } := by
  have hdepart : (if n.opensScope then modifySymbols (·.leave) else pure () : Walk σ Unit) t =
      .ok () { t with
        symbols := if n.opensScope then t.symbols.leave else t.symbols } := by
    split <;> rfl
  rw [visit_eq, bind_ok (modify_run _ s), bind_ok (enterScope_run n _), bind_ok henter,
    bind_ok (currentNode_run ..)]
  by_cases hname : isName (nodeAfter entered.edits n place inSlot) = true
  · rw [if_pos hname] at hinside
    obtain rfl : entered = inside := by cases hinside; rfl
    simp only [hname, Bool.not_true, Bool.false_eq_true, if_false]
    rw [bind_ok hleave, hdepart]
  · rw [if_neg hname] at hinside
    simp only [hname, Bool.not_false, if_true]
    rw [bind_ok hinside, bind_ok hleave, hdepart]

/-- A watched walk from a node on does what one without a watcher does, and keeps the scopes. -/
theorem visit_watched (hgentle : ∀ sub ∈ before ++ after, Gentle sub.handle)
    (hnodup : (all.map (·.place)).Nodup) (n : Node) : ∀ (place inSlot parent around) (done later)
    (s : WalkState (σ × List Glimpse)),
    done ++ n.sights place inSlot parent around ++ later = all → Watching all done around s →
    ∃ t, visit (Registry.ofList (watched before after)) place inSlot parent n s = .ok () t ∧
      visit (Registry.ofList (before ++ after)) place inSlot parent n s.unwatched =
        .ok () t.unwatched ∧
      Watching all (done ++ n.sights place inSlot parent around) around t := by
  induction n using Node.childInduction with
  | step n ih =>
    intro place inSlot parent around done later s hall h
    -- The children of a node that was not replaced are walked one after another.
    have hchildren (cs : List (Child × Nat)) (hcs : cs ⊆ n.children.zipIdx)
        (done later : List Sight) (s : WalkState (σ × List Glimpse))
        (hall : done ++ (cs.flatMap fun c => c.1.node.sights (c.2 :: place) c.1.inSlot (some n)
          (n.within place around)) ++ later = all)
        (h : Watching all done (n.within place around) s) :
        ∃ t, cs.forM (fun c => visit (Registry.ofList (watched before after)) (c.2 :: place)
            c.1.inSlot (some n) c.1.node) s = .ok () t ∧
          cs.forM (fun c => visit (Registry.ofList (before ++ after)) (c.2 :: place)
            c.1.inSlot (some n) c.1.node) s.unwatched = .ok () t.unwatched ∧
          Watching all (done ++ cs.flatMap fun c => c.1.node.sights (c.2 :: place) c.1.inSlot
            (some n) (n.within place around)) (n.within place around) t := by
      induction cs generalizing done s with
      | nil => exact ⟨s, rfl, rfl, by simpa using h⟩
      | cons c cs ihcs =>
        have hmem : c.1 ∈ n.children := List.fst_mem_of_mem_zipIdx (hcs (by simp))
        rw [List.flatMap_cons, ← List.append_assoc] at hall
        obtain ⟨u, hu, hplain, hfirst⟩ := ih c.1 hmem (c.2 :: place) c.1.inSlot (some n)
          (n.within place around) done _ s (by simpa using hall) h
        obtain ⟨t, ht, hplain', hrest⟩ := ihcs (fun d hd => hcs (by simp [hd])) _ u hall hfirst
        refine ⟨t, Eq.trans (forM_cons_ok ?_) ht, Eq.trans (forM_cons_ok ?_) hplain', ?_⟩
        · exact hu
        · exact hplain
        · rw [List.flatMap_cons, ← List.append_assoc]
          exact hrest
    let v : Sight := ⟨n, place, inSlot, parent, around⟩
    let below := n.children.zipIdx.flatMap fun c =>
      c.1.node.sights (c.2 :: place) c.1.inSlot (some n) (n.within place around)
    have hsights : n.sights place inSlot parent around = v :: below := n.sights_eq
    have hsplit : done ++ v :: (below ++ later) = all := by simpa [hsights] using hall
    let arrived : WalkState (σ × List Glimpse) :=
      { s with
        symbols := arriveAt n s.symbols
        nodes := s.nodes + 1
        functions := s.functions + if n.opensScope then 1 else 0 }
    obtain ⟨entered, table, henter, hplain, hgrows, hgrows', hnotes⟩ :=
      dispatch_watched hgentle ⟨.enter, n, place, inSlot, parent⟩ arrived
    have hin := h.enter (v := v) hsplit hnodup hgrows hgrows' hnotes
    let now := nodeAfter entered.edits n place inSlot
    obtain ⟨inside, hinside, hplain', hthrough⟩ := hchildren
      (if isName now then [] else n.children.zipIdx) (by split <;> simp) _
      (if isName now then below ++ later else later) entered
      (by split <;> simpa [below] using hsplit) hin
    have hthrough : Watching all (done ++ n.sights place inSlot parent around)
        (n.within place around) inside := by
      refine hthrough.mono ?_
      rw [hsights, List.append_cons]
      split <;> simp [below]
    obtain ⟨left, table, hleave, hplain'', hgrows, hgrows', hnotes⟩ :=
      dispatch_watched hgentle ⟨.leave, now, place, inSlot, parent⟩ inside
    have hout := hthrough.leave (v := v) (by simp [← hsplit])
      (isName_nodeAfter entered.edits n place inSlot) hgrows hgrows' hnotes
    have hunwatched := visit_run (s := s.unwatched) (t := left.unwatched) hplain hplain' hplain''
    exact ⟨_, visit_run henter hinside hleave, hunwatched, hout⟩

/-- The open scopes mirror the functions around a node throughout a walk, whatever names the
handlers declare and whichever nodes they replace by names as these are announced: a watcher between
any two of them sees at every event as many open scopes as there are functions on the way to the
node, and one for the root, each the scope of its function; the functions are numbered in the order
in which they are entered. -/
theorem scopes_mirror_functions (before after : List (Subscription σ))
    (hgentle : ∀ sub ∈ before ++ after, Gentle sub.handle) (place : Path) (root : Node) (own : σ) :
    let walk := run (watched before after) place root (own, [])
    let glimpses := walk.2.own.2
    walk.1 = none ∧ run (before ++ after) place root own = (none, walk.2.unwatched) ∧
      (∀ g ∈ glimpses, ∃ v ∈ root.sights place false none [],
        g.Mirrors (Glimpse.entered glimpses) v) ∧
      (∀ xs g ys, glimpses = xs ++ g :: ys → g.entersFunction = true →
        g.symbols.current.id = (Glimpse.entered xs).length + 1) ∧
      (Glimpse.entered glimpses).Nodup ∧
      walk.2.symbols.depth = 1 ∧ walk.2.symbols.current = walk.2.symbols.root ∧
      walk.2.symbols.root.id = 0 := by
  let all := root.sights place false none []
  have hnodup : (all.map (·.place)).Nodup := root.nodup_places _ _ _ _
  have hstart : Watching all [] [] (start (own, [])) := by
    refine ⟨rfl, rfl, fun f hf => ?_, ⟨fun g hg => ?_, fun xs g ys h => ?_⟩, List.nil_sublist _⟩
    · cases hf
    · cases hg
    · simp [start] at h
  obtain ⟨t, hrun, hplain, h⟩ := visit_watched hgentle hnodup root place false none [] [] [] _
    (by simp [all]) hstart
  have hwatched : run (watched before after) place root (own, []) = (none, t) := by
    rw [run, hrun]
  have hunwatched : run (before ++ after) place root own = (none, t.unwatched) := by
    rw [run, show start own = (start (own, ([] : List Glimpse))).unwatched from rfl, hplain]
  have hstacked : t.symbols.Stacked [0] := h.stacked
  have hinner : t.symbols.inner = [] := by
    have hlength := congrArg List.length hstacked
    simpa [ScopeTable.live] using hlength
  have hcurrent : t.symbols.current = t.symbols.root := by
    rw [ScopeTable.current, hinner]
    rfl
  have hroot : t.symbols.current.id = 0 := (List.cons.inj hstacked.current).1
  intro walk glimpses
  simp only [walk, glimpses, hwatched]
  refine ⟨trivial, hunwatched, h.faithful.mirrors, h.faithful.numbered, ?_, ?_, hcurrent, ?_⟩
  · exact h.sublist.nodup (by simpa using hnodup)
  · rw [ScopeTable.depth, hinner]
    rfl
  · rw [← hcurrent, hroot]

/-- The program `function () { (function () {}) }`: one handler replaces function expressions by a
name as they are entered, one declares a name at every node that is left. -/
theorem scopes_mirror_functions_replaced :
    let replace : Subscription Unit := ⟨some "FunctionExpression", .enter, fun e =>
      if e.inSlot then putName e.place ⟨Span.none, [120]⟩ else pure ()⟩
    let declare : Subscription Unit := ⟨none, .leave, fun e =>
      modifySymbols (·.declare [121] e.node)⟩
    let inner : Expr := .function Span.none (.mk none [] [] none (.braces Span.none []) false)
    let body : Block := .braces Span.none [.expression Span.none (.holds inner)]
    let root : Node := .program ⟨Span.none, [.function Span.none (.mk none [] [] none body false)]⟩
    let walk := run (watched [replace] [declare]) [] root ((), [])
    (∀ sub ∈ [replace] ++ [declare], Gentle sub.handle) ∧
      walk.1 = none ∧ walk.2.symbols.depth = 1 ∧
      ∀ g ∈ walk.2.own.2, ∃ v ∈ root.sights [] false none [],
        g.Mirrors (Glimpse.entered walk.2.own.2) v := by
  intro replace declare inner body root walk
  have hgentle : ∀ sub ∈ [replace] ++ [declare], Gentle sub.handle := by
    intro sub hsub e s
    rcases List.mem_cons.1 hsub with rfl | hsub
    · cases hslot : e.inSlot with
      | true =>
        refine ⟨{ s with edits := s.edits.putName e.place ⟨Span.none, [120]⟩ }, ?_, .refl _,
          [⟨Span.none, [120]⟩], by simp [hslot], rfl⟩
        simp only [replace, hslot, if_true]
        rfl
      | false =>
        refine ⟨s, ?_, .refl _, [], fun _ => rfl, rfl⟩
        simp only [replace, hslot, Bool.false_eq_true, if_false]
        rfl
    · obtain rfl := List.mem_singleton.1 hsub
      exact ⟨_, rfl, .declare _ _ (.refl _), [], fun _ => rfl, rfl⟩
  have h := scopes_mirror_functions [replace] [declare] hgentle [] root ()
  exact ⟨hgentle, h.1, h.2.2.2.2.2.1, h.2.2.1⟩

end Walk

end ScriptOptimizer
