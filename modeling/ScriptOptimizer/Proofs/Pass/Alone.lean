import ScriptOptimizer.Pass.Session
import ScriptOptimizer.Proofs.Walk.Sights

/-!
The walk of a session. It never fails and takes the steps of the walk one after another, so what it
ends with is a fold over them. In a session with one pass only that pass acts.
-/

namespace ScriptOptimizer

variable {σ : Type}

/-- What a step does to the state of a walk whose announcements act on it. -/
def Step.effect (act : Event → WalkState σ → WalkState σ) (s : WalkState σ) :
    Step → WalkState σ
  | .arrive n => { s with
      symbols := Walk.arriveAt n s.symbols
      nodes := s.nodes + 1
      functions := s.functions + if n.opensScope then 1 else 0 }
  | .announce e => act e s
  | .depart n => { s with symbols := if n.opensScope then s.symbols.leave else s.symbols }

/-- What a walk from a node on does to the state. -/
def Node.effect (act : Event → WalkState σ → WalkState σ) (place : Path) (inSlot : Bool)
    (parent : Option Node) (n : Node) (s : WalkState σ) : WalkState σ :=
  (n.steps place inSlot parent).foldl (Step.effect act) s

theorem Node.effect_eq (act : Event → WalkState σ → WalkState σ) (place : Path) (inSlot : Bool)
    (parent : Option Node) (n : Node) (s : WalkState σ) :
    n.effect act place inSlot parent s =
      Step.effect act (act ⟨.leave, n, place, inSlot, parent⟩
        (n.children.zipIdx.foldl
          (fun s c => c.1.node.effect act (c.2 :: place) c.1.inSlot (some n) s)
          (act ⟨.enter, n, place, inSlot, parent⟩ (Step.effect act s (.arrive n)))))
            (.depart n) := by
  rw [effect, steps_eq]
  simp only [List.cons_append, List.foldl_cons, List.foldl_append, List.foldl_flatMap,
    List.foldl_nil, Step.effect]
  rfl

namespace Node

/-- What entering a node and leaving it preserve holds after the whole of what lies below a node has
been walked. `all` are the sights of the whole tree. -/
theorem effect_children (all : List Sight) (act : Event → WalkState σ → WalkState σ)
    (I : List Sight → List Enclosure → WalkState σ → Prop)
    (henter : ∀ before (v : Sight) after s, before ++ v :: after = all → v.node.isProgram = false →
      I before v.around s → I (before ++ [v]) (v.node.within v.place v.around)
        (act ⟨.enter, v.node, v.place, v.inSlot, v.parent⟩ (Step.effect act s (.arrive v.node))))
    (hleave : ∀ before (v : Sight) s, v.node.isProgram = false →
      I before (v.node.within v.place v.around) s →
      I before v.around
        (Step.effect act (act ⟨.leave, v.node, v.place, v.inSlot, v.parent⟩ s) (.depart v.node)))
    (n : Node) : ∀ (place : Path) (around : List Enclosure) (cs : List (Child × Nat)),
      cs ⊆ n.children.zipIdx → ∀ before after s,
      before ++ (cs.flatMap fun c =>
        c.1.node.sights (c.2 :: place) c.1.inSlot (some n) around) ++ after = all →
      I before around s →
      I (before ++ cs.flatMap fun c =>
          c.1.node.sights (c.2 :: place) c.1.inSlot (some n) around) around
        (cs.foldl (fun s c => c.1.node.effect act (c.2 :: place) c.1.inSlot (some n) s) s) := by
  induction n using childInduction with
  | step n ih =>
    intro place around cs
    induction cs with
    | nil =>
      intro _ before after s _ h
      simpa using h
    | cons c cs ihcs =>
      intro hcs before after s hall h
      have hmem : c.1 ∈ n.children := List.fst_mem_of_mem_zipIdx (hcs (by simp))
      let v : Sight := ⟨c.1.node, c.2 :: place, c.1.inSlot, some n, around⟩
      rw [List.flatMap_cons, ← List.append_assoc, List.foldl_cons]
      rw [List.flatMap_cons, ← List.append_assoc, List.append_assoc (_ ++ _)] at hall
      refine ihcs (fun d hd => hcs (by simp [hd])) _ after _ (by simpa using hall) ?_
      rw [sights_eq] at hall ⊢
      have hentered := henter before v _ s (by simpa [v] using hall) (isProgram_child hmem) h
      have hbelow := ih c.1 hmem v.place (v.node.within v.place v.around) _
        (List.Subset.refl _) (before ++ [v]) _ _ (by simpa [v] using hall) hentered
      have hleft := hleave _ v _ (isProgram_child hmem) hbelow
      rw [effect_eq]
      simpa [v] using hleft

end Node

namespace Walk

/-- A step that does not fail and changes the state in a given way. -/
theorem forM_effect {r : Registry σ} {act : Event → WalkState σ → WalkState σ}
    (hact : ∀ e s, dispatch r e s = .ok () (act e s)) (steps : List Step) (s : WalkState σ) :
    steps.forM (Step.run r) s = .ok () (steps.foldl (Step.effect act) s) := by
  induction steps generalizing s with
  | nil => rfl
  | cons x rest ih =>
    have hx : x.run r s = .ok () (Step.effect act s x) := by
      cases x with
      | arrive n => exact run_arrive r n s
      | announce e => exact hact e s
      | depart n => exact run_depart r n s
    rw [List.forM_eq_forM, List.forM_cons, bind_ok hx]
    exact ih _

/-- A walk whose announcements only act on the state ends in the state after all of them. -/
theorem run_effect {subs : List (Subscription σ)} {act : Event → WalkState σ → WalkState σ}
    {place : Path} {root : Node}
    (hact : ∀ e s, dispatch (Registry.ofList subs) e s = .ok () (act e s))
    (hquiet : ∀ e ∈ (root.events place false none).dropLast, QuietAt (Registry.ofList subs) e)
    (own : σ) : run subs place root own = (none, root.effect act place false none (start own)) := by
  rw [run, visit_eq_steps root place false none (start own) hquiet rfl, forM_effect hact]
  rfl

end Walk

namespace Program

variable {p : Program}

/-- The steps of a walk over a program up to where the program is left. -/
def innerSteps (p : Program) : List Step :=
  .arrive (.program p) :: .announce ⟨.enter, .program p, [], false, none⟩ ::
    (Node.program p).children.zipIdx.flatMap fun c =>
      c.1.node.steps [c.2] c.1.inSlot (some (.program p))

theorem steps_eq (p : Program) : (Node.program p).steps [] false none =
    p.innerSteps ++
      [Step.announce ⟨.leave, .program p, [], false, none⟩, .depart (.program p)] := by
  rw [Node.steps_eq]
  rfl

theorem foldl_innerSteps (p : Program) (act : Event → WalkState σ → WalkState σ)
    (s : WalkState σ) : p.innerSteps.foldl (Step.effect act) s =
      (Node.program p).children.zipIdx.foldl
        (fun s c => c.1.node.effect act [c.2] c.1.inSlot (some (.program p)) s)
        (act ⟨.enter, .program p, [], false, none⟩ (Step.effect act s (.arrive (.program p)))) := by
  simp only [innerSteps, List.foldl_cons, List.foldl_flatMap, Step.effect]
  rfl

/-- Before a program is left, nothing is announced that could change the tree. -/
theorem phase_of_mem_innerSteps {e : Event} (he : .announce e ∈ p.innerSteps) :
    e.phase = .enter ∨ e.node.isProgram = false := by
  have hevents : e ∈ ((Node.program p).events [] false none).dropLast := by
    rw [Node.dropLast_events]
    simp only [innerSteps, List.mem_cons, List.mem_flatMap, reduceCtorEq, false_or,
      Step.announce.injEq] at he
    rcases he with rfl | ⟨c, hc, he⟩
    · exact List.mem_cons_self
    · exact List.mem_cons_of_mem _ (List.mem_flatMap.2 ⟨c, hc, Node.mem_events_of_announce he⟩)
  exact Node.enter_of_mem_dropLast hevents

end Program

namespace Session

/-- What the pass with a number does at an event. -/
def handled (index : Nat) (e : Event) (s : WalkState Session) : WalkState Session :=
  match s.own.passes[index]? with
  | none => s
  | some pass =>
    let r := react s.own.walks e s.symbols s.edits pass
    { s with
      symbols := r.symbols
      edits := r.edits
      own := { s.own with
        passes := s.own.passes.set index r.pass
        log := s.own.log ++ r.log
        earlier := revise e s.own.earlier pass } }

theorem handle_run (index : Nat) (e : Event) (s : WalkState Session) :
    handle index e s = .ok () (handled index e s) := by
  unfold handle handled
  rw [Walk.bind_ok (Walk.get_run s)]
  cases s.own.passes[index]? <;> rfl

/-- Only what is left last can put names into slots. -/
theorem react_edits (walk : Nat) (e : Event) (symbols : ScopeTable Node) (edits : Edits)
    (pass : Pass) (he : e.phase = .enter ∨ e.node.isProgram = false) :
    (react walk e symbols edits pass).edits = edits := by
  cases pass with
  | implicitGlobals found =>
    simp only [react, reactGlobals]
    split
    · rfl
    · split <;> rfl
    · rfl
  | cachedLiterals state =>
    obtain ⟨phase, node, place, inSlot, parent⟩ := e
    simp only [react, reactLiterals]
    split
    · rfl
    · rfl
    · rfl
    · rfl
    · simp_all [Node.isProgram]
    · rfl

theorem handle_keepsNames (index : Nat) {e : Event}
    (he : e.phase = .enter ∨ e.node.isProgram = false) : Walk.KeepsNames (handle index e) := by
  intro s
  rw [handle_run, handled]
  cases s.own.passes[index]? with
  | none => rfl
  | some pass => simp only [react_edits _ _ _ _ _ he]

/-- What is not announced to a pass would not have made it react. -/
theorem react_apart {e : Event} {pass : Pass} (h : (e.node.type, e.phase) ∉ interests pass)
    (walk : Nat) (symbols : ScopeTable Node) (edits : Edits) :
    react walk e symbols edits pass = ⟨pass, symbols, edits, []⟩ := by
  obtain ⟨phase, n, place, inSlot, parent⟩ := e
  cases pass with
  | implicitGlobals found =>
    simp only [react, reactGlobals]
    split
    · simp [interests, Node.type] at h
    · rename_i x
      cases x with
      | assign span operator left right => simp [interests, Node.type, Expr.type] at h
      | _ => rfl
    · rfl
  | cachedLiterals state =>
    simp only [react, reactLiterals]
    split
    all_goals first
      | rfl
      | simp_all [interests, Node.type, Stmt.type, Expr.type]

theorem revise_apart {e : Event} {pass : Pass} (h : (e.node.type, e.phase) ∉ interests pass)
    (earlier : List Edits) : revise e earlier pass = earlier := by
  obtain ⟨phase, n, place, inSlot, parent⟩ := e
  cases pass with
  | implicitGlobals found => rfl
  | cachedLiterals state =>
    simp only [revise]
    split
    · simp [interests, Node.type] at h
    · rfl

/-- Announces an event to the pass with a number, if that is in its interests. -/
def tell (e : Event) (s : WalkState Session) (pass : Pass × Nat) : WalkState Session :=
  if (e.node.type, e.phase) ∈ interests pass.1 then handled pass.2 e s else s

/-- The announcements to a session, in the order of its passes. -/
def announced (passes : List Pass) (e : Event) (s : WalkState Session) : WalkState Session :=
  passes.zipIdx.foldl (tell e) s

/-- Whether or not it is told of an event, a pass does what its reaction to the event is. -/
theorem tell_eq {pass now : Pass} {index : Nat} {s : WalkState Session}
    (hnow : s.own.passes[index]? = some now) (hsame : interests pass = interests now) (e : Event) :
    let r := react s.own.walks e s.symbols s.edits now
    tell e s (pass, index) = { s with
      symbols := r.symbols
      edits := r.edits
      own := { s.own with
        passes := s.own.passes.set index r.pass
        log := s.own.log ++ r.log
        earlier := revise e s.own.earlier now } } := by
  intro r
  unfold tell
  split
  · simp only [handled, hnow, r]
  · rename_i hapart
    rw [hsame] at hapart
    obtain ⟨hindex, hget⟩ := List.getElem?_eq_some_iff.1 hnow
    have hkept : s.own.passes.set index now = s.own.passes := by
      rw [← hget, List.set_getElem_self]
    simp only [r, react_apart hapart, revise_apart hapart, hkept, List.append_nil]

theorem announced_single {pass now : Pass} {s : WalkState Session} (hs : s.own.passes = [now])
    (hsame : interests pass = interests now) (e : Event) :
    let r := react s.own.walks e s.symbols s.edits now
    announced [pass] e s = { s with
      symbols := r.symbols
      edits := r.edits
      own := { s.own with
        passes := [r.pass]
        log := s.own.log ++ r.log
        earlier := revise e s.own.earlier now } } := by
  have hnow : s.own.passes[0]? = some now := by simp [hs]
  rw [show announced [pass] e s = tell e s (pass, 0) from rfl, tell_eq hnow hsame e]
  simp [hs]

/-- The second of two passes sees what the first left. -/
theorem announced_pair {pass pass' now now' : Pass} {s : WalkState Session}
    (hs : s.own.passes = [now, now']) (hsame : interests pass = interests now)
    (hsame' : interests pass' = interests now') (e : Event) :
    let r := react s.own.walks e s.symbols s.edits now
    let r' := react s.own.walks e r.symbols r.edits now'
    announced [pass, pass'] e s = { s with
      symbols := r'.symbols
      edits := r'.edits
      own := { s.own with
        passes := [r.pass, r'.pass]
        log := s.own.log ++ r.log ++ r'.log
        earlier := revise e (revise e s.own.earlier now) now' } } := by
  intro r r'
  have hnow : s.own.passes[0]? = some now := by simp [hs]
  have hnow' : (tell e s (pass, 0)).own.passes[1]? = some now' := by
    simp [tell_eq hnow hsame e, hs]
  rw [show announced [pass, pass'] e s = tell e (tell e s (pass, 0)) (pass', 1) from rfl,
    tell_eq hnow' hsame' e, tell_eq hnow hsame e]
  simp [hs, r, r']

theorem interests_nodup (pass : Pass) : (interests pass).Nodup := by
  cases pass <;> simp [interests]

theorem concerned_once {list : List (NodeType × Phase)} (hlist : list.Nodup)
    (handle : Event → Walk σ Unit) (e : Event) :
    (list.map fun (type, phase) => (⟨some type, phase, handle⟩ : Subscription σ)).filter
        (·.concerns e) =
      if (e.node.type, e.phase) ∈ list then [⟨some e.node.type, e.phase, handle⟩] else [] := by
  induction list with
  | nil => rfl
  | cons entry rest ih =>
    obtain ⟨type, phase⟩ := entry
    obtain ⟨hnew, hrest⟩ := List.nodup_cons.1 hlist
    have hconcerns : (⟨some type, phase, handle⟩ : Subscription σ).concerns e =
        decide ((type, phase) = (e.node.type, e.phase)) := by
      simp [Subscription.concerns, Bool.decide_and, and_comm]
    rw [List.map_cons, List.filter_cons, hconcerns, ih hrest]
    by_cases hsame : (type, phase) = (e.node.type, e.phase)
    · obtain ⟨rfl, rfl⟩ := Prod.mk.inj hsame
      simp [hnew]
    · simp [hsame, Ne.symm hsame]

theorem dispatch_announced (s : Session) (e : Event) (state : WalkState Session) :
    Walk.dispatch (Registry.ofList s.subscriptions) e state =
      .ok () (announced s.passes e state) := by
  rw [Walk.dispatch_ofList, subscriptions, announced, List.filter_flatMap]
  induction s.passes.zipIdx generalizing state with
  | nil => rfl
  | cons pass rest ih =>
    obtain ⟨pass, index⟩ := pass
    have htold : ((((interests pass).map fun (type, phase) =>
        (⟨some type, phase, handle index⟩ : Subscription Session)).filter (·.concerns e)).forM
          (Walk.call e)) state = .ok () (tell e state (pass, index)) := by
      rw [concerned_once (interests_nodup pass), tell]
      split
      · exact Walk.forM_cons_ok (Walk.call_ok (handle_run index e state))
      · rfl
    rw [List.flatMap_cons, Walk.forM_append_ok htold, List.foldl_cons]
    exact ih _

/-- The state after a session has walked a program. -/
def ended (s : Session) (p : Program) : WalkState Session :=
  (Node.program p).effect (announced s.passes) [] false none (Walk.start s)

/-- The program is left after all that is in it. -/
theorem ended_eq (s : Session) (p : Program) : s.ended p =
    announced s.passes ⟨.leave, .program p, [], false, none⟩
      (p.innerSteps.foldl (Step.effect (announced s.passes)) (Walk.start s)) := by
  rw [ended, Node.effect, Program.steps_eq, List.foldl_append]
  rfl

/-- A session takes the steps of the walk one after another. -/
theorem walkProgram_eq (s : Session) (p : Program) :
    s.walkProgram p =
      (p.edit (s.ended p).edits, (s.ended p).symbols,
        { (s.ended p).own with
          log := (s.ended p).own.log ++ [walkEntry (s.ended p).nodes (s.ended p).functions]
          walks := (s.ended p).own.walks + 1
          earlier := (s.ended p).own.earlier ++ [(s.ended p).edits] }) := by
  have hquiet : ∀ e ∈ ((Node.program p).events [] false none).dropLast,
      Walk.QuietAt (Registry.ofList s.subscriptions) e := by
    intro e he
    refine Walk.quietAt_ofList fun sub hsub => ?_
    obtain ⟨⟨other, index⟩, -, hsub⟩ := List.mem_flatMap.1 hsub
    obtain ⟨interest, -, rfl⟩ := List.mem_map.1 hsub
    exact handle_keepsNames index (Node.enter_of_mem_dropLast he)
  rw [walkProgram, walk, Walk.run_effect s.dispatch_announced hquiet s]
  rfl

/-- The announcements to a session with one pass. -/
def act (pass : Pass) (e : Event) (s : WalkState Session) : WalkState Session :=
  if (e.node.type, e.phase) ∈ interests pass then handled 0 e s else s

/-- The state after a session with one pass has walked a program. -/
def walked (s : Session) (pass : Pass) (p : Program) : WalkState Session :=
  (Node.program p).effect (act pass) [] false none (Walk.start s)

theorem ended_alone {s : Session} {pass : Pass} (hs : s.passes = [pass]) (p : Program) :
    s.ended p = s.walked pass p := by
  rw [ended, hs]
  rfl

/-- A session with one pass takes the steps of the walk one after another. -/
theorem walk_alone {s : Session} {pass : Pass} (hs : s.passes = [pass]) (p : Program) :
    s.walkProgram p =
      (p.edit (s.walked pass p).edits, (s.walked pass p).symbols,
        { (s.walked pass p).own with
          log := (s.walked pass p).own.log ++
            [walkEntry (s.walked pass p).nodes (s.walked pass p).functions]
          walks := (s.walked pass p).own.walks + 1
          earlier := (s.walked pass p).own.earlier ++ [(s.walked pass p).edits] }) := by
  rw [walkProgram_eq, ended_alone hs]

end Session

end ScriptOptimizer
