import ScriptOptimizer.Proofs.Parse.WellFormed
import ScriptOptimizer.Proofs.Pass.LiteralRewrite
import ScriptOptimizer.Proofs.Syntax.Sites

/-!
Where declarations and names stand after a walk. The declarations of an owner come after the bare
literals that lead its body, and what follows in the body moves by their number. The names follow
the declaration unless their literals stand in a function beside its body.
-/

namespace ScriptOptimizer

namespace Node

/-- The statements of a program or a block. -/
def statements : Node → List Stmt
  | .program p => p.body
  | .stmt (.block _ body) => body
  | _ => []

/-- Is it a block? -/
def isBlock : Node → Bool
  | .stmt (.block _ _) => true
  | _ => false

theorem eq_block_of_isBlock {n : Node} (h : n.isBlock = true) :
    ∃ span body, n = .stmt (.block span body) := by
  cases n with
  | stmt s =>
    cases s with
    | block span body => exact ⟨span, body, rfl⟩
    | _ => cases h
  | _ => cases h

theorem opensScope_of_isBlock {n : Node} (h : n.isBlock = true) : n.opensScope = false := by
  obtain ⟨span, body, rfl⟩ := eq_block_of_isBlock h
  rfl

end Node

namespace Sight

/-- Is it the program or the block of a function that receives the declarations of an owner? -/
def isBodyOf (owner : Path) (v : Sight) : Bool :=
  match v.place with
  | [] => owner = []
  | _ :: above => v.parent.any (·.opensScope) && v.node.isBlock && owner = above

theorem block_or_root {owner : Path} {v : Sight} (h : v.isBodyOf owner = true) :
    v.node.isBlock = true ∨ v.place = [] := by
  unfold isBodyOf at h
  split at h
  · rename_i hroot
    exact .inr hroot
  · simp only [Bool.and_eq_true] at h
    exact .inl h.1.2

theorem isWholeStatement_of_spot? {v : Sight} {u : Spot} (h : v.spot? = some u) :
    v.isWholeStatement = false := by
  unfold spot? at h
  split at h
  · split at h
    · rename_i hif
      simp only [Bool.and_eq_true, Bool.not_eq_true'] at hif
      exact hif.2
    · cases h
  · cases h

/-- How many bare literals lead its statements. -/
def lead (v : Sight) : Nat := (v.node.statements.takeWhile (·.isDirective)).length

end Sight

namespace Program

/-- How many declarations are put before a child of the node at a place. -/
def ahead (p : Program) (hs : List Hoisting) (place : Path) (k : Nat) : Nat :=
  match p.sights.find? (·.place = place) with
  | some v => if k < v.lead then 0 else hs.countP fun h => v.isBodyOf h.cluster.owner
  | none => 0

/-- The place of a node of the program when declarations were put into it. -/
def moved (p : Program) (hs : List Hoisting) : Path → Path
  | [] => []
  | k :: place => (k + p.ahead hs place k) :: p.moved hs place

end Program

/-! ### Places -/

namespace Program

variable {p : Program} {hs : List Hoisting}

theorem root_mem_sights (p : Program) : ⟨.program p, [], false, none, []⟩ ∈ p.sights := by
  rw [sights_eq]
  exact List.mem_cons_self ..

theorem eq_root {v : Sight} (hv : v ∈ p.sights) (h : v.place = []) :
    v = ⟨.program p, [], false, none, []⟩ :=
  eq_of_place_eq hv p.root_mem_sights h

theorem child_mem {v : Sight} (hv : v ∈ p.sights) {c : Child × Nat}
    (hc : c ∈ v.node.children.zipIdx) : v.child c ∈ p.sights :=
  Node.child_mem_sights _ _ _ _ _ v hv c hc

theorem eq_child {w : Sight} (hw : w ∈ p.sights) (h : w.place ≠ []) :
    ∃ v ∈ p.sights, ∃ c ∈ v.node.children.zipIdx, w = v.child c := by
  refine (Node.eq_child_of_mem_sights _ _ _ _ _ w hw).resolve_left fun hroot => h ?_
  rw [hroot]

/-- What lies below a node lies below a child of it. -/
theorem child_of_suffix {v w : Sight} (hv : v ∈ p.sights) (hw : w ∈ p.sights)
    (h : v.place <:+ w.place) : w = v ∨
      ∃ c ∈ v.node.children.zipIdx, c.2 :: v.place <:+ w.place := by
  -- Going up from the lower node, the last step before the upper one is the child.
  obtain ⟨place, hplace⟩ : ∃ place, w.place = place := ⟨_, rfl⟩
  induction place generalizing w with
  | nil =>
    rw [hplace, List.suffix_nil] at h
    exact .inl (eq_of_place_eq hw hv (hplace.trans h.symm))
  | cons k place ih =>
    obtain ⟨x, hx, c, hc, rfl⟩ := eq_child hw (by simp [hplace])
    rcases List.suffix_cons_iff.1 h with heq | h
    · exact .inl (eq_of_place_eq hw hv heq.symm)
    · have hplace : x.place = place := (List.cons.inj hplace).2
      rcases ih hx h hplace with rfl | ⟨d, hd, h⟩
      · exact .inr ⟨c, hc, List.suffix_refl _⟩
      · exact .inr ⟨d, hd, h.trans (List.suffix_cons ..)⟩

theorem find?_place {v : Sight} (hv : v ∈ p.sights) :
    p.sights.find? (·.place = v.place) = some v := by
  cases hfind : p.sights.find? (·.place = v.place) with
  | none => simpa using List.find?_eq_none.1 hfind v hv
  | some u =>
    have hplace : u.place = v.place := by simpa using List.find?_some hfind
    rw [eq_of_place_eq (List.mem_of_find?_eq_some hfind) hv hplace]

theorem ahead_eq {v : Sight} (hv : v ∈ p.sights) (k : Nat) : p.ahead hs v.place k =
    if k < v.lead then 0 else hs.countP fun h => v.isBodyOf h.cluster.owner := by
  rw [ahead, find?_place hv]

theorem ahead_mono (p : Program) (hs : List Hoisting) (place : Path) {k l : Nat} (h : k < l) :
    k + p.ahead hs place k < l + p.ahead hs place l := by
  unfold ahead
  split
  · split <;> split <;> omega
  · omega

theorem moved_injective (p : Program) (hs : List Hoisting) : Function.Injective (p.moved hs) := by
  intro place other h
  induction place generalizing other with
  | nil => cases other <;> simp_all [moved]
  | cons k place ih =>
    cases other with
    | nil => simp [moved] at h
    | cons l other =>
      obtain ⟨hlast, hrest⟩ := List.cons.inj h
      obtain rfl := ih hrest
      rcases Nat.lt_trichotomy k l with hlt | rfl | hlt
      · exact absurd hlast (Nat.ne_of_lt (ahead_mono p hs place hlt))
      · rfl
      · exact absurd hlast.symm (Nat.ne_of_lt (ahead_mono p hs place hlt))

theorem moved_suffix {place other : Path} (h : place <:+ other) :
    p.moved hs place <:+ p.moved hs other := by
  obtain ⟨inner, rfl⟩ := h
  induction inner with
  | nil => exact List.suffix_refl _
  | cons k inner ih => exact ih.trans (List.suffix_cons ..)

theorem suffix_moved {j : Nat} {place other : Path}
    (h : j :: p.moved hs place <:+ p.moved hs other) :
    ∃ k, k :: place <:+ other ∧ j = k + p.ahead hs place k := by
  induction other with
  | nil => simp [moved] at h
  | cons k other ih =>
    rcases List.suffix_cons_iff.1 h with heq | h
    · obtain ⟨rfl, hrest⟩ := List.cons.inj heq
      obtain rfl := moved_injective p hs hrest
      exact ⟨k, List.suffix_refl _, rfl⟩
    · obtain ⟨l, hl, hj⟩ := ih h
      exact ⟨l, hl.trans (List.suffix_cons ..), hj⟩

end Program

/-! ### The program after a walk -/

namespace Program

variable {settings : LiteralSettings} {p : Program} {v : Sight}

theorem lead_site (hv : v ∈ p.sights) (h : v.node.isBlock = true ∨ v.place = []) :
    v.site.part.lead = v.lead := by
  have hbody (body : List Stmt) : ((Stmt.outlines body).takeWhile Outline.isDirective).length =
      (body.takeWhile (·.isDirective)).length := by
    have hdirective : Outline.isDirective ∘ Stmt.outline = Stmt.isDirective :=
      funext Stmt.isDirective_outline
    rw [Stmt.outlines_eq_map, List.takeWhile_map, List.length_map, hdirective]
  rcases h with hblock | hroot
  · obtain ⟨n, place, inSlot, parent, around⟩ := v
    obtain ⟨span, body, rfl⟩ := Node.eq_block_of_isBlock hblock
    exact hbody body
  · rw [eq_root hv hroot]
    exact hbody p.body

theorem isBlock_site (v : Sight) : v.site.part.isBlock = v.node.isBlock := by
  obtain ⟨n, place, inSlot, parent, around⟩ := v
  cases n with
  | stmt s => cases s <;> rfl
  | case c => cases c; rfl
  | handler h => cases h <;> rfl
  | declarator d => cases d; rfl
  | _ => rfl

theorem received_eq (v : Sight) (hs : List Hoisting) :
    v.site.received (Hoisting.changes hs) =
      (hs.filter fun h => v.isBodyOf h.cluster.owner).map (·.declaration.outline) := by
  rw [Site.received, isBlock_site]
  obtain ⟨n, place, inSlot, parent, around⟩ := v
  cases place with
  | nil => rfl
  | cons k above =>
    simp only [Sight.isBodyOf, Sight.site]
    by_cases hbody : (parent.any (·.opensScope) && n.isBlock) = true
    · simp [Hoisting.changes, hbody]
    · simp [hbody]

theorem total_received (v : Sight) (hs : List Hoisting) :
    Outline.total (v.site.received (Hoisting.changes hs)) =
      hs.countP fun h => v.isBodyOf h.cluster.owner := by
  have hcount (h : Hoisting) : h.declaration.outline.count = 1 := rfl
  simp [received_eq, Outline.total, Function.comp_def, hcount, List.countP_eq_length_filter]

theorem spot_of_name {place : Path}
    (h : (Hoisting.changes (p.hoistings settings)).name? place ≠ none) :
    ∃ w ∈ p.sights, w.place = place ∧ w.isWholeStatement = false ∧
      ∃ lit, w.node = .expr (.literal lit) := by
  obtain ⟨id, hname⟩ := Option.ne_none_iff_exists'.1 h
  obtain ⟨h, hh, u, hu, hplace, -⟩ := mem_names hname
  obtain ⟨w, hw, hwplace, -, hnode, hspot, -⟩ :=
    sight_of_mem_spots (mem_spots_of_hoisting hh hu)
  exact ⟨w, hw, hwplace.trans hplace, Sight.isWholeStatement_of_spot? hspot, _, hnode⟩

theorem fitting (settings : LiteralSettings) (p : Program) :
    Fitting (Hoisting.changes (p.hoistings settings)) (p.moved (p.hoistings settings))
      (p.sights.map Sight.site) := by
  constructor
  · intro s hs k
    obtain ⟨v, hv, rfl⟩ := List.mem_map.1 hs
    have hplace : v.site.place = v.place := rfl
    rw [hplace, moved, ahead_eq hv, total_received]
    by_cases hbody : v.node.isBlock = true ∨ v.place = []
    · rw [lead_site hv hbody]
    · have hnone : ((p.hoistings settings).countP fun h => v.isBodyOf h.cluster.owner) = 0 := by
        rw [List.countP_eq_zero]
        exact fun h _ howner => hbody (Sight.block_or_root howner)
      simp only [hnone, ite_self]
  · intro s hs own parts hpart hname
    obtain ⟨v, hv, rfl⟩ := List.mem_map.1 hs
    obtain ⟨w, hw, hplace, -, lit, hnode⟩ := spot_of_name hname
    obtain rfl := eq_of_place_eq hw hv hplace
    have houtlines : w.node.outlines = parts := (Outline.node.inj hpart).2.2
    refine ⟨by rw [← houtlines, hnode]; rfl, ?_⟩
    rw [received_eq, List.map_eq_nil_iff, List.filter_eq_nil_iff]
    intro h _ hbody
    rcases Sight.block_or_root hbody with hblock | hroot
    · rw [hnode] at hblock
      cases hblock
    · rw [eq_root hv hroot] at hnode
      cases hnode
  · intro s hs hdirective
    obtain ⟨v, hv, rfl⟩ := List.mem_map.1 hs
    by_contra hname
    obtain ⟨w, hw, hplace, hwhole, -⟩ := spot_of_name hname
    obtain ⟨x, hx, c, hc, rfl⟩ := eq_child hw (by simp [hplace])
    obtain rfl := eq_of_place_eq hx hv (List.cons.inj hplace).2
    have hstatement : (x.child c).isWholeStatement = true := by
      obtain ⟨n, place, inSlot, parent, around⟩ := x
      cases n with
      | stmt s =>
        cases s with
        | expression span e => rfl
        | _ => cases hdirective
      | expr e => cases hdirective
      | case k => cases k; cases hdirective
      | handler k => cases k <;> cases hdirective
      | declarator d => cases d; cases hdirective
      | _ => cases hdirective
    rw [hstatement] at hwhole
    cases hwhole

end Program

/-- The program after a walk with a fresh pass. -/
def Program.afterWalk (settings : LiteralSettings) (p : Program) : Program :=
  ((Session.start settings [.cachedLiterals]).walkProgram p).1

namespace Program

variable {settings : LiteralSettings} {p : Program}

/-- After a walk the program has the sights that it had before, moved, and those of the
declarations. -/
theorem sites_afterWalk (settings : LiteralSettings) (p : Program) :
    let hs := p.hoistings settings
    ((p.afterWalk settings).sights.map Sight.site).Perm (p.sights.flatMap fun v =>
      v.site.moved (Hoisting.changes hs) (p.moved hs) ::
        v.site.gained (Hoisting.changes hs) (p.moved hs)) := by
  intro hs
  obtain ⟨o, hsettled, hafter, -⟩ := Session.walkProgram_literals settings p
  have hfitting := p.fitting settings
  rw [← p.sites_outline] at hfitting
  have hsites := Outline.sites_rewrite p.outline [] false [] hfitting
  rw [p.sites_outline, List.flatMap_map] at hsites
  rw [← sites_outline, show p.afterWalk settings = _ from hafter, outline_edit,
    changes_settled hsettled]
  exact hsites

theorem sight_afterWalk (settings : LiteralSettings) {v : Sight} (hv : v ∈ p.sights) :
    let hs := p.hoistings settings
    ∃ w ∈ (p.afterWalk settings).sights,
      w.site = v.site.moved (Hoisting.changes hs) (p.moved hs) := by
  intro hs
  have hmem : v.site.moved (Hoisting.changes hs) (p.moved hs) ∈
      (p.afterWalk settings).sights.map Sight.site :=
    (sites_afterWalk settings p).mem_iff.2 (List.mem_flatMap.2 ⟨v, hv, List.mem_cons_self ..⟩)
  obtain ⟨w, hw, hsite⟩ := List.mem_map.1 hmem
  exact ⟨w, hw, hsite⟩

theorem name?_spot {h : Hoisting} (hh : h ∈ p.hoistings settings) {u : Spot}
    (hu : u ∈ h.cluster.spots) : (Hoisting.changes (p.hoistings settings)).name? u.place =
      some ⟨u.literal.span, h.name⟩ := by
  have hentry : (u.place, ⟨u.literal.span, h.name⟩) ∈
      (p.hoistings settings).flatMap Hoisting.names :=
    List.mem_flatMap.2 ⟨h, hh, List.mem_map.2 ⟨u, hu, rfl⟩⟩
  cases hname : (Hoisting.changes (p.hoistings settings)).name? u.place with
  | none =>
    rw [Hoisting.changes, Option.map_eq_none_iff, List.find?_eq_none] at hname
    simpa using hname _ hentry
  | some id =>
    obtain ⟨x, hfind, rfl⟩ := Option.map_eq_some_iff.1 hname
    have hplace : x.1 = u.place := by simpa using List.find?_some hfind
    rw [List.inj_on_of_nodup_map (p.nodup_names settings) (List.mem_of_find?_eq_some hfind) hentry
      hplace]

/-- At each spot there is the name. -/
theorem name_afterWalk {h : Hoisting} (hh : h ∈ p.hoistings settings) {u : Spot}
    (hu : u ∈ h.cluster.spots) :
    let hs := p.hoistings settings
    ∃ w ∈ (p.afterWalk settings).sights, w.place = p.moved hs u.place ∧
      w.node = .expr (.ident ⟨u.literal.span, h.name⟩) ∧
      w.around.map (·.place) = u.around.map fun f => p.moved hs f.place := by
  intro hs
  obtain ⟨v, hv, hplace, hslot, hnode, hspot, -⟩ :=
    sight_of_mem_spots (mem_spots_of_hoisting hh hu)
  obtain ⟨w, hw, hsite⟩ := sight_afterWalk settings hv
  have hname : (Hoisting.changes hs).name? v.place = some ⟨u.literal.span, h.name⟩ := by
    rw [hplace, name?_spot hh hu]
  have haround : u.around = v.around := by
    obtain ⟨lit, -, -, -, heq⟩ := Sight.of_spot? hspot
    rw [heq]
  have hpart : w.site.part = Child.outline ⟨.expr (.ident ⟨u.literal.span, h.name⟩), true⟩ := by
    rw [hsite]
    simp only [Site.moved, Sight.site, Child.outline, Outline.rewrite, hslot, if_true]
    rw [show (Hoisting.changes (p.hoistings settings)).name? v.place = _ from hname]
    rfl
  refine ⟨w, hw, ?_, Node.eq_expr hpart, ?_⟩
  · rw [← hplace]
    exact congrArg Site.place hsite
  · rw [haround]
    simpa [Site.moved, Sight.site, Function.comp_def] using congrArg Site.around hsite

/-- The declarations of an owner come one after another in its body. -/
theorem declaration_afterWalk {h : Hoisting} (hh : h ∈ p.hoistings settings) {body : Sight}
    (hbody : body ∈ p.sights) (howner : body.isBodyOf h.cluster.owner = true) :
    let hs := p.hoistings settings
    ∃ i, (hs.filter fun k => body.isBodyOf k.cluster.owner)[i]? = some h ∧
      ∃ w ∈ (p.afterWalk settings).sights,
        w.place = (body.lead + i) :: p.moved hs body.place ∧ w.node = .stmt h.declaration ∧
        w.around.map (·.place) = body.around.map fun f => p.moved hs f.place := by
  intro hs
  have hshape := Sight.block_or_root howner
  obtain ⟨i, hi⟩ := List.getElem?_of_mem
    (List.mem_filter.2 ⟨hh, howner⟩ : h ∈ hs.filter fun k => body.isBodyOf k.cluster.owner)
  have hsite : (⟨(body.lead + i) :: p.moved hs body.place, h.declaration.outline, false,
      body.around.map fun f => p.moved hs f.place⟩ : Site) ∈
        body.site.gained (Hoisting.changes hs) (p.moved hs) := by
    have hopens : body.site.part.opensScope = false := by
      rcases hshape with hblock | hroot
      · exact (Node.opensScope_husk _).trans (Node.opensScope_of_isBlock hblock)
      · rw [eq_root hbody hroot]
        rfl
    have haround : body.site.inside.map (p.moved hs) =
        body.around.map fun f => p.moved hs f.place := by
      rw [Site.inside, if_neg (by simp [hopens])]
      simp [Sight.site, Function.comp_def]
    rw [Site.gained, hopens, haround, lead_site hbody hshape, received_eq]
    refine Outline.mem_sitesAll (fun o ho => ?_) (by rw [List.getElem?_map, hi]; rfl)
    obtain ⟨k, -, rfl⟩ := List.mem_map.1 ho
    rfl
  have hmem := (sites_afterWalk settings p).mem_iff.2
    (List.mem_flatMap.2 ⟨body, hbody, List.mem_cons_of_mem _ hsite⟩)
  obtain ⟨w, hw, heq⟩ := List.mem_map.1 hmem
  refine ⟨i, hi, w, hw, congrArg Site.place heq, ?_, congrArg Site.around heq⟩
  exact Node.eq_stmt (b := false) (congrArg Site.part heq)

end Program

end ScriptOptimizer
