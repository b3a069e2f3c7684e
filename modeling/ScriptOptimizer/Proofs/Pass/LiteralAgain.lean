import ScriptOptimizer.Proofs.Pass.LiteralNames
import ScriptOptimizer.Proofs.Walk.Sights

/-!
Walking a program again after a walk with a fresh pass. Literals that were declared stand in their
declarations only, and all others stand as they stood, in the same order and inside the same
functions; so there is nothing left to declare.
-/

namespace ScriptOptimizer

/-! ### What outlines say about spots and bodies -/

namespace Outline

/-- May a name stand for the part with a number? It may not for a plain key, nor for the whole of an
expression statement. -/
def takesName (k : Nat) : Outline → Bool
  | node (.property (.entry _ _ _ _ computed _)) _ (key :: _) => computed || !key.isNode || k ≠ 0
  | node (.stmt (.expression _ _)) _ _ => false
  | _ => true

/-- Is it a function whose last part, the body, is there? -/
def hasBody : Outline → Bool
  | gap _ => false
  | node own _ parts => own.opensScope && parts.getLast?.any isNode

variable {c : Changes}

theorem isNode_rewrite (o : Outline) (new : List Outline) (place : Path) :
    (o.rewrite c new place).isNode = o.isNode := by
  cases o with
  | gap vacant => simp [rewrite]
  | node own inSlot parts =>
    rw [rewrite]
    split <;> rfl

theorem map_isNode_rewriteAll (inFunction : Bool) (parent : Path) (first : Nat)
    (parts : List Outline) :
    (rewriteAll c inFunction parent first parts).map isNode = parts.map isNode := by
  induction parts generalizing first with
  | nil => simp [rewriteAll]
  | cons o rest ih => rw [rewriteAll, List.map_cons, List.map_cons, isNode_rewrite, ih]

/-- A node that gets no name and receives no statements keeps its parts, each changed by itself. -/
theorem rewrite_nil {own : Node} {inSlot : Bool} {parts : List Outline} {place : Path}
    (h : c.name? place = none) : (node own inSlot parts).rewrite c [] place =
      node own inSlot (rewriteAll c own.opensScope place 0 parts) := by
  rw [rewrite, h, ite_self, splice_nil]

theorem takesName_rewrite {o : Outline} {place : Path} (h : c.name? place = none) (k : Nat) :
    (o.rewrite c [] place).takesName k = o.takesName k := by
  cases o with
  | gap vacant => simp [rewrite]
  | node own inSlot parts =>
    rw [rewrite_nil h]
    cases own with
    | property x =>
      cases x with
      | absent => rfl
      | entry span kind key value computed shorthand =>
        cases parts with
        | nil => rfl
        | cons key rest =>
          rw [rewriteAll, takesName, takesName, isNode_rewrite]
    | stmt s => cases s <;> rfl
    | _ => rfl

theorem hasBody_rewrite {o : Outline} {new : List Outline} {place : Path}
    (h : c.name? place = none) (hnew : o.opensScope = true → new = []) :
    (o.rewrite c new place).hasBody = o.hasBody := by
  cases o with
  | gap vacant => simp [rewrite]
  | node own inSlot parts =>
    have hlast (xs : List Outline) : xs.getLast?.any isNode = (xs.map isNode).getLast?.any id := by
      rw [List.getLast?_map]
      cases xs.getLast? <;> rfl
    cases hopens : own.opensScope with
    | false => rw [rewrite, h, ite_self, hasBody, hasBody, hopens, Bool.false_and, Bool.false_and]
    | true =>
      rw [hnew hopens, rewrite_nil h, hasBody, hasBody, hlast, map_isNode_rewriteAll, ← hlast]

end Outline

namespace Sight

variable {v : Sight}

theorem place_of_spot? {u : Spot} (h : v.spot? = some u) :
    u.place = v.place ∧ u.around = v.around := by
  obtain ⟨lit, -, -, -, heq⟩ := of_spot? h
  exact ⟨congrArg Spot.place heq, congrArg Spot.around heq⟩

/-- Whether a child may be replaced by a name shows in the outline of the node above it. -/
theorem takesName_site (v : Sight) (c : Child × Nat) :
    (!(v.child c).isPlainKey && !(v.child c).isWholeStatement) = v.site.part.takesName c.2 := by
  obtain ⟨n, place, inSlot, parent, around⟩ := v
  cases n with
  | property x =>
    cases x with
    | absent => rfl
    | entry span kind key value computed shorthand =>
      cases key <;> cases computed <;>
        simp [child, isPlainKey, isWholeStatement, site, Child.outline, Node.husk, Property.husk,
          Node.outlines, Outline.takesName, Slot.outline, Outline.isNode]
  | stmt s => cases s <;> rfl
  | case k => cases k; rfl
  | handler k => cases k <;> rfl
  | declarator d => cases d; rfl
  | _ => rfl

theorem hasBody_site (v : Sight) : v.site.part.hasBody = v.node.isFunctionWithBody := by
  have hfunction (fn : Function) : fn.parts.getLast?.any Outline.isNode = Session.hasBody fn := by
    obtain ⟨id, params, defaults, rest, body, generator⟩ := fn
    have hparts : (Function.mk id params defaults rest body generator).parts =
        (Ident.outline id :: (Slot.outlines params ++ (Slot.outlines defaults ++
          [Ident.outline rest]))) ++ [body.outline] := by
      simp [Function.parts]
    rw [hparts, List.getLast?_concat]
    cases body <;> rfl
  obtain ⟨n, place, inSlot, parent, around⟩ := v
  cases n with
  | stmt s =>
    cases s with
    | function span fn => exact hfunction fn
    | _ => rfl
  | expr x =>
    cases x with
    | function span fn => exact hfunction fn
    | _ => rfl
  | case k => cases k; rfl
  | handler k => cases k <;> rfl
  | declarator d => cases d; rfl
  | _ => rfl

end Sight

theorem Node.literal_of_husk {n : Node} {lit : Literal} (h : n.husk = .expr (.literal lit)) :
    n = .expr (.literal lit) := by
  cases n with
  | expr x =>
    cases x with
    | literal other => exact h
    | _ => cases h
  | case c => cases c; cases h
  | handler c => cases c <;> cases h
  | declarator d => cases d; cases h
  | _ => cases h

/-! ### Spots that are seen again -/

/-- The spot is seen again, moved: the same literal, inside the same functions. -/
structure Spot.SeenAgain (move : Path → Path) (u w : Spot) : Prop where
  key : w.key = u.key
  literal : w.literal = u.literal
  place : w.place = move u.place
  around : List.Forall₂ (fun f g => g.place = move f.place ∧
    g.node.isFunctionWithBody = f.node.isFunctionWithBody) u.around w.around

section

variable {α β : Type} {xs : List α} {ys : List β} {s : α → Bool} {t : β → Bool}

theorem map_of_forall₂ {γ : Type} {f : α → γ} {g : β → γ}
    (h : List.Forall₂ (fun x y => f x = g y) xs ys) : xs.map f = ys.map g := by
  rw [← List.forall₂_eq_eq_eq, List.forall₂_map_left_iff, List.forall₂_map_right_iff]
  exact h

theorem any_of_forall₂ (h : List.Forall₂ (fun x y => s x = t y) xs ys) : xs.any s = ys.any t := by
  have := congrArg (List.any · id) (map_of_forall₂ h)
  simpa [List.any_map] using this

theorem all_of_forall₂ (h : List.Forall₂ (fun x y => s x = t y) xs ys) : xs.all s = ys.all t := by
  have := congrArg (List.all · id) (map_of_forall₂ h)
  simpa [List.all_map] using this

theorem filter_forall₂ {R : α → β → Prop} (h : List.Forall₂ R xs ys)
    (hsame : ∀ x y, R x y → s x = t y) : List.Forall₂ R (xs.filter s) (ys.filter t) := by
  induction h with
  | nil => exact .nil
  | @cons x y xs ys hxy _ ih =>
    rw [List.filter_cons, List.filter_cons, hsame x y hxy]
    split
    · exact .cons hxy ih
    · exact ih

end

/-- Two ordered lists are related one by one if each element of either is related to one of the
other, and the relation keeps what the order is about. -/
theorem forall₂_of_ordered {α β γ : Type} {R : α → β → Prop} {r : γ → γ → Prop} {f : α → γ}
    {g : β → γ} {xs : List α} {ys : List β} (hr : ∀ a b, r a b → ¬r b a)
    (hsame : ∀ x y, R x y → f x = g y) (hxs : xs.Pairwise fun x y => r (f x) (f y))
    (hys : ys.Pairwise fun x y => r (g x) (g y)) (hleft : ∀ x ∈ xs, ∃ y ∈ ys, R x y)
    (hright : ∀ y ∈ ys, ∃ x ∈ xs, R x y) : List.Forall₂ R xs ys := by
  induction xs generalizing ys with
  | nil =>
    cases ys with
    | nil => exact .nil
    | cons y ys =>
      obtain ⟨x, hx, -⟩ := hright y List.mem_cons_self
      cases hx
  | cons x xs ih =>
    cases ys with
    | nil =>
      obtain ⟨y, hy, -⟩ := hleft x List.mem_cons_self
      cases hy
    | cons y ys =>
      obtain ⟨hx, hxs⟩ := List.pairwise_cons.1 hxs
      obtain ⟨hy, hys⟩ := List.pairwise_cons.1 hys
      have hhead : R x y := by
        obtain ⟨b, hb, hxb⟩ := hleft x List.mem_cons_self
        obtain ⟨a, ha, hay⟩ := hright y List.mem_cons_self
        rcases List.mem_cons.1 hb with rfl | hb
        · exact hxb
        rcases List.mem_cons.1 ha with rfl | ha
        · exact hay
        -- Otherwise the two relations cross.
        have hcross := hx a ha
        rw [hsame _ _ hxb, hsame _ _ hay] at hcross
        exact absurd (hy b hb) (hr _ _ hcross)
      refine .cons hhead (ih hxs hys (fun a ha => ?_) fun b hb => ?_)
      · obtain ⟨b, hb, hab⟩ := hleft a (List.mem_cons_of_mem _ ha)
        rcases List.mem_cons.1 hb with rfl | hb
        · have hself := hx a ha
          rw [hsame _ _ hhead, hsame _ _ hab] at hself
          exact absurd hself (hr _ _ hself)
        · exact ⟨b, hb, hab⟩
      · obtain ⟨a, ha, hab⟩ := hright b (List.mem_cons_of_mem _ hb)
        rcases List.mem_cons.1 ha with rfl | ha
        · have hself := hy b hb
          rw [← hsame _ _ hhead, ← hsame _ _ hab] at hself
          exact absurd hself (hr _ _ hself)
        · exact ⟨a, ha, hab⟩

namespace Cluster

variable {move : Path → Path} {c d : Cluster}

/-- The functions around a cluster are those around it when its spots are seen again. -/
theorem around_again (hmove : Function.Injective move)
    (h : List.Forall₂ (Spot.SeenAgain move) c.spots d.spots) :
    List.Forall₂ (fun f g => g.place = move f.place ∧
      g.node.isFunctionWithBody = f.node.isFunctionWithBody) c.around d.around := by
  have hfirst : Spot.SeenAgain move c.first d.first := by
    cases h with
    | cons hfirst _ => exact hfirst
  refine filter_forall₂ hfirst.around fun f g hfg => all_of_forall₂ (h.imp fun u w huw => ?_)
  refine any_of_forall₂ (huw.around.imp fun e k hek => ?_)
  rw [hfg.1, hek.1]
  exact decide_eq_decide.2 hmove.eq_iff.symm

/-- A cluster whose spots are all seen again is declared just if it was. -/
theorem isWorthwhile_again (hmove : Function.Injective move)
    (h : List.Forall₂ (Spot.SeenAgain move) c.spots d.spots) (settings : LiteralSettings) :
    d.isWorthwhile settings = c.isWorthwhile settings := by
  have hcount : d.count = c.count := h.length_eq.symm
  have hsize : d.size = c.size := by
    cases h with
    | cons hfirst _ => rw [size, size, hfirst.literal]
  have hbody : d.hasBody = c.hasBody := by
    have haround := around_again hmove h
    unfold hasBody
    cases hc : c.around with
    | nil =>
      rw [hc] at haround
      rw [List.forall₂_nil_left_iff.1 haround]
    | cons f rest =>
      rw [hc] at haround
      obtain ⟨g, more, hfg, -, hd⟩ := List.forall₂_cons_left_iff.1 haround
      rw [hd]
      exact hfg.2
  rw [isWorthwhile, isWorthwhile, pays, pays, hcount, hsize, hbody]

end Cluster

/-- In a declaration only the value is a literal. -/
theorem Hoisting.literal_declaration {h : Hoisting} {place : Path} {inFunction : Bool}
    {around : List Path} {w : Sight} {lit : Literal}
    (hw : w.site ∈ h.declaration.outline.sites place inFunction around)
    (hnode : w.node = .expr (.literal lit)) :
    w.place = 1 :: 0 :: place ∧ lit = h.cluster.first.literal := by
  let value := h.cluster.first.literal
  have hdeclaration : h.declaration.outline = .node (.stmt (.declaration value.span "var" [])) false
      [.node (.declarator (.bind value.span .absent .absent)) false
        [.node (.expr (.ident ⟨value.span, h.name⟩)) true [],
          .node (.expr (.literal value)) true []]] := rfl
  have hpart : w.site.part = .node (.expr (.literal lit)) w.inSlot [] := by
    rw [Sight.site, hnode]
    rfl
  simp only [hdeclaration, Outline.sites, Outline.sitesAll, List.append_nil, List.mem_cons,
    List.cons_append, List.nil_append, List.not_mem_nil, or_false] at hw
  rcases hw with hw | hw | hw | hw
  · rw [hw] at hpart
    cases hpart
  · rw [hw] at hpart
    cases hpart
  · rw [hw] at hpart
    cases hpart
  · have hplace : w.site.place = 1 :: 0 :: place := by
      rw [hw]
      rfl
    rw [hw] at hpart
    injection hpart with hvalue
    injection hvalue with hvalue
    injection hvalue with hvalue
    exact ⟨hplace, hvalue.symm⟩

namespace Program

variable {settings : LiteralSettings} {p : Program}

/-- Places keep their order. -/
theorem moved_before (hs : List Hoisting) {place other : Path} (h : Path.Before place other) :
    Path.Before (p.moved hs place) (p.moved hs other) := by
  cases h with
  | above k inner =>
    have hmoved : p.moved hs (k :: place) <:+ p.moved hs (inner ++ k :: place) :=
      moved_suffix (List.suffix_append inner (k :: place))
    exact .of_suffix hmoved
  | @beside i j list _ _ hlt hi hj =>
    exact .beside (ahead_mono p hs list hlt) (moved_suffix hi) (moved_suffix hj)

/-- The first sight is one of the program, and the second is what it has become after a walk. -/
structure Moves (settings : LiteralSettings) (p : Program) (v w : Sight) : Prop where
  before : v ∈ p.sights
  after : w ∈ (p.afterWalk settings).sights
  site : w.site =
    v.site.moved (Hoisting.changes (p.hoistings settings)) (p.moved (p.hoistings settings))

namespace Moves

variable {v w : Sight}

theorem of_mem (settings : LiteralSettings) (hv : v ∈ p.sights) : ∃ w, Moves settings p v w :=
  have ⟨w, hw, hsite⟩ := sight_afterWalk settings hv
  ⟨w, hv, hw, hsite⟩

theorem place (h : Moves settings p v w) : w.place = p.moved (p.hoistings settings) v.place :=
  congrArg Site.place h.site

theorem eq_of_place (h : Moves settings p v w) {x : Sight}
    (hx : x ∈ (p.afterWalk settings).sights)
    (hplace : x.place = p.moved (p.hoistings settings) v.place) : x = w :=
  eq_of_place_eq hx h.after (hplace.trans h.place.symm)

theorem part (h : Moves settings p v w) : w.site.part =
    v.site.part.rewrite (Hoisting.changes (p.hoistings settings))
      (v.site.received (Hoisting.changes (p.hoistings settings))) v.place :=
  congrArg Site.part h.site

/-- The node above a child has become the node above what the child has become. -/
theorem parent (h : Moves settings p v w) (hroot : v.place ≠ []) :
    ∃ x y c d, Moves settings p x y ∧ v = x.child c ∧ w = y.child d ∧
      d.2 = c.2 + p.ahead (p.hoistings settings) x.place c.2 := by
  obtain ⟨x, hx, c, -, rfl⟩ := eq_child h.before hroot
  obtain ⟨y, hy⟩ := of_mem settings hx
  have hplace : w.place = (c.2 + p.ahead (p.hoistings settings) x.place c.2) ::
      p.moved (p.hoistings settings) x.place := h.place
  obtain ⟨z, hz, d, -, rfl⟩ := eq_child h.after (by rw [hplace]; exact List.cons_ne_nil _ _)
  obtain ⟨hnumber, hbelow⟩ := List.cons.inj hplace
  obtain rfl := hy.eq_of_place hz hbelow
  exact ⟨x, z, c, d, hy, rfl, rfl, hnumber⟩

end Moves

theorem enclosure_sight {p : Program} {v : Sight} (hv : v ∈ p.sights) {f : Enclosure}
    (hf : f ∈ v.around) : ∃ x ∈ p.sights, x.place = f.place ∧ x.node = f.node := by
  obtain ⟨outer, inner, hsplit⟩ := List.append_of_mem hf
  have hline : p.IsLine (f :: inner) := ⟨v, hv, hsplit ▸ List.suffix_append _ _⟩
  obtain ⟨xs, x, ys, hsights, hplace, hnode, -⟩ := hline.sight
  exact ⟨x, by simp [hsights], hplace, hnode⟩

/-- Only a program and the block of a function receive statements. -/
theorem received_nil {v : Sight} (hs : List Hoisting)
    (h : ¬(v.node.isBlock = true ∨ v.place = [])) :
    v.site.received (Hoisting.changes hs) = [] := by
  rw [received_eq, List.map_eq_nil_iff, List.filter_eq_nil_iff]
  exact fun k _ hbody => h (Sight.block_or_root hbody)

/-- Names go to literals only. -/
theorem name?_none {v : Sight} (hv : v ∈ p.sights) (h : ∀ lit, v.node ≠ .expr (.literal lit)) :
    (Hoisting.changes (p.hoistings settings)).name? v.place = none := by
  by_contra hname
  obtain ⟨w, hw, hplace, -, lit, hnode⟩ := spot_of_name hname
  rw [eq_of_place_eq hw hv hplace] at hnode
  exact h lit hnode

namespace Moves

variable {v w : Sight}

theorem isFunctionWithBody (h : Moves settings p v w) :
    w.node.isFunctionWithBody = v.node.isFunctionWithBody := by
  rw [← Sight.hasBody_site, ← Sight.hasBody_site, h.part]
  by_cases hliteral : ∃ lit, v.node = .expr (.literal lit)
  · obtain ⟨lit, hnode⟩ := hliteral
    rw [Sight.site, Child.outline, hnode, Outline.rewrite]
    split <;> rfl
  · refine Outline.hasBody_rewrite (name?_none h.before fun lit hlit => hliteral ⟨lit, hlit⟩)
      fun hopens => received_nil _ fun hbody => ?_
    have hopens : v.node.opensScope = true := (Node.opensScope_husk _).symm.trans hopens
    rcases hbody with hblock | hroot
    · rw [Node.opensScope_of_isBlock hblock] at hopens
      cases hopens
    · rw [eq_root h.before hroot] at hopens
      cases hopens

/-- The functions around a node have become the functions around what it has become. -/
theorem around (h : Moves settings p v w) :
    List.Forall₂ (fun f g => g.place = p.moved (p.hoistings settings) f.place ∧
      g.node.isFunctionWithBody = f.node.isFunctionWithBody) v.around w.around := by
  have hplaces : w.around.map (·.place) =
      v.around.map fun f => p.moved (p.hoistings settings) f.place := by
    simpa [Site.moved, Sight.site, Function.comp_def] using congrArg Site.around h.site
  have hsame : v.around.length = w.around.length := by
    simpa using (congrArg List.length hplaces).symm
  refine List.forall₂_iff_get.2 ⟨hsame, fun i hi hi' => ?_⟩
  have hplace : (w.around.get ⟨i, hi'⟩).place =
      p.moved (p.hoistings settings) (v.around.get ⟨i, hi⟩).place := by
    have := List.getElem_of_eq hplaces (i := i) (by simpa using hi')
    simpa using this
  obtain ⟨x, hx, hxplace, hxnode⟩ := enclosure_sight h.before (List.get_mem v.around ⟨i, hi⟩)
  obtain ⟨y, hy, hyplace, hynode⟩ := enclosure_sight h.after (List.get_mem w.around ⟨i, hi'⟩)
  obtain ⟨z, hz⟩ := of_mem settings hx
  obtain rfl := hz.eq_of_place hy (by rw [hyplace, hplace, hxplace])
  exact ⟨hplace, by rw [← hynode, ← hxnode, hz.isFunctionWithBody]⟩

theorem takesName (h : Moves settings p v w) (k : Nat) :
    w.site.part.takesName (k + p.ahead (p.hoistings settings) v.place k) =
      v.site.part.takesName k := by
  rw [h.part]
  by_cases hbody : v.node.isBlock = true ∨ v.place = []
  · have hother (hnode : ∀ lit, v.node ≠ .expr (.literal lit)) :
        (Hoisting.changes (p.hoistings settings)).name? v.place = none :=
      name?_none h.before hnode
    rcases hbody with hblock | hroot
    · obtain ⟨span, body, hnode⟩ := Node.eq_block_of_isBlock hblock
      rw [Sight.site, Child.outline, Outline.rewrite, hother (by rw [hnode]; simp), ite_self,
        hnode]
      rfl
    · have hnode : v.node = .program p := by rw [eq_root h.before hroot]
      rw [Sight.site, Child.outline, Outline.rewrite, hother (by rw [hnode]; simp), ite_self,
        hnode]
      rfl
  · have hahead : p.ahead (p.hoistings settings) v.place k = 0 := by
      have hnone : ((p.hoistings settings).countP fun h => v.isBodyOf h.cluster.owner) = 0 :=
        List.countP_eq_zero.2 fun _ _ howner => hbody (Sight.block_or_root howner)
      rw [ahead_eq h.before, hnone, ite_self]
    rw [received_nil _ hbody, hahead, Nat.add_zero]
    by_cases hliteral : ∃ lit, v.node = .expr (.literal lit)
    · obtain ⟨lit, hnode⟩ := hliteral
      rw [Sight.site, Child.outline, hnode, Outline.rewrite]
      split <;> rfl
    · exact Outline.takesName_rewrite (name?_none h.before fun lit hlit => hliteral ⟨lit, hlit⟩) k

/-- A literal is neither a program nor a block. -/
theorem literal_plain (hv : v ∈ p.sights) {lit : Literal} (hnode : v.node = .expr (.literal lit)) :
    ¬(v.node.isBlock = true ∨ v.place = []) := by
  rintro (hblock | hroot)
  · rw [hnode] at hblock
    cases hblock
  · rw [eq_root hv hroot] at hnode
    cases hnode

/-- A literal that gets no name stays, and is a spot if it was one. -/
theorem spot?_literal (h : Moves settings p v w) {lit : Literal}
    (hnode : v.node = .expr (.literal lit))
    (hname : (Hoisting.changes (p.hoistings settings)).name? v.place = none) :
    w.spot? = v.spot?.map fun u => ⟨u.key, u.literal, w.place, w.around⟩ := by
  have hplain := literal_plain h.before hnode
  have hpart : Child.outline ⟨w.node, w.inSlot⟩ =
      Child.outline ⟨.expr (.literal lit), v.inSlot⟩ := by
    have hpart := h.part
    rw [received_nil _ hplain, Sight.site, Sight.site, hnode] at hpart
    exact hpart.trans (Outline.rewrite_nil hname)
  have hafter : w.node = .expr (.literal lit) := Node.eq_expr hpart
  have hslot : w.inSlot = v.inSlot := (Outline.node.inj hpart).2.1
  obtain ⟨x, y, c, d, hxy, rfl, rfl, hnumber⟩ := h.parent fun hroot => hplain (.inr hroot)
  have hplace : (!(y.child d).isPlainKey && !(y.child d).isWholeStatement) =
      (!(x.child c).isPlainKey && !(x.child c).isWholeStatement) := by
    rw [Sight.takesName_site, Sight.takesName_site, hnumber, hxy.takesName]
  rw [Sight.spot?, Sight.spot?, hafter, hnode, hslot]
  simp only [Bool.and_assoc, hplace]
  split
  · rw [Option.map_map]
    rfl
  · rfl

/-- What is a literal after the walk was that literal before, and got no name. -/
theorem literal_of_after (h : Moves settings p v w) {lit : Literal}
    (hnode : w.node = .expr (.literal lit)) : v.node = .expr (.literal lit) ∧
      (Hoisting.changes (p.hoistings settings)).name? v.place = none := by
  have hpart := h.part
  rw [Sight.site, Sight.site, hnode, Child.outline, Child.outline, Outline.rewrite] at hpart
  split at hpart
  · cases hpart
  · rename_i hnone
    refine ⟨Node.literal_of_husk (Outline.node.inj hpart).1.symm, ?_⟩
    cases hname : (Hoisting.changes (p.hoistings settings)).name? v.place with
    | none => rfl
    | some id =>
      obtain ⟨k, hk, u, hu, hplace, -⟩ := mem_names hname
      obtain ⟨x, hx, hxplace, hslot, -⟩ := sight_of_mem_spots (mem_spots_of_hoisting hk hu)
      rw [eq_of_place_eq hx h.before (hxplace.trans hplace)] at hslot
      rw [hslot, if_pos rfl, hname] at hnone
      cases hnone

end Moves

/-! ### The spots after a walk -/

theorem exists_hoisting {c : Cluster} (hc : c ∈ clusters p.spots)
    (hworth : c.isWorthwhile settings = true) : ∃ h ∈ p.hoistings settings, h.cluster = c := by
  have hmem : c ∈ (p.hoistings settings).map (·.cluster) := by
    rw [hoistings, map_cluster_hoistings]
    exact List.mem_filter.2 ⟨hc, hworth⟩
  exact List.mem_map.1 hmem

/-- Different declarations have different values. -/
theorem eq_of_key_eq {h k : Hoisting} (hh : h ∈ p.hoistings settings)
    (hk : k ∈ p.hoistings settings) (hkey : h.cluster.first.key = k.cluster.first.key) : h = k := by
  have hspots : h.cluster.spots = k.cluster.spots := by
    rw [spots_of_mem_clusters (cluster_of_mem_hoistings hh).1,
      spots_of_mem_clusters (cluster_of_mem_hoistings hk).1, hkey]
  have hplaces := ((sublist_hoistings settings p).map (·.place)).nodup
    ((Sight.sublist_places _).nodup p.nodup_places)
  rw [List.map_map] at hplaces
  exact List.inj_on_of_nodup_map hplaces hh hk (congrArg (·.place) (List.cons.inj hspots).1)

/-- A literal among what a body receives is the one that a declaration holds. -/
theorem literal_gained {v : Sight} (hv : v ∈ p.sights) {w : Sight} {lit : Literal}
    (hw : w.site ∈ v.site.gained (Hoisting.changes (p.hoistings settings))
      (p.moved (p.hoistings settings))) (hnode : w.node = .expr (.literal lit)) :
    ∃ (i : Nat) (h : Hoisting),
      ((p.hoistings settings).filter fun k => v.isBodyOf k.cluster.owner)[i]? = some h ∧
        lit = h.cluster.first.literal ∧
        w.place = 1 :: 0 :: (v.lead + i) :: p.moved (p.hoistings settings) v.place := by
  rw [Site.gained, received_eq] at hw
  have hnodes : ∀ o ∈ ((p.hoistings settings).filter fun k => v.isBodyOf k.cluster.owner).map
      (·.declaration.outline), o.isNode = true := by
    intro o ho
    obtain ⟨k, -, rfl⟩ := List.mem_map.1 ho
    rfl
  obtain ⟨i, o, hget, hpart⟩ := Outline.part_of_mem_sitesAll hnodes hw
  rw [List.getElem?_map, Option.map_eq_some_iff] at hget
  obtain ⟨k, hk, rfl⟩ := hget
  obtain ⟨hplace, hlit⟩ := Hoisting.literal_declaration hpart hnode
  have howner := (List.mem_filter.1 (List.mem_of_getElem? hk)).2
  rw [lead_site hv (Sight.block_or_root howner)] at hplace
  exact ⟨i, k, hk, hlit, hplace⟩

/-- The spots of a value that is declared are those of its declaration. -/
theorem mem_spots_of_key {h : Hoisting} (hh : h ∈ p.hoistings settings) {u : Spot}
    (hu : u ∈ p.spots) (hkey : h.cluster.first.key = u.key) : u ∈ h.cluster.spots := by
  rw [spots_of_mem_clusters (cluster_of_mem_hoistings hh).1]
  exact List.mem_filter.2 ⟨hu, decide_eq_true hkey.symm⟩

namespace Moves

variable {v w : Sight}

/-- A spot that stays is seen again. -/
theorem seenAgain (h : Moves settings p v w) {u : Spot} (hu : v.spot? = some u) :
    u.SeenAgain (p.moved (p.hoistings settings)) ⟨u.key, u.literal, w.place, w.around⟩ := by
  obtain ⟨hplace, haround⟩ := Sight.place_of_spot? hu
  exact ⟨rfl, rfl, hplace ▸ h.place, haround ▸ h.around⟩

end Moves

/-- A spot of a value that is not declared is seen again. -/
theorem exists_seenAgain {u : Spot} (hu : u ∈ p.spots)
    (hkey : ∀ h ∈ p.hoistings settings, h.cluster.first.key ≠ u.key) :
    ∃ w ∈ (p.afterWalk settings).spots, u.SeenAgain (p.moved (p.hoistings settings)) w := by
  obtain ⟨v, hv, hplace, -, hnode, hspot, -⟩ := sight_of_mem_spots hu
  obtain ⟨w, hw⟩ := Moves.of_mem settings hv
  have hname : (Hoisting.changes (p.hoistings settings)).name? v.place = none := by
    cases hname : (Hoisting.changes (p.hoistings settings)).name? v.place with
    | none => rfl
    | some id =>
      obtain ⟨h, hh, x, hx, hxplace, -⟩ := mem_names hname
      have hxmem := mem_spots_of_hoisting hh hx
      have hnodup : (p.spots.map (·.place)).Nodup := (Sight.sublist_places _).nodup p.nodup_places
      obtain rfl := List.inj_on_of_nodup_map hnodup hxmem hu (hxplace.trans hplace)
      exact absurd (key_of_mem_clusters (cluster_of_mem_hoistings hh).1 hx).symm (hkey h hh)
  refine ⟨_, List.mem_filterMap.2 ⟨w, hw.after, ?_⟩, hw.seenAgain hspot⟩
  rw [hw.spot?_literal hnode hname, hspot]
  rfl

/-- A spot after a walk was one before, of a value that is not declared, or it is the literal that a
declaration holds. -/
theorem spot_afterWalk {w : Spot} (hw : w ∈ (p.afterWalk settings).spots) :
    let hs := p.hoistings settings
    (∃ u ∈ p.spots, (∀ h ∈ hs, h.cluster.first.key ≠ u.key) ∧ u.SeenAgain (p.moved hs) w) ∨
      ∃ v ∈ p.sights, ∃ (i : Nat) (h : Hoisting),
        (hs.filter fun k => v.isBodyOf k.cluster.owner)[i]? = some h ∧
          w.key = h.cluster.first.key ∧ w.place = 1 :: 0 :: (v.lead + i) :: p.moved hs v.place := by
  intro hs
  obtain ⟨x, hx, hxplace, -, hxnode, hxspot, hxkey⟩ := sight_of_mem_spots hw
  obtain ⟨v, hv, hsite⟩ := List.mem_flatMap.1
    ((sites_afterWalk settings p).mem_iff.1 (List.mem_map_of_mem hx))
  rcases List.mem_cons.1 hsite with heq | hgained
  · have hmoves : Moves settings p v x := ⟨hv, hx, heq⟩
    obtain ⟨hnode, hname⟩ := hmoves.literal_of_after hxnode
    rw [hmoves.spot?_literal hnode hname] at hxspot
    obtain ⟨u, hspot, rfl⟩ := Option.map_eq_some_iff.1 hxspot
    have hu : u ∈ p.spots := List.mem_filterMap.2 ⟨v, hv, hspot⟩
    refine .inl ⟨u, hu, fun h hh hkey => ?_, hmoves.seenAgain hspot⟩
    have hsome := name?_spot hh (mem_spots_of_key hh hu hkey)
    rw [(Sight.place_of_spot? hspot).1, hname] at hsome
    cases hsome
  · obtain ⟨i, h, hi, hlit, hplace⟩ := literal_gained hv hgained hxnode
    have hh := (List.mem_filter.1 (List.mem_of_getElem? hi)).1
    obtain ⟨-, -, -, -, -, -, hkey⟩ :=
      sight_of_mem_spots (mem_spots_of_hoisting hh (List.mem_cons_self ..))
    refine .inr ⟨v, hv, i, h, hi, ?_, hxplace.symm.trans hplace⟩
    rw [hlit, hkey] at hxkey
    exact (Option.some.inj hxkey).symm

theorem spots_ordered (p : Program) : p.spots.Pairwise fun u w => Path.Before u.place w.place :=
  List.pairwise_map.1 ((List.pairwise_map.2 p.sights_ordered).sublist (Sight.sublist_places _))

/-- Spots of a value that is not declared are seen again. -/
theorem spots_again {key : LiteralKey}
    (hkey : ∀ h ∈ p.hoistings settings, h.cluster.first.key ≠ key) :
    List.Forall₂ (Spot.SeenAgain (p.moved (p.hoistings settings)))
      (p.spots.filter (·.key = key)) ((p.afterWalk settings).spots.filter (·.key = key)) := by
  refine forall₂_of_ordered (r := Path.Before)
    (f := fun u => p.moved (p.hoistings settings) u.place) (g := Spot.place)
    (fun _ _ => Path.Before.asymm) (fun _ _ h => h.place.symm)
    ((p.spots_ordered.filter _).imp fun h => moved_before _ h)
    ((spots_ordered _).filter _) (fun u hu => ?_) fun w hw => ?_
  · obtain ⟨hmem, hukey⟩ := List.mem_filter.1 hu
    obtain rfl := of_decide_eq_true hukey
    obtain ⟨w, hw, hagain⟩ := exists_seenAgain hmem hkey
    exact ⟨w, List.mem_filter.2 ⟨hw, decide_eq_true hagain.key⟩, hagain⟩
  · obtain ⟨hmem, hwkey⟩ := List.mem_filter.1 hw
    obtain rfl := of_decide_eq_true hwkey
    rcases spot_afterWalk hmem with ⟨u, hu, -, hagain⟩ | ⟨v, -, i, h, hi, hsame, -⟩
    · exact ⟨u, List.mem_filter.2 ⟨hu, decide_eq_true hagain.key.symm⟩, hagain⟩
    · exact absurd hsame.symm (hkey h (List.mem_filter.1 (List.mem_of_getElem? hi)).1)

/-- The literal of a declaration is at one place. -/
theorem place_of_key {h : Hoisting} (hh : h ∈ p.hoistings settings) {u w : Spot}
    (hu : u ∈ (p.afterWalk settings).spots) (hukey : u.key = h.cluster.first.key)
    (hw : w ∈ (p.afterWalk settings).spots) (hwkey : w.key = h.cluster.first.key) :
    u.place = w.place := by
  rcases spot_afterWalk hu with ⟨x, -, hother, hagain⟩ | ⟨v, hv, i, k, hi, hkkey, huplace⟩
  · exact absurd (hukey.symm.trans hagain.key) (hother h hh)
  rcases spot_afterWalk hw with ⟨x, -, hother, hagain⟩ | ⟨x, hx, j, l, hj, hlkey, hwplace⟩
  · exact absurd (hwkey.symm.trans hagain.key) (hother h hh)
  -- The key tells the declaration, and this its body and its number there.
  obtain ⟨hkmem, hkowner⟩ := List.mem_filter.1 (List.mem_of_getElem? hi)
  obtain ⟨hlmem, hlowner⟩ := List.mem_filter.1 (List.mem_of_getElem? hj)
  obtain rfl := eq_of_key_eq hkmem hh (hkkey.symm.trans hukey)
  obtain rfl := eq_of_key_eq hlmem hh (hlkey.symm.trans hwkey)
  obtain rfl := body_unique hv hx hkowner hlowner
  have hnodup := ((nodup_hoistings settings p).of_map).filter fun k => v.isBodyOf k.cluster.owner
  obtain rfl := (List.getElem?_inj (List.getElem?_eq_some_iff.1 hi).1 hnodup).1 (hi.trans hj.symm)
  exact huplace.trans hwplace.symm

/-- A value that is declared has one spot left. -/
theorem spots_once {h : Hoisting} (hh : h ∈ p.hoistings settings) :
    ((p.afterWalk settings).spots.filter (·.key = h.cluster.first.key)).length ≤ 1 := by
  have hordered := (spots_ordered (p.afterWalk settings)).filter (·.key = h.cluster.first.key)
  match hspots : (p.afterWalk settings).spots.filter (·.key = h.cluster.first.key) with
  | [] => simp [hspots]
  | [u] => simp [hspots]
  | u :: w :: rest =>
    rw [hspots] at hordered
    have hmem {x : Spot} (hx : x ∈ u :: w :: rest) : x ∈ (p.afterWalk settings).spots ∧
        x.key = h.cluster.first.key := by
      rw [← hspots] at hx
      obtain ⟨hx, hkey⟩ := List.mem_filter.1 hx
      exact ⟨hx, of_decide_eq_true hkey⟩
    obtain ⟨hu, hukey⟩ := hmem List.mem_cons_self
    obtain ⟨hw, hwkey⟩ := hmem (List.mem_cons_of_mem _ List.mem_cons_self)
    have hbefore := (List.pairwise_cons.1 hordered).1 w List.mem_cons_self
    rw [place_of_key hh hu hukey hw hwkey] at hbefore
    exact (hbefore.asymm hbefore).elim

/-- Nothing is left to declare. -/
theorem hoistings_afterWalk (settings : LiteralSettings) (p : Program) :
    (p.afterWalk settings).hoistings settings = [] := by
  have hnone : (clusters (p.afterWalk settings).spots).filter (Cluster.isWorthwhile settings) =
      [] := by
    refine List.filter_eq_nil_iff.2 fun d hd hworth => ?_
    have hspots := spots_of_mem_clusters hd
    by_cases hkey : ∃ h ∈ p.hoistings settings, h.cluster.first.key = d.first.key
    · obtain ⟨h, hh, hkey⟩ := hkey
      have honce := spots_once hh
      rw [hkey, ← hspots] at honce
      have hpays := (Bool.and_eq_true_iff.1 hworth).1
      have hmany : 2 ≤ d.spots.length := of_decide_eq_true (Bool.and_eq_true_iff.1 hpays).1
      omega
    · have hagain := spots_again fun h hh heq => hkey ⟨h, hh, heq⟩
      rw [← hspots] at hagain
      obtain ⟨u, more, hfirst, -, husplit⟩ := List.forall₂_cons_right_iff.1 hagain
      have hu : u ∈ p.spots.filter (·.key = d.first.key) := by
        rw [husplit]
        exact List.mem_cons_self
      obtain ⟨humem, hukey⟩ := List.mem_filter.1 hu
      obtain ⟨c, hc, huc⟩ := List.mem_flatMap.1 ((clusters_perm p.spots).mem_iff.2 humem)
      have hckey : c.first.key = d.first.key :=
        (key_of_mem_clusters hc huc).symm.trans (of_decide_eq_true hukey)
      rw [← hckey, ← spots_of_mem_clusters hc] at hagain
      rw [Cluster.isWorthwhile_again (moved_injective _ _) hagain] at hworth
      obtain ⟨h, hh, hcluster⟩ := exists_hoisting hc hworth
      exact hkey ⟨h, hh, by rw [hcluster, hckey]⟩
  rw [hoistings, hnone]
  rfl

end Program

namespace Outline

/-- Changes that name and insert nothing change nothing. -/
theorem rewrite_same {c : Changes} (hname : ∀ place, c.name? place = none)
    (hinserted : ∀ place, c.inserted place = []) (o : Outline) (place : Path) :
    o.rewrite c [] place = o := by
  induction o using partInduction generalizing place with
  | gap vacant => simp [rewrite]
  | node own inSlot parts ih =>
    have hparts (parts : List Outline) (ih : ∀ o ∈ parts, ∀ place, o.rewrite c [] place = o)
        (first : Nat) : rewriteAll c own.opensScope place first parts = parts := by
      induction parts generalizing first with
      | nil => simp [rewriteAll]
      | cons o rest ihrest =>
        rw [rewriteAll, hinserted, ite_self, ih o List.mem_cons_self,
          ihrest fun x hx => ih x (List.mem_cons_of_mem _ hx)]
    rw [rewrite_nil (hname place), hparts parts ih]

end Outline

namespace Session

/-- A second walk with a fresh pass of the same settings declares nothing and leaves the program as
it is. -/
theorem walkProgram_again (settings : LiteralSettings) (p : Program) :
    let once := (start settings [.cachedLiterals]).walkProgram p
    let twice := (start settings [.cachedLiterals]).walkProgram once.1
    twice.2.2.hoisted? = some [] ∧ twice.1 = once.1 := by
  intro once twice
  obtain ⟨o, hsettled, hafter, hhoisted⟩ := walkProgram_literals settings once.1
  have hchanges := Program.changes_settled hsettled
  have hnone : once.1.hoistings settings = [] := Program.hoistings_afterWalk settings p
  rw [hnone] at hchanges
  refine ⟨?_, Program.outline_injective ?_⟩
  · rw [show twice.2.2.hoisted? = _ from hhoisted, hsettled.hoisted, hnone]
    rfl
  · rw [show twice.1 = _ from hafter, Program.outline_edit, hchanges]
    exact Outline.rewrite_same (fun _ => rfl) (fun _ => rfl) _ _

end Session

end ScriptOptimizer
