import Mathlib.Data.List.Perm.Basic
import Mathlib.Data.List.TakeWhile
import ScriptOptimizer.Proofs.Syntax.Edited
import ScriptOptimizer.Proofs.Syntax.Marks

/-!
Where the nodes of an outline go when changes are made to it. A site is a node with all its parts,
its place and the functions around it. Every site of an outline stays, moved by the statements that
are put before it, and each of these statements is a site of its own.
-/

namespace ScriptOptimizer

/-- A node of an outline with its parts, its place, whether it is a part of a function, and the
places of the functions around it, the innermost first. -/
structure Site where
  place : Path
  part : Outline
  inFunction : Bool
  around : List Path

namespace Outline

/-- Induction over an outline, from the parts of a node to the node. -/
theorem partInduction {motive : Outline → Prop} (gap : ∀ vacant, motive (.gap vacant))
    (node : ∀ own inSlot parts, (∀ o ∈ parts, motive o) → motive (.node own inSlot parts)) :
    ∀ o, motive o
  | .gap vacant => gap vacant
  | .node own inSlot parts => node own inSlot parts fun o _ => partInduction gap node o
termination_by o => sizeOf o
decreasing_by
  have := List.sizeOf_lt_of_mem ‹o ∈ parts›
  simp only [Outline.node.sizeOf_spec]
  omega

/-- Is the node a function? -/
def opensScope : Outline → Bool
  | gap _ => false
  | node own _ _ => own.opensScope

/-- How many bare literals lead its parts. -/
def lead : Outline → Nat
  | gap _ => 0
  | node _ _ parts => (parts.takeWhile isDirective).length

mutual

/-- The sites of an outline, parents before their parts. -/
def sites (place : Path) (inFunction : Bool) (around : List Path) : Outline → List Site
  | gap _ => []
  | node own inSlot parts =>
    ⟨place, node own inSlot parts, inFunction, around⟩ ::
      sitesAll place own.opensScope (if own.opensScope then place :: around else around) 0 parts

/-- The sites of the parts of one node from a number on. -/
def sitesAll (parent : Path) (inFunction : Bool) (around : List Path) (first : Nat) :
    List Outline → List Site
  | [] => []
  | o :: rest =>
    o.sites (first :: parent) inFunction around ++
      sitesAll parent inFunction around (first + o.count) rest

end

variable {parent : Path} {inFunction : Bool} {around : List Path} {first : Nat}

theorem sitesAll_append (xs ys : List Outline) :
    sitesAll parent inFunction around first (xs ++ ys) =
      sitesAll parent inFunction around first xs ++
        sitesAll parent inFunction around (first + total xs) ys := by
  induction xs generalizing first with
  | nil => simp [sitesAll, total]
  | cons x xs ih => simp [sitesAll, ih, total, Nat.add_assoc]

theorem sitesAll_eq (parts : List Outline) : sitesAll parent inFunction around first parts =
    ((parts.filter isNode).zipIdx first).flatMap fun x =>
      x.1.sites (x.2 :: parent) inFunction around := by
  induction parts generalizing first with
  | nil => rfl
  | cons o rest ih =>
    cases o with
    | gap vacant =>
      rw [sitesAll, ih, List.filter_cons_of_neg (by simp [isNode])]
      rfl
    | node own inSlot parts =>
      rw [sitesAll, ih, List.filter_cons_of_pos rfl]
      rfl

theorem mem_sitesAll {parts : List Outline} (hparts : ∀ o ∈ parts, o.isNode = true) {i : Nat}
    {o : Outline} (h : parts[i]? = some o) :
    ⟨(first + i) :: parent, o, inFunction, around⟩ ∈
      sitesAll parent inFunction around first parts := by
  rw [sitesAll_eq, List.filter_eq_self.2 hparts, List.mem_flatMap]
  refine ⟨(o, first + i), List.mem_zipIdx_iff_le_and_getElem?_sub.2 ⟨by simp, by simpa using h⟩, ?_⟩
  have ho := hparts o (List.mem_of_getElem? h)
  cases o with
  | gap vacant => cases ho
  | node own inSlot parts =>
    rw [sites]
    exact List.mem_cons_self ..

theorem total_append (xs ys : List Outline) : total (xs ++ ys) = total xs + total ys := by
  simp [total]

theorem count_of_isDirective {o : Outline} (h : o.isDirective = true) : o.count = 1 := by
  cases o with
  | gap vacant => cases h
  | node own inSlot parts => rfl

theorem total_takeWhile (parts : List Outline) :
    total (parts.takeWhile isDirective) = (parts.takeWhile isDirective).length := by
  have hcount : ∀ o ∈ parts.takeWhile isDirective, o.count = 1 :=
    fun o ho => count_of_isDirective (List.mem_takeWhile_imp ho)
  rw [total, List.map_congr_left hcount]
  simp

end Outline

/-- The sight as a site of the outline. -/
def Sight.site (v : Sight) : Site where
  place := v.place
  part := Child.outline ⟨v.node, v.inSlot⟩
  inFunction := v.parent.any (·.opensScope)
  around := v.around.map (·.place)

theorem Node.eq_stmt {n : Node} {s : Stmt} {a b : Bool}
    (h : Child.outline ⟨n, a⟩ = Child.outline ⟨.stmt s, b⟩) : n = .stmt s := by
  simp only [Child.outline, Outline.node.injEq] at h
  obtain ⟨hhusk, -, hparts⟩ := h
  cases n with
  | stmt t => rw [Stmt.parts_inj t s (Node.stmt.inj hhusk) hparts]
  | case c => cases c; cases hhusk
  | handler c => cases c <;> cases hhusk
  | declarator d => cases d; cases hhusk
  | _ => cases hhusk

theorem Node.eq_expr {n : Node} {x : Expr} {a b : Bool}
    (h : Child.outline ⟨n, a⟩ = Child.outline ⟨.expr x, b⟩) : n = .expr x := by
  simp only [Child.outline, Outline.node.injEq] at h
  obtain ⟨hhusk, -, hparts⟩ := h
  cases n with
  | expr y => rw [Expr.parts_inj y x (Node.expr.inj hhusk) hparts]
  | case c => cases c; cases hhusk
  | handler c => cases c <;> cases hhusk
  | declarator d => cases d; cases hhusk
  | _ => cases hhusk

theorem Node.opensScope_husk (n : Node) : n.husk.opensScope = n.opensScope := by
  cases n with
  | stmt s => cases s <;> rfl
  | expr x => cases x <;> rfl
  | case c => cases c; rfl
  | handler h => cases h <;> rfl
  | declarator d => cases d; rfl
  | _ => rfl

theorem Node.sites_outline (n : Node) : ∀ place inSlot parent around,
    (Child.outline ⟨n, inSlot⟩).sites place (parent.any (·.opensScope))
        (around.map Enclosure.place) =
      (n.sights place inSlot parent around).map Sight.site := by
  induction n using childInduction with
  | step n ih =>
    intro place inSlot parent around
    have hchildren : n.outlines.filter Outline.isNode = n.children.map Child.outline :=
      n.among_children
    have haround : (if n.opensScope then place :: around.map Enclosure.place
        else around.map Enclosure.place) = (n.within place around).map Enclosure.place := by
      unfold within
      split <;> rfl
    rw [sights_eq, Child.outline, Outline.sites, opensScope_husk, haround, Outline.sitesAll_eq,
      hchildren, List.map_cons, List.zipIdx_map, List.flatMap_map, List.map_flatMap,
      List.flatMap_def, List.flatMap_def]
    refine congrArg (_ :: List.flatten ·) (List.map_congr_left fun c hc => ?_)
    exact ih c.1 (List.fst_mem_of_mem_zipIdx hc) (c.2 :: place) c.1.inSlot (some n) _

theorem Program.sites_outline (p : Program) :
    p.outline.sites [] false [] = p.sights.map Sight.site :=
  Node.sites_outline (.program p) [] false none []

/-! ### Changes and sites -/

namespace Site

/-- The functions around the parts of a site. -/
def inside (s : Site) : List Path :=
  if s.part.opensScope then s.place :: s.around else s.around

/-- The statements that are put into it: into the root, and into a block in a function. -/
def received (c : Outline.Changes) (s : Site) : List Outline :=
  match s.place with
  | [] => c.inserted []
  | _ :: above => if s.inFunction && s.part.isBlock then c.inserted above else []

/-- The site after changes when places move. -/
def moved (c : Outline.Changes) (move : Path → Path) (s : Site) : Site where
  place := move s.place
  part := s.part.rewrite c (s.received c) s.place
  inFunction := s.inFunction
  around := s.around.map move

/-- The sites of the statements that are put into it. -/
def gained (c : Outline.Changes) (move : Path → Path) (s : Site) : List Site :=
  Outline.sitesAll (move s.place) s.part.opensScope (s.inside.map move) s.part.lead (s.received c)

end Site

/-- The places move as the changes say, and names go only to bare nodes, none of them a statement
of its own. -/
structure Fitting (c : Outline.Changes) (move : Path → Path) (all : List Site) : Prop where
  move : ∀ s ∈ all, ∀ k, move (k :: s.place) =
    (k + if k < s.part.lead then 0 else Outline.total (s.received c)) :: move s.place
  bare : ∀ s ∈ all, ∀ own parts, s.part = .node own true parts → c.name? s.place ≠ none →
    parts = [] ∧ s.received c = []
  directive : ∀ s ∈ all, s.part.isDirective = true → c.name? (0 :: s.place) = none

theorem Fitting.of_subset {c : Outline.Changes} {move : Path → Path} {all more : List Site}
    (h : Fitting c move all) (hmore : more ⊆ all) : Fitting c move more where
  move s hs := h.move s (hmore hs)
  bare s hs := h.bare s (hmore hs)
  directive s hs := h.directive s (hmore hs)

namespace Outline

variable {c : Changes} {move : Path → Path}

theorem total_rewriteAll (inFunction : Bool) (parent : Path) (first : Nat) (parts : List Outline) :
    total (rewriteAll c inFunction parent first parts) = total parts := by
  induction parts generalizing first with
  | nil => simp [rewriteAll]
  | cons o rest ih =>
    have ih := ih (first + o.count)
    simp only [total] at ih ⊢
    simp [rewriteAll, count_rewrite, ih]

theorem isDirective_rewrite {o : Outline} {place : Path} {inFunction : Bool} {around : List Path}
    {new : List Outline} (hnew : o.isBlock = false → new = [])
    (h : Fitting c move (o.sites place inFunction around)) :
    (o.rewrite c new place).isDirective = o.isDirective := by
  cases o with
  | gap vacant => simp [rewrite]
  | node own inSlot parts =>
    have hroot : (⟨place, node own inSlot parts, inFunction, around⟩ : Site) ∈
        (node own inSlot parts).sites place inFunction around := by
      simp [sites]
    rw [rewrite]
    split
    · rename_i id hname
      cases inSlot with
      | false => simp at hname
      | true =>
        have hname : c.name? place = some id := hname
        obtain ⟨rfl, -⟩ := h.bare _ hroot own parts rfl (by simp [hname])
        cases own with
        | stmt s => cases s <;> rfl
        | _ => rfl
    · cases own with
      | stmt s =>
        cases s with
        | expression span x =>
          have hnil : new = [] := hnew rfl
          have hsame : (Node.stmt (.expression span x)).opensScope = false := rfl
          rw [hnil, hsame, splice_nil]
          cases parts with
          | nil => rfl
          | cons first rest =>
            cases rest with
            | cons second rest => simp [rewriteAll, isDirective]
            | nil =>
              cases first with
              | gap vacant => simp [rewriteAll, rewrite, isDirective]
              | node part slot below =>
                rw [rewriteAll, rewriteAll, rewrite]
                split
                · rename_i id hname
                  cases part with
                  | expr y =>
                    cases y with
                    | literal lit =>
                      have hnone := h.directive _ hroot rfl
                      rw [hnone] at hname
                      simp at hname
                    | _ => rfl
                  | _ => rfl
                · cases part with
                  | expr y => cases y <;> rfl
                  | _ => rfl
        | _ => rfl
      | _ => rfl

theorem takeWhile_rewriteAll {inFunction : Bool} {parent : Path} {around : List Path}
    {first : Nat} {parts : List Outline}
    (h : Fitting c move (sitesAll parent inFunction around first parts)) :
    rewriteAll c inFunction parent first (parts.takeWhile isDirective) =
        (rewriteAll c inFunction parent first parts).takeWhile isDirective ∧
      rewriteAll c inFunction parent (first + (parts.takeWhile isDirective).length)
          (parts.dropWhile isDirective) =
        (rewriteAll c inFunction parent first parts).dropWhile isDirective := by
  induction parts generalizing first with
  | nil => simp [rewriteAll]
  | cons o rest ih =>
    rw [sitesAll] at h
    have hsame : (o.rewrite c (if inFunction && o.isBlock then c.inserted parent else [])
        (first :: parent)).isDirective = o.isDirective := by
      refine isDirective_rewrite (fun hblock => ?_) (h.of_subset (List.subset_append_left _ _))
      simp [hblock]
    obtain ⟨htake, hdrop⟩ := ih (h.of_subset (List.subset_append_right _ _))
    rw [List.takeWhile_cons, List.dropWhile_cons, rewriteAll, List.takeWhile_cons,
      List.dropWhile_cons, hsame]
    cases ho : o.isDirective with
    | false => simp [rewriteAll]
    | true =>
      have hcount : o.count = 1 := count_of_isDirective ho
      rw [hcount] at htake hdrop
      simp only [if_true, rewriteAll, hcount, htake, List.length_cons]
      refine ⟨trivial, ?_⟩
      rw [← hdrop, Nat.add_assoc, Nat.add_comm 1]

/-- What is said of sites holds of the parts of one node, all moved equally far. -/
theorem sitesAll_rewriteAll {parts : List Outline}
    (ih : ∀ o ∈ parts, ∀ place inFunction around, Fitting c move (o.sites place inFunction around) →
      ((o.rewrite c (Site.received c ⟨place, o, inFunction, around⟩) place).sites (move place)
          inFunction (around.map move)).Perm
        ((o.sites place inFunction around).flatMap fun s => s.moved c move :: s.gained c move))
    (parent : Path) (inFunction : Bool) (around : List Path) (first ahead : Nat)
    (hmove : ∀ k, first ≤ k → k < first + total parts →
      move (k :: parent) = (k + ahead) :: move parent)
    (h : Fitting c move (sitesAll parent inFunction around first parts)) :
    (sitesAll (move parent) inFunction (around.map move) (first + ahead)
        (rewriteAll c inFunction parent first parts)).Perm
      ((sitesAll parent inFunction around first parts).flatMap fun s =>
        s.moved c move :: s.gained c move) := by
  induction parts generalizing first with
  | nil => simp [rewriteAll, sitesAll]
  | cons o rest ihrest =>
    have htotal : total (o :: rest) = o.count + total rest := by simp [total]
    rw [sitesAll] at h
    have hfirst := ih o (by simp) (first :: parent) inFunction around
      (h.of_subset (List.subset_append_left _ _))
    have hrest := ihrest (fun x hx => ih x (by simp [hx])) (first + o.count)
      (fun k hk hlt => hmove k (by omega) (by omega))
      (h.of_subset (List.subset_append_right _ _))
    rw [rewriteAll, sitesAll, sitesAll, count_rewrite, List.flatMap_append, Nat.add_right_comm]
    refine List.Perm.append ?_ hrest
    cases o with
    | gap vacant => simp [rewrite, sites]
    | node own inSlot parts =>
      have hcount : (node own inSlot parts).count = 1 := rfl
      rw [hmove first (Nat.le_refl _) (by omega)] at hfirst
      exact hfirst

/-- Every site stays, moved, and each statement that is put into it is a site of its own. -/
theorem sites_rewrite (o : Outline) (place : Path) (inFunction : Bool) (around : List Path)
    (h : Fitting c move (o.sites place inFunction around)) :
    ((o.rewrite c (Site.received c ⟨place, o, inFunction, around⟩) place).sites (move place)
        inFunction (around.map move)).Perm
      ((o.sites place inFunction around).flatMap fun s => s.moved c move :: s.gained c move) := by
  induction o using partInduction generalizing place inFunction around with
  | gap vacant => simp [rewrite, sites]
  | node own inSlot parts ih =>
    let root : Site := ⟨place, node own inSlot parts, inFunction, around⟩
    let below (first : Nat) (some : List Outline) : List Site :=
      sitesAll place own.opensScope root.inside first some
    have hsites : (node own inSlot parts).sites place inFunction around =
        root :: below 0 parts := by
      rw [sites]
      rfl
    rw [hsites] at h ⊢
    rw [List.flatMap_cons]
    cases hname : if inSlot then c.name? place else none with
    | some id =>
      cases inSlot with
      | false => simp at hname
      | true =>
        have hname : c.name? place = some id := hname
        obtain ⟨rfl, hnone⟩ := h.bare root (by simp) own parts rfl (by simp [root, hname])
        have hgained : root.gained c move = [] := by rw [Site.gained, hnone, sitesAll]
        simp [below, hgained, Site.moved, root, rewrite, hname, sites, sitesAll]
    | none =>
      -- The leading literals keep their numbers; the other parts move by the new statements.
      let lead := parts.takeWhile isDirective
      let rest := parts.dropWhile isDirective
      let new := root.received c
      have hbelow := h.of_subset (List.subset_cons_self _ _)
      obtain ⟨htake, hdrop⟩ := takeWhile_rewriteAll hbelow
      have hrewrite : (node own inSlot parts).rewrite c new place =
          node own inSlot (rewriteAll c own.opensScope place 0 lead ++ new ++
            rewriteAll c own.opensScope place lead.length rest) := by
        rw [rewrite, hname, splice, ← htake, ← hdrop, Nat.zero_add]
      have hparts : below 0 parts = below 0 lead ++ below lead.length rest := by
        conv_lhs => rw [← List.takeWhile_append_dropWhile (p := isDirective) (l := parts)]
        simp only [below]
        rw [sitesAll_append, total_takeWhile, Nat.zero_add]
      rw [hparts] at hbelow ⊢
      have hmove (k : Nat) : move (k :: place) =
          (k + if k < lead.length then 0 else total new) :: move place := h.move root (by simp) k
      have hlead := sitesAll_rewriteAll (fun o ho => ih o ((List.takeWhile_subset _) ho)) place
        own.opensScope root.inside 0 0 (fun k _ hk => by
          rw [total_takeWhile, Nat.zero_add] at hk
          rw [hmove, if_pos hk])
        (hbelow.of_subset (List.subset_append_left _ _))
      have hrest := sitesAll_rewriteAll (fun o ho => ih o ((List.dropWhile_subset _) ho)) place
        own.opensScope root.inside lead.length (total new) (fun k hk _ => by
          rw [hmove, if_neg (Nat.not_lt.2 hk)])
        (hbelow.of_subset (List.subset_append_right _ _))
      have hinside : (if own.opensScope then move place :: around.map move
          else around.map move) = root.inside.map move := by
        rw [Site.inside, apply_ite (List.map move)]
        rfl
      have hafter : ((node own inSlot parts).rewrite c new place).sites (move place) inFunction
          (around.map move) = root.moved c move ::
            ((sitesAll (move place) own.opensScope (root.inside.map move) 0
                (rewriteAll c own.opensScope place 0 lead) ++ root.gained c move) ++
              sitesAll (move place) own.opensScope (root.inside.map move)
                (lead.length + total new)
                  (rewriteAll c own.opensScope place lead.length rest)) := by
        have hmoved : root.moved c move = ⟨move place,
            (node own inSlot parts).rewrite c new place, inFunction, around.map move⟩ := rfl
        rw [hmoved, hrewrite, sites, hinside, sitesAll_append, sitesAll_append, total_append,
          total_rewriteAll, total_takeWhile]
        simp only [Nat.zero_add]
        rfl
      rw [hafter, List.flatMap_append, List.cons_append]
      refine .cons _ ?_
      rw [← List.append_assoc]
      exact (List.perm_append_comm.trans (hlead.append_left _)).append hrest

end Outline

end ScriptOptimizer
