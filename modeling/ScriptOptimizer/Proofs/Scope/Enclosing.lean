import ScriptOptimizer.Proofs.Pass.Alone
import ScriptOptimizer.Proofs.Scope.Meeting

/-!
Which functions are around a part of a program. A walk opens a scope for each function that it
enters and numbers it after those around it, so that the scopes of two parts meet in the innermost
function around both.
-/

namespace ScriptOptimizer

/-- Each function around lies among the sights before, with the functions that are around it. -/
def Anchored (before : List Sight) (around : List Enclosure) : Prop :=
  ∀ f rest, f :: rest <:+ around → ∃ xs u ys, before = xs ++ u :: ys ∧ u.place = f.place ∧
    u.node = f.node ∧ u.around = rest ∧ u.node.opensScope = true

theorem Anchored.append {before : List Sight} {around : List Enclosure} (h : Anchored before around)
    (more : List Sight) : Anchored (before ++ more) around := by
  intro f rest hf
  obtain ⟨xs, u, ys, rfl, hu⟩ := h f rest hf
  exact ⟨xs, u, ys ++ more, by simp, hu⟩

theorem Anchored.of_suffix {before : List Sight} {around inner : List Enclosure}
    (h : Anchored before inner) (hsuffix : around <:+ inner) : Anchored before around :=
  fun f rest hf => h f rest (hf.trans hsuffix)

theorem Anchored.within {before : List Sight} {v : Sight} (h : Anchored before v.around) :
    Anchored (before ++ [v]) (v.node.within v.place v.around) := by
  unfold Node.within
  split
  · rename_i hopens
    intro f rest hf
    rcases List.suffix_cons_iff.1 hf with heq | hf
    · obtain ⟨rfl, rfl⟩ := List.cons.inj heq
      exact ⟨before, v, [], rfl, rfl, rfl, rfl, hopens⟩
    · exact h.append [v] f rest hf
  · exact h.append [v]

/-- The functions around each sight lie among the sights before it. -/
def Grounded (vs : List Sight) : Prop :=
  ∀ before v after, vs = before ++ v :: after → Anchored before v.around

theorem Grounded.nil : Grounded [] := by
  intro before v after h
  simp at h

theorem Grounded.concat {vs : List Sight} {v : Sight} (h : Grounded vs)
    (hv : Anchored vs v.around) : Grounded (vs ++ [v]) := by
  intro before w after hsplit
  rcases List.eq_nil_or_concat after with rfl | ⟨after, y, rfl⟩
  · obtain ⟨rfl, heq⟩ := List.append_inj' hsplit rfl
    obtain ⟨rfl, -⟩ := List.cons.inj heq
    exact hv
  · have hsplit : vs ++ [v] = (before ++ w :: after) ++ [y] := by simpa using hsplit
    obtain ⟨rfl, -⟩ := List.append_inj' hsplit rfl
    exact h before w after rfl

theorem Program.sights_eq (p : Program) : p.sights =
    ⟨.program p, [], false, none, []⟩ :: (Node.program p).children.zipIdx.flatMap fun c =>
      c.1.node.sights [c.2] c.1.inSlot (some (.program p)) [] :=
  Node.sights_eq (.program p)

/-- Every function around a sight of a program was seen before it. -/
theorem Program.grounded (p : Program) : Grounded p.sights := by
  have hnone (before : List Sight) : Anchored before [] := fun f rest hf => by simp at hf
  have hwalked := Node.effect_children p.sights (fun _ (s : WalkState Unit) => s)
    (fun before around _ => Anchored before around ∧ Grounded before)
    (fun before v after s _ _ h => ⟨h.1.within, h.2.concat h.1⟩)
    (fun before v s _ h => ⟨h.1.of_suffix (Node.suffix_within _ _ _), h.2⟩)
    (.program p) [] [] _ (List.Subset.refl _) [⟨.program p, [], false, none, []⟩] []
    (Walk.start ()) (by simp [p.sights_eq]) ⟨hnone _, Grounded.nil.concat (hnone _)⟩
  rw [p.sights_eq]
  exact hwalked.2

/-! ### Numbers of functions -/

namespace Program

/-- The number of the scope that a function opens in a walk over the program: the functions that are
entered up to it. -/
def scopeNumber (p : Program) (place : Path) : Nat :=
  (p.sights.takeWhile (·.place ≠ place)).countP (·.node.opensScope) + 1

/-- The numbers of the scopes that are open inside some functions. -/
def chain (p : Program) (around : List Enclosure) : List Nat :=
  around.map (fun f => p.scopeNumber f.place) ++ [0]

/-- Are these the functions around some part of the program? -/
def IsLine (p : Program) (around : List Enclosure) : Prop := ∃ v ∈ p.sights, around <:+ v.around

variable {p : Program}

theorem nodup_places (p : Program) : (p.sights.map (·.place)).Nodup :=
  Node.nodup_places _ _ _ _ _

theorem scopeNumber_eq {before after : List Sight} {v : Sight}
    (h : p.sights = before ++ v :: after) :
    p.scopeNumber v.place = before.countP (·.node.opensScope) + 1 := by
  have hnodup := p.nodup_places
  rw [h, List.map_append, List.map_cons, List.nodup_append] at hnodup
  have hbefore : ∀ u ∈ before, (decide (u.place ≠ v.place)) = true := by
    intro u hu
    have := hnodup.2.2 u.place (List.mem_map.2 ⟨u, hu, rfl⟩) v.place (by simp)
    simpa using this
  rw [scopeNumber, h, List.takeWhile_append_of_pos hbefore]
  simp

theorem eq_of_place_eq {u v : Sight} (hu : u ∈ p.sights) (hv : v ∈ p.sights)
    (h : u.place = v.place) : u = v :=
  List.inj_on_of_nodup_map p.nodup_places hu hv h

theorem IsLine.of_suffix {xs ys : List Enclosure} (h : p.IsLine ys) (hs : xs <:+ ys) :
    p.IsLine xs := by
  obtain ⟨v, hv, hys⟩ := h
  exact ⟨v, hv, hs.trans hys⟩

/-- The sight of the innermost function of a line. -/
theorem IsLine.sight {f : Enclosure} {rest : List Enclosure} (h : p.IsLine (f :: rest)) :
    ∃ (before : List Sight) (u : Sight) (after : List Sight), p.sights = before ++ u :: after ∧
      u.place = f.place ∧ u.node = f.node ∧ u.around = rest ∧ u.node.opensScope = true := by
  obtain ⟨v, hv, hsuffix⟩ := h
  obtain ⟨before, after, hsplit⟩ := List.append_of_mem hv
  obtain ⟨xs, u, ys, rfl, hu⟩ := p.grounded before v after hsplit f rest hsuffix
  exact ⟨xs, u, ys ++ v :: after, by simpa using hsplit, hu⟩

/-- A function is numbered after those around it. -/
theorem scopeNumber_lt {f g : Enclosure} {rest : List Enclosure} (h : p.IsLine (f :: rest))
    (hg : g ∈ rest) : p.scopeNumber g.place < p.scopeNumber f.place := by
  obtain ⟨before, u, after, hsplit, hplace, -, rfl, -⟩ := h.sight
  obtain ⟨xs, ys, hrest⟩ := List.append_of_mem hg
  obtain ⟨more, w, others, rfl, hw, -, -, hopens⟩ := p.grounded before u after hsplit g ys
    ⟨xs, hrest.symm⟩
  have hinner : p.sights = more ++ w :: (others ++ u :: after) := by simpa using hsplit
  rw [← hplace, ← hw, scopeNumber_eq hsplit, scopeNumber_eq hinner]
  simp only [List.countP_append, List.countP_cons, hopens, if_true]
  omega

theorem IsLine.pairwise_chain {around : List Enclosure} (h : p.IsLine around) :
    (p.chain around).Pairwise (· > ·) := by
  induction around with
  | nil => simp [chain]
  | cons f rest ih =>
    refine List.pairwise_cons.2 ⟨fun id hid => ?_, ih (h.of_suffix (List.suffix_cons _ _))⟩
    rcases List.mem_append.1 hid with hid | hid
    · obtain ⟨g, hg, rfl⟩ := List.mem_map.1 hid
      exact scopeNumber_lt h hg
    · rw [List.mem_singleton.1 hid]
      exact Nat.succ_pos _

theorem eq_of_countP_eq {α : Type} {P : α → Bool} {xs ys as bs : List α} {a b : α}
    (h : xs ++ a :: as = ys ++ b :: bs) (ha : P a = true) (hb : P b = true)
    (hcount : xs.countP P = ys.countP P) : a = b := by
  induction xs generalizing ys with
  | nil =>
    cases ys with
    | nil => exact (List.cons.inj h).1
    | cons y ys =>
      obtain ⟨rfl, -⟩ := List.cons.inj h
      simp [ha] at hcount
  | cons x xs ih =>
    cases ys with
    | nil =>
      obtain ⟨rfl, -⟩ := List.cons.inj h
      simp [hb] at hcount
    | cons y ys =>
      obtain ⟨rfl, hrest⟩ := List.cons.inj h
      refine ih hrest ?_
      simp only [List.countP_cons] at hcount
      omega

/-- Functions with the same number are the same. -/
theorem eq_of_scopeNumber_eq {u v : Sight} (hu : u ∈ p.sights) (hv : v ∈ p.sights)
    (hopens : u.node.opensScope = true) (hopens' : v.node.opensScope = true)
    (h : p.scopeNumber u.place = p.scopeNumber v.place) : u = v := by
  obtain ⟨xs, as, hxs⟩ := List.append_of_mem hu
  obtain ⟨ys, bs, hys⟩ := List.append_of_mem hv
  rw [scopeNumber_eq hxs, scopeNumber_eq hys] at h
  exact eq_of_countP_eq (P := fun w => w.node.opensScope) (hxs.symm.trans hys) hopens hopens'
    (Nat.succ.inj h)

theorem IsLine.mem_sight {around : List Enclosure} (h : p.IsLine around) {f : Enclosure}
    (hf : f ∈ around) : ∃ rest u, f :: rest <:+ around ∧ u ∈ p.sights ∧ u.place = f.place ∧
      u.node = f.node ∧ u.around = rest ∧ u.node.opensScope = true := by
  obtain ⟨xs, rest, rfl⟩ := List.append_of_mem hf
  have hsuffix : f :: rest <:+ xs ++ f :: rest := List.suffix_append _ _
  obtain ⟨before, u, after, hsplit, hu⟩ := (h.of_suffix hsuffix).sight
  exact ⟨rest, u, hsuffix, by simp [hsplit], hu⟩

/-- The functions of one line that belong to another as well. -/
def shared (xs ys : List Enclosure) : List Enclosure :=
  xs.filter fun f => ys.any (·.place = f.place)

/-- Where two lines meet in one function they go on together. -/
theorem shared_eq_self {f : Enclosure} {xs ys : List Enclosure} (hxs : p.IsLine (f :: xs))
    (hys : p.IsLine ys) (hf : ys.any (·.place = f.place) = true) :
    shared (f :: xs) ys = f :: xs := by
  obtain ⟨g, hg, hplace⟩ := List.any_eq_true.1 hf
  obtain ⟨rest, v, hrest, hv, hvplace, -, rfl, -⟩ := hys.mem_sight hg
  obtain ⟨before, u, after, hsplit, huplace, -, rfl, -⟩ := hxs.sight
  have hsame : v = u := eq_of_place_eq hv (by simp [hsplit])
    (hvplace.trans ((of_decide_eq_true hplace).trans huplace.symm))
  refine List.filter_eq_self.2 fun h hh => ?_
  rcases List.mem_cons.1 hh with rfl | hh
  · exact hf
  · refine List.any_eq_true.2 ⟨h, hrest.subset ?_, by simp⟩
    rw [hsame]
    exact List.mem_cons_of_mem _ hh

theorem mem_chain_iff {f : Enclosure} {xs ys : List Enclosure} (hxs : p.IsLine (f :: xs))
    (hys : p.IsLine ys) :
    p.scopeNumber f.place ∈ p.chain ys ↔ ys.any (·.place = f.place) = true := by
  rw [chain, List.mem_append, List.mem_map, List.any_eq_true, List.mem_singleton]
  constructor
  · rintro (⟨g, hg, hnumber⟩ | hzero)
    · obtain ⟨rest, v, -, hv, hvplace, -, -, hvopens⟩ := hys.mem_sight hg
      obtain ⟨rest, u, -, hu, huplace, -, -, huopens⟩ := hxs.mem_sight (List.mem_cons_self ..)
      rw [← hvplace, ← huplace] at hnumber
      have hsame := eq_of_scopeNumber_eq hv hu hvopens huopens hnumber
      exact ⟨g, hg, by rw [← hvplace, hsame, huplace]; simp⟩
    · exact absurd hzero (Nat.succ_ne_zero _)
  · rintro ⟨g, hg, hplace⟩
    exact .inl ⟨g, hg, by rw [of_decide_eq_true hplace]⟩

theorem IsLine.shared {xs ys : List Enclosure} (hxs : p.IsLine xs) (hys : p.IsLine ys) :
    p.IsLine (shared xs ys) := by
  induction xs with
  | nil => exact hxs
  | cons f xs ih =>
    by_cases hf : ys.any (·.place = f.place) = true
    · rwa [shared_eq_self hxs hys hf]
    · rw [Program.shared, List.filter_cons, if_neg hf]
      exact ih (hxs.of_suffix (List.suffix_cons _ _))

/-- Two scopes meet in the innermost function that is around both. -/
theorem meet_chain {xs ys : List Enclosure} (hxs : p.IsLine xs) (hys : p.IsLine ys) :
    ScopeRef.meet (p.chain xs) (p.chain ys) = p.chain (shared xs ys) := by
  rw [ScopeRef.meet_eq_dropWhile hxs.pairwise_chain hys.pairwise_chain]
  induction xs with
  | nil => simp [chain, shared]
  | cons f xs ih =>
    have hmem := mem_chain_iff hxs hys
    by_cases hf : ys.any (·.place = f.place) = true
    · rw [shared_eq_self hxs hys hf]
      exact List.dropWhile_cons_of_neg (by simp [hmem.2 hf])
    · rw [Program.shared, List.filter_cons, if_neg hf]
      refine Eq.trans ?_ (ih (hxs.of_suffix (List.suffix_cons _ _)))
      exact List.dropWhile_cons_of_pos (by simpa using fun h => hf (hmem.1 h))

end Program

end ScriptOptimizer
