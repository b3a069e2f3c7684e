import ScriptOptimizer.Proofs.Pass.LiteralGroups

/-!
What becomes of the groups when a program is left. The pass decides about one group after another;
those that are declared get the next name, and their declarations queue up for the body of the
innermost function around them.
-/

namespace ScriptOptimizer

/-! ### Where a declaration goes -/

variable {walk : Nat}

namespace Program

variable {p : Program}

/-- The program is seen first, and never again. -/
theorem eq_root_of_isProgram {v : Sight} (hv : v ∈ p.sights) (h : v.node.isProgram = true) :
    v = ⟨.program p, [], false, none, []⟩ := by
  rcases Node.mem_sights.1 hv with rfl | ⟨c, hc, hv⟩
  · rfl
  · have := Node.isProgram_of_mem_sights _ _ _ _ _ v
      (Node.isProgram_child (List.fst_mem_of_mem_zipIdx hc)) hv
    rw [this] at h
    cases h

/-- An owner is the program or a function. -/
theorem owner?_eq_some {v : Sight} (hv : v ∈ p.sights) {entry : Nat × ScopeOwner}
    (h : p.owner? walk v = some entry) :
    entry = (0, ⟨walk, [], true⟩) ∨
      (v.node.opensScope = true ∧ entry.1 = p.scopeNumber v.place) := by
  unfold owner? at h
  split at h
  · rename_i hnode
    have hroot := eq_root_of_isProgram hv (by rw [hnode]; rfl)
    rw [hroot, Option.some.injEq] at h
    exact .inl h.symm
  · rename_i hnode
    rw [Option.some.injEq] at h
    exact .inr ⟨by rw [hnode]; rfl, by rw [← h]⟩
  · rename_i hnode
    rw [Option.some.injEq] at h
    exact .inr ⟨by rw [hnode]; rfl, by rw [← h]⟩
  · cases h

/-- An owner is found by the number of its scope. -/
theorem find?_owner {v : Sight} (hv : v ∈ p.sights) {entry : Nat × ScopeOwner}
    (h : p.owner? walk v = some entry) :
    (p.sights.filterMap (p.owner? walk)).reverse.find? (fun e => e.1 = entry.1) = some entry := by
  have hmem : entry ∈ (p.sights.filterMap (p.owner? walk)).reverse :=
    List.mem_reverse.2 (List.mem_filterMap.2 ⟨v, hv, h⟩)
  cases hfind : (p.sights.filterMap (p.owner? walk)).reverse.find? fun e => e.1 = entry.1 with
  | none => exact absurd (List.find?_eq_none.1 hfind entry hmem) (by simp)
  | some other =>
    have hsame : other.1 = entry.1 := by simpa using List.find?_some hfind
    obtain ⟨w, hw, hother⟩ := List.mem_filterMap.1
      (List.mem_reverse.1 (List.mem_of_find?_eq_some hfind))
    rcases owner?_eq_some hv h with rfl | ⟨hopens, hnumber⟩
    · rcases owner?_eq_some hw hother with rfl | ⟨-, hnumber⟩
      · rfl
      · rw [hnumber] at hsame
        exact absurd hsame (Nat.succ_ne_zero _)
    · rcases owner?_eq_some hw hother with rfl | ⟨hopens', hnumber'⟩
      · rw [hnumber] at hsame
        exact absurd hsame.symm (Nat.succ_ne_zero _)
      · have hsight := eq_of_scopeNumber_eq hw hv hopens' hopens
          (hnumber'.symm.trans (hsame.trans hnumber))
        rw [hsight] at hother
        exact hother.symm.trans h

/-- The owner of the innermost scope around a cluster is where its declaration goes. -/
theorem find?_cluster {c : Cluster} (hline : p.IsLine c.around) :
    (p.sights.filterMap (p.owner? walk)).reverse.find?
        (fun e => e.1 = ScopeRef.id ⟨walk, p.chain c.around⟩) =
      some (ScopeRef.id ⟨walk, p.chain c.around⟩, ⟨walk, c.owner, c.hasBody⟩) := by
  unfold Cluster.owner Cluster.hasBody
  cases haround : c.around with
  | nil =>
    have hroot : ⟨.program p, [], false, none, []⟩ ∈ p.sights := by
      rw [p.sights_eq]
      exact List.mem_cons_self ..
    exact find?_owner hroot rfl
  | cons f rest =>
    rw [haround] at hline
    obtain ⟨before, u, after, hsplit, hplace, hnode, -, hopens⟩ := hline.sight
    have hu : u ∈ p.sights := by simp [hsplit]
    obtain ⟨place, node⟩ := f
    obtain rfl : u.place = place := hplace
    obtain rfl : u.node = node := hnode
    obtain ⟨n, place, inSlot, parent, around⟩ := u
    cases n with
    | stmt x =>
      cases x with
      | function span fn => exact find?_owner hu rfl
      | _ => simp [Node.opensScope] at hopens
    | expr x =>
      cases x with
      | function span fn => exact find?_owner hu rfl
      | _ => simp [Node.opensScope] at hopens
    | _ => simp [Node.opensScope] at hopens

end Program

/-! ### One group after another -/

namespace CachedLiterals

/-- A group is passed over, or it is declared in an owner of its scope. -/
theorem settle_cases (walk : Nat) (g : LiteralGroup) (p : CachedLiterals) :
    (∀ edits log, (settle walk ⟨p, edits, log⟩ g).state = p ∧
        (settle walk ⟨p, edits, log⟩ g).edits = edits) ∨
      ∃ first scope owner saved, ∀ edits log,
        settle walk ⟨p, edits, log⟩ g = hoist walk g first scope owner saved ⟨p, edits, log⟩ := by
  unfold settle
  split
  · rename_i first second rest _
    dsimp only
    split
    · exact .inl fun _ _ => ⟨rfl, rfl⟩
    · cases g.scope with
      | none => exact .inl fun _ _ => ⟨rfl, rfl⟩
      | some scope =>
        dsimp only
        cases p.owners.find? fun entry => entry.1 = scope.id with
        | none => exact .inl fun _ _ => ⟨rfl, rfl⟩
        | some entry =>
          obtain ⟨_, owner⟩ := entry
          dsimp only
          split
          · exact .inr ⟨first.literal, scope, owner, _, fun _ _ => rfl⟩
          · exact .inl fun _ _ => ⟨rfl, rfl⟩
  · exact .inl fun _ _ => ⟨rfl, rfl⟩

/-- What the pass knows after a program does not depend on the edits. -/
theorem state_leaveProgram (walk : Nat) (p : CachedLiterals) (edits edits' : Edits) :
    (p.leaveProgram walk edits).state = (p.leaveProgram walk edits').state := by
  have hfold (gs : List LiteralGroup) (o o' : Outcome) (h : o.state = o'.state) :
      (gs.foldl (settle walk) o).state = (gs.foldl (settle walk) o').state := by
    induction gs generalizing o o' with
    | nil => exact h
    | cons g rest ih =>
      refine ih _ _ ?_
      obtain ⟨q, edits, log⟩ := o
      obtain ⟨q', edits', log'⟩ := o'
      obtain rfl : q = q' := h
      rcases settle_cases walk g q with hsame | ⟨first, scope, owner, saved, hhoist⟩
      · exact (hsame edits log).1.trans (hsame edits' log').1.symm
      · rw [hhoist, hhoist]
        rfl
  exact hfold p.groups _ _ rfl

/-- A program that is left adds no groups. -/
theorem groups_leaveProgram (walk : Nat) (p : CachedLiterals) (edits : Edits) :
    (p.leaveProgram walk edits).state.groups = p.groups := by
  have hfold (gs : List LiteralGroup) (o : Outcome) :
      (gs.foldl (settle walk) o).state.groups = o.state.groups := by
    induction gs generalizing o with
    | nil => rfl
    | cons g rest ih =>
      refine (ih _).trans ?_
      obtain ⟨q, edits, log⟩ := o
      rcases settle_cases walk g q with hsame | ⟨first, scope, owner, saved, hhoist⟩
      · rw [(hsame edits log).1]
      · rw [hhoist]
        rfl
  exact hfold p.groups _

/-- A group without a scope is passed over, and so is one that does not pay. -/
theorem settle_idle {walk : Nat} {g : LiteralGroup} {o : Outcome}
    (h : g.scope = none ∨ ∀ first second rest, g.occurrences = first :: second :: rest →
      savedBytes g.occurrences.length first.literal.raw.length o.state.overhead ≤ 0) :
    settle walk o g = o := by
  unfold settle
  split
  · rename_i first second rest hoccurrences
    rcases h with hscope | hsaved
    · simp [hscope]
    · simp [hsaved first second rest hoccurrences]
  · rfl

end CachedLiterals

/-- Names for clusters: the stem with the numbers after the first one. -/
def hoistingsFrom (first : Nat) (stem : Bytes) (cs : List Cluster) : List Hoisting :=
  (cs.zipIdx (first + 1)).map fun (c, k) => ⟨stem ++ Bytes.ofNat k, c⟩

theorem hoistingsFrom_concat (first : Nat) (stem : Bytes) (cs : List Cluster) (c : Cluster) :
    hoistingsFrom first stem (cs ++ [c]) =
      hoistingsFrom first stem cs ++ [⟨stem ++ Bytes.ofNat (first + cs.length + 1), c⟩] := by
  simp [hoistingsFrom, List.zipIdx_append, Nat.add_right_comm]

theorem length_hoistingsFrom (first : Nat) (stem : Bytes) (cs : List Cluster) :
    (hoistingsFrom first stem cs).length = cs.length := by
  simp [hoistingsFrom]

theorem length_hoistings (stem : Bytes) (cs : List Cluster) :
    (hoistings stem cs).length = cs.length := by
  simp [hoistings]

namespace Edits

theorem inserted_insert (e : Edits) (owner place : Path) (position : Nat) (s : Stmt) :
    (e.insert owner position s).inserted place =
      if owner = place then
        (e.inserted place).take position ++ s :: (e.inserted place).drop position
      else e.inserted place := by
  by_cases h : owner = place
  · simp [insert, inserted, h]
  · simp [insert, inserted, h]

theorem inserted_names (e : Edits) (names : List (Path × Ident)) (place : Path) :
    ({ e with names } : Edits).inserted place = e.inserted place := rfl

theorem foldl_putName (e : Edits) (list : List (Path × Ident)) :
    list.foldl (fun e x => e.putName x.1 x.2) e = { e with names := list.reverse ++ e.names } := by
  induction list generalizing e with
  | nil => rfl
  | cons x rest ih =>
    rw [List.foldl_cons, ih]
    simp [putName]

end Edits

namespace Cluster

/-- The names go to all spots, the latest first. -/
theorem putNames_group (walk : Nat) (p : Program) (c : Cluster) (name : Bytes) (e : Edits) :
    ((c.group walk p).occurrences.filter fun x => x.walk = walk).foldl
        (fun e x => e.putName x.place ⟨x.literal.span, name⟩) e =
      { e with names := (Hoisting.names ⟨name, c⟩).reverse ++ e.names } := by
  have hall : ((c.group walk p).occurrences.filter fun x => x.walk = walk) =
      c.spots.map (Spot.occurrence walk) := by
    refine List.filter_eq_self.2 fun x hx => ?_
    obtain ⟨u, -, rfl⟩ := List.mem_map.1 hx
    exact decide_eq_true rfl
  rw [hall, List.foldl_map, Hoisting.names, ← Edits.foldl_putName, List.foldl_map]
  rfl

theorem report_group (walk : Nat) (p : Program) (c : Cluster) (name : Bytes) (overhead : Int) :
    (⟨name, c.first.literal.raw, c.first.literal.value.kindName,
      (c.group walk p).occurrences.length, ScopeRef.level ⟨walk, p.chain c.around⟩,
      CachedLiterals.savedBytes c.count c.size overhead⟩ : Hoist) =
      Hoisting.report overhead ⟨name, c⟩ := by
  simp [Hoisting.report, group, count, ScopeRef.level, Program.chain, CachedLiterals.savedBytes]

theorem pays_iff {c : Cluster} (hmany : 2 ≤ c.count) (overhead : Int) :
    c.pays overhead = true ↔ ¬CachedLiterals.savedBytes c.count c.size overhead ≤ 0 := by
  simp only [pays, hmany, decide_true, Bool.true_and, decide_eq_true_eq,
    CachedLiterals.savedBytes, Int.natCast_mul, Int.natCast_add]
  omega

/-- What the pass does to a tree with a group of two literals or more whose owner is known. -/
theorem settle_group {p : Program} {c : Cluster} {o : CachedLiterals.Outcome} (tree : Nat)
    (hmany : 2 ≤ c.count)
    (hfound : o.state.owners.find?
        (fun entry => entry.1 = ScopeRef.id ⟨walk, p.chain c.around⟩) =
      some (ScopeRef.id ⟨walk, p.chain c.around⟩, ⟨walk, c.owner, c.hasBody⟩)) :
    CachedLiterals.settle tree o (c.group walk p) =
      if CachedLiterals.savedBytes c.count c.size o.state.overhead ≤ 0 then o
      else if c.hasBody then
        CachedLiterals.hoist tree (c.group walk p) c.first.literal ⟨walk, p.chain c.around⟩
          ⟨walk, c.owner, c.hasBody⟩ (CachedLiterals.savedBytes c.count c.size o.state.overhead) o
      else o := by
  have hcount : (c.group walk p).occurrences.length = c.count := by simp [group, count]
  rw [← hcount]
  simp only [CachedLiterals.settle]
  split
  · rename_i a b rest hoccurrences
    obtain ⟨rfl, -⟩ : c.first.occurrence walk = a ∧ _ := List.cons.inj hoccurrences
    simp only [group, hfound]
    rfl
  · rename_i hshort
    obtain ⟨first, more⟩ := c
    cases more with
    | nil => simp [count, spots] at hmany
    | cons second more =>
      exact absurd rfl (hshort (first.occurrence walk) (second.occurrence walk)
        (more.map (Spot.occurrence walk)))

end Cluster

/-- The pass after it has decided about some clusters of a program, for what it knew before the
walk. -/
structure Settled (base : CachedLiterals) (walk : Nat) (p : Program) (hs : List Hoisting)
    (o : CachedLiterals.Outcome) : Prop where
  stem : o.state.stem = base.stem
  overhead : o.state.overhead = base.overhead
  owners : o.state.owners = (p.sights.filterMap (p.owner? walk)).reverse ++ base.owners
  counter : o.state.counter = base.counter + hs.length
  reports : o.state.hoisted = base.hoisted ++ hs.map (Hoisting.report base.overhead)
  positions : ∀ place,
    ((o.state.inserts.find? fun entry => entry.1 = ⟨walk, place, true⟩).map (·.2)).getD 0 =
      (hs.filter (·.cluster.owner = place)).length
  owned : ∀ entry ∈ o.state.inserts, entry ∈ base.inserts ∨ entry.1.walk = walk
  inserted : ∀ place,
    o.edits.inserted place = (hs.filter (·.cluster.owner = place)).map Hoisting.declaration
  names : o.edits.names = (hs.flatMap Hoisting.names).reverse

namespace Settled

variable {base : CachedLiterals} {p : Program} {hs : List Hoisting} {o : CachedLiterals.Outcome}
  {c : Cluster}

/-- A cluster that is declared gets the next name. -/
theorem hoist (h : Settled base walk p hs o) :
    Settled base walk p
      (hs ++ [⟨base.stem ++ Bytes.ofNat (base.counter + hs.length + 1), c⟩])
      (CachedLiterals.hoist walk (c.group walk p) c.first.literal ⟨walk, p.chain c.around⟩
        ⟨walk, c.owner, true⟩ (CachedLiterals.savedBytes c.count c.size base.overhead) o) := by
  have hname : o.state.stem ++ Bytes.ofNat (o.state.counter + 1) =
      base.stem ++ Bytes.ofNat (base.counter + hs.length + 1) := by
    rw [h.stem, h.counter]
  have hposition := h.positions c.owner
  constructor
  · exact h.stem
  · exact h.overhead
  · exact h.owners
  · simp [CachedLiterals.hoist, h.counter, Nat.add_assoc]
  · rw [List.map_append, ← List.append_assoc, ← h.reports, List.map_singleton,
      ← Cluster.report_group walk p, ← hname]
    rfl
  · intro place
    rw [List.filter_append, List.length_append, ← h.positions place]
    by_cases hplace : c.owner = place
    · subst hplace
      simp [CachedLiterals.hoist]
    · simp [CachedLiterals.hoist, hplace]
  · intro entry hentry
    rcases List.mem_cons.1 hentry with rfl | hentry
    · exact .inr rfl
    · exact h.owned entry hentry
  · -- The position is behind all declarations that the body has received.
    intro place
    rw [List.filter_append, List.map_append, ← h.inserted place]
    simp only [CachedLiterals.hoist, if_true, Cluster.putNames_group, Edits.inserted_names,
      Edits.inserted_insert, hposition, hname]
    by_cases hplace : c.owner = place
    · have hlength : (hs.filter (·.cluster.owner = c.owner)).length =
          (o.edits.inserted place).length := by
        rw [h.inserted place, List.length_map, hplace]
      rw [if_pos hplace, hlength, List.take_length, List.drop_length]
      simp [hplace, Hoisting.declaration]
    · simp [hplace]
  · simp only [CachedLiterals.hoist, if_true, hname, Cluster.putNames_group]
    rw [List.flatMap_append, List.reverse_append, ← h.names]
    simp [Edits.insert]

/-- The pass declares a cluster if that saves bytes and there is a body for it. -/
theorem settle_eq (h : Settled base walk p hs o) {settings : LiteralSettings}
    (hoverhead : base.overhead = settings.overhead) (hline : p.IsLine c.around) :
    CachedLiterals.settle walk o (c.group walk p) =
      if c.isWorthwhile settings then
        CachedLiterals.hoist walk (c.group walk p) c.first.literal ⟨walk, p.chain c.around⟩
          ⟨walk, c.owner, true⟩ (CachedLiterals.savedBytes c.count c.size base.overhead) o
      else o := by
  by_cases hmany : 2 ≤ c.count
  · have hfound : o.state.owners.find?
        (fun entry => entry.1 = ScopeRef.id ⟨walk, p.chain c.around⟩) =
          some (ScopeRef.id ⟨walk, p.chain c.around⟩, ⟨walk, c.owner, c.hasBody⟩) := by
      rw [h.owners, List.find?_append, Program.find?_cluster hline]
      rfl
    rw [Cluster.settle_group walk hmany hfound, h.overhead, hoverhead, Cluster.isWorthwhile]
    have hpays := Cluster.pays_iff hmany settings.overhead
    by_cases hsaved : CachedLiterals.savedBytes c.count c.size settings.overhead ≤ 0
    · have hpays : c.pays settings.overhead = false := by
        rw [← Bool.not_eq_true, hpays]
        exact not_not_intro hsaved
      simp [hsaved, hpays]
    · rw [if_neg hsaved, hpays.2 hsaved, Bool.true_and]
      cases hbody : c.hasBody <;> rfl
  · obtain ⟨first, more⟩ := c
    cases more with
    | nil => simp [CachedLiterals.settle, Cluster.isWorthwhile, Cluster.pays, hmany, Cluster.group,
        Cluster.spots]
    | cons second more => simp [Cluster.count, Cluster.spots] at hmany

/-- The decisions about clusters, one after another. -/
theorem foldl {settings : LiteralSettings} (hoverhead : base.overhead = settings.overhead)
    {done cs : List Cluster}
    (h : Settled base walk p (hoistingsFrom base.counter base.stem done) o)
    (hlines : ∀ c ∈ cs, p.IsLine c.around) :
    Settled base walk p
      (hoistingsFrom base.counter base.stem (done ++ cs.filter (Cluster.isWorthwhile settings)))
      ((cs.map (Cluster.group walk p)).foldl (CachedLiterals.settle walk) o) := by
  induction cs generalizing done o with
  | nil => simpa using h
  | cons c cs ih =>
    have hrest : ∀ d ∈ cs, p.IsLine d.around := fun d hd => hlines d (by simp [hd])
    rw [List.map_cons, List.foldl_cons, h.settle_eq hoverhead (hlines c (by simp)),
      List.filter_cons]
    by_cases hc : c.isWorthwhile settings = true
    · have hhoist := h.hoist (c := c)
      rw [length_hoistingsFrom, ← hoistingsFrom_concat] at hhoist
      rw [if_pos hc, if_pos hc]
      simpa using ih hhoist hrest
    · rw [if_neg hc, if_neg hc]
      exact ih h hrest

/-- What a fresh pass reports. -/
theorem hoisted {settings : LiteralSettings} (h : Settled settings.fresh 0 p hs o) :
    o.state.hoisted = hs.map (Hoisting.report settings.overhead) := h.reports

end Settled

/-! ### Clusters hold the spots -/

/-- The clusters of spots together hold each spot once. -/
theorem clusters_perm (us : List Spot) : ((clusters us).flatMap Cluster.spots).Perm us := by
  fun_induction clusters us with
  | case1 => exact .nil
  | case2 u rest ih =>
    have hsplit : (u.alike rest ++ u.others rest).Perm rest := by
      simpa [Spot.alike, Spot.others] using
        List.filter_append_perm (fun w : Spot => decide (w.key = u.key)) rest
    rw [List.flatMap_cons]
    exact ((ih.append_left (u.alike rest)).trans hsplit).cons u

/-- A cluster holds all spots of its key. -/
theorem spots_of_mem_clusters {us : List Spot} {c : Cluster} (hc : c ∈ clusters us) :
    c.spots = us.filter (·.key = c.first.key) := by
  fun_induction clusters us with
  | case1 => cases hc
  | case2 w rest ih =>
    rcases List.mem_cons.1 hc with rfl | hc
    · simp [Cluster.spots, Spot.alike]
    · have hspots := ih hc
      have hfirst : c.first ∈ (w.others rest).filter (·.key = c.first.key) := by
        rw [← hspots]
        exact List.mem_cons_self ..
      have hne : c.first.key ≠ w.key := by
        simpa using (List.mem_filter.1 (List.mem_filter.1 hfirst).1).2
      rw [hspots, Spot.others, List.filter_filter,
        List.filter_cons_of_neg (by simpa using hne.symm)]
      refine List.filter_congr fun u _ => ?_
      by_cases hu : u.key = c.first.key
      · simp [hu, hne]
      · simp [hu]

theorem key_of_mem_clusters {us : List Spot} {c : Cluster} (hc : c ∈ clusters us) {u : Spot}
    (hu : u ∈ c.spots) : u.key = c.first.key := by
  rw [spots_of_mem_clusters hc] at hu
  simpa using (List.mem_filter.1 hu).2

/-- The clusters come in the order of their first spots. -/
theorem sublist_firsts (us : List Spot) : ((clusters us).map (·.first)).Sublist us := by
  fun_induction clusters us with
  | case1 => exact .slnil
  | case2 u rest ih => exact (ih.trans List.filter_sublist).cons_cons u

theorem mem_of_mem_clusters {us : List Spot} {c : Cluster} (hc : c ∈ clusters us) {u : Spot}
    (hu : u ∈ c.spots) : u ∈ us :=
  (clusters_perm us).subset (List.mem_flatMap.2 ⟨c, hc, hu⟩)

/-- The functions around a whole cluster are those around a part of the program. -/
theorem Program.isLine_cluster {p : Program} {c : Cluster} (hc : c ∈ clusters p.spots) :
    p.IsLine c.around := by
  have hspot (u : Spot) (hu : u ∈ c.spots) : p.IsLine u.around :=
    isLine_spot (List.Subset.refl _) (mem_of_mem_clusters hc hu)
  exact isLine_filter hspot (hspot c.first (List.mem_cons_self ..))

/-- When a program is left, a fresh pass has decided about every cluster. -/
theorem Program.settled (settings : LiteralSettings) (p : Program) :
    Settled settings.fresh 0 p (p.hoistings settings)
      ((p.collected 0 settings.fresh p.sights).leaveProgram 0 {}) := by
  have hstart : Settled settings.fresh 0 p (hoistingsFrom 0 settings.stem [])
      ⟨p.collected 0 settings.fresh p.sights, {}, []⟩ :=
    ⟨rfl, rfl, rfl, rfl, rfl, fun _ => rfl, fun _ => .inl, fun _ => rfl, rfl⟩
  have hgroups : (p.collected 0 settings.fresh p.sights).groups =
      (clusters p.spots).map (Cluster.group 0 p) :=
    foldl_recordSpot fun u hu => isLine_spot (List.Subset.refl _) hu
  rw [CachedLiterals.leaveProgram, hgroups]
  exact hstart.foldl rfl fun c hc => isLine_cluster hc

namespace Session

/-- The state after a walk with one pass, for what the pass knew before. -/
theorem walked_known {s : Session} {base : CachedLiterals}
    (hs : s.passes = [.cachedLiterals base]) (p : Program) :
    let known := p.collected s.walks base p.sights
    let o := known.leaveProgram s.walks {}
    let w := s.walked (.cachedLiterals base) p
    w.edits = o.edits ∧ w.own.passes = [.cachedLiterals o.state] ∧ w.own.walks = s.walks ∧
      w.own.earlier = s.earlier.mapIdx fun walk edits => (known.leaveProgram walk edits).edits := by
  intro known o w
  have h := p.collecting hs
  obtain ⟨-, hedits, hpasses, hwalks, hearlier⟩ := act_literals base
    ⟨.leave, .program p, [], false, none⟩ h.passes
  rw [h.walks] at hedits hpasses hwalks
  rw [h.edits] at hedits hpasses
  rw [h.earlier] at hearlier
  simp only [w, walked]
  rw [Node.effect_eq]
  exact ⟨hedits, hpasses, hwalks, hearlier⟩

/-- The state after a walk with a fresh pass. -/
theorem walked_literals (settings : LiteralSettings) (p : Program) :
    let w := (start settings [.cachedLiterals]).walked (Pass.start settings .cachedLiterals) p
    let o := (p.collected 0 settings.fresh p.sights).leaveProgram 0 {}
    w.edits = o.edits ∧ w.own.passes = [.cachedLiterals o.state] := by
  have hpasses : (start settings [.cachedLiterals]).passes = [.cachedLiterals settings.fresh] := rfl
  obtain ⟨hedits, hstate, -⟩ := walked_known hpasses p
  exact ⟨hedits, hstate⟩

end Session

end ScriptOptimizer
