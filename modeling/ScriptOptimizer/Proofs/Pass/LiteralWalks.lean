import ScriptOptimizer.Parse.Statement
import ScriptOptimizer.Pattern.Check
import ScriptOptimizer.Proofs.Pass.LiteralRewrite
import ScriptOptimizer.Syntax.Print

/-!
Two walks with one pass. The pass keeps its groups when a walk is over, so a second walk decides
about those of the first again. It does what a walk with a fresh pass does, and leaves the first
program alone, only when none of them is declared.
-/

namespace ScriptOptimizer

/-! ### Groups that are carried over -/

/-- The values of clusters are all different. -/
theorem nodup_keys_clusters (us : List Spot) : ((clusters us).map (·.first.key)).Nodup := by
  fun_induction clusters us with
  | case1 => exact List.nodup_nil
  | case2 u rest ih =>
    refine List.nodup_cons.2 ⟨fun hmem => ?_, ih⟩
    obtain ⟨c, hc, hkey⟩ := List.mem_map.1 hmem
    have hfirst := mem_of_mem_clusters hc (List.mem_cons_self ..)
    have hne : c.first.key ≠ u.key := by simpa using (List.mem_filter.1 hfirst).2
    exact hne hkey

/-- Clusters of the spots with certain values are the clusters of these values. -/
theorem clusters_filter (q : LiteralKey → Bool) (us : List Spot) :
    clusters (us.filter fun u => q u.key) = (clusters us).filter fun c => q c.first.key := by
  fun_induction clusters us with
  | case1 => rw [List.filter_nil, clusters, List.filter_nil]
  | case2 u rest ih =>
    have hothers : u.others (rest.filter fun w => q w.key) =
        (u.others rest).filter fun w => q w.key := by
      simp only [Spot.others, List.filter_filter, Bool.and_comm]
    rw [List.filter_cons, List.filter_cons]
    by_cases hu : q u.key = true
    · have halike : u.alike (rest.filter fun w => q w.key) = u.alike rest := by
        rw [Spot.alike, Spot.alike, List.filter_filter]
        refine List.filter_congr fun w _ => ?_
        by_cases hkey : w.key = u.key
        · simp [hkey, hu]
        · simp [hkey]
      rw [if_pos hu, if_pos hu, clusters, halike, hothers, ih]
    · -- Of the values that are left out none is the value of this spot.
      have hsame : (rest.filter fun w => q w.key) = (u.others rest).filter fun w => q w.key := by
        rw [Spot.others, List.filter_filter]
        refine List.filter_congr fun w _ => ?_
        by_cases hkey : w.key = u.key
        · simp [hkey, hu]
        · simp [hkey]
      rw [if_neg hu, if_neg hu, hsame, ih]

namespace CachedLiterals

/-- A literal of a value that is known goes to its group, any other behind all groups. -/
theorem record_append (key : LiteralKey) (x : Occurrence) (scope : ScopeRef)
    (old new : List LiteralGroup) : record key x scope (old ++ new) =
      if key ∈ old.map (·.key) then record key x scope old ++ new
      else old ++ record key x scope new := by
  induction old with
  | nil => rfl
  | cons g rest ih =>
    rw [List.cons_append, record, record, List.map_cons]
    by_cases hkey : g.key = key
    · rw [if_pos hkey, if_pos hkey, if_pos (by simp [hkey])]
      rfl
    · rw [if_neg hkey, if_neg hkey, ih]
      have hmem : key ∈ g.key :: rest.map (·.key) ↔ key ∈ rest.map (·.key) := by
        simp [Ne.symm hkey]
      simp only [hmem]
      split <;> rfl

theorem record_of_known {key : LiteralKey} {x : Occurrence} {scope : ScopeRef}
    {groups : List LiteralGroup} (hkeys : (groups.map (·.key)).Nodup)
    (hkey : key ∈ groups.map (·.key)) : record key x scope groups = groups.map fun g =>
      if g.key = key then
        { g with
          occurrences := g.occurrences ++ [x]
          scope := ScopeRef.join g.scope (some scope) }
      else g := by
  induction groups with
  | nil => cases hkey
  | cons g rest ih =>
    obtain ⟨hnew, hrest⟩ := List.nodup_cons.1 hkeys
    rw [record, List.map_cons]
    by_cases hsame : g.key = key
    · -- The other groups have other values.
      have hkept : ∀ h ∈ rest, ¬h.key = key := fun h hh heq =>
        hnew (List.mem_map.2 ⟨h, hh, heq.trans hsame.symm⟩)
      rw [if_pos hsame, if_pos hsame]
      refine congrArg (_ :: ·) ?_
      rw [List.map_congr_left fun h hh => if_neg (hkept h hh), List.map_id']
    · rw [if_neg hsame, if_neg hsame]
      refine congrArg (g :: ·) (ih hrest ?_)
      simpa [Ne.symm hsame] using hkey

end CachedLiterals

/-- A group with one more spot of a program. -/
def LiteralGroup.withSpot (walk : Nat) (q : Program) (g : LiteralGroup) (u : Spot) : LiteralGroup :=
  { g with
    occurrences := g.occurrences ++ [u.occurrence walk]
    scope := ScopeRef.join g.scope (some ⟨walk, q.chain u.around⟩) }

namespace LiteralGroup

variable {walk : Nat} {q : Program}

theorem occurrences_foldl (us : List Spot) (g : LiteralGroup) :
    (us.foldl (LiteralGroup.withSpot walk q) g).occurrences =
      g.occurrences ++ us.map (Spot.occurrence walk) := by
  induction us generalizing g with
  | nil => exact (List.append_nil _).symm
  | cons u rest ih =>
    rw [List.foldl_cons, ih]
    simp [LiteralGroup.withSpot]

end LiteralGroup

namespace Program

variable {walk : Nat} {q : Program}

/-- Spots of known values go to their groups, and the others behind them. -/
theorem foldl_recordSpot_append (us : List Spot) (old new : List LiteralGroup) :
    us.foldl (q.recordSpot walk) (old ++ new) =
      (us.filter fun u => u.key ∈ old.map (·.key)).foldl (q.recordSpot walk) old ++
        (us.filter fun u => u.key ∉ old.map (·.key)).foldl (q.recordSpot walk) new := by
  have hkeys (key : LiteralKey) (x : Occurrence) (scope : ScopeRef) :
      ∀ old : List LiteralGroup, key ∈ old.map (·.key) →
        (CachedLiterals.record key x scope old).map (·.key) = old.map (·.key) := by
    intro old
    induction old with
    | nil => exact nofun
    | cons g rest ih =>
      intro hkey
      rw [CachedLiterals.record]
      by_cases hsame : g.key = key
      · rw [if_pos hsame]
        rfl
      · rw [if_neg hsame, List.map_cons, List.map_cons, ih (by simpa [Ne.symm hsame] using hkey)]
  induction us generalizing old new with
  | nil => rfl
  | cons u rest ih =>
    rw [List.foldl_cons, recordSpot, CachedLiterals.record_append, List.filter_cons,
      List.filter_cons]
    by_cases hkey : u.key ∈ old.map (·.key)
    · rw [if_pos hkey, if_pos (decide_eq_true hkey), if_neg (by simpa using hkey), ih,
        hkeys _ _ _ _ hkey]
      rfl
    · rw [if_neg hkey, if_neg (by simpa using hkey), if_pos (by simpa using hkey), ih]
      rfl

/-- Groups that get only spots of their values. -/
theorem foldl_recordSpot_known {groups : List LiteralGroup} (hkeys : (groups.map (·.key)).Nodup)
    (us : List Spot) (hus : ∀ u ∈ us, u.key ∈ groups.map (·.key)) :
    us.foldl (q.recordSpot walk) groups = groups.map fun g =>
      (us.filter (·.key = g.key)).foldl (LiteralGroup.withSpot walk q) g := by
  induction us generalizing groups with
  | nil => exact (List.map_id' _).symm
  | cons u rest ih =>
    let step (g : LiteralGroup) : LiteralGroup := if g.key = u.key then g.withSpot walk q u else g
    have hstep : q.recordSpot walk groups u = groups.map step :=
      CachedLiterals.record_of_known hkeys (hus u List.mem_cons_self)
    have hsame : (groups.map step).map (·.key) = groups.map (·.key) := by
      rw [List.map_map]
      refine List.map_congr_left fun g _ => ?_
      simp only [Function.comp, step]
      split <;> rfl
    rw [List.foldl_cons, hstep, ih (hsame ▸ hkeys)
      (fun w hw => hsame ▸ hus w (List.mem_cons_of_mem u hw)), List.map_map]
    refine List.map_congr_left fun g _ => ?_
    simp only [Function.comp, step, List.filter_cons]
    by_cases hkey : u.key = g.key
    · simp [hkey, LiteralGroup.withSpot]
    · simp [hkey, Ne.symm hkey]

end Program

/-! ### Values that are met again -/

/-- The cluster with the spots of the same value in another program. -/
def Cluster.joined (q : Program) (c : Cluster) : Cluster :=
  ⟨c.first, c.more ++ q.spots.filter (·.key = c.first.key)⟩

/-- Nothing of the first program is declared in a walk over the second: each value of the first is
met just once in the second, or to declare it does not pay, neither all its literals together nor
those of the second program alone. -/
def Program.Idle (settings : LiteralSettings) (p q : Program) : Prop :=
  ∀ c ∈ clusters p.spots, (q.spots.filter (·.key = c.first.key)).length = 1 ∨
    ((c.joined q).pays settings.overhead = false ∧
      ∀ d ∈ clusters q.spots, d.first.key = c.first.key → d.isWorthwhile settings = false)

instance (settings : LiteralSettings) (p q : Program) : Decidable (p.Idle settings q) :=
  inferInstanceAs (Decidable (∀ c ∈ clusters p.spots, _ ∨ _))

/-- The clusters of the values that only the second program has. -/
def Program.added (p q : Program) : List Cluster :=
  (clusters q.spots).filter fun d => d.first.key ∉ (clusters p.spots).map (·.first.key)

/-- The group of a cluster after a walk over another program. -/
def Cluster.carried (p q : Program) (c : Cluster) : LiteralGroup :=
  (q.spots.filter (·.key = c.first.key)).foldl (LiteralGroup.withSpot 1 q) (c.group 0 p)

namespace Program

variable {settings : LiteralSettings} {p q : Program}

/-- The groups after two walks: those of the first program, and the values that only the second
has. -/
theorem foldl_recordSpot_second (p q : Program) :
    q.spots.foldl (q.recordSpot 1) ((clusters p.spots).map (Cluster.group 0 p)) =
      (clusters p.spots).map (Cluster.carried p q) ++ (p.added q).map (Cluster.group 1 q) := by
  let values := (clusters p.spots).map (·.first.key)
  let groups := (clusters p.spots).map (Cluster.group 0 p)
  have hkeys : groups.map (·.key) = values := List.map_map
  have hcarried : (q.spots.filter fun u => u.key ∈ values).foldl (q.recordSpot 1) groups =
      (clusters p.spots).map (Cluster.carried p q) := by
    rw [foldl_recordSpot_known (hkeys ▸ nodup_keys_clusters p.spots) _
      fun u hu => hkeys ▸ of_decide_eq_true (List.mem_filter.1 hu).2, List.map_map]
    refine List.map_congr_left fun c hc => ?_
    have hvalue : c.first.key ∈ values := List.mem_map_of_mem hc
    have hfilter : (q.spots.filter fun u => u.key ∈ values).filter (·.key = c.first.key) =
        q.spots.filter (·.key = c.first.key) := by
      rw [List.filter_filter]
      refine List.filter_congr fun u _ => ?_
      by_cases hkey : u.key = c.first.key
      · simp [hkey, hvalue]
      · simp [hkey]
    exact congrArg (fun us => us.foldl (LiteralGroup.withSpot 1 q) (c.group 0 p)) hfilter
  have hadded : (q.spots.filter fun u => u.key ∉ values).foldl (q.recordSpot 1) [] =
      (p.added q).map (Cluster.group 1 q) := by
    have hlines : ∀ u ∈ q.spots.filter fun u => u.key ∉ values, q.IsLine u.around := fun u hu =>
      isLine_spot (List.Subset.refl _) (List.mem_filter.1 hu).1
    rw [foldl_recordSpot hlines, clusters_filter fun key => key ∉ values]
    rfl
  calc q.spots.foldl (q.recordSpot 1) groups
    _ = q.spots.foldl (q.recordSpot 1) (groups ++ []) := by rw [List.append_nil]
    _ = (q.spots.filter fun u => u.key ∈ values).foldl (q.recordSpot 1) groups ++
        (q.spots.filter fun u => u.key ∉ values).foldl (q.recordSpot 1) [] := by
      rw [foldl_recordSpot_append, hkeys]
    _ = (clusters p.spots).map (Cluster.carried p q) ++ (p.added q).map (Cluster.group 1 q) := by
      rw [hcarried, hadded]

/-- What only the second program has is declared as without the first. -/
theorem Idle.filter_added (h : p.Idle settings q) :
    (p.added q).filter (Cluster.isWorthwhile settings) =
      (clusters q.spots).filter (Cluster.isWorthwhile settings) := by
  rw [added, List.filter_filter]
  refine List.filter_congr fun d hd => ?_
  by_cases hmem : d.first.key ∈ (clusters p.spots).map (·.first.key)
  · obtain ⟨c, hc, hkey⟩ := List.mem_map.1 hmem
    have hidle : d.isWorthwhile settings = false := by
      rcases h c hc with hone | ⟨-, halone⟩
      · -- A single literal does not pay.
        rw [hkey, ← spots_of_mem_clusters hd] at hone
        have hfew : ¬2 ≤ d.count := by rw [Cluster.count]; omega
        simp [Cluster.isWorthwhile, Cluster.pays, hfew]
      · exact halone d hd hkey.symm
    rw [hidle, Bool.false_and]
  · simp [hmem]

end Program

namespace Cluster

variable {settings : LiteralSettings} {p q : Program} {c : Cluster}

/-- A group that is carried over is passed over. -/
theorem settle_carried {tree : Nat} {o : CachedLiterals.Outcome}
    (hoverhead : o.state.overhead = settings.overhead)
    (h : (q.spots.filter (·.key = c.first.key)).length = 1 ∨
      (c.joined q).pays settings.overhead = false) :
    CachedLiterals.settle tree o (c.carried p q) = o := by
  refine CachedLiterals.settle_idle ?_
  rcases h with hone | hpays
  · -- Scopes of different walks have nothing in common.
    obtain ⟨u, hu⟩ := List.length_eq_one_iff.1 hone
    left
    rw [carried, hu]
    simp [LiteralGroup.withSpot, group, ScopeRef.join, ScopeRef.commonParent]
  · right
    intro first second rest hoccurrences
    have hlength : (c.carried p q).occurrences.length = (c.joined q).count := by
      rw [carried, LiteralGroup.occurrences_foldl]
      simp [group, joined, count, spots, Nat.add_right_comm]
    have hfirst : first = c.first.occurrence 0 := by
      rw [carried, LiteralGroup.occurrences_foldl] at hoccurrences
      exact (List.cons.inj hoccurrences).1.symm
    have hmany : 2 ≤ (c.joined q).count := by
      rw [← hlength, hoccurrences]
      simp
    have hsaved := (pays_iff hmany settings.overhead).not.1 (by simp [hpays])
    rw [hlength, hfirst, hoverhead]
    exact not_not.1 hsaved

/-- Groups of another walk leave a tree alone. -/
theorem edits_settle_apart {walk tree : Nat} (hwalk : walk ≠ tree) (hline : q.IsLine c.around)
    {o : CachedLiterals.Outcome} {more : List (Nat × ScopeOwner)}
    (howners : o.state.owners = (q.sights.filterMap (q.owner? walk)).reverse ++ more) :
    (CachedLiterals.settle tree o (c.group walk q)).edits = o.edits ∧
      (CachedLiterals.settle tree o (c.group walk q)).state.owners = o.state.owners := by
  by_cases hmany : 2 ≤ c.count
  · have hfound : o.state.owners.find?
        (fun entry => entry.1 = ScopeRef.id ⟨walk, q.chain c.around⟩) =
          some (ScopeRef.id ⟨walk, q.chain c.around⟩, ⟨walk, c.owner, c.hasBody⟩) := by
      rw [howners, List.find?_append, Program.find?_cluster hline]
      rfl
    have hnone : (c.group walk q).occurrences.filter (fun x => x.walk = tree) = [] := by
      refine List.filter_eq_nil_iff.2 fun x hx => ?_
      obtain ⟨u, -, rfl⟩ := List.mem_map.1 hx
      exact fun hsame => hwalk (of_decide_eq_true hsame)
    rw [settle_group tree hmany hfound]
    split
    · exact ⟨rfl, rfl⟩
    · split
      · simp [CachedLiterals.hoist, hnone, hwalk]
      · exact ⟨rfl, rfl⟩
  · have hidle : CachedLiterals.settle tree o (c.group walk q) = o := by
      refine CachedLiterals.settle_idle (.inr fun first second rest hoccurrences => ?_)
      have hlength : (c.group walk q).occurrences.length = c.count := by simp [group, count]
      rw [hoccurrences] at hlength
      simp only [List.length_cons] at hlength
      omega
    rw [hidle]
    exact ⟨rfl, rfl⟩

end Cluster

/-! ### The second walk -/

/-- What a fresh pass knows when it has left a program. -/
def Program.knownOnce (settings : LiteralSettings) (p : Program) : CachedLiterals :=
  ((p.collected 0 settings.fresh p.sights).leaveProgram 0 {}).state

/-- The edits that a fresh pass makes to a program. -/
def Program.editsOnce (settings : LiteralSettings) (p : Program) : Edits :=
  ((p.collected 0 settings.fresh p.sights).leaveProgram 0 {}).edits

/-- What it knows when it has then collected the literals of another program. -/
def Program.knownTwice (settings : LiteralSettings) (p q : Program) : CachedLiterals :=
  q.collected 1 (p.knownOnce settings) q.sights

namespace Program

variable {settings : LiteralSettings} {p q : Program}

theorem overhead_knownOnce (settings : LiteralSettings) (p : Program) :
    (p.knownOnce settings).overhead = settings.overhead := (p.settled settings).overhead

theorem isLine_added {d : Cluster} (hd : d ∈ p.added q) : q.IsLine d.around :=
  isLine_cluster (List.mem_filter.1 hd).1

/-- Nothing of the first program is decided anew: only what the second program adds is left. -/
theorem Idle.leaveProgram (h : p.Idle settings q) (tree : Nat) (edits : Edits) :
    (p.knownTwice settings q).leaveProgram tree edits =
      ((p.added q).map (Cluster.group 1 q)).foldl (CachedLiterals.settle tree)
        ⟨p.knownTwice settings q, edits, []⟩ := by
  have hfirst : (p.knownOnce settings).groups = (clusters p.spots).map (Cluster.group 0 p) := by
    rw [knownOnce, CachedLiterals.groups_leaveProgram]
    exact foldl_recordSpot fun u hu => isLine_spot (List.Subset.refl _) hu
  have hgroups : (p.knownTwice settings q).groups = _ :=
    (congrArg (q.spots.foldl (q.recordSpot 1)) hfirst).trans (foldl_recordSpot_second p q)
  let start : CachedLiterals.Outcome := ⟨p.knownTwice settings q, edits, []⟩
  have hcarried : ((clusters p.spots).map (Cluster.carried p q)).foldl
      (CachedLiterals.settle tree) start = start := by
    refine List.foldlRecOn (motive := (· = start)) _ _ rfl fun o ho g hg => ?_
    obtain ⟨c, hc, rfl⟩ := List.mem_map.1 hg
    rw [ho]
    exact Cluster.settle_carried (p.overhead_knownOnce settings) ((h c hc).imp_right And.left)
  rw [CachedLiterals.leaveProgram, hgroups, List.foldl_append, hcarried]

/-- The first program keeps its edits when the second is left. -/
theorem Idle.edits_first (h : p.Idle settings q) (edits : Edits) :
    ((p.knownTwice settings q).leaveProgram 0 edits).edits = edits := by
  let kept (o : CachedLiterals.Outcome) : Prop :=
    o.edits = edits ∧ o.state.owners = (p.knownTwice settings q).owners
  rw [h.leaveProgram]
  refine (List.foldlRecOn (motive := kept) _ _ ⟨rfl, rfl⟩ fun o ho g hg => ?_).1
  obtain ⟨d, hd, rfl⟩ := List.mem_map.1 hg
  obtain ⟨hedits, howners⟩ :=
    Cluster.edits_settle_apart Nat.one_ne_zero (isLine_added hd) ho.2
  exact ⟨hedits.trans ho.1, howners.trans ho.2⟩

/-- When the second program is left, the pass has decided about every cluster of it. Only the
numbers of the names go on. -/
theorem Idle.settled (h : p.Idle settings q) :
    Settled (p.knownOnce settings) 1 q
      (hoistingsFrom (p.hoistings settings).length settings.stem
        ((clusters q.spots).filter (Cluster.isWorthwhile settings)))
      ((p.knownTwice settings q).leaveProgram 1 {}) := by
  have hfirst := p.settled settings
  have hstart : Settled (p.knownOnce settings) 1 q
      (hoistingsFrom (p.knownOnce settings).counter (p.knownOnce settings).stem [])
      ⟨p.knownTwice settings q, {}, []⟩ := by
    refine ⟨rfl, rfl, rfl, rfl, (List.append_nil _).symm, fun place => ?_, fun _ => .inl,
      fun _ => rfl, rfl⟩
    -- All declarations so far are in the first program.
    have hnone : (p.knownTwice settings q).inserts.find?
        (fun entry => entry.1 = ⟨1, place, true⟩) = none := by
      refine List.find?_eq_none.2 fun entry hentry hsame => ?_
      rcases hfirst.owned entry hentry with hold | hwalk
      · cases hold
      · rw [of_decide_eq_true hsame] at hwalk
        cases hwalk
    rw [hnone]
    rfl
  have hcounter : (p.knownOnce settings).counter = (p.hoistings settings).length :=
    hfirst.counter.trans (Nat.zero_add _)
  have hstem : (p.knownOnce settings).stem = settings.stem := hfirst.stem
  have hsettled := hstart.foldl (p.overhead_knownOnce settings)
    fun d (hd : d ∈ p.added q) => isLine_added hd
  rw [List.nil_append, h.filter_added, hcounter, hstem] at hsettled
  rwa [h.leaveProgram]

/-- The outline of a program in which clusters have been declared. -/
theorem outline_settled {base : CachedLiterals} {walk : Nat} {hs : List Hoisting}
    {o : CachedLiterals.Outcome} (h : Settled base walk p hs o)
    (hnodup : ((hs.flatMap Hoisting.names).map (·.1)).Nodup) :
    (p.edit o.edits).outline =
      p.outline.rewrite (Hoisting.changes hs) ((Hoisting.changes hs).inserted []) [] := by
  rw [outline_edit, changes_settledFrom h hnodup]

end Program

namespace Session

variable {settings : LiteralSettings} {p q : Program}

/-- A walk with a fresh pass. -/
theorem walkProgram_once (settings : LiteralSettings) (p : Program) :
    let once := (start settings [.cachedLiterals]).walkProgram p
    once.1 = p.edit (p.editsOnce settings) ∧
      once.2.2.passes = [.cachedLiterals (p.knownOnce settings)] ∧ once.2.2.walks = 1 ∧
      once.2.2.earlier = [p.editsOnce settings] :=
  walkProgram_known (s := start settings [.cachedLiterals]) rfl p

/-- The walk after it, over another program. -/
theorem walkProgram_second (settings : LiteralSettings) (p q : Program) :
    let once := (start settings [.cachedLiterals]).walkProgram p
    let twice := once.2.2.walkProgram q
    let known := p.knownTwice settings q
    twice.1 = q.edit (known.leaveProgram 1 {}).edits ∧
      twice.2.2.hoisted? = some (known.leaveProgram 1 {}).state.hoisted ∧
      twice.2.2.revisited 0 p =
        p.edit (known.leaveProgram 0 (p.editsOnce settings)).edits := by
  intro once twice known
  obtain ⟨-, hpasses, hwalks, hearlier⟩ := walkProgram_once settings p
  obtain ⟨htwice, hpasses₁, -, hearlier₁⟩ := walkProgram_known hpasses q
  rw [hwalks] at htwice hpasses₁ hearlier₁
  rw [hearlier] at hearlier₁
  refine ⟨htwice, hoisted?_single hpasses₁, ?_⟩
  rw [revisited, hearlier₁]
  rfl

/-- Two walks in turn with one pass that declares literals. If nothing of the first program is
declared anew, the first program stays as the first walk left it, and the second becomes what a walk
with a fresh pass makes of it, but for the numbers of the names, which go on. -/
theorem walkProgram_twice (h : p.Idle settings q) :
    let fresh := start settings [.cachedLiterals]
    let once := fresh.walkProgram p
    let twice := once.2.2.walkProgram q
    let hs := p.hoistings settings
    let named (first : Nat) := hoistingsFrom first settings.stem
      ((clusters q.spots).filter (Cluster.isWorthwhile settings))
    let rewritten (hs : List Hoisting) :=
      q.outline.rewrite (Hoisting.changes hs) ((Hoisting.changes hs).inserted []) []
    once.2.2.revisited 0 p = once.1 ∧ twice.2.2.revisited 0 p = once.1 ∧
      (fresh.walkProgram q).1.outline = rewritten (named 0) ∧
      (fresh.walkProgram q).2.2.hoisted? =
        some ((named 0).map (Hoisting.report settings.overhead)) ∧
      twice.1.outline = rewritten (named hs.length) ∧
      twice.2.2.hoisted? =
        some ((hs ++ named hs.length).map (Hoisting.report settings.overhead)) := by
  intro fresh once twice hs named rewritten
  obtain ⟨honce, -, -, hearlier⟩ := walkProgram_once settings p
  obtain ⟨halone, hpasses, -⟩ := walkProgram_once settings q
  obtain ⟨htwice, hhoisted, hrevisited⟩ := walkProgram_second settings p q
  have hnamed : named 0 = q.hoistings settings := rfl
  have hreports := h.settled.reports
  have hfirst : (p.knownOnce settings).hoisted = hs.map (Hoisting.report settings.overhead) :=
    (p.settled settings).hoisted
  rw [p.overhead_knownOnce, hfirst, ← List.map_append] at hreports
  refine ⟨?_, ?_, ?_, ?_, ?_, ?_⟩
  · rw [revisited, hearlier, honce]
    rfl
  · rw [hrevisited, h.edits_first, honce]
  · rw [halone]
    exact Program.outline_settled (q.settled settings) (q.nodup_names settings)
  · rw [hoisted?_single hpasses, hnamed, ← (q.settled settings).hoisted]
    rfl
  · rw [htwice]
    exact Program.outline_settled h.settled (q.nodup_namesFrom hs.length settings)
  · rw [hhoisted]
    exact congrArg some hreports

/-- A value that the second program has once, beside one that only it has. -/
theorem walkProgram_twice_apart :
    let settings : LiteralSettings := ⟨Bytes.ofString "t", 2⟩
    let first := Source.inline (Bytes.ofString "f(\"abcdef\", \"abcdef\", \"abcdef\")")
    let second :=
      Source.inline (Bytes.ofString "g(\"abcdef\", \"uvwxyz\", \"uvwxyz\", \"uvwxyz\")")
    ∃ p q, Program.parse first = .ok p ∧ Program.parse second = .ok q ∧ p.Idle settings q ∧
      let once := (start settings [.cachedLiterals]).walkProgram p
      let twice := once.2.2.walkProgram q
      twice.2.2.revisited 0 p = once.1 ∧
        (twice.2.2.hoisted?.getD []).map (·.name) = [Bytes.ofString "t1", Bytes.ofString "t2"] := by
  intro settings first second
  have hprograms : ((Program.parse first).toOption.any fun p =>
      (Program.parse second).toOption.any fun q => decide (p.Idle settings q) && decide
        ((p.hoistings settings ++ hoistingsFrom (p.hoistings settings).length settings.stem
          ((clusters q.spots).filter (Cluster.isWorthwhile settings))).map (·.name) =
            [Bytes.ofString "t1", Bytes.ofString "t2"])) = true := by
    decide +kernel
  obtain ⟨p, hp, hsecond⟩ := exists_of_any hprograms
  obtain ⟨q, hq, hboth⟩ := exists_of_any hsecond
  obtain ⟨hidle, hnames⟩ := Bool.and_eq_true_iff.1 hboth
  have h := walkProgram_twice (of_decide_eq_true hidle)
  refine ⟨p, q, hp, hq, of_decide_eq_true hidle, h.2.1, ?_⟩
  rw [h.2.2.2.2.2, ← of_decide_eq_true hnames]
  simp [Function.comp_def, Hoisting.report]

/-- What the first program has declared is declared again in the second, and the first program takes
on the name of that declaration. -/
theorem walkProgram_twice_leaks :
    let settings : LiteralSettings := ⟨Bytes.ofString "t", 2⟩
    let first := Source.inline (Bytes.ofString "f(\"abcdef\", \"abcdef\", \"abcdef\")")
    let second := Source.inline (Bytes.ofString "g(1)")
    ∃ p q, Program.parse first = .ok p ∧ Program.parse second = .ok q ∧
      let fresh := start settings [.cachedLiterals]
      let once := fresh.walkProgram p
      let twice := once.2.2.walkProgram q
      once.1.print = Bytes.ofString "var t1 = \"abcdef\";\nf(t1, t1, t1);\n" ∧
        (twice.2.2.revisited 0 p).print =
          Bytes.ofString "var t1 = \"abcdef\";\nf(t2, t2, t2);\n" ∧
        (fresh.walkProgram q).1.print = Bytes.ofString "g(1);\n" ∧
        twice.1.print = Bytes.ofString "var t2 = \"abcdef\";\ng(1);\n" := by
  intro settings first second
  have hprograms : ((Program.parse first).toOption.any fun p =>
      (Program.parse second).toOption.any fun q =>
        let known := p.knownTwice settings q
        let e := p.editsOnce settings
        decide ((p.edit e).print = Bytes.ofString "var t1 = \"abcdef\";\nf(t1, t1, t1);\n" ∧
          (p.edit (known.leaveProgram 0 e).edits).print =
            Bytes.ofString "var t1 = \"abcdef\";\nf(t2, t2, t2);\n" ∧
          (q.edit (q.editsOnce settings)).print = Bytes.ofString "g(1);\n" ∧
          (q.edit (known.leaveProgram 1 {}).edits).print =
            Bytes.ofString "var t2 = \"abcdef\";\ng(1);\n")) = true := by
    decide +kernel
  obtain ⟨p, hp, hsecond⟩ := exists_of_any hprograms
  obtain ⟨q, hq, hprinted⟩ := exists_of_any hsecond
  obtain ⟨honce, hrevisited, halone, htwice⟩ := of_decide_eq_true hprinted
  obtain ⟨hsecond, -, hfirst⟩ := walkProgram_second settings p q
  refine ⟨p, q, hp, hq, ?_, ?_, ?_, ?_⟩
  · rw [(walkProgram_once settings p).1, honce]
  · rw [hfirst, hrevisited]
  · rw [(walkProgram_once settings q).1, halone]
  · rw [hsecond, htwice]

end Session

end ScriptOptimizer
