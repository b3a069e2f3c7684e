import ScriptOptimizer.Proofs.Scope.Enclosing
import ScriptOptimizer.Proofs.Walk.ScopeStack

/-!
Which literals are declared, and where. The sights of a program say where a literal can be replaced
by a name and which of these literals have the same value; a group is declared if that saves bytes,
in the innermost function around all of it. A walk with a fresh pass collects these groups.
-/

namespace ScriptOptimizer

/-- A literal that a name can replace: its key, its place and the functions around it. -/
structure Spot where
  key : LiteralKey
  literal : Literal
  place : Path
  around : List Enclosure

namespace Sight

/-- Is it the key of an entry that is not computed? -/
def isPlainKey (v : Sight) : Bool :=
  match v.parent with
  | some (.property (.entry _ _ (.holds _) _ computed _)) => !computed && v.place.head? = some 0
  | _ => false

/-- Is it the whole of an expression statement? -/
def isWholeStatement (v : Sight) : Bool :=
  match v.parent with
  | some (.stmt (.expression _ _)) => true
  | _ => false

/-- The spot at a sight: a literal of more than one byte in a slot, with a value that has a key. -/
def spot? (v : Sight) : Option Spot :=
  match v.node with
  | .expr (.literal lit) =>
    if v.inSlot && 1 < lit.raw.length && !v.isPlainKey && !v.isWholeStatement then
      (LiteralKey.of? lit.value).map fun key => ⟨key, lit, v.place, v.around⟩
    else none
  | _ => none

end Sight

/-- The spots of a program in the order of its nodes. -/
def Program.spots (p : Program) : List Spot := p.sights.filterMap Sight.spot?

/-- The spots of one value, the first of them apart. -/
structure Cluster where
  first : Spot
  more : List Spot

/-- Is the node a function that has a body? -/
def Node.isFunctionWithBody : Node → Bool
  | .stmt (.function _ fn) | .expr (.function _ fn) => Session.hasBody fn
  | _ => false

namespace Cluster

/-- All its spots, in order. -/
def spots (c : Cluster) : List Spot := c.first :: c.more

/-- How many they are. -/
def count (c : Cluster) : Nat := c.spots.length

/-- The length of the first literal. -/
def size (c : Cluster) : Nat := c.first.literal.raw.length

/-- The functions around all spots, the innermost first. -/
def around (c : Cluster) : List Enclosure :=
  c.first.around.filter fun f => c.spots.all fun u => u.around.any (·.place = f.place)

/-- The place of the program or function that receives the declaration. -/
def owner (c : Cluster) : Path :=
  match c.around with
  | [] => []
  | f :: _ => f.place

/-- Is there a body for the declaration? -/
def hasBody (c : Cluster) : Bool :=
  match c.around with
  | [] => true
  | f :: _ => f.node.isFunctionWithBody

/-- Does the declaration save bytes? -/
def pays (overhead : Int) (c : Cluster) : Bool :=
  2 ≤ c.count && c.size + c.count + overhead < c.count * c.size

/-- Is it declared? -/
def isWorthwhile (settings : LiteralSettings) (c : Cluster) : Bool :=
  c.pays settings.overhead && c.hasBody

end Cluster

/-- The spots of the same value. -/
def Spot.alike (u : Spot) (us : List Spot) : List Spot := us.filter (·.key = u.key)

/-- The spots of other values. -/
def Spot.others (u : Spot) (us : List Spot) : List Spot := us.filter (·.key ≠ u.key)

/-- Spots by their values, in the order of the first spots. -/
def clusters : List Spot → List Cluster
  | [] => []
  | u :: rest => ⟨u, u.alike rest⟩ :: clusters (u.others rest)
termination_by us => us.length
decreasing_by exact Nat.lt_succ_of_le (List.length_filter_le _ _)

/-- A cluster that is declared under a name. -/
structure Hoisting where
  name : Bytes
  cluster : Cluster

namespace Hoisting

/-- What is reported about it. -/
def report (overhead : Int) (h : Hoisting) : Hoist where
  name := h.name
  raw := h.cluster.first.literal.raw
  kind := h.cluster.first.literal.value.kindName
  occurrences := h.cluster.count
  level := h.cluster.around.length
  saved := h.cluster.count * h.cluster.size - (h.cluster.size + h.cluster.count + overhead)

/-- The declaration: the name and a copy of the first literal. -/
def declaration (h : Hoisting) : Stmt := CachedLiterals.declaration h.name h.cluster.first.literal

/-- The name at each spot, with the range of the literal there. -/
def names (h : Hoisting) : List (Path × Ident) :=
  h.cluster.spots.map fun u => (u.place, ⟨u.literal.span, h.name⟩)

end Hoisting

/-- Names for clusters: the stem with the numbers from one on. -/
def hoistings (stem : Bytes) (cs : List Cluster) : List Hoisting :=
  (cs.zipIdx 1).map fun (c, k) => ⟨stem ++ Bytes.ofNat k, c⟩

/-- What is declared in a program. -/
def Program.hoistings (settings : LiteralSettings) (p : Program) : List Hoisting :=
  ScriptOptimizer.hoistings settings.stem
    ((clusters p.spots).filter (Cluster.isWorthwhile settings))

/-! ### Groups while they are collected -/

/-- The spot as the pass records it in a walk. -/
def Spot.occurrence (walk : Nat) (u : Spot) : Occurrence := ⟨u.literal, walk, u.place⟩

/-- The cluster as the pass records it in a walk over a program. -/
def Cluster.group (walk : Nat) (p : Program) (c : Cluster) : LiteralGroup :=
  ⟨c.first.key, c.spots.map (Spot.occurrence walk), some ⟨walk, p.chain c.around⟩⟩

/-- The groups after one more spot of a program. -/
def Program.recordSpot (walk : Nat) (p : Program) (groups : List LiteralGroup) (u : Spot) :
    List LiteralGroup :=
  CachedLiterals.record u.key (u.occurrence walk) ⟨walk, p.chain u.around⟩ groups

variable {walk : Nat}

theorem Program.isLine_filter {p : Program} {us : List Spot} (hus : ∀ u ∈ us, p.IsLine u.around)
    {xs : List Enclosure} (hxs : p.IsLine xs) :
    p.IsLine (xs.filter fun f => us.all fun u => u.around.any (·.place = f.place)) := by
  induction us generalizing xs with
  | nil => simpa using hxs
  | cons u us ih =>
    have h := ih (fun w hw => hus w (by simp [hw])) (hxs.shared (hus u (by simp)))
    rw [Program.shared, List.filter_filter] at h
    simpa only [List.all_cons, Bool.and_comm] using h

theorem Program.join_chain (walk : Nat) {p : Program} {xs ys : List Enclosure} (hxs : p.IsLine xs)
    (hys : p.IsLine ys) :
    ScopeRef.join (some ⟨walk, p.chain xs⟩) (some ⟨walk, p.chain ys⟩) =
      some ⟨walk, p.chain (Program.shared xs ys)⟩ := by
  simp only [ScopeRef.join, ScopeRef.commonParent, if_true, meet_chain hxs hys]
  split
  · rename_i h
    simp [Program.chain] at h
  · rfl

theorem Cluster.around_single (u : Spot) : (⟨u, []⟩ : Cluster).around = u.around := by
  refine List.filter_eq_self.2 fun f hf => ?_
  simp only [spots, List.all_cons, List.all_nil, Bool.and_true]
  exact List.any_eq_true.2 ⟨f, hf, by simp⟩

theorem Cluster.around_concat (first u : Spot) (more : List Spot) :
    (⟨first, more ++ [u]⟩ : Cluster).around =
      Program.shared (⟨first, more⟩ : Cluster).around u.around := by
  simp only [around, spots, Program.shared, List.filter_filter, List.all_cons, List.all_append,
    List.all_nil, Bool.and_true]
  refine List.filter_congr fun f _ => ?_
  ac_rfl

theorem Spot.alike_concat (w u : Spot) (us : List Spot) :
    w.alike (us ++ [u]) = w.alike us ++ if u.key = w.key then [u] else [] := by
  by_cases h : u.key = w.key <;> simp [alike, h]

theorem Spot.others_concat (w u : Spot) (us : List Spot) :
    w.others (us ++ [u]) = w.others us ++ if u.key = w.key then [] else [u] := by
  by_cases h : u.key = w.key <;> simp [others, h]

/-- Recording one more spot gives the clusters with that spot at the end. -/
theorem record_clusters {p : Program} {us : List Spot} {u : Spot}
    (hus : ∀ w ∈ us, p.IsLine w.around) (hu : p.IsLine u.around) :
    p.recordSpot walk ((clusters us).map (Cluster.group walk p)) u =
      (clusters (us ++ [u])).map (Cluster.group walk p) := by
  unfold Program.recordSpot
  fun_induction clusters us with
  | case1 =>
    have hsingle : clusters ([] ++ [u]) = [⟨u, []⟩] := by simp [clusters, Spot.alike, Spot.others]
    rw [hsingle]
    simp [CachedLiterals.record, Cluster.group, Cluster.spots, Cluster.around_single]
  | case2 w rest ih =>
    have hrest : ∀ x ∈ rest, p.IsLine x.around := fun x hx => hus x (by simp [hx])
    rw [List.cons_append, clusters, Spot.alike_concat, Spot.others_concat, List.map_cons,
      CachedLiterals.record, List.map_cons]
    by_cases hkey : w.key = u.key
    · have hline : p.IsLine (⟨w, w.alike rest⟩ : Cluster).around := by
        refine Program.isLine_filter (fun x hx => ?_) (hus w (by simp))
        rcases List.mem_cons.1 hx with rfl | hx
        · exact hus x (by simp)
        · exact hrest x (List.mem_filter.1 hx).1
      have hjoin := Program.join_chain walk hline hu
      rw [← Cluster.around_concat] at hjoin
      rw [if_pos hkey.symm, if_pos hkey.symm, List.append_nil,
        if_pos (show (Cluster.group walk p ⟨w, w.alike rest⟩).key = u.key from hkey)]
      refine congrArg (· :: _) ?_
      simp only [Cluster.group, hjoin]
      simp [Cluster.spots]
    · have hne : ¬u.key = w.key := fun h => hkey h.symm
      rw [if_neg hne, if_neg hne, List.append_nil,
        if_neg (show ¬(Cluster.group walk p ⟨w, w.alike rest⟩).key = u.key from hkey)]
      exact congrArg (_ :: ·) (ih fun x hx => hrest x (List.mem_filter.1 hx).1)

/-- Recording spots one after another gives their clusters. -/
theorem foldl_recordSpot {p : Program} {us : List Spot} (hus : ∀ u ∈ us, p.IsLine u.around) :
    us.foldl (p.recordSpot walk) [] = (clusters us).map (Cluster.group walk p) := by
  induction us using List.reverseRecOn with
  | nil => rw [clusters]; rfl
  | append_singleton us u ih =>
    have hbefore : ∀ w ∈ us, p.IsLine w.around := fun w hw => hus w (by simp [hw])
    rw [List.foldl_append, ih hbefore]
    exact record_clusters hbefore (hus u (by simp))

/-! ### The pass during the walk -/

/-- A pass that has not met anything. -/
def LiteralSettings.fresh (settings : LiteralSettings) : CachedLiterals where
  stem := settings.stem
  overhead := settings.overhead

namespace Program

/-- The owner that a sight is, with the number of its scope. -/
def owner? (walk : Nat) (p : Program) (v : Sight) : Option (Nat × ScopeOwner) :=
  match v.node with
  | .program _ => some (0, ⟨walk, v.place, true⟩)
  | .stmt (.function _ fn) | .expr (.function _ fn) =>
    some (p.scopeNumber v.place, ⟨walk, v.place, Session.hasBody fn⟩)
  | _ => none

/-- What a pass that knew something before a walk has collected after some sights. -/
def collected (walk : Nat) (base : CachedLiterals) (p : Program) (before : List Sight) :
    CachedLiterals :=
  { base with
    groups := (before.filterMap Sight.spot?).foldl (p.recordSpot walk) base.groups
    owners := (before.filterMap (p.owner? walk)).reverse ++ base.owners }

end Program

/-- The state of a walk with one pass after some sights, inside some functions, for a session and
what its pass knew before the walk. -/
structure Collecting (session : Session) (base : CachedLiterals) (p : Program)
    (before : List Sight) (around : List Enclosure) (s : WalkState Session) : Prop where
  stacked : s.symbols.Stacked (p.chain around)
  next : s.symbols.next = before.countP (·.node.opensScope) + 1
  passes : s.own.passes = [.cachedLiterals (p.collected session.walks base before)]
  walks : s.own.walks = session.walks
  earlier : s.own.earlier = session.earlier
  edits : s.edits = {}

namespace Session

/-- The parts of the state that an announcement to the pass alone can change. -/
theorem act_literals (base : CachedLiterals) {state : CachedLiterals} (e : Event)
    {s : WalkState Session} (hs : s.own.passes = [.cachedLiterals state]) :
    let s' := act (.cachedLiterals base) e s
    let r := reactLiterals s.own.walks e state s.symbols s.edits
    s'.symbols = r.symbols ∧ s'.edits = r.edits ∧ s'.own.passes = [r.pass] ∧
      s'.own.walks = s.own.walks ∧
      s'.own.earlier = revise e s.own.earlier (.cachedLiterals state) := by
  intro s' r
  have hsame : interests (.cachedLiterals base) = interests (.cachedLiterals state) := rfl
  rw [show s' = announced [.cachedLiterals base] e s from rfl, announced_single hs hsame e]
  exact ⟨rfl, rfl, rfl, rfl, rfl⟩

theorem reactLiterals_leave {n : Node} (hn : n.isProgram = false) (walk : Nat) (place : Path)
    (inSlot : Bool) (parent : Option Node) (state : CachedLiterals) (t : ScopeTable Node)
    (edits : Edits) : reactLiterals walk ⟨.leave, n, place, inSlot, parent⟩ state t edits =
      ⟨.cachedLiterals state, t, edits, []⟩ := by
  cases n with
  | program p => simp [Node.isProgram] at hn
  | _ => rfl

theorem revise_leave {n : Node} (hn : n.isProgram = false) (place : Path) (inSlot : Bool)
    (parent : Option Node) (state : CachedLiterals) (earlier : List Edits) :
    revise ⟨.leave, n, place, inSlot, parent⟩ earlier (.cachedLiterals state) = earlier := by
  cases n with
  | program p => simp [Node.isProgram] at hn
  | _ => rfl

/-- What a node that is entered adds to the groups and the owners. -/
def noted (walk : Nat) (v : Sight) (scope : ScopeRef) (state : CachedLiterals) : CachedLiterals :=
  { state with
    groups := match v.spot? with
      | some u => CachedLiterals.record u.key (u.occurrence walk) scope state.groups
      | none => state.groups
    owners := match v.node with
      | .stmt (.function _ fn) | .expr (.function _ fn) =>
        (scope.id, ⟨walk, v.place, hasBody fn⟩) :: state.owners
      | _ => state.owners }

theorem isReplaceable_eq (v : Sight) (phase : Phase) :
    CachedLiterals.isReplaceable ⟨phase, v.node, v.place, v.inSlot, v.parent⟩ =
      (v.inSlot && !v.isPlainKey && !v.isWholeStatement) := by
  rw [CachedLiterals.isReplaceable, Sight.isPlainKey, Sight.isWholeStatement, Bool.and_assoc]
  refine congrArg (v.inSlot && ·) ?_
  cases v.parent with
  | none => rfl
  | some n =>
    cases n with
    | property x =>
      cases x with
      | absent => rfl
      | entry span kind key value computed shorthand =>
        cases key with
        | holds x => cases computed <;> simp
        | absent => rfl
        | vacant => rfl
    | stmt x => cases x <;> rfl
    | _ => rfl

theorem enterLiteral_eq {v : Sight} {lit : Literal} (hv : v.node = .expr (.literal lit))
    (scope : ScopeRef) (state : CachedLiterals) :
    (state.enterLiteral walk scope ⟨.enter, v.node, v.place, v.inSlot, v.parent⟩ lit).1 =
      noted walk v scope state := by
  have hnoted : noted walk v scope state = { state with
      groups := match v.spot? with
        | some u => CachedLiterals.record u.key (u.occurrence walk) scope state.groups
        | none => state.groups } := by
    simp only [noted, hv]
  rw [hnoted, CachedLiterals.enterLiteral, isReplaceable_eq, Sight.spot?, hv]
  by_cases hlong : lit.raw.length ≤ 1
  · have hshort : ¬1 < lit.raw.length := by omega
    simp [hlong, hshort]
  · have hlong' : 1 < lit.raw.length := by omega
    by_cases hplace : (v.inSlot && !v.isPlainKey && !v.isWholeStatement) = true
    · have hspot : (v.inSlot && decide (1 < lit.raw.length) && !v.isPlainKey &&
          !v.isWholeStatement) = true := by
        simpa [hlong'] using hplace
      simp only [hplace, hspot, hlong]
      cases lit.value <;> rfl
    · have hspot : ¬(v.inSlot && decide (1 < lit.raw.length) && !v.isPlainKey &&
          !v.isWholeStatement) = true := by
        simpa [hlong'] using hplace
      simp [hplace, hspot]

theorem reactLiterals_enter (walk : Nat) {v : Sight} (hv : v.node.isProgram = false)
    (state : CachedLiterals) (t : ScopeTable Node) (edits : Edits) :
    let r := reactLiterals walk ⟨.enter, v.node, v.place, v.inSlot, v.parent⟩ state t edits
    r.symbols = t ∧ r.edits = edits ∧
      r.pass = .cachedLiterals (noted walk v (t.current.ref walk) state) := by
  have hother (hspot : v.spot? = none)
      (howner : ∀ span fn,
        v.node ≠ .stmt (.function span fn) ∧ v.node ≠ .expr (.function span fn)) :
      noted walk v (t.current.ref walk) state = state := by
    simp only [noted, hspot]
    split
    · rename_i h
      exact absurd h (howner _ _).1
    · rename_i h
      exact absurd h (howner _ _).2
    · rfl
  obtain ⟨n, place, inSlot, parent, around⟩ := v
  cases n with
  | program p => simp [Node.isProgram] at hv
  | stmt x =>
    cases x with
    | function span fn => exact ⟨rfl, rfl, rfl⟩
    | _ => exact ⟨rfl, rfl, congrArg _ (hother rfl fun _ _ => ⟨by simp, by simp⟩).symm⟩
  | expr x =>
    cases x with
    | function span fn => exact ⟨rfl, rfl, rfl⟩
    | literal lit =>
      exact ⟨rfl, rfl, congrArg Pass.cachedLiterals
        (enterLiteral_eq (v := ⟨.expr (.literal lit), place, inSlot, parent, around⟩) rfl _ _)⟩
    | _ => exact ⟨rfl, rfl, congrArg _ (hother rfl fun _ _ => ⟨by simp, by simp⟩).symm⟩
  | _ => exact ⟨rfl, rfl, congrArg _ (hother rfl fun _ _ => ⟨by simp, by simp⟩).symm⟩

end Session

theorem Sight.of_spot? {v : Sight} {u : Spot} (h : v.spot? = some u) :
    ∃ lit, v.node = .expr (.literal lit) ∧ v.inSlot = true ∧ LiteralKey.of? lit.value = some u.key ∧
      u = ⟨u.key, lit, v.place, v.around⟩ := by
  unfold Sight.spot? at h
  split at h
  · rename_i lit hnode
    split at h
    · rename_i hif
      obtain ⟨key, hkey, rfl⟩ := Option.map_eq_some_iff.1 h
      simp only [Bool.and_eq_true] at hif
      exact ⟨lit, hnode, hif.1.1.1, hkey, rfl⟩
    · cases h
  · cases h

theorem Program.isLine_spot {p : Program} {before : List Sight} (hbefore : before ⊆ p.sights)
    {u : Spot} (hu : u ∈ before.filterMap Sight.spot?) : p.IsLine u.around := by
  obtain ⟨v, hv, hspot⟩ := List.mem_filterMap.1 hu
  obtain ⟨lit, -, -, -, heq⟩ := Sight.of_spot? hspot
  refine ⟨v, hbefore hv, ?_⟩
  rw [heq]

/-- What a sight adds is collected. -/
theorem Program.noted_collected {base : CachedLiterals} {p : Program} (before : List Sight)
    {v : Sight} (hv : v.node.isProgram = false) :
    Session.noted walk v ⟨walk, p.chain (v.node.within v.place v.around)⟩
        (p.collected walk base before) = p.collected walk base (before ++ [v]) := by
  have howner : (match v.node with
      | .stmt (.function _ fn) | .expr (.function _ fn) =>
        (ScopeRef.id ⟨walk, p.chain (v.node.within v.place v.around)⟩,
          ⟨walk, v.place, Session.hasBody fn⟩) ::
            ((before.filterMap (p.owner? walk)).reverse ++ base.owners)
      | _ => (before.filterMap (p.owner? walk)).reverse ++ base.owners) =
      ((before ++ [v]).filterMap (p.owner? walk)).reverse ++ base.owners := by
    rw [List.filterMap_append, List.reverse_append]
    obtain ⟨n, place, inSlot, parent, around⟩ := v
    cases n with
    | program p => simp [Node.isProgram] at hv
    | stmt x => cases x <;> rfl
    | expr x => cases x <;> rfl
    | _ => rfl
  have hgroups : (match v.spot? with
      | some u => CachedLiterals.record u.key (u.occurrence walk)
          ⟨walk, p.chain (v.node.within v.place v.around)⟩
          ((before.filterMap Sight.spot?).foldl (p.recordSpot walk) base.groups)
      | none => (before.filterMap Sight.spot?).foldl (p.recordSpot walk) base.groups) =
      ((before ++ [v]).filterMap Sight.spot?).foldl (p.recordSpot walk) base.groups := by
    rw [List.filterMap_append, List.foldl_append]
    cases hspot : v.spot? with
    | none => simp [hspot]
    | some u =>
      obtain ⟨lit, hnode, -, -, heq⟩ := Sight.of_spot? hspot
      have haround : v.node.within v.place v.around = u.around := by
        rw [heq, hnode]
        rfl
      simp [hspot, haround, recordSpot]
  simp only [Session.noted, collected, howner, hgroups]

namespace Collecting

variable {session : Session} {base : CachedLiterals} {p : Program} {before after : List Sight}
  {v : Sight} {s : WalkState Session}

theorem enter (hsplit : before ++ v :: after = p.sights) (hv : v.node.isProgram = false)
    (h : Collecting session base p before v.around s) :
    Collecting session base p (before ++ [v]) (v.node.within v.place v.around)
      (Session.act (.cachedLiterals base) ⟨.enter, v.node, v.place, v.inSlot, v.parent⟩
        (Step.effect (Session.act (.cachedLiterals base)) s (.arrive v.node))) := by
  obtain ⟨hstacked, hnext⟩ := Walk.stacked_arriveAt h.stacked v.node
  have hchain : (if v.node.opensScope then s.symbols.next :: p.chain v.around
      else p.chain v.around) = p.chain (v.node.within v.place v.around) := by
    rw [h.next, ← Program.scopeNumber_eq hsplit.symm, Node.within]
    split <;> rfl
  rw [hchain] at hstacked
  obtain ⟨hsymbols, hedits, hpasses, hwalks, hearlier⟩ := Session.act_literals base
    ⟨.enter, v.node, v.place, v.inSlot, v.parent⟩
    (s := Step.effect (Session.act (.cachedLiterals base)) s (.arrive v.node)) h.passes
  obtain ⟨hsame, hkept, hnoted⟩ := Session.reactLiterals_enter session.walks hv
    (p.collected session.walks base before) (Walk.arriveAt v.node s.symbols) s.edits
  have hwalk : (Step.effect (Session.act (.cachedLiterals base)) s
      (.arrive v.node)).own.walks = session.walks := h.walks
  rw [hwalk] at hsymbols hedits hpasses hwalks
  have href : (Walk.arriveAt v.node s.symbols).current.ref session.walks =
      ⟨session.walks, p.chain (v.node.within v.place v.around)⟩ :=
    congrArg (ScopeRef.mk session.walks) hstacked.current
  rw [href, Program.noted_collected before hv] at hnoted
  have hsymbols := hsymbols.trans hsame
  refine ⟨?_, ?_, ?_, hwalks, hearlier.trans h.earlier, hedits.trans (hkept.trans h.edits)⟩
  · rwa [hsymbols]
  · rw [hsymbols, hnext, h.next, List.countP_append, List.countP_singleton]
    omega
  · exact hpasses.trans (congrArg (fun pass => [pass]) hnoted)

theorem leave (hv : v.node.isProgram = false)
    (h : Collecting session base p before (v.node.within v.place v.around) s) :
    Collecting session base p before v.around
      (Step.effect (Session.act (.cachedLiterals base))
        (Session.act (.cachedLiterals base)
          ⟨.leave, v.node, v.place, v.inSlot, v.parent⟩ s) (.depart v.node)) := by
  obtain ⟨hsymbols, hedits, hpasses, hwalks, hearlier⟩ := Session.act_literals base
    ⟨.leave, v.node, v.place, v.inSlot, v.parent⟩ h.passes
  rw [Session.reactLiterals_leave hv] at hsymbols hedits hpasses
  rw [Session.revise_leave hv] at hearlier
  have hnext : (if v.node.opensScope then s.symbols.leave else s.symbols).next =
      s.symbols.next := by
    split
    · exact ScopeTable.next_leave _
    · rfl
  refine ⟨?_, ?_, hpasses, hwalks.trans h.walks, hearlier.trans h.earlier, hedits.trans h.edits⟩
  · have hstacked := h.stacked
    simp only [Step.effect, hsymbols]
    unfold Node.within at hstacked
    split at hstacked
    · rename_i hopens
      rw [if_pos hopens]
      exact hstacked.leave (by simp)
    · rename_i hopens
      rwa [if_neg hopens]
  · simp only [Step.effect, hsymbols]
    exact hnext.trans h.next

end Collecting

/-- After everything inside a program the pass has collected all its spots. -/
theorem Program.collecting {session : Session} {base : CachedLiterals}
    (hsession : session.passes = [.cachedLiterals base]) (p : Program) :
    let act := Session.act (.cachedLiterals base)
    Collecting session base p p.sights []
      ((Node.program p).children.zipIdx.foldl
        (fun s c => c.1.node.effect act (c.2 :: []) c.1.inSlot (some (.program p)) s)
        (act ⟨.enter, .program p, [], false, none⟩
          (Step.effect act (Walk.start session) (.arrive (.program p))))) := by
  intro act
  have hroot : Collecting session base p [⟨.program p, [], false, none, []⟩] []
      (act ⟨.enter, .program p, [], false, none⟩
        (Step.effect act (Walk.start session) (.arrive (.program p)))) := by
    obtain ⟨hsymbols, hedits, hpasses, hwalks, hearlier⟩ := Session.act_literals base
      ⟨.enter, .program p, [], false, none⟩
      (s := Step.effect act (Walk.start session) (.arrive (.program p))) hsession
    refine ⟨?_, ?_, hpasses, hwalks, hearlier, hedits⟩
    · rw [hsymbols]
      rfl
    · rw [hsymbols]
      rfl
  have hwalked := Node.effect_children p.sights act (Collecting session base p)
    (fun before v after s hsplit hv h => h.enter hsplit hv) (fun before v s hv h => h.leave hv)
    (.program p) [] [] _ (List.Subset.refl _) _ [] _ (by simp [p.sights_eq]) hroot
  rw [p.sights_eq]
  exact hwalked

end ScriptOptimizer
