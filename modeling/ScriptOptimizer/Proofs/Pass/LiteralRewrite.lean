import Mathlib.Data.List.Flatten
import ScriptOptimizer.Proofs.Pass.LiteralHoists
import ScriptOptimizer.Proofs.Syntax.Edited
import ScriptOptimizer.Proofs.Syntax.Restored

/-!
What declaring literals does to a program. The clusters that are declared say which slots receive
names and which bodies receive declarations; the program after a walk has just these changes, and
they can be taken back.
-/

namespace ScriptOptimizer

/-! ### Spots and their places -/

theorem Sight.sublist_places (vs : List Sight) :
    ((vs.filterMap spot?).map (·.place)).Sublist (vs.map (·.place)) := by
  induction vs with
  | nil => exact .slnil
  | cons v vs ih =>
    cases hspot : v.spot? with
    | none =>
      rw [List.filterMap_cons_none hspot]
      exact ih.cons _
    | some u =>
      obtain ⟨lit, -, -, -, heq⟩ := of_spot? hspot
      have hplace : u.place = v.place := by rw [heq]
      rw [List.filterMap_cons_some hspot, List.map_cons, List.map_cons, hplace]
      exact ih.cons_cons _

namespace Program

variable {settings : LiteralSettings} {p : Program}

theorem cluster_of_mem_hoistings {h : Hoisting} (hh : h ∈ p.hoistings settings) :
    h.cluster ∈ clusters p.spots ∧ h.cluster.isWorthwhile settings = true := by
  obtain ⟨x, hx, rfl⟩ := List.mem_map.1 hh
  exact List.mem_filter.1 (List.fst_mem_of_mem_zipIdx hx)

theorem mem_spots_of_hoisting {h : Hoisting} (hh : h ∈ p.hoistings settings) {u : Spot}
    (hu : u ∈ h.cluster.spots) : u ∈ p.spots :=
  mem_of_mem_clusters (cluster_of_mem_hoistings hh).1 hu

theorem map_cluster_hoistingsFrom (first : Nat) (stem : Bytes) (cs : List Cluster) :
    (hoistingsFrom first stem cs).map (·.cluster) = cs := by
  simp [hoistingsFrom, Function.comp_def]

theorem map_cluster_hoistings (stem : Bytes) (cs : List Cluster) :
    (ScriptOptimizer.hoistings stem cs).map (·.cluster) = cs := map_cluster_hoistingsFrom 0 stem cs

/-- What is declared comes in the order of the first spots. -/
theorem sublist_hoistings (settings : LiteralSettings) (p : Program) :
    ((p.hoistings settings).map (·.cluster.first)).Sublist p.spots := by
  have hfirsts : (p.hoistings settings).map (·.cluster.first) =
      ((clusters p.spots).filter (Cluster.isWorthwhile settings)).map (·.first) := by
    rw [← map_cluster_hoistings settings.stem (List.filter _ _), List.map_map]
    rfl
  rw [hfirsts]
  exact (List.filter_sublist.map _).trans (sublist_firsts p.spots)

/-- No slot is given a name twice, whatever the numbers of the names. -/
theorem nodup_namesFrom (first : Nat) (settings : LiteralSettings) (p : Program) :
    (((hoistingsFrom first settings.stem ((clusters p.spots).filter
      (Cluster.isWorthwhile settings))).flatMap Hoisting.names).map (·.1)).Nodup := by
  have hplaces (cs : List Cluster) :
      ((hoistingsFrom first settings.stem cs).flatMap Hoisting.names).map (·.1) =
        (cs.flatMap Cluster.spots).map (·.place) := by
    conv_rhs => rw [← map_cluster_hoistingsFrom first settings.stem cs]
    rw [List.flatMap_map, List.map_flatMap, List.map_flatMap]
    simp [Hoisting.names, Function.comp_def]
  have hsublist := ((List.filter_sublist (p := Cluster.isWorthwhile settings)
    (l := clusters p.spots)).flatMap Cluster.spots).map (·.place)
  have hnodup : ((p.spots).map (·.place)).Nodup := (Sight.sublist_places _).nodup p.nodup_places
  rw [hplaces]
  exact hsublist.nodup (((clusters_perm p.spots).map (·.place)).nodup_iff.2 hnodup)

/-- No slot is given a name twice. -/
theorem nodup_names (settings : LiteralSettings) (p : Program) :
    (((p.hoistings settings).flatMap Hoisting.names).map (·.1)).Nodup :=
      p.nodup_namesFrom 0 settings

/-- What is declared goes into the body of the program or of a function that has one, which is the
innermost around all spots. -/
theorem owner_hoistings {h : Hoisting} (hh : h ∈ p.hoistings settings) :
    (h.cluster.around = [] ∧ h.cluster.owner = []) ∨
      ∃ v ∈ p.sights, v.node.isFunctionWithBody = true ∧ h.cluster.owner = v.place ∧
        h.cluster.around = ⟨v.place, v.node⟩ :: v.around := by
  obtain ⟨hc, hworth⟩ := cluster_of_mem_hoistings hh
  have hline := isLine_cluster hc
  have hbody : h.cluster.hasBody = true := (Bool.and_eq_true_iff.1 hworth).2
  rw [Cluster.owner]
  cases haround : h.cluster.around with
  | nil => exact .inl ⟨rfl, rfl⟩
  | cons f rest =>
    rw [haround] at hline
    obtain ⟨before, v, after, hsplit, hplace, hnode, hrest, -⟩ := hline.sight
    rw [Cluster.hasBody, haround] at hbody
    refine .inr ⟨v, by simp [hsplit], by rw [hnode]; exact hbody, hplace.symm, ?_⟩
    rw [hplace, hnode, hrest]

/-- A spot is a literal in a slot, and its value has the key of its cluster. -/
theorem sight_of_mem_spots {u : Spot} (hu : u ∈ p.spots) :
    ∃ v ∈ p.sights, v.place = u.place ∧ v.inSlot = true ∧ v.node = .expr (.literal u.literal) ∧
      v.spot? = some u ∧ LiteralKey.of? u.literal.value = some u.key := by
  obtain ⟨v, hv, hspot⟩ := List.mem_filterMap.1 hu
  obtain ⟨lit, hnode, hslot, hkey, heq⟩ := Sight.of_spot? hspot
  refine ⟨v, hv, by rw [heq], hslot, by rw [heq]; exact hnode, hspot, ?_⟩
  rw [heq]
  exact hkey

end Program

/-! ### The changes and how they are taken back -/

/-- The changes that declare clusters: the names in their slots, and the declarations in the order
of the first spots. -/
def Hoisting.changes (hs : List Hoisting) : Outline.Changes where
  name? place := ((hs.flatMap names).find? fun x => x.1 = place).map (·.2)
  inserted place := (hs.filter (·.cluster.owner = place)).map (·.declaration.outline)

/-- What takes them back: the first literal of each cluster in all its slots, and the declarations
out of the bodies. -/
def Hoisting.undo (hs : List Hoisting) : Outline.Undo where
  literal? place := (hs.find? fun h => h.cluster.spots.any (·.place = place)).map
    (·.cluster.first.literal)
  removed place := hs.countP (·.cluster.owner = place)

/-- The value that a key stands for. -/
def LiteralKey.value : LiteralKey → LiteralValue
  | .string text => .string text
  | .number bits => .number ⟨bits⟩
  | .boolean value => .boolean value
  | .null => .null

/-- Without its text a literal is its range and what its key stands for. -/
theorem Literal.plain_eq {lit : Literal} {key : LiteralKey}
    (h : LiteralKey.of? lit.value = some key) : lit.plain = ⟨lit.span, [], key.value⟩ := by
  obtain ⟨span, raw, value⟩ := lit
  cases value with
  | number x =>
    obtain rfl := Option.some.inj h
    simp only [plain, LiteralKey.value]
    split <;> rfl
  | string text =>
    obtain rfl := Option.some.inj h
    rfl
  | boolean b =>
    obtain rfl := Option.some.inj h
    rfl
  | null =>
    obtain rfl := Option.some.inj h
    rfl
  | invalid => cases h
  | regexp pattern flags => cases h
  | emptyRegexp => cases h

/-- A result that is there and has a property. -/
theorem exists_of_any {ε α : Type} {x : Except ε α} {q : α → Bool} (h : x.toOption.any q = true) :
    ∃ a, x = .ok a ∧ q a = true := by
  cases x with
  | ok a => exact ⟨a, rfl, h⟩
  | error e => cases h

/-- Entries with different keys are found from either end. -/
theorem find?_reverse_of_nodup {α β : Type} [DecidableEq α] {l : List (α × β)}
    (h : (l.map (·.1)).Nodup) (a : α) :
    l.reverse.find? (fun x => x.1 = a) = l.find? fun x => x.1 = a := by
  cases hfind : l.find? fun x => x.1 = a with
  | none =>
    rw [List.find?_eq_none] at hfind ⊢
    exact fun x hx => hfind x (List.mem_reverse.1 hx)
  | some x =>
    have hx := List.mem_of_find?_eq_some hfind
    have hxa : x.1 = a := by simpa using List.find?_some hfind
    cases hback : l.reverse.find? fun x => x.1 = a with
    | none => exact absurd (List.find?_eq_none.1 hback x (List.mem_reverse.2 hx)) (by simp [hxa])
    | some y =>
      have hy := List.mem_reverse.1 (List.mem_of_find?_eq_some hback)
      have hya : y.1 = a := by simpa using List.find?_some hback
      rw [List.inj_on_of_nodup_map h hy hx (hya.trans hxa.symm)]

namespace Program

variable {settings : LiteralSettings} {p : Program}

theorem mem_names {hs : List Hoisting} {place : Path} {id : Ident}
    (hname : (Hoisting.changes hs).name? place = some id) :
    ∃ h ∈ hs, ∃ u ∈ h.cluster.spots, u.place = place ∧ id = ⟨u.literal.span, h.name⟩ := by
  obtain ⟨x, hfind, rfl⟩ := Option.map_eq_some_iff.1 hname
  have hplace : x.1 = place := by simpa using List.find?_some hfind
  obtain ⟨h, hh, hx⟩ := List.mem_flatMap.1 (List.mem_of_find?_eq_some hfind)
  obtain ⟨u, hu, rfl⟩ := List.mem_map.1 hx
  exact ⟨h, hh, u, hu, hplace, rfl⟩

/-- The literals that come back have the values of those that were replaced. -/
theorem fits_hoistings (settings : LiteralSettings) (p : Program) :
    Outline.Fits (Hoisting.changes (p.hoistings settings)) (Hoisting.undo (p.hoistings settings))
      (p.outline.marks []) := by
  intro m hm hslot
  rw [marks_outline] at hm
  obtain ⟨v, hv, rfl⟩ := List.mem_map.1 hm
  constructor
  · intro hnone
    rw [Hoisting.changes, Option.map_eq_none_iff, List.find?_eq_none] at hnone
    rw [Hoisting.undo, Option.map_eq_none_iff, List.find?_eq_none]
    intro h hh hany
    obtain ⟨u, hu, hplace⟩ := List.any_eq_true.1 hany
    exact hnone (u.place, ⟨u.literal.span, h.name⟩)
      (List.mem_flatMap.2 ⟨h, hh, List.mem_map.2 ⟨u, hu, rfl⟩⟩) hplace
  · intro id hname
    obtain ⟨h, hh, u, hu, hplace, rfl⟩ := mem_names hname
    have hplace : u.place = v.place := hplace
    have hspot (h : Hoisting) (hh : h ∈ p.hoistings settings) (u : Spot)
        (hu : u ∈ h.cluster.spots) (hplace : u.place = v.place) :
        v.spot? = some u ∧ v.node = .expr (.literal u.literal) ∧
          LiteralKey.of? u.literal.value = some u.key := by
      obtain ⟨w, hw, hwplace, -, hnode, hspot, hkey⟩ :=
        sight_of_mem_spots (mem_spots_of_hoisting hh hu)
      obtain rfl := eq_of_place_eq hw hv (hwplace.trans hplace)
      exact ⟨hspot, hnode, hkey⟩
    obtain ⟨hvu, hnode, hkey⟩ := hspot h hh u hu hplace
    have hfound : ((p.hoistings settings).find? fun h =>
        h.cluster.spots.any (·.place = v.place)).isSome = true := by
      rw [List.find?_isSome]
      exact ⟨h, hh, List.any_eq_true.2 ⟨u, hu, by simpa using hplace⟩⟩
    obtain ⟨k, hfind⟩ := Option.isSome_iff_exists.1 hfound
    have hk := List.mem_of_find?_eq_some hfind
    have hany : k.cluster.spots.any (·.place = v.place) = true := by
      simpa using List.find?_some hfind
    obtain ⟨w, hw, hwplace⟩ := List.any_eq_true.1 hany
    obtain ⟨hvw, -, -⟩ := hspot k hk w hw (by simpa using hwplace)
    obtain rfl : u = w := Option.some.inj (hvu.symm.trans hvw)
    -- The first literal of the cluster has the key of the spot.
    have hclusters := (cluster_of_mem_hoistings hk).1
    obtain ⟨first, -, -, -, -, -, hfirst⟩ := sight_of_mem_spots
      (mem_of_mem_clusters hclusters (u := k.cluster.first) (List.mem_cons_self ..))
    rw [← key_of_mem_clusters hclusters hw] at hfirst
    refine ⟨u.literal, k.cluster.first.literal, ?_, ?_, ?_, ?_⟩
    · simp [Sight.mark, hnode, Node.husk, Expr.husk]
    · simp [Sight.mark, hnode, Node.outlines, Expr.parts]
    · simp only [Sight.mark, Hoisting.undo, hfind, Option.map_some]
    · let back : Literal := { k.cluster.first.literal with span := u.literal.span }
      have hback : LiteralKey.of? back.value = some u.key := hfirst
      exact (Literal.plain_eq hback).trans (Literal.plain_eq hkey).symm

theorem isDirective_inserted (hs : List Hoisting) (place : Path) :
    ∀ o ∈ (Hoisting.changes hs).inserted place, o.isDirective = false := by
  intro o ho
  obtain ⟨h, -, rfl⟩ := List.mem_map.1 ho
  rfl

theorem removed_undo (hs : List Hoisting) (place : Path) :
    (Hoisting.undo hs).removed place = ((Hoisting.changes hs).inserted place).length := by
  simp [Hoisting.undo, Hoisting.changes, List.countP_eq_length_filter]

/-- The edits that a pass leaves are the changes that declare the clusters. -/
theorem changes_settledFrom {base : CachedLiterals} {walk : Nat} {hs : List Hoisting}
    {o : CachedLiterals.Outcome} (h : Settled base walk p hs o)
    (hnodup : ((hs.flatMap Hoisting.names).map (·.1)).Nodup) :
    o.edits.changes = Hoisting.changes hs := by
  have hname : o.edits.name? = (Hoisting.changes hs).name? := by
    funext place
    rw [Edits.name?, h.names, find?_reverse_of_nodup hnodup, Hoisting.changes]
  have hinserted : (fun place => (o.edits.inserted place).map Stmt.outline) =
      (Hoisting.changes hs).inserted := by
    funext place
    rw [h.inserted, List.map_map]
    rfl
  rw [Edits.changes, hname, hinserted]

/-- The edits that a fresh pass leaves. -/
theorem changes_settled {o : CachedLiterals.Outcome}
    (h : Settled settings.fresh 0 p (p.hoistings settings) o) :
    o.edits.changes = Hoisting.changes (p.hoistings settings) :=
  changes_settledFrom h (p.nodup_names settings)

end Program

namespace Session

/-- A walk with one pass, for what the pass knew before: the edits to its program, what the pass
knows then, and the edits to the programs of earlier walks. -/
theorem walkProgram_known {s : Session} {base : CachedLiterals}
    (hs : s.passes = [.cachedLiterals base]) (p : Program) :
    let known := p.collected s.walks base p.sights
    let o := known.leaveProgram s.walks {}
    let after := s.walkProgram p
    after.1 = p.edit o.edits ∧ after.2.2.passes = [.cachedLiterals o.state] ∧
      after.2.2.walks = s.walks + 1 ∧
      after.2.2.earlier =
        (s.earlier.mapIdx fun walk edits => (known.leaveProgram walk edits).edits) ++
          [o.edits] := by
  intro known o after
  obtain ⟨hedits, hpasses, hwalks, hearlier⟩ := walked_known hs p
  simp only [after, walk_alone hs]
  exact ⟨by rw [hedits], hpasses, by rw [hwalks], by rw [hearlier, hedits]⟩

theorem hoisted?_single {s : Session} {state : CachedLiterals}
    (hs : s.passes = [.cachedLiterals state]) : s.hoisted? = some state.hoisted := by
  simp [hoisted?, hs]

/-- A walk with a fresh pass, told by its edits. -/
theorem walkProgram_literals (settings : LiteralSettings) (p : Program) :
    let after := (start settings [.cachedLiterals]).walkProgram p
    ∃ o, Settled settings.fresh 0 p (p.hoistings settings) o ∧ after.1 = p.edit o.edits ∧
      after.2.2.hoisted? = some o.state.hoisted := by
  obtain ⟨hafter, hpasses, -⟩ := walkProgram_known (s := start settings [.cachedLiterals]) rfl p
  exact ⟨_, p.settled settings, hafter, hoisted?_single hpasses⟩

/-- A walk with a fresh pass changes nothing but what it reports. The program after it is the one
whose outline has the names in the slots of the declared clusters, each slot once, and the
declarations in their bodies; taking this back gives the old outline, the texts of literals
apart. -/
theorem outline_walkProgram (settings : LiteralSettings) (p : Program) :
    let after := (start settings [.cachedLiterals]).walkProgram p
    let hs := p.hoistings settings
    let changes := Hoisting.changes hs
    after.2.2.hoisted? = some (hs.map (Hoisting.report settings.overhead)) ∧
      (∀ q : Program, q = after.1 ↔
        q.outline = p.outline.rewrite changes (changes.inserted []) []) ∧
      (after.1.outline.restore (Hoisting.undo hs) ((Hoisting.undo hs).removed []) []).plain =
        p.outline.plain ∧
      p.outline.marks [] = p.sights.map Sight.mark ∧
      ((hs.flatMap Hoisting.names).map (·.1)).Nodup ∧
      ∀ h ∈ hs,
        (∀ u ∈ h.cluster.spots, ∃ v ∈ p.sights, v.place = u.place ∧ v.inSlot = true ∧
          v.node = .expr (.literal u.literal)) ∧
        (h.cluster.owner = [] ∨ ∃ v ∈ p.sights, v.place = h.cluster.owner ∧
          v.node.isFunctionWithBody = true) := by
  intro after hs changes
  obtain ⟨o, hsettled, hafter, hhoisted⟩ := walkProgram_literals settings p
  have houtline : after.1.outline = p.outline.rewrite changes (changes.inserted []) [] := by
    rw [show after.1 = _ from hafter, Program.outline_edit, Program.changes_settled hsettled]
  refine ⟨?_, fun q => ⟨?_, ?_⟩, ?_, p.marks_outline, p.nodup_names settings, fun h hh => ⟨?_, ?_⟩⟩
  · rw [show after.2.2.hoisted? = _ from hhoisted, hsettled.hoisted]
  · rintro rfl
    exact houtline
  · intro hq
    exact Program.outline_injective (hq.trans houtline.symm)
  · rw [houtline, Program.removed_undo]
    exact Outline.restore_rewrite (Program.removed_undo hs) (Program.isDirective_inserted hs)
      p.outline _ [] (Program.isDirective_inserted hs []) (p.fits_hoistings settings)
  · intro u hu
    obtain ⟨v, hv, hplace, hslot, hnode, -⟩ := Program.sight_of_mem_spots
      (mem_of_mem_clusters (Program.cluster_of_mem_hoistings hh).1 hu)
    exact ⟨v, hv, hplace, hslot, hnode⟩
  · rcases Program.owner_hoistings hh with ⟨-, hroot⟩ | ⟨v, hv, hbody, hplace, -⟩
    · exact .inl hroot
    · exact .inr ⟨v, hv, hplace.symm, hbody⟩

end Session

end ScriptOptimizer
