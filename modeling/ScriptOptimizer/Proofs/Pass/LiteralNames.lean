import ScriptOptimizer.Pattern.Check
import ScriptOptimizer.Proofs.Pass.LiteralOrder
import ScriptOptimizer.Proofs.Text.Utf8

/-!
The names that declarations bind. They are numbered and never the same, but nothing compares them
with the names of the program: after a walk a name stands where its declaration binds it, where it
replaces literals, and wherever it stood before.
-/

namespace ScriptOptimizer

/-! ### Numbered names -/

theorem Bytes.ofNat_injective : Function.Injective Bytes.ofNat := by
  intro m n h
  have hdigits (n : Nat) : (Bytes.ofNat n).map UInt8.toNat =
      (Nat.toDigits 10 n).map Char.toNat := by
    rw [Bytes.ofNat, List.map_map]
    refine List.map_congr_left fun c hc => ?_
    exact (Utf8.toNat_byte (Nat.isDigit_of_mem_toDigits (by decide) (by decide) hc)).1
  have hchars : Function.Injective Char.toNat := fun c d => Char.ext ∘ UInt32.toNat_inj.1
  have hsame : Nat.toDigits 10 m = Nat.toDigits 10 n :=
    hchars.list_map ((hdigits m).symm.trans (h ▸ hdigits n))
  calc
    m = Nat.ofDigitChars 10 (Nat.toDigits 10 m) 0 := Nat.ofDigitChars_ten_toDigits.symm
    _ = Nat.ofDigitChars 10 (Nat.toDigits 10 n) 0 := by rw [hsame]
    _ = n := Nat.ofDigitChars_ten_toDigits

namespace Program

variable {settings : LiteralSettings} {p : Program}

theorem names_hoistings (settings : LiteralSettings) (p : Program) :
    (p.hoistings settings).map (·.name) =
      (List.range' 1 (p.hoistings settings).length).map fun k =>
        settings.stem ++ Bytes.ofNat k := by
  rw [hoistings, length_hoistings, ScriptOptimizer.hoistings, ← List.zipIdx_map_snd 1,
    List.map_map, List.map_map]
  rfl

theorem nodup_hoistings (settings : LiteralSettings) (p : Program) :
    ((p.hoistings settings).map (·.name)).Nodup := by
  rw [names_hoistings]
  refine (List.nodup_range' 1).map fun k l h => ?_
  exact Bytes.ofNat_injective (List.append_cancel_left h)

theorem eq_of_name_eq {h k : Hoisting} (hh : h ∈ p.hoistings settings)
    (hk : k ∈ p.hoistings settings) (hname : h.name = k.name) : h = k :=
  List.inj_on_of_nodup_map (nodup_hoistings settings p) hh hk hname

end Program

/-! ### Names in outlines -/

namespace Outline

/-- Is it a bare name? -/
def isNamed (name : Bytes) : Outline → Bool
  | node (.expr (.ident id)) _ _ => id.name = name
  | _ => false

theorem isNamed_node (name : Bytes) (own : Node) (inSlot : Bool) (parts more : List Outline) :
    (node own inSlot parts).isNamed name = (node own inSlot more).isNamed name := by
  cases own with
  | expr x => cases x <;> rfl
  | _ => rfl

/-- What a place of parts without gaps says. -/
theorem part_of_mem_sitesAll {parts : List Outline} (hparts : ∀ o ∈ parts, o.isNode = true)
    {parent : Path} {inFunction : Bool} {around : List Path} {first : Nat} {s : Site}
    (h : s ∈ sitesAll parent inFunction around first parts) :
    ∃ (i : Nat) (o : Outline), parts[i]? = some o ∧
      s ∈ o.sites ((first + i) :: parent) inFunction around := by
  rw [sitesAll_eq, List.filter_eq_self.2 hparts, List.mem_flatMap] at h
  obtain ⟨⟨o, k⟩, hmem, hs⟩ := h
  obtain ⟨hle, hget⟩ := List.mem_zipIdx_iff_le_and_getElem?_sub.1 hmem
  refine ⟨k - first, o, hget, ?_⟩
  rw [Nat.add_sub_cancel' hle]
  exact hs

end Outline

/-- Is it a name spelled so? -/
def Sight.isNamed (name : Bytes) (v : Sight) : Bool :=
  match v.node with
  | .expr (.ident id) => id.name = name
  | _ => false

theorem Sight.isNamed_part (name : Bytes) (v : Sight) :
    v.site.part.isNamed name = v.isNamed name := by
  obtain ⟨n, place, inSlot, parent, around⟩ := v
  cases n with
  | stmt s => cases s <;> rfl
  | expr x => cases x <;> rfl
  | case c => cases c; rfl
  | handler h => cases h <;> rfl
  | declarator d => cases d; rfl
  | _ => rfl

/-- In a declaration only the target has a name. -/
theorem Hoisting.named_declaration {h : Hoisting} {place : Path} {inFunction : Bool}
    {around : List Path} {s : Site} {name : Bytes}
    (hs : s ∈ h.declaration.outline.sites place inFunction around)
    (hname : s.part.isNamed name = true) : s.place = 0 :: 0 :: place ∧ h.name = name := by
  let lit := h.cluster.first.literal
  have hdeclaration : h.declaration.outline = .node (.stmt (.declaration lit.span "var" [])) false
      [.node (.declarator (.bind lit.span .absent .absent)) false
        [.node (.expr (.ident ⟨lit.span, h.name⟩)) true [],
          .node (.expr (.literal lit)) true []]] := rfl
  simp only [hdeclaration, Outline.sites, Outline.sitesAll, List.append_nil, List.mem_cons,
    List.cons_append, List.nil_append, List.not_mem_nil, or_false] at hs
  rcases hs with rfl | rfl | rfl | rfl
  · cases hname
  · cases hname
  · exact ⟨rfl, of_decide_eq_true hname⟩
  · cases hname


/-- Is what a node declares known where the other node stands? All functions around the first are
around the second. -/
def Sight.isKnownAt (d w : Sight) : Prop := d.around.map (·.place) ⊆ w.around.map (·.place)

/-! ### Names after a walk -/

namespace Program

variable {settings : LiteralSettings} {p : Program}

/-- A node has a name after a walk if it had it before, or if it is a spot that gets it. -/
theorem isNamed_moved {v : Sight} (hv : v ∈ p.sights) (name : Bytes) :
    let hs := p.hoistings settings
    (v.site.moved (Hoisting.changes hs) (p.moved hs)).part.isNamed name = true ↔
      v.isNamed name = true ∨
        ∃ h ∈ hs, h.name = name ∧ ∃ u ∈ h.cluster.spots, u.place = v.place := by
  intro hs
  have hspot {h : Hoisting} (hh : h ∈ hs) {u : Spot} (hu : u ∈ h.cluster.spots)
      (hplace : u.place = v.place) : v.inSlot = true ∧
        (Hoisting.changes hs).name? v.place = some ⟨u.literal.span, h.name⟩ := by
    obtain ⟨w, hw, hwplace, hslot, -⟩ :=
      sight_of_mem_spots (mem_spots_of_hoisting hh hu)
    obtain rfl := eq_of_place_eq hw hv (hwplace.trans hplace)
    exact ⟨hslot, hplace ▸ name?_spot hh hu⟩
  have hpart : (v.site.moved (Hoisting.changes hs) (p.moved hs)).part =
      (Child.outline ⟨v.node, v.inSlot⟩).rewrite (Hoisting.changes hs)
        (v.site.received (Hoisting.changes hs)) v.place := rfl
  rw [hpart, Child.outline, Outline.rewrite]
  cases hname : if v.inSlot then (Hoisting.changes hs).name? v.place else none with
  | some id =>
    have hname : (Hoisting.changes hs).name? v.place = some id := by
      split at hname
      · exact hname
      · cases hname
    obtain ⟨h, hh, u, hu, hplace, rfl⟩ := mem_names hname
    constructor
    · intro h'
      exact .inr ⟨h, hh, of_decide_eq_true h', u, hu, hplace⟩
    · rintro (hbefore | ⟨k, hk, rfl, w, hw, hwplace⟩)
      · have hne : (Hoisting.changes hs).name? v.place ≠ none := by
          rw [hname]
          exact Option.some_ne_none _
        obtain ⟨w, hw, hwplace, -, lit, hnode⟩ := spot_of_name hne
        obtain rfl := eq_of_place_eq hw hv hwplace
        rw [Sight.isNamed, hnode] at hbefore
        cases hbefore
      · have hsame := (hspot hk hw hwplace).2
        rw [hname] at hsame
        exact decide_eq_true (congrArg Ident.name (Option.some.inj hsame))
  | none =>
    have hbefore : (Outline.node v.node.husk v.inSlot v.node.outlines).isNamed name =
        v.isNamed name := Sight.isNamed_part name v
    simp only
    rw [Outline.isNamed_node _ _ _ _ v.node.outlines, hbefore]
    constructor
    · exact .inl
    · rintro (hbefore | ⟨h, hh, -, u, hu, hplace⟩)
      · exact hbefore
      · obtain ⟨hslot, hsome⟩ := hspot hh hu hplace
        simp [hslot, hsome] at hname

/-- What is named among what a body receives is the target of a declaration. -/
theorem named_gained {v : Sight} (hv : v ∈ p.sights) {s : Site} {name : Bytes}
    (hs : s ∈ v.site.gained (Hoisting.changes (p.hoistings settings))
      (p.moved (p.hoistings settings))) (hname : s.part.isNamed name = true) :
    ∃ (i : Nat) (k : Hoisting),
      ((p.hoistings settings).filter fun k => v.isBodyOf k.cluster.owner)[i]? = some k ∧
        k.name = name ∧
        s.place = 0 :: 0 :: (v.lead + i) :: p.moved (p.hoistings settings) v.place := by
  rw [Site.gained, received_eq] at hs
  have hnodes : ∀ o ∈ ((p.hoistings settings).filter fun k => v.isBodyOf k.cluster.owner).map
      (·.declaration.outline), o.isNode = true := by
    intro o ho
    obtain ⟨k, -, rfl⟩ := List.mem_map.1 ho
    rfl
  obtain ⟨i, o, hget, hpart⟩ := Outline.part_of_mem_sitesAll hnodes hs
  rw [List.getElem?_map, Option.map_eq_some_iff] at hget
  obtain ⟨k, hk, rfl⟩ := hget
  obtain ⟨hplace, hkname⟩ := Hoisting.named_declaration hpart hname
  have howner := (List.mem_filter.1 (List.mem_of_getElem? hk)).2
  rw [lead_site hv (Sight.block_or_root howner)] at hplace
  exact ⟨i, k, hk, hkname, hplace⟩

theorem target_sight {q : Program} {h : Hoisting} {d : Sight} (hd : d ∈ q.sights)
    (hnode : d.node = .stmt h.declaration) :
    ∃ t ∈ q.sights, t.place = 0 :: 0 :: d.place ∧ t.isNamed h.name = true := by
  let lit := h.cluster.first.literal
  let id : Expr := .ident ⟨lit.span, h.name⟩
  have hdeclarator := child_mem hd
    (c := (⟨.declarator (.bind lit.span (.holds id) (.holds (.literal lit))), false⟩, 0))
    (by rw [hnode]; exact List.mem_cons_self ..)
  have htarget := child_mem hdeclarator (c := (⟨.expr id, true⟩, 0)) (List.mem_cons_self ..)
  exact ⟨_, htarget, rfl, decide_eq_true rfl⟩

/-- After a walk a name of a declaration stands in the declaration, where it replaces literals, and
where the program had it. -/
theorem isNamed_afterWalk {h : Hoisting} (hh : h ∈ p.hoistings settings) {body : Sight}
    (hbody : body ∈ p.sights) (howner : body.isBodyOf h.cluster.owner = true) {i : Nat}
    (hi : ((p.hoistings settings).filter fun k => body.isBodyOf k.cluster.owner)[i]? = some h)
    {d : Sight} (hd : d ∈ (p.afterWalk settings).sights)
    (hplace : d.place = (body.lead + i) :: p.moved (p.hoistings settings) body.place)
    (hnode : d.node = .stmt h.declaration) {w : Sight} (hw : w ∈ (p.afterWalk settings).sights) :
    let hs := p.hoistings settings
    w.isNamed h.name = true ↔ w.place = 0 :: 0 :: d.place ∨
      (∃ u ∈ h.cluster.spots, w.place = p.moved hs u.place) ∨
      ∃ v ∈ p.sights, v.isNamed h.name = true ∧ w.place = p.moved hs v.place := by
  intro hs
  constructor
  · intro hname
    rw [← Sight.isNamed_part] at hname
    obtain ⟨v, hv, hsite⟩ := List.mem_flatMap.1
      ((sites_afterWalk settings p).mem_iff.1 (List.mem_map_of_mem hw))
    rcases List.mem_cons.1 hsite with heq | hgained
    · have hwplace : w.place = p.moved hs v.place := congrArg Site.place heq
      rw [heq] at hname
      rcases (isNamed_moved hv h.name).1 hname with hbefore | ⟨k, hk, hkname, u, hu, huplace⟩
      · exact .inr (.inr ⟨v, hv, hbefore, hwplace⟩)
      · obtain rfl := eq_of_name_eq hk hh hkname
        exact .inr (.inl ⟨u, hu, by rw [hwplace, huplace]⟩)
    · -- The name tells the declaration, and this its body and its number there.
      obtain ⟨j, k, hk, hkname, hwplace⟩ := named_gained hv hgained hname
      obtain ⟨hkmem, hkowner⟩ := List.mem_filter.1 (List.mem_of_getElem? hk)
      obtain rfl := eq_of_name_eq hkmem hh hkname
      obtain rfl := body_unique hv hbody hkowner howner
      have hnodup := ((nodup_hoistings settings p).of_map).filter
        fun k => v.isBodyOf k.cluster.owner
      obtain rfl := (List.getElem?_inj (List.getElem?_eq_some_iff.1 hk).1 hnodup).1
        (hk.trans hi.symm)
      left
      rw [hplace]
      exact hwplace
  · rintro (hwplace | ⟨u, hu, hwplace⟩ | ⟨v, hv, hbefore, hwplace⟩)
    · obtain ⟨t, ht, htplace, htname⟩ := target_sight hd hnode
      rw [eq_of_place_eq hw ht (hwplace.trans htplace.symm)]
      exact htname
    · obtain ⟨v, hv, hvplace, hvnode, -⟩ := name_afterWalk hh hu
      rw [eq_of_place_eq hw hv (hwplace.trans hvplace.symm), Sight.isNamed, hvnode]
      exact decide_eq_true rfl
    · obtain ⟨x, hx, hsite⟩ := sight_afterWalk settings hv
      have hxplace : x.place = p.moved hs v.place := congrArg Site.place hsite
      rw [eq_of_place_eq hw hx (hwplace.trans hxplace.symm), ← Sight.isNamed_part, hsite]
      exact (isNamed_moved hv h.name).2 (.inl hbefore)

end Program

namespace Program

variable {settings : LiteralSettings} {p : Program}

theorem isKnownAt_spot {h : Hoisting} {u : Spot} (hu : u ∈ h.cluster.spots) {body d w : Sight}
    (hbody : body.around = h.cluster.around)
    (hd : d.around.map (·.place) =
      body.around.map fun f => p.moved (p.hoistings settings) f.place)
    (hw : w.around.map (·.place) =
      u.around.map fun f => p.moved (p.hoistings settings) f.place) : d.isKnownAt w := by
  intro place hplace
  rw [hd, hbody] at hplace
  obtain ⟨f, hf, rfl⟩ := List.mem_map.1 hplace
  obtain ⟨g, hg, hsame⟩ := Cluster.exists_around hf hu
  rw [hw, ← hsame]
  exact List.mem_map_of_mem hg

end Program

namespace Session

/-- The names after a walk with a fresh pass are the stem with the numbers from one on, whatever
names the program has. Each stands in the declaration inserted for it, which is known wherever the
name replaces a literal, and beyond these places exactly where it stood before. So the names are
fresh, and each of them is bound once, for programs in which no name is spelled so. -/
theorem names_walkProgram (settings : LiteralSettings) (p : Program) :
    let after := (start settings [.cachedLiterals]).walkProgram p
    let hs := p.hoistings settings
    after.2.2.hoisted? = some (hs.map (Hoisting.report settings.overhead)) ∧
      hs.map (·.name) =
        (List.range' 1 hs.length).map (fun k => settings.stem ++ Bytes.ofNat k) ∧
      (hs.map (·.name)).Nodup ∧
      (∀ v ∈ p.sights, ∃ w ∈ after.1.sights, w.place = p.moved hs v.place) ∧
      ∀ h ∈ hs, ∃ body ∈ p.sights, body.isBodyOf h.cluster.owner = true ∧
        ∃ d ∈ after.1.sights, d.place.tail = p.moved hs body.place ∧
          d.node = .stmt h.declaration ∧
          (∀ u ∈ h.cluster.spots, ∃ w ∈ after.1.sights, w.place = p.moved hs u.place ∧
            w.node = .expr (.ident ⟨u.literal.span, h.name⟩) ∧ d.isKnownAt w) ∧
          ∀ w ∈ after.1.sights, w.isNamed h.name = true ↔
            w.place = 0 :: 0 :: d.place ∨
            (∃ u ∈ h.cluster.spots, w.place = p.moved hs u.place) ∨
            ∃ v ∈ p.sights, v.isNamed h.name = true ∧ w.place = p.moved hs v.place := by
  intro after hs
  obtain ⟨o, hsettled, -, hhoisted⟩ := walkProgram_literals settings p
  refine ⟨?_, p.names_hoistings settings, p.nodup_hoistings settings, fun v hv => ?_,
    fun h hh => ?_⟩
  · rw [show after.2.2.hoisted? = _ from hhoisted, hsettled.hoisted]
  · obtain ⟨w, hw, hsite⟩ := Program.sight_afterWalk settings hv
    exact ⟨w, hw, congrArg Site.place hsite⟩
  · obtain ⟨body, hbody, howner, haround, -⟩ := Program.body_of_hoisting hh
    obtain ⟨i, hi, d, hd, hplace, hnode, hdaround⟩ := Program.declaration_afterWalk hh hbody howner
    refine ⟨body, hbody, howner, d, hd, congrArg List.tail hplace, hnode, fun u hu => ?_,
      fun w hw => Program.isNamed_afterWalk hh hbody howner hi hd hplace hnode hw⟩
    obtain ⟨w, hw, hwplace, hwnode, hwaround⟩ := Program.name_afterWalk hh hu
    exact ⟨w, hw, hwplace, hwnode, Program.isKnownAt_spot hu haround hdaround hwaround⟩

/-- A program that has a variable of the first name. The declaration of the literal is known where
the program means that variable. -/
theorem names_walkProgram_taken :
    let source := Source.inline (Bytes.ofString
      "var __const_literal_$t1=1;f(__const_literal_$t1,\"payload\",\"payload\")")
    let settings : LiteralSettings := ⟨"__const_literal_$t", 2⟩
    ∃ p, Program.parse source = .ok p ∧
      let after := (start settings [.cachedLiterals]).walkProgram p
      ∃ list, after.2.2.hoisted? = some list ∧ ∃ x ∈ list, ∃ v ∈ p.sights, v.isNamed x.name = true ∧
        ∃ h ∈ p.hoistings settings, h.name = x.name ∧ ∃ d ∈ after.1.sights,
          d.node = .stmt h.declaration ∧ ∃ w ∈ after.1.sights,
            w.place = p.moved (p.hoistings settings) v.place ∧ w.isNamed x.name = true ∧
              d.isKnownAt w := by
  intro source settings
  have htaken : ((Program.parse source).toOption.any fun p => (p.hoistings settings).any fun h =>
      h.cluster.around.isEmpty && p.sights.any fun v => v.isNamed h.name) = true := by
    decide +kernel
  obtain ⟨p, hparse, hsome⟩ := exists_of_any htaken
  obtain ⟨h, hh, hany⟩ := List.any_eq_true.1 hsome
  simp only [Bool.and_eq_true, List.isEmpty_iff, List.any_eq_true] at hany
  obtain ⟨hroot, v, hv, hname⟩ := hany
  obtain ⟨o, hsettled, -, hhoisted⟩ := walkProgram_literals settings p
  have hreport : h.report settings.overhead ∈ o.state.hoisted := by
    rw [hsettled.hoisted]
    exact List.mem_map_of_mem hh
  obtain ⟨body, hbody, howner, haround, -⟩ := Program.body_of_hoisting hh
  obtain ⟨i, -, d, hd, -, hnode, hdaround⟩ := Program.declaration_afterWalk hh hbody howner
  obtain ⟨w, hw, hsite⟩ := Program.sight_afterWalk settings hv
  refine ⟨p, hparse, _, hhoisted, _, hreport, v, hv, hname, h, hh, rfl, d, hd, hnode, w, hw,
    congrArg Site.place hsite, ?_, ?_⟩
  · rw [← Sight.isNamed_part, hsite]
    exact (Program.isNamed_moved hv h.name).2 (.inl hname)
  · rw [Sight.isKnownAt, hdaround, haround, hroot]
    exact List.nil_subset _

end Session

end ScriptOptimizer
