import Mathlib.Data.List.Forall2
import ScriptOptimizer.Proofs.Pass.Alone
import ScriptOptimizer.Proofs.Scope.Table

/-!
Which names are implicit globals. The sights of a program say which names are declared at each of
them; a walk with a fresh pass finds the names that are assigned to where they are not declared.
-/

namespace ScriptOptimizer

/-- A name is declared where an open scope declares it. -/
theorem ImplicitGlobal.isDeclared_iff {name : Bytes} {t : ScopeTable Node} :
    isDeclared name t = true ↔ ∃ s ∈ t.live, s.declares name = true := by
  obtain ⟨rest, hrest⟩ := ScopeTable.live_eq t
  rw [isDeclared, Bool.or_eq_true, ScopeTable.find?_isSome, or_iff_right_iff_imp, hrest]
  exact fun hhere => ⟨t.current, by simp, hhere⟩

namespace Node

/-- The names that are known inside a node only: the parameters of a function, and the name of a
function expression. -/
def ownNames : Node → List Ident
  | .stmt (.function _ fn) => fn.paramNames
  | .expr (.function _ fn) => fn.id.toList ++ fn.paramNames
  | _ => []

/-- The names that a node binds in the function around it. -/
def bindings : Node → List Ident
  | .declarator (.bind _ id _) => id.boundNames
  | .stmt (.function _ fn) => fn.id.toList
  | .handler (.clause _ param _) => param.boundNames
  | _ => []

/-- The name that a node assigns to as a whole. -/
def assigned? : Node → Option Ident
  | .expr (.assign _ _ (.holds (.ident id)) _) => some id
  | _ => none

end Node

namespace Sight

/-- Does the innermost function around the one sight, or the program, enclose the other? -/
def reaches (u v : Sight) : Bool :=
  match u.around with
  | [] => true
  | f :: _ => v.around.any (f.place = ·.place)

/-- Is a name declared at a sight: inside a function around it, or by what was seen before and
reaches it? -/
def declares (v : Sight) (before : List Sight) (name : Bytes) : Bool :=
  (v.around.any fun f => f.node.ownNames.any (·.name = name)) ||
    before.any fun u => u.node.bindings.any (·.name = name) && u.reaches v

/-- The names kept after a sight: the name that it assigns to is new if it is neither kept nor
declared. -/
def keep (kept : List Ident) (before : List Sight) (v : Sight) : List Ident :=
  match v.node.assigned? with
  | none => kept
  | some id =>
    if kept.any (·.name = id.name) || v.declares before id.name then kept else kept ++ [id]

/-- The names kept after sights. -/
def keepAll (kept : List Ident) (before : List Sight) : List Sight → List Ident
  | [] => kept
  | v :: rest => keepAll (v.keep kept before) (before ++ [v]) rest

theorem reaches_iff {u v : Sight} : u.reaches v = true ↔
    u.around.head?.map (·.place) = none ∨
      ∃ f ∈ v.around, u.around.head?.map (·.place) = some f.place := by
  unfold reaches
  cases u.around <;> simp

theorem keepAll_append (kept : List Ident) (before xs ys : List Sight) :
    keepAll kept before (xs ++ ys) =
      keepAll (keepAll kept before xs) (before ++ xs) ys := by
  induction xs generalizing kept before with
  | nil => simp [keepAll]
  | cons v rest ih => simp [keepAll, ih]

theorem nodup_keep {kept : List Ident} (h : (kept.map (·.name)).Nodup) (before : List Sight)
    (v : Sight) : ((v.keep kept before).map (·.name)).Nodup := by
  unfold keep
  split
  · exact h
  · split
    · exact h
    · rename_i id _ hnew
      rw [List.map_append, List.nodup_append]
      refine ⟨h, by simp, ?_⟩
      rintro name hname other hother rfl
      simp only [List.map_cons, List.map_nil, List.mem_singleton] at hother
      subst hother
      obtain ⟨kid, hkid, hname⟩ := List.mem_map.1 hname
      simp only [Bool.or_eq_true, not_or, List.any_eq_true, not_exists, not_and] at hnew
      exact hnew.1 kid hkid (by simpa using hname)

theorem nodup_keepAll {kept : List Ident} (h : (kept.map (·.name)).Nodup) (before vs : List Sight) :
    ((keepAll kept before vs).map (·.name)).Nodup := by
  induction vs generalizing kept before with
  | nil => exact h
  | cons v rest ih => exact ih (nodup_keep h before v) _

end Sight

/-- The implicit globals of a program, in the order of their first assignment. -/
def Program.implicitGlobals (p : Program) : List Ident := Sight.keepAll [] [] p.sights

/-- What an open scope declares: the names that a function knows inside, or the kept names in the
root, and the names bound before by what has that function as its innermost. -/
def Layer (before : List Sight) (kept : List Ident) (f : Option Enclosure) (scope : Scope Node) :
    Prop :=
  ∀ name, scope.declares name = true ↔
    (match f with
      | some f => name ∈ f.node.ownNames.map (·.name)
      | none => name ∈ kept.map (·.name)) ∨
    ∃ u ∈ before, u.around.head?.map (·.place) = f.map (·.place) ∧
      name ∈ u.node.bindings.map (·.name)

/-- The table of scopes after some sights, inside some functions. -/
structure Known (before : List Sight) (around : List Enclosure) (kept : List Ident)
    (t : ScopeTable Node) : Prop where
  layers : List.Forall₂ (Layer before kept) (around.map some ++ [none]) t.live
  listed : ∀ id ∈ kept, ⟨id.name, .expr (.ident id)⟩ ∈ t.root.entries

/-- The functions around a place, the inner ones at longer ways. -/
def Nested (place : Path) (around : List Enclosure) : Prop :=
  (place :: around.map (·.place)).Pairwise fun p q => q.length < p.length

/-- Nothing seen before lies in a function at a place or below. -/
def Fresh (place : Path) (before : List Sight) : Prop :=
  ∀ u ∈ before, ∀ f ∈ u.around, ¬place <:+ f.place

theorem Nested.child {place : Path} {around : List Enclosure} (h : Nested place around) (i : Nat)
    (n : Node) : Nested (i :: place) (n.within place around) := by
  obtain ⟨hplace, haround⟩ := List.pairwise_cons.1 h
  have hlonger (q : Path) (hq : q ∈ around.map (·.place)) : q.length < (i :: place).length := by
    have := hplace q hq
    simp only [List.length_cons]
    omega
  unfold Node.within
  split
  · refine List.pairwise_cons.2 ⟨fun q hq => ?_, h⟩
    rcases List.mem_cons.1 hq with rfl | hq
    · simp
    · exact hlonger q hq
  · exact List.pairwise_cons.2 ⟨hlonger, haround⟩

theorem Nested.places_ne {place : Path} {around : List Enclosure} (h : Nested place around) :
    (around.map (·.place)).Nodup :=
  (List.pairwise_cons.1 h).2.imp fun {p q} hlt heq => by
    rw [heq] at hlt
    omega

theorem Fresh.not_around {place : Path} {before : List Sight} (h : Fresh place before) {u : Sight}
    (hu : u ∈ before) : u.around.head?.map (·.place) ≠ some place := by
  intro heq
  obtain ⟨f, hf, rfl⟩ := Option.map_eq_some_iff.1 heq
  exact h u hu f (List.mem_of_mem_head? hf) (List.suffix_refl _)

theorem exists_mem_iff_of_forall₂ {α β : Type} {P : α → Prop} {Q : β → Prop} {xs : List α}
    {ys : List β} (h : List.Forall₂ (fun a b => Q b ↔ P a) xs ys) :
    (∃ b ∈ ys, Q b) ↔ ∃ a ∈ xs, P a := by
  induction h with
  | nil => simp
  | cons hab _ ih => simp [hab, ih]

namespace Layer

variable {before : List Sight} {kept : List Ident} {f : Option Enclosure} {scope : Scope Node}

/-- A sight adds what it binds to the scope of its innermost function. -/
theorem bind (h : Layer before kept f scope) {v : Sight}
    (hv : v.around.head?.map (·.place) = f.map (·.place)) {scope' : Scope Node}
    (hnames : ∀ name, scope'.declares name = true ↔
      name ∈ v.node.bindings.map (·.name) ∨ scope.declares name = true) :
    Layer (before ++ [v]) kept f scope' := by
  intro name
  rw [hnames, h name]
  constructor
  · rintro (hbound | hown | ⟨u, hu, hplace, hname⟩)
    · exact .inr ⟨v, by simp, hv, hbound⟩
    · exact .inl hown
    · exact .inr ⟨u, by simp [hu], hplace, hname⟩
  · rintro (hown | ⟨u, hu, hplace, hname⟩)
    · exact .inr (.inl hown)
    · rcases List.mem_append.1 hu with hu | hu
      · exact .inr (.inr ⟨u, hu, hplace, hname⟩)
      · rw [List.mem_singleton.1 hu] at hname
        exact .inl hname

/-- A sight in another function adds nothing to the scope. -/
theorem still (h : Layer before kept f scope) {v : Sight}
    (hv : v.around.head?.map (·.place) ≠ f.map (·.place)) :
    Layer (before ++ [v]) kept f scope := by
  intro name
  rw [h name]
  refine or_congr_right ⟨?_, ?_⟩
  · rintro ⟨u, hu, hplace, hname⟩
    exact ⟨u, by simp [hu], hplace, hname⟩
  · rintro ⟨u, hu, hplace, hname⟩
    rcases List.mem_append.1 hu with hu | hu
    · exact ⟨u, hu, hplace, hname⟩
    · rw [List.mem_singleton.1 hu] at hplace
      exact absurd hplace hv

end Layer

namespace Known

variable {before : List Sight} {around : List Enclosure} {kept : List Ident} {t : ScopeTable Node}

theorem length_live (h : Known before around kept t) : t.live.length = around.length + 1 := by
  have := h.layers.length_eq
  simp at this
  omega

/-- A name is declared in an open scope where it is kept or declared at the sight. -/
theorem isDeclared_eq (h : Known before around kept t) {v : Sight} (hv : v.around = around)
    (name : Bytes) : ImplicitGlobal.isDeclared name t =
      (kept.any (·.name = name) || v.declares before name) := by
  have hlayers := exists_mem_iff_of_forall₂ (h.layers.imp fun {f scope} hf => hf name)
  rw [Bool.eq_iff_iff, ImplicitGlobal.isDeclared_iff, hlayers]
  subst hv
  simp only [Sight.declares, Bool.or_eq_true, List.any_eq_true, Bool.and_eq_true,
    decide_eq_true_eq, Sight.reaches_iff, List.mem_append, List.mem_map, List.mem_singleton]
  constructor
  · rintro ⟨f, ⟨g, hg, rfl⟩ | rfl, hown | ⟨u, hu, hplace, hname⟩⟩
    · exact .inr (.inl ⟨g, hg, hown⟩)
    · exact .inr (.inr ⟨u, hu, hname, .inr ⟨g, hg, hplace⟩⟩)
    · exact .inl hown
    · exact .inr (.inr ⟨u, hu, hname, .inl hplace⟩)
  · rintro (hkept | ⟨g, hg, hown⟩ | ⟨u, hu, hname, hplace | ⟨g, hg, hplace⟩⟩)
    · exact ⟨none, .inr rfl, .inl hkept⟩
    · exact ⟨some g, .inl ⟨g, hg, rfl⟩, .inl hown⟩
    · exact ⟨none, .inr rfl, .inr ⟨u, hu, hplace, hname⟩⟩
    · exact ⟨some g, .inl ⟨g, hg, rfl⟩, .inr ⟨u, hu, hplace, hname⟩⟩

/-- What a sight binds is declared in the innermost scope. -/
theorem bind (h : Known before around kept t) {v : Sight} (hv : v.around = around)
    (hnested : Nested v.place around) {t' : ScopeTable Node}
    (hdeclares : t.Declares (v.node.bindings.map (·.name)) t') :
    Known (before ++ [v]) around kept t' := by
  obtain ⟨⟨scope, hlive, hnames⟩, hroot⟩ := hdeclares
  refine ⟨?_, fun id hid => hroot (h.listed id hid)⟩
  have hlayers := h.layers
  obtain ⟨rest, hrest⟩ := ScopeTable.live_eq t
  rw [hrest] at hlayers
  rw [hlive, hrest, List.tail_cons]
  have hplaces := hnested.places_ne
  cases around with
  | nil =>
    obtain ⟨hfirst, hnil⟩ := List.forall₂_cons.1 hlayers
    exact .cons (hfirst.bind (by simp [hv]) hnames) (List.forall₂_nil_left_iff.1 hnil ▸ .nil)
  | cons f around =>
    obtain ⟨hfirst, hothers⟩ := List.forall₂_cons.1 hlayers
    have hother : ∀ g ∈ around.map some ++ [none],
        v.around.head?.map (·.place) ≠ Option.map Enclosure.place g := by
      intro g hg heq
      simp only [hv, List.head?_cons, Option.map_some] at heq
      obtain ⟨e, rfl, hplace⟩ := Option.map_eq_some_iff.1 heq.symm
      have hmem : e ∈ around := by simpa using hg
      exact (List.nodup_cons.1 hplaces).1 (List.mem_map.2 ⟨e, hmem, hplace⟩)
    refine .cons (hfirst.bind (by simp [hv]) hnames) ?_
    exact ((List.forall₂_and_left _ _).2 ⟨hother, hothers⟩).imp fun {g scope} ⟨hne, hlayer⟩ =>
      hlayer.still hne

/-- A function that is entered knows its own names, and nothing was bound in it before. -/
theorem enter (h : Known before around kept t) {place : Path} {n : Node}
    (hfresh : Fresh place before) {t' : ScopeTable Node}
    (hdeclares : t.enter.Declares (n.ownNames.map (·.name)) t') :
    Known before (⟨place, n⟩ :: around) kept t' := by
  obtain ⟨⟨scope, hlive, hnames⟩, hroot⟩ := hdeclares
  constructor
  · rw [hlive, ScopeTable.live_enter, List.tail_cons]
    refine List.Forall₂.cons (fun name => ?_) h.layers
    rw [hnames]
    have hnone : t.enter.current.declares name = false := rfl
    have hnew : ¬∃ u ∈ before, u.around.head?.map (·.place) = some place ∧
        name ∈ u.node.bindings.map (·.name) := by
      rintro ⟨u, hu, hplace, -⟩
      exact hfresh.not_around hu hplace
    simp only [hnone, Bool.false_eq_true, or_false, Option.map_some, hnew]
  · exact fun id hid => hroot (h.listed id hid)

/-- A function that is left takes its scope with it. -/
theorem leave {f : Enclosure} (h : Known before (f :: around) kept t) :
    Known before around kept t.leave := by
  have hlength := h.length_live
  constructor
  · rw [ScopeTable.live_leave (by simp at hlength; omega)]
    have hlayers := h.layers
    cases hlive : t.live with
    | nil => simp [hlive] at hlength
    | cons scope rest =>
      rw [hlive] at hlayers
      cases hlayers with
      | cons _ hrest => exact hrest
  · rw [ScopeTable.root_leave]
    exact h.listed

/-- A name that is kept is declared in the root scope. -/
theorem keep (h : Known before around kept t) (id : Ident) :
    Known before around (kept ++ [id]) (t.declareGlobal id.name (.expr (.ident id))) := by
  constructor
  · have hlayers : List.Forall₂ (Layer before kept) (around.map some ++ [none])
        (t.inner ++ [t.root]) := h.layers
    have hlength : around.length = t.inner.length := by
      have := h.length_live
      simp only [ScopeTable.live, List.length_append, List.length_singleton] at this
      omega
    have hinner := List.forall₂_take_append _ _ _ hlayers
    have hroot := List.forall₂_drop_append _ _ _ hlayers
    rw [← hlength, List.take_left' (by simp), List.forall₂_map_left_iff] at hinner
    rw [← hlength, List.drop_left' (by simp)] at hroot
    obtain ⟨hroot, -⟩ := List.forall₂_cons.1 hroot
    have hinner : List.Forall₂ (Layer before (kept ++ [id])) (around.map some) t.inner :=
      List.forall₂_map_left_iff.2 (hinner.imp fun {f scope} hlayer => hlayer)
    rw [ScopeTable.live_declareGlobal]
    refine List.rel_append hinner (.cons (fun name => ?_) .nil)
    rw [Scope.declares_add, hroot name, List.map_append, List.mem_append, List.map_singleton,
      List.mem_singleton, ← or_assoc, eq_comm, or_comm (a := name = id.name)]
  · intro other hother
    rcases List.mem_append.1 hother with hother | hother
    · exact List.mem_append_left _ (h.listed other hother)
    · rw [List.mem_singleton.1 hother]
      exact List.mem_append_right _ (List.mem_singleton_self _)

end Known

/-- A kept name as the pass lists it. -/
def Ident.asGlobal (id : Ident) : ImplicitGlobal := ⟨id.name, id.span.start⟩

namespace Session

/-- What an announcement before the children of a node does. -/
theorem reactGlobals_enter (n : Node) (place : Path) (inSlot : Bool) (parent : Option Node)
    (found : List ImplicitGlobal) (t : ScopeTable Node) (edits : Edits) :
    reactGlobals ⟨.enter, n, place, inSlot, parent⟩ found t edits =
      match n.assigned? with
      | some id =>
        let (symbols, new) := ImplicitGlobal.assign id t found
        ⟨.implicitGlobals (found ++ new.toList), symbols, edits,
          new.toList.map ImplicitGlobal.entry⟩
      | none =>
        ⟨.implicitGlobals found, (match n with
          | .declarator d => ImplicitGlobal.declare d t
          | _ => t), edits, []⟩ := by
  cases n with
  | expr x =>
    cases x with
    | assign span operator left right =>
      cases left with
      | holds target => cases target <;> rfl
      | _ => rfl
    | _ => rfl
  | _ => rfl

theorem reactGlobals_leave (n : Node) (place : Path) (inSlot : Bool) (parent : Option Node)
    (found : List ImplicitGlobal) (t : ScopeTable Node) (edits : Edits) :
    reactGlobals ⟨.leave, n, place, inSlot, parent⟩ found t edits =
      ⟨.implicitGlobals found, t, edits, []⟩ := by
  cases n <;> rfl

/-- An announcement to the pass alone. -/
theorem act_globals {found : List ImplicitGlobal} (e : Event) {s : WalkState Session}
    (hs : s.own.passes = [.implicitGlobals found]) :
    (act (.implicitGlobals []) e s).symbols = (reactGlobals e found s.symbols s.edits).symbols ∧
      (act (.implicitGlobals []) e s).own.passes =
        [(reactGlobals e found s.symbols s.edits).pass] := by
  have hsame : interests (.implicitGlobals []) = interests (.implicitGlobals found) := rfl
  rw [show act (.implicitGlobals []) e s = announced [.implicitGlobals []] e s from rfl,
    announced_single hs hsame e]
  exact ⟨rfl, rfl⟩

end Session

/-- The scopes after a node that assigns to no name is entered. -/
def Node.introduce (n : Node) (t : ScopeTable Node) : ScopeTable Node :=
  match n with
  | .declarator d => ImplicitGlobal.declare d (Walk.arriveAt n t)
  | _ => Walk.arriveAt n t

/-- The names that a node which is no function binds are declared when the walk enters it. -/
theorem Node.declares_bindings {n : Node} (hn : n.opensScope = false) (t : ScopeTable Node) :
    t.Declares (n.bindings.map (·.name)) (n.introduce t) := by
  have hstill : t.Declares ([] : List Bytes) t := .refl t
  cases n with
  | declarator d =>
    obtain ⟨span, id, init⟩ := d
    exact .foldl id.boundNames (·.name) _ t
  | handler h =>
    cases h with
    | absent => exact hstill
    | clause span param body => exact .foldl param.boundNames (·.name) _ t
  | stmt x =>
    cases x with
    | function span fn => simp [opensScope] at hn
    | _ => exact hstill
  | expr x =>
    cases x with
    | function span fn => simp [opensScope] at hn
    | _ => exact hstill
  | _ => exact hstill

/-- A function declares its name around it or inside, and its parameters inside. -/
theorem Node.declares_ownNames {n : Node} (hn : n.opensScope = true) (t : ScopeTable Node) :
    ∃ t', t.Declares (n.bindings.map (·.name)) t' ∧
      t'.enter.Declares (n.ownNames.map (·.name)) (n.introduce t) := by
  have hnames (names : List Ident) (node : Ident → Node) (t : ScopeTable Node) :
      t.Declares (names.map (·.name)) (names.foldl (fun t id => t.declare id.name (node id)) t) :=
    .foldl names (·.name) node t
  cases n with
  | stmt x =>
    cases x with
    | function span fn => exact ⟨_, hnames fn.id.toList _ t, hnames fn.paramNames _ _⟩
    | _ => simp [opensScope] at hn
  | expr x =>
    cases x with
    | function span fn =>
      refine ⟨t, .refl t, ?_⟩
      rw [ownNames, List.map_append]
      exact (hnames fn.id.toList _ t.enter).trans (hnames fn.paramNames _ _)
    | _ => simp [opensScope] at hn
  | _ => simp [opensScope] at hn

theorem Fresh.concat {v : Sight} {before : List Sight} (h : Fresh v.place before)
    (hnested : Nested v.place v.around) : Fresh v.place (before ++ [v]) := by
  intro u hu f hf hsuffix
  rcases List.mem_append.1 hu with hu | hu
  · exact h u hu f hf hsuffix
  · rw [List.mem_singleton.1 hu] at hf
    have := (List.pairwise_cons.1 hnested).1 f.place (List.mem_map.2 ⟨f, hf, rfl⟩)
    have := hsuffix.length_le
    omega

/-- The scopes after a node that assigns to no name is entered. -/
theorem Known.introduce {before : List Sight} {kept : List Ident} {t : ScopeTable Node} {v : Sight}
    (h : Known before v.around kept t) (hnested : Nested v.place v.around)
    (hfresh : Fresh v.place before) :
    Known (before ++ [v]) (v.node.within v.place v.around) kept (v.node.introduce t) := by
  unfold Node.within
  split
  · rename_i hopens
    obtain ⟨t', hbindings, hown⟩ := Node.declares_ownNames hopens t
    exact (h.bind rfl hnested hbindings).enter (hfresh.concat hnested) hown
  · rename_i hopens
    exact h.bind rfl hnested (Node.declares_bindings (by simpa using hopens) t)

theorem Node.introduce_of_assigned {n : Node} {id : Ident} (h : n.assigned? = some id)
    (t : ScopeTable Node) : n.introduce t = t ∧ Walk.arriveAt n t = t ∧ n.opensScope = false := by
  unfold assigned? at h
  split at h
  · exact ⟨rfl, rfl, rfl⟩
  · cases h

namespace Session

/-- Entering a node keeps the name that it assigns to if that is a new one. -/
theorem enter_known {before : List Sight} {kept : List Ident} {v : Sight} {s : WalkState Session}
    (h : Known before v.around kept s.symbols) (hnested : Nested v.place v.around)
    (hfresh : Fresh v.place before)
    (hpasses : s.own.passes = [.implicitGlobals (kept.map Ident.asGlobal)]) :
    let s' := act (.implicitGlobals []) ⟨.enter, v.node, v.place, v.inSlot, v.parent⟩
      (Step.effect (act (.implicitGlobals [])) s (.arrive v.node))
    Known (before ++ [v]) (v.node.within v.place v.around) (v.keep kept before) s'.symbols ∧
      s'.own.passes = [.implicitGlobals ((v.keep kept before).map Ident.asGlobal)] := by
  intro s'
  have hact := act_globals ⟨.enter, v.node, v.place, v.inSlot, v.parent⟩
    (s := Step.effect (act (.implicitGlobals [])) s (.arrive v.node)) hpasses
  have hintroduce := h.introduce hnested hfresh
  rw [reactGlobals_enter] at hact
  obtain ⟨hsymbols, hfound⟩ := hact
  change s'.symbols = _ at hsymbols
  change s'.own.passes = _ at hfound
  rw [hsymbols, hfound]
  cases hassigned : v.node.assigned? with
  | none =>
    simp only [Sight.keep, hassigned]
    exact ⟨hintroduce, trivial⟩
  | some id =>
    obtain ⟨hsame, harrive, hopens⟩ := Node.introduce_of_assigned hassigned s.symbols
    rw [hsame] at hintroduce
    have hdeclared := h.isDeclared_eq (v := v) rfl id.name
    simp only [Step.effect, harrive, Sight.keep, hassigned, ImplicitGlobal.assign, hdeclared]
    by_cases hnew : (kept.any (·.name = id.name) || v.declares before id.name) = true
    · simp only [hnew, if_true]
      exact ⟨hintroduce, by simp⟩
    · have hunknown : ((kept.map Ident.asGlobal).any fun g => g.name = id.name) = false := by
        simp only [Bool.or_eq_true, not_or] at hnew
        rw [List.any_map]
        exact Bool.eq_false_iff.2 hnew.1
      simp only [hnew, hunknown]
      exact ⟨hintroduce.keep id, by simp [Ident.asGlobal]⟩

/-- Leaving a node leaves the scope that it opened. -/
theorem leave_known {before : List Sight} {around : List Enclosure} {kept : List Ident} {n : Node}
    {place : Path} (inSlot : Bool) (parent : Option Node) {s : WalkState Session}
    (h : Known before (n.within place around) kept s.symbols)
    (hpasses : s.own.passes = [.implicitGlobals (kept.map Ident.asGlobal)]) :
    let s' := Step.effect (act (.implicitGlobals []))
      (act (.implicitGlobals []) ⟨.leave, n, place, inSlot, parent⟩ s) (.depart n)
    Known before around kept s'.symbols ∧
      s'.own.passes = [.implicitGlobals (kept.map Ident.asGlobal)] := by
  obtain ⟨hsymbols, hfound⟩ := act_globals ⟨.leave, n, place, inSlot, parent⟩ hpasses
  rw [reactGlobals_leave] at hsymbols hfound
  refine ⟨?_, hfound⟩
  simp only [Step.effect, hsymbols]
  unfold Node.within at h
  split at h
  · rename_i hopens
    rw [if_pos hopens]
    exact h.leave
  · rename_i hopens
    rwa [if_neg hopens]

end Session

/-- What is seen below one child lies in no function below another. -/
theorem Fresh.sights {place : Path} {i j : Nat} {around : List Enclosure} {before : List Sight}
    (h : Fresh (i :: place) before) (hnested : Nested (i :: place) around) (hne : i ≠ j) (n : Node)
    (inSlot : Bool) (parent : Option Node) :
    Fresh (i :: place) (before ++ n.sights (j :: place) inSlot parent around) := by
  intro u hu f hf hsuffix
  rcases List.mem_append.1 hu with hu | hu
  · exact h u hu f hf hsuffix
  · rcases Node.around_of_mem_sights n _ _ _ _ u hu f hf with hf | hf
    · have := (List.pairwise_cons.1 hnested).1 f.place (List.mem_map.2 ⟨f, hf, rfl⟩)
      have := hsuffix.length_le
      omega
    · have hsame := (List.suffix_of_suffix_length_le hsuffix hf (by simp)).eq_of_length (by simp)
      exact hne (List.cons.inj hsame).1

namespace Session

/-- A walk from a node on keeps the names that its sights keep. -/
theorem effect_known (n : Node) : ∀ (place inSlot parent around before kept)
    (s : WalkState Session), Known before around kept s.symbols → Nested place around →
    Fresh place before → s.own.passes = [.implicitGlobals (kept.map Ident.asGlobal)] →
    let vs := n.sights place inSlot parent around
    let s' := n.effect (act (.implicitGlobals [])) place inSlot parent s
    Known (before ++ vs) around (Sight.keepAll kept before vs) s'.symbols ∧
      s'.own.passes = [.implicitGlobals ((Sight.keepAll kept before vs).map Ident.asGlobal)] := by
  induction n using Node.childInduction with
  | step n ih =>
    intro place inSlot parent around before kept s hknown hnested hfresh hpasses vs s'
    have hchildren (cs : List (Child × Nat)) (hcs : cs ⊆ n.children.zipIdx)
        (hnodup : (cs.map (·.2)).Nodup) (before : List Sight) (kept : List Ident)
        (s : WalkState Session) (hfresh : ∀ c ∈ cs, Fresh (c.2 :: place) before)
        (hknown : Known before (n.within place around) kept s.symbols)
        (hpasses : s.own.passes = [.implicitGlobals (kept.map Ident.asGlobal)]) :
        let vs := cs.flatMap fun c =>
          c.1.node.sights (c.2 :: place) c.1.inSlot (some n) (n.within place around)
        let s' := cs.foldl (fun s c => c.1.node.effect (act (.implicitGlobals [])) (c.2 :: place)
          c.1.inSlot (some n) s) s
        Known (before ++ vs) (n.within place around) (Sight.keepAll kept before vs) s'.symbols ∧
          s'.own.passes =
            [.implicitGlobals ((Sight.keepAll kept before vs).map Ident.asGlobal)] := by
      induction cs generalizing before kept s with
      | nil => simpa [Sight.keepAll] using ⟨hknown, hpasses⟩
      | cons c cs ihcs =>
        have hmem : c.1 ∈ n.children := List.fst_mem_of_mem_zipIdx (hcs (by simp))
        obtain ⟨hnew, hnodup⟩ := List.nodup_cons.1 hnodup
        obtain ⟨hknown, hpasses⟩ := ih c.1 hmem (c.2 :: place) c.1.inSlot (some n)
          (n.within place around) before kept s hknown (hnested.child c.2 n)
          (hfresh c (by simp)) hpasses
        have hfresh (d) (hd : d ∈ cs) := (hfresh d (by simp [hd])).sights (hnested.child d.2 n)
          (fun heq => hnew (List.mem_map.2 ⟨d, hd, heq⟩)) c.1.node c.1.inSlot (some n)
        have h := ihcs (fun d hd => hcs (by simp [hd])) hnodup _ _ _ hfresh hknown hpasses
        simpa [Sight.keepAll_append] using h
    have henter := enter_known (v := ⟨n, place, inSlot, parent, around⟩) hknown hnested hfresh
      hpasses
    have hnodup : (n.children.zipIdx.map (·.2)).Nodup := by
      rw [List.zipIdx_map_snd]
      exact List.nodup_range'
    have hfresh (c) (_ : c ∈ n.children.zipIdx) :
        Fresh (c.2 :: place) (before ++ [⟨n, place, inSlot, parent, around⟩]) := by
      intro u hu f hf hsuffix
      exact (hfresh.concat (v := ⟨n, place, inSlot, parent, around⟩) hnested) u hu f hf
        ((List.suffix_cons c.2 place).trans hsuffix)
    obtain ⟨hinside, hpasses⟩ := hchildren _ (List.Subset.refl _) hnodup _ _ _ hfresh henter.1
      henter.2
    have hleave := leave_known inSlot parent hinside hpasses
    simp only [vs, s']
    rw [Node.sights_eq, Node.effect_eq, Sight.keepAll]
    simpa using hleave

/-- A walk with a fresh pass lists the implicit globals of the program, none of them twice, and
leaves each in the root scope as a name that the identifier declares. -/
theorem globals_walkProgram (settings : LiteralSettings) (p : Program) :
    ((start settings [.implicitGlobals]).walkProgram p).2.2.globals? =
        some (p.implicitGlobals.map fun id => ⟨id.name, id.span.start⟩) ∧
      (p.implicitGlobals.map (·.name)).Nodup ∧
      ∀ id ∈ p.implicitGlobals, ⟨id.name, .expr (.ident id)⟩ ∈
        ((start settings [.implicitGlobals]).walkProgram p).2.1.root.entries := by
  have hstart : Known [] [] [] (Walk.start (start settings [.implicitGlobals])).symbols := by
    refine ⟨.cons (fun name => ?_) .nil, fun id hid => by cases hid⟩
    simp [Walk.start, ScopeTable.empty, Scope.new, Scope.declares_iff]
  obtain ⟨hknown, hpasses⟩ := effect_known (.program p) [] false none [] [] []
    (Walk.start (start settings [.implicitGlobals])) hstart (by simp [Nested])
    (fun u hu => by cases hu) rfl
  have hnodup : (([] : List Ident).map (·.name)).Nodup := List.nodup_nil
  have halone : (start settings [.implicitGlobals]).passes = [.implicitGlobals []] := rfl
  rw [walk_alone halone]
  refine ⟨?_, Sight.nodup_keepAll hnodup _ _, hknown.listed⟩
  simp only [globals?, walked, hpasses]
  rfl

end Session

end ScriptOptimizer
