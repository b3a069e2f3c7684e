import ScriptOptimizer.Frontend
import ScriptOptimizer.Harmony.Statement
import ScriptOptimizer.Proofs.Pass.LiteralPlaces

/-!
The order of declarations and uses. A declaration stands at the top of the body of its owner, so it
comes before all that lies in that body. What lies in the parameters of the owner lies in the owner
but not in its body; the built-in reader makes no such literals.
-/

namespace ScriptOptimizer

/-! ### Bodies of functions -/

theorem Node.opensScope_iff {n : Node} : n.opensScope = true ↔ ∃ fn, n.function? = some fn := by
  cases n with
  | stmt s => cases s <;> simp [opensScope, function?]
  | expr x => cases x <;> simp [opensScope, function?]
  | _ => simp [opensScope, function?]

theorem Node.children_of_function? {n : Node} {fn : Function} (h : n.function? = some fn) :
    n.children = Child.function fn := by
  unfold function? at h
  split at h
  · obtain rfl := Option.some.inj h
    rfl
  · obtain rfl := Option.some.inj h
    rfl
  · cases h

/-- The children of a function are expressions, names only if it is plain, and then its body. -/
theorem Child.function_eq (id : Option Ident) (params defaults : List Slot) (rest : Option Ident)
    (body : Block) (generator : Bool) :
    ∃ front, Child.function (.mk id params defaults rest body generator) = front ++ block body ∧
      (∀ c ∈ front, ∃ x, c.node = .expr x) ∧
      (Function.isPlain (.mk id params defaults rest body generator) = true →
        ∀ c ∈ front, ∃ name, c.node = .expr (.ident name)) := by
  have hident (id : Option Ident) (c : Child) (hc : c ∈ ident id) :
      ∃ name, c.node = .expr (.ident name) := by
    cases id with
    | none => cases hc
    | some id => exact ⟨id, by rw [List.mem_singleton.1 hc]⟩
  have hslots (list : List Slot) (c : Child) (hc : c ∈ slots list) :
      ∃ x, .holds x ∈ list ∧ c.node = .expr x := by
    obtain ⟨s, hs, hc⟩ := List.mem_flatMap.1 hc
    cases s with
    | holds x => exact ⟨x, hs, by rw [List.mem_singleton.1 hc]⟩
    | _ => cases hc
  refine ⟨ident id ++ slots params ++ slots defaults ++ ident rest, rfl, ?exprs, ?names⟩
  case exprs =>
    intro c hc
    simp only [List.mem_append] at hc
    rcases hc with ((hc | hc) | hc) | hc
    · exact (hident id c hc).imp' _ fun _ h => h
    · exact (hslots params c hc).imp fun _ h => h.2
    · exact (hslots defaults c hc).imp fun _ h => h.2
    · exact (hident rest c hc).imp' _ fun _ h => h
  case names =>
    intro hplain c hc
    simp only [Function.isPlain, Bool.and_eq_true, List.isEmpty_iff] at hplain
    obtain ⟨⟨⟨hparams, rfl⟩, -⟩, -⟩ := hplain
    simp only [List.mem_append] at hc
    rcases hc with ((hc | hc) | hc) | hc
    · exact hident id c hc
    · obtain ⟨x, hx, hnode⟩ := hslots params c hc
      have hname := List.all_eq_true.1 hparams _ hx
      cases x with
      | ident name => exact ⟨name, hnode⟩
      | _ => cases hname
    · cases hc
    · exact hident rest c hc

theorem Node.children_of_isFunctionWithBody {n : Node} (h : n.isFunctionWithBody = true) :
    ∃ (fn : Function) (front : List Child) (span : Span) (body : List Stmt), n.function? = some fn ∧
      n.children = front ++ [⟨.stmt (.block span body), false⟩] ∧
      (fn.isPlain = true → ∀ c ∈ front, ∃ name, c.node = .expr (.ident name)) := by
  obtain ⟨fn, hfn, hbody⟩ : ∃ fn, n.function? = some fn ∧ Session.hasBody fn = true := by
    unfold isFunctionWithBody at h
    split at h
    · exact ⟨_, rfl, h⟩
    · exact ⟨_, rfl, h⟩
    · cases h
  obtain ⟨id, params, defaults, rest, body, generator⟩ := fn
  obtain ⟨front, hfront, -, hplain⟩ := Child.function_eq id params defaults rest body generator
  cases body with
  | absent => cases hbody
  | braces span body =>
    exact ⟨_, front, span, body, hfn, (children_of_function? hfn).trans hfront, hplain⟩

theorem Node.block_unique {n : Node} (hn : n.opensScope = true) {c d : Child × Nat}
    (hc : c ∈ n.children.zipIdx) (hd : d ∈ n.children.zipIdx) (hcblock : c.1.node.isBlock = true)
    (hdblock : d.1.node.isBlock = true) : c = d := by
  obtain ⟨⟨id, params, defaults, rest, body, generator⟩, hfn⟩ := opensScope_iff.1 hn
  obtain ⟨front, hfront, hexpr, -⟩ := Child.function_eq id params defaults rest body generator
  rw [children_of_function? hfn, hfront] at hc hd
  have hlast (c : Child × Nat) (hc : c ∈ (front ++ Child.block body).zipIdx)
      (hblock : c.1.node.isBlock = true) : c.2 = front.length := by
    have hget := List.mk_mem_zipIdx_iff_getElem?.1 hc
    have hlength : (Child.block body).length ≤ 1 := by
      cases body <;> simp [Child.block, Child.stmt, Block.stmt, Stmt.isPresent]
    rcases Nat.lt_or_ge c.2 front.length with hlt | hge
    · rw [List.getElem?_append_left hlt] at hget
      obtain ⟨x, hx⟩ := hexpr c.1 (List.mem_of_getElem? hget)
      rw [hx] at hblock
      cases hblock
    · rw [List.getElem?_append_right hge] at hget
      have := (List.getElem?_eq_some_iff.1 hget).1
      omega
  have hplace : c.2 = d.2 := (hlast c hc hcblock).trans (hlast d hd hdblock).symm
  have hget := List.mk_mem_zipIdx_iff_getElem?.1 hc
  rw [hplace, List.mk_mem_zipIdx_iff_getElem?.1 hd, Option.some.injEq] at hget
  exact Prod.ext hget.symm hplace

/-! ### Bare literals that lead -/

theorem Stmt.eq_expression_of_isDirective {s : Stmt} (h : s.isDirective = true) :
    ∃ span lit, s = .expression span (.holds (.literal lit)) := by
  unfold isDirective at h
  split at h
  · exact ⟨_, _, rfl⟩
  · cases h

theorem Child.getElem?_stmts {list : List Stmt} {k : Nat}
    (h : k < (list.takeWhile (·.isDirective)).length) :
    ∃ s, (Child.stmts list)[k]? = some ⟨.stmt s, false⟩ ∧ s.isDirective = true := by
  induction list generalizing k with
  | nil => cases h
  | cons s rest ih =>
    rw [List.takeWhile_cons] at h
    split at h
    · rename_i hdirective
      obtain ⟨span, lit, rfl⟩ := Stmt.eq_expression_of_isDirective hdirective
      cases k with
      | zero => exact ⟨_, rfl, hdirective⟩
      | succ k => exact ih (Nat.lt_of_succ_lt_succ h)
    · cases h

/-! ### Sights and the functions around them -/

theorem Node.suffix_of_mem_around (n : Node) : ∀ (place inSlot parent around),
    (∀ f ∈ around, f.place <:+ place) → ∀ v ∈ n.sights place inSlot parent around,
      ∀ f ∈ v.around, f.place <:+ v.place := by
  induction n using childInduction with
  | step n ih =>
    intro place inSlot parent around haround v hv
    rcases mem_sights.1 hv with rfl | ⟨c, hc, hv⟩
    · exact haround
    · refine ih c.1 (List.fst_mem_of_mem_zipIdx hc) _ _ _ _ (fun f hf => ?_) v hv
      unfold within at hf
      split at hf
      · rcases List.mem_cons.1 hf with rfl | hf
        · exact List.suffix_cons ..
        · exact (haround f hf).trans (List.suffix_cons ..)
      · exact (haround f hf).trans (List.suffix_cons ..)

theorem Node.has_of_mem_sights {p : Program} (n : Node) :
    ∀ (place inSlot parent around) (above : List Node), p.Has above n →
      ∀ v ∈ n.sights place inSlot parent around, ∃ above, p.Has above v.node := by
  induction n using childInduction with
  | step n ih =>
    intro place inSlot parent around above hhas v hv
    rcases mem_sights.1 hv with rfl | ⟨c, hc, hv⟩
    · exact ⟨above, hhas⟩
    · have hmem := List.fst_mem_of_mem_zipIdx hc
      exact ih c.1 hmem _ _ _ _ _ (.child hhas hmem) v hv

theorem Cluster.exists_around {c : Cluster} {f : Enclosure} (hf : f ∈ c.around) {u : Spot}
    (hu : u ∈ c.spots) : ∃ g ∈ u.around, g.place = f.place := by
  obtain ⟨g, hg, hplace⟩ :=
    List.any_eq_true.1 (List.all_eq_true.1 (List.mem_filter.1 hf).2 u hu)
  exact ⟨g, hg, of_decide_eq_true hplace⟩

namespace Program

variable {settings : LiteralSettings} {p : Program}

theorem isPlain_of_formed (hformed : Stmt.AllFormed .any .program p.body) {v : Sight}
    (hv : v ∈ p.sights) {fn : Function} (hfn : v.node.function? = some fn) : fn.isPlain = true := by
  obtain ⟨above, hhas⟩ := Node.has_of_mem_sights _ _ _ _ _ [] .root v hv
  exact (Function.Formed.of_node (hhas.formed hformed) hfn).isPlain

theorem owner_suffix {c : Cluster} (hc : c ∈ clusters p.spots) {u : Spot} (hu : u ∈ c.spots) :
    c.owner <:+ u.place := by
  unfold Cluster.owner
  cases haround : c.around with
  | nil => exact List.nil_suffix
  | cons f rest =>
    obtain ⟨g, hg, hplace⟩ := Cluster.exists_around (f := f) (by simp [haround]) hu
    obtain ⟨v, hv, hspot⟩ := List.mem_filterMap.1 (mem_of_mem_clusters hc hu)
    obtain ⟨lit, -, -, -, heq⟩ := Sight.of_spot? hspot
    rw [heq] at hg ⊢
    show f.place <:+ v.place
    rw [← hplace]
    exact Node.suffix_of_mem_around _ _ _ _ _ (fun f hf => by cases hf) v hv g hg

theorem body_unique {owner : Path} {v w : Sight} (hv : v ∈ p.sights) (hw : w ∈ p.sights)
    (hvbody : v.isBodyOf owner = true) (hwbody : w.isBodyOf owner = true) : v = w := by
  have hchild (v : Sight) (hv : v ∈ p.sights) (h : v.isBodyOf owner = true) (hne : v.place ≠ []) :
      ∃ x ∈ p.sights, x.place = owner ∧ x.node.opensScope = true ∧
        ∃ c ∈ x.node.children.zipIdx, v = x.child c ∧ c.1.node.isBlock = true := by
    obtain ⟨x, hx, c, hc, rfl⟩ := eq_child hv hne
    simp only [Sight.isBodyOf, Sight.child, Option.any_some, Bool.and_eq_true,
      decide_eq_true_eq] at h
    exact ⟨x, hx, h.2.symm, h.1.1, c, hc, rfl, h.1.2⟩
  have hroot (v w : Sight) (hw : w ∈ p.sights) (hvbody : v.isBodyOf owner = true)
      (hwbody : w.isBodyOf owner = true) (hvroot : v.place = []) : w.place = [] := by
    by_contra hne
    obtain ⟨x, hx, hplace, hopens, -⟩ := hchild w hw hwbody hne
    have howner : owner = [] := by simpa [Sight.isBodyOf, hvroot] using hvbody
    rw [eq_root hx (hplace.trans howner)] at hopens
    cases hopens
  by_cases hvroot : v.place = []
  · exact eq_of_place_eq hv hw (hvroot.trans (hroot v w hw hvbody hwbody hvroot).symm)
  · have hwroot : w.place ≠ [] := fun h => hvroot (hroot w v hv hwbody hvbody h)
    obtain ⟨x, hx, hplace, hopens, c, hc, rfl, hcblock⟩ := hchild v hv hvbody hvroot
    obtain ⟨y, hy, hyplace, -, d, hd, rfl, hdblock⟩ := hchild w hw hwbody hwroot
    obtain rfl := eq_of_place_eq hx hy (hplace.trans hyplace.symm)
    rw [Node.block_unique hopens hc hd hcblock hdblock]

/-- A literal in a function lies in the body if there are only names beside it. -/
theorem suffix_of_names {v w : Sight} (hv : v ∈ p.sights) (hw : w ∈ p.sights)
    {front : List Child} {body : Child} (hchildren : v.node.children = front ++ [body])
    (hnames : ∀ c ∈ front, ∃ name, c.node = .expr (.ident name))
    (hopens : v.node.opensScope = true) {lit : Literal} (hliteral : w.node = .expr (.literal lit))
    (hbelow : v.place <:+ w.place) : front.length :: v.place <:+ w.place := by
  rcases child_of_suffix hv hw hbelow with rfl | ⟨d, hd, hbelow⟩
  · rw [hliteral] at hopens
    cases hopens
  · have hchild := child_mem hv hd
    rw [hchildren, List.zipIdx_append, List.mem_append] at hd
    rcases hd with hd | hd
    · -- Nothing lies below a name.
      obtain ⟨name, hname⟩ := hnames d.1 (List.fst_mem_of_mem_zipIdx hd)
      have hname : (v.child d).node = .expr (.ident name) := hname
      rcases child_of_suffix hchild hw hbelow with rfl | ⟨e, he, -⟩
      · rw [hname] at hliteral
        cases hliteral
      · rw [hname] at he
        cases he
    · obtain rfl : d = (body, front.length) := by simpa using hd
      exact hbelow

/-- There is a body for each declaration. -/
theorem body_of_hoisting {h : Hoisting} (hh : h ∈ p.hoistings settings) :
    ∃ body ∈ p.sights, body.isBodyOf h.cluster.owner = true ∧ body.around = h.cluster.around ∧
      (Stmt.AllFormed .any .program p.body →
        ∀ u ∈ h.cluster.spots, body.place <:+ u.place) := by
  have hcluster := (cluster_of_mem_hoistings hh).1
  rcases owner_hoistings hh with ⟨haround, hroot⟩ | ⟨v, hv, hbody, howner, haround⟩
  · refine ⟨_, p.root_mem_sights, ?_, haround.symm, fun _ u _ => List.nil_suffix⟩
    simp [Sight.isBodyOf, hroot]
  · obtain ⟨fn, front, span, body, hfn, hchildren, hplain⟩ :=
      Node.children_of_isFunctionWithBody hbody
    have hlast : ((⟨.stmt (.block span body), false⟩, front.length) : Child × Nat) ∈
        v.node.children.zipIdx := by
      rw [hchildren, List.mk_mem_zipIdx_iff_getElem?]
      simp
    have hopens := Node.opensScope_iff.2 ⟨fn, hfn⟩
    refine ⟨_, child_mem hv hlast, ?_, ?_, fun hformed u hu => ?_⟩
    · simp [Sight.child, Sight.isBodyOf, hopens, Node.isBlock, howner]
    · simp [Sight.child, Node.within, hopens, haround]
    · obtain ⟨w, hw, hplace, -, hnode, -⟩ :=
        sight_of_mem_spots (mem_spots_of_hoisting hh hu)
      have hbelow : v.place <:+ w.place := by
        rw [hplace, ← howner]
        exact owner_suffix hcluster hu
      rw [← hplace]
      exact suffix_of_names hv hw hchildren (hplain (isPlain_of_formed hformed hv hfn)) hopens
        hnode hbelow

/-- A spot lies behind the bare literals that lead a body. -/
theorem lead_le {body : Sight} (hbody : body ∈ p.sights)
    (hshape : body.node.isBlock = true ∨ body.place = []) {u : Spot} (hu : u ∈ p.spots) {k : Nat}
    (h : k :: body.place <:+ u.place) : body.lead ≤ k := by
  by_contra hlead
  obtain ⟨s, hget, hdirective⟩ := Child.getElem?_stmts (Nat.lt_of_not_le hlead)
  obtain ⟨span, lit, rfl⟩ := Stmt.eq_expression_of_isDirective hdirective
  have hchildren : body.node.children = Child.stmts body.node.statements := by
    rcases hshape with hblock | hroot
    · obtain ⟨span, list, hnode⟩ := Node.eq_block_of_isBlock hblock
      rw [hnode]
      rfl
    · rw [eq_root hbody hroot]
      rfl
  rw [← hchildren] at hget
  have hstatement := child_mem hbody (List.mk_mem_zipIdx_iff_getElem?.2 hget)
  obtain ⟨w, hw, hplace, -, hnode, hspot, -⟩ := sight_of_mem_spots hu
  rw [← hplace] at h
  rcases child_of_suffix hstatement hw h with rfl | ⟨c, hc, h⟩
  · cases hnode
  · -- The literal of the statement is the whole of it, and nothing lies below that literal.
    have hliteral := child_mem hstatement hc
    obtain rfl : c = (⟨.expr (.literal lit), true⟩, 0) := List.mem_singleton.1 hc
    rcases child_of_suffix hliteral hw h with rfl | ⟨d, hd, -⟩
    · have hwhole : true = false := Sight.isWholeStatement_of_spot? hspot
      cases hwhole
    · cases hd

end Program

/-- A node lies behind another one if it lies in what comes later in the same list. -/
def Sight.isBehind (d w : Sight) : Prop :=
  ∃ i list j, d.place = i :: list ∧ i < j ∧ j :: list <:+ w.place

namespace Program

variable {settings : LiteralSettings} {p : Program}

/-- What was in a body is behind the declarations that the body receives, and nothing else is. -/
theorem isBehind_iff {body d w : Sight} (hbody : body ∈ p.sights)
    (hshape : body.node.isBlock = true ∨ body.place = []) {i : Nat}
    {h : Hoisting}
    (hi : ((p.hoistings settings).filter fun k => body.isBodyOf k.cluster.owner)[i]? = some h)
    (hd : d.place = (body.lead + i) :: p.moved (p.hoistings settings) body.place) {u : Spot}
    (hu : u ∈ p.spots) (hw : w.place = p.moved (p.hoistings settings) u.place) :
    d.isBehind w ↔ body.place <:+ u.place := by
  constructor
  · rintro ⟨_, _, j, hplace, -, hj⟩
    obtain ⟨-, rfl⟩ := List.cons.inj (hd.symm.trans hplace)
    rw [hw] at hj
    obtain ⟨k, hk, -⟩ := suffix_moved hj
    exact (List.suffix_cons ..).trans hk
  · intro hbelow
    obtain ⟨v, hv, hvplace, -, hvnode, -⟩ := sight_of_mem_spots hu
    rw [← hvplace] at hbelow
    rcases child_of_suffix hbody hv hbelow with rfl | ⟨c, -, hbelow⟩
    · rcases hshape with hblock | hroot
      · rw [hvnode] at hblock
        cases hblock
      · rw [eq_root hv hroot] at hvnode
        cases hvnode
    · -- The declarations are put before this statement, as it is behind the leading literals.
      rw [hvplace] at hbelow
      have hlead := lead_le hbody hshape hu hbelow
      have hcount := (List.getElem?_eq_some_iff.1 hi).1
      rw [← List.countP_eq_length_filter] at hcount
      refine ⟨_, _, c.2 + p.ahead (p.hoistings settings) body.place c.2, hd, ?_,
        hw ▸ moved_suffix hbelow⟩
      rw [ahead_eq hbody, if_neg (Nat.not_lt.2 hlead)]
      omega

/-- What is a child of a function is not in its body. -/
theorem not_suffix_of_tail {body : Sight} (hbody : body ∈ p.sights) {owner : Path}
    (hfunction : owner ≠ []) (howner : body.isBodyOf owner = true) {u : Spot} (hu : u ∈ p.spots)
    (htail : u.place.tail = owner) : ¬body.place <:+ u.place := by
  intro hbelow
  obtain ⟨v, hv, hvplace, -, hvnode, -⟩ := sight_of_mem_spots hu
  unfold Sight.isBodyOf at howner
  split at howner
  · exact hfunction (by simpa using howner)
  · rename_i k above hplace
    simp only [Bool.and_eq_true, decide_eq_true_eq] at howner
    obtain ⟨⟨-, hblock⟩, rfl⟩ := howner
    rw [hplace] at hbelow
    have hsame := hbelow.eq_of_length_le (by simp [← htail]; omega)
    have hsight := eq_of_place_eq hbody hv (hplace.trans (hsame.trans hvplace.symm))
    rw [hsight, hvnode] at hblock
    cases hblock

end Program

namespace Session

/-- A walk with a fresh pass puts the declarations of an owner one after another into its body,
behind the bare literals that lead it, and a name behind its declaration exactly if the literal was
in that body. All literals were if the built-in reader made the program. -/
theorem declared_before_uses [PatternCheck] (settings : LiteralSettings) (p : Program) :
    let after := (start settings [.cachedLiterals]).walkProgram p
    let hs := p.hoistings settings
    after.2.2.hoisted? = some (hs.map (Hoisting.report settings.overhead)) ∧
      ∀ h ∈ hs, ∃ body ∈ p.sights, body.isBodyOf h.cluster.owner = true ∧
        (∃ i, (hs.filter fun k => body.isBodyOf k.cluster.owner)[i]? = some h ∧
          ∃ d ∈ after.1.sights, d.place = (body.lead + i) :: p.moved hs body.place ∧
            d.node = .stmt h.declaration ∧
            ∀ u ∈ h.cluster.spots, ∃ w ∈ after.1.sights, w.place = p.moved hs u.place ∧
              w.node = .expr (.ident ⟨u.literal.span, h.name⟩) ∧
              (d.isBehind w ↔ body.place <:+ u.place)) ∧
        ∀ source, Program.parse source = .ok p →
          ∀ u ∈ h.cluster.spots, body.place <:+ u.place := by
  intro after hs
  obtain ⟨o, hsettled, -, hhoisted⟩ := walkProgram_literals settings p
  refine ⟨?_, fun h hh => ?_⟩
  · rw [show after.2.2.hoisted? = _ from hhoisted, hsettled.hoisted]
  obtain ⟨body, hbody, howner, -, hinside⟩ := Program.body_of_hoisting hh
  obtain ⟨i, hi, d, hd, hdplace, hdnode, -⟩ := Program.declaration_afterWalk hh hbody howner
  refine ⟨body, hbody, howner, ⟨i, hi, d, hd, hdplace, hdnode, fun u hu => ?_⟩,
    fun source hparse => hinside (Program.formed_any hparse)⟩
  obtain ⟨w, hw, hplace, hnode, -⟩ := Program.name_afterWalk hh hu
  have hspot := Program.mem_spots_of_hoisting hh hu
  exact ⟨w, hw, hplace, hnode, Program.isBehind_iff hbody (Sight.block_or_root howner) hi hdplace
    hspot hplace⟩

/-- The defaults of parameters lie in the function but not in its body: the reader for newer
programs makes a program after which names stand beside their declaration. -/
theorem declared_beside_defaults :
    let source := Source.inline (Bytes.ofString "function f(a=\"payload\",b=\"payload\"){}")
    let settings : LiteralSettings := ⟨"__const_literal_$t", 2⟩
    ∃ p, Harmony.read ⟨[], []⟩ source = .ok p ∧
      let after := (start settings [.cachedLiterals]).walkProgram p
      let hs := p.hoistings settings
      ∃ h ∈ hs, ∃ body ∈ p.sights, body.isBodyOf h.cluster.owner = true ∧
        ∃ i, (hs.filter fun k => body.isBodyOf k.cluster.owner)[i]? = some h ∧
          ∃ d ∈ after.1.sights, d.place = (body.lead + i) :: p.moved hs body.place ∧
            d.node = .stmt h.declaration ∧
            ∃ u ∈ h.cluster.spots, ∃ w ∈ after.1.sights, w.place = p.moved hs u.place ∧
              w.node = .expr (.ident ⟨u.literal.span, h.name⟩) ∧ ¬d.isBehind w := by
  intro source settings
  have hdefaults : (match Harmony.read ⟨[], []⟩ source with
      | .ok p => (p.hoistings settings).any fun h => h.cluster.owner ≠ [] &&
          h.cluster.spots.any fun u => u.place.tail = h.cluster.owner
      | .error _ => false) = true := by decide +kernel
  split at hdefaults
  · rename_i p hread
    obtain ⟨h, hh, hdefault⟩ := List.any_eq_true.1 hdefaults
    simp only [Bool.and_eq_true, decide_eq_true_eq, List.any_eq_true] at hdefault
    obtain ⟨hfunction, u, hu, htail⟩ := hdefault
    obtain ⟨body, hbody, howner, -⟩ := Program.body_of_hoisting hh
    obtain ⟨i, hi, d, hd, hdplace, hdnode, -⟩ := Program.declaration_afterWalk hh hbody howner
    obtain ⟨w, hw, hplace, hnode, -⟩ := Program.name_afterWalk hh hu
    have hspot := Program.mem_spots_of_hoisting hh hu
    refine ⟨p, hread, h, hh, body, hbody, howner, i, hi, d, hd, hdplace, hdnode, u, hu, w, hw,
      hplace, hnode, ?_⟩
    rw [Program.isBehind_iff hbody (Sight.block_or_root howner) hi hdplace hspot hplace]
    exact Program.not_suffix_of_tail hbody hfunction howner hspot htail
  · cases hdefaults

end Session

end ScriptOptimizer
