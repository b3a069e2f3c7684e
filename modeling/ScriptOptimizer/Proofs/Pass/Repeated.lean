import ScriptOptimizer.Harmony.Statement
import ScriptOptimizer.Pattern.Check
import ScriptOptimizer.Proofs.Pass.ImplicitGlobals
import ScriptOptimizer.Proofs.Pass.LiteralRewrite
import ScriptOptimizer.Proofs.Pass.Together

/-!
Passes that are named more than once. All that declare literals collect the same ones, and each of
them inserts every declaration, under the same name. Of those that look for implicit globals the
first finds them all and leaves nothing to the others, but the last one is asked.
-/

namespace ScriptOptimizer

/-! ### An event that has been reacted to -/

/-- The open scopes declare what a reaction to the event declares. -/
def Event.IsNoted (e : Event) (t : ScopeTable Node) : Prop :=
  match e.phase, e.node with
  | .enter, .declarator (.bind _ id _) =>
    ∀ name ∈ id.boundNames, t.current.declares name.name = true
  | .enter, .expr x =>
    ∀ id, ImplicitGlobal.target? x = some id → ImplicitGlobal.isDeclared id.name t = true
  | _, _ => True

namespace ImplicitGlobal

theorem isDeclared_eq {t t' : ScopeTable Node} (h : t.SameNames t') (name : Bytes) :
    isDeclared name t = isDeclared name t' := by
  have hany (t : ScopeTable Node) :
      isDeclared name t = (t.live.map Scope.knows).any fun knows => knows name := by
    rw [Bool.eq_iff_iff, isDeclared_iff, List.any_map, List.any_eq_true]
    rfl
  rw [hany, hany, h]

theorem isDeclared_declareGlobal (t : ScopeTable Node) (name : Bytes) (node : Node) :
    isDeclared name (t.declareGlobal name node) = true := by
  refine isDeclared_iff.2 ⟨t.root.add name node, ?_, (Scope.declares_add ..).2 (.inl rfl)⟩
  rw [ScopeTable.live_declareGlobal]
  exact List.mem_append_right _ (List.mem_singleton_self _)

end ImplicitGlobal

namespace Session

/-- A reaction declares all that the event declares. -/
theorem isNoted_reactGlobals (e : Event) (found : List ImplicitGlobal) (t : ScopeTable Node)
    (edits : Edits) : e.IsNoted (reactGlobals e found t edits).symbols := by
  obtain ⟨phase, n, place, inSlot, parent⟩ := e
  cases phase with
  | leave => exact trivial
  | enter =>
    cases n with
    | declarator d =>
      obtain ⟨span, id, init⟩ := d
      intro name hname
      obtain ⟨⟨scope, hlive, hnames⟩, -⟩ := ScopeTable.Declares.foldl id.boundNames (·.name)
        (fun _ => .declarator (.bind span id init)) t
      obtain ⟨rest, hrest⟩ := ScopeTable.live_eq (reactGlobals
        ⟨.enter, .declarator (.bind span id init), place, inSlot, parent⟩ found t edits).symbols
      obtain ⟨hcurrent, -⟩ := List.cons.inj (hrest.symm.trans hlive)
      rw [hcurrent, hnames]
      exact .inl (List.mem_map_of_mem hname)
    | expr x =>
      intro id htarget
      simp only [reactGlobals, htarget, ImplicitGlobal.assign]
      split
      · assumption
      · exact ImplicitGlobal.isDeclared_declareGlobal ..
    | _ => exact trivial

/-- After a reaction another one lists nothing and declares nothing new. -/
theorem reactGlobals_again {e : Event} {t : ScopeTable Node} (h : e.IsNoted t)
    (found : List ImplicitGlobal) (edits : Edits) :
    (reactGlobals e found t edits).pass = .implicitGlobals found ∧
      (reactGlobals e found t edits).symbols.SameNames t := by
  obtain ⟨phase, n, place, inSlot, parent⟩ := e
  cases phase with
  | leave => exact ⟨rfl, rfl⟩
  | enter =>
    cases n with
    | declarator d =>
      obtain ⟨span, id, init⟩ := d
      exact ⟨rfl, ScopeTable.SameNames.foldl_again h _⟩
    | expr x =>
      simp only [reactGlobals]
      cases htarget : ImplicitGlobal.target? x with
      | none => exact ⟨rfl, rfl⟩
      | some id =>
        have hdeclared : ImplicitGlobal.isDeclared id.name t = true := h id htarget
        have hassign : ImplicitGlobal.assign id t found = (t, none) := if_pos hdeclared
        simp only [hassign]
        exact ⟨congrArg Pass.implicitGlobals (List.append_nil found), rfl⟩
    | _ => exact ⟨rfl, rfl⟩

/-- Where the same names are declared the reactions are the same. -/
theorem reactGlobals_same (e : Event) (found : List ImplicitGlobal) {t t' : ScopeTable Node}
    (h : t.SameNames t') (edits edits' : Edits) :
    (reactGlobals e found t edits).pass = (reactGlobals e found t' edits').pass ∧
      (reactGlobals e found t edits).symbols.SameNames
        (reactGlobals e found t' edits').symbols := by
  obtain ⟨phase, n, place, inSlot, parent⟩ := e
  cases phase with
  | leave => exact ⟨rfl, h⟩
  | enter =>
    cases n with
    | declarator d =>
      obtain ⟨span, id, init⟩ := d
      exact ⟨rfl, h.foldl _ _ _⟩
    | expr x =>
      simp only [reactGlobals]
      cases htarget : ImplicitGlobal.target? x with
      | none => exact ⟨rfl, h⟩
      | some id =>
        simp only [ImplicitGlobal.assign, ImplicitGlobal.isDeclared_eq h]
        split
        · exact ⟨rfl, h⟩
        · exact ⟨rfl, h.declareGlobal _ _ _⟩
    | _ => exact ⟨rfl, h⟩

end Session

/-! ### Declarations on top of others -/

/-- Edits that were made on top of others: the names come before those, and so do the statements of
each body. -/
structure Edits.OnTop (upper under all : Edits) : Prop where
  names : all.names = upper.names ++ under.names
  inserted : ∀ place, all.inserted place = upper.inserted place ++ under.inserted place

namespace Edits.OnTop

variable {upper under all : Edits}

theorem nothing (under : Edits) : OnTop {} under under := ⟨rfl, fun _ => rfl⟩

theorem putName (h : OnTop upper under all) (place : Path) (id : Ident) :
    OnTop (upper.putName place id) under (all.putName place id) :=
  ⟨congrArg ((place, id) :: ·) h.names, h.inserted⟩

theorem putNames {α : Type} (h : OnTop upper under all) (list : List α) (place : α → Path)
    (id : α → Ident) :
    OnTop (list.foldl (fun e x => e.putName (place x) (id x)) upper) under
      (list.foldl (fun e x => e.putName (place x) (id x)) all) := by
  induction list generalizing upper all with
  | nil => exact h
  | cons x rest ih => exact ih (h.putName _ _)

/-- A statement goes among those on top. -/
theorem insert (h : OnTop upper under all) {owner : Path} {position : Nat}
    (hposition : position ≤ (upper.inserted owner).length) (s : Stmt) :
    OnTop (upper.insert owner position s) under (all.insert owner position s) := by
  refine ⟨h.names, fun place => ?_⟩
  rw [inserted_insert, inserted_insert, h.inserted]
  split
  · rename_i hplace
    rw [hplace] at hposition
    rw [List.take_append_of_le_length hposition, List.drop_append_of_le_length hposition]
    simp
  · rfl

end Edits.OnTop

namespace CachedLiterals

/-- Decisions on top of edits beside decisions without them. -/
structure Aside (walk : Nat) (under : Edits) (o o' : Outcome) : Prop where
  state : o'.state = o.state
  edits : Edits.OnTop o.edits under o'.edits
  positions : ∀ owner : ScopeOwner, owner.walk = walk →
    ((o.state.inserts.find? fun entry => entry.1 = owner).map (·.2)).getD 0 ≤
      (o.edits.inserted owner.place).length

namespace Aside

variable {walk : Nat} {under : Edits} {o o' : Outcome}

theorem hoist (h : Aside walk under o o') (g : LiteralGroup) (first : Literal) (scope : ScopeRef)
    (owner : ScopeOwner) (saved : Int) : Aside walk under
      (CachedLiterals.hoist walk g first scope owner saved o)
      (CachedLiterals.hoist walk g first scope owner saved o') := by
  have hdeclared (position : Nat) (s : Stmt)
      (hposition : owner.walk = walk → position ≤ (o.edits.inserted owner.place).length) :
      Edits.OnTop (if owner.walk = walk then o.edits.insert owner.place position s else o.edits)
        under
        (if owner.walk = walk then o'.edits.insert owner.place position s else o'.edits) := by
    split
    · rename_i hwalk
      exact h.edits.insert (hposition hwalk) s
    · exact h.edits
  refine ⟨?_, ?_, fun other hother => ?_⟩
  · simp only [CachedLiterals.hoist, h.state]
  · simp only [CachedLiterals.hoist, h.state]
    exact (hdeclared _ _ (h.positions owner)).putNames _ _ _
  · have hnames (list : List Occurrence) (id : Occurrence → Ident) (e : Edits) :
        ((list.foldl (fun e x => e.putName x.place (id x)) e).inserted other.place) =
          e.inserted other.place := by
      induction list generalizing e with
      | nil => rfl
      | cons x rest ih => exact ih _
    simp only [CachedLiterals.hoist, hnames]
    have hbound := h.positions other hother
    by_cases hsame : owner = other
    · subst hsame
      have hlength := congrArg List.length (o.edits.inserted_insert owner.place owner.place
        (((o.state.inserts.find? fun entry => entry.1 = owner).map (·.2)).getD 0)
        (declaration (o.state.stem ++ Bytes.ofNat (o.state.counter + 1)) first))
      rw [if_pos rfl] at hlength
      simp only [if_pos hother, hlength, List.find?_cons, decide_true, Option.map_some,
        Option.getD_some, List.length_append, List.length_take, List.length_cons, List.length_drop]
      omega
    · simp only [List.find?_cons, hsame, decide_false]
      refine Nat.le_trans hbound ?_
      split
      · rw [Edits.inserted_insert]
        split
        · rename_i hplace
          rw [List.length_append, List.length_take, List.length_cons, List.length_drop]
          omega
        · exact Nat.le_refl _
      · exact Nat.le_refl _

theorem settle (h : Aside walk under o o') (g : LiteralGroup) :
    Aside walk under (CachedLiterals.settle walk o g) (CachedLiterals.settle walk o' g) := by
  obtain ⟨p, edits, log⟩ := o
  obtain ⟨p', edits', log'⟩ := o'
  obtain rfl : p' = p := h.state
  rcases settle_cases walk g p' with hsame | ⟨first, scope, owner, saved, hhoist⟩
  · obtain ⟨hstate, hedits⟩ := hsame edits log
    obtain ⟨hstate', hedits'⟩ := hsame edits' log'
    refine ⟨hstate'.trans hstate.symm, ?_, ?_⟩
    · rw [hedits, hedits']
      exact h.edits
    · rw [hedits, hstate]
      exact h.positions
  · rw [hhoist, hhoist]
    exact h.hoist g first scope owner saved

theorem foldl (h : Aside walk under o o') (gs : List LiteralGroup) :
    Aside walk under (gs.foldl (CachedLiterals.settle walk) o)
      (gs.foldl (CachedLiterals.settle walk) o') := by
  induction gs generalizing o o' with
  | nil => exact h
  | cons g rest ih => exact ih (h.settle g)

end Aside

/-- What has been inserted before does not matter to a pass that has inserted nothing. -/
theorem leaveProgram_aside {p : CachedLiterals} (hnew : p.inserts = []) (walk : Nat)
    (under : Edits) : Aside walk under (p.leaveProgram walk {}) (p.leaveProgram walk under) := by
  have hstart : Aside walk under ⟨p, {}, []⟩ ⟨p, under, []⟩ := by
    refine ⟨rfl, .nothing under, fun owner _ => ?_⟩
    simp [hnew]
  exact hstart.foldl p.groups

end CachedLiterals

/-! ### Passes that share an event -/

namespace Session

theorem pass_reactLiterals_eq {t t' : ScopeTable Node} (h : t.Alike t') (walk : Nat) (e : Event)
    (state : CachedLiterals) (edits edits' : Edits) :
    (reactLiterals walk e state t edits).pass = (reactLiterals walk e state t' edits').pass := by
  rw [reactLiterals_eq h]
  unfold reactLiterals
  split
  all_goals first
    | rfl
    | exact congrArg Pass.cachedLiterals (CachedLiterals.state_leaveProgram ..)

/-- The reactions of passes to an event, one after another: the passes after them, the scopes and
the edits. -/
def reactAll (walk : Nat) (e : Event) :
    List Pass → ScopeTable Node → Edits → List Pass × ScopeTable Node × Edits
  | [], symbols, edits => ([], symbols, edits)
  | pass :: rest, symbols, edits =>
    let r := react walk e symbols edits pass
    let more := reactAll walk e rest r.symbols r.edits
    (r.pass :: more.1, more.2)

theorem foldl_tell {passes now : List Pass}
    (hsame : List.Forall₂ (fun pass now => interests pass = interests now) passes now) (e : Event)
    (done : List Pass) {s : WalkState Session} (hs : s.own.passes = done ++ now) :
    let r := reactAll s.own.walks e now s.symbols s.edits
    ∃ log earlier, (passes.zipIdx done.length).foldl (tell e) s = { s with
      symbols := r.2.1
      edits := r.2.2
      own := { s.own with passes := done ++ r.1, log, earlier } } := by
  induction hsame generalizing done s with
  | nil => exact ⟨s.own.log, s.own.earlier, by simp [reactAll, ← hs]⟩
  | @cons pass n passes now hpass _ ih =>
    have hnow : s.own.passes[done.length]? = some n := by simp [hs]
    obtain ⟨log, earlier, hlog⟩ := ih (done ++ [(react s.own.walks e s.symbols s.edits n).pass])
      (s := tell e s (pass, done.length)) (by rw [tell_eq hnow hpass e]; simp [hs])
    refine ⟨log, earlier, ?_⟩
    rw [List.length_append, List.length_singleton] at hlog
    rw [List.zipIdx_cons, List.foldl_cons, hlog, tell_eq hnow hpass e]
    simp [reactAll]

/-- An announcement lets the passes react one after another. -/
theorem announced_eq {passes now : List Pass} {s : WalkState Session} (hs : s.own.passes = now)
    (hsame : List.Forall₂ (fun pass now => interests pass = interests now) passes now) (e : Event) :
    let r := reactAll s.own.walks e now s.symbols s.edits
    ∃ log earlier, announced passes e s = { s with
      symbols := r.2.1
      edits := r.2.2
      own := { s.own with passes := r.1, log, earlier } } :=
  foldl_tell hsame e [] hs

end Session

/-- The passes of a session that rides on one walk: the first that looks for implicit globals has
found them, the others nothing. -/
def Pass.shared (found : List ImplicitGlobal) (state : CachedLiterals) : List PassName → List Pass
  | [] => []
  | .implicitGlobals :: rest => .implicitGlobals found :: shared [] state rest
  | .cachedLiterals :: rest => .cachedLiterals state :: shared found state rest

namespace Session

/-- What a pass for literals does to the edits at an event. -/
def editing (walk : Nat) (e : Event) (state : CachedLiterals) (symbols : ScopeTable Node)
    (edits : Edits) : Edits :=
  (reactLiterals walk e state symbols edits).edits

/-- Once an event has been reacted to, the passes for literals alone react to it. -/
theorem reactAll_again {walk : Nat} {e : Event} {state state' : CachedLiterals}
    {tl : ScopeTable Node}
    (hstate : (reactLiterals walk e state tl {}).pass = .cachedLiterals state')
    (names : List PassName) {t : ScopeTable Node} (halike : tl.Alike t) (hnoted : e.IsNoted t)
    (edits : Edits) :
    let r := reactAll walk e (Pass.shared [] state names) t edits
    r.1 = Pass.shared [] state' names ∧ r.2.1.SameNames t ∧ tl.Alike r.2.1 ∧
      r.2.2 = (editing walk e state tl)^[names.count .cachedLiterals] edits := by
  induction names generalizing t edits with
  | nil => exact ⟨rfl, rfl, halike, rfl⟩
  | cons name rest ih =>
    cases name with
    | implicitGlobals =>
      obtain ⟨hpass, hsame⟩ := reactGlobals_again hnoted [] edits
      obtain ⟨hpasses, hnames, hafter, hedits⟩ := ih
        (halike.trans (grows_reactGlobals e [] t edits).alike)
        (isNoted_reactGlobals e [] t edits) edits
      have hkept : (reactGlobals e [] t edits).edits = edits := by rw [reactGlobals_eq]
      simp only [Pass.shared, reactAll, react, hpass, hkept]
      exact ⟨congrArg _ hpasses, hnames.trans hsame, hafter, by simpa using hedits⟩
    | cachedLiterals =>
      have hpass := (pass_reactLiterals_eq halike walk e state {} edits).symm.trans hstate
      have hreact := reactLiterals_eq halike walk e state edits
      obtain ⟨hpasses, hnames, hafter, hedits⟩ := ih halike hnoted (editing walk e state tl edits)
      have hsymbols : (reactLiterals walk e state t edits).symbols = t := by rw [hreact]
      have hedited : (reactLiterals walk e state t edits).edits =
          editing walk e state tl edits := by
        rw [hreact]
        rfl
      simp only [Pass.shared, reactAll, react, hpass, hsymbols, hedited]
      exact ⟨congrArg _ hpasses, hnames, hafter, by simpa using hedits⟩

/-- The first pass for implicit globals reacts as it would alone, the passes for literals do, and
the others do nothing. -/
theorem reactAll_shared {walk : Nat} {e : Event} {found found' : List ImplicitGlobal}
    {state state' : CachedLiterals} {tg tl : ScopeTable Node}
    (hfound : (reactGlobals e found tg {}).pass = .implicitGlobals found')
    (hstate : (reactLiterals walk e state tl {}).pass = .cachedLiterals state')
    (names : List PassName) {t : ScopeTable Node}
    (hnames : .implicitGlobals ∈ names → t.SameNames tg) (halike : tl.Alike t) (edits : Edits) :
    let r := reactAll walk e (Pass.shared found state names) t edits
    r.1 = Pass.shared found' state' names ∧
      (.implicitGlobals ∈ names → r.2.1.SameNames (reactGlobals e found tg {}).symbols) ∧
      tl.Alike r.2.1 ∧ r.2.2 = (editing walk e state tl)^[names.count .cachedLiterals] edits := by
  induction names generalizing t edits with
  | nil => exact ⟨rfl, nofun, halike, rfl⟩
  | cons name rest ih =>
    cases name with
    | implicitGlobals =>
      obtain ⟨hpass, hsame⟩ := reactGlobals_same e found (hnames List.mem_cons_self) edits {}
      rw [hfound] at hpass
      obtain ⟨hpasses, hagain, hafter, hedits⟩ := reactAll_again hstate rest
        (halike.trans (grows_reactGlobals e found t edits).alike)
        (isNoted_reactGlobals e found t edits) edits
      have hkept : (reactGlobals e found t edits).edits = edits := by rw [reactGlobals_eq]
      simp only [Pass.shared, reactAll, react, hpass, hkept]
      exact ⟨congrArg _ hpasses, fun _ => hagain.trans hsame, hafter, by simpa using hedits⟩
    | cachedLiterals =>
      have hpass := (pass_reactLiterals_eq halike walk e state {} edits).symm.trans hstate
      have hreact := reactLiterals_eq halike walk e state edits
      obtain ⟨hpasses, hafternames, hafter, hedits⟩ := ih
        (fun h => hnames (List.mem_cons_of_mem _ h)) halike (editing walk e state tl edits)
      have hsymbols : (reactLiterals walk e state t edits).symbols = t := by rw [hreact]
      have hedited : (reactLiterals walk e state t edits).edits =
          editing walk e state tl edits := by
        rw [hreact]
        rfl
      simp only [Pass.shared, reactAll, react, hpass, hsymbols, hedited]
      refine ⟨congrArg _ hpasses, fun h => hafternames ?_, hafter, by simpa using hedits⟩
      simpa using h

end Session

/-! ### Walks with shared passes -/

/-- Arriving at a node declares the same names in both tables. -/
theorem Walk.sameNames_arriveAt {t t' : ScopeTable Node} (h : t.SameNames t') (n : Node) :
    (arriveAt n t).SameNames (arriveAt n t') := by
  cases n with
  | stmt x =>
    cases x with
    | function span fn => exact (h.foldl _ _ _).enter.foldl _ _ _
    | _ => exact h
  | expr x =>
    cases x with
    | function span fn => exact (h.enter.foldl _ _ _).foldl _ _ _
    | _ => exact h
  | handler x =>
    cases x with
    | clause span param body => exact h.foldl _ _ _
    | absent => exact h
  | _ => exact h

namespace Session

/-- A walk with passes in any list, beside the walks with one pass of either kind. -/
structure Shared (names : List PassName) (s globals literals : WalkState Session) : Prop where
  declared : .implicitGlobals ∈ names → s.symbols.SameNames globals.symbols
  alike : literals.symbols.Alike s.symbols
  walks : s.own.walks = literals.own.walks
  passes : ∃ found state, globals.own.passes = [.implicitGlobals found] ∧
    literals.own.passes = [.cachedLiterals state] ∧ s.own.passes = Pass.shared found state names

theorem interests_shared (settings : LiteralSettings) (found : List ImplicitGlobal)
    (state : CachedLiterals) (names : List PassName) :
    List.Forall₂ (fun pass now => interests pass = interests now) (names.map (Pass.start settings))
      (Pass.shared found state names) := by
  induction names generalizing found with
  | nil => exact .nil
  | cons name rest ih => cases name <;> exact .cons rfl (ih _)

namespace Shared

variable {names : List PassName} {s globals literals : WalkState Session}

/-- An announcement: the edits are made as often as there are passes for literals. -/
theorem announce (h : Shared names s globals literals) (settings : LiteralSettings) (e : Event)
    {state : CachedLiterals} (hstate : literals.own.passes = [.cachedLiterals state]) :
    Shared names (announced (names.map (Pass.start settings)) e s)
        (announced [Pass.start settings .implicitGlobals] e globals)
        (announced [Pass.start settings .cachedLiterals] e literals) ∧
      (announced (names.map (Pass.start settings)) e s).edits =
        (editing literals.own.walks e state literals.symbols)^[names.count .cachedLiterals]
          s.edits ∧
      (announced [Pass.start settings .cachedLiterals] e literals).edits =
        editing literals.own.walks e state literals.symbols literals.edits := by
  obtain ⟨hnames, halike, hwalks, found, other, hglobals, hliterals, hpasses⟩ := h
  obtain rfl : state = other :=
    Pass.cachedLiterals.inj (List.cons.inj (hstate.symm.trans hliterals)).1
  have hG : interests (Pass.start settings .implicitGlobals) =
      interests (.implicitGlobals found) := rfl
  have hC : interests (Pass.start settings .cachedLiterals) =
      interests (.cachedLiterals state) := rfl
  obtain ⟨found', hfound⟩ := pass_reactGlobals e found globals.symbols {}
  obtain ⟨state', hafter⟩ := pass_reactLiterals literals.own.walks e state literals.symbols {}
  obtain ⟨log, earlier, hall⟩ :=
    announced_eq hpasses (interests_shared settings found state names) e
  obtain ⟨hpasses', hnames', halike', hedits'⟩ :=
    reactAll_shared hfound hafter names hnames halike s.edits
  have hkept := (reactGlobals_same e found rfl globals.edits {}).1.trans hfound
  have hkept' := (pass_reactLiterals_eq (.refl literals.symbols) literals.own.walks e state
    literals.edits {}).trans hafter
  have hsymbols : (reactGlobals e found globals.symbols globals.edits).symbols =
      (reactGlobals e found globals.symbols {}).symbols := by rw [reactGlobals_eq]
  have hsame : (reactLiterals literals.own.walks e state literals.symbols literals.edits).symbols =
      literals.symbols := by rw [reactLiterals_eq (.refl _)]
  rw [announced_single hglobals hG e, announced_single hliterals hC e, hall]
  simp only [react, hwalks, hkept, hkept', hsymbols, hsame, hpasses']
  exact ⟨⟨hnames', halike', rfl, found', state', rfl, rfl, rfl⟩, hedits', rfl⟩

/-- A step before the program is left. -/
theorem step (h : Shared names s globals literals) (settings : LiteralSettings) {x : Step}
    (hx : ∀ e, x = .announce e → e.phase = .enter ∨ e.node.isProgram = false)
    (hedits : s.edits = {}) (hedits' : literals.edits = {}) :
    let s' := Step.effect (announced (names.map (Pass.start settings))) s x
    let literals' := Step.effect (announced [Pass.start settings .cachedLiterals]) literals x
    Shared names s' (Step.effect (announced [Pass.start settings .implicitGlobals]) globals x)
      literals' ∧ s'.edits = {} ∧ literals'.edits = {} := by
  cases x with
  | arrive n =>
    exact ⟨{ h with
      declared := fun hmem => Walk.sameNames_arriveAt (h.declared hmem) n
      alike := Walk.alike_arriveAt h.alike n }, hedits, hedits'⟩
  | announce e =>
    obtain ⟨found, state, -, hstate, -⟩ := h.passes
    obtain ⟨hshared, hafter, hafter'⟩ := h.announce settings e hstate
    have hfixed (edits : Edits) :
        editing literals.own.walks e state literals.symbols edits = edits :=
      react_edits _ e _ edits (.cachedLiterals state) (hx e rfl)
    refine ⟨hshared, hafter.trans ?_, hafter'.trans ?_⟩
    · rw [Function.iterate_fixed (hfixed _), hedits]
    · rw [hfixed, hedits']
  | depart n =>
    refine ⟨{ h with declared := fun hmem => ?_, alike := ?_ }, hedits, hedits'⟩
    · simp only [Step.effect]
      split
      · exact (h.declared hmem).leave
      · exact h.declared hmem
    · simp only [Step.effect]
      split
      · exact h.alike.leave
      · exact h.alike

/-- The steps before the program is left. -/
theorem steps (h : Shared names s globals literals) (settings : LiteralSettings) {xs : List Step}
    (hxs : ∀ e, .announce e ∈ xs → e.phase = .enter ∨ e.node.isProgram = false)
    (hedits : s.edits = {}) (hedits' : literals.edits = {}) :
    let s' := xs.foldl (Step.effect (announced (names.map (Pass.start settings)))) s
    let literals' :=
      xs.foldl (Step.effect (announced [Pass.start settings .cachedLiterals])) literals
    Shared names s'
      (xs.foldl (Step.effect (announced [Pass.start settings .implicitGlobals])) globals)
      literals' ∧ s'.edits = {} ∧ literals'.edits = {} := by
  induction xs generalizing s globals literals with
  | nil => exact ⟨h, hedits, hedits'⟩
  | cons x rest ih =>
    obtain ⟨hstep, hafter, hafter'⟩ := h.step settings
      (fun e he => hxs e (he ▸ List.mem_cons_self)) hedits hedits'
    exact ih hstep (fun e he => hxs e (List.mem_cons_of_mem _ he)) hafter hafter'

end Shared

/-- After a walk the passes have found what they find alone, and the edits have been made as often
as there are passes for literals. -/
theorem ended_shared (settings : LiteralSettings) (names : List PassName) (p : Program) :
    let collected := p.collected 0 settings.fresh p.sights
    let s := (start settings names).ended p
    ∃ found, ((start settings [.implicitGlobals]).ended p).own.passes = [.implicitGlobals found] ∧
      s.own.passes = Pass.shared found (collected.leaveProgram 0 {}).state names ∧
      s.edits = (fun e => (collected.leaveProgram 0 e).edits)^[names.count .cachedLiterals] {} := by
  intro collected s
  have hfresh : names.map (Pass.start settings) =
      Pass.shared [] { stem := settings.stem, overhead := settings.overhead } names := by
    induction names with
    | nil => rfl
    | cons name rest ih => cases name <;> exact congrArg (_ :: ·) ih
  have hstart : Shared names (Walk.start (start settings names))
      (Walk.start (start settings [.implicitGlobals]))
      (Walk.start (start settings [.cachedLiterals])) :=
    ⟨fun _ => rfl, .refl _, rfl, [], _, rfl, rfl, hfresh⟩
  obtain ⟨hinner, hedits, -⟩ :=
    hstart.steps settings (fun e he => Program.phase_of_mem_innerSteps (p := p) he) rfl rfl
  have hcollecting : Collecting (start settings [.cachedLiterals]) settings.fresh p p.sights []
      (p.innerSteps.foldl (Step.effect (announced [Pass.start settings .cachedLiterals]))
        (Walk.start (start settings [.cachedLiterals]))) := by
    rw [Program.foldl_innerSteps]
    exact p.collecting rfl
  obtain ⟨hshared, hafter, -⟩ := hinner.announce settings ⟨.leave, .program p, [], false, none⟩
    hcollecting.passes
  obtain ⟨found, state, hglobals, hliterals, hpasses⟩ := hshared.passes
  have hstate : state = (collected.leaveProgram 0 {}).state := by
    have hwalked := (walked_literals settings p).2
    rw [← ended_alone rfl, ended_eq] at hwalked
    exact Pass.cachedLiterals.inj (List.cons.inj (hliterals.symm.trans hwalked)).1
  simp only [s]
  rw [ended_eq, ended_eq]
  refine ⟨found, hglobals, hstate ▸ hpasses, hafter.trans ?_⟩
  rw [hedits, hcollecting.walks]
  rfl

/-! ### What the passes report -/

theorem hoisted?_shared {s : Session} {found : List ImplicitGlobal} {state : CachedLiterals}
    {names : List PassName} (hs : s.passes = Pass.shared found state names) :
    s.hoisted? = if .cachedLiterals ∈ names then some state.hoisted else none := by
  unfold hoisted?
  rw [hs]
  clear hs
  induction names generalizing found with
  | nil => rfl
  | cons name rest ih =>
    cases name with
    | implicitGlobals =>
      simp only [Pass.shared, List.reverse_cons, List.findSome?_append, ih]
      simp
    | cachedLiterals =>
      simp only [Pass.shared, List.reverse_cons, List.findSome?_append, ih]
      split <;> simp

/-- The last of several passes for implicit globals has found nothing. -/
theorem globals?_shared {s : Session} {found : List ImplicitGlobal} {state : CachedLiterals}
    {names : List PassName} (hs : s.passes = Pass.shared found state names) :
    s.globals? = match names.count .implicitGlobals with
      | 0 => none
      | 1 => some found
      | _ => some [] := by
  unfold globals?
  rw [hs]
  clear hs
  induction names generalizing found with
  | nil => rfl
  | cons name rest ih =>
    cases name with
    | implicitGlobals =>
      simp only [Pass.shared, List.reverse_cons, List.findSome?_append, ih, List.count_cons_self]
      match rest.count PassName.implicitGlobals with
      | 0 => rfl
      | 1 => rfl
      | _ + 2 => rfl
    | cachedLiterals =>
      simp only [Pass.shared, List.reverse_cons, List.findSome?_append, ih]
      simp

end Session

namespace CachedLiterals

/-- Several passes that know the same make the same edits, each on top of those before. -/
theorem iterate_leaveProgram {p : CachedLiterals} (hnew : p.inserts = []) (walk count : Nat) :
    let once := (p.leaveProgram walk {}).edits
    let all := (fun e => (p.leaveProgram walk e).edits)^[count] {}
    all.names = (List.replicate count once.names).flatten ∧
      ∀ place, all.inserted place = (List.replicate count (once.inserted place)).flatten := by
  intro once all
  induction count with
  | zero => exact ⟨rfl, fun _ => rfl⟩
  | succ count ih =>
    obtain ⟨hnames, hinserted⟩ := ih
    have hontop := (leaveProgram_aside hnew walk
      ((fun e => (p.leaveProgram walk e).edits)^[count] {})).edits
    simp only [all, Function.iterate_succ_apply', List.replicate_succ, List.flatten_cons]
    refine ⟨?_, fun place => ?_⟩
    · rw [hontop.names, hnames]
    · rw [hontop.inserted, hinserted]

end CachedLiterals

theorem find?_flatten_replicate {α : Type} (q : α → Bool) (list : List α) (count : Nat) :
    (List.replicate count list).flatten.find? q = if count = 0 then none else list.find? q := by
  induction count with
  | zero => rfl
  | succ count ih =>
    rw [List.replicate_succ, List.flatten_cons, List.find?_append, ih, if_neg (Nat.succ_ne_zero _)]
    split <;> simp

namespace Session

/-- What a walk with fresh passes does, whichever are named and how often. -/
theorem walkProgram_shared (settings : LiteralSettings) (names : List PassName) (p : Program) :
    let after := (start settings names).walkProgram p
    let hs := p.hoistings settings
    after.2.2.hoisted? = (if .cachedLiterals ∈ names then
        some (hs.map (Hoisting.report settings.overhead)) else none) ∧
      (after.2.2.globals? = match names.count .implicitGlobals with
        | 0 => none
        | 1 => ((start settings [.implicitGlobals]).walkProgram p).2.2.globals?
        | _ => some []) ∧
      ∃ e, after.1 = p.edit e ∧
        (∀ place, e.name? place =
          if .cachedLiterals ∈ names then (Hoisting.changes hs).name? place else none) ∧
        ∀ place, e.inserted place = (List.replicate (names.count .cachedLiterals)
          ((hs.filter (·.cluster.owner = place)).map Hoisting.declaration)).flatten := by
  intro after hs
  obtain ⟨found, hglobals, hpasses, hedits⟩ := ended_shared settings names p
  have hsettled := p.settled settings
  obtain ⟨hnames, hinserted⟩ := CachedLiterals.iterate_leaveProgram
    (p := p.collected 0 settings.fresh p.sights) rfl 0 (names.count .cachedLiterals)
  rw [← hedits] at hnames hinserted
  have hmem : .cachedLiterals ∈ names ↔ names.count .cachedLiterals ≠ 0 :=
    List.count_pos_iff.symm.trans Nat.pos_iff_ne_zero
  have hafter : after.2.2.passes =
      Pass.shared found ((p.collected 0 settings.fresh p.sights).leaveProgram 0 {}).state
        names := by
    simp only [after, walkProgram_eq]
    exact hpasses
  refine ⟨?_, ?_, _, congrArg Prod.fst (walkProgram_eq ..), fun place => ?_, fun place => ?_⟩
  · rw [hoisted?_shared hafter, hsettled.hoisted]
  · have halone : ((start settings [.implicitGlobals]).walkProgram p).2.2.globals? =
        some found := by
      simp only [walkProgram_eq, globals?, hglobals]
      rfl
    rw [globals?_shared hafter, halone]
  · rw [Edits.name?, hnames, find?_flatten_replicate]
    by_cases hcount : names.count PassName.cachedLiterals = 0
    · rw [if_pos hcount, if_neg fun h => hmem.1 h hcount, Option.map_none]
    · rw [if_neg hcount, if_pos (hmem.2 hcount), ← Program.changes_settled hsettled]
      rfl
  · rw [hinserted, hsettled.inserted]

end Session

/-- The statements of a program after edits. -/
theorem Program.length_edit (p : Program) (e : Edits) :
    (p.edit e).body.length = p.body.length + (e.inserted []).length := by
  have hstmts (parent : Path) (first : Nat) (list : List Stmt) :
      (e.stmts parent first list).length = list.length := by
    induction list generalizing first with
    | nil => rfl
    | cons s rest ih => rw [Edits.stmts, List.length_cons, List.length_cons, ih]
  have hsplit := congrArg List.length
    (List.takeWhile_append_dropWhile (p := fun s => s.isDirective) (l := e.stmts [] 0 p.body))
  rw [List.length_append, hstmts] at hsplit
  simp only [Program.edit, Edits.splice, List.length_append]
  omega

namespace Options

theorem compile_withPasses_ok [PatternCheck] [ScriptReader] (o : Options) (names : List PassName)
    {files : FileTree} {source : Source} {p : Program} (h : source.read o.frontend files = .ok p) :
    (o.withPasses names).compile files source =
      .ok ((Session.start o.literals names).compiled source p) := by
  rw [compile_withPasses, h]
  rfl

/-- What compiling gives when passes are named more than once, beside what the list without
repetitions gives. The declared literals are the same. Of the implicit globals none is reported when
their pass is named more than once. The same names go into the same slots, but every body receives
its declarations as often as their pass is named. -/
theorem compile_repeated [PatternCheck] [ScriptReader] (o : Options) (files : FileTree)
    (source : Source) {once : List PassName} (honce : once.Nodup)
    (hsame : ∀ name, name ∈ once ↔ name ∈ o.passNames) :
    (∀ e, source.read o.frontend files = .error e →
      o.compile files source = .error e ∧ (o.withPasses once).compile files source = .error e) ∧
    ∀ p, source.read o.frontend files = .ok p → ∃ c d,
      o.compile files source = .ok c ∧ (o.withPasses once).compile files source = .ok d ∧
        c.hoisted = d.hoisted ∧
        (c.globals = if o.passNames.count .implicitGlobals ≤ 1 then d.globals else []) ∧
        (o.passNames.count .cachedLiterals ≤ 1 → c.program = d.program) ∧
        ∃ e e', d.program = p.edit e ∧ c.program = p.edit e' ∧
          (∀ place, e'.name? place = e.name? place) ∧
          ∀ place, e'.inserted place =
            (List.replicate (o.passNames.count .cachedLiterals) (e.inserted place)).flatten := by
  have hcompile : o.compile files source = (o.withPasses o.passNames).compile files source := by
    rw [compile_withPasses]
    rfl
  have hcount (name : PassName) : once.count name = min 1 (o.passNames.count name) := by
    have hmem := hsame name
    rw [← List.count_pos_iff, ← List.count_pos_iff] at hmem
    have hle := List.nodup_iff_count_le_one.1 honce name
    omega
  rw [hcompile, compile_withPasses, compile_withPasses]
  constructor
  · intro e hread
    rw [hread]
    exact ⟨rfl, rfl⟩
  · intro p hread
    rw [hread]
    obtain ⟨hhoisted, hglobals, e', hprogram, hnames, hinserted⟩ :=
      Session.walkProgram_shared o.literals o.passNames p
    obtain ⟨hhoisted', hglobals', e, hprogram', hnames', hinserted'⟩ :=
      Session.walkProgram_shared o.literals once p
    have hslots (place : Path) : e'.name? place = e.name? place := by
      simp only [hnames, hnames', hsame]
    have hbodies (place : Path) : e'.inserted place =
        (List.replicate (o.passNames.count .cachedLiterals) (e.inserted place)).flatten := by
      rw [hinserted, hinserted', hcount]
      rcases Nat.eq_zero_or_pos (o.passNames.count .cachedLiterals) with hnone | hsome
      · rw [hnone]
        rfl
      · rw [Nat.min_eq_left hsome]
        simp
    refine ⟨_, _, rfl, rfl, ?_, ?_, fun hone => ?_, e, e', hprogram', hprogram, hslots, hbodies⟩
    · simp only [Session.compiled, hhoisted, hhoisted', hsame]
    · simp only [Session.compiled, hglobals, hglobals', hcount]
      generalize o.passNames.count .implicitGlobals = count
      rcases count with _ | _ | count
      · rfl
      · rfl
      · rw [if_neg (by omega)]
        rfl
    · have hchanges : e'.changes = e.changes := by
        have hinserted : e'.inserted = e.inserted := by
          funext place
          rw [hbodies]
          rcases Nat.le_one_iff_eq_zero_or_eq_one.1 hone with hnone | hsome
          · rw [hnone, hinserted', hcount, hnone]
            rfl
          · rw [hsome]
            simp
        rw [Edits.changes, Edits.changes, hinserted, funext hslots]
      refine Program.outline_injective ?_
      rw [Session.compiled, Session.compiled, hprogram, hprogram', Program.outline_edit,
        Program.outline_edit, hchanges]

/-- Both passes named again after a list with each of them once. -/
theorem compile_repeated_both :
    let source := Source.inline (Bytes.ofString "x = 1")
    let once : List PassName := [.implicitGlobals, .cachedLiterals]
    let o := default.withPasses (once ++ once)
    o.fault? = none ∧ once.Nodup ∧ (∀ name, name ∈ once ↔ name ∈ o.passNames) ∧
      ∃ c d, o.compile ⟨[], []⟩ source = .ok c ∧
        (o.withPasses once).compile ⟨[], []⟩ source = .ok d ∧
        c.hoisted = d.hoisted ∧ c.globals = [] := by
  intro source once o
  have hnames : o.passNames = once ++ once := passNames_withPasses ..
  have hnodup : once.Nodup := by decide
  have hsame : ∀ name, name ∈ once ↔ name ∈ o.passNames := by
    rw [hnames]
    simp
  refine ⟨by decide +kernel, hnodup, hsame, ?_⟩
  have hsome : ((source.read o.frontend ⟨[], []⟩).toOption.any fun _ => true) = true := by
    decide +kernel
  obtain ⟨p, hread, -⟩ := exists_of_any hsome
  obtain ⟨c, d, hc, hd, hhoisted, hglobals, -⟩ :=
    (compile_repeated o ⟨[], []⟩ source hnodup hsame).2 p hread
  have hcount : ¬o.passNames.count .implicitGlobals ≤ 1 := by
    rw [hnames]
    decide
  exact ⟨c, d, hc, hd, hhoisted, hglobals.trans (if_neg hcount)⟩

/-- With the pass for literals named twice, a program gets its declaration twice. -/
theorem compile_repeated_declaration :
    let source := Source.inline (Bytes.ofString "f(\"abcdef\", \"abcdef\", \"abcdef\")")
    let o := { default with literalTag := Bytes.ofString "t" }
    let twice := o.withPasses [.cachedLiterals, .cachedLiterals]
    let once := o.withPasses [.cachedLiterals]
    twice.fault? = none ∧ ∃ c d, twice.compile ⟨[], []⟩ source = .ok c ∧
      once.compile ⟨[], []⟩ source = .ok d ∧ c.program.body.length = 3 ∧
      d.program.body.length = 2 := by
  intro source o twice once
  have hprogram : ((Program.parse source).toOption.any fun p => p.body.length == 1 &&
      ((p.hoistings o.literals).filter (·.cluster.owner = [])).length == 1) = true := by
    decide +kernel
  obtain ⟨p, hparse, hparts⟩ := exists_of_any hprogram
  simp only [Bool.and_eq_true, beq_iff_eq] at hparts
  obtain ⟨hbody, hhoisted⟩ := hparts
  have hread : source.read o.frontend ⟨[], []⟩ = .ok p := by
    rw [Source.read, if_neg (by decide), hparse]
  have hlength (names : List PassName) :
      ((Session.start o.literals names).compiled source p).program.body.length =
        1 + names.count .cachedLiterals := by
    obtain ⟨-, -, e, hafter, -, hinserted⟩ := Session.walkProgram_shared o.literals names p
    rw [Session.compiled, hafter, Program.length_edit, hbody, hinserted]
    simp [hhoisted]
  exact ⟨by decide, _, _, compile_withPasses_ok o _ hread, compile_withPasses_ok o _ hread,
    hlength [.cachedLiterals, .cachedLiterals], hlength [.cachedLiterals]⟩

end Options

end ScriptOptimizer
