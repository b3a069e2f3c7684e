import ScriptOptimizer.Compile
import ScriptOptimizer.Proofs.Pass.Alone
import ScriptOptimizer.Proofs.Walk.ScopeStack

/-!
Both passes on one walk. Each of them finds what it finds alone: the one that looks for implicit
globals does not read the edits, and what it declares in the table leaves the numbers of the open
scopes as they are, which are all that the one for literals reads of it.
-/

namespace ScriptOptimizer

/-- A pass that has found something. -/
def Pass.having (found : List ImplicitGlobal) (state : CachedLiterals) : PassName → Pass
  | .implicitGlobals => .implicitGlobals found
  | .cachedLiterals => .cachedLiterals state

namespace Session

/-- Names that come into being by assignment do not depend on the edits. -/
theorem reactGlobals_eq (e : Event) (found : List ImplicitGlobal) (t : ScopeTable Node)
    (edits : Edits) : reactGlobals e found t edits = { reactGlobals e found t {} with edits } := by
  unfold reactGlobals
  split
  · rfl
  · split <;> rfl
  · rfl

theorem grows_reactGlobals (e : Event) (found : List ImplicitGlobal) (t : ScopeTable Node)
    (edits : Edits) : t.Grows (reactGlobals e found t edits).symbols := by
  unfold reactGlobals
  split
  · rename_i d _ _
    cases d with
    | bind span id init =>
      exact .foldl id.boundNames (·.name) (fun _ => .declarator (.bind span id init)) t
  · split
    · exact .refl t
    · rename_i id _
      simp only [ImplicitGlobal.assign]
      split
      · exact .refl t
      · exact .declareGlobal _ _ (.refl t)
  · exact .refl t

/-- Literals and their owners are noted under the numbers of the open scopes. -/
theorem reactLiterals_eq {t t' : ScopeTable Node} (h : t.Alike t') (walk : Nat) (e : Event)
    (state : CachedLiterals) (edits : Edits) :
    reactLiterals walk e state t' edits =
      { reactLiterals walk e state t edits with symbols := t' } := by
  have hcurrent := h.current
  obtain ⟨hid, -⟩ := List.cons.inj hcurrent
  have href : t'.current.ref walk = t.current.ref walk := congrArg (ScopeRef.mk walk) hcurrent.symm
  unfold reactLiterals
  simp only [hid, href]
  split <;> rfl

theorem pass_reactGlobals (e : Event) (found : List ImplicitGlobal) (t : ScopeTable Node)
    (edits : Edits) : ∃ found', (reactGlobals e found t edits).pass = .implicitGlobals found' := by
  unfold reactGlobals
  split
  · exact ⟨_, rfl⟩
  · split <;> exact ⟨_, rfl⟩
  · exact ⟨_, rfl⟩

theorem pass_reactLiterals (walk : Nat) (e : Event) (state : CachedLiterals) (t : ScopeTable Node)
    (edits : Edits) :
    ∃ state', (reactLiterals walk e state t edits).pass = .cachedLiterals state' := by
  unfold reactLiterals
  split <;> exact ⟨_, rfl⟩

/-- A walk with both passes, in some order, beside the walks with each of them alone. -/
structure Apart (names : List PassName) (s globals literals : WalkState Session) : Prop where
  symbols : s.symbols = globals.symbols
  alike : globals.symbols.Alike literals.symbols
  edits : s.edits = literals.edits
  walks : s.own.walks = literals.own.walks
  passes : ∃ found state, globals.own.passes = [.implicitGlobals found] ∧
    literals.own.passes = [.cachedLiterals state] ∧
      s.own.passes = names.map (Pass.having found state)

/-- The two orders of both passes. -/
def IsOrder (names : List PassName) : Prop :=
  names = [.implicitGlobals, .cachedLiterals] ∨ names = [.cachedLiterals, .implicitGlobals]

namespace Apart

variable {names : List PassName} {s globals literals : WalkState Session}

/-- An announcement: in either order each pass reacts as it does alone. -/
theorem announce (h : Apart names s globals literals) (hnames : IsOrder names)
    (settings : LiteralSettings) (e : Event) :
    Apart names (announced (names.map (Pass.start settings)) e s)
      (announced [Pass.start settings .implicitGlobals] e globals)
      (announced [Pass.start settings .cachedLiterals] e literals) := by
  obtain ⟨hsymbols, halike, hedits, hwalks, found, state, hglobals, hliterals, hpasses⟩ := h
  have hG : interests (Pass.start settings .implicitGlobals) =
      interests (.implicitGlobals found) := rfl
  have hC : interests (Pass.start settings .cachedLiterals) =
      interests (.cachedLiterals state) := rfl
  obtain ⟨r, hr⟩ : ∃ r, reactGlobals e found globals.symbols {} = r := ⟨_, rfl⟩
  obtain ⟨r', hr'⟩ : ∃ r, reactLiterals literals.own.walks e state literals.symbols literals.edits =
    r := ⟨_, rfl⟩
  have hreact (edits : Edits) :
      reactGlobals e found globals.symbols edits = { r with edits } := by
    rw [reactGlobals_eq, hr]
  have hreact' {t : ScopeTable Node} (ht : literals.symbols.Alike t) :
      reactLiterals literals.own.walks e state t literals.edits = { r' with symbols := t } := by
    rw [reactLiterals_eq ht, hr']
  have hgrows : globals.symbols.Grows r.symbols := hr ▸ grows_reactGlobals ..
  have hdeclared : literals.symbols.Alike r.symbols := halike.symm.trans hgrows.alike
  obtain ⟨found', hfound⟩ : ∃ found', r.pass = .implicitGlobals found' :=
    hr ▸ pass_reactGlobals ..
  obtain ⟨state', hstate⟩ : ∃ state', r'.pass = .cachedLiterals state' :=
    hr' ▸ pass_reactLiterals ..
  rw [announced_single hglobals hG e, announced_single hliterals hC e]
  rcases hnames with rfl | rfl
  · rw [List.map_cons, List.map_cons, List.map_nil, announced_pair hpasses hG hC e]
    simp only [react, Pass.having, hsymbols, hedits, hwalks, hreact, hreact' hdeclared,
      hreact' (.refl _), hfound, hstate]
    exact ⟨rfl, hdeclared.symm, rfl, rfl, found', state', rfl, rfl, rfl⟩
  · rw [List.map_cons, List.map_cons, List.map_nil, announced_pair hpasses hC hG e]
    simp only [react, Pass.having, hsymbols, hedits, hwalks, hreact, hreact' halike.symm,
      hreact' (.refl _), hfound, hstate]
    exact ⟨rfl, hdeclared.symm, rfl, rfl, found', state', rfl, rfl, rfl⟩

theorem step (h : Apart names s globals literals) (hnames : IsOrder names)
    (settings : LiteralSettings) (x : Step) :
    Apart names (Step.effect (announced (names.map (Pass.start settings))) s x)
      (Step.effect (announced [Pass.start settings .implicitGlobals]) globals x)
      (Step.effect (announced [Pass.start settings .cachedLiterals]) literals x) := by
  cases x with
  | arrive n =>
    exact { h with
      symbols := congrArg (Walk.arriveAt n) h.symbols
      alike := Walk.alike_arriveAt h.alike n }
  | announce e => exact h.announce hnames settings e
  | depart n =>
    refine { h with symbols := ?_, alike := ?_ }
    · simp only [Step.effect, h.symbols]
    · simp only [Step.effect]
      split
      · exact h.alike.leave
      · exact h.alike

theorem steps (h : Apart names s globals literals) (hnames : IsOrder names)
    (settings : LiteralSettings) (xs : List Step) :
    Apart names (xs.foldl (Step.effect (announced (names.map (Pass.start settings)))) s)
      (xs.foldl (Step.effect (announced [Pass.start settings .implicitGlobals])) globals)
      (xs.foldl (Step.effect (announced [Pass.start settings .cachedLiterals])) literals) := by
  induction xs generalizing s globals literals with
  | nil => exact h
  | cons x rest ih => exact ih (h.step hnames settings x)

end Apart

theorem apart_ended {names : List PassName} (hnames : IsOrder names) (settings : LiteralSettings)
    (p : Program) :
    Apart names ((start settings names).ended p) ((start settings [.implicitGlobals]).ended p)
      ((start settings [.cachedLiterals]).ended p) := by
  have hstart : Pass.start settings =
      Pass.having [] { stem := settings.stem, overhead := settings.overhead } := by
    funext name
    cases name <;> rfl
  have h : Apart names (Walk.start (start settings names))
      (Walk.start (start settings [.implicitGlobals]))
      (Walk.start (start settings [.cachedLiterals])) :=
    ⟨rfl, .refl _, rfl, rfl, [], _, rfl, rfl, congrArg names.map hstart⟩
  exact h.steps hnames settings _

/-- With both passes a walk leaves the program and the declared literals that it leaves with the
one, and the scopes and the implicit globals that it leaves with the other. -/
theorem walkProgram_apart {names : List PassName} (hnames : IsOrder names)
    (settings : LiteralSettings) (p : Program) :
    let both := (start settings names).walkProgram p
    let globals := (start settings [.implicitGlobals]).walkProgram p
    let literals := (start settings [.cachedLiterals]).walkProgram p
    both.1 = literals.1 ∧ both.2.1 = globals.2.1 ∧ both.2.2.globals? = globals.2.2.globals? ∧
      both.2.2.hoisted? = literals.2.2.hoisted? := by
  have h := apart_ended hnames settings p
  obtain ⟨found, state, hglobals, hliterals, hpasses⟩ := h.passes
  simp only [walkProgram_eq, globals?, hoisted?, hglobals, hliterals, hpasses]
  refine ⟨by rw [h.edits], h.symbols, ?_⟩
  rcases hnames with rfl | rfl <;> exact ⟨rfl, rfl⟩

end Session

/-- What compiling a program that was read from a source gives. -/
def Session.compiled (s : Session) (source : Source) (p : Program) : Compiled :=
  let after := s.walkProgram p
  let globals := after.2.2.globals?.getD []
  let hoisted := after.2.2.hoisted?.getD []
  { source, globals, hoisted
    program := after.1
    symbols := after.2.1.map Node.landmark
    log := (after.2.2.log ++ [Compiled.entry globals hoisted]).map fun e =>
      { e with fields := ("source", .text source.displayName) :: e.fields } }

theorem PassName.ofText?_text (name : PassName) :
    ofText? (Bytes.ofString name.text) = some name := by
  cases name <;> decide

namespace Options

/-- The settings with other passes. -/
def withPasses (o : Options) (names : List PassName) : Options :=
  { o with passes := some (names.map fun name => Bytes.ofString name.text) }

theorem passNames_withPasses (o : Options) (names : List PassName) :
    (o.withPasses names).passNames = names := by
  simp [withPasses, passNames, List.filterMap_map, PassName.ofText?_text]

variable [PatternCheck] [ScriptReader]

theorem compile_withPasses (o : Options) (names : List PassName) (files : FileTree)
    (source : Source) : (o.withPasses names).compile files source =
      (source.read o.frontend files).map ((Session.start o.literals names).compiled source) := by
  rw [compile, passNames_withPasses]
  cases hread : source.read o.frontend files with
  | ok p => simp only [withPasses, hread]; rfl
  | error e => simp only [withPasses, hread]; rfl

/-- Neither pass changes what the other one finds, in whichever order they run: with both of them
the implicit globals and the scopes are those found without the pass for literals, and the declared
literals and the program are those that come of that pass alone. Every source that can be read is
compiled. -/
theorem compile_apart (o : Options) (files : FileTree) (source : Source) :
    let run (names : List PassName) := (o.withPasses names).compile files source
    let both := run [.implicitGlobals, .cachedLiterals]
    let swapped := run [.cachedLiterals, .implicitGlobals]
    (both.map fun c => (c.globals, c.hoisted, c.program, c.symbols)) =
        (swapped.map fun c => (c.globals, c.hoisted, c.program, c.symbols)) ∧
      (both.map fun c => (c.globals, c.symbols)) =
        ((run [.implicitGlobals]).map fun c => (c.globals, c.symbols)) ∧
      (both.map fun c => (c.hoisted, c.program)) =
        ((run [.cachedLiterals]).map fun c => (c.hoisted, c.program)) ∧
      ∀ names, (∃ c, run names = .ok c) ↔ ∃ p, source.read o.frontend files = .ok p := by
  intro run both swapped
  simp only [both, swapped, run, compile_withPasses]
  cases hread : source.read o.frontend files with
  | error e => simp [Except.map]
  | ok p =>
    obtain ⟨hprogram, hsymbols, hglobals, hhoisted⟩ :=
      Session.walkProgram_apart (.inl rfl) o.literals p
    obtain ⟨hprogram', hsymbols', hglobals', hhoisted'⟩ :=
      Session.walkProgram_apart (.inr rfl) o.literals p
    simp only [Except.map, Session.compiled, hprogram, hsymbols, hglobals, hhoisted, hprogram',
      hsymbols', hglobals', hhoisted']
    simp

end Options

end ScriptOptimizer
