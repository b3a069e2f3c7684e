import ScriptOptimizer.Proofs.Parse.LinesExpression

/-!
The rules for statements keep to the rules about lines, and so do the rules of every nesting. Each
rule that ends a statement asks for its semicolon, and each that reads on behind a word looks at the
line first.
-/

namespace ScriptOptimizer

namespace Parse

variable {text : Bytes} {tokens : List Token} {s t u : Stream}

/-! ### Words and what belongs to them -/

/-- Behind a word an expression begins in the same line. -/
theorem Took.leads (hTook : Took s t) (h : Shows tokens s) (hNoted : Noted text tokens)
    {word : Keyword} {start stop : Place} (hType : s.current.type = .keyword word)
    (hLine : t.current.newlineBefore = false) (hOpens : Opens start t) :
    (Span.mk s.current.startPlace stop).Leads text tokens word start := by
  obtain ⟨opening, first, rest, hTokens, hOpening, hStart⟩ := hOpens
  have hSuffix := h.suffix
  rw [hTook.tokens] at hSuffix
  have hPair : [s.current, t.current] <:+: tokens := infix_of_suffix [s.current, t.current] hSuffix
  rw [hTokens] at hSuffix
  refine ⟨s.current, opening, first, ?_, hType, rfl, hOpening, hStart, fun next hNext => ?_⟩
  · exact infix_of_suffix _ (by simpa using hSuffix)
  · -- The first token after the word is the one that the reader looked at.
    have hCurrent : next = t.current := by
      have hHead := congrArg List.head? hTokens
      cases opening with
      | nil => simp_all
      | cons => simp_all
    rw [hCurrent, ← hNoted _ _ hPair, hLine]
    simp

/-- Behind a word a label stands in the same line. -/
theorem Took.jumps (hTook : Took s t) (h : Shows tokens s) (hNoted : Noted text tokens)
    {word : Keyword} {label : Ident} {stop : Place} (hType : s.current.type = .keyword word)
    (hLine : t.current.newlineBefore = false) (hLabel : label.span = t.current.span) :
    (Span.mk s.current.startPlace stop).Jumps text tokens word label := by
  have hSuffix := h.suffix
  rw [hTook.tokens] at hSuffix
  have hPair : [s.current, t.current] <:+: tokens := infix_of_suffix [s.current, t.current] hSuffix
  refine ⟨s.current, t.current, hPair, hType, rfl, hLabel, ?_⟩
  rw [← hNoted _ _ hPair, hLine]
  simp

/-! ### Statements as nodes -/

theorem Stands.absent : Stands text tokens .absent := ⟨trivial, List.forall_mem_nil _⟩

theorem Stands.of {a : Stmt} (hPresent : a.isPresent = true) (hEnds : a.Ends text tokens)
    (hLined : (Node.stmt a).AllLined text tokens) : Stands text tokens a := by
  refine ⟨hEnds, ?_⟩
  rw [Child.stmt, if_pos hPresent]
  exact List.forall_mem_singleton.mpr hLined

/-- A statement without others in it. -/
theorem lined_simple {a : Stmt} (hInner : (Node.stmt a).innerStatements = [])
    (hUnbroken : (Node.stmt a).Unbroken text tokens)
    (hChildren : ∀ c ∈ Child.ofStmt a, c.node.AllLined text tokens) :
    (Node.stmt a).AllLined text tokens :=
  .of ⟨by simp [hInner], hUnbroken⟩ hChildren

/-- A statement with one other in it. -/
theorem Stands.wrapped {a body : Stmt} (hBody : Stands text tokens body)
    (hPresent : a.isPresent = true) (hEnds : a.Ends text tokens)
    (hInner : (Node.stmt a).innerStatements = [body])
    (hUnbroken : (Node.stmt a).Unbroken text tokens)
    (hChildren : ∀ c ∈ Child.ofStmt a, c.node.AllLined text tokens) : Stands text tokens a :=
  .of hPresent hEnds (.of ⟨by simpa [hInner] using hBody.ends, hUnbroken⟩ hChildren)

/-- An expression in a slot that may stay absent. -/
theorem Passed.optional {p : Parse Expr} {b : Bool} (h : Passed tokens s)
    (hp : Expresses tokens text p) :
    Yields (if b then pure .absent else Slot.holds <$> p) s fun slot t =>
      Passed tokens t ∧ ∀ c ∈ Child.slot slot, c.node.AllLined text tokens := by
  cases b with
  | true => exact .pure ⟨h, List.forall_mem_nil _⟩
  | false => exact (hp s h.shows).map fun _ _ ht => ⟨ht.passed, lined_slot ht.lined⟩

namespace Lines

variable {g : Grammar} (hg : Lines text tokens g)

include hg

theorem parenthesized :
    Passes tokens (fun e => (Node.expr e).AllLined text tokens) g.parenthesized := by
  intro s h
  refine h.first (expect_passes rfl) fun _ t ht _ => ?_
  refine ht.next (hg.expression false).passes.stays fun e u hu he => ?_
  exact hu.next (expect_passes rfl).stays fun _ v hv _ => .pure ⟨hv, he⟩

theorem blockStatement (c : Context) : Passes tokens (Stands text tokens) (g.blockStatement c) :=
  fun _ h => h.first (hg.block c) fun _ _ ht hBlock => .pure ⟨ht, .of rfl trivial hBlock⟩

/-- A declarator, whose initializer may be missing. -/
theorem declarator (noIn : Bool) :
    Passes tokens (fun d => (Node.declarator d).AllLined text tokens) (g.declarator noIn) := by
  intro s h
  refine .position (h.first name_passes fun id t ht _ => ht.next (accept_stays rfl) ?_)
  intro b u hu _
  refine .branch (Q := fun init v => Passed tokens v ∧
    ∀ c ∈ Child.slot init, c.node.AllLined text tokens) ?_ fun init v hv => .spanFrom ?_
  · cases b with
    | true =>
      exact (hg.assignment noIn u hu.shows).map fun _ _ hv => ⟨hv.passed, lined_slot hv.lined⟩
    | false => exact .pure ⟨hu, List.forall_mem_nil _⟩
  · refine (hv.1.slot _).bind fun target w hw => .pure ?_
    obtain ⟨rfl, hw⟩ := hw
    refine ⟨hw, .of ⟨List.forall_mem_nil _, trivial⟩ ?_⟩
    exact List.forall_mem_append.mpr ⟨lined_slot (.ofExpr trivial (List.forall_mem_nil _)), hv.2⟩

/-- A declaration without its end. -/
theorem declarators (noIn : Bool) :
    Passes tokens (fun d => ∀ c ∈ Child.declarators d.2, c.node.AllLined text tokens)
      (g.declarators noIn) := by
  intro s h
  refine .position (h.first (expect_passes rfl) fun _ t ht _ => ?_)
  refine ht.next (hg.declarator noIn).stays fun first u hu hFirst => ?_
  refine hu.next (whileCommas_stays (hg.declarator noIn).stays) fun rest v hv hRest => ?_
  refine .pure ⟨hv, ?_⟩
  have hAll : ∀ d ∈ first :: rest, (Node.declarator d).AllLined text tokens :=
    List.forall_mem_cons.mpr ⟨hFirst, hRest⟩
  intro c hc
  obtain ⟨d, hd, rfl⟩ := List.mem_map.mp hc
  exact hAll d hd

theorem variableStatement : Passes tokens (Stands text tokens) g.variableStatement := by
  intro s h
  refine h.first (hg.declarators false) fun d t ht hList => ?_
  refine (ht.semicolon hg.noted).bind fun _ u hu => .spanFrom (.pure ⟨hu.1, ?_⟩)
  exact .of rfl (hu.2 _) (lined_simple rfl trivial hList)

omit hg in
theorem emptyStatement (h : Shows tokens s) (hType : s.current.type ≠ .endOfInput) :
    Yields Grammar.emptyStatement s fun a t => Passed tokens t ∧ Stands text tokens a :=
  (h.ready.advance hType).bind fun _ _ ht =>
    .pure ⟨ht.2.passed h, .of rfl trivial (lined_simple rfl trivial (List.forall_mem_nil _))⟩

theorem expressionStatement : Passes tokens (Stands text tokens) g.expressionStatement := by
  intro s h
  refine .position (h.first (hg.expression false).passes fun e t ht he => ?_)
  refine (ht.semicolon hg.noted).bind fun _ u hu => .spanFrom (.pure ⟨hu.1, ?_⟩)
  exact .of rfl (hu.2 _) (lined_simple rfl trivial (lined_slot he))

theorem ifStatement (c : Context) : Passes tokens (Stands text tokens) (g.ifStatement c) := by
  intro s h
  refine .position (h.first (expect_passes rfl) fun _ t ht _ => ?_)
  refine ht.next hg.parenthesized.stays fun test u hu hTest => ?_
  refine hu.next (hg.statement c).stays fun consequent v hv hThen => ?_
  refine hv.next (accept_stays rfl) fun b w hw _ => ?_
  refine .branch (Q := fun alternate x => Passed tokens x ∧ Stands text tokens alternate) ?_
    fun alternate x hx => .spanFrom (.pure ⟨hx.1, ?_⟩)
  · cases b with
    | true => exact hg.statement c w hw.shows
    | false => exact .pure ⟨hw, .absent⟩
  · refine .of rfl trivial (.of ⟨?_, trivial⟩ ?_)
    · exact List.forall_mem_cons.mpr ⟨hThen.ends, List.forall_mem_singleton.mpr hx.2.ends⟩
    · simp only [Node.children, Child.ofStmt, List.forall_mem_append]
      exact ⟨⟨lined_slot hTest, hThen.lined⟩, hx.2.lined⟩

theorem whileStatement (c : Context) : Passes tokens (Stands text tokens) (g.whileStatement c) := by
  intro s h
  refine .position (h.first (expect_passes rfl) fun _ t ht _ => ?_)
  refine ht.next hg.parenthesized.stays fun test u hu hTest => ?_
  refine hu.next (hg.statement c.loop).stays fun body v hv hBody => .spanFrom (.pure ⟨hv, ?_⟩)
  refine hBody.wrapped rfl trivial rfl trivial ?_
  exact List.forall_mem_append.mpr ⟨lined_slot hTest, hBody.lined⟩

theorem doWhileStatement (c : Context) :
    Passes tokens (Stands text tokens) (g.doWhileStatement c) := by
  intro s h
  refine .position (h.first (expect_passes rfl) fun _ t ht _ => ?_)
  refine ht.next (hg.statement c.loop).stays fun body u hu hBody => ?_
  refine hu.next (expect_passes rfl).stays fun _ v hv _ => ?_
  refine hv.next hg.parenthesized.stays fun test w hw hTest => ?_
  refine hw.next (accept_stays rfl) fun _ x hx _ => .spanFrom (.pure ⟨hx, ?_⟩)
  refine hBody.wrapped rfl trivial rfl trivial ?_
  exact List.forall_mem_append.mpr ⟨hBody.lined, lined_slot hTest⟩

theorem withStatement (c : Context) : Passes tokens (Stands text tokens) (g.withStatement c) := by
  intro s h
  refine .position (h.first (expect_passes rfl) fun _ t ht _ => ?_)
  refine ht.next hg.parenthesized.stays fun object u hu hObject => ?_
  refine hu.next (hg.statement c).stays fun body v hv hBody => .spanFrom (.pure ⟨hv, ?_⟩)
  refine hBody.wrapped rfl trivial rfl trivial ?_
  exact List.forall_mem_append.mpr ⟨lined_slot hObject, hBody.lined⟩

/-- The rest of a for-in loop, after what its head starts with. -/
theorem forInRest (c : Context) (start : Place) {left : ForHead}
    (hLeft : ∀ c ∈ Child.forHead left, c.node.AllLined text tokens) :
    Passes tokens (Stands text tokens) (g.forInRest c start left) := by
  intro s h
  refine h.first (expect_passes rfl) fun _ t ht _ => ?_
  refine ht.next (hg.expression false).passes.stays fun right u hu hRight => ?_
  refine hu.next (expect_passes rfl).stays fun _ v hv _ => ?_
  refine hv.next (hg.statement c.loop).stays fun body w hw hBody => .spanFrom (.pure ⟨hw, ?_⟩)
  refine hBody.wrapped rfl trivial rfl trivial ?_
  simp only [Child.ofStmt, List.forall_mem_append]
  exact ⟨⟨hLeft, lined_slot hRight⟩, hBody.lined⟩

/-- The rest of a `for` loop, after what its head starts with. -/
theorem forRest (c : Context) (start : Place) {init : ForHead}
    (hInit : ∀ c ∈ Child.forHead init, c.node.AllLined text tokens) :
    Passes tokens (Stands text tokens) (g.forRest c start init) := by
  intro s h
  refine h.first (expect_passes rfl) fun _ t ht _ => .sees fun b _ => ?_
  refine .branch (ht.optional (hg.expression false)) fun test u hu => ?_
  refine hu.1.next (expect_passes rfl).stays fun _ v hv _ => .sees fun b _ => ?_
  refine .branch (hv.optional (hg.expression false)) fun update w hw => ?_
  refine hw.1.next (expect_passes rfl).stays fun _ x hx _ => ?_
  refine hx.next (hg.statement c.loop).stays fun body y hy hBody => .spanFrom (.pure ⟨hy, ?_⟩)
  refine hBody.wrapped rfl trivial rfl trivial ?_
  simp only [Child.ofStmt, List.forall_mem_append]
  exact ⟨⟨⟨hInit, hu.2⟩, hw.2⟩, hBody.lined⟩

/-- A loop whose head starts with a declaration, which no semicolon has to end. -/
theorem forVariables (c : Context) (start : Place) :
    Passes tokens (Stands text tokens) (g.forVariables c start) := by
  intro s h
  refine h.first (hg.declarators true) fun d t ht hList => .spanFrom (.sees fun b _ => ?_)
  obtain ⟨headStart, list⟩ := d
  have hHead : ∀ c ∈ Child.forHead (.declaration ⟨headStart, t.stop⟩ "var" list),
      c.node.AllLined text tokens :=
    List.forall_mem_singleton.mpr (lined_simple rfl trivial hList)
  cases b with
  | true =>
    show Yields (if list.length ≠ 1 then _ else _) t _
    split
    · exact .current .failed
    · exact hg.forInRest c start hHead t ht.shows
  | false => exact hg.forRest c start hHead t ht.shows

/-- A loop whose head starts with an expression. -/
theorem forExpression (c : Context) (start : Place) :
    Passes tokens (Stands text tokens) (g.forExpression c start) := by
  intro s h
  refine .current (h.first (hg.expression true).passes fun e t ht he => .sees fun b _ => ?_)
  have hHead : ∀ c ∈ Child.forHead (.expression (.holds e)), c.node.AllLined text tokens :=
    lined_slot he
  cases b with
  | true =>
    show Yields (if (!e.isAssignable) = true then _ else _) t _
    split
    · exact .failed
    · exact hg.forInRest c start hHead t ht.shows
  | false => exact hg.forRest c start hHead t ht.shows

theorem forStatement (c : Context) : Passes tokens (Stands text tokens) (g.forStatement c) := by
  intro s h
  refine .position (h.first (expect_passes rfl) fun _ t ht _ => ?_)
  refine ht.next (expect_passes rfl).stays fun _ u hu _ => .current ?_
  have hAbsent : ∀ c ∈ Child.forHead .absent, c.node.AllLined text tokens :=
    List.forall_mem_nil _
  split
  · exact hg.forRest c _ hAbsent u hu.shows
  · exact hg.forVariables c _ u hu.shows
  · exact hg.forExpression c _ u hu.shows

/-- A label is read only from the line of the word before it. -/
theorem jumpLabel (c : Context) (h : Shows tokens s) (hTook : Took s t) {word : Keyword}
    (hType : s.current.type = .keyword word) :
    Yields (Grammar.jumpLabel c) t fun label u => Passed tokens u ∧
      ∀ id ∈ label, ∀ stop, (Span.mk s.current.startPlace stop).Jumps text tokens word id := by
  have ht := hTook.passed h
  refine .current ?_
  split
  case isTrue => exact .pure ⟨ht, nofun⟩
  case isFalse hGoes =>
    simp only [Bool.or_eq_true, decide_eq_true_eq, not_or, Bool.not_eq_true] at hGoes
    refine ht.ready.name.bind fun label u hu => .check (.pure ⟨hu.2.passed ht.shows, ?_⟩)
    rintro id ⟨⟩ stop
    exact hTook.jumps h hg.noted hType hGoes.2 hu.1

theorem continueStatement (c : Context) :
    Passes tokens (Stands text tokens) (Grammar.continueStatement c) := by
  intro s h
  refine .position ((h.ready.expect rfl).bind fun _ t ht => ?_)
  obtain ⟨-, hType, hTook⟩ := ht
  refine (hg.jumpLabel c h hTook hType).bind fun label u hu => .check ?_
  refine (hu.1.semicolon hg.noted).bind fun _ v hv => .spanFrom (.pure ⟨hv.1, ?_⟩)
  refine .of rfl (hv.2 _) (lined_simple rfl ?_ (lined_ident label))
  cases label with
  | none => exact trivial
  | some id => exact hu.2 id rfl _

theorem breakStatement (c : Context) :
    Passes tokens (Stands text tokens) (Grammar.breakStatement c) := by
  intro s h
  refine .position ((h.ready.expect rfl).bind fun _ t ht => ?_)
  obtain ⟨-, hType, hTook⟩ := ht
  refine (hg.jumpLabel c h hTook hType).bind fun label u hu => .check ?_
  refine (hu.1.semicolon hg.noted).bind fun _ v hv => .spanFrom (.pure ⟨hv.1, ?_⟩)
  refine .of rfl (hv.2 _) (lined_simple rfl ?_ (lined_ident label))
  cases label with
  | none => exact trivial
  | some id => exact hu.2 id rfl _

theorem returnStatement (c : Context) :
    Passes tokens (Stands text tokens) (g.returnStatement c) := by
  intro s h
  refine .position ((h.ready.expect rfl).bind fun _ t ht => .check ?_)
  obtain ⟨-, hType, hTook⟩ := ht
  have ht := hTook.passed h
  refine atStatementEnd_yields.bind fun b u hu => ?_
  obtain ⟨rfl, hLine⟩ := hu
  refine .branch (Q := fun argument v => Passed tokens v ∧ ∀ e, argument = .holds e →
    u.current.newlineBefore = false ∧ Opens e.span.start u ∧ (Node.expr e).AllLined text tokens) ?_
    fun argument v hv => ?_
  · cases b with
    | true => exact .pure ⟨ht, nofun⟩
    | false =>
      refine (hg.expression false u ht.shows).map fun e v hv => ⟨hv.passed, ?_⟩
      rintro _ ⟨⟩
      exact ⟨hLine rfl, hv.opens, hv.lined⟩
  · refine (hv.1.semicolon hg.noted).bind fun _ w hw => .spanFrom (.pure ⟨hw.1, ?_⟩)
    cases argument with
    | holds e =>
      obtain ⟨hLine, hOpens, hLined⟩ := hv.2 e rfl
      exact .of rfl (hw.2 _) (lined_simple rfl (hTook.leads h hg.noted hType hLine hOpens)
        (lined_slot hLined))
    | _ => exact .of rfl (hw.2 _) (lined_simple rfl trivial (List.forall_mem_nil _))

theorem throwStatement : Passes tokens (Stands text tokens) g.throwStatement := by
  intro s h
  refine .position ((h.ready.expect rfl).bind fun _ t ht => .current ?_)
  obtain ⟨-, hType, hTook⟩ := ht
  show Yields (if t.current.newlineBefore = true then _ else _) t _
  split
  case isTrue => exact .failed
  case isFalse hLine =>
    refine (hg.expression false t (hTook.passed h).shows).bind fun e u hu => ?_
    refine (hu.passed.semicolon hg.noted).bind fun _ v hv => .spanFrom (.pure ⟨hv.1, ?_⟩)
    exact .of rfl (hv.2 _) (lined_simple rfl
      (hTook.leads h hg.noted hType (Bool.eq_false_iff.mpr hLine) hu.opens) (lined_slot hu.lined))

theorem debuggerStatement (h : Shows tokens s) (hType : s.current.type ≠ .endOfInput) :
    Yields Grammar.debuggerStatement s fun a t => Passed tokens t ∧ Stands text tokens a := by
  refine .position ((h.ready.advance hType).bind fun _ t ht => ?_)
  refine ((ht.2.passed h).semicolon hg.noted).bind fun _ u hu => .spanFrom (.pure ⟨hu.1, ?_⟩)
  exact .of rfl (hu.2 _) (lined_simple rfl trivial (List.forall_mem_nil _))

theorem functionDeclaration : Passes tokens (Stands text tokens) g.functionDeclaration := by
  intro s h
  refine .position (h.first (expect_passes rfl) fun _ t ht _ => ?_)
  refine ht.next name_passes.stays fun id u hu _ => ?_
  refine hu.next (hg.functionRest (some id)).stays fun fn v hv hfn => .spanFrom (.pure ⟨hv, ?_⟩)
  exact .of rfl trivial (lined_simple rfl trivial hfn)

theorem labeledStatement (c : Context) :
    Passes tokens (Stands text tokens) (g.labeledStatement c) := by
  intro s h
  refine .position (.current (h.first name_passes fun label t ht _ => ?_))
  refine ht.next (expect_passes rfl).stays fun _ u hu _ => .check ?_
  refine hu.next (hg.statement _).stays fun body v hv hBody => .spanFrom (.pure ⟨hv, ?_⟩)
  refine hBody.wrapped rfl trivial rfl trivial ?_
  exact List.forall_mem_append.mpr ⟨lined_ident _, hBody.lined⟩

/-- The test of a clause, which a default clause lacks. -/
theorem caseTest (sawDefault : Bool) :
    Passes tokens (fun test => ∀ c ∈ Child.slot test, c.node.AllLined text tokens)
      (g.caseTest sawDefault) := by
  intro s h
  refine .current ?_
  split
  case h_1 hType =>
    refine (h.ready.advance (by simp [hType])).bind fun _ t ht => ?_
    exact (hg.expression false t (ht.2.passed h).shows).map fun _ _ hu =>
      ⟨hu.passed, lined_slot hu.lined⟩
  case h_2 hType =>
    refine .check ((h.ready.advance (by simp [hType])).bind fun _ t ht => .pure ?_)
    exact ⟨ht.2.passed h, List.forall_mem_nil _⟩
  case h_3 => exact .unexpected

omit hg in
theorem atClauseEnd_stays : Stays tokens (fun _ => True) Grammar.atClauseEnd := by
  intro s h
  refine .current ?_
  split <;> exact .pure ⟨h, trivial⟩

/-- A clause of a switch. -/
theorem clause (c : Context) (sawDefault : Bool) :
    Passes tokens (fun clause => (Node.case clause).AllLined text tokens)
      (g.clause c sawDefault) := by
  intro s h
  refine .position (h.first (hg.caseTest sawDefault) fun test t ht hTest => ?_)
  refine ht.next (expect_passes rfl).stays fun _ u hu _ => ?_
  refine hu.next (many_stays atClauseEnd_stays (hg.inBlock c).stays) fun list v hv hList => ?_
  refine .spanFrom (.pure ⟨hv, .of ⟨fun s hs => (hList s hs).ends, trivial⟩ ?_⟩)
  exact List.forall_mem_append.mpr ⟨hTest, lined_stmts hList⟩

/-- The clauses of a switch with its closing brace. -/
theorem casesIn (c : Context) (n : Nat) (sawDefault : Bool) :
    Stays tokens (fun list => ∀ clause ∈ list, (Node.case clause).AllLined text tokens)
      (g.casesIn c n sawDefault) := by
  induction n generalizing sawDefault with
  | zero => exact fun _ _ => .unexpected
  | succ n ih =>
    refine fun s h => h.next (accept_stays rfl) fun b t ht _ => ?_
    cases b with
    | true => exact .pure ⟨ht, List.forall_mem_nil _⟩
    | false =>
      refine ht.next (hg.clause c sawDefault).stays fun clause u hu hClause => ?_
      refine hu.next (ih _) fun rest v hv hRest => .pure ⟨hv, ?_⟩
      exact List.forall_mem_cons.mpr ⟨hClause, hRest⟩

theorem switchStatement (c : Context) :
    Passes tokens (Stands text tokens) (g.switchStatement c) := by
  intro s h
  refine .position (h.first (expect_passes rfl) fun _ t ht _ => ?_)
  refine ht.next hg.parenthesized.stays fun discriminant u hu hDiscriminant => ?_
  refine hu.next (expect_passes rfl).stays fun _ v hv _ => .rounds fun n => ?_
  refine hv.next (hg.casesIn c.switch n false) fun cases w hw hCases => .spanFrom (.pure ⟨hw, ?_⟩)
  refine .of rfl trivial (lined_simple rfl trivial ?_)
  refine List.forall_mem_append.mpr ⟨lined_slot hDiscriminant, fun c hc => ?_⟩
  obtain ⟨clause, hClause, rfl⟩ := List.mem_map.mp hc
  exact hCases clause hClause

/-- The handler of a try statement, if there is one. -/
theorem catchClause (c : Context) :
    Stays tokens (fun handler => ∀ c ∈ (match handler with
      | .absent => []
      | h => [⟨.handler h, false⟩] : List Child), c.node.AllLined text tokens)
      (g.catchClause c) := by
  refine fun s h => .sees fun b hb => ?_
  cases b with
  | false => exact .pure ⟨h, List.forall_mem_nil _⟩
  | true =>
    have hType : s.current.type = .keyword .kwCatch := by simpa using hb.symm
    refine .position ((h.ready.advance (by simp [hType])).bind fun _ t ht => ?_)
    refine (ht.2.passed h.shows).next (expect_passes rfl).stays fun _ u hu _ => ?_
    refine hu.next name_passes.stays fun param v hv _ => ?_
    refine hv.next (expect_passes rfl).stays fun _ w hw _ => ?_
    refine hw.next (hg.block c).stays fun body x hx hBody => .spanFrom ?_
    refine (hx.slot _).bind fun target y hy => .pure ?_
    obtain ⟨rfl, hy⟩ := hy
    refine ⟨hy, List.forall_mem_singleton.mpr (.of ⟨List.forall_mem_nil _, trivial⟩ ?_)⟩
    exact List.forall_mem_append.mpr ⟨lined_slot (.ofExpr trivial (List.forall_mem_nil _)),
      List.forall_mem_singleton.mpr hBody⟩

theorem tryStatement (c : Context) : Passes tokens (Stands text tokens) (g.tryStatement c) := by
  intro s h
  refine .position (h.first (expect_passes rfl) fun _ t ht _ => ?_)
  refine ht.next (hg.block c).stays fun body u hu hBody => ?_
  have hBody : ∀ c ∈ Child.block (.braces body.1 body.2), c.node.AllLined text tokens :=
    List.forall_mem_singleton.mpr hBody
  refine hu.next (hg.catchClause c) fun handler v hv hHandler => ?_
  refine hv.next (accept_stays rfl) fun b w hw _ => ?_
  cases b with
  | true =>
    refine hw.next (hg.block c).stays fun final x hx hFinal => .spanFrom (.pure ⟨hx, ?_⟩)
    have hFinal : ∀ c ∈ Child.block (.braces final.1 final.2), c.node.AllLined text tokens :=
      List.forall_mem_singleton.mpr hFinal
    refine .of rfl trivial (lined_simple rfl trivial ?_)
    exact List.forall_mem_append.mpr ⟨List.forall_mem_append.mpr ⟨hBody, hHandler⟩, hFinal⟩
  | false =>
    cases handler with
    | absent => exact .failAt
    | clause span param handlerBody =>
      refine .spanFrom (.pure ⟨hw, .of rfl trivial (lined_simple rfl trivial ?_)⟩)
      exact List.forall_mem_append.mpr
        ⟨List.forall_mem_append.mpr ⟨hBody, hHandler⟩, List.forall_mem_nil _⟩

theorem statementRule (c : Context) : Passes tokens (Stands text tokens) (g.statementRule c) := by
  intro s h
  refine .current ?_
  cases hType : s.current.type with
  | punctuator mark =>
    cases mark with
    | leftBrace => exact hg.blockStatement c s h
    | semicolon => exact emptyStatement h (by simp [hType])
    | _ => exact hg.expressionStatement s h
  | keyword word =>
    cases word with
    | kwVar => exact hg.variableStatement s h
    | kwIf => exact hg.ifStatement c s h
    | kwFor => exact hg.forStatement c s h
    | kwWhile => exact hg.whileStatement c s h
    | kwDo => exact hg.doWhileStatement c s h
    | kwContinue => exact hg.continueStatement c s h
    | kwBreak => exact hg.breakStatement c s h
    | kwReturn => exact hg.returnStatement c s h
    | kwWith => exact hg.withStatement c s h
    | kwSwitch => exact hg.switchStatement c s h
    | kwThrow => exact hg.throwStatement s h
    | kwTry => exact hg.tryStatement c s h
    | kwDebugger => exact hg.debuggerStatement h (by simp [hType])
    | kwFunction => exact hg.functionDeclaration s h
    | _ => exact hg.expressionStatement s h
  | identifier =>
    refine .got ?_
    cases s.upcoming.head? with
    | none => exact hg.expressionStatement s h
    | some t =>
      dsimp only
      split
      · exact hg.labeledStatement c s h
      · exact hg.expressionStatement s h
  | _ => exact hg.expressionStatement s h

theorem around : Lines text tokens g.around where
  noted := hg.noted
  assignment := hg.assignmentRule
  binary := hg.binaryRule
  unary := hg.unaryRule
  construct := hg.constructRule
  statement := hg.statementRule

omit hg in
/-- The rules of every nesting keep to the rules about lines. -/
theorem nested (h : Noted text tokens) (n : Nat) : Lines text tokens (Grammar.nested n) := by
  induction n with
  | zero => exact .empty h
  | succ n ih => exact ih.around

theorem program (h : Shows tokens s) :
    Yields g.program s fun p _ => (Node.program p).AllLined text tokens := by
  have hItem (s : Stream) (h : Shows tokens s) :
      Yields (g.statement Context.program) s fun a t => Shows tokens t ∧ Stands text tokens a :=
    (hg.statement _ s h).mono fun _ _ ht => ⟨ht.1.shows, ht.2⟩
  refine .position ((many_until_good hItem h).bind fun body t ht => .position (.pure ?_))
  exact .of ⟨fun s hs => (ht.2.2 s hs).ends, trivial⟩ (lined_stmts ht.2.2)

end Lines

end Parse

end ScriptOptimizer
