import ScriptOptimizer.Proofs.Parse.ExtentExpression

/-!
The rules for statements read the nodes of their trees, and so do the rules of every nesting.
-/

namespace ScriptOptimizer

namespace Parse

/-- An expression in a slot that may stay absent. -/
theorem Started.optional {s t : Stream} {xs : List Part} {p : Parse Expr} {b : Bool}
    (h : Started s t xs) (hp : Starter Part.expr p) :
    Yields (if b then pure .absent else Slot.holds <$> p) t fun slot u =>
      Started s u (xs ++ Part.ofChildren (Child.slot slot)) := by
  cases b with
  | true =>
    have hnone : Started s t (xs ++ []) := by rwa [List.append_nil]
    exact .pure hnone
  | false => exact (hp t h.ready).map fun _ _ hu => h.trans hu.toReads

namespace Extents

variable {g : Grammar} (hg : Extents g)

include hg

theorem parenthesized : Starter Part.expr g.parenthesized := by
  intro s h
  refine h.first (expect_starter rfl) fun _ t ht => ?_
  refine ht.next (hg.expression false).reader fun e u hu => ?_
  exact hu.next (expect_starter rfl).reader fun _ v hv => .pure hv

theorem blockStatement (c : Context) : Starter Part.stmt (g.blockStatement c) :=
  fun _ h => h.first (hg.block c) fun _ _ ht => .pure ht

/-- A declarator, whose initializer may be missing. -/
theorem declarator (noIn : Bool) :
    Starter (fun d => [⟨.declarator d, false⟩]) (g.declarator noIn) := by
  intro s h
  refine .position (h.first (name_starter false) fun id t ht => ?_)
  refine ht.next (accept_reader rfl) fun b u hu => ?_
  refine .branch (Q := fun init v => Started s v
    (Part.expr (.ident id) ++ Part.ofChildren (Child.slot init))) ?_ fun init v hv => .spanFrom ?_
  · cases b with
    | true => exact (hg.assignment noIn u hu.ready).map fun _ _ hv => hu.trans hv.toReads
    | false => exact .pure hu
  · have hclosed : Started s v [⟨.declarator (.bind ⟨s.current.startPlace, v.stop⟩
        (.holds (.ident id)) init), false⟩] := hv.close_from rfl rfl rfl rfl
    exact hclosed.counted _

/-- A declaration without its end. -/
theorem declarators (noIn : Bool) {s : Stream} (h : Ready s) :
    Yields (g.declarators noIn) s fun d t => d.1 = s.current.startPlace ∧
      Started s t (Part.ofChildren (Child.declarators d.2)) := by
  refine .position (h.first (expect_starter rfl) fun _ t ht => ?_)
  refine ht.next (hg.declarator noIn).reader fun first u hu => ?_
  refine hu.next (whileCommas_reader (hg.declarator noIn).reader) fun rest v hv => .pure ⟨rfl, ?_⟩
  rw [Part.ofChildren_declarators]
  exact hv

theorem variableStatement : Starter Part.stmt g.variableStatement := by
  intro s h
  refine (hg.declarators false h).bind fun d t ht => ?_
  obtain ⟨start, list⟩ := d
  obtain ⟨rfl, ht⟩ := ht
  refine (semicolon_reader t ht.ready).bind fun _ u hu => .spanFrom (.pure ?_)
  have hread := ht.trans hu
  rw [List.append_nil] at hread
  exact hread.close_from rfl rfl rfl rfl

omit hg in
theorem emptyStatement {s : Stream} (h : Ready s) (hmark : s.current.type.isMark = true) :
    Yields Grammar.emptyStatement s fun a t => Started s t (Part.stmt a) := by
  refine (h.advance (ne_endOfInput hmark)).bind fun a t hTook => .pure ?_
  obtain ⟨rfl, hTook⟩ := hTook
  have hspan : s.current.span = ⟨s.current.startPlace, t.stop⟩ := by
    rw [hTook.stop_eq]
    rfl
  exact (hTook.mark hmark).close_from rfl rfl rfl hspan

theorem expressionStatement : Starter Part.stmt g.expressionStatement := by
  intro s h
  refine .position (h.first (hg.expression false) fun e t ht => ?_)
  refine ht.next semicolon_reader fun _ u hu => .spanFrom (.pure ?_)
  exact hu.close_from rfl rfl rfl rfl

theorem ifStatement (c : Context) : Starter Part.stmt (g.ifStatement c) := by
  intro s h
  refine .position (h.first (expect_starter rfl) fun _ t ht => ?_)
  refine ht.next hg.parenthesized.reader fun test u hu => ?_
  refine hu.next (hg.statement c).reader fun consequent v hv => ?_
  refine hv.next (accept_reader rfl) fun b w hw => ?_
  rw [List.append_nil] at hw
  refine .branch (Q := fun alternate x => Started s x
    (Part.expr test ++ Part.stmt consequent ++ Part.stmt alternate)) ?_ fun alternate x hx =>
      .spanFrom (.pure ?_)
  · cases b with
    | true => exact (hg.statement c w hw.ready).mono fun _ _ hx => hw.trans hx.toReads
    | false =>
      refine .pure ?_
      show Started s w (_ ++ [])
      rw [List.append_nil]
      exact hw
  · refine hx.close_from ?_ rfl rfl rfl
    simp only [Node.parts, Node.children, Child.ofStmt, Part.ofChildren_append]
    rfl

theorem whileStatement (c : Context) : Starter Part.stmt (g.whileStatement c) := by
  intro s h
  refine .position (h.first (expect_starter rfl) fun _ t ht => ?_)
  refine ht.next hg.parenthesized.reader fun test u hu => ?_
  refine hu.next (hg.statement c.loop).reader fun body v hv => .spanFrom (.pure ?_)
  exact hv.close_from rfl rfl rfl rfl

theorem doWhileStatement (c : Context) : Starter Part.stmt (g.doWhileStatement c) := by
  intro s h
  refine .position (h.first (expect_starter rfl) fun _ t ht => ?_)
  refine ht.next (hg.statement c.loop).reader fun body u hu => ?_
  refine hu.next (expect_starter rfl).reader fun _ v hv => ?_
  refine hv.next hg.parenthesized.reader fun test w hw => ?_
  refine hw.next (accept_reader rfl) fun _ x hx => .spanFrom (.pure ?_)
  rw [List.append_nil, List.append_nil] at hx
  refine hx.close_from ?_ rfl rfl rfl
  simp only [Node.parts, Node.children, Child.ofStmt, Part.ofChildren_append]
  rfl

theorem withStatement (c : Context) : Starter Part.stmt (g.withStatement c) := by
  intro s h
  refine .position (h.first (expect_starter rfl) fun _ t ht => ?_)
  refine ht.next hg.parenthesized.reader fun object u hu => ?_
  refine hu.next (hg.statement c).reader fun body v hv => .spanFrom (.pure ?_)
  exact hv.close_from rfl rfl rfl rfl

/-- The rest of a for-in loop, after what its head starts with. -/
theorem forInRest (c : Context) {left : ForHead} {s t : Stream}
    (h : Started s t (Part.ofChildren (Child.forHead left))) :
    Yields (g.forInRest c s.current.startPlace left) t fun a u => Started s u (Part.stmt a) := by
  refine h.next (expect_starter rfl).reader fun _ u hu => ?_
  refine hu.next (hg.expression false).reader fun right v hv => ?_
  refine hv.next (expect_starter rfl).reader fun _ w hw => ?_
  refine hw.next (hg.statement c.loop).reader fun body x hx => .spanFrom (.pure ?_)
  rw [List.append_nil, List.append_nil] at hx
  refine hx.close_from ?_ rfl rfl rfl
  simp only [Node.parts, Node.children, Child.ofStmt, Part.ofChildren_append]
  rfl

/-- The rest of a `for` loop, after what its head starts with. -/
theorem forRest (c : Context) {init : ForHead} {s t : Stream}
    (h : Started s t (Part.ofChildren (Child.forHead init))) :
    Yields (g.forRest c s.current.startPlace init) t fun a u => Started s u (Part.stmt a) := by
  refine h.next (expect_starter rfl).reader fun _ u hu => .sees fun b _ => ?_
  rw [List.append_nil] at hu
  refine .branch (hu.optional (hg.expression false)) fun test v hv => ?_
  refine hv.next (expect_starter rfl).reader fun _ w hw => .sees fun b _ => ?_
  rw [List.append_nil] at hw
  refine .branch (hw.optional (hg.expression false)) fun update x hx => ?_
  refine hx.next (expect_starter rfl).reader fun _ y hy => ?_
  refine hy.next (hg.statement c.loop).reader fun body z hz => .spanFrom (.pure ?_)
  rw [List.append_nil] at hz
  refine hz.close_from ?_ rfl rfl rfl
  simp only [Node.parts, Node.children, Child.ofStmt, Part.ofChildren_append]

/-- A loop whose head starts with a declaration. -/
theorem forVariables (c : Context) {s t : Stream} (h : Started s t []) :
    Yields (g.forVariables c s.current.startPlace) t fun a u => Started s u (Part.stmt a) := by
  refine (hg.declarators true h.ready).bind fun d u hu => .spanFrom (.sees fun b _ => ?_)
  obtain ⟨start, list⟩ := d
  obtain ⟨rfl, hu⟩ := hu
  have hhead : Started t u (Part.ofChildren (Child.forHead (.declaration
      ⟨t.current.startPlace, u.stop⟩ "var" list))) := hu.close_from rfl rfl rfl rfl
  have hread := h.trans hhead.toReads
  cases b with
  | true =>
    show Yields (if list.length ≠ 1 then _ else _) u _
    split
    · exact .current .failed
    · exact hg.forInRest c hread
  | false => exact hg.forRest c hread

/-- A loop whose head starts with an expression. -/
theorem forExpression (c : Context) {s t : Stream} (h : Started s t []) :
    Yields (g.forExpression c s.current.startPlace) t fun a u => Started s u (Part.stmt a) := by
  refine .current (h.next (hg.expression true).reader fun e u hu => .sees fun b _ => ?_)
  have hhead : Started s u (Part.ofChildren (Child.forHead (.expression (.holds e)))) := hu
  cases b with
  | true =>
    show Yields (if (!e.isAssignable) = true then _ else _) u _
    split
    · exact .failed
    · exact hg.forInRest c hhead
  | false => exact hg.forRest c hhead

theorem forStatement (c : Context) : Starter Part.stmt (g.forStatement c) := by
  intro s h
  refine .position (h.first (expect_starter rfl) fun _ t ht => ?_)
  refine ht.next (expect_starter rfl).reader fun _ u hu => .current ?_
  split
  · exact hg.forRest c hu
  · exact hg.forVariables c hu
  · exact hg.forExpression c hu

omit hg in
theorem jumpLabel (c : Context) :
    Reader (fun label => Part.ofChildren (Child.ident label)) (Grammar.jumpLabel c) := by
  intro s h
  refine .current ?_
  split
  · exact .pure (.refl h)
  · exact h.first (name_starter false) fun label t ht => .check (.pure ht.toReads)

omit hg in
theorem continueStatement (c : Context) : Starter Part.stmt (Grammar.continueStatement c) := by
  intro s h
  refine .position (h.first (expect_starter rfl) fun _ t ht => ?_)
  refine ht.next (jumpLabel c) fun label u hu => .check ?_
  refine hu.next semicolon_reader fun _ v hv => .spanFrom (.pure ?_)
  rw [List.append_nil] at hv
  exact hv.close_from rfl rfl rfl rfl

omit hg in
theorem breakStatement (c : Context) : Starter Part.stmt (Grammar.breakStatement c) := by
  intro s h
  refine .position (h.first (expect_starter rfl) fun _ t ht => ?_)
  refine ht.next (jumpLabel c) fun label u hu => .check ?_
  refine hu.next semicolon_reader fun _ v hv => .spanFrom (.pure ?_)
  rw [List.append_nil] at hv
  exact hv.close_from rfl rfl rfl rfl

theorem returnStatement (c : Context) : Starter Part.stmt (g.returnStatement c) := by
  intro s h
  refine .position (h.first (expect_starter rfl) fun _ t ht => .check ?_)
  refine ht.next atStatementEnd_reader fun b u hu => ?_
  rw [List.append_nil] at hu
  refine .branch (hu.optional (hg.expression false)) fun argument v hv => ?_
  refine hv.next semicolon_reader fun _ w hw => .spanFrom (.pure ?_)
  rw [List.append_nil] at hw
  exact hw.close_from rfl rfl rfl rfl

theorem throwStatement : Starter Part.stmt g.throwStatement := by
  intro s h
  refine .position (h.first (expect_starter rfl) fun _ t ht => .current (.check ?_))
  refine ht.next (hg.expression false).reader fun e u hu => ?_
  refine hu.next semicolon_reader fun _ v hv => .spanFrom (.pure ?_)
  exact hv.close_from rfl rfl rfl rfl

omit hg in
theorem debuggerStatement {s : Stream} (h : Ready s) (hmark : s.current.type.isMark = true) :
    Yields Grammar.debuggerStatement s fun a t => Started s t (Part.stmt a) := by
  refine .position ((h.advance (ne_endOfInput hmark)).bind fun _ t hTook => ?_)
  refine (hTook.2.mark hmark).next semicolon_reader fun _ u hu => .spanFrom (.pure ?_)
  exact hu.close_from rfl rfl rfl rfl

theorem functionDeclaration : Starter Part.stmt g.functionDeclaration := by
  intro s h
  refine .position (h.first (expect_starter rfl) fun _ t ht => ?_)
  refine ht.next (name_starter false).reader fun id u hu => ?_
  refine (hg.functionRest (some id) hu.ready).bind fun fn v hv => .spanFrom (.pure ?_)
  obtain ⟨xs, hxs, hparts⟩ := hv
  exact (hu.trans hxs.toReads).close_from hparts rfl rfl rfl

theorem labeledStatement (c : Context) : Starter Part.stmt (g.labeledStatement c) := by
  intro s h
  refine .position (.current (h.first (name_starter false) fun label t ht => ?_))
  refine ht.next (expect_starter rfl).reader fun _ u hu => .check ?_
  refine hu.next (hg.statement _).reader fun body v hv => .spanFrom (.pure ?_)
  exact hv.close_from rfl rfl rfl rfl

/-- The test of a clause, which a default clause lacks. -/
theorem caseTest (sawDefault : Bool) :
    Starter (fun test => Part.ofChildren (Child.slot test)) (g.caseTest sawDefault) := by
  intro s h
  refine .current ?_
  split
  · rename_i htype
    have hmark : s.current.type.isMark = true := by rw [htype]; rfl
    refine (h.advance (ne_endOfInput hmark)).bind fun _ t hTook => ?_
    have ht := hTook.2.mark hmark
    exact (hg.expression false t ht.ready).map fun _ _ hu => ht.trans hu.toReads
  · rename_i htype
    have hmark : s.current.type.isMark = true := by rw [htype]; rfl
    refine .check ((h.advance (ne_endOfInput hmark)).bind fun _ t hTook => .pure ?_)
    exact hTook.2.mark hmark
  · exact .unexpected

omit hg in
theorem atClauseEnd_reader : Reader (fun _ => []) Grammar.atClauseEnd := by
  intro s h
  refine .current ?_
  split <;> exact .pure (.refl h)

/-- A clause of a switch. -/
theorem clause (c : Context) (sawDefault : Bool) :
    Starter (fun clause => [⟨.case clause, false⟩]) (g.clause c sawDefault) := by
  intro s h
  refine .position (h.first (hg.caseTest sawDefault) fun test t ht => ?_)
  refine ht.next (expect_starter rfl).reader fun _ u hu => ?_
  refine hu.next (many_reader atClauseEnd_reader (hg.inBlock c).reader) fun consequent v hv => ?_
  refine .spanFrom (.pure ?_)
  rw [List.append_nil] at hv
  refine hv.close_from ?_ rfl rfl rfl
  simp only [Node.parts, Node.children, Part.ofChildren_append, Part.ofChildren_stmts]

/-- The clauses of a switch with its closing brace. -/
theorem casesIn (c : Context) (n : Nat) (sawDefault : Bool) :
    Reader (fun list => list.flatMap fun clause => [⟨.case clause, false⟩])
      (g.casesIn c n sawDefault) := by
  induction n generalizing sawDefault with
  | zero => exact fun _ _ => .unexpected
  | succ n ih =>
    refine fun s h => (accept_reader rfl s h).bind fun b t ht => ?_
    cases b with
    | true => exact .pure ht
    | false =>
      refine ht.ready.first (hg.clause c sawDefault) fun clause u hu => ?_
      exact (ih _ u hu.ready).bind fun rest v hv => .pure (ht.trans (hu.toReads.trans hv))

theorem switchStatement (c : Context) : Starter Part.stmt (g.switchStatement c) := by
  intro s h
  refine .position (h.first (expect_starter rfl) fun _ t ht => ?_)
  refine ht.next hg.parenthesized.reader fun discriminant u hu => ?_
  refine hu.next (expect_starter rfl).reader fun _ v hv => .rounds fun n => ?_
  refine hv.next (hg.casesIn c.switch n false) fun cases w hw => .spanFrom (.pure ?_)
  refine hw.close_from ?_ rfl rfl rfl
  simp only [Node.parts, Node.children, Child.ofStmt, Part.ofChildren_append,
    Part.ofChildren_cases]
  rfl

/-- The handler of a try statement, if there is one. -/
theorem catchClause (c : Context) :
    Reader (fun handler => Part.ofChildren (match handler with
      | .absent => []
      | h => [⟨.handler h, false⟩])) (g.catchClause c) := by
  refine fun s h => .sees fun b hb => ?_
  cases b with
  | false => exact .pure (.refl h)
  | true =>
    have hmark : s.current.type.isMark = true := by
      have htype : s.current.type = .keyword .kwCatch := by simpa using hb.symm
      rw [htype]
      rfl
    refine .position ((h.advance (ne_endOfInput hmark)).bind fun _ t hTook => ?_)
    refine (hTook.2.mark hmark).next (expect_starter rfl).reader fun _ u hu => ?_
    refine hu.next (name_starter false).reader fun param v hv => ?_
    refine hv.next (expect_starter rfl).reader fun _ w hw => ?_
    refine hw.next (hg.block c).reader fun body x hx => .spanFrom ?_
    have hclosed : Started s x [⟨.handler (.clause ⟨s.current.startPlace, x.stop⟩
        (.holds (.ident param)) (.braces body.1 body.2)), false⟩] :=
      hx.close_from rfl rfl rfl rfl
    exact (hclosed.counted _).toReads

theorem tryStatement (c : Context) : Starter Part.stmt (g.tryStatement c) := by
  intro s h
  refine .position (h.first (expect_starter rfl) fun _ t ht => ?_)
  refine ht.next (hg.block c).reader fun body u hu => ?_
  refine hu.next (hg.catchClause c) fun handler v hv => ?_
  refine hv.next (accept_reader rfl) fun b w hw => ?_
  rw [List.append_nil] at hw
  cases b with
  | true =>
    refine hw.next (hg.block c).reader fun final x hx => .spanFrom (.pure ?_)
    refine hx.close_from ?_ rfl rfl rfl
    simp only [Node.parts, Node.children, Child.ofStmt, Part.ofChildren_append]
    rfl
  | false =>
    cases handler with
    | absent => exact .failAt
    | clause span param handlerBody =>
      refine .spanFrom (.pure ?_)
      exact hw.close_from rfl rfl rfl rfl

theorem statementRule (c : Context) : Starter Part.stmt (g.statementRule c) := by
  intro s h
  refine .current ?_
  cases htype : s.current.type with
  | punctuator p =>
    cases p with
    | leftBrace => exact hg.blockStatement c s h
    | semicolon => exact emptyStatement h (by rw [htype]; rfl)
    | _ => exact hg.expressionStatement s h
  | keyword k =>
    cases k with
    | kwVar => exact hg.variableStatement s h
    | kwIf => exact hg.ifStatement c s h
    | kwFor => exact hg.forStatement c s h
    | kwWhile => exact hg.whileStatement c s h
    | kwDo => exact hg.doWhileStatement c s h
    | kwContinue => exact continueStatement c s h
    | kwBreak => exact breakStatement c s h
    | kwReturn => exact hg.returnStatement c s h
    | kwWith => exact hg.withStatement c s h
    | kwSwitch => exact hg.switchStatement c s h
    | kwThrow => exact hg.throwStatement s h
    | kwTry => exact hg.tryStatement c s h
    | kwDebugger => exact debuggerStatement h (by rw [htype]; rfl)
    | kwFunction => exact hg.functionDeclaration s h
    | _ => exact hg.expressionStatement s h
  | identifier =>
    refine .got ?_
    cases s.upcoming.head? with
    | none => exact hg.expressionStatement s h
    | some t =>
      dsimp only
      split
      · exact hg.labeledStatement c s h
      · exact hg.expressionStatement s h
  | _ => exact hg.expressionStatement s h

theorem around : Extents g.around where
  assignment := hg.assignmentRule
  binary := hg.binaryRule
  unary := hg.unaryRule
  construct := hg.constructRule
  statement := hg.statementRule

omit hg in
/-- The rules of every nesting read the nodes of their trees. -/
theorem nested (n : Nat) : Extents (Grammar.nested n) := by
  induction n with
  | zero => exact .empty
  | succ n ih => exact ih.around

/-- A program is read from all tokens up to the end of input, and its range reaches from the first
token to the end of input. -/
theorem program {s : Stream} (h : Ready s) :
    Yields g.program s fun p t => Reads s t (Node.program p).parts ∧
      t.current.type = .endOfInput ∧ p.span = ⟨s.current.startPlace, t.current.startPlace⟩ := by
  refine .position ((many_until (hg.statement _).reader h).bind fun body t ht => .position ?_)
  refine .pure ⟨?_, ht.2, rfl⟩
  have hparts : (Node.program ⟨⟨s.current.startPlace, t.current.startPlace⟩, body⟩).parts =
      body.flatMap Part.stmt := Part.ofChildren_stmts body
  rw [hparts]
  exact ht.1

end Extents

end Parse

end ScriptOptimizer
