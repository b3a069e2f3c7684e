import ScriptOptimizer.Proofs.Parse.PairedExpression

/-!
Statements side by side, and the whole grammar: at every depth of nesting its rules give trees that
differ in places only and are formed from the tokens of the first text.
-/

namespace ScriptOptimizer

namespace Pairing

variable {P : Pairing} {s u : Stream} {g : Grammar} {noIn : Bool} {c : Context}

/-- Declarators that belong together. -/
def Declarators (P : Pairing) (a b : Declarator) : Prop :=
  Twins Declarator.bare (Declarator.Formed P.tokens) a b

/-- Slots that belong together, of which both may be absent. -/
def Slots (P : Pairing) (a b : Slot) (_ : Stream) : Prop :=
  Twins Slot.bare (Slot.Optional P.tokens) a b

/-- Loop heads that belong together. -/
def Heads (P : Pairing) (a b : ForHead) : Prop :=
  Twins ForHead.bare (ForHead.Formed P.tokens) a b

/-- An expression is put in a slot that may be absent. -/
theorem Outcomes.held {p p' : Parse Expr} (h : P.Outcomes false P.Exprs (p s) (p' u)) :
    P.Outcomes false P.Slots ((Slot.holds <$> p) s) ((Slot.holds <$> p') u) := by
  refine .map h fun a b _ hExpr => ⟨?_, hExpr.formed⟩
  rw [Alike, Slot.bare, Slot.bare, hExpr.alike]

namespace Rules

variable (hRules : P.Rules g)
include hRules

theorem parenthesized : P.Agree P.Exprs g.parenthesized g.parenthesized := by
  refine fun h => .bind (h.expect (by simp)) fun _ _ s u _ h => ?_
  refine .bind (hRules.expression false h) fun a b s u he h => ?_
  exact .bind (h.expect (by simp)) fun _ _ _ _ _ h => .pure he h

theorem blockStatement (c : Context) :
    P.Agree (P.Stmts c) (g.blockStatement c) (g.blockStatement c) := by
  refine fun h => .bind (hRules.block c h) fun a b s u hBody h => .pure ⟨⟨?_, ?_⟩, nofun⟩ h
  · rw [Alike, Stmt.bare, Stmt.bare, (Twins.statements hBody).1]
  · exact (Twins.statements hBody).2

theorem declarator (noIn : Bool) :
    P.Agree (fun a b _ => P.Declarators a b) (g.declarator noIn) (g.declarator noIn) := by
  intro s u h
  refine Streams.position (.bind h.name fun id id' s u hId h => ?_)
  refine .bind (h.accept (by simp)) fun b b' s u hb h => ?_
  obtain rfl : b = b' := hb.1
  refine .branch (Q := P.Slots) ?_ fun init init' s u hInit h => ?_
  · cases b with
    | true => exact (hRules.assignment noIn h).held
    | false => exact .pure ⟨rfl, trivial⟩ h
  · refine Streams.spanFrom (h.slotted fun s u h => .pure ⟨?_, hId.formed, hInit.formed⟩ h)
    rw [Alike, Declarator.bare, Declarator.bare, Slot.bare, Slot.bare, Expr.bare, Expr.bare,
      hId.alike, hInit.alike]

theorem declarators (noIn : Bool) :
    P.Agree (fun a b _ => List.Forall₂ P.Declarators a.2 b.2 ∧ a.2 ≠ [])
      (g.declarators noIn) (g.declarators noIn) := by
  intro s u h
  refine Streams.position (.bind (h.expect (by simp)) fun _ _ s u _ h => ?_)
  refine .bind (hRules.declarator noIn h) fun d d' s u hd h => ?_
  refine .bind (h.commaTail (hRules.declarator noIn)) fun ds ds' s u hds h => ?_
  exact .pure ⟨.cons hd hds.1, by simp⟩ h

theorem variableStatement (c : Context) :
    P.Agree (P.Stmts c) g.variableStatement g.variableStatement := by
  refine fun h => .bind (hRules.declarators false h) fun a b s u hList h => ?_
  refine .bind h.semicolon fun _ _ s u _ h => Streams.spanFrom (.pure ⟨⟨?_, ?_⟩, nofun⟩ h)
  · rw [Alike, Stmt.bare, Stmt.bare, Declarator.bares_eq_map, Declarator.bares_eq_map,
      Twins.all_alike hList.1]
  · exact ⟨rfl, hList.2, Declarator.allFormed_iff.mpr (Twins.all_formed hList.1)⟩

omit hRules in
theorem emptyStatement (c : Context) (h : P.Streams false s u)
    (hType : s.current.type ≠ .punctuator .dot) :
    P.Outcomes false (P.Stmts c) (Grammar.emptyStatement s) (Grammar.emptyStatement u) := by
  refine .bind (h.advance hType) fun _ _ _ _ _ h => .pure ⟨⟨?_, trivial⟩, nofun⟩ h
  rw [Alike, Stmt.bare, Stmt.bare]

theorem expressionStatement (c : Context) :
    P.Agree (P.Stmts c) g.expressionStatement g.expressionStatement := by
  refine fun h => Streams.position (.bind (hRules.expression false h) fun e e' s u he h => ?_)
  refine .bind h.semicolon fun _ _ s u _ h =>
    Streams.spanFrom (.pure ⟨⟨?_, he.formed⟩, nofun⟩ h)
  rw [Alike, Stmt.bare, Stmt.bare, Slot.bare, Slot.bare, he.alike]

/-- An `else` belongs to the innermost statement that can take it. -/
theorem ifStatement (c : Context) :
    P.Agree (P.Stmts c) (g.ifStatement c) (g.ifStatement c) := by
  intro s u h
  refine Streams.position (.bind (h.expect (by simp)) fun _ _ s u _ h => ?_)
  refine .bind (hRules.parenthesized h) fun t t' s u ht h => ?_
  refine .bind (hRules.statement c h) fun y y' s u hy h => ?_
  refine .bind (h.accept (by simp)) fun b b' s u hb h => ?_
  obtain ⟨rfl, hElse, hStill⟩ := hb
  refine .branch (Q := fun n n' s => n.bare = n'.bare ∧
    (n = .absent ∨ n.Formed P.tokens c ∧ y.endsOpen = false) ∧
    ((n = .absent ∨ n.endsOpen = true) → s.current.type ≠ .keyword .kwElse)) ?_
    fun n n' s u hn h => Streams.spanFrom (.pure ⟨⟨?_, ?_⟩, ?_⟩ h)
  · cases b with
    | false =>
      refine .pure ⟨rfl, .inl rfl, fun _ => ?_⟩ h
      rw [hStill rfl]
      simpa using hElse.symm
    | true =>
      refine (hRules.statement c h).mono fun n n' s hn => ⟨hn.1.alike, .inr ⟨hn.1.formed, ?_⟩, ?_⟩
      · exact Bool.eq_false_iff.mpr fun hOpen => hy.2 hOpen (by simpa using hElse.symm)
      · rintro (rfl | hOpen)
        · exact hn.1.formed.elim
        · exact hn.2 hOpen
  · rw [Alike, Stmt.bare, Stmt.bare, Slot.bare, Slot.bare, ht.alike, hy.1.alike, hn.1]
  · exact ⟨ht.formed, hy.1.formed, hn.2.1⟩
  · intro hOpen
    refine hn.2.2 ?_
    cases n with
    | absent => exact .inl rfl
    | _ => exact .inr hOpen

theorem whileStatement (c : Context) :
    P.Agree (P.Stmts c) (g.whileStatement c) (g.whileStatement c) := by
  intro s u h
  refine Streams.position (.bind (h.expect (by simp)) fun _ _ s u _ h => ?_)
  refine .bind (hRules.parenthesized h) fun t t' s u ht h => ?_
  refine .bind (hRules.statement c.loop h) fun b b' s u hb h => ?_
  refine Streams.spanFrom (.pure ⟨⟨?_, ht.formed, hb.1.formed⟩, hb.2⟩ h)
  rw [Alike, Stmt.bare, Stmt.bare, Slot.bare, Slot.bare, ht.alike, hb.1.alike]

theorem doWhileStatement (c : Context) :
    P.Agree (P.Stmts c) (g.doWhileStatement c) (g.doWhileStatement c) := by
  intro s u h
  refine Streams.position (.bind (h.expect (by simp)) fun _ _ s u _ h => ?_)
  refine .bind (hRules.statement c.loop h) fun b b' s u hb h => ?_
  refine .bind (h.expect (by simp)) fun _ _ s u _ h => ?_
  refine .bind (hRules.parenthesized h) fun t t' s u ht h => ?_
  refine .bind (h.accept (by simp)) fun _ _ s u _ h => ?_
  refine Streams.spanFrom (.pure ⟨⟨?_, hb.1.formed, ht.formed⟩, nofun⟩ h)
  rw [Alike, Stmt.bare, Stmt.bare, Slot.bare, Slot.bare, ht.alike, hb.1.alike]

theorem withStatement (c : Context) :
    P.Agree (P.Stmts c) (g.withStatement c) (g.withStatement c) := by
  intro s u h
  refine Streams.position (.bind (h.expect (by simp)) fun _ _ s u _ h => ?_)
  refine .bind (hRules.parenthesized h) fun t t' s u ht h => ?_
  refine .bind (hRules.statement c h) fun b b' s u hb h => ?_
  refine Streams.spanFrom (.pure ⟨⟨?_, ht.formed, hb.1.formed⟩, hb.2⟩ h)
  rw [Alike, Stmt.bare, Stmt.bare, Slot.bare, Slot.bare, ht.alike, hb.1.alike]

/-! ### Loops with a head of several parts -/

theorem forInRest {start start' : Place} {head head' : ForHead} (hHead : P.Heads head head')
    (hTarget : ReadsStmt.isTarget head = true) (h : P.Streams false s u) :
    P.Outcomes false (P.Stmts c) (g.forInRest c start head s) (g.forInRest c start' head' u) := by
  refine .bind (h.expect (by simp)) fun _ _ s u _ h => ?_
  refine .bind (hRules.expression false h) fun r r' s u hr h => ?_
  refine .bind (h.expect (by simp)) fun _ _ s u _ h => ?_
  refine .bind (hRules.statement c.loop h) fun b b' s u hb h => ?_
  refine Streams.spanFrom
    (.pure ⟨⟨?_, hHead.formed, hTarget, hr.formed, hb.1.formed⟩, hb.2⟩ h)
  rw [Alike, Stmt.bare, Stmt.bare, Slot.bare, Slot.bare, hHead.alike, hr.alike, hb.1.alike]

/-- A part of a loop head that may be left out before its closing token. -/
theorem headPart {close : TokenType} {f f' : Slot → Parse Stmt} (h : P.Streams false s u)
    (hNext : ∀ a b s u, P.Slots a b s → P.Streams false s u →
      P.Outcomes false (P.Stmts c) (f a s) (f' b u)) :
    P.Outcomes false (P.Stmts c)
      ((do let part ← if ← Parse.sees close then pure Slot.absent
            else Slot.holds <$> g.expression false
           f part) s)
      ((do let part ← if ← Parse.sees close then pure Slot.absent
            else Slot.holds <$> g.expression false
           f' part) u) := by
  refine h.sees _ fun missing _ => .branch (Q := P.Slots) ?_ hNext
  cases missing with
  | true => exact .pure ⟨rfl, trivial⟩ h
  | false => exact (hRules.expression false h).held

theorem forRest {start start' : Place} {head head' : ForHead} (hHead : P.Heads head head')
    (h : P.Streams false s u) :
    P.Outcomes false (P.Stmts c) (g.forRest c start head s) (g.forRest c start' head' u) := by
  refine .bind (h.expect (by simp)) fun _ _ s u _ h => ?_
  refine hRules.headPart h fun t t' s u ht h => ?_
  refine .bind (h.expect (by simp)) fun _ _ s u _ h => ?_
  refine hRules.headPart h fun v v' s u hv h => ?_
  refine .bind (h.expect (by simp)) fun _ _ s u _ h => ?_
  refine .bind (hRules.statement c.loop h) fun b b' s u hb h => ?_
  refine Streams.spanFrom
    (.pure ⟨⟨?_, hHead.formed, ht.formed, hv.formed, hb.1.formed⟩, hb.2⟩ h)
  rw [Alike, Stmt.bare, Stmt.bare, hHead.alike, ht.alike, hv.alike, hb.1.alike]

theorem forVariables {start start' : Place} (h : P.Streams false s u) :
    P.Outcomes false (P.Stmts c) (g.forVariables c start s) (g.forVariables c start' u) := by
  refine .bind (hRules.declarators true h) fun a b s u hList h => Streams.spanFrom ?_
  have hHead (first first' : Place) : P.Heads (.declaration ⟨first, s.stop⟩ "var" a.2)
      (.declaration ⟨first', u.stop⟩ "var" b.2) := by
    refine ⟨?_, rfl, hList.2, Declarator.allFormed_iff.mpr (Twins.all_formed hList.1)⟩
    rw [Alike, ForHead.bare, ForHead.bare, Declarator.bares_eq_map, Declarator.bares_eq_map,
      Twins.all_alike hList.1]
  have hLength : b.2.length = a.2.length := hList.1.length_eq.symm
  refine h.sees _ fun isIn _ => .choice Iff.rfl (fun _ => ?_) fun _ => hRules.forRest (hHead _ _) h
  refine .choice (by rw [hLength]) (fun _ => Streams.current ?_) fun hOne => ?_
  · have hFail : P.Outcomes false (fun _ _ _ => False)
        ((Parse.failAt s.current
          "for-in loop variable declaration may declare only one variable" : Parse Unit) s)
        (Parse.failAt u.current
          "for-in loop variable declaration may declare only one variable" u) := h.failAt h.rel
    exact .bind hFail fun _ _ _ _ hNever _ => hNever.elim
  · exact hRules.forInRest (hHead _ _) (by simpa [ReadsStmt.isTarget] using hOne) h

theorem forExpression {start start' : Place} (h : P.Streams false s u) :
    P.Outcomes false (P.Stmts c) (g.forExpression c start s) (g.forExpression c start' u) := by
  have hFirst := h.rel
  refine Streams.current (.bind (hRules.expression true h) fun e e' s u he h => ?_)
  have hAssign := Expr.isAssignable_of_bare he.alike
  have hHead : P.Heads (.expression (.holds e)) (.expression (.holds e')) := by
    refine ⟨?_, he.formed⟩
    rw [Alike, ForHead.bare, ForHead.bare, Slot.bare, Slot.bare, he.alike]
  refine h.sees _ fun isIn _ => .choice Iff.rfl (fun _ => ?_) fun _ => hRules.forRest hHead h
  refine h.check hFirst ⟨by rw [hAssign], rfl⟩ fun hTarget => ?_
  exact hRules.forInRest hHead (by simpa [ReadsStmt.isTarget] using hTarget) h

theorem forStatement (c : Context) :
    P.Agree (P.Stmts c) (g.forStatement c) (g.forStatement c) := by
  intro s u h
  refine Streams.position (.bind (h.expect (by simp)) fun _ _ s u _ h => ?_)
  refine .bind (h.expect (by simp)) fun _ _ s u _ h => Streams.current ?_
  rw [h.type_eq]
  cases s.current.type with
  | keyword k =>
    cases k with
    | kwVar => exact hRules.forVariables h
    | _ => exact hRules.forExpression h
  | punctuator p =>
    cases p with
    | semicolon => exact hRules.forRest ⟨rfl, trivial⟩ h
    | _ => exact hRules.forExpression h
  | _ => exact hRules.forExpression h

/-! ### Jumps -/

/-- Labels that belong together. -/
def Labels (P : Pairing) (c : Context) (a b : Option Ident) (_ : Stream) : Prop :=
  Twins (Option.map Ident.bare) (c.Reaches P.tokens) a b

omit hRules in
theorem jumpLabel (c : Context) :
    P.Agree (Labels P c) (Grammar.jumpLabel c) (Grammar.jumpLabel c) := by
  intro s u h
  have hRel := h.rel
  have hSame := P.same hRel
  refine Streams.current (.choice (by rw [hSame.type_eq, hSame.newlineBefore_eq])
    (fun _ => .pure ⟨rfl, nofun⟩ h) fun _ => ?_)
  refine .bind h.name fun id id' s u hId h => ?_
  have hName : id'.name = id.name := (congrArg Ident.name hId.alike).symm
  refine h.check hRel ⟨by rw [hName], by rw [hName]⟩ fun hKnown => .pure ⟨?_, ?_⟩ h
  · exact congrArg some hId.alike
  · rintro _ ⟨⟩
    exact ⟨hId.formed, by simpa using hKnown⟩

omit hRules in
theorem continueStatement (c : Context) :
    P.Agree (P.Stmts c) (Grammar.continueStatement c) (Grammar.continueStatement c) := by
  intro s u h
  refine Streams.position (.bind (h.expect (by simp)) fun t t' s u hWord h => ?_)
  refine .bind (jumpLabel c h) fun label label' s u hLabel h => ?_
  refine h.check hWord.1 ⟨Iff.rfl, rfl⟩ fun hLoop => ?_
  refine .bind h.semicolon fun _ _ s u _ h => Streams.spanFrom (.pure ⟨⟨?_, ?_⟩, nofun⟩ h)
  · rw [Alike, Stmt.bare, Stmt.bare, hLabel.alike]
  · exact ⟨by simpa using hLoop, hLabel.formed⟩

omit hRules in
theorem breakStatement (c : Context) :
    P.Agree (P.Stmts c) (Grammar.breakStatement c) (Grammar.breakStatement c) := by
  intro s u h
  refine Streams.position (.bind (h.expect (by simp)) fun t t' s u hWord h => ?_)
  refine .bind (jumpLabel c h) fun label label' s u hLabel h => ?_
  have hNone : label'.isNone = label.isNone := by
    simpa using congrArg Option.isNone hLabel.alike.symm
  refine h.check hWord.1 ⟨by rw [hNone], rfl⟩ fun hPlace => ?_
  refine .bind h.semicolon fun _ _ s u _ h => Streams.spanFrom (.pure ⟨⟨?_, ?_⟩, nofun⟩ h)
  · rw [Alike, Stmt.bare, Stmt.bare, hLabel.alike]
  · exact ⟨Bool.not_eq_true _ ▸ hPlace, hLabel.formed⟩

theorem returnStatement (c : Context) :
    P.Agree (P.Stmts c) (g.returnStatement c) (g.returnStatement c) := by
  intro s u h
  refine Streams.position (.bind (h.expect (by simp)) fun t t' s u hWord h => ?_)
  refine h.check hWord.1 ⟨Iff.rfl, rfl⟩ fun hFunction => ?_
  refine .bind h.atStatementEnd fun b b' s u hb h => ?_
  obtain rfl : b = b' := hb
  refine .branch (Q := P.Slots) ?_ fun a a' s u ha h => ?_
  · cases b with
    | true => exact .pure ⟨rfl, trivial⟩ h
    | false => exact (hRules.expression false h).held
  · refine .bind h.semicolon fun _ _ s u _ h => Streams.spanFrom (.pure ⟨⟨?_, ?_⟩, nofun⟩ h)
    · rw [Alike, Stmt.bare, Stmt.bare, ha.alike]
    · exact ⟨by simpa using hFunction, ha.formed⟩

theorem throwStatement (c : Context) :
    P.Agree (P.Stmts c) g.throwStatement g.throwStatement := by
  intro s u h
  refine Streams.position (.bind (h.expect (by simp)) fun _ _ s u _ h => Streams.current ?_)
  refine h.check h.rel ⟨by rw [(P.same h.rel).newlineBefore_eq], rfl⟩ fun _ => ?_
  refine .bind (hRules.expression false h) fun e e' s u he h => ?_
  refine .bind h.semicolon fun _ _ s u _ h =>
    Streams.spanFrom (.pure ⟨⟨?_, he.formed⟩, nofun⟩ h)
  rw [Alike, Stmt.bare, Stmt.bare, Slot.bare, Slot.bare, he.alike]

omit hRules in
theorem debuggerStatement (c : Context) (h : P.Streams false s u)
    (hType : s.current.type ≠ .punctuator .dot) :
    P.Outcomes false (P.Stmts c) (Grammar.debuggerStatement s) (Grammar.debuggerStatement u) := by
  refine Streams.position (.bind (h.advance hType) fun _ _ _ _ _ h => ?_)
  refine .bind h.semicolon fun _ _ _ _ _ h => Streams.spanFrom (.pure ⟨⟨?_, trivial⟩, nofun⟩ h)
  rw [Alike, Stmt.bare, Stmt.bare]

theorem functionDeclaration (c : Context) :
    P.Agree (P.Stmts c) g.functionDeclaration g.functionDeclaration := by
  intro s u h
  refine Streams.position (.bind (h.expect (by simp)) fun _ _ s u _ h => ?_)
  refine .bind h.name fun id id' s u hId h => ?_
  have hSome : (some id).map Ident.bare = (some id').map Ident.bare := congrArg some hId.alike
  refine .bind (hRules.functionRest hSome ?_ h) fun fn fn' s u hFn h => ?_
  · rintro n ⟨⟩
    exact hId.formed
  · refine Streams.spanFrom (.pure ⟨⟨?_, ?_, hFn.1.formed⟩, nofun⟩ h)
    · rw [Alike, Stmt.bare, Stmt.bare, hFn.1.alike]
    · obtain ⟨-, _, _, _, _, rfl, -⟩ := hFn
      rfl

theorem labeledStatement (c : Context) :
    P.Agree (P.Stmts c) (g.labeledStatement c) (g.labeledStatement c) := by
  intro s u h
  have hRel := h.rel
  refine Streams.position (Streams.current (.bind h.name fun id id' s u hId h => ?_))
  have hName : id'.name = id.name := (congrArg Ident.name hId.alike).symm
  refine .bind (h.expect (by simp)) fun _ _ s u _ h => ?_
  refine h.check hRel ⟨by rw [hName], by rw [hName]⟩ fun hNew => ?_
  rw [hName]
  refine .bind (hRules.statement _ h) fun b b' s u hb h => ?_
  refine Streams.spanFrom (.pure ⟨⟨?_, id, rfl, hId.formed, ?_, hb.1.formed⟩, hb.2⟩ h)
  · rw [Alike, Stmt.bare, Stmt.bare, hb.1.alike, Option.map_some, Option.map_some, hId.alike]
  · exact Bool.not_eq_true _ ▸ hNew

/-! ### Statements with several blocks -/

omit hRules in
theorem atClauseEnd : P.Agree (Test fun _ => True) Grammar.atClauseEnd Grammar.atClauseEnd := by
  intro s u h
  refine Streams.current ?_
  rw [h.type_eq]
  cases s.current.type with
  | keyword k => cases k <;> exact .pure ⟨rfl, fun _ => trivial⟩ h
  | punctuator p => cases p <;> exact .pure ⟨rfl, fun _ => trivial⟩ h
  | _ => exact .pure ⟨rfl, fun _ => trivial⟩ h

theorem caseTest (sawDefault : Bool) :
    P.Agree (fun a b s => P.Slots a b s ∧ (sawDefault && a.isAbsent) = false)
      (g.caseTest sawDefault) (g.caseTest sawDefault) := by
  intro s u h
  have hRel := h.rel
  refine Streams.current ?_
  rw [h.type_eq]
  cases hType : s.current.type with
  | keyword k =>
    cases k with
    | kwCase =>
      refine .bind (h.advance (by simp [hType])) fun _ _ s u _ h => ?_
      refine .map (hRules.expression false h) fun a b s he => ⟨⟨?_, he.formed⟩, ?_⟩
      · rw [Alike, Slot.bare, Slot.bare, he.alike]
      · exact Bool.and_false _
    | kwDefault =>
      refine h.check hRel ⟨Iff.rfl, rfl⟩ fun hFirst => ?_
      refine .bind (h.advance (by simp [hType])) fun _ _ s u _ h => .pure ⟨⟨rfl, trivial⟩, ?_⟩ h
      simpa [Slot.isAbsent] using hFirst
    | _ => exact h.unexpected _
  | _ => exact h.unexpected _

/-- Clauses that belong together. -/
def Cases (P : Pairing) (c : Context) (a b : Case) : Prop :=
  Twins Case.bare (Case.Formed P.tokens c) a b

/-- A clause, which is no default clause after another one. -/
theorem clause (c : Context) (sawDefault : Bool) :
    P.Agree (fun a b _ => Cases P c a b ∧ (sawDefault && a.isDefault) = false)
      (g.clause c sawDefault) (g.clause c sawDefault) := by
  intro s u h
  refine Streams.position (.bind (hRules.caseTest sawDefault h) fun t t' s u ht h => ?_)
  refine .bind (h.expect (by simp)) fun _ _ s u _ h => ?_
  refine .bind (Agree.many atClauseEnd (hRules.inBlock c) h) fun as bs s u has h => ?_
  refine Streams.spanFrom (.pure ⟨⟨?_, ?_⟩, ht.2⟩ h)
  · rw [Alike, Case.bare, Case.bare, ht.1.alike, (Twins.statements has.1).1]
  · exact ⟨ht.1.formed, (Twins.statements has.1).2⟩

theorem casesIn (c : Context) (n : Nat) (sawDefault : Bool) :
    P.Agree (fun as bs _ => List.Forall₂ (Cases P c) as bs ∧
        ReadsStmt.oneDefault sawDefault as = true)
      (g.casesIn c n sawDefault) (g.casesIn c n sawDefault) := by
  induction n generalizing sawDefault with
  | zero =>
    intro s u h
    exact h.unexpected _
  | succ n ih =>
    intro s u h
    refine .bind (h.accept (by simp)) fun b b' s u hb h => ?_
    obtain rfl : b = b' := hb.1
    refine .choice Iff.rfl (fun _ => .pure ⟨.nil, rfl⟩ h) fun _ => ?_
    refine .bind (hRules.clause c sawDefault h) fun x y s u hx h => ?_
    rw [← ReadsStmt.isDefault_of_bare hx.1.alike]
    refine .bind (ih _ h) fun more more' s u hMore h => .pure ⟨.cons hx.1 hMore.1, ?_⟩ h
    simp only [ReadsStmt.oneDefault_cons, hx.2, hMore.2, Bool.not_false, Bool.and_self]

theorem switchStatement (c : Context) :
    P.Agree (P.Stmts c) (g.switchStatement c) (g.switchStatement c) := by
  intro s u h
  refine Streams.position (.bind (h.expect (by simp)) fun _ _ s u _ h => ?_)
  refine .bind (hRules.parenthesized h) fun t t' s u ht h => ?_
  refine .bind (h.expect (by simp)) fun _ _ s u _ h => h.rounds fun n => ?_
  refine .bind (hRules.casesIn _ _ _ h) fun as bs s u has h => Streams.spanFrom ?_
  refine .pure ⟨⟨?_, ht.formed, has.2, Case.allFormed_iff.mpr (Twins.all_formed has.1)⟩, nofun⟩ h
  rw [Alike, Stmt.bare, Stmt.bare, Slot.bare, Slot.bare, ht.alike, Case.bares_eq_map,
    Case.bares_eq_map, Twins.all_alike has.1]

/-- Handlers that belong together, of which both may be absent. -/
def Handlers (P : Pairing) (c : Context) (a b : Handler) (_ : Stream) : Prop :=
  Twins Handler.bare (Handler.Optional P.tokens c) a b

theorem catchClause (c : Context) :
    P.Agree (Handlers P c) (g.catchClause c) (g.catchClause c) := by
  intro s u h
  refine h.sees _ fun caught hCaught => .choice Iff.rfl (fun hTrue => Streams.position ?_)
    fun _ => .pure ⟨rfl, trivial⟩ h
  have hType : s.current.type = .keyword .kwCatch := by simpa [hTrue] using hCaught
  refine .bind (h.advance (by simp [hType])) fun _ _ s u _ h => ?_
  refine .bind (h.expect (by simp)) fun _ _ s u _ h => ?_
  refine .bind h.name fun id id' s u hId h => ?_
  refine .bind (h.expect (by simp)) fun _ _ s u _ h => ?_
  refine .bind (hRules.block c h) fun a b s u hBody h => Streams.spanFrom ?_
  refine h.slotted fun s u h => .pure ⟨?_, hId.formed, (Twins.statements hBody).2⟩ h
  rw [Alike, Handler.bare, Handler.bare, Slot.bare, Slot.bare, Expr.bare, Expr.bare, hId.alike,
    Block.bare, Block.bare, (Twins.statements hBody).1]

theorem tryStatement (c : Context) :
    P.Agree (P.Stmts c) (g.tryStatement c) (g.tryStatement c) := by
  intro s u h
  refine Streams.position (.bind (h.expect (by simp)) fun t t' s u hWord h => ?_)
  refine .bind (hRules.block c h) fun a b s u hBody h => ?_
  refine .bind (hRules.catchClause c h) fun handler handler' s u hHandler h => ?_
  refine .bind (h.accept (by simp)) fun f f' s u hf h => ?_
  obtain rfl : f = f' := hf.1
  have hBodies := Twins.statements hBody
  refine .choice Iff.rfl (fun _ => ?_) fun _ => ?_
  · refine .bind (hRules.block c h) fun a' b' s u hFinal h => ?_
    refine Streams.spanFrom (.pure ⟨⟨?_, ?_⟩, fun hOpen => by cases hOpen⟩ h)
    · rw [Alike, Stmt.bare, Stmt.bare, Block.bare, Block.bare, hBodies.1, hHandler.alike,
        Block.bare, Block.bare, (Twins.statements hFinal).1]
    · exact ⟨hBodies.2, hHandler.formed, .inr (Twins.statements hFinal).2, .inr (by simp)⟩
  · have hAlike := hHandler.alike
    cases handler with
    | absent =>
      cases handler' with
      | absent => exact h.failAt hWord.1
      | clause => cases hAlike
    | clause =>
      cases handler' with
      | absent => cases hAlike
      | clause =>
        refine Streams.spanFrom (.pure ⟨⟨?_, ?_⟩, fun hOpen => by cases hOpen⟩ h)
        · rw [Alike, Stmt.bare, Stmt.bare, Block.bare, Block.bare, Block.bare, hBodies.1, hAlike]
        · exact ⟨hBodies.2, hHandler.formed, .inl rfl, .inl (by simp)⟩

/-! ### Every statement -/

theorem statementRule (c : Context) :
    P.Agree (P.Stmts c) (g.statementRule c) (g.statementRule c) := by
  intro s u h
  refine Streams.current ?_
  rw [h.type_eq]
  cases hType : s.current.type with
  | identifier =>
    have hNext := h.next_type_eq
    refine Streams.got ?_
    cases hLeft : s.upcoming.head? with
    | none =>
      cases hRight : u.upcoming.head? with
      | none => exact hRules.expressionStatement c h
      | some v => rw [hLeft, hRight] at hNext; cases hNext
    | some t =>
      cases hRight : u.upcoming.head? with
      | none => rw [hLeft, hRight] at hNext; cases hNext
      | some v =>
        rw [hLeft, hRight, Option.map_some, Option.map_some, Option.some.injEq] at hNext
        refine .choice (by rw [hNext]) (fun _ => hRules.labeledStatement c h) fun _ =>
          hRules.expressionStatement c h
  | keyword k =>
    cases k with
    | kwVar => exact hRules.variableStatement c h
    | kwIf => exact hRules.ifStatement c h
    | kwFor => exact hRules.forStatement c h
    | kwWhile => exact hRules.whileStatement c h
    | kwDo => exact hRules.doWhileStatement c h
    | kwContinue => exact continueStatement c h
    | kwBreak => exact breakStatement c h
    | kwReturn => exact hRules.returnStatement c h
    | kwWith => exact hRules.withStatement c h
    | kwSwitch => exact hRules.switchStatement c h
    | kwThrow => exact hRules.throwStatement c h
    | kwTry => exact hRules.tryStatement c h
    | kwDebugger => exact debuggerStatement c h (by simp [hType])
    | kwFunction => exact hRules.functionDeclaration c h
    | _ => exact hRules.expressionStatement c h
  | punctuator p =>
    cases p with
    | leftBrace => exact hRules.blockStatement c h
    | semicolon => exact emptyStatement c h (by simp [hType])
    | _ => exact hRules.expressionStatement c h
  | _ => exact hRules.expressionStatement c h

theorem around : P.Rules g.around where
  assignment := hRules.assignmentRule
  binary := hRules.binaryRule
  unary := hRules.unaryRule
  construct := hRules.constructRule
  statement := hRules.statementRule

end Rules

theorem rules_nested (n : Nat) : P.Rules (Grammar.nested n) := by
  induction n with
  | zero =>
    exact ⟨fun _ _ _ h => h.unexpected _, fun _ _ _ _ h => h.unexpected _,
      fun h => h.unexpected _, fun h => h.unexpected _, fun _ _ _ h => h.unexpected _⟩
  | succ n ih => exact ih.around

/-- Programs that belong together. -/
def Programs (P : Pairing) (a b : Program) (_ : Stream) : Prop :=
  Twins Program.bare (fun p => Stmt.AllFormed P.tokens .program p.body) a b

theorem Rules.program (hRules : P.Rules g) : P.Agree P.Programs g.program g.program := by
  have hItem : P.Agree (fun a b _ => Twins Stmt.bare (Stmt.Formed P.tokens .program) a b)
      (g.statement .program) (g.statement .program) :=
    fun h => (hRules.statement _ h).mono fun _ _ _ hs => hs.1
  intro s u h
  refine Streams.position (.bind (Agree.many (Agree.sees _) hItem h) fun as bs s u has h => ?_)
  refine Streams.position (.pure ⟨?_, (Twins.statements has.1).2⟩ h)
  rw [Alike, Program.bare, Program.bare, (Twins.statements has.1).1]

end Pairing

end ScriptOptimizer
