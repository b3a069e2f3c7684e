import ScriptOptimizer.Proofs.Parse.ProgressExpression

/-!
How far the rules for statements read, and whole programs. A nesting deeper than there are tokens is
never reached.
-/

namespace ScriptOptimizer

namespace Grammar

/-- The rules for texts nested at most so deep, over any rules for deeper ones. -/
def nestedOver (g : Grammar) : Nat → Grammar
  | 0 => g
  | n + 1 => (nestedOver g n).around

theorem nested_eq_nestedOver (n : Nat) : nested n = empty.nestedOver n := by
  induction n with
  | zero => rfl
  | succ n ih => rw [nested, nestedOver, ih]

end Grammar

namespace Ending

variable {E : Ending} {k : Nat}

theorem jumpLabel_keeps (c : Context) : E.Keeps k (Grammar.jumpLabel c) (Grammar.jumpLabel c) := by
  refine .current fun t => ?_
  split
  · exact .pure none
  · exact name_takes.keeps.bind fun label => .check (.pure (some label))

theorem continueStatement_takes (c : Context) :
    E.Takes k (Grammar.continueStatement c) (Grammar.continueStatement c) := by
  refine .position fun start => (expect_takes (by simp)).bind fun word => ?_
  refine (jumpLabel_keeps c).bind fun label => .check (semicolon_keeps.bind fun _ => ?_)
  exact .spanFrom fun _ => .pure _

theorem breakStatement_takes (c : Context) :
    E.Takes k (Grammar.breakStatement c) (Grammar.breakStatement c) := by
  refine .position fun start => (expect_takes (by simp)).bind fun word => ?_
  refine (jumpLabel_keeps c).bind fun label => .check (semicolon_keeps.bind fun _ => ?_)
  exact .spanFrom fun _ => .pure _

theorem atClauseEnd_tests :
    Tests (E := E) (fun _ => True) Grammar.atClauseEnd Grammar.atClauseEnd := by
  intro s h
  have hDone (b : Bool) : E.Outcomes (fun b t => t.left ≤ s.left ∧ (b = true → True))
      ((pure b : Parse Bool) s) ((pure b : Parse Bool) (E.beyond s)) :=
    .pure h ⟨Nat.le_refl _, fun _ => trivial⟩
  refine .current ?_
  cases s.current.type with
  | keyword word => cases word <;> exact hDone _
  | punctuator mark => cases mark <;> exact hDone _
  | _ => exact hDone _

namespace Agrees

variable {g g' : Grammar} (hg : E.Agrees k g g')
include hg

theorem parenthesized : E.Keeps (k - 1) g.parenthesized g'.parenthesized := by
  refine (expect_takes (by simp)).keeps.bind fun _ => (hg.expression_keeps false).bind fun e => ?_
  exact (expect_takes (by simp)).keeps.bind fun _ => .pure e

theorem blockStatement (c : Context) : E.Takes k (g.blockStatement c) (g'.blockStatement c) :=
  (hg.block c).bind fun _ => .pure _

theorem declarator (noIn : Bool) : E.Takes k (g.declarator noIn) (g'.declarator noIn) := by
  refine .position fun start => name_takes.bind fun id => (accept_keeps (by simp)).bind fun b => ?_
  refine .branch ?_ (.pure _) fun init => .spanFrom fun span => ?_
  · exact ((hg.assignment noIn).keeps.mono (Nat.sub_le k 1)).map
  · exact (Keeps.inSlot _).bind fun target => .pure _

theorem declarators (noIn : Bool) : E.Takes k (g.declarators noIn) (g'.declarators noIn) := by
  have hDeclarator := (hg.declarator noIn).mono (Nat.sub_le k 1)
  refine .position fun start => (expect_takes (by simp)).bind fun _ => ?_
  refine hDeclarator.keeps.bind fun first => ?_
  exact (many_keeps noComma_tests hDeclarator).bind fun rest => .pure _

theorem variableStatement : E.Takes k g.variableStatement g'.variableStatement := by
  refine (hg.declarators false).bind fun d => semicolon_keeps.bind fun _ => ?_
  exact .spanFrom fun _ => .pure _

theorem expressionStatement : E.Takes k g.expressionStatement g'.expressionStatement := by
  refine .position fun start => (hg.expression false).bind fun e => semicolon_keeps.bind fun _ => ?_
  exact .spanFrom fun _ => .pure _

theorem ifStatement (c : Context) : E.Takes k (g.ifStatement c) (g'.ifStatement c) := by
  refine .position fun start => (expect_takes (by simp)).bind fun _ => ?_
  refine hg.parenthesized.bind fun test => (hg.statement c).keeps.bind fun consequent => ?_
  refine (accept_keeps (by simp)).bind fun b => ?_
  refine .branch (hg.statement c).keeps (.pure _) fun alternate => .spanFrom fun _ => ?_
  exact .pure _

theorem whileStatement (c : Context) : E.Takes k (g.whileStatement c) (g'.whileStatement c) := by
  refine .position fun start => (expect_takes (by simp)).bind fun _ => ?_
  refine hg.parenthesized.bind fun test => (hg.statement c.loop).keeps.bind fun body => ?_
  exact .spanFrom fun _ => .pure _

theorem doWhileStatement (c : Context) :
    E.Takes k (g.doWhileStatement c) (g'.doWhileStatement c) := by
  refine .position fun start => (expect_takes (by simp)).bind fun _ => ?_
  refine (hg.statement c.loop).keeps.bind fun body =>
    (expect_takes (by simp)).keeps.bind fun _ => ?_
  refine hg.parenthesized.bind fun test => (accept_keeps (by simp)).bind fun _ => ?_
  exact .spanFrom fun _ => .pure _

theorem withStatement (c : Context) : E.Takes k (g.withStatement c) (g'.withStatement c) := by
  refine .position fun start => (expect_takes (by simp)).bind fun _ => ?_
  refine hg.parenthesized.bind fun object => (hg.statement c).keeps.bind fun body => ?_
  exact .spanFrom fun _ => .pure _

theorem forInRest (c : Context) (start : Place) (left : ForHead) :
    E.Keeps (k - 1) (g.forInRest c start left) (g'.forInRest c start left) := by
  refine (expect_takes (by simp)).keeps.bind fun _ =>
    (hg.expression_keeps false).bind fun right => ?_
  refine (expect_takes (by simp)).keeps.bind fun _ =>
    (hg.statement c.loop).keeps.bind fun body => ?_
  exact .spanFrom fun _ => .pure _

theorem forRest (c : Context) (start : Place) (init : ForHead) :
    E.Keeps (k - 1) (g.forRest c start init) (g'.forRest c start init) := by
  refine (expect_takes (by simp)).keeps.bind fun _ => .sees fun b => ?_
  refine .branch (.pure _) (hg.expression_keeps false).map fun test => ?_
  refine (expect_takes (by simp)).keeps.bind fun _ => .sees fun b => ?_
  refine .branch (.pure _) (hg.expression_keeps false).map fun update => ?_
  refine (expect_takes (by simp)).keeps.bind fun _ =>
    (hg.statement c.loop).keeps.bind fun body => ?_
  exact .spanFrom fun _ => .pure _

theorem forVariables (c : Context) (start : Place) :
    E.Keeps (k - 1) (g.forVariables c start) (g'.forVariables c start) := by
  refine ((hg.declarators true).keeps.mono (Nat.sub_le k 1)).bind fun d => .spanFrom fun _ => ?_
  obtain ⟨headStart, list⟩ := d
  refine .sees fun b => ?_
  cases b with
  | true =>
    show E.Keeps (k - 1) (if list.length ≠ 1 then _ else _) (if list.length ≠ 1 then _ else _)
    split
    · exact .current fun t => fun _ _ _ => .failed
    · exact hg.forInRest c start _
  | false => exact hg.forRest c start _

theorem forExpression (c : Context) (start : Place) :
    E.Keeps (k - 1) (g.forExpression c start) (g'.forExpression c start) := by
  refine .current fun first => (hg.expression_keeps true).bind fun e => .sees fun b => ?_
  cases b with
  | true =>
    show E.Keeps (k - 1) (if (!e.isAssignable) = true then _ else _)
      (if (!e.isAssignable) = true then _ else _)
    exact .check (hg.forInRest c start _)
  | false => exact hg.forRest c start _

theorem forStatement (c : Context) : E.Takes k (g.forStatement c) (g'.forStatement c) := by
  refine .position fun start => (expect_takes (by simp)).bind fun _ => ?_
  refine (expect_takes (by simp)).keeps.bind fun _ => .current fun t => ?_
  split
  · exact hg.forRest c start _
  · exact hg.forVariables c start
  · exact hg.forExpression c start

theorem returnStatement (c : Context) : E.Takes k (g.returnStatement c) (g'.returnStatement c) := by
  refine .position fun start => (expect_takes (by simp)).bind fun word => .check ?_
  refine atStatementEnd_keeps.bind fun b => ?_
  refine .branch (.pure _) (hg.expression_keeps false).map fun argument => ?_
  exact semicolon_keeps.bind fun _ => .spanFrom fun _ => .pure _

theorem throwStatement : E.Takes k g.throwStatement g'.throwStatement := by
  refine .position fun start => (expect_takes (by simp)).bind fun _ => .current fun t => .check ?_
  refine (hg.expression_keeps false).bind fun e => semicolon_keeps.bind fun _ => ?_
  exact .spanFrom fun _ => .pure _

theorem functionDeclaration : E.Takes k g.functionDeclaration g'.functionDeclaration := by
  refine .position fun start => (expect_takes (by simp)).bind fun _ =>
    name_takes.keeps.bind fun id => ?_
  refine ((hg.functionRest (some id)).keeps.mono (Nat.sub_le k 1)).bind fun fn => ?_
  exact .spanFrom fun _ => .pure _

theorem labeledStatement (c : Context) :
    E.Takes k (g.labeledStatement c) (g'.labeledStatement c) := by
  refine .position fun start => .current fun t => name_takes.bind fun label => ?_
  refine (expect_takes (by simp)).keeps.bind fun _ => .check ?_
  exact (hg.statement _).keeps.bind fun body => .spanFrom fun _ => .pure _

/-- The test of a clause begins with its word. -/
theorem caseTest (sawDefault : Bool) :
    E.Takes k (g.caseTest sawDefault) (g'.caseTest sawDefault) := by
  refine fun s h hLeft => .current ?_
  cases hType : s.current.type with
  | keyword word =>
    cases word with
    | kwCase => exact h.take hLeft (by simp [hType]) fun _ => (hg.expression_keeps false).map
    | kwDefault => exact .check (h.take hLeft (by simp [hType]) fun _ => .pure _)
    | _ => exact .unexpected _
  | _ => exact .unexpected _

theorem clause (c : Context) (sawDefault : Bool) :
    E.Takes k (g.clause c sawDefault) (g'.clause c sawDefault) := by
  refine .position fun start => (hg.caseTest sawDefault).bind fun test => ?_
  refine (expect_takes (by simp)).keeps.bind fun _ => ?_
  exact (many_keeps atClauseEnd_tests (hg.inBlock c)).bind fun _ => .spanFrom fun _ => .pure _

theorem switchStatement (c : Context) : E.Takes k (g.switchStatement c) (g'.switchStatement c) := by
  refine .position fun start => (expect_takes (by simp)).bind fun _ => ?_
  refine hg.parenthesized.bind fun discriminant => (expect_takes (by simp)).keeps.bind fun _ => ?_
  refine fun s h hLeft => .rounds fun n m hn hm => ?_
  refine .bind (Q := fun _ t => t.left ≤ s.left ∧ True) ?_ fun cases t ht hLe => ?_
  · have hClause (saw : Bool) := (hg.clause c.switch saw).mono (Nat.sub_le k 1)
    exact (isLoop_casesIn g c.switch).outcomes (isLoop_casesIn g' c.switch)
      (accept_tests (by simp)) hClause h hLeft hn hm
  · exact .spanFrom fun span => .pure ht (Nat.lt_succ_of_le hLe.1)

/-- The handler of a try statement begins with its word, if there is one. -/
theorem catchClause (c : Context) : E.Keeps (k - 1) (g.catchClause c) (g'.catchClause c) := by
  refine fun s h hLeft => .sees fun b hb => ?_
  cases b with
  | false => exact .pure h (Nat.lt_succ_self s.left)
  | true =>
    have hType : s.current.type = .keyword .kwCatch := by simpa using hb.symm
    refine .position fun start =>
      .below (h.take hLeft (by simp [hType]) fun _ => ?_) (Nat.le_succ _)
    refine (expect_takes (by simp)).keeps.bind fun _ => name_takes.keeps.bind fun param => ?_
    refine (expect_takes (by simp)).keeps.bind fun _ => ?_
    refine ((hg.block c).keeps.mono (by omega)).bind fun body => .spanFrom fun _ => ?_
    exact (Keeps.inSlot _).bind fun target => .pure _

theorem tryStatement (c : Context) : E.Takes k (g.tryStatement c) (g'.tryStatement c) := by
  have hBlock : E.Keeps (k - 1) (g.block c) (g'.block c) := (hg.block c).keeps.mono (Nat.sub_le k 1)
  refine .position fun start => (expect_takes (by simp)).bind fun word => ?_
  refine hBlock.bind fun body => (hg.catchClause c).bind fun handler => ?_
  refine (accept_keeps (by simp)).bind fun b => ?_
  cases b with
  | true => exact hBlock.bind fun final => .spanFrom fun _ => .pure _
  | false =>
    cases handler with
    | absent => exact .failAt word _
    | clause span param handlerBody => exact .spanFrom fun _ => .pure _

theorem statementRule (c : Context) : E.Takes k (g.statementRule c) (g'.statementRule c) := by
  intro s h hLeft
  refine .current ?_
  cases hType : s.current.type with
  | punctuator mark =>
    cases mark with
    | leftBrace => exact hg.blockStatement c s h hLeft
    | semicolon => exact h.take hLeft (by simp [hType]) fun _ => .pure _
    | _ => exact hg.expressionStatement s h hLeft
  | keyword word =>
    cases word with
    | kwVar => exact hg.variableStatement s h hLeft
    | kwIf => exact hg.ifStatement c s h hLeft
    | kwFor => exact hg.forStatement c s h hLeft
    | kwWhile => exact hg.whileStatement c s h hLeft
    | kwDo => exact hg.doWhileStatement c s h hLeft
    | kwContinue => exact continueStatement_takes c s h hLeft
    | kwBreak => exact breakStatement_takes c s h hLeft
    | kwReturn => exact hg.returnStatement c s h hLeft
    | kwWith => exact hg.withStatement c s h hLeft
    | kwSwitch => exact hg.switchStatement c s h hLeft
    | kwThrow => exact hg.throwStatement s h hLeft
    | kwTry => exact hg.tryStatement c s h hLeft
    | kwDebugger =>
      refine .position fun start => h.take hLeft (by simp [hType]) fun _ => ?_
      exact semicolon_keeps.bind fun _ => .spanFrom fun _ => .pure _
    | kwFunction => exact hg.functionDeclaration s h hLeft
    | _ => exact hg.expressionStatement s h hLeft
  | identifier =>
    -- A label shows only by the token after it.
    have hNext := h.head?_beyond (by simp [hType])
    refine .got ?_
    rw [hNext]
    cases s.upcoming.head? with
    | none => exact hg.expressionStatement s h hLeft
    | some t =>
      dsimp only
      split
      · exact hg.labeledStatement c s h hLeft
      · exact hg.expressionStatement s h hLeft
  | _ => exact hg.expressionStatement s h hLeft

theorem around : E.Agrees (k + 1) g.around g'.around where
  assignment := hg.assignmentRule
  binary := hg.binaryRule
  unary := hg.unaryRule
  construct := hg.constructRule
  statement := hg.statementRule

omit hg in
/-- Grammars that are nested so deep agree, whatever they are at the bottom. -/
theorem nestedOver (g g' : Grammar) (n : Nat) : E.Agrees n (g.nestedOver n) (g'.nestedOver n) := by
  induction n with
  | zero => exact .zero E g g'
  | succ n ih => exact ih.around

/-- A program ends at the end of input. -/
theorem program {s : Stream} (h : E.Ends s) (hLeft : s.left + 1 < k) :
    E.Outcomes (fun _ t => t.current.type = .endOfInput) (g.program s)
      (g'.program (E.beyond s)) := by
  have hLeft : s.left < k - 1 := by omega
  refine .position fun start => ?_
  refine .bind (many_outcomes (sees_tests _) (hg.statement _) h hLeft) fun body t ht hBody => ?_
  exact .position fun stop => .pure ht hBody.2

end Agrees

end Ending

end ScriptOptimizer
