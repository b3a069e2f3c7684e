import ScriptOptimizer.Parse.Statement

/-!
The count of nodes plays no part in reading. Whatever was counted before, a rule reads the same
tokens, gives the same value or error and leaves the same stream but for the count.
-/

namespace ScriptOptimizer

/-- The stream with another count. -/
def Stream.recounted (s : Stream) (c : Census) : Stream := { s with census := c }

namespace Parse

/-- What comes out, with another count. -/
def recounted {α : Type} (c : Census) :
    EStateM.Result Diagnostic Stream α → EStateM.Result Diagnostic Stream α
  | .ok a s => .ok a (s.recounted c)
  | .error d s => .error d (s.recounted c)

/-- With another count at its start the rule does the same but for the count. -/
def Uncounted {α : Type} (p : Parse α) : Prop := ∀ s c, ∃ d, p (s.recounted c) = recounted d (p s)

namespace Uncounted

variable {α β : Type} {p q : Parse α} {f : α → Parse β}

/-! ### Steps -/

theorem pure (a : α) : Uncounted (Pure.pure a : Parse α) := fun _ c => ⟨c, rfl⟩

theorem bind (h : Uncounted p) (hNext : ∀ a, Uncounted (f a)) : Uncounted (p >>= f) := by
  intro s c
  obtain ⟨d, hRun⟩ := h s c
  show ∃ e, EStateM.bind p f (s.recounted c) = recounted e (EStateM.bind p f s)
  unfold EStateM.bind
  rw [hRun]
  cases p s with
  | error fault t => exact ⟨d, rfl⟩
  | ok a t => exact hNext a t d

theorem map {f : α → β} (h : Uncounted p) : Uncounted (f <$> p) := by
  intro s c
  obtain ⟨d, hRun⟩ := h s c
  refine ⟨d, ?_⟩
  show EStateM.map f p (s.recounted c) = recounted d (EStateM.map f p s)
  unfold EStateM.map
  rw [hRun]
  cases p s <;> rfl

/-- A step that looks at the stream, but not at the count. -/
theorem got {f : Stream → Parse β} (hBlind : ∀ s c, f (s.recounted c) = f s)
    (h : ∀ s, Uncounted (f s)) : Uncounted (get >>= f) := by
  intro s c
  show ∃ d, f (s.recounted c) (s.recounted c) = recounted d (f s s)
  rw [hBlind]
  exact h s s c

theorem current {f : Token → Parse β} (h : ∀ t, Uncounted (f t)) :
    Uncounted (Parse.current >>= f) :=
  fun s => h s.current s

theorem position {f : Place → Parse β} (h : ∀ start, Uncounted (f start)) :
    Uncounted (Parse.position >>= f) :=
  fun s => h s.current.startPlace s

theorem spanFrom {start : Place} {f : Span → Parse β} (h : ∀ span, Uncounted (f span)) :
    Uncounted (Parse.spanFrom start >>= f) :=
  fun s => h ⟨start, s.stop⟩ s

theorem sees {type : TokenType} {f : Bool → Parse β} (h : ∀ b, Uncounted (f b)) :
    Uncounted (Parse.sees type >>= f) :=
  fun s => h (decide (s.current.type = type)) s

theorem rounds {f : Nat → Parse β} (h : ∀ n, Uncounted (f n)) : Uncounted (Parse.rounds >>= f) :=
  fun s => h (s.upcoming.length + 2) s

/-- The count changes by some rule of its own. -/
theorem counted {count : Census → Census} {f : Unit → Parse β} (h : Uncounted (f ())) :
    Uncounted ((modify fun s => { s with census := count s.census } : Parse Unit) >>= f) :=
  fun s c => h { s with census := count s.census } (count c)

theorem failAt (t : Token) (message : Bytes) : Uncounted (Parse.failAt t message : Parse α) :=
  fun _ c => ⟨c, rfl⟩

theorem unexpected (wanted : Bytes) : Uncounted (Parse.unexpected wanted : Parse α) :=
  fun _ c => ⟨c, rfl⟩

/-- A check that fails when its condition holds. -/
theorem check {c : Prop} [Decidable c] {t : Token} {message : Bytes} {f : Unit → Parse β}
    (h : Uncounted (f ())) : Uncounted (if c then Parse.failAt t message >>= f else f ()) := by
  split
  · exact (failAt t message).bind fun _ => h
  · exact h

/-- A choice between two steps, each with the same steps after it. -/
theorem branch {b : Bool} (hThen : Uncounted p) (hElse : Uncounted q)
    (hNext : ∀ a, Uncounted (f a)) : Uncounted (if b then p >>= f else q >>= f) := by
  cases b with
  | true => exact hThen.bind hNext
  | false => exact hElse.bind hNext

/-! ### Tokens and nodes -/

theorem advance : Uncounted Parse.advance := by
  rintro ⟨current, upcoming, failure, stop, source, census⟩ c
  refine ⟨c, ?_⟩
  match upcoming, failure with
  | [], _ => rfl
  | [_], some _ => rfl
  | [_], none => rfl
  | _ :: _ :: _, _ => rfl

theorem accept (type : TokenType) : Uncounted (Parse.accept type) := by
  refine .sees fun b => ?_
  cases b with
  | true => exact advance.bind fun _ => .pure true
  | false => exact .pure false

theorem expect (type : TokenType) : Uncounted (Parse.expect type) := by
  refine .sees fun b => ?_
  cases b with
  | true => exact advance
  | false => exact .unexpected _

theorem semicolon : Uncounted Parse.semicolon := by
  refine (accept _).bind fun b => ?_
  cases b with
  | true => exact .pure ()
  | false =>
    refine .current fun t => ?_
    split
    · exact .pure ()
    · exact .unexpected _

theorem atStatementEnd : Uncounted Parse.atStatementEnd := .current fun _ => .pure _

theorem inSlot (e : Expr) : Uncounted (Parse.inSlot e) := counted (.pure e)

theorem nameAt (t : Token) (name : Bytes) : Uncounted (Parse.nameAt t name) := counted (.pure _)

theorem literalAt (t : Token) : Uncounted (Parse.literalAt t) := counted (.pure _)

theorem name : Uncounted Parse.name := by
  refine .current fun t => ?_
  split
  · exact advance.bind fun _ => .nameAt _ _
  · exact .unexpected _

theorem slotName : Uncounted (do Parse.inSlot (.ident (← Parse.name))) :=
  name.bind fun _ => .inSlot _

/-! ### Loops -/

section

variable {isEnd : Parse Bool} {item : Parse α} {close : TokenType}

theorem many (hEnd : Uncounted isEnd) (hItem : Uncounted item) :
    Uncounted (Parse.many isEnd item) := by
  refine .rounds fun n => ?_
  induction n with
  | zero => exact .unexpected _
  | succ n ih =>
    refine hEnd.bind fun b => ?_
    cases b with
    | true => exact .pure []
    | false => exact hItem.bind fun first => ih.bind fun rest => .pure (first :: rest)

theorem extend {step : α → Parse (Option α)} (hStep : ∀ a, Uncounted (step a)) (a : α) :
    Uncounted (Parse.extend step a) := by
  refine .rounds fun n => ?_
  induction n generalizing a with
  | zero => exact .unexpected _
  | succ n ih =>
    refine (hStep a).bind fun r => ?_
    cases r with
    | none => exact .pure a
    | some b => exact ih b

/-- Further items, as long as there are commas. -/
theorem manyAfterCommas (hItem : Uncounted item) :
    Uncounted (Parse.many (return !(← Parse.accept (.punctuator .comma))) item) :=
  many ((accept _).bind fun _ => .pure _) hItem

theorem commaSeparated (hItem : Uncounted item) : Uncounted (Parse.commaSeparated close item) := by
  refine (accept close).bind fun b => ?_
  cases b with
  | true => exact .pure []
  | false =>
    refine hItem.bind fun first => ?_
    refine (many (accept close) ((expect _).bind fun _ => hItem)).bind fun rest => ?_
    exact .pure (first :: rest)

theorem withComma {f : α → β} (hItem : Uncounted item) :
    Uncounted (Parse.withComma item close f) := by
  refine hItem.bind fun a => .sees fun b => ?_
  cases b with
  | true => exact .pure (f a)
  | false => exact (expect _).bind fun _ => .pure (f a)

theorem element {item : Parse Expr} (hItem : Uncounted item) : Uncounted (Parse.element item) := by
  refine (accept _).bind fun b => ?_
  cases b with
  | true => exact .pure _
  | false => exact withComma hItem

end

end Uncounted

end Parse

/-- No rule of the grammar depends on the count. -/
structure Grammar.Uncounted (g : Grammar) : Prop where
  assignment (noIn : Bool) : Parse.Uncounted (g.assignment noIn)
  binary (least : Nat) (noIn : Bool) : Parse.Uncounted (g.binary least noIn)
  unary : Parse.Uncounted g.unary
  construct : Parse.Uncounted g.construct
  statement (c : Context) : Parse.Uncounted (g.statement c)

namespace Grammar.Uncounted

open Parse.Uncounted

variable {g : Grammar} (hg : g.Uncounted)

/-! ### Expressions -/

theorem propertyKey : Parse.Uncounted Grammar.propertyKey := by
  refine .current fun t => ?_
  split
  · exact advance.bind fun _ => (literalAt t).bind fun _ => .inSlot _
  · exact advance.bind fun _ => (literalAt t).bind fun _ => .inSlot _
  · exact slotName
  · exact advance.bind fun _ => (nameAt t _).bind fun _ => .inSlot _
  · exact .unexpected _

include hg

theorem expression (noIn : Bool) : Parse.Uncounted (g.expression noIn) := by
  refine (hg.assignment noIn).bind fun first => .sees fun b => ?_
  cases b with
  | false => exact .pure first
  | true =>
    exact (manyAfterCommas (hg.assignment noIn)).bind fun rest => .spanFrom fun _ => .inSlot _

theorem inBlock (c : Context) : Parse.Uncounted (g.inBlock c) := by
  refine .sees fun b => ?_
  cases b with
  | true => exact .unexpected _
  | false => exact hg.statement c

theorem block (c : Context) : Parse.Uncounted (g.block c) := by
  refine .position fun start => (expect _).bind fun _ => ?_
  refine (many (.sees .pure) (hg.inBlock c)).bind fun body => ?_
  exact advance.bind fun _ => .spanFrom fun _ => .pure _

theorem functionRest (id : Option Ident) : Parse.Uncounted (g.functionRest id) := by
  refine (expect _).bind fun _ => (commaSeparated slotName).bind fun params => ?_
  exact (hg.block _).bind fun _ => .pure _

theorem functionExpression : Parse.Uncounted g.functionExpression := by
  refine .position fun start => advance.bind fun _ => .sees fun b => ?_
  refine .branch name.map (.pure none) fun id => ?_
  exact (hg.functionRest id).bind fun _ => .spanFrom fun _ => .inSlot _

theorem arrayLiteral : Parse.Uncounted g.arrayLiteral := by
  refine .position fun start => (expect _).bind fun _ => ?_
  refine (many (accept _) (element (hg.assignment false))).bind fun _ => ?_
  exact .spanFrom fun _ => .inSlot _

theorem accessor (start : Place) (word : Token) : Parse.Uncounted (g.accessor start word) := by
  refine advance.bind fun _ => propertyKey.bind fun key => .position fun fnStart => ?_
  refine (hg.functionRest none).bind fun fn => .check (.check (.spanFrom fun _ => ?_))
  exact (inSlot _).bind fun _ => .spanFrom fun _ => .pure _

theorem property : Parse.Uncounted g.property := by
  refine .position fun start => .current fun word => .got (fun _ _ => rfl) fun s => ?_
  dsimp only
  split
  · exact hg.accessor start word
  · refine propertyKey.bind fun key => (expect _).bind fun _ => ?_
    exact (hg.assignment false).bind fun _ => .spanFrom fun _ => .pure _

theorem objectLiteral : Parse.Uncounted g.objectLiteral := by
  refine .position fun start => (expect _).bind fun _ => ?_
  refine (many (accept _) (withComma hg.property)).bind fun _ => ?_
  exact .spanFrom fun _ => .inSlot _

theorem primary : Parse.Uncounted g.primary := by
  have hLiteral (t : Token) : Parse.Uncounted (do
      let _ ← Parse.advance
      Parse.inSlot (← Parse.literalAt t)) :=
    advance.bind fun _ => (literalAt t).bind fun _ => .inSlot _
  refine .current fun t => ?_
  split
  case h_3 | h_4 | h_5 | h_6 | h_7 | h_8 => exact hLiteral t
  · exact slotName
  · exact advance.bind fun _ => .inSlot _
  · exact advance.bind fun _ => (hg.expression false).bind fun e => (expect _).bind fun _ => .pure e
  · exact hg.arrayLiteral
  · exact hg.objectLiteral
  · exact hg.functionExpression
  · exact .unexpected _

theorem arguments : Parse.Uncounted g.arguments :=
  (expect _).bind fun _ => (commaSeparated (hg.assignment false)).bind fun _ => .pure _

theorem memberStep (calls : Bool) (e : Expr) : Parse.Uncounted (g.memberStep calls e) := by
  refine .current fun t => ?_
  split
  · refine advance.bind fun _ => name.bind fun id => .spanFrom fun _ => (inSlot _).bind fun _ => ?_
    exact .counted (.map (.inSlot _))
  · refine advance.bind fun _ => (hg.expression false).bind fun _ => (expect _).bind fun _ => ?_
    exact .spanFrom fun _ => .counted (.map (.inSlot _))
  · cases calls with
    | true => exact hg.arguments.bind fun _ => .spanFrom fun _ => .counted (.map (.inSlot _))
    | false => exact .pure none
  · exact .pure none

theorem memberTail (calls : Bool) (e : Expr) : Parse.Uncounted (g.memberTail calls e) :=
  extend (hg.memberStep calls) e

theorem constructRule : Parse.Uncounted g.constructRule := by
  refine .position fun start => (expect _).bind fun _ => .sees fun nested => ?_
  refine .branch hg.construct hg.primary fun head => ?_
  refine (hg.memberTail false head).bind fun callee => .sees fun called => ?_
  exact .branch hg.arguments (.pure []) fun _ => .spanFrom fun _ => .inSlot _

theorem leftHandSide : Parse.Uncounted g.leftHandSide :=
  .sees fun _ => .branch hg.constructRule hg.primary fun head => hg.memberTail true head

theorem afterOperand : Parse.Uncounted g.afterOperand := by
  refine .current fun first => hg.leftHandSide.bind fun e => .current fun t => ?_
  split
  · exact .check (advance.bind fun _ => .spanFrom fun _ => .inSlot _)
  · exact .pure e

theorem unaryRule : Parse.Uncounted g.unaryRule := by
  have hUnary (t : Token) : Parse.Uncounted (do
      let _ ← Parse.advance
      let e ← g.unary
      Parse.inSlot (.unary (← Parse.spanFrom t.startPlace) t.literal (.holds e))) :=
    advance.bind fun _ => hg.unary.bind fun _ => .spanFrom fun _ => .inSlot _
  have hUpdate (t : Token) : Parse.Uncounted (do
      let _ ← Parse.advance
      let first ← Parse.current
      let e ← g.unary
      if !e.isAssignable then Parse.failAt first "invalid left-hand side in prefix operation"
      Parse.inSlot (.update (← Parse.spanFrom t.startPlace) t.literal true (.holds e))) :=
    advance.bind fun _ => .current fun _ => hg.unary.bind fun _ =>
      .check (.spanFrom fun _ => .inSlot _)
  refine .current fun t => ?_
  split
  case h_8 | h_9 => exact hUpdate t
  case h_10 => exact hg.afterOperand
  all_goals exact hUnary t

theorem binaryStep (least : Nat) (noIn : Bool) (left : Expr) :
    Parse.Uncounted (g.binaryStep least noIn left) := by
  refine .current fun operator => ?_
  dsimp only
  split
  · exact .pure none
  · refine advance.bind fun _ => (hg.binary _ noIn).bind fun right => ?_
    split
    · exact .map (.inSlot _)
    · exact .map (.inSlot _)
    · exact .counted (.map (.inSlot _))

theorem binaryRule (least : Nat) (noIn : Bool) : Parse.Uncounted (g.binaryRule least noIn) :=
  hg.unaryRule.bind fun left => extend (hg.binaryStep least noIn) left

theorem conditional (noIn : Bool) : Parse.Uncounted (g.conditional noIn) := by
  refine (hg.binaryRule 1 noIn).bind fun test => (accept _).bind fun b => ?_
  cases b with
  | false => exact .pure test
  | true =>
    refine (hg.assignment false).bind fun _ => (expect _).bind fun _ => ?_
    exact (hg.assignment noIn).bind fun _ => .inSlot _

theorem assignmentRule (noIn : Bool) : Parse.Uncounted (g.assignmentRule noIn) := by
  refine .current fun first => (hg.conditional noIn).bind fun left => .current fun operator => ?_
  split
  · exact .check (advance.bind fun _ => (hg.assignment noIn).bind fun _ => .inSlot _)
  · exact .pure left

/-! ### Statements -/

omit hg in
theorem jumpLabel (c : Context) : Parse.Uncounted (Grammar.jumpLabel c) := by
  refine .current fun t => ?_
  split
  · exact .pure none
  · exact name.bind fun label => .check (.pure (some label))

omit hg in
theorem continueStatement (c : Context) : Parse.Uncounted (Grammar.continueStatement c) := by
  refine .position fun start => (expect _).bind fun word => (jumpLabel c).bind fun label => ?_
  exact .check (semicolon.bind fun _ => .spanFrom fun _ => .pure _)

omit hg in
theorem breakStatement (c : Context) : Parse.Uncounted (Grammar.breakStatement c) := by
  refine .position fun start => (expect _).bind fun word => (jumpLabel c).bind fun label => ?_
  exact .check (semicolon.bind fun _ => .spanFrom fun _ => .pure _)

omit hg in
theorem debuggerStatement : Parse.Uncounted Grammar.debuggerStatement :=
  .position fun _ => advance.bind fun _ => semicolon.bind fun _ => .spanFrom fun _ => .pure _

omit hg in
theorem atClauseEnd : Parse.Uncounted Grammar.atClauseEnd := by
  refine .current fun t => ?_
  split <;> exact .pure _

theorem parenthesized : Parse.Uncounted g.parenthesized :=
  (expect _).bind fun _ => (hg.expression false).bind fun e => (expect _).bind fun _ => .pure e

theorem blockStatement (c : Context) : Parse.Uncounted (g.blockStatement c) :=
  (hg.block c).bind fun _ => .pure _

theorem declarator (noIn : Bool) : Parse.Uncounted (g.declarator noIn) := by
  refine .position fun start => name.bind fun id => (accept _).bind fun b => ?_
  refine .branch (hg.assignment noIn).map (.pure _) fun init => .spanFrom fun span => ?_
  exact (inSlot _).bind fun _ => .pure _

theorem declarators (noIn : Bool) : Parse.Uncounted (g.declarators noIn) := by
  refine .position fun start => (expect _).bind fun _ => (hg.declarator noIn).bind fun first => ?_
  exact (manyAfterCommas (hg.declarator noIn)).bind fun _ => .pure _

theorem variableStatement : Parse.Uncounted g.variableStatement :=
  (hg.declarators false).bind fun _ => semicolon.bind fun _ => .spanFrom fun _ => .pure _

theorem expressionStatement : Parse.Uncounted g.expressionStatement := by
  refine .position fun start => (hg.expression false).bind fun _ => semicolon.bind fun _ => ?_
  exact .spanFrom fun _ => .pure _

theorem ifStatement (c : Context) : Parse.Uncounted (g.ifStatement c) := by
  refine .position fun start => (expect _).bind fun _ => hg.parenthesized.bind fun test => ?_
  refine (hg.statement c).bind fun consequent => (accept _).bind fun b => ?_
  exact .branch (hg.statement c) (.pure _) fun _ => .spanFrom fun _ => .pure _

theorem whileStatement (c : Context) : Parse.Uncounted (g.whileStatement c) := by
  refine .position fun start => (expect _).bind fun _ => hg.parenthesized.bind fun test => ?_
  exact (hg.statement _).bind fun _ => .spanFrom fun _ => .pure _

theorem doWhileStatement (c : Context) : Parse.Uncounted (g.doWhileStatement c) := by
  refine .position fun start => (expect _).bind fun _ => (hg.statement _).bind fun body => ?_
  refine (expect _).bind fun _ => hg.parenthesized.bind fun test => (accept _).bind fun _ => ?_
  exact .spanFrom fun _ => .pure _

theorem forInRest (c : Context) (start : Place) (left : ForHead) :
    Parse.Uncounted (g.forInRest c start left) := by
  refine (expect _).bind fun _ => (hg.expression false).bind fun right => ?_
  exact (expect _).bind fun _ => (hg.statement _).bind fun _ => .spanFrom fun _ => .pure _

theorem forRest (c : Context) (start : Place) (init : ForHead) :
    Parse.Uncounted (g.forRest c start init) := by
  refine (expect _).bind fun _ => .sees fun noTest => ?_
  refine .branch (.pure _) (hg.expression false).map fun test => ?_
  refine (expect _).bind fun _ => .sees fun noUpdate => ?_
  refine .branch (.pure _) (hg.expression false).map fun update => ?_
  exact (expect _).bind fun _ => (hg.statement _).bind fun _ => .spanFrom fun _ => .pure _

theorem forVariables (c : Context) (start : Place) : Parse.Uncounted (g.forVariables c start) := by
  refine (hg.declarators true).bind fun list => .spanFrom fun span => .sees fun b => ?_
  cases b with
  | true =>
    show Parse.Uncounted (if list.2.length ≠ 1 then _ else _)
    split
    · exact .current fun t => (failAt t _).bind fun _ => hg.forInRest c start _
    · exact hg.forInRest c start _
  | false => exact hg.forRest c start _

theorem forExpression (c : Context) (start : Place) :
    Parse.Uncounted (g.forExpression c start) := by
  refine .current fun first => (hg.expression true).bind fun e => .sees fun b => ?_
  cases b with
  | true => exact .check (f := fun _ => g.forInRest c start _) (hg.forInRest c start _)
  | false => exact hg.forRest c start _

theorem forStatement (c : Context) : Parse.Uncounted (g.forStatement c) := by
  refine .position fun start => (expect _).bind fun _ => (expect _).bind fun _ => ?_
  refine .current fun t => ?_
  split
  · exact hg.forRest c start _
  · exact hg.forVariables c start
  · exact hg.forExpression c start

theorem returnStatement (c : Context) : Parse.Uncounted (g.returnStatement c) := by
  refine .position fun start => (expect _).bind fun word => .check (atStatementEnd.bind fun b => ?_)
  refine .branch (.pure _) (hg.expression false).map fun argument => ?_
  exact semicolon.bind fun _ => .spanFrom fun _ => .pure _

theorem withStatement (c : Context) : Parse.Uncounted (g.withStatement c) := by
  refine .position fun start => (expect _).bind fun _ => hg.parenthesized.bind fun object => ?_
  exact (hg.statement c).bind fun _ => .spanFrom fun _ => .pure _

theorem caseTest (sawDefault : Bool) : Parse.Uncounted (g.caseTest sawDefault) := by
  refine .current fun t => ?_
  split
  · exact advance.bind fun _ => (hg.expression false).map
  · exact .check (advance.bind fun _ => .pure _)
  · exact .unexpected _

theorem clause (c : Context) (sawDefault : Bool) : Parse.Uncounted (g.clause c sawDefault) := by
  refine .position fun start => (hg.caseTest sawDefault).bind fun test => ?_
  refine (expect _).bind fun _ => (many atClauseEnd (hg.inBlock c)).bind fun _ => ?_
  exact .spanFrom fun _ => .pure _

theorem casesIn (c : Context) (n : Nat) (sawDefault : Bool) :
    Parse.Uncounted (g.casesIn c n sawDefault) := by
  induction n generalizing sawDefault with
  | zero => exact .unexpected _
  | succ n ih =>
    refine (accept _).bind fun b => ?_
    cases b with
    | true => exact .pure []
    | false => exact (hg.clause c sawDefault).bind fun _ => (ih _).bind fun _ => .pure _

theorem switchStatement (c : Context) : Parse.Uncounted (g.switchStatement c) := by
  refine .position fun start => (expect _).bind fun _ => hg.parenthesized.bind fun _ => ?_
  refine (expect _).bind fun _ => .rounds fun n => (hg.casesIn _ n false).bind fun _ => ?_
  exact .spanFrom fun _ => .pure _

theorem throwStatement : Parse.Uncounted g.throwStatement := by
  refine .position fun start => (expect _).bind fun _ => .current fun t => .check ?_
  exact (hg.expression false).bind fun _ => semicolon.bind fun _ => .spanFrom fun _ => .pure _

theorem catchClause (c : Context) : Parse.Uncounted (g.catchClause c) := by
  refine .sees fun b => ?_
  cases b with
  | false => exact .pure _
  | true =>
    refine .position fun start => advance.bind fun _ => (expect _).bind fun _ => ?_
    refine name.bind fun param => (expect _).bind fun _ => (hg.block c).bind fun body => ?_
    exact .spanFrom fun _ => (inSlot _).bind fun _ => .pure _

theorem tryStatement (c : Context) : Parse.Uncounted (g.tryStatement c) := by
  refine .position fun start => (expect _).bind fun word => (hg.block c).bind fun body => ?_
  refine (hg.catchClause c).bind fun handler => (accept _).bind fun b => ?_
  cases b with
  | true => exact (hg.block c).bind fun _ => .spanFrom fun _ => .pure _
  | false =>
    cases handler with
    | absent => exact .failAt word _
    | clause => exact .spanFrom fun _ => .pure _

theorem functionDeclaration : Parse.Uncounted g.functionDeclaration := by
  refine .position fun start => (expect _).bind fun _ => name.bind fun id => ?_
  exact (hg.functionRest _).bind fun _ => .spanFrom fun _ => .pure _

theorem labeledStatement (c : Context) : Parse.Uncounted (g.labeledStatement c) := by
  refine .position fun start => .current fun t => name.bind fun label => (expect _).bind fun _ => ?_
  exact .check ((hg.statement _).bind fun _ => .spanFrom fun _ => .pure _)

theorem statementRule (c : Context) : Parse.Uncounted (g.statementRule c) := by
  refine .current fun t => ?_
  split
  · exact hg.blockStatement c
  · exact hg.variableStatement
  · exact advance.bind fun _ => .pure _
  · exact hg.ifStatement c
  · exact hg.forStatement c
  · exact hg.whileStatement c
  · exact hg.doWhileStatement c
  · exact continueStatement c
  · exact breakStatement c
  · exact hg.returnStatement c
  · exact hg.withStatement c
  · exact hg.switchStatement c
  · exact hg.throwStatement
  · exact hg.tryStatement c
  · exact debuggerStatement
  · exact hg.functionDeclaration
  · refine .got (fun _ _ => rfl) fun s => ?_
    split
    · split
      · exact hg.labeledStatement c
      · exact hg.expressionStatement
    · exact hg.expressionStatement
  · exact hg.expressionStatement

theorem around : g.around.Uncounted where
  assignment := hg.assignmentRule
  binary := hg.binaryRule
  unary := hg.unaryRule
  construct := hg.constructRule
  statement := hg.statementRule

end Grammar.Uncounted

/-- The rules of every nesting read the same whatever was counted. -/
theorem Grammar.uncounted_nested (n : Nat) : (nested n).Uncounted := by
  induction n with
  | zero =>
    exact ⟨fun _ => .unexpected _, fun _ _ => .unexpected _, .unexpected _, .unexpected _,
      fun _ => .unexpected _⟩
  | succ n ih => exact ih.around

end ScriptOptimizer
