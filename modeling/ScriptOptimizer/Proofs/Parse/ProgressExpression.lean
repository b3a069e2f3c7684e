import ScriptOptimizer.Proofs.Parse.Progress

/-!
How far the rules for expressions read. Two grammars agree up to a nesting if their rules do the
same on fewer tokens; the rules around them then agree on one token more.
-/

namespace ScriptOptimizer

namespace Ending

/-- The rules of the grammars do the same on streams with fewer than so many tokens after the
current one, and the rules for statements on one fewer, because a statement may begin with an
expression. -/
structure Agrees (E : Ending) (k : Nat) (g g' : Grammar) : Prop where
  assignment (noIn : Bool) : E.Takes k (g.assignment noIn) (g'.assignment noIn)
  binary (least : Nat) (noIn : Bool) : E.Takes k (g.binary least noIn) (g'.binary least noIn)
  unary : E.Takes k g.unary g'.unary
  construct : E.Takes k g.construct g'.construct
  statement (c : Context) : E.Takes (k - 1) (g.statement c) (g'.statement c)

/-- Nothing is known of the rules that no text reaches. -/
theorem Agrees.zero (E : Ending) (g g' : Grammar) : E.Agrees 0 g g' where
  assignment _ _ _ h := absurd h (Nat.not_lt_zero _)
  binary _ _ _ _ h := absurd h (Nat.not_lt_zero _)
  unary _ _ h := absurd h (Nat.not_lt_zero _)
  construct _ _ h := absurd h (Nat.not_lt_zero _)
  statement _ _ _ h := absurd h (Nat.not_lt_zero _)

variable {E : Ending} {k : Nat}

theorem slotName_takes :
    E.Takes k (do Parse.inSlot (.ident (← Parse.name))) (do Parse.inSlot (.ident (← Parse.name))) :=
  name_takes.bind fun _ => .inSlot _

/-- The current token is a literal. -/
theorem Ends.literal {s : Stream} (h : E.Ends s) (hLeft : s.left < k)
    (hType : s.current.type ≠ .endOfInput) {t : Token} :
    E.Outcomes (Below s.left) ((do let _ ← Parse.advance; Parse.inSlot (← Parse.literalAt t)) s)
      ((do let _ ← Parse.advance; Parse.inSlot (← Parse.literalAt t)) (E.beyond s)) :=
  h.take hLeft hType fun _ => (Keeps.literalAt t).bind fun _ => .inSlot _

theorem propertyKey_takes : E.Takes k Grammar.propertyKey Grammar.propertyKey := by
  intro s h hLeft
  refine .current ?_
  cases hType : s.current.type with
  | string => exact h.literal hLeft (by simp [hType])
  | number => exact h.literal hLeft (by simp [hType])
  | identifier => exact slotName_takes s h hLeft
  | keyword word =>
    exact h.take hLeft (by simp [hType]) fun _ => (Keeps.nameAt _ _).bind fun _ => .inSlot _
  | _ => exact .unexpected _

namespace Agrees

variable {g g' : Grammar} (hg : E.Agrees k g g')
include hg

theorem expression (noIn : Bool) : E.Takes k (g.expression noIn) (g'.expression noIn) := by
  refine (hg.assignment noIn).bind fun first => .sees fun b => ?_
  cases b with
  | false => exact .pure first
  | true =>
    refine (many_keeps noComma_tests (hg.assignment noIn)).mono (Nat.sub_le k 1) |>.bind
      fun rest => ?_
    exact .spanFrom fun _ => .inSlot _

/-- An expression after a token. -/
theorem expression_keeps (noIn : Bool) :
    E.Keeps (k - 1) (g.expression noIn) (g'.expression noIn) :=
  (hg.expression noIn).keeps.mono (Nat.sub_le k 1)

theorem inBlock (c : Context) : E.Takes (k - 1) (g.inBlock c) (g'.inBlock c) := by
  refine .sees fun b => ?_
  cases b with
  | true => exact .unexpected _
  | false => exact hg.statement c

/-- A block, which its closing brace ends. -/
theorem block (c : Context) : E.Takes k (g.block c) (g'.block c) := by
  refine .position fun start => (expect_takes (by simp)).bind fun _ => fun s h hLeft => ?_
  refine .bind (many_outcomes (sees_tests _) (hg.inBlock c) h hLeft) fun body t ht hBody => ?_
  obtain ⟨hLe, hBrace⟩ := hBody
  refine .bind (ht.advance (by simp [hBrace])) fun _ u hu hLt => .spanFrom fun span => .pure hu ?_
  exact Nat.lt_of_lt_of_le hLt (by omega)

theorem functionRest (id : Option Ident) : E.Takes k (g.functionRest id) (g'.functionRest id) := by
  refine (expect_takes (by simp)).bind fun _ => ?_
  refine (commaSeparated_keeps (by simp) slotName_takes).bind fun params => ?_
  exact ((hg.block _).keeps.mono (Nat.sub_le k 1)).bind fun body => .pure _

/-- A function used as a value starts with its word. -/
theorem functionExpression {s : Stream} (h : E.Ends s) (hLeft : s.left < k + 1)
    (hType : s.current.type ≠ .endOfInput) :
    E.Outcomes (Below s.left) (g.functionExpression s) (g'.functionExpression (E.beyond s)) := by
  refine .position fun start => h.take hLeft hType fun _ => .sees fun b => ?_
  refine .branch (name_takes.keeps.map) (.pure none) fun id => ?_
  exact (hg.functionRest id).keeps.bind fun fn => .spanFrom fun _ => .inSlot _

theorem arrayLiteral : E.Takes (k + 1) g.arrayLiteral g'.arrayLiteral := by
  refine .position fun start => (expect_takes (by simp)).bind fun _ => ?_
  refine (many_keeps (accept_tests (by simp)) (element_takes (hg.assignment false))).bind
    fun _ => ?_
  exact .spanFrom fun _ => .inSlot _

/-- An accessor, from its word. -/
theorem accessor {s : Stream} (h : E.Ends s) (hLeft : s.left < k)
    (hType : s.current.type ≠ .endOfInput) {start : Place} {word : Token} :
    E.Outcomes (Below s.left) (g.accessor start word s) (g'.accessor start word (E.beyond s)) := by
  refine h.take hLeft hType fun _ => propertyKey_takes.keeps.bind fun key => .position fun _ => ?_
  refine ((hg.functionRest none).keeps.mono (Nat.sub_le k 1)).bind fun fn => .check (.check ?_)
  exact .spanFrom fun _ => (Keeps.inSlot _).bind fun value => .spanFrom fun _ => .pure _

theorem property : E.Takes k g.property g'.property := by
  have hInit (start : Place) : E.Takes k
      (do
        let key ← Grammar.propertyKey
        let _ ← Parse.expect (.punctuator .colon)
        let value ← g.assignment false
        return Property.entry (← Parse.spanFrom start) "init" (.holds key) (.holds value) false
          false)
      (do
        let key ← Grammar.propertyKey
        let _ ← Parse.expect (.punctuator .colon)
        let value ← g'.assignment false
        return Property.entry (← Parse.spanFrom start) "init" (.holds key) (.holds value) false
          false) := by
    refine propertyKey_takes.bind fun key => (expect_takes (by simp)).keeps.bind fun _ => ?_
    refine ((hg.assignment false).keeps.mono (Nat.sub_le k 1)).bind fun value => ?_
    exact .spanFrom fun _ => .pure _
  refine fun s h hLeft => .position fun start => .current ?_
  -- The token after the word is looked at only behind a name.
  by_cases hType : s.current.type = .identifier
  · have hNext := h.head?_beyond (by simp [hType])
    show E.Outcomes _ ((if _ then _ else _ : Parse Property) s)
      ((if _ then _ else _ : Parse Property) (E.beyond s))
    rw [hNext]
    split
    · exact hg.accessor h hLeft (by simp [hType])
    · exact hInit start s h hLeft
  · have hNone (b : Bool) : ¬(s.current.type = .identifier && b) = true := by simp [hType]
    show E.Outcomes _ ((if (_ && _ && _) = true then _ else _ : Parse Property) s)
      ((if (_ && _ && _) = true then _ else _ : Parse Property) (E.beyond s))
    rw [Bool.and_assoc, Bool.and_assoc, if_neg (hNone _), if_neg (hNone _)]
    exact hInit start s h hLeft

theorem objectLiteral : E.Takes (k + 1) g.objectLiteral g'.objectLiteral := by
  refine .position fun start => (expect_takes (by simp)).bind fun _ => ?_
  refine (many_keeps (accept_tests (by simp)) (withComma_takes hg.property)).bind fun _ => ?_
  exact .spanFrom fun _ => .inSlot _

theorem primary : E.Takes (k + 1) g.primary g'.primary := by
  intro s h hLeft
  refine .current ?_
  cases hType : s.current.type with
  | identifier => exact slotName_takes s h hLeft
  | number => exact h.literal hLeft (by simp [hType])
  | string => exact h.literal hLeft (by simp [hType])
  | regex => exact h.literal hLeft (by simp [hType])
  | keyword word =>
    cases word with
    | kwThis => exact h.take hLeft (by simp [hType]) fun _ => .inSlot _
    | kwNull => exact h.literal hLeft (by simp [hType])
    | kwTrue => exact h.literal hLeft (by simp [hType])
    | kwFalse => exact h.literal hLeft (by simp [hType])
    | kwFunction => exact hg.functionExpression h hLeft (by simp [hType])
    | _ => exact .unexpected _
  | punctuator mark =>
    cases mark with
    | leftParen =>
      refine h.take hLeft (by simp [hType]) fun _ => (hg.expression false).keeps.bind fun e => ?_
      exact (expect_takes (by simp)).keeps.bind fun _ => .pure e
    | leftBracket => exact hg.arrayLiteral s h hLeft
    | leftBrace => exact hg.objectLiteral s h hLeft
    | _ => exact .unexpected _
  | _ => exact .unexpected _

theorem arguments : E.Takes (k + 1) g.arguments g'.arguments := by
  refine (expect_takes (by simp)).bind fun _ => ?_
  exact (commaSeparated_keeps (by simp) (hg.assignment false)).bind fun _ => .pure _

/-- A member access or a call begins with a token. -/
theorem memberStep (calls : Bool) (e : Expr) :
    Steps E (k + 1) (g.memberStep calls e) (g'.memberStep calls e) := by
  have hTaken {p q : Parse (Option Expr)} {s : Stream}
      (h : E.Outcomes (Below s.left) (p s) (q (E.beyond s))) :
      E.Outcomes (fun r t => t.left ≤ s.left ∧ (r.isSome = true → t.left < s.left)) (p s)
        (q (E.beyond s)) :=
    h.mono fun _ _ hLt => ⟨Nat.le_of_lt hLt, fun _ => hLt⟩
  intro s h hLeft
  have hDone {r : Option Expr} (hNone : r = none) :
      E.Outcomes (fun r t => t.left ≤ s.left ∧ (r.isSome = true → t.left < s.left))
        ((pure r : Parse (Option Expr)) s) ((pure r : Parse (Option Expr)) (E.beyond s)) :=
    .pure h ⟨Nat.le_refl _, fun hSome => by simp [hNone] at hSome⟩
  have hMember (more : Census → Census) (span : Span) (member : Expr) :
      E.Keeps k (do
          modify fun s => { s with census := more s.census }
          some <$> Parse.inSlot member)
        (do
          modify fun s => { s with census := more s.census }
          some <$> Parse.inSlot member) :=
    .counted (fun _ => rfl) (Keeps.inSlot member).map
  refine .current ?_
  cases hType : s.current.type with
  | punctuator mark =>
    cases mark with
    | dot =>
      refine hTaken (h.take hLeft (by simp [hType]) fun _ => name_takes.keeps.bind fun id => ?_)
      exact .spanFrom fun span => (Keeps.inSlot _).bind fun _ => hMember Census.addMember span _
    | leftBracket =>
      refine hTaken (h.take hLeft (by simp [hType]) fun _ => ?_)
      refine (hg.expression false).keeps.bind fun _ =>
        (expect_takes (by simp)).keeps.bind fun _ => ?_
      exact .spanFrom fun span => hMember Census.addMember span _
    | leftParen =>
      cases calls with
      | false => exact hDone rfl
      | true =>
        refine hTaken (hg.arguments.bind (fun list => ?_) s h hLeft)
        exact .spanFrom fun span => hMember Census.addCall span _
    | _ => exact hDone rfl
  | _ => exact hDone rfl

theorem memberTail (calls : Bool) (e : Expr) :
    E.Keeps (k + 1) (g.memberTail calls e) (g'.memberTail calls e) :=
  extend_keeps (hg.memberStep calls) e

theorem constructRule : E.Takes (k + 1) g.constructRule g'.constructRule := by
  have hList (called : Bool) {callee : Expr} {start : Place} :
      E.Keeps k
        (do
          let list ← if called then g.arguments else pure []
          Parse.inSlot (.construct (← Parse.spanFrom start) (.holds callee) list))
        (do
          let list ← if called then g'.arguments else pure []
          Parse.inSlot (.construct (← Parse.spanFrom start) (.holds callee) list)) :=
    .branch (hg.arguments.keeps.mono (Nat.le_succ k)) (.pure []) fun list =>
      .spanFrom fun _ => .inSlot _
  refine .position fun start => (expect_takes (by simp)).bind fun _ => .sees fun nested => ?_
  refine .branch hg.construct.keeps (hg.primary.keeps.mono (Nat.le_succ k)) fun head => ?_
  refine ((hg.memberTail false head).mono (Nat.le_succ k)).bind fun callee => .sees fun called => ?_
  exact hList called

theorem leftHandSide : E.Takes (k + 1) g.leftHandSide g'.leftHandSide := by
  refine .sees fun nested => .branch hg.constructRule hg.primary fun head => ?_
  exact (hg.memberTail true head).mono (Nat.sub_le _ 1)

theorem afterOperand : E.Takes (k + 1) g.afterOperand g'.afterOperand := by
  refine .current fun first => hg.leftHandSide.bind fun e => fun s h hLeft => .current ?_
  split
  case isFalse => exact .pure h (Nat.lt_succ_self s.left)
  case isTrue hType =>
    have hMark : s.current.type ≠ .endOfInput := by
      intro hEnd
      simp [hEnd] at hType
    refine .check (.below (h.take hLeft hMark fun _ => ?_) (Nat.le_succ _))
    exact .spanFrom fun _ => .inSlot _

theorem unaryRule : E.Takes (k + 1) g.unaryRule g'.unaryRule := by
  intro s h hLeft
  have hUnary (word : Token) (hType : s.current.type ≠ .endOfInput) :
      E.Outcomes (Below s.left)
        ((do
          let _ ← Parse.advance
          let e ← g.unary
          Parse.inSlot (.unary (← Parse.spanFrom word.startPlace) word.literal (.holds e))) s)
        ((do
          let _ ← Parse.advance
          let e ← g'.unary
          Parse.inSlot (.unary (← Parse.spanFrom word.startPlace) word.literal (.holds e)))
            (E.beyond s)) :=
    h.take hLeft hType fun _ => hg.unary.keeps.bind fun e => .spanFrom fun _ => .inSlot _
  have hUpdate (word : Token) (hType : s.current.type ≠ .endOfInput) :
      E.Outcomes (Below s.left)
        ((do
          let _ ← Parse.advance
          let first ← Parse.current
          let e ← g.unary
          if !e.isAssignable then
            Parse.failAt first "invalid left-hand side in prefix operation"
          Parse.inSlot (.update (← Parse.spanFrom word.startPlace) word.literal true (.holds e))) s)
        ((do
          let _ ← Parse.advance
          let first ← Parse.current
          let e ← g'.unary
          if !e.isAssignable then
            Parse.failAt first "invalid left-hand side in prefix operation"
          Parse.inSlot (.update (← Parse.spanFrom word.startPlace) word.literal true (.holds e)))
            (E.beyond s)) := by
    refine h.take hLeft hType fun _ => .current fun first => hg.unary.keeps.bind fun e => ?_
    exact .check (.spanFrom fun _ => .inSlot _)
  refine .current ?_
  cases hType : s.current.type with
  | punctuator mark =>
    cases mark with
    | bang | tilde | plus | minus => exact hUnary _ (by simp [hType])
    | increment | decrement => exact hUpdate _ (by simp [hType])
    | _ => exact hg.afterOperand s h hLeft
  | keyword word =>
    cases word with
    | kwTypeof | kwVoid | kwDelete => exact hUnary _ (by simp [hType])
    | _ => exact hg.afterOperand s h hLeft
  | _ => exact hg.afterOperand s h hLeft

omit hg in
/-- The end of input binds nothing. -/
theorem precedenceOf_endOfInput {noIn : Bool} {t : Token} (h : t.type = .endOfInput) :
    Grammar.precedenceOf noIn t = 0 := by
  simp [Grammar.precedenceOf, h, TokenType.precedence]

/-- A binary operator is a token. -/
theorem binaryStep (least : Nat) (noIn : Bool) (left : Expr) :
    Steps E (k + 1) (g.binaryStep least noIn left) (g'.binaryStep least noIn left) := by
  intro s h hLeft
  refine .current ?_
  show E.Outcomes _ ((if _ then _ else _ : Parse (Option Expr)) s)
    ((if _ then _ else _ : Parse (Option Expr)) (E.beyond s))
  split
  case isTrue => exact .pure h ⟨Nat.le_refl _, nofun⟩
  case isFalse hBinds =>
    have hType : s.current.type ≠ .endOfInput := by
      intro hEnd
      simp [precedenceOf_endOfInput hEnd] at hBinds
    refine .mono (Q := Below s.left) (h.take hLeft hType fun _ => ?_) fun _ _ hLt =>
      ⟨Nat.le_of_lt hLt, fun _ => hLt⟩
    refine (hg.binary _ noIn).keeps.bind fun right => ?_
    dsimp only
    split
    · exact (Keeps.inSlot _).map
    · exact (Keeps.inSlot _).map
    · exact .counted (fun _ => rfl) (Keeps.inSlot _).map

theorem binaryRule (least : Nat) (noIn : Bool) :
    E.Takes (k + 1) (g.binaryRule least noIn) (g'.binaryRule least noIn) :=
  hg.unaryRule.bind fun left =>
    (extend_keeps (hg.binaryStep least noIn) left).mono (Nat.sub_le _ 1)

theorem conditional (noIn : Bool) : E.Takes (k + 1) (g.conditional noIn) (g'.conditional noIn) := by
  refine (hg.binaryRule 1 noIn).bind fun test => (accept_keeps (by simp)).bind fun b => ?_
  cases b with
  | false => exact .pure test
  | true =>
    refine (hg.assignment false).keeps.bind fun consequent => ?_
    refine (expect_takes (by simp)).keeps.bind fun _ => ?_
    exact (hg.assignment noIn).keeps.bind fun alternate => .inSlot _

theorem assignmentRule (noIn : Bool) :
    E.Takes (k + 1) (g.assignmentRule noIn) (g'.assignmentRule noIn) := by
  refine .current fun first => (hg.conditional noIn).bind fun left => fun s h hLeft => .current ?_
  split
  case isFalse => exact .pure h (Nat.lt_succ_self s.left)
  case isTrue hType =>
    have hMark : s.current.type ≠ .endOfInput := by
      intro hEnd
      simp [hEnd, TokenType.isAssignment] at hType
    refine .check (.below (h.take hLeft hMark fun _ => ?_) (Nat.le_succ _))
    exact ((hg.assignment noIn).keeps.mono (Nat.sub_le k 1)).bind fun right => .inSlot _

end Agrees

end Ending

end ScriptOptimizer
