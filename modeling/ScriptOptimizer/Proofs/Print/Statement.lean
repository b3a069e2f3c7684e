import ScriptOptimizer.Proofs.Print.Operator

/-!
Statements whose text reads back, one lemma for each sort of statement.
-/

namespace ScriptOptimizer

/-- A word and something in parentheses before a piece. -/
theorem Lexes.headed [PatternCheck] {exit : Option Token → Prop} {stop : Bytes → Prop} {dot : Bool}
    {text tail : Bytes} {ws us : List Spelling} (k : Keyword)
    (h : Lexes NotDot AfterOperand (Stops dot) text ws) (hTail : Lexes NotDot exit stop tail us) :
    Lexes NotDot exit stop (Bytes.ofString k.text ++ 32 :: (Bytes.ofString "(" ++
      (text ++ (Bytes.ofString ")" ++ tail)))) (.word k :: (parenRow ws ++ us)) := by
  have hInner := h.thenMark (p := .rightParen) hTail rfl
  have hAll := Lexes.word k (hInner.mark (p := .leftParen) rfl).blank (by decide)
  simpa [parenRow, Punctuator.text] using hAll

/-- A piece that ends an operand, and the semicolon after it. -/
theorem Lexes.ended [PatternCheck] {entry : Option Token → Prop} {dot : Bool} {text : Bytes}
    {ws : List Spelling} (h : Lexes entry AfterOperand (Stops dot) text ws) :
    Lexes entry NotDot Anything (text ++ Bytes.ofString ";") (ws ++ [Spelling.mark .semicolon]) :=
  h.append (Lexes.plainMark (p := .semicolon) rfl).afterOperand fun rest _ =>
    Stops.mark (p := .semicolon) (by decide) dot rest

/-- What stands between a body and a word after it. -/
theorem Lexes.afterBody [PatternCheck] {entry exit : Option Token → Prop} {stop : Bytes → Prop}
    {text : Bytes} {w : Spelling} {ws : List Spelling} (h : Lexes entry exit stop text (w :: ws))
    (hFree : w.joined = false) (depth : Nat) (block : Bool) :
    Lexes entry exit stop (Print.afterBody depth block ++ text) (w :: ws) := by
  cases block with
  | true => exact h.blank
  | false =>
    have hText : Print.afterBody depth false ++ text =
        10 :: (Bytes.replicate (2 * depth) 32 ++ text) := by
      simp [Print.afterBody, Print.indent, show Bytes.ofString "\n" = [10] by decide]
    rw [hText]
    exact (h.indent (2 * depth)).newline hFree

namespace Stmt

variable {c : Context} {e : Expr} {s b : Stmt}

/-! ### Where regular expressions stand in a statement -/

section Judged

variable {p : Prop} {w v : Spelling} {ws front body test yes no : List Spelling}

/-- A statement without expressions and statements in it. -/
theorem plain_judged (h : Judges True ws) (hNode : (Node.stmt s).keepsRegex = true)
    (hChildren : Child.KeepRegexes (Child.ofStmt s)) : Judges s.KeepsRegexes ws :=
  h.congr (iff_of_true trivial ((keepsRegexes_iff s).2 ⟨hNode, hChildren⟩))

theorem Judged.of_judges (h : Judges s.KeepsRegexes (w :: ws)) (hw : w.type ≠ .regex)
    (hLeads : s.leadsRegex = false) (hLast : (w :: ws).getLast? = some v)
    (hEnds : v.allowsRegex = !s.endsBrace) : s.Judged (w :: ws) := by
  intro allowed more
  rw [Spelling.admitted_last hLast, Spelling.admitted_any hw, h.iff, hEnds, hLeads]
  simp

theorem Judged.block {items : List (List Spelling)} {list : List Stmt}
    (h : List.Forall₂ (fun ws s => Judged s ws) items list) (span : Span) :
    (Stmt.block span list).Judged (ReadsStmt.braced items) := by
  refine .of_judges ((braced_judged h).congr ?_) (by simp) rfl (v := .mark .rightBrace)
    (by simp [List.getLast?_cons]) rfl
  simp [keepsRegexes_iff (.block _ _), Node.keepsRegex, Child.ofStmt, RowKeepsRegexes]

theorem Judged.expression (h : ∀ allowed, Spelling.Admitted allowed ws ↔
      ((Slot.holds e).leadsRegex Level.sequence = true → allowed = true) ∧ e.KeepsRegexes)
    (span : Span) :
    (Stmt.expression span (.holds e)).Judged (ws ++ [Spelling.mark .semicolon]) := by
  intro allowed more
  rw [List.append_assoc, List.singleton_append, Spelling.admitted_append (by simp), h]
  simp [keepsRegexes_iff (.expression _ _), Node.keepsRegex, Child.ofStmt, Stmt.leadsRegex,
    endsBrace, TokenType.endsOperand, and_assoc]

/-- A statement that ends with another one. -/
theorem Judged.bodied (h : Judges p (w :: front)) (hw : w.type ≠ .regex) (hv : v.type ≠ .regex)
    (hBody : b.Judged body) (hLeads : s.leadsRegex = false) (hEnds : s.endsBrace = b.endsBrace)
    (hKeeps : p ∧ (b.leadsRegex = true → v.allowsRegex = true) ∧ b.KeepsRegexes ↔
      s.KeepsRegexes) : s.Judged (w :: (front ++ v :: body)) := by
  intro allowed more
  have hSplit : w :: (front ++ v :: body) ++ more = w :: front ++ v :: (body ++ more) := by simp
  rw [hSplit, Spelling.admitted_append hv, Spelling.admitted_any hw, h.iff, hBody, ← hKeeps, hEnds,
    hLeads]
  simp [and_assoc]

/-- A word and something in parentheses, up to the closing one. -/
theorem headed_judged (k : Keyword) (h : Judges p test) :
    Judges p (.word k :: .mark .leftParen :: test) :=
  (h.behind rfl).after (by simp) _

/-- A word, something in parentheses, and a body that no regular expression may begin. -/
theorem Judged.headed (k : Keyword) (hHead : Judges p test) (hBody : b.Judged body)
    (hLeads : s.leadsRegex = false) (hEnds : s.endsBrace = b.endsBrace)
    (hKeeps : s.KeepsRegexes ↔ p ∧ b.leadsRegex = false ∧ b.KeepsRegexes) :
    s.Judged (.word k :: (parenRow test ++ body)) := by
  have hAll := bodied (v := .mark .rightParen) (headed_judged k hHead) (by simp) (by simp) hBody
    hLeads hEnds (by simp [hKeeps, TokenType.endsOperand])
  simpa [parenRow] using hAll

theorem Judged.conditional (hTest : Judges e.KeepsRegexes test) (hYes : y.Judged yes)
    (span : Span) :
    (Stmt.conditional span (.holds e) y .absent).Judged
      (.word .kwIf :: (parenRow test ++ yes)) := by
  refine .headed .kwIf hTest hYes rfl rfl ?_
  simp [keepsRegexes_iff (.conditional _ _ _ _), Node.keepsRegex, Child.ofStmt, and_left_comm]

theorem Judged.conditionalElse (hTest : Judges e.KeepsRegexes test) (hYes : y.Judged yes)
    (hNo : n.Judged no) (hPresent : n ≠ .absent) (span : Span) :
    (Stmt.conditional span (.holds e) y n).Judged
      (.word .kwIf :: (parenRow test ++ (yes ++ Spelling.word .kwElse :: no))) := by
  intro allowed more
  have hSplit : .word .kwIf :: (parenRow test ++ (yes ++ Spelling.word .kwElse :: no)) ++ more =
      Spelling.word .kwIf :: .mark .leftParen :: test ++ Spelling.mark .rightParen ::
        (yes ++ Spelling.word .kwElse :: (no ++ more)) := by simp [parenRow]
  have hHead := (headed_judged .kwIf hTest).iff
  rw [Spelling.admitted_cons (by simp)] at hHead
  rw [hSplit, Spelling.admitted_append (by simp), Spelling.admitted_cons (by simp), hHead, hYes,
    Spelling.admitted_cons (by simp), hNo, endsBrace_conditional hPresent]
  simp [keepsRegexes_iff (.conditional _ _ _ _), Node.keepsRegex, Child.ofStmt, leadsRegex,
    TokenType.endsOperand, and_assoc, and_left_comm]

theorem Judged.whileLoop (hTest : Judges e.KeepsRegexes test) (hBody : b.Judged body)
    (span : Span) :
    (Stmt.whileLoop span (.holds e) b).Judged (.word .kwWhile :: (parenRow test ++ body)) := by
  refine .headed .kwWhile hTest hBody rfl rfl ?_
  simp [keepsRegexes_iff (.whileLoop _ _ _), Node.keepsRegex, Child.ofStmt, and_left_comm]

theorem Judged.withObject (hObject : Judges e.KeepsRegexes test) (hBody : b.Judged body)
    (span : Span) :
    (Stmt.withObject span (.holds e) b).Judged (.word .kwWith :: (parenRow test ++ body)) := by
  refine .headed .kwWith hObject hBody rfl rfl ?_
  simp [keepsRegexes_iff (.withObject _ _ _), Node.keepsRegex, Child.ofStmt, and_left_comm]

theorem Judged.labeled (id : Ident) (hBody : b.Judged body) (span : Span) :
    (Stmt.labeled span (some id) b).Judged (.name id.name :: .mark .colon :: body) := by
  have hAll := bodied (s := .labeled span (some id) b) (v := .mark .colon)
    (Judges.single (.name id.name)) (by simp) (by simp) hBody rfl rfl ?_
  · exact hAll
  · simp [keepsRegexes_iff (.labeled _ _ _), Node.keepsRegex, Child.ofStmt, TokenType.endsOperand]

theorem Judged.doWhile (hBody : b.Judged body) (hTest : Judges e.KeepsRegexes test)
    (span : Span) : (Stmt.doWhile span b (.holds e)).Judged
      (.word .kwDo ::
        (body ++ Spelling.word .kwWhile :: (parenRow test ++ [Spelling.mark .semicolon]))) := by
  intro allowed more
  have hSplit :
      .word .kwDo :: (body ++
          Spelling.word .kwWhile :: (parenRow test ++ [Spelling.mark .semicolon])) ++ more =
        .word .kwDo :: (body ++ (Spelling.word .kwWhile :: Spelling.mark .leftParen :: test ++
          .mark .rightParen :: .mark .semicolon :: more)) := by
    simp [parenRow]
  have hHead := (headed_judged .kwWhile hTest).iff
  rw [Spelling.admitted_cons (by simp)] at hHead
  rw [hSplit, Spelling.admitted_cons (by simp), hBody, Spelling.admitted_append (by simp),
    Spelling.admitted_cons (by simp), hHead, Spelling.admitted_cons (by simp)]
  simp [keepsRegexes_iff (.doWhile _ _ _), Node.keepsRegex, Child.ofStmt, leadsRegex, endsBrace,
    TokenType.endsOperand, and_assoc]

theorem Judged.forLoop {head : ForHead} {t u : Slot} {first update : List Spelling}
    (hHead : Judges (Child.KeepRegexes (Child.forHead head)) first)
    (hTest : Judges (Child.KeepRegexes (Child.slot t)) test)
    (hUpdate : Judges (Child.KeepRegexes (Child.slot u)) update) (hBody : b.Judged body)
    (span : Span) : (Stmt.forLoop span head t u b).Judged
      (.word .kwFor :: .mark .leftParen :: (first ++ ReadsStmt.forTail test update body)) := by
  have hParts := hHead.apart (w := .mark .semicolon)
    (hTest.apart (w := .mark .semicolon) hUpdate (by simp) rfl) (by simp) rfl
  have hAll := bodied (s := .forLoop span head t u b) (v := .mark .rightParen)
    (headed_judged .kwFor hParts) (by simp) (by simp) hBody rfl rfl ?_
  · simpa [ReadsStmt.forTail] using hAll
  · simp [keepsRegexes_iff (.forLoop _ _ _ _ _), Node.keepsRegex, Child.ofStmt,
      TokenType.endsOperand, and_assoc, and_left_comm]

theorem Judged.forIn {head : ForHead} {left : List Spelling}
    (hHead : Judges (Child.KeepRegexes (Child.forHead head)) left)
    (hObject : Judges e.KeepsRegexes test) (hBody : b.Judged body) (span : Span) :
    (Stmt.forIn span head (.holds e) b).Judged
      (.word .kwFor :: .mark .leftParen :: (left ++ ReadsStmt.forInTail test body)) := by
  have hParts := hHead.apart (w := .word .kwIn) hObject (by simp) (by simp)
  have hAll := bodied (s := .forIn span head (.holds e) b) (v := .mark .rightParen)
    (headed_judged .kwFor hParts) (by simp) (by simp) hBody rfl rfl ?_
  · simpa [ReadsStmt.forInTail] using hAll
  · simp [keepsRegexes_iff (.forIn _ _ _ _), Node.keepsRegex, Child.ofStmt,
      TokenType.endsOperand, and_assoc, and_left_comm]

theorem clauses_judged {rows : List (List Spelling)} {list : List Case}
    (h : List.Forall₂ (fun ws clause => ReadsStmt.CaseAt c ws clause ∧
      Judges (Node.case clause).KeepsRegexes ws) rows list) (hw : w.type ≠ .regex) :
    Judges (∀ clause ∈ list, (Node.case clause).KeepsRegexes) (rows.flatten ++ [w]) := by
  induction h with
  | nil => exact (Judges.single w).congr (by simp)
  | @cons us clause rows list hFirst hMore ih =>
    obtain ⟨v, vs, hCons, hv⟩ : ∃ v vs, rows.flatten ++ [w] = v :: vs ∧ v.type ≠ .regex := by
      cases hMore with
      | nil => exact ⟨w, [], rfl, hw⟩
      | cons hNext =>
        obtain ⟨v, vs, rfl, hType⟩ := hNext.1.starts
        exact ⟨v, _, rfl, by rcases hType with h | h <;> rw [h] <;> decide⟩
    rw [hCons] at ih
    rw [List.flatten_cons, List.append_assoc, hCons]
    exact (hFirst.2.append ih hv).congr (by simp)

theorem Judged.switchOn {rows : List (List Spelling)} {list : List Case}
    (hTest : Judges e.KeepsRegexes test)
    (h : List.Forall₂ (fun ws clause => ReadsStmt.CaseAt c ws clause ∧
      Judges (Node.case clause).KeepsRegexes ws) rows list) (span : Span) :
    (Stmt.switchOn span (.holds e) list).Judged (.word .kwSwitch ::
      (parenRow test ++
        (Spelling.mark .leftBrace :: (rows.flatten ++ [Spelling.mark .rightBrace])))) := by
  have hClauses := (clauses_judged h (w := .mark .rightBrace) (by simp)).behind
    (w := .mark .leftBrace) rfl
  have hAll := (headed_judged .kwSwitch hTest).append ((Judges.single (.mark .rightParen)).append
    hClauses (by simp)) (by simp)
  refine of_judges (v := .mark .rightBrace) ?_ (by simp) rfl ?_ rfl
  · refine Judges.congr (by simpa [parenRow] using hAll) ?_
    simp [keepsRegexes_iff (.switchOn _ _ _), Node.keepsRegex, Child.ofStmt]
  · simp [parenRow, List.getLast?_cons, List.getLast?_append]

/-- Tokens that may follow a brace and end with one. -/
def Continues (verdict : Prop) (ws : List Spelling) : Prop :=
  ∀ q us, Judges q us → us.getLast? = some (.mark .rightBrace) →
    Judges (q ∧ verdict) (us ++ ws) ∧ (us ++ ws).getLast? = some (.mark .rightBrace)

theorem Continues.nil (hTrue : p) : Continues p [] := by
  intro q us h hLast
  rw [List.append_nil]
  exact ⟨h.congr (and_iff_left hTrue).symm, hLast⟩

theorem Continues.word {k : Keyword} (h : Judges p (.word k :: ws))
    (hLast : (.word k :: ws).getLast? = some (.mark .rightBrace)) :
    Continues p (.word k :: ws) := by
  intro q us hBefore _
  refine ⟨hBefore.append h (by simp), ?_⟩
  rw [List.getLast?_append, hLast]
  rfl

theorem Judged.tryCatch {items : List (List Spelling)} {list : List Stmt}
    {caught final : List Spelling} {handler : Handler} {finalizer : Block}
    (h : List.Forall₂ (fun ws s => Judged s ws) items list)
    (hCaught : Continues (Node.handler handler).KeepsRegexes caught)
    (hFinal : Continues (Child.KeepRegexes (Child.block finalizer)) final) (span inner : Span) :
    (Stmt.tryCatch span (.braces inner list) handler finalizer).Judged
      (.word .kwTry :: (ReadsStmt.braced items ++ (caught ++ final))) := by
  have hTry : Judges (RowKeepsRegexes list) (.word .kwTry :: ReadsStmt.braced items) :=
    (braced_judged h).after (by simp) _
  obtain ⟨hHandled, hEnds⟩ := hCaught _ _ hTry (by simp [ReadsStmt.braced, List.getLast?_cons])
  obtain ⟨hAll, hLast⟩ := hFinal _ _ hHandled hEnds
  rw [← List.append_assoc, ← List.cons_append, ← List.cons_append]
  exact of_judges (hAll.congr (Child.keep_tryCatch ..).symm) (by simp) rfl hLast rfl

end Judged

/-! ### Simple statements -/

variable [PatternCheck]

theorem Good.empty (span : Span) : (Stmt.empty span).Good c := by
  refine fun _ => ⟨_, _, Lexes.plainMark (p := .semicolon) rfl, rfl, ReadsStmt.empty span, ?_⟩
  exact .of_judges (plain_judged (.single _) rfl Child.keep_nil) (by simp) rfl rfl rfl

theorem Good.debugger (span : Span) : (Stmt.debugger span).Good c := by
  intro depth
  have hText : Print.stmt depth (.debugger span) =
      Bytes.ofString Keyword.kwDebugger.text ++ Bytes.ofString Punctuator.semicolon.text := by
    rw [Print.stmt]
    decide
  have hMark : Lexes NotDot NotDot Anything (Bytes.ofString Punctuator.semicolon.text)
      [.mark .semicolon] := Lexes.plainMark rfl
  rw [hText]
  refine ⟨_, _, ?_, rfl, ReadsStmt.debugger span, ?_⟩
  rotate_left
  · exact .of_judges (plain_judged ((Judges.single _).after (by simp) _) rfl Child.keep_nil)
      (by simp) rfl
      rfl rfl
  exact (Lexes.wordAlone .kwDebugger).append hMark fun rest _ =>
    Stops.mark (p := .semicolon) (by decide) true rest

example (span : Span) : Print.stmt 1 (.debugger span) = Bytes.ofString "debugger;" := rfl

theorem Writes.block {good : List Spelling → Stmt → Prop} {list : List Stmt}
    (h : ∀ s ∈ list, s.Writes (good · s)) (span : Span) :
    (Stmt.block span list).Writes fun ws =>
      ∃ items, ws = ReadsStmt.braced items ∧ List.Forall₂ good items list := by
  intro depth
  obtain ⟨items, hItems, hLexes⟩ := braces_lexes h depth
  rw [Print.stmt_block]
  exact ⟨_, _, hLexes.weaken, rfl, items, rfl, hItems⟩

theorem Good.block {list : List Stmt} (h : ∀ s ∈ list, s.Good c) (span : Span) :
    (Stmt.block span list).Good c := by
  refine (Writes.block h span).mono ?_
  rintro ws ⟨items, rfl, hItems⟩
  exact ⟨ReadsStmt.blockStatement (hItems.imp fun _ _ h => h.1) span,
    .block (hItems.imp fun _ _ h => h.2) span⟩

theorem Writes.expression (h : e.Good) (hHeads : e.Heads) (span : Span) :
    (Stmt.expression span (.holds e)).Writes fun ws =>
      ∃ level us, ws = us ++ [Spelling.mark .semicolon] ∧ ReadsAt level false us e ∧
        (∀ v, us.head? = some v →
          v.type ≠ .punctuator .leftBrace ∧ v.type ≠ .keyword .kwFunction) ∧
        ∀ allowed, Spelling.Admitted allowed us ↔
          ((Slot.holds e).leadsRegex Level.sequence = true → allowed = true) ∧ e.KeepsRegexes := by
  intro depth
  obtain ⟨ws, hws⟩ := h.slot depth false Level.sequence (by decide)
  obtain ⟨w, more, tail, rfl, hText, hLeads⟩ := hws.front
  rw [Print.stmt, Print.expressionStatement]
  split
  · rename_i hOpens
    have hParens := hws.parens false
    have hEnd : Bytes.ofString ");" = Bytes.ofString ")" ++ Bytes.ofString ";" := by decide
    refine ⟨_, _, ?_, rfl, _, _, rfl, hParens.reads false id, ?_, fun allowed => ?_⟩
    · simpa [hEnd] using hParens.lexes.ended
    · rintro w ⟨⟩
      decide
    · have hPlain : (Slot.holds e).leadsRegex Level.sequence = false := by
        rw [← Bool.not_eq_true, ← hHeads.slot_head depth Bool.false_ne_true.elim]
        simp only [Bool.or_eq_true, List.isPrefixOf_iff_prefix] at hOpens
        rintro hSlash
        rcases hOpens with ⟨rest, hRest⟩ | ⟨rest, hRest⟩ <;> · rw [← hRest] at hSlash; cases hSlash
      rw [Spelling.admitted_any (by simp), hParens.judged.iff, hPlain]
      simp
  · rename_i hPlain
    simp only [Bool.or_eq_true, not_or, List.isPrefixOf_iff_prefix] at hPlain
    refine ⟨w, more ++ [Spelling.mark .semicolon], ?_, hLeads.joined, _, _, rfl,
      hws.reads false id, ?_,
      fun allowed => ?_⟩
    · simpa using hws.lexes.ended
    rotate_left
    · rw [hws.front.admitted, hws.judged.iff, hHeads.slot_head depth Bool.false_ne_true.elim]
    · rintro w ⟨⟩
      refine ⟨fun hType => hPlain.1 ?_, fun hType => hPlain.2 ?_⟩
      · rw [hText, hLeads.brace hType]
        exact List.prefix_append _ _
      · rw [hText, hLeads.function hType]
        exact List.prefix_append _ _

theorem Good.expression (h : e.Good) (hHeads : e.Heads) (span : Span) :
    (Stmt.expression span (.holds e)).Good c := by
  refine (Writes.expression h hHeads span).mono ?_
  rintro ws ⟨level, us, rfl, hReads, hStart, hJudged⟩
  exact ⟨ReadsStmt.expressionStatement hReads hStart span, .expression hJudged span⟩

/-! ### Statements with bodies -/

variable {y n : Stmt} {good goodY goodN : List Spelling → Prop}

/-- The body of a compound statement may follow any operand directly. -/
theorem Writes.body (h : s.Writes good) (depth : Nat) :
    ∃ ws, Lexes NotDot NotDot Anything (Print.body depth s fun depth => Print.stmt depth s) ws ∧
      good ws ∧ ∃ b tail,
        (Print.body depth s fun depth => Print.stmt depth s) = b :: tail ∧ Stops true [b] := by
  have hBlank : Bytes.ofString " " = [32] := by decide
  have hFeed : Bytes.ofString "\n" = [10] := by decide
  obtain ⟨v, vs, hSame, -, hws⟩ := h depth
  obtain ⟨w, more, hDeeper, hFree, hus⟩ := h (depth + 1)
  unfold Print.body
  split
  · rw [hBlank]
    exact ⟨v :: vs, hSame.blank, hws, 32, _, rfl, by decide⟩
  · refine ⟨v :: vs, ?_, hws, 59, [], by decide, by decide⟩
    simpa [Print.stmt] using hSame
  · have hLine := (hDeeper.indent (2 * (depth + 1))).newline hFree
    have hText : Bytes.cat ["\n", Print.indent (depth + 1), Print.stmt (depth + 1) s] =
        10 :: (Bytes.replicate (2 * (depth + 1)) 32 ++ Print.stmt (depth + 1) s) := by
      simp [hFeed, Print.indent]
    exact ⟨w :: more, hText ▸ hLine, hus, 10, _, hText, by decide⟩

/-- A word, an expression in parentheses and a body. -/
theorem Writes.headed (k : Keyword) (hHead : e.Good) (hBody : b.Writes good)
    (hText : ∀ depth, Print.stmt depth s = Bytes.ofString k.text ++ 32 :: (Bytes.ofString "(" ++
      (Print.slot depth false Level.sequence (.holds e) ++ (Bytes.ofString ")" ++
        Print.body depth b fun depth => Print.stmt depth b)))) :
    s.Writes fun ws => ∃ head body, ws = .word k :: (parenRow head ++ body) ∧
      ReadsAt Level.sequence false head e ∧ Judges e.KeepsRegexes head ∧ good body := by
  intro depth
  obtain ⟨ws, hws⟩ := hHead.slot depth false Level.sequence (by decide)
  obtain ⟨us, hus, hReads, -⟩ := hBody.body depth
  rw [hText]
  exact ⟨_, _, hws.lexes.headed k hus, rfl, ws, us, rfl, hws.reads false id, hws.judged, hReads⟩

theorem Writes.conditional (hTest : e.Good) (hYes : y.Writes good) (span : Span) :
    (Stmt.conditional span (.holds e) y .absent).Writes fun ws =>
      ∃ test yes, ws = .word .kwIf :: (parenRow test ++ yes) ∧
        ReadsAt Level.sequence false test e ∧ Judges e.KeepsRegexes test ∧ good yes := by
  have hHead : Bytes.ofString "if (" = Bytes.ofString Keyword.kwIf.text ++ 32 :: Bytes.ofString "("
    := by decide
  exact .headed .kwIf hTest hYes fun depth => by simp [Print.stmt, isPresent, hHead]

theorem Good.conditional (hTest : e.Good) (hYes : y.Good c) (span : Span) :
    (Stmt.conditional span (.holds e) y .absent).Good c := by
  refine (Writes.conditional hTest hYes span).mono ?_
  rintro ws ⟨test, yes, rfl, hAt, hTest, hReads, hYes⟩
  exact ⟨ReadsStmt.conditional hAt hReads span, .conditional hTest hYes span⟩

theorem Writes.whileLoop (hTest : e.Good) (hBody : b.Writes good) (span : Span) :
    (Stmt.whileLoop span (.holds e) b).Writes fun ws =>
      ∃ test body, ws = .word .kwWhile :: (parenRow test ++ body) ∧
        ReadsAt Level.sequence false test e ∧ Judges e.KeepsRegexes test ∧ good body := by
  have hHead : Bytes.ofString "while (" =
      Bytes.ofString Keyword.kwWhile.text ++ 32 :: Bytes.ofString "(" := by decide
  exact .headed .kwWhile hTest hBody fun depth => by simp [Print.stmt, hHead]

theorem Good.whileLoop (hTest : e.Good) (hBody : b.Good c.loop) (span : Span) :
    (Stmt.whileLoop span (.holds e) b).Good c := by
  refine (Writes.whileLoop hTest hBody span).mono ?_
  rintro ws ⟨test, body, rfl, hAt, hTest, hReads, hBody⟩
  exact ⟨ReadsStmt.whileLoop hAt hReads span, .whileLoop hTest hBody span⟩

theorem Writes.withObject (hObject : e.Good) (hBody : b.Writes good) (span : Span) :
    (Stmt.withObject span (.holds e) b).Writes fun ws =>
      ∃ object body, ws = .word .kwWith :: (parenRow object ++ body) ∧
        ReadsAt Level.sequence false object e ∧ Judges e.KeepsRegexes object ∧ good body := by
  have hHead : Bytes.ofString "with (" =
      Bytes.ofString Keyword.kwWith.text ++ 32 :: Bytes.ofString "(" := by decide
  exact .headed .kwWith hObject hBody fun depth => by simp [Print.stmt, hHead]

theorem Good.withObject (hObject : e.Good) (hBody : b.Good c) (span : Span) :
    (Stmt.withObject span (.holds e) b).Good c := by
  refine (Writes.withObject hObject hBody span).mono ?_
  rintro ws ⟨object, body, rfl, hAt, hObject, hReads, hBody⟩
  exact ⟨ReadsStmt.withObject hAt hReads span, .withObject hObject hBody span⟩

/-- The second branch of a conditional, with the word before it. -/
theorem Writes.alternate (h : n.Writes good) (depth : Nat) (block : Bool) :
    ∃ ws, Lexes NotDot NotDot Anything (Print.afterBody depth block ++ (Bytes.ofString "else" ++
      if Print.isIf n then Bytes.ofString " " ++ Print.stmt depth n
      else Print.body depth n fun depth => Print.stmt depth n)) (.word .kwElse :: ws) ∧
      good ws := by
  cases hIf : Print.isIf n with
  | true =>
    obtain ⟨w, more, hLexes, -, hws⟩ := h depth
    have hWord := Lexes.word .kwElse hLexes.blank (by decide)
    exact ⟨w :: more, hWord.afterBody rfl depth block, hws⟩
  | false =>
    obtain ⟨ws, hws, hReads, byte, tail, hText, hByte⟩ := h.body depth
    rw [if_neg (by simp), hText]
    rw [hText] at hws
    exact ⟨ws, (Lexes.word .kwElse hws hByte).afterBody rfl depth block, hReads⟩

omit [PatternCheck] in
theorem isPresent_of_ne (h : n ≠ .absent) : n.isPresent = true := by
  cases n with
  | absent => exact absurd rfl h
  | _ => rfl

/-- A first branch that is no `if` without `else` stands before the word as it is. -/
theorem Writes.conditionalElse (hTest : e.Good) (hYes : y.Writes goodY)
    (hOpen : Print.isOpenIf y = false) (hNo : n.Writes goodN) (hPresent : n ≠ .absent)
    (span : Span) :
    (Stmt.conditional span (.holds e) y n).Writes fun ws =>
      ∃ test yes no, ws = .word .kwIf :: (parenRow test ++ (yes ++ Spelling.word .kwElse :: no)) ∧
        ReadsAt Level.sequence false test e ∧ Judges e.KeepsRegexes test ∧ goodY yes ∧
        goodN no := by
  intro depth
  obtain ⟨ws, hws⟩ := hTest.slot depth false Level.sequence (by decide)
  obtain ⟨us, hus, hReads, -⟩ := hYes.body depth
  obtain ⟨vs, hvs, hElse⟩ := hNo.alternate depth (Print.isBlock y)
  have hHead : Bytes.ofString "if (" = Bytes.ofString Keyword.kwIf.text ++ 32 :: Bytes.ofString "("
    := by decide
  have hBranches := hus.append hvs fun _ _ => trivial
  refine ⟨_, _, ?_, rfl, ws, us, vs, rfl, hws.reads false id, hws.judged, hReads, hElse⟩
  simpa [Print.stmt, isPresent_of_ne hPresent, hOpen, hHead] using hws.lexes.headed .kwIf hBranches

omit [PatternCheck] in
theorem isOpenIf_of_endsOpen (h : y.endsOpen = false) : Print.isOpenIf y = false := by
  cases hOpen : Print.isOpenIf y with
  | false => rfl
  | true =>
    unfold Print.isOpenIf at hOpen
    split at hOpen
    · cases h
    · cases hOpen

theorem Good.conditionalElse (hTest : e.Good) (hYes : y.Good c) (hClosed : y.endsOpen = false)
    (hNo : n.Good c) (hPresent : n ≠ .absent) (span : Span) :
    (Stmt.conditional span (.holds e) y n).Good c := by
  have hWrites :=
    Writes.conditionalElse hTest hYes (isOpenIf_of_endsOpen hClosed) hNo hPresent span
  refine hWrites.mono ?_
  rintro ws ⟨test, yes, no, rfl, hAt, hTest, hReads, hElse⟩
  exact ⟨ReadsStmt.conditionalElse hAt hReads.1 hClosed hElse.1 hPresent span,
    .conditionalElse hTest hReads.2 hElse.2 hPresent span⟩

theorem Good.doWhile (hBody : b.Good c.loop) (hTest : e.Good) (span : Span) :
    (Stmt.doWhile span b (.holds e)).Good c := by
  intro depth
  obtain ⟨ws, hws, hReads, byte, tail, hText, hByte⟩ := hBody.body depth
  obtain ⟨us, hus⟩ := hTest.slot depth false Level.sequence (by decide)
  have hHead : Bytes.ofString "while (" =
      Bytes.ofString Keyword.kwWhile.text ++ 32 :: Bytes.ofString "(" := by decide
  have hEnd : Bytes.ofString ");" = Bytes.ofString ")" ++ Bytes.ofString ";" := by decide
  have hLast := (hus.lexes.headed .kwWhile (Lexes.plainMark (p := .semicolon) rfl)).afterBody rfl
    depth (Print.isBlock b)
  have hAll := hws.append hLast fun _ _ => trivial
  rw [hText, List.cons_append] at hAll
  refine ⟨_, _, ?_, rfl, ReadsStmt.doWhile hReads.1 (hus.reads false id) span,
    .doWhile hReads.2 hus.judged span⟩
  have hDo := Lexes.word .kwDo hAll hByte
  rw [← List.cons_append, ← hText] at hDo
  simpa [Print.stmt, parenRow, hHead, hEnd, Punctuator.text, Keyword.text] using hDo

theorem Writes.labeled {id : Ident} (hName : id.Writable) (hBody : b.Writes good) (span : Span) :
    (Stmt.labeled span (some id) b).Writes fun ws =>
      ∃ body, ws = .name id.name :: .mark .colon :: body ∧ good body := by
  intro depth
  obtain ⟨w, more, hLexes, -, hGood⟩ := hBody depth
  have hColon : Bytes.ofString ": " = Bytes.ofString ":" ++ [32] := by decide
  have hAll := (Lexes.name hName.1 hName.2).thenMark (p := .colon) hLexes.blank rfl
  refine ⟨_, _, ?_, rfl, w :: more, rfl, hGood⟩
  simpa [Print.stmt, hColon, Punctuator.text] using hAll

theorem Good.labeled {id : Ident} (hName : id.Writable) (hNew : c.labels.contains id.name = false)
    (hBody : b.Good (c.label id.name)) (span : Span) : (Stmt.labeled span (some id) b).Good c := by
  refine (Writes.labeled hName hBody span).mono ?_
  rintro ws ⟨body, rfl, hReads, hBody⟩
  exact ⟨ReadsStmt.labeled hNew hReads span, .labeled id hBody span⟩

/-! ### Jumps -/

omit [PatternCheck] in
/-- The tokens of a jump. -/
theorem Judged.jump {k : Keyword} {label : Option Ident}
    (hNode : (Node.stmt s).keepsRegex = true) (hChildren : Child.KeepRegexes (Child.ofStmt s))
    (hLeads : s.leadsRegex = false) (hEnds : s.endsBrace = false) :
    s.Judged (.word k :: (ReadsStmt.labelRow label ++ [Spelling.mark .semicolon])) := by
  have hJudged : Judges True
      (.word k :: (ReadsStmt.labelRow label ++ [Spelling.mark .semicolon])) := by
    cases label with
    | none => exact (Judges.single _).after (by simp) _
    | some id =>
      exact ((Judges.single _).after (by simp) (Spelling.name id.name).join).after nofun _
  refine .of_judges (plain_judged hJudged hNode hChildren) (by simp) hLeads
    (v := .mark .semicolon) ?_ ?_
  · simp [List.getLast?_cons]
  · simp [hEnds, TokenType.endsOperand]

/-- The text of a jump with its label. -/
theorem jump_lexes (k : Keyword) {label : Option Ident}
    (hName : ∀ id, label = some id → id.Writable) :
    Lexes NotDot NotDot Anything (Print.stmt.jump (Bytes.ofString k.text) label)
      (.word k :: (ReadsStmt.labelRow label ++ [Spelling.mark .semicolon])) := by
  cases label with
  | none =>
    have hMark : Lexes NotDot NotDot Anything (Bytes.ofString Punctuator.semicolon.text)
        [.mark .semicolon] := Lexes.plainMark rfl
    have hAll := (Lexes.wordAlone k).append hMark fun rest _ =>
      Stops.mark (p := .semicolon) (by decide) true rest
    simpa [Print.stmt.jump, ReadsStmt.labelRow, Punctuator.text] using hAll
  | some id =>
    obtain ⟨hPlain, hFree⟩ := hName id rfl
    have hGap : NoGap (id.name ++ Bytes.ofString ";") :=
      (Fronted.of_leads (Spelling.leads_name hPlain) _ []).noGap
    have hLabel := ((Lexes.name hPlain hFree).ended.join hGap).blank
    have hAll := Lexes.word k hLabel (by decide)
    simpa [Print.stmt.jump, ReadsStmt.labelRow, show Bytes.ofString " " = [32] by decide] using hAll

theorem Good.continueTo {label : Option Ident} (hLoop : c.inLoop = true)
    (hName : ∀ id, label = some id → id.Writable)
    (hLabel : ∀ id, label = some id → c.labels.contains id.name = true) (span : Span) :
    (Stmt.continueTo span label).Good c := by
  intro depth
  refine ⟨_, _, ?_, rfl, ReadsStmt.continueTo hLoop hLabel span,
    .jump rfl (Child.keep_ident _) rfl rfl⟩
  rw [Print.stmt]
  exact jump_lexes .kwContinue hName

theorem Good.breakTo {label : Option Ident}
    (hPlace : (label.isNone && !c.inLoop && !c.inSwitch) = false)
    (hName : ∀ id, label = some id → id.Writable)
    (hLabel : ∀ id, label = some id → c.labels.contains id.name = true) (span : Span) :
    (Stmt.breakTo span label).Good c := by
  intro depth
  refine ⟨_, _, ?_, rfl, ReadsStmt.breakTo hPlace hLabel span,
    .jump rfl (Child.keep_ident _) rfl rfl⟩
  rw [Print.stmt]
  exact jump_lexes .kwBreak hName

/-- A word and the expression it takes, which starts on its line. -/
theorem taken_lexes (k : Keyword) {level : Nat} {noIn : Bool} {text : Bytes} {ws : List Spelling}
    (h : e.Rereads level noIn text ws) :
    ∃ w more, ws = w :: more ∧
      Lexes NotDot NotDot Anything (Bytes.ofString k.text ++ 32 :: (text ++ Bytes.ofString ";"))
        (.word k :: (w.join :: more ++ [Spelling.mark .semicolon])) := by
  obtain ⟨w, more, rfl⟩ := List.exists_cons_of_ne_nil (h.reads false nofun).begins.ne_nil
  have hGap : NoGap (text ++ Bytes.ofString ";") := (h.front.append _ []).noGap
  exact ⟨w, more, rfl, Lexes.word k (h.lexes.ended.join hGap).blank (by decide)⟩

theorem Good.returnNothing (hFunction : c.inFunction = true) (span : Span) :
    (Stmt.returnValue span .absent).Good c := by
  intro depth
  have hText : Print.stmt depth (.returnValue span .absent) =
      Print.stmt.jump (Bytes.ofString Keyword.kwReturn.text) none := by
    rw [Print.stmt]
    decide
  rw [hText]
  exact ⟨_, _, jump_lexes .kwReturn (by simp), rfl, ReadsStmt.returnNothing hFunction span,
    .jump rfl Child.keep_slot_absent rfl rfl⟩

omit [PatternCheck] in
/-- The tokens of a word that a regular expression may follow, and of the expression it takes. -/
theorem Judged.taken {k : Keyword} {w : Spelling} {more : List Spelling}
    (h : Judges e.KeepsRegexes (w :: more)) (hAllows : (Spelling.word k).allowsRegex = true)
    (hKeeps : s.KeepsRegexes ↔ e.KeepsRegexes) (hLeads : s.leadsRegex = false)
    (hEnds : s.endsBrace = false) :
    s.Judged (.word k :: (w.join :: more ++ [Spelling.mark .semicolon])) := by
  refine .of_judges (((h.closed (by simp)).behind hAllows).congr hKeeps.symm) (by simp) hLeads
    (v := .mark .semicolon) ?_ ?_
  · simp [List.getLast?_cons]
  · simp [hEnds, TokenType.endsOperand]

theorem Good.returnValue (hFunction : c.inFunction = true) (h : e.Good) (span : Span) :
    (Stmt.returnValue span (.holds e)).Good c := by
  intro depth
  obtain ⟨ws, hws⟩ := h.slot depth false Level.sequence (by decide)
  obtain ⟨w, more, rfl, hLexes⟩ := taken_lexes .kwReturn hws
  have hWord : Bytes.ofString "return " = Bytes.ofString Keyword.kwReturn.text ++ [32] := by decide
  refine ⟨_, _, ?_, rfl, ReadsStmt.returnValue hFunction (hws.reads false id) span,
    .taken hws.judged (by simp) ?_ rfl rfl⟩
  rotate_left
  · simp [keepsRegexes_iff (.returnValue _ _), Node.keepsRegex, Child.ofStmt]
  simpa [Print.stmt, hWord] using hLexes

theorem Good.throwValue (h : e.Good) (span : Span) : (Stmt.throwValue span (.holds e)).Good c := by
  intro depth
  obtain ⟨ws, hws⟩ := h.slot depth false Level.sequence (by decide)
  obtain ⟨w, more, rfl, hLexes⟩ := taken_lexes .kwThrow hws
  have hWord : Bytes.ofString "throw " = Bytes.ofString Keyword.kwThrow.text ++ [32] := by decide
  refine ⟨_, _, ?_, rfl, ReadsStmt.throwValue (hws.reads false id) span,
    .taken hws.judged (by simp) ?_ rfl rfl⟩
  rotate_left
  · simp [keepsRegexes_iff (.throwValue _ _), Node.keepsRegex, Child.ofStmt]
  simpa [Print.stmt, hWord] using hLexes

/-! ### Functions and declarations -/

theorem Good.function {id : Ident} {params : List Ident} {body : List Stmt} (hName : id.Writable)
    (hParams : ∀ p ∈ params, p.Writable) (hBody : ∀ s ∈ body, s.Good Context.function)
    (span inner : Span) : (Stmt.function span (.plain (some id) params inner body)).Good c := by
  intro depth
  have hNames : ∀ n, some id = some n → n.Writable := fun n hn => Option.some.inj hn ▸ hName
  obtain ⟨items, hItems, hLexes, hJudged⟩ := wholeFunction_lexes hNames hParams hBody depth inner
  refine ⟨_, _, ?_, rfl, ReadsStmt.function hItems id params span inner,
    .of_judges (hJudged.congr ?_) (by simp) rfl (v := .mark .rightBrace) ?_ rfl⟩
  rotate_left
  · simp [keepsRegexes_iff (.function _ _), Node.keepsRegex, Child.ofStmt, Child.keep_function]
  · simp [ReadsStmt.braced, List.getLast?_cons, List.getLast?_append]
  rw [Print.stmt]
  exact hLexes.weaken

end Stmt

variable [PatternCheck]

/-- The declarator has a name, and its value, if any, reads back. -/
inductive Declarator.Good : Declarator → Prop
  | plain {id : Ident} (span : Span) : id.Writable → Good (.bind span (.holds (.ident id)) .absent)
  | init {id : Ident} {e : Expr} (span : Span) : id.Writable → e.Good →
      Good (.bind span (.holds (.ident id)) (.holds e))

omit [PatternCheck] in
theorem Ident.Writable.slot_text {id : Ident} (depth : Nat) (noIn : Bool) :
    Print.slot depth noIn Level.assign (.holds (.ident id)) = id.name := by
  rw [Expr.slot_primary rfl rfl depth noIn (by decide), Print.expr_ident]

namespace Stmt

theorem declarator_lexes {d : Declarator} (h : d.Good) (depth : Nat) (noIn : Bool) :
    ∃ ws, ReadsStmt.DeclaratorAt noIn ws d ∧
      Lexes NotDot AfterOperand (Stops false) (Print.declarator depth noIn d) ws ∧
      Judges (Node.declarator d).KeepsRegexes ws := by
  cases h with
  | @plain id span hName =>
    refine ⟨_, .plain span id, ?_, (Judges.single _).congr (by simp)⟩
    rw [Print.declarator, Ident.Writable.slot_text]
    exact (Lexes.name hName.1 hName.2).stop_mono fun _ => Stops.mono
  | @init id e span hName hInit =>
    obtain ⟨ws, hws⟩ := hInit.slot depth noIn Level.assign (by decide)
    refine ⟨_, .init span id (hws.reads noIn fun h => h), ?_,
      ((hws.judged.behind rfl).after (by simp) _).congr (by simp)⟩
    have hEquals :
        Bytes.ofString " = " = 32 :: (Bytes.ofString Punctuator.assign.text ++ [32]) := by
      decide
    have hValue : Lexes NotDot AfterOperand (Stops false)
        (Print.slot depth noIn Level.assign (.holds e)) ws := hws.lexes
    have hMark := (Lexes.operator (p := .assign) (by decide)).append hValue.blank fun _ _ => rfl
    have hAll := (Lexes.name hName.1 hName.2).thenBlank hMark
    simpa [Print.declarator, Ident.Writable.slot_text, hEquals] using hAll

theorem declarators_lexes {list : List Declarator} (h : ∀ d ∈ list, d.Good) (depth : Nat)
    (noIn : Bool) :
    ∃ rows, List.Forall₂ (ReadsStmt.DeclaratorAt noIn) rows list ∧
      List.Forall₂ (Lexes NotDot AfterOperand (Stops false)) (Print.declarators depth noIn list)
        rows ∧
      List.Forall₂ (fun ws d => Judges (Node.declarator d).KeepsRegexes ws) rows list := by
  induction list with
  | nil => exact ⟨[], .nil, .nil, .nil⟩
  | cons d list ih =>
    obtain ⟨rows, hRows, hMore, hVerdicts⟩ := ih fun d hd => h d (List.mem_cons_of_mem _ hd)
    obtain ⟨ws, hws, hFirst, hVerdict⟩ := declarator_lexes (h d List.mem_cons_self) depth noIn
    exact ⟨ws :: rows, .cons hws hRows, .cons hFirst hMore, .cons hVerdict hVerdicts⟩

/-- The text of a row of declarators with the word that starts it. -/
theorem var_lexes {list : List Declarator} (h : ∀ d ∈ list, d.Good) (hne : list ≠ [])
    (depth : Nat) (noIn : Bool) :
    ∃ rows, List.Forall₂ (ReadsStmt.DeclaratorAt noIn) rows list ∧ rows ≠ [] ∧
      Lexes NotDot AfterOperand (Stops false) (Bytes.ofString Keyword.kwVar.text ++
        32 :: Bytes.join ", " (Print.declarators depth noIn list)) (.word .kwVar :: commaRow rows) ∧
      Judges (∀ d ∈ list, (Node.declarator d).KeepsRegexes) (.word .kwVar :: commaRow rows) := by
  obtain ⟨rows, hRows, hTexts, hVerdicts⟩ := declarators_lexes h depth noIn
  obtain ⟨d, list, rfl⟩ := List.exists_cons_of_ne_nil hne
  refine ⟨rows, hRows, ?_, ?_, ?_⟩
  · rintro rfl
    cases hRows
  · exact Lexes.word .kwVar (Lexes.row hTexts (by simp [Print.declarators])).blank (by decide)
  · have hRow := Judges.row hVerdicts
    -- The first declarator begins with its name.
    cases hRows with
    | cons hFirst => cases hFirst <;> exact hRow.after (by simp) _

theorem Good.declaration {list : List Declarator} (h : ∀ d ∈ list, d.Good) (hne : list ≠ [])
    (span : Span) : (Stmt.declaration span "var" list).Good c := by
  intro depth
  obtain ⟨rows, hRows, hSome, hLexes, hJudged⟩ := var_lexes h hne depth false
  have hWord : Bytes.ofString "var" ++ (Bytes.ofString " " ++ Bytes.join (Bytes.ofString ", ")
      (Print.declarators depth false list)) = Bytes.ofString Keyword.kwVar.text ++ 32 :: Bytes.join
      (Bytes.ofString ", ") (Print.declarators depth false list) := by
    rw [show Bytes.ofString " " = [32] by decide]
    rfl
  refine ⟨_, _, ?_, rfl, ReadsStmt.declaration hRows hSome span,
    .of_judges ((hJudged.closed (w := .mark .semicolon) (by simp)).congr (by simp)) (by simp) rfl
      (v := .mark .semicolon) (by simp [List.getLast?_cons]) rfl⟩
  have hAll := hLexes.ended
  rw [← hWord] at hAll
  simpa [Print.stmt] using hAll

end Stmt

/-! ### Loops with heads -/

/-- The first part of a loop head reads back. -/
inductive ForHead.Good : ForHead → Prop
  | absent : Good .absent
  | declaration {list : List Declarator} (span : Span) : (∀ d ∈ list, d.Good) → list ≠ [] →
      Good (.declaration span "var" list)
  | expression {e : Expr} : e.Good → Good (.expression (.holds e))

namespace Stmt

theorem head_lexes {head : ForHead} (h : head.Good) (hPresent : head ≠ .absent) (depth : Nat) :
    ∃ ws, ReadsStmt.HeadAt ws head ∧
      Lexes NotDot AfterOperand (Stops false) (Print.forHead depth head) ws ∧
      Judges (Child.KeepRegexes (Child.forHead head)) ws := by
  cases h with
  | absent => exact absurd rfl hPresent
  | @declaration list span hList hne =>
    obtain ⟨rows, hRows, hSome, hLexes, hJudged⟩ := var_lexes hList hne depth true
    refine ⟨_, .declaration span hRows hSome, ?_, hJudged.congr (by simp)⟩
    have hText : Print.forHead depth (.declaration span "var" list) =
        Bytes.ofString Keyword.kwVar.text ++
          32 :: Bytes.join ", " (Print.declarators depth true list) := by
      simp only [Print.forHead, List.flatten_cons, List.flatten_nil, List.append_nil]
      rw [show Bytes.ofString " " = [32] by decide]
      rfl
    rw [hText]
    exact hLexes
  | @expression e hExpr =>
    obtain ⟨ws, hws⟩ := hExpr.slot depth true Level.sequence (by decide)
    refine ⟨ws, .expression (hws.reads true fun h => h), ?_,
      hws.judged.congr (Child.keep_slot_holds e).symm⟩
    rw [Print.forHead]
    exact hws.lexes

variable {exit : Option Token → Prop} {stop : Bytes → Prop} {tail : Bytes} {us : List Spelling}

theorem headThen_lexes {head : ForHead} (h : head.Good) (depth : Nat)
    (hTail : Lexes NotDot exit stop tail us) :
    ∃ ws, ReadsStmt.HeadAt ws head ∧ Lexes NotDot exit stop
      (Print.forHead depth head ++ (Bytes.ofString Punctuator.semicolon.text ++ tail))
      (ws ++ Spelling.mark .semicolon :: us) ∧
      Judges (Child.KeepRegexes (Child.forHead head)) ws := by
  by_cases hPresent : head = .absent
  · subst hPresent
    refine ⟨[], .absent, ?_, Judges.nil.congr (iff_of_true trivial Child.keep_nil)⟩
    rw [Print.forHead]
    exact hTail.mark rfl
  · obtain ⟨ws, hws, hLexes, hJudged⟩ := head_lexes h hPresent depth
    exact ⟨ws, hws, hLexes.thenMark hTail rfl, hJudged⟩

theorem partThen_lexes {slot : Slot} (h : slot.Good) (depth : Nat) {p : Punctuator}
    (hPlain : p.isPlain = true) (hTail : Lexes NotDot exit stop tail us) :
    ∃ ws, ReadsStmt.PartAt ws slot ∧ Lexes NotDot exit stop
      (Print.headPart depth slot ++ (Bytes.ofString p.text ++ tail)) (ws ++ Spelling.mark p :: us) ∧
      Judges (Child.KeepRegexes (Child.slot slot)) ws := by
  cases slot with
  | absent =>
    refine ⟨[], rfl, ?_, Judges.nil.congr (by simp)⟩
    rw [Print.headPart]
    exact hTail.mark hPlain
  | vacant => cases h
  | holds e =>
    obtain ⟨ws, hws⟩ := Expr.Good.slot h depth false Level.sequence (by decide)
    refine ⟨ws, hws.reads false id, ?_, hws.judged.congr (by simp)⟩
    have hText : Print.headPart depth (.holds e) =
        32 :: Print.slot depth false Level.sequence (.holds e) := by
      rw [Print.headPart, Print.slot, show Bytes.ofString " " = [32] by decide]
      rfl
    rw [hText]
    exact (hws.lexes.thenMark hTail hPlain).blank

theorem Writes.forLoop {head : ForHead} {t u : Slot} (hHead : head.Good) (hTest : t.Good)
    (hUpdate : u.Good) (hBody : b.Writes good) (span : Span) :
    (Stmt.forLoop span head t u b).Writes fun ws =>
      ∃ first test update body, ws = .word .kwFor :: .mark .leftParen ::
          (first ++ ReadsStmt.forTail test update body) ∧
        (ReadsStmt.HeadAt first head ∧ Judges (Child.KeepRegexes (Child.forHead head)) first) ∧
        (ReadsStmt.PartAt test t ∧ Judges (Child.KeepRegexes (Child.slot t)) test) ∧
        (ReadsStmt.PartAt update u ∧ Judges (Child.KeepRegexes (Child.slot u)) update) ∧
        good body := by
  intro depth
  obtain ⟨body, hBodyLexes, hBodyReads, -⟩ := hBody.body depth
  obtain ⟨update, hUpdateAt, hUpdateLexes, hUpdateJudged⟩ :=
    partThen_lexes hUpdate depth (p := .rightParen) rfl hBodyLexes
  obtain ⟨test, hTestAt, hTestLexes, hTestJudged⟩ :=
    partThen_lexes hTest depth (p := .semicolon) rfl hUpdateLexes
  obtain ⟨ws, hHeadAt, hLexes, hHeadJudged⟩ := headThen_lexes hHead depth hTestLexes
  have hAll := Lexes.word .kwFor (hLexes.mark (p := .leftParen) rfl).blank (by decide)
  have hFor : Bytes.ofString "for (" =
      Bytes.ofString Keyword.kwFor.text ++ 32 :: Bytes.ofString "(" := by decide
  refine ⟨_, _, ?_, rfl, ws, test, update, body, rfl, ⟨hHeadAt, hHeadJudged⟩,
    ⟨hTestAt, hTestJudged⟩, ⟨hUpdateAt, hUpdateJudged⟩, hBodyReads⟩
  simpa [Print.stmt, ReadsStmt.forTail, hFor, Punctuator.text] using hAll

theorem Good.forLoop {head : ForHead} {t u : Slot} (hHead : head.Good) (hTest : t.Good)
    (hUpdate : u.Good) (hBody : b.Good c.loop) (span : Span) :
    (Stmt.forLoop span head t u b).Good c := by
  refine (Writes.forLoop hHead hTest hUpdate hBody span).mono ?_
  rintro ws ⟨first, test, update, body, rfl, hHead, hTest, hUpdate, hBody⟩
  exact ⟨ReadsStmt.forLoop hHead.1 hTest.1 hUpdate.1 hBody.1 span,
    .forLoop hHead.2 hTest.2 hUpdate.2 hBody.2 span⟩

theorem Writes.forIn {head : ForHead} (hHead : head.Good)
    (hTarget : ReadsStmt.isTarget head = true) (hObject : e.Good) (hBody : b.Writes good)
    (span : Span) :
    (Stmt.forIn span head (.holds e) b).Writes fun ws =>
      ∃ left object body, ws = .word .kwFor :: .mark .leftParen ::
          (left ++ ReadsStmt.forInTail object body) ∧
        (ReadsStmt.HeadAt left head ∧ Judges (Child.KeepRegexes (Child.forHead head)) left) ∧
        (ReadsAt Level.sequence false object e ∧ Judges e.KeepsRegexes object) ∧ good body := by
  intro depth
  obtain ⟨body, hBodyLexes, hBodyReads, -⟩ := hBody.body depth
  obtain ⟨object, hObjectAt⟩ := hObject.slot depth false Level.sequence (by decide)
  have hPresent : head ≠ .absent := by
    rintro rfl
    cases hTarget
  obtain ⟨ws, hHeadAt, hLexes, hHeadJudged⟩ := head_lexes hHead hPresent depth
  have hIn := Lexes.word .kwIn
    (hObjectAt.lexes.thenMark (p := .rightParen) hBodyLexes rfl).blank (by decide)
  have hInner := (hLexes.thenBlank hIn.afterOperand).mark (p := .leftParen) rfl
  have hAll := Lexes.word .kwFor hInner.blank (by decide)
  have hFor : Bytes.ofString "for (" =
      Bytes.ofString Keyword.kwFor.text ++ 32 :: Bytes.ofString "(" := by decide
  have hText : Bytes.ofString " in " = 32 :: (Bytes.ofString Keyword.kwIn.text ++ [32]) := by
    decide
  refine ⟨_, _, ?_, rfl, ws, object, body, rfl, ⟨hHeadAt, hHeadJudged⟩,
    ⟨hObjectAt.reads false id, hObjectAt.judged⟩, hBodyReads⟩
  simpa [Print.stmt, ReadsStmt.forInTail, hFor, hText, Punctuator.text] using hAll

theorem Good.forIn {head : ForHead} (hHead : head.Good)
    (hTarget : ReadsStmt.isTarget head = true) (hObject : e.Good) (hBody : b.Good c.loop)
    (span : Span) : (Stmt.forIn span head (.holds e) b).Good c := by
  refine (Writes.forIn hHead hTarget hObject hBody span).mono ?_
  rintro ws ⟨left, object, body, rfl, hHead, hObject, hBody⟩
  exact ⟨ReadsStmt.forIn hHead.1 hTarget hObject.1 hBody.1 span,
    .forIn hHead.2 hObject.2 hBody.2 span⟩

/-! ### Switches -/

end Stmt

/-- The test and the statements of the clause read back. -/
inductive Case.Good (c : Context) : Case → Prop
  | clause {test : Slot} {list : List Stmt} (span : Span) : test.Good → (∀ s ∈ list, s.Good c) →
      Good c (.clause span test list)

namespace Stmt

/-- The text of a clause up to its colon. -/
def clauseHead (depth : Nat) : Slot → Bytes
  | .absent => Bytes.ofString Keyword.kwDefault.text ++ Bytes.ofString Punctuator.colon.text
  | test => Bytes.ofString Keyword.kwCase.text ++ 32 ::
      (Print.slot depth false Level.sequence test ++ Bytes.ofString Punctuator.colon.text)

omit [PatternCheck] in
theorem case_text (depth : Nat) (span : Span) (test : Slot) (body : List Stmt) :
    Print.case depth (.clause span test body) =
      Print.indent depth ++ clauseHead depth test ++ 10 :: Print.stmts (depth + 1) body := by
  have hDefault : Bytes.ofString "default:\n" = Bytes.ofString Keyword.kwDefault.text ++
      (Bytes.ofString Punctuator.colon.text ++ [10]) := by decide
  have hCase : Bytes.ofString "case " = Bytes.ofString Keyword.kwCase.text ++ [32] := by decide
  have hColon : Bytes.ofString ":\n" = Bytes.ofString Punctuator.colon.text ++ [10] := by decide
  cases test <;> simp [Print.case, clauseHead, hDefault, hCase, hColon]

theorem clauseHead_lexes {test : Slot} (h : test.Good) (depth : Nat) :
    ∃ w more, ReadsStmt.TestAt (w :: more) test ∧ w.joined = false ∧
      Lexes NotDot NotDot Anything (clauseHead depth test) (w :: (more ++ [Spelling.mark .colon])) ∧
      Judges (Child.KeepRegexes (Child.slot test)) (w :: more) := by
  have hMark : Lexes NotDot NotDot Anything (Bytes.ofString Punctuator.colon.text)
      [.mark .colon] := Lexes.plainMark rfl
  have hStops (dot : Bool) (rest : Bytes) :
      Stops dot (Bytes.ofString Punctuator.colon.text ++ rest) := Stops.mark (by decide) dot rest
  cases test with
  | vacant => cases h
  | absent =>
    refine ⟨_, [], .default, rfl, ?_, (Judges.single _).congr (by simp)⟩
    exact (Lexes.wordAlone .kwDefault).append hMark fun rest _ => hStops true rest
  | holds e =>
    obtain ⟨ws, hws⟩ := Expr.Good.slot h depth false Level.sequence (by decide)
    refine ⟨_, _, .case (hws.reads false id), rfl, ?_,
      (hws.judged.behind (by simp)).congr (by simp)⟩
    have hTest := hws.lexes.append hMark.afterOperand fun rest _ => hStops _ rest
    exact Lexes.word .kwCase hTest.blank (by decide)

omit [PatternCheck] in
theorem clauses_free {rows : List (List Spelling)} {list : List Case}
    (h : List.Forall₂ (fun ws clause => ReadsStmt.CaseAt c ws clause ∧
      Judges (Node.case clause).KeepsRegexes ws) rows list)
    {w : Spelling} (hFree : w.joined = false) (more : List Spelling) :
    ∃ v vs, rows.flatten ++ w :: more = v :: vs ∧ v.joined = false := by
  cases h with
  | nil => exact ⟨w, more, rfl, hFree⟩
  | cons hFirst =>
    cases hFirst.1 with
    | clause span hTest _ =>
      cases hTest with
      | case => exact ⟨_, _, rfl, rfl⟩
      | default => exact ⟨_, _, rfl, rfl⟩

/-- Clauses in front of a token that may begin a line. -/
theorem cases_lexed {list : List Case} (h : ∀ clause ∈ list, clause.Good c) (depth : Nat) :
    ∃ rows, List.Forall₂ (fun ws clause => ReadsStmt.CaseAt c ws clause ∧
        Judges (Node.case clause).KeepsRegexes ws) rows list ∧
      ∀ {rest : Bytes} {w : Spelling} {more : List Spelling} {broken : Bool},
        Lexed NotDot false rest (w :: more) → w.joined = false →
        Lexed NotDot broken (Print.cases depth list ++ rest) (rows.flatten ++ w :: more) := by
  induction list with
  | nil =>
    refine ⟨[], .nil, fun {rest w more broken} hRest hFree => hRest.rebreak ?_⟩
    rintro - v ⟨⟩
    exact hFree
  | cons clause list ih =>
    obtain ⟨rows, hRows, hMore⟩ := ih fun clause hMem => h clause (List.mem_cons_of_mem _ hMem)
    obtain ⟨span, hTest, hBody⟩ := h clause List.mem_cons_self
    obtain ⟨items, hItems, hLines⟩ := lines_lexed hBody (depth + 1)
    obtain ⟨u, us, hAt, hHeadFree, hHead, hJudged⟩ := clauseHead_lexes hTest depth
    have hClause := (hJudged.apart (row_judged (hItems.imp fun _ _ h => h.2)) (w := .mark .colon)
      (by simp) rfl).congr (Child.keep_case span _ _).symm
    refine ⟨_ :: rows, .cons ⟨.clause span hAt (hItems.imp fun _ _ h => h.1), hClause⟩ hRows,
      fun {rest w more broken} hRest hFree => ?_⟩
    obtain ⟨v, vs, hCons, hNext⟩ := clauses_free hRows hFree more
    have hOthers := @hMore _ _ _ false hRest hFree
    rw [hCons] at hOthers
    have hAll : Lexed NotDot broken _ _ := (hHead.indent (2 * depth)).lexed
      (hLines hOthers hNext).lineFeed trivial (by simp [hHeadFree])
    rw [List.flatten_cons, List.append_assoc, hCons, Print.cases, case_text]
    simpa [Print.indent] using hAll

theorem Good.switchOn {list : List Case} (hTest : e.Good)
    (h : ∀ clause ∈ list, clause.Good c.switch) (hOne : ReadsStmt.oneDefault false list = true)
    (span : Span) : (Stmt.switchOn span (.holds e) list).Good c := by
  intro depth
  obtain ⟨ws, hws⟩ := hTest.slot depth false Level.sequence (by decide)
  obtain ⟨rows, hRows, hCases⟩ := cases_lexed h (depth + 1)
  have hClose : Lexes NotDot NotDot Anything (Bytes.ofString Punctuator.rightBrace.text)
      [.mark .rightBrace] := Lexes.plainMark rfl
  have hInner : Lexes NotDot NotDot Anything (10 :: (Print.cases (depth + 1) list ++
      (Print.indent depth ++ Bytes.ofString Punctuator.rightBrace.text)))
      (rows.flatten ++ [Spelling.mark .rightBrace]) := by
    refine ⟨fun {rest more broken} hMore _ _ => ?_⟩
    have hEnd : Lexed NotDot false (Print.indent depth ++
        Bytes.ofString Punctuator.rightBrace.text ++ rest) (.mark .rightBrace :: more) :=
      (hClose.indent (2 * depth)).lexed hMore trivial (by simp)
    simpa using (hCases hEnd rfl).lineFeed
  have hAll := hws.lexes.headed .kwSwitch (hInner.mark (p := .leftBrace) rfl).blank
  have hHead : Bytes.ofString "switch (" =
      Bytes.ofString Keyword.kwSwitch.text ++ 32 :: Bytes.ofString "(" := by decide
  have hOpen : Bytes.ofString ") \x7b\n" =
      Bytes.ofString ")" ++ 32 :: (Bytes.ofString Punctuator.leftBrace.text ++ [10]) := by decide
  have hReads := ReadsStmt.switchOn (hws.reads false id) (hRows.imp fun _ _ h => h.1) hOne span
  refine ⟨_, _, ?_, rfl, hReads, .switchOn hws.judged hRows span⟩
  simpa [Print.stmt, hHead, hOpen, Punctuator.text] using hAll

/-! ### Handlers -/

end Stmt

/-- The handler names what it catches, and its block reads back. It may be left out. -/
inductive Handler.Good (c : Context) : Handler → Prop
  | absent : Good c .absent
  | clause {id : Ident} {list : List Stmt} (span inner : Span) : id.Writable →
      (∀ s ∈ list, s.Good c) → Good c (.clause span (.holds (.ident id)) (.braces inner list))

/-- The block reads back. It may be left out. -/
inductive Block.Good (c : Context) : Block → Prop
  | absent : Good c .absent
  | braces {list : List Stmt} (span : Span) : (∀ s ∈ list, s.Good c) → Good c (.braces span list)

namespace Stmt

theorem handler_lexes {handler : Handler} (h : handler.Good c) (depth : Nat) :
    ∃ ws, ReadsStmt.HandlerAt c ws handler ∧
      Lexes NotDot NotDot Anything (Print.handler depth handler) ws ∧
      Continues (Node.handler handler).KeepsRegexes ws := by
  cases h with
  | absent =>
    have hKeeps := (Node.keepsRegexes_iff (.handler .absent)).2 ⟨rfl, List.forall_mem_nil _⟩
    exact ⟨[], .absent, .nil, .nil hKeeps⟩
  | @clause id list span inner hName hList =>
    obtain ⟨items, hItems, hBlock⟩ := braces_lexes hList depth
    have hJudged := (braced_judged (hItems.imp fun _ _ h => h.2)).congr
      (Child.keep_handler span inner id list).symm
    refine ⟨_, .clause id span inner (hItems.imp fun _ _ h => h.1), ?_, .word ?_ ?_⟩
    rotate_left
    · exact (((hJudged.after (by simp) _).after (by simp) _).after (by simp) _).after (by simp) _
    · simp [ReadsStmt.braced, List.getLast?_cons]
    have hParam := (Lexes.name hName.1 hName.2).headed .kwCatch hBlock.blank.weaken
    have hHead : Bytes.ofString " catch (" =
        32 :: (Bytes.ofString Keyword.kwCatch.text ++ 32 :: Bytes.ofString "(") := by decide
    have hClose : Bytes.ofString ") " = Bytes.ofString ")" ++ [32] := by decide
    simpa [Print.handler, Print.block, Ident.Writable.slot_text, parenRow, hHead, hClose] using
      hParam.blank

/-- The text of a finalizer with the word before it. -/
def finalizerText (depth : Nat) : Block → Bytes
  | .absent => []
  | finalizer => Bytes.ofString " finally " ++ Print.block depth finalizer

theorem finalizer_lexes {finalizer : Block} (h : finalizer.Good c) (depth : Nat) :
    ∃ ws, ReadsStmt.FinalizerAt c ws finalizer ∧
      Lexes NotDot NotDot Anything (finalizerText depth finalizer) ws ∧
      Continues (Child.KeepRegexes (Child.block finalizer)) ws := by
  cases h with
  | absent => exact ⟨[], .absent, .nil, .nil Child.keep_block_absent⟩
  | @braces list span hList =>
    obtain ⟨items, hItems, hBlock⟩ := braces_lexes hList depth
    have hJudged := (braced_judged (hItems.imp fun _ _ h => h.2)).congr
      (Child.keep_block span list).symm
    refine ⟨_, .block span (hItems.imp fun _ _ h => h.1), ?_, .word (hJudged.after (by simp) _) ?_⟩
    rotate_left
    · simp [ReadsStmt.braced, List.getLast?_cons]
    have hHead : Bytes.ofString " finally " =
        32 :: (Bytes.ofString Keyword.kwFinally.text ++ [32]) := by decide
    simpa [finalizerText, Print.block, hHead] using
      (Lexes.word .kwFinally hBlock.blank (by decide)).weaken.blank

theorem Good.tryCatch {list : List Stmt} {handler : Handler} {finalizer : Block}
    (h : ∀ s ∈ list, s.Good c) (hHandler : handler.Good c) (hFinalizer : finalizer.Good c)
    (hSome : handler ≠ .absent ∨ finalizer ≠ .absent) (span inner : Span) :
    (Stmt.tryCatch span (.braces inner list) handler finalizer).Good c := by
  intro depth
  obtain ⟨items, hItems, hBlock⟩ := braces_lexes h depth
  obtain ⟨caught, hCaught, hCaughtLexes, hCaughtJudged⟩ := handler_lexes hHandler depth
  obtain ⟨final, hFinal, hFinalLexes, hFinalJudged⟩ := finalizer_lexes hFinalizer depth
  have hTail := hCaughtLexes.append hFinalLexes fun _ _ => trivial
  have hAll := Lexes.word .kwTry (hBlock.append hTail.afterOperand fun _ _ => trivial).blank
    (by decide)
  have hHead : Bytes.ofString "try " = Bytes.ofString Keyword.kwTry.text ++ [32] := by decide
  refine ⟨_, _, ?_, rfl,
    ReadsStmt.tryCatch (hItems.imp fun _ _ h => h.1) hCaught hFinal hSome span inner,
    .tryCatch (hItems.imp fun _ _ h => h.2) hCaughtJudged hFinalJudged span inner⟩
  cases finalizer <;>
    simpa [Print.stmt, finalizerText, Print.block, hHead] using hAll

end Stmt

end ScriptOptimizer
