import ScriptOptimizer.Proofs.Parse.Operator

/-!
How statements are read: one lemma for each sort of statement, from what its parts are read as.
-/

namespace ScriptOptimizer

open Parse

/-- The tokens of something in parentheses. -/
def parenRow (ws : List Spelling) : List Spelling :=
  .mark .leftParen :: (ws ++ [.mark .rightParen])

theorem Stream.Shows.of_join {s : Stream} {w : Spelling} {ws : List Spelling}
    (h : s.Shows (w.join :: ws)) : s.Shows (w :: ws) := by
  obtain ⟨hFirst, hMore⟩ := List.forall₂_cons.1 h.spelled
  exact ⟨h.failure, .cons hFirst.of_join hMore⟩

namespace Reads

variable {α : Type} {p : Parse α} {ws rest : List Spelling} {w : Spelling} {good : α → Prop}

/-- What is read is read also where its first token is bound to the line before. -/
theorem join (h : Reads p (w :: ws) rest good) : Reads p (w.join :: ws) rest good :=
  fun hRest s hShows => h hRest s (Stream.Shows.of_join hShows)

/-- What is read is put in a slot. -/
theorem held {p : Parse Expr} {e : Expr} (h : Reads p ws rest (·.bare = e.bare)) :
    Reads (Slot.holds <$> p) ws rest (·.bare = (Slot.holds e).bare) := by
  refine Reads.map h fun a ha => ?_
  rw [Slot.bare, Slot.bare, ha]

end Reads

theorem parenthesized_reads {level n : Nat} {ws rest : List Spelling} {e : Expr}
    (h : ReadsAt level false ws e) (hn : ws.length < n) :
    Reads (Grammar.nested n).parenthesized (parenRow ws) rest (·.bare = e.bare) := by
  refine Reads.token (expect_reads rfl) fun _ _ => ?_
  refine Reads.bind (h.expression hn (.cons rfl)) fun a ha => ?_
  exact Reads.token (expect_reads rfl) fun _ _ => Reads.pure ha

namespace ReadsStmt

variable {c : Context} {level : Nat} {ws : List Spelling} {e : Expr} {s : Stmt} {w : Spelling}

/-- A statement is read by the rule for statements. -/
theorem of_rule (hStart : ∃ w more, ws = w :: more ∧ w.type.startsStatement = true)
    (h : ∀ n, ws.length ≤ n → ∀ rest, Follows s.endsOpen rest →
      Reads ((Grammar.nested n).statementRule c) ws rest (Alike Stmt.bare · s)) :
    ReadsStmt c ws s := by
  refine ⟨hStart, fun {n rest} hn hFollows => ?_⟩
  obtain ⟨m, rfl⟩ := Nat.exists_eq_add_of_lt hn
  exact h _ (Nat.le_add_right _ m) rest hFollows

theorem empty (span : Span) : ReadsStmt c [.mark .semicolon] (.empty span) := by
  refine of_rule ⟨_, _, rfl, rfl⟩ fun n _ rest _ => ?_
  refine Reads.still current_reads fun t hSpelled => ?_
  rw [hSpelled.type_eq]
  exact Reads.token advance_reads fun _ _ => Reads.pure rfl

theorem debugger (span : Span) :
    ReadsStmt c [.word .kwDebugger, .mark .semicolon] (.debugger span) := by
  refine of_rule ⟨_, _, rfl, rfl⟩ fun n _ rest _ => ?_
  refine Reads.still current_reads fun t hSpelled => ?_
  rw [hSpelled.type_eq]
  refine Reads.still position_reads fun _ _ => Reads.token advance_reads fun _ _ => ?_
  refine Reads.token semicolon_reads fun _ _ => Reads.still (spanFrom_reads _) fun _ _ => ?_
  exact Reads.pure rfl

theorem blockStatement {items : List (List Spelling)} {list : List Stmt}
    (h : List.Forall₂ (ReadsStmt c) items list) (span : Span) :
    ReadsStmt c (braced items) (.block span list) := by
  refine of_rule ⟨_, _, rfl, rfl⟩ fun n hn rest _ => ?_
  refine Reads.still current_reads fun t hSpelled => ?_
  rw [hSpelled.type_eq]
  simp only [braced, List.length_append, List.length_cons] at hn
  refine Reads.last (block h (by omega)) fun p hp => Reads.pure ?_
  rw [Alike, Stmt.bare_block, Stmt.bare_block, hp]

/-- A statement that starts with an expression is that expression. -/
theorem expressionStatement (h : ReadsAt level false ws e)
    (hStart : ∀ v, ws.head? = some v →
      v.type ≠ .punctuator .leftBrace ∧ v.type ≠ .keyword .kwFunction) (span : Span) :
    ReadsStmt c (ws ++ [Spelling.mark .semicolon]) (.expression span (.holds e)) := by
  obtain ⟨w, ws, rfl⟩ := List.exists_cons_of_ne_nil h.begins.ne_nil
  obtain ⟨hExpression, hColon⟩ := h.begins
  refine of_rule ⟨w, _, rfl, TokenType.startsStatement_of_startsExpression hExpression⟩
    fun n hn rest _ => ?_
  rw [List.length_append] at hn
  have hRead : Reads (Grammar.nested n).expressionStatement
      (w :: ws ++ [Spelling.mark .semicolon]) rest
      (Alike Stmt.bare · (.expression span (.holds e))) := by
    refine Reads.still position_reads fun _ _ => ?_
    refine Reads.bind (h.expression hn (.cons rfl)) fun a ha => ?_
    refine Reads.token semicolon_reads fun _ _ => Reads.still (spanFrom_reads _) fun _ _ => ?_
    refine Reads.pure ?_
    rw [Alike, Stmt.bare, Stmt.bare, Slot.bare, Slot.bare, ha]
  obtain ⟨hBrace, hFunction⟩ := hStart w rfl
  refine Reads.still current_reads fun t hSpelled => ?_
  rw [hSpelled.type_eq]
  split
  case h_17 hName =>
    obtain ⟨v, more, hCons, hNext⟩ : ∃ v more, ws ++ [Spelling.mark .semicolon] = v :: more ∧
        v.type ≠ .punctuator .colon := by
      cases ws with
      | nil => exact ⟨_, _, rfl, by decide⟩
      | cons v more => exact ⟨v, _, rfl, hColon hName v rfl⟩
    rw [List.cons_append, hCons] at hRead ⊢
    refine Reads.ahead fun s t hAhead hSpelled => ?_
    rw [hAhead]
    dsimp only
    rw [hSpelled.type_eq, if_neg hNext]
    exact hRead
  case h_18 => exact hRead
  case h_1 => contradiction
  case h_16 => contradiction
  all_goals
    rename_i hType
    rw [hType] at hExpression
    cases hExpression

/-! ### Statements with bodies -/

variable {test yes no body : List Spelling} {t : Expr} {y n b : Stmt}

theorem conditional (hTest : ReadsAt level false test t) (hYes : ReadsStmt c yes y) (span : Span) :
    ReadsStmt c (.word .kwIf :: (parenRow test ++ yes))
      (.conditional span (.holds t) y .absent) := by
  refine of_rule ⟨_, _, rfl, rfl⟩ fun n hn rest hFollows => ?_
  simp only [parenRow, List.length_cons, List.length_append] at hn
  refine Reads.still current_reads fun t hSpelled => ?_
  rw [hSpelled.type_eq]
  refine Reads.still position_reads fun _ _ => Reads.token (expect_reads rfl) fun _ _ => ?_
  refine Reads.bind (parenthesized_reads hTest (by omega)) fun a ha => ?_
  refine Reads.last (hYes.reads (by omega) (Follows.mono hFollows _)) fun s hs => ?_
  refine Reads.of_cons fun w more hCons => ?_
  subst hCons
  refine Reads.still (accept_passes ((hFollows w rfl).2 rfl)) fun b hb => ?_
  subst hb
  refine Reads.still (Reads.pure_self _) fun s' hs' => ?_
  subst hs'
  refine Reads.still (spanFrom_reads _) fun _ _ => Reads.pure ?_
  have hSame : s.bare = y.bare := hs
  simp only [Alike, Stmt.bare, Slot.bare, ha, hSame]

theorem endsOpen_conditional {span : Span} {slot : Slot} (h : n ≠ .absent) :
    (Stmt.conditional span slot y n).endsOpen = n.endsOpen := by
  cases n with
  | absent => exact absurd rfl h
  | _ => rw [Stmt.endsOpen]; exact nofun

theorem conditionalElse (hTest : ReadsAt level false test t) (hYes : ReadsStmt c yes y)
    (hClosed : y.endsOpen = false) (hNo : ReadsStmt c no n) (hPresent : n ≠ .absent)
    (span : Span) :
    ReadsStmt c (.word .kwIf :: (parenRow test ++ (yes ++ Spelling.word .kwElse :: no)))
      (.conditional span (.holds t) y n) := by
  refine of_rule ⟨_, _, rfl, rfl⟩ fun k hk rest hFollows => ?_
  rw [endsOpen_conditional hPresent] at hFollows
  simp only [parenRow, List.length_cons, List.length_append] at hk
  refine Reads.still current_reads fun t hSpelled => ?_
  rw [hSpelled.type_eq]
  refine Reads.still position_reads fun _ _ => Reads.token (expect_reads rfl) fun _ _ => ?_
  refine Reads.bind (parenthesized_reads hTest (by omega)) fun a ha => ?_
  have hMiddle : Follows y.endsOpen (Spelling.word .kwElse :: no ++ rest) := by
    rw [hClosed]
    rintro w ⟨⟩
    exact ⟨by decide, nofun⟩
  refine Reads.bind (hYes.reads (by omega) hMiddle) fun s hs => ?_
  refine Reads.token (accept_reads rfl) fun b hb => ?_
  subst hb
  refine Reads.last (hNo.reads (by omega) hFollows) fun s' hs' => ?_
  refine Reads.still (spanFrom_reads _) fun _ _ => Reads.pure ?_
  rw [Alike, Stmt.bare, Stmt.bare, Slot.bare, Slot.bare, ha, hs, hs']

theorem whileLoop (hTest : ReadsAt level false test t) (hBody : ReadsStmt c.loop body b)
    (span : Span) :
    ReadsStmt c (.word .kwWhile :: (parenRow test ++ body)) (.whileLoop span (.holds t) b) := by
  refine of_rule ⟨_, _, rfl, rfl⟩ fun n hn rest hFollows => ?_
  simp only [parenRow, List.length_cons, List.length_append] at hn
  refine Reads.still current_reads fun t hSpelled => ?_
  rw [hSpelled.type_eq]
  refine Reads.still position_reads fun _ _ => Reads.token (expect_reads rfl) fun _ _ => ?_
  refine Reads.bind (parenthesized_reads hTest (by omega)) fun a ha => ?_
  refine Reads.last (hBody.reads (by omega) hFollows) fun s hs => ?_
  refine Reads.still (spanFrom_reads _) fun _ _ => Reads.pure ?_
  rw [Alike, Stmt.bare, Stmt.bare, Slot.bare, Slot.bare, ha, hs]

theorem withObject (hTest : ReadsAt level false test t) (hBody : ReadsStmt c body b)
    (span : Span) :
    ReadsStmt c (.word .kwWith :: (parenRow test ++ body)) (.withObject span (.holds t) b) := by
  refine of_rule ⟨_, _, rfl, rfl⟩ fun n hn rest hFollows => ?_
  simp only [parenRow, List.length_cons, List.length_append] at hn
  refine Reads.still current_reads fun t hSpelled => ?_
  rw [hSpelled.type_eq]
  refine Reads.still position_reads fun _ _ => Reads.token (expect_reads rfl) fun _ _ => ?_
  refine Reads.bind (parenthesized_reads hTest (by omega)) fun a ha => ?_
  refine Reads.last (hBody.reads (by omega) hFollows) fun s hs => ?_
  refine Reads.still (spanFrom_reads _) fun _ _ => Reads.pure ?_
  rw [Alike, Stmt.bare, Stmt.bare, Slot.bare, Slot.bare, ha, hs]

theorem doWhile (hBody : ReadsStmt c.loop body b) (hTest : ReadsAt level false test t)
    (span : Span) :
    ReadsStmt c (.word .kwDo ::
        (body ++ Spelling.word .kwWhile :: (parenRow test ++ [Spelling.mark .semicolon])))
      (.doWhile span b (.holds t)) := by
  refine of_rule ⟨_, _, rfl, rfl⟩ fun n hn rest _ => ?_
  simp only [parenRow, List.length_cons, List.length_append] at hn
  have hFollows : Follows true
      (.word .kwWhile :: (parenRow test ++ [Spelling.mark .semicolon]) ++ rest) :=
    .cons (by decide) (by decide)
  refine Reads.still current_reads fun t hSpelled => ?_
  rw [hSpelled.type_eq]
  refine Reads.still position_reads fun _ _ => Reads.token (expect_reads rfl) fun _ _ => ?_
  refine Reads.bind (hBody.reads (by omega) (hFollows.mono _)) fun s hs => ?_
  refine Reads.token (expect_reads rfl) fun _ _ => ?_
  refine Reads.bind (parenthesized_reads hTest (by omega)) fun a ha => ?_
  refine Reads.token (accept_reads rfl) fun _ _ => ?_
  refine Reads.still (spanFrom_reads _) fun _ _ => Reads.pure ?_
  rw [Alike, Stmt.bare, Stmt.bare, Slot.bare, Slot.bare, ha, hs]

theorem labeled {id : Ident} (hNew : c.labels.contains id.name = false)
    (hBody : ReadsStmt (c.label id.name) body b) (span : Span) :
    ReadsStmt c (.name id.name :: .mark .colon :: body) (.labeled span (some id) b) := by
  refine of_rule ⟨_, _, rfl, rfl⟩ fun n hn rest hFollows => ?_
  simp only [List.length_cons] at hn
  refine Reads.still current_reads fun t hSpelled => ?_
  rw [hSpelled.type_eq]
  refine Reads.ahead fun s t hAhead hColon => ?_
  rw [hAhead]
  dsimp only
  rw [hColon.type_eq, if_pos (show (Spelling.mark .colon).type = .punctuator .colon from rfl)]
  refine Reads.still position_reads fun _ _ => Reads.still current_still fun _ _ => ?_
  refine Reads.token name_reads fun a ha => Reads.token (expect_reads rfl) fun _ _ => ?_
  rw [ha, hNew]
  refine Reads.last (hBody.reads (by omega) hFollows) fun s hs => ?_
  refine Reads.still (spanFrom_reads _) fun _ _ => Reads.pure ?_
  rw [Alike, Stmt.bare, Stmt.bare, Option.map_some, Option.map_some, Ident.bare, Ident.bare, ha, hs]

/-! ### Jumps -/

/-- The tokens of a label, which stands on the line of its jump. -/
def labelRow : Option Ident → List Spelling
  | some id => [(Spelling.name id.name).join]
  | none => []

theorem jumpLabel_reads (label : Option Ident) {rest : List Spelling}
    (hLabel : ∀ id, label = some id → c.labels.contains id.name = true) :
    Reads (Grammar.jumpLabel c) (labelRow label) (.mark .semicolon :: rest)
      fun l => l.map Ident.bare = label.map Ident.bare := by
  cases label with
  | none =>
    refine Reads.still current_reads fun t hSpelled => ?_
    rw [hSpelled.type_eq]
    exact Reads.pure rfl
  | some id =>
    refine Reads.still current_reads fun t hSpelled => ?_
    rw [hSpelled.type_eq, hSpelled.joined rfl]
    refine Reads.last (Reads.join name_reads) fun a ha => ?_
    rw [ha, hLabel id rfl]
    refine Reads.pure ?_
    rw [Option.map_some, Option.map_some, Ident.bare, Ident.bare, ha]

theorem continueTo {label : Option Ident} (hLoop : c.inLoop = true)
    (hLabel : ∀ id, label = some id → c.labels.contains id.name = true) (span : Span) :
    ReadsStmt c (.word .kwContinue :: (labelRow label ++ [Spelling.mark .semicolon]))
      (.continueTo span label) := by
  refine of_rule ⟨_, _, rfl, rfl⟩ fun n hn rest _ => ?_
  refine Reads.still current_reads fun t hSpelled => ?_
  rw [hSpelled.type_eq]
  refine Reads.still position_reads fun _ _ => Reads.token (expect_reads rfl) fun _ _ => ?_
  refine Reads.bind (jumpLabel_reads label hLabel) fun l hl => ?_
  rw [hLoop]
  refine Reads.token semicolon_reads fun _ _ => Reads.still (spanFrom_reads _) fun _ _ => ?_
  refine Reads.pure ?_
  rw [Alike, Stmt.bare, Stmt.bare, hl]

theorem breakTo {label : Option Ident}
    (hPlace : (label.isNone && !c.inLoop && !c.inSwitch) = false)
    (hLabel : ∀ id, label = some id → c.labels.contains id.name = true) (span : Span) :
    ReadsStmt c (.word .kwBreak :: (labelRow label ++ [Spelling.mark .semicolon]))
      (.breakTo span label) := by
  refine of_rule ⟨_, _, rfl, rfl⟩ fun n hn rest _ => ?_
  refine Reads.still current_reads fun t hSpelled => ?_
  rw [hSpelled.type_eq]
  refine Reads.still position_reads fun _ _ => Reads.token (expect_reads rfl) fun _ _ => ?_
  refine Reads.bind (jumpLabel_reads label hLabel) fun l hl => ?_
  have hNone : l.isNone = label.isNone := by
    rw [← Option.isNone_map (f := Ident.bare), hl, Option.isNone_map]
  rw [hNone, hPlace]
  refine Reads.token semicolon_reads fun _ _ => Reads.still (spanFrom_reads _) fun _ _ => ?_
  refine Reads.pure ?_
  rw [Alike, Stmt.bare, Stmt.bare, hl]

theorem atStatementEnd_reads {rest : List Spelling} :
    Reads atStatementEnd [] (.mark .semicolon :: rest) (· = true) := by
  refine Reads.still current_reads fun t hSpelled => Reads.pure ?_
  simp [hSpelled.type_eq, Spelling.mark]

theorem atStatementEnd_passes (hStart : w.type.startsExpression = true) {rest : List Spelling} :
    Reads atStatementEnd [] (w.join :: rest) (· = false) := by
  refine Reads.still current_reads fun t hSpelled => Reads.pure ?_
  have hNe (type : TokenType) (hNot : type.startsExpression = false) : w.type ≠ type := by
    rintro rfl
    rw [hStart] at hNot
    cases hNot
  simp [hSpelled.type_eq, Spelling.join, hSpelled.joined rfl, hNe (.punctuator .semicolon) rfl,
    hNe (.punctuator .rightBrace) rfl, hNe .endOfInput rfl]

theorem returnNothing (hFunction : c.inFunction = true) (span : Span) :
    ReadsStmt c [.word .kwReturn, .mark .semicolon] (.returnValue span .absent) := by
  refine of_rule ⟨_, _, rfl, rfl⟩ fun n hn rest _ => ?_
  refine Reads.still current_reads fun t hSpelled => ?_
  rw [hSpelled.type_eq]
  refine Reads.still position_reads fun _ _ => Reads.token (expect_reads rfl) fun _ _ => ?_
  rw [hFunction]
  refine Reads.still atStatementEnd_reads fun b hb => ?_
  subst hb
  refine Reads.still (Reads.pure_self _) fun a ha => ?_
  subst ha
  refine Reads.token semicolon_reads fun _ _ => Reads.still (spanFrom_reads _) fun _ _ => ?_
  exact Reads.pure rfl

theorem returnValue (hFunction : c.inFunction = true) (h : ReadsAt level false (w :: ws) e)
    (span : Span) :
    ReadsStmt c (.word .kwReturn :: (w.join :: ws ++ [Spelling.mark .semicolon]))
      (.returnValue span (.holds e)) := by
  refine of_rule ⟨_, _, rfl, rfl⟩ fun n hn rest _ => ?_
  simp only [List.length_cons, List.length_append] at hn
  refine Reads.still current_reads fun t hSpelled => ?_
  rw [hSpelled.type_eq]
  refine Reads.still position_reads fun _ _ => Reads.token (expect_reads rfl) fun _ _ => ?_
  rw [hFunction]
  refine Reads.still (atStatementEnd_passes h.begins.1) fun b hb => ?_
  subst hb
  have hArgument : Reads (Slot.holds <$> (Grammar.nested n).expression false) (w.join :: ws)
      ([.mark .semicolon] ++ rest) (·.bare = (Slot.holds e).bare) := by
    refine (h.expression ?_ (.cons rfl)).join.held
    rw [List.length_cons]
    omega
  refine Reads.bind hArgument fun a ha => Reads.token semicolon_reads fun _ _ => ?_
  refine Reads.still (spanFrom_reads _) fun _ _ => Reads.pure ?_
  rw [Alike, Stmt.bare, Stmt.bare, ha]

theorem throwValue (h : ReadsAt level false (w :: ws) e) (span : Span) :
    ReadsStmt c (.word .kwThrow :: (w.join :: ws ++ [Spelling.mark .semicolon]))
      (.throwValue span (.holds e)) := by
  refine of_rule ⟨_, _, rfl, rfl⟩ fun n hn rest _ => ?_
  simp only [List.length_cons, List.length_append] at hn
  refine Reads.still current_reads fun t hSpelled => ?_
  rw [hSpelled.type_eq]
  refine Reads.still position_reads fun _ _ => Reads.token (expect_reads rfl) fun _ _ => ?_
  refine Reads.still current_reads fun t hSpelled => ?_
  rw [hSpelled.joined rfl]
  have hArgument : Reads ((Grammar.nested n).expression false) (w.join :: ws)
      ([.mark .semicolon] ++ rest) (·.bare = e.bare) := by
    refine (h.expression ?_ (.cons rfl)).join
    rw [List.length_cons]
    omega
  refine Reads.bind hArgument fun a ha => Reads.token semicolon_reads fun _ _ => ?_
  refine Reads.still (spanFrom_reads _) fun _ _ => Reads.pure ?_
  rw [Alike, Stmt.bare, Stmt.bare, Slot.bare, Slot.bare, ha]

/-! ### Functions and declarations -/

theorem function {items : List (List Spelling)} {list : List Stmt}
    (h : List.Forall₂ (ReadsStmt Context.function) items list) (id : Ident) (params : List Ident)
    (span inner : Span) :
    ReadsStmt c (.word .kwFunction :: .name id.name :: (paramRow params ++ braced items))
      (.function span (.plain (some id) params inner list)) := by
  refine of_rule ⟨_, _, rfl, rfl⟩ fun n hn rest _ => ?_
  simp only [braced, List.length_cons, List.length_append] at hn
  refine Reads.still current_reads fun t hSpelled => ?_
  rw [hSpelled.type_eq]
  refine Reads.still position_reads fun _ _ => Reads.token (expect_reads rfl) fun _ _ => ?_
  refine Reads.token name_reads fun a ha => ?_
  have hName : (some a).map Ident.bare = (some id).map Ident.bare := by
    rw [Option.map_some, Option.map_some, Ident.bare, Ident.bare, ha]
  refine Reads.last (functionRest_reads h (by omega) hName params inner) fun fn hFn => ?_
  refine Reads.still (spanFrom_reads _) fun _ _ => Reads.pure ?_
  rw [Alike, Stmt.bare, Stmt.bare, hFn]

/-- The tokens are those of a declarator. -/
inductive DeclaratorAt (noIn : Bool) : List Spelling → Declarator → Prop
  | plain (span : Span) (id : Ident) :
      DeclaratorAt noIn [.name id.name] (.bind span (.holds (.ident id)) .absent)
  | init {ws : List Spelling} {e : Expr} (span : Span) (id : Ident) :
      ReadsAt Level.assign noIn ws e →
      DeclaratorAt noIn (.name id.name :: .mark .assign :: ws)
        (.bind span (.holds (.ident id)) (.holds e))

theorem DeclaratorAt.reads {noIn : Bool} {d : Declarator} (h : DeclaratorAt noIn ws d) {n : Nat}
    (hn : ws.length < n) {rest : List Spelling} (hEnds : Ends Level.assign noIn rest) :
    Reads ((Grammar.nested n).declarator noIn) ws rest (Alike Declarator.bare · d) := by
  refine Reads.still position_reads fun _ _ => ?_
  cases h with
  | plain span id =>
    refine Reads.last name_reads fun a ha => Reads.of_cons fun w more hCons => ?_
    subst hCons
    have hNext : w.type ≠ .punctuator .assign := by
      intro hType
      have := hEnds.assignment (Nat.le_refl _)
      rw [hType] at this
      cases this
    refine Reads.still (accept_passes hNext) fun b hb => ?_
    subst hb
    refine Reads.still (Reads.pure_self _) fun init hInit => ?_
    subst hInit
    refine Reads.still (spanFrom_reads _) fun _ _ => Reads.still (inSlot_reads _) fun b hb => ?_
    refine Reads.pure ?_
    simp only [Alike, Declarator.bare, Slot.bare, hb, Expr.bare, Ident.bare, ha]
  | init span id hAt =>
    simp only [List.length_cons] at hn
    refine Reads.token name_reads fun a ha => Reads.token (accept_reads rfl) fun b hb => ?_
    subst hb
    refine Reads.last (hAt.assignment (Nat.le_refl _) (by omega) hEnds).held fun init hInit => ?_
    refine Reads.still (spanFrom_reads _) fun _ _ => Reads.still (inSlot_reads _) fun b hb => ?_
    refine Reads.pure ?_
    simp only [Alike, Declarator.bare, hInit, Slot.bare, hb, Expr.bare, Ident.bare, ha]

theorem declarators_reads {noIn : Bool} {items : List (List Spelling)} {list : List Declarator}
    (h : List.Forall₂ (DeclaratorAt noIn) items list) (hne : items ≠ []) {n : Nat}
    (hn : (commaRow items).length < n) {w : Spelling} {rest : List Spelling}
    (hEnds : Ends Level.assign noIn (w :: rest)) (hNext : w.type ≠ .punctuator .comma) :
    Reads ((Grammar.nested n).declarators noIn) (.word .kwVar :: commaRow items) (w :: rest)
      fun p => Declarator.bares p.2 = Declarator.bares list := by
  have hItem {ws : List Spelling} {d : Declarator} (hMem : ws ∈ items)
      (hAt : DeclaratorAt noIn ws d) {rest : List Spelling} (hEnds : Ends Level.assign noIn rest) :
      Reads ((Grammar.nested n).declarator noIn) ws rest (Alike Declarator.bare · d) :=
    hAt.reads (Nat.lt_of_le_of_lt (length_le_commaRow hMem) hn) hEnds
  have hComma (more : List Spelling) : Ends Level.assign noIn (.mark .comma :: more) :=
    .cons (by cases noIn <;> rfl)
  cases h with
  | nil => exact absurd rfl hne
  | @cons ws d items list hAt hMore =>
    have hItems : ItemsRead ((Grammar.nested n).declarator noIn) (Alike Declarator.bare)
        (Ends Level.assign noIn) items list := by
      refine (forall₂_mem hMore).imp fun ws d ⟨hMem, hAt⟩ => ⟨?_, fun rest hEnds => ?_⟩
      · cases hAt <;> simp
      · exact hItem (List.mem_cons_of_mem _ hMem) hAt hEnds
    have hRow := Rows.whileCommas hComma hEnds hItems hNext
    refine Reads.still position_reads fun _ _ => Reads.token (expect_reads rfl) fun _ _ => ?_
    refine Reads.bind (hItem List.mem_cons_self hAt ?_) fun a ha => ?_
    · exact Rows.follow_commaTail hComma hEnds items
    refine Reads.last hRow.many fun as has => Reads.pure ?_
    simp only [Declarator.bares_eq_map]
    exact Alike.map_eq (.cons ha has)

theorem declaration {items : List (List Spelling)} {list : List Declarator}
    (h : List.Forall₂ (DeclaratorAt false) items list) (hne : items ≠ []) (span : Span) :
    ReadsStmt c (.word .kwVar :: (commaRow items ++ [Spelling.mark .semicolon]))
      (.declaration span "var" list) := by
  refine of_rule ⟨_, _, rfl, rfl⟩ fun n hn rest _ => ?_
  simp only [List.length_cons, List.length_append] at hn
  refine Reads.still current_reads fun t hSpelled => ?_
  rw [hSpelled.type_eq]
  have hList : Reads ((Grammar.nested n).declarators false) (.word .kwVar :: commaRow items)
      ([.mark .semicolon] ++ rest) fun p => Declarator.bares p.2 = Declarator.bares list :=
    declarators_reads h hne (by omega) (.cons rfl) (by decide)
  refine Reads.bind hList fun p hp => Reads.token semicolon_reads fun _ _ => ?_
  refine Reads.still (spanFrom_reads _) fun _ _ => Reads.pure ?_
  rw [Alike, Stmt.bare, Stmt.bare, hp]

/-! ### Loops with heads -/

/-- The tokens are those of a part of a loop head, which may be left out. -/
def PartAt (ws : List Spelling) : Slot → Prop
  | .absent => ws = []
  | .vacant => False
  | .holds e => ReadsAt Level.sequence false ws e

theorem PartAt.sees_reads {slot : Slot} (h : PartAt ws slot) {p : Punctuator}
    (hClose : (TokenType.punctuator p).startsExpression = false) {rest : List Spelling} :
    Reads (sees (.punctuator p)) [] (ws ++ Spelling.mark p :: rest) (· = slot.isAbsent) := by
  cases slot with
  | absent =>
    subst h
    refine (Parse.sees_reads _).mono ?_
    rintro b rfl
    exact decide_eq_true rfl
  | vacant => cases h
  | holds e =>
    obtain ⟨v, more, rfl⟩ := List.exists_cons_of_ne_nil h.begins.ne_nil
    refine (Parse.sees_reads _).mono ?_
    rintro b rfl
    exact decide_eq_false (h.begins.head_ne rfl hClose)

theorem PartAt.reads {slot : Slot} (h : PartAt ws slot) {n : Nat} (hn : ws.length < n)
    {rest : List Spelling} (hEnds : Ends Level.sequence false rest) :
    Reads (if slot.isAbsent then pure .absent
      else Slot.holds <$> (Grammar.nested n).expression false) ws rest (·.bare = slot.bare) := by
  cases slot with
  | absent =>
    subst h
    exact Reads.pure rfl
  | vacant => cases h
  | holds e => exact (ReadsAt.expression h hn hEnds).held

/-- The tokens of a `for` loop after the first part of its head. -/
def forTail (test update body : List Spelling) : List Spelling :=
  .mark .semicolon :: (test ++ .mark .semicolon :: (update ++ .mark .rightParen :: body))

theorem forRest_reads {update rest : List Spelling} {t u : Slot} {init head : ForHead}
    (hHead : init.bare = head.bare) (hTest : PartAt test t) (hUpdate : PartAt update u)
    (hBody : ReadsStmt c.loop body b) {n : Nat} (hn : (forTail test update body).length ≤ n)
    (hFollows : Follows b.endsOpen rest) (start : Place) (span : Span) :
    Reads ((Grammar.nested n).forRest c start init) (forTail test update body) rest
      (Alike Stmt.bare · (.forLoop span head t u b)) := by
  simp only [forTail, List.length_cons, List.length_append] at hn
  refine Reads.token (expect_reads rfl) fun _ _ => ?_
  refine Reads.still (by simpa using hTest.sees_reads rfl) fun b hb => ?_
  subst hb
  refine Reads.branch (Reads.bind (hTest.reads (by omega) (.cons rfl)) fun a ha => ?_)
  refine Reads.token (expect_reads rfl) fun _ _ => ?_
  refine Reads.still (by simpa using hUpdate.sees_reads rfl) fun b hb => ?_
  subst hb
  refine Reads.branch (Reads.bind (hUpdate.reads (by omega) (.cons rfl)) fun a' ha' => ?_)
  refine Reads.token (expect_reads rfl) fun _ _ => ?_
  refine Reads.last (hBody.reads (by omega) hFollows) fun s hs => ?_
  refine Reads.still (spanFrom_reads _) fun _ _ => Reads.pure ?_
  rw [Alike, Stmt.bare, Stmt.bare, ha, ha', hHead, hs]

/-- The tokens of a for-in loop after the first part of its head. -/
def forInTail (object body : List Spelling) : List Spelling :=
  .word .kwIn :: (object ++ .mark .rightParen :: body)

theorem forInRest_reads {object rest : List Spelling} {o : Expr} {left head : ForHead}
    (hHead : left.bare = head.bare) (hObject : ReadsAt level false object o)
    (hBody : ReadsStmt c.loop body b) {n : Nat} (hn : (forInTail object body).length ≤ n)
    (hFollows : Follows b.endsOpen rest) (start : Place) (span : Span) :
    Reads ((Grammar.nested n).forInRest c start left) (forInTail object body) rest
      (Alike Stmt.bare · (.forIn span head (.holds o) b)) := by
  simp only [forInTail, List.length_cons, List.length_append] at hn
  refine Reads.token (expect_reads rfl) fun _ _ => ?_
  refine Reads.bind (hObject.expression (by omega) (.cons rfl)) fun a ha => ?_
  refine Reads.token (expect_reads rfl) fun _ _ => ?_
  refine Reads.last (hBody.reads (by omega) hFollows) fun s hs => ?_
  refine Reads.still (spanFrom_reads _) fun _ _ => Reads.pure ?_
  rw [Alike, Stmt.bare, Stmt.bare, Slot.bare, Slot.bare, ha, hHead, hs]

/-- The tokens are those of the first part of a loop head. -/
inductive HeadAt : List Spelling → ForHead → Prop
  | absent : HeadAt [] .absent
  | declaration {items : List (List Spelling)} {list : List Declarator} (span : Span) :
      List.Forall₂ (DeclaratorAt true) items list → items ≠ [] →
      HeadAt (.word .kwVar :: commaRow items) (.declaration span "var" list)
  | expression {ws : List Spelling} {e : Expr} : ReadsAt Level.sequence true ws e →
      HeadAt ws (.expression (.holds e))

/-- May the first part of a loop head be followed by `in`? -/
def isTarget : ForHead → Bool
  | .absent => false
  | .declaration _ _ list => list.length = 1
  | .expression (.holds e) => e.isAssignable
  | .expression _ => false

/-- A loop whose head starts with an expression. -/
theorem forExpression_reads {n : Nat} {rest : List Spelling} {good : Stmt → Prop}
    (hBegins : Begins ws)
    (h : ∀ start, Reads ((Grammar.nested n).forExpression c start) ws rest good) :
    Reads ((Grammar.nested n).forStatement c) (.word .kwFor :: .mark .leftParen :: ws) rest
      good := by
  obtain ⟨w, more, rfl⟩ := List.exists_cons_of_ne_nil hBegins.ne_nil
  refine Reads.still position_reads fun _ _ => Reads.token (expect_reads rfl) fun _ _ => ?_
  refine Reads.token (expect_reads rfl) fun _ _ => Reads.still current_reads fun t hSpelled => ?_
  rw [hSpelled.type_eq]
  split
  case h_1 hType => exact absurd hType (hBegins.head_ne rfl rfl)
  case h_2 hType => exact absurd hType (hBegins.head_ne rfl rfl)
  case h_3 => exact h _

theorem forLoop {update : List Spelling} {head : ForHead} {t u : Slot} (hHead : HeadAt ws head)
    (hTest : PartAt test t) (hUpdate : PartAt update u) (hBody : ReadsStmt c.loop body b)
    (span : Span) :
    ReadsStmt c (.word .kwFor :: .mark .leftParen :: (ws ++ forTail test update body))
      (.forLoop span head t u b) := by
  refine of_rule ⟨_, _, rfl, rfl⟩ fun n hn rest hFollows => ?_
  simp only [List.length_cons, List.length_append] at hn
  have hRest (start : Place) (init : ForHead) (h : init.bare = head.bare) :
      Reads ((Grammar.nested n).forRest c start init) (forTail test update body) rest
        (Alike Stmt.bare · (.forLoop span head t u b)) :=
    forRest_reads h hTest hUpdate hBody (by omega) hFollows start span
  refine Reads.still current_reads fun t hSpelled => ?_
  rw [hSpelled.type_eq]
  cases hHead with
  | absent =>
    refine Reads.still position_reads fun _ _ => Reads.token (expect_reads rfl) fun _ _ => ?_
    refine Reads.token (expect_reads rfl) fun _ _ => Reads.still current_reads fun t hSpelled => ?_
    rw [hSpelled.type_eq]
    exact hRest _ _ rfl
  | declaration span hList hne =>
    rw [List.length_cons] at hn
    refine Reads.still position_reads fun _ _ => Reads.token (expect_reads rfl) fun _ _ => ?_
    refine Reads.token (expect_reads rfl) fun _ _ => Reads.still current_reads fun t hSpelled => ?_
    rw [hSpelled.type_eq]
    refine Reads.bind (declarators_reads hList hne (by omega) (.cons rfl) (by decide))
      fun p hp => ?_
    refine Reads.still (spanFrom_reads _) fun _ _ => Reads.still (sees_reads _) fun b hb => ?_
    subst hb
    refine hRest _ _ ?_
    rw [ForHead.bare, ForHead.bare, hp]
  | expression hAt =>
    refine forExpression_reads (hAt.begins.append ?_) fun start => ?_
    · rintro v ⟨⟩
      decide
    refine Reads.still current_still fun _ _ => ?_
    refine Reads.bind (hAt.expression (by omega) (.cons rfl)) fun a ha => ?_
    refine Reads.still (sees_reads _) fun b hb => ?_
    subst hb
    refine hRest _ _ ?_
    rw [ForHead.bare, ForHead.bare, Slot.bare, Slot.bare, ha]

theorem forIn {object : List Spelling} {head : ForHead} {o : Expr} (hHead : HeadAt ws head)
    (hTarget : isTarget head = true) (hObject : ReadsAt level false object o)
    (hBody : ReadsStmt c.loop body b) (span : Span) :
    ReadsStmt c (.word .kwFor :: .mark .leftParen :: (ws ++ forInTail object body))
      (.forIn span head (.holds o) b) := by
  refine of_rule ⟨_, _, rfl, rfl⟩ fun n hn rest hFollows => ?_
  simp only [List.length_cons, List.length_append] at hn
  have hRest (start : Place) (left : ForHead) (h : left.bare = head.bare) :
      Reads ((Grammar.nested n).forInRest c start left) (forInTail object body) rest
        (Alike Stmt.bare · (.forIn span head (.holds o) b)) :=
    forInRest_reads h hObject hBody (by omega) hFollows start span
  refine Reads.still current_reads fun t hSpelled => ?_
  rw [hSpelled.type_eq]
  cases hHead with
  | absent => cases hTarget
  | @declaration items list span hList hne =>
    rw [List.length_cons] at hn
    refine Reads.still position_reads fun _ _ => Reads.token (expect_reads rfl) fun _ _ => ?_
    refine Reads.token (expect_reads rfl) fun _ _ => Reads.still current_reads fun t hSpelled => ?_
    rw [hSpelled.type_eq]
    refine Reads.bind (declarators_reads hList hne (by omega) (.cons rfl) (by decide))
      fun p hp => ?_
    refine Reads.still (spanFrom_reads _) fun _ _ => Reads.still (sees_reads _) fun b hb => ?_
    subst hb
    have hOne : p.2.length = 1 := by
      rw [Declarator.bares_eq_map, Declarator.bares_eq_map] at hp
      have hLength := congrArg List.length hp
      simp only [List.length_map] at hLength
      rw [hLength]
      exact of_decide_eq_true hTarget
    have hIn : (Spelling.word .kwIn).type = .keyword .kwIn := rfl
    dsimp only
    rw [if_pos (decide_eq_true hIn), if_neg (by simp [hOne])]
    refine hRest _ _ ?_
    rw [ForHead.bare, ForHead.bare, hp]
  | @expression _ e hAt =>
    refine forExpression_reads (hAt.begins.append ?_) fun start => ?_
    · rintro v ⟨⟩
      decide
    refine Reads.still current_still fun _ _ => ?_
    refine Reads.bind (hAt.expression (by omega) (.cons rfl)) fun a ha => ?_
    refine Reads.still (sees_reads _) fun b hb => ?_
    subst hb
    have hAssign : a.isAssignable = true := by
      rw [Expr.isAssignable_of_bare ha]
      exact hTarget
    rw [hAssign]
    refine hRest _ _ ?_
    rw [ForHead.bare, ForHead.bare, Slot.bare, Slot.bare, ha]

/-! ### Switches -/

/-- Is there no default clause but one, and none after one that was seen? -/
def oneDefault : Bool → List Case → Bool
  | _, [] => true
  | saw, .clause _ test _ :: list =>
    !(saw && test.isAbsent) && oneDefault (saw || test.isAbsent) list

theorem oneDefault_cons (saw : Bool) (clause : Case) (list : List Case) :
    oneDefault saw (clause :: list) =
      (!(saw && clause.isDefault) && oneDefault (saw || clause.isDefault) list) := by
  obtain ⟨span, test, consequent⟩ := clause
  rfl

/-- The tokens are those before the colon of a clause. -/
inductive TestAt : List Spelling → Slot → Prop
  | case {ws : List Spelling} {e : Expr} : ReadsAt Level.sequence false ws e →
      TestAt (.word .kwCase :: ws) (.holds e)
  | default : TestAt [.word .kwDefault] .absent

theorem TestAt.reads {slot : Slot} (h : TestAt ws slot) {n : Nat} (hn : ws.length ≤ n)
    {saw : Bool} (hSaw : (saw && slot.isAbsent) = false) {rest : List Spelling} :
    Reads ((Grammar.nested n).caseTest saw) ws (.mark .colon :: rest) (·.bare = slot.bare) := by
  cases h with
  | case hAt =>
    refine Reads.still current_reads fun t hSpelled => ?_
    rw [hSpelled.type_eq]
    exact Reads.token advance_reads fun _ _ => (hAt.expression hn (.cons rfl)).held
  | default =>
    refine Reads.still current_reads fun t hSpelled => ?_
    obtain rfl : saw = false := by simpa [Slot.isAbsent] using hSaw
    rw [hSpelled.type_eq]
    exact Reads.token advance_reads fun _ _ => Reads.pure rfl

theorem TestAt.starts {slot : Slot} (h : TestAt ws slot) :
    ∃ w more, ws = w :: more ∧ (w.type = .keyword .kwCase ∨ w.type = .keyword .kwDefault) := by
  cases h with
  | case => exact ⟨_, _, rfl, .inl rfl⟩
  | default => exact ⟨_, _, rfl, .inr rfl⟩

theorem isDefault_of_bare {a b : Case} (h : a.bare = b.bare) : a.isDefault = b.isDefault := by
  have hBare (clause : Case) : clause.bare.isDefault = clause.isDefault := by
    obtain ⟨span, test, consequent⟩ := clause
    rw [Case.bare]
    cases test <;> rfl
  rw [← hBare a, h, hBare]

/-- The tokens are those of a clause. -/
inductive CaseAt (c : Context) : List Spelling → Case → Prop
  | clause {ws : List Spelling} {slot : Slot} {items : List (List Spelling)} {list : List Stmt}
      (span : Span) : TestAt ws slot → List.Forall₂ (ReadsStmt c) items list →
      CaseAt c (ws ++ .mark .colon :: items.flatten) (.clause span slot list)

theorem CaseAt.starts {clause : Case} (h : CaseAt c ws clause) :
    ∃ w more, ws = w :: more ∧ (w.type = .keyword .kwCase ∨ w.type = .keyword .kwDefault) := by
  cases h with
  | clause span hTest _ =>
    obtain ⟨w, more, rfl, hType⟩ := hTest.starts
    exact ⟨w, _, rfl, hType⟩

/-- The next token ends a clause. -/
def ClauseEnds (rest : List Spelling) : Prop :=
  ∃ w more, rest = w :: more ∧ (w.type = .keyword .kwCase ∨ w.type = .keyword .kwDefault ∨
    w.type = .punctuator .rightBrace)

theorem clauseEnds_flatten {rows : List (List Spelling)} {list : List Case}
    (h : List.Forall₂ (CaseAt c) rows list) (rest : List Spelling) :
    ClauseEnds (rows.flatten ++ Spelling.mark .rightBrace :: rest) := by
  cases h with
  | nil => exact ⟨_, _, rfl, .inr (.inr rfl)⟩
  | cons hFirst =>
    obtain ⟨w, more, rfl, hType⟩ := hFirst.starts
    exact ⟨w, _, rfl, hType.imp_right .inl⟩

theorem consequent_reads {items : List (List Spelling)} {list : List Stmt}
    (h : List.Forall₂ (ReadsStmt c) items list) {n : Nat} (hn : items.flatten.length < n)
    {rest : List Spelling} (hRest : ClauseEnds rest) :
    Reads (many Grammar.atClauseEnd ((Grammar.nested n).inBlock c)) items.flatten rest
      fun as => Stmt.bares as = Stmt.bares list := by
  obtain ⟨w, more, rfl, hType⟩ := hRest
  have hFollows : Follows true (w :: more) := by
    rcases hType with hType | hType | hType <;> exact .cons (by simp [hType]) (by simp [hType])
  have hEnd : Reads Grammar.atClauseEnd [] (w :: more) (· = true) := by
    refine Reads.still current_reads fun t hSpelled => ?_
    rw [hSpelled.type_eq]
    rcases hType with hType | hType | hType <;> rw [hType] <;> exact Reads.pure rfl
  have hGo (w : Spelling) (more : List Spelling) (hStart : w.type.startsStatement = true) :
      Reads Grammar.atClauseEnd [] (w :: more) (· = false) := by
    refine Reads.still current_reads fun t hSpelled => ?_
    rw [hSpelled.type_eq]
    split
    case h_4 => exact Reads.pure rfl
    all_goals
      rename_i hType
      rw [hType] at hStart
      cases hStart
  refine (repeats h hn hFollows hEnd hGo fun _ _ _ _ => inBlock_reads).many.mono fun as has => ?_
  rw [Stmt.bares_eq_map, Stmt.bares_eq_map, Alike.map_eq has]

theorem CaseAt.reads {clause : Case} (h : CaseAt c ws clause) {n : Nat} (hn : ws.length < n)
    {saw : Bool} (hSaw : (saw && clause.isDefault) = false) {rest : List Spelling}
    (hRest : ClauseEnds rest) :
    Reads ((Grammar.nested n).clause c saw) ws rest (Alike Case.bare · clause) := by
  cases h with
  | @clause ws slot items list span hTest hBody =>
    simp only [List.length_append, List.length_cons] at hn
    refine Reads.still position_reads fun _ _ => ?_
    refine Reads.bind (hTest.reads (by omega) hSaw) fun a ha => ?_
    refine Reads.token (expect_reads rfl) fun _ _ => ?_
    refine Reads.last (consequent_reads hBody (by omega) hRest) fun as has => ?_
    refine Reads.still (spanFrom_reads _) fun _ _ => Reads.pure ?_
    rw [Alike, Case.bare, Case.bare, ha, has]

theorem cases_reads {rows : List (List Spelling)} {list : List Case}
    (h : List.Forall₂ (CaseAt c) rows list) {n : Nat} (hn : rows.flatten.length < n)
    {rest : List Spelling} (saw : Bool) (hOne : oneDefault saw list = true) {rounds : Nat}
    (hRounds : rows.flatten.length < rounds) :
    Reads ((Grammar.nested n).casesIn c rounds saw)
      (rows.flatten ++ [Spelling.mark .rightBrace]) rest
      fun as => Case.bares as = Case.bares list := by
  induction h generalizing saw rounds with
  | nil =>
    obtain ⟨k, rfl⟩ := Nat.exists_eq_add_of_lt hRounds
    refine Reads.token (accept_reads rfl) fun b hb => ?_
    subst hb
    exact Reads.pure rfl
  | @cons ws clause rows list hFirst hMore ih =>
    obtain ⟨w, more, rfl, hType⟩ := hFirst.starts
    obtain ⟨k, rfl⟩ : ∃ k, rounds = k + 1 :=
      Nat.exists_eq_succ_of_ne_zero (Nat.ne_zero_of_lt hRounds)
    simp only [List.flatten_cons, List.length_append, List.length_cons] at hn hRounds
    rw [oneDefault_cons, Bool.and_eq_true, Bool.not_eq_true'] at hOne
    have hOpen (rest : List Spelling) :
        Reads (accept (.punctuator .rightBrace)) [] (w :: rest) (· = false) := by
      refine accept_passes ?_
      rcases hType with hType | hType <;> rw [hType] <;> decide
    rw [List.flatten_cons, List.append_assoc]
    refine Reads.still (hOpen _) fun b hb => ?_
    subst hb
    have hEnds : ClauseEnds (rows.flatten ++ [Spelling.mark .rightBrace] ++ rest) := by
      simpa using clauseEnds_flatten hMore rest
    refine Reads.bind (hFirst.reads (by rw [List.length_cons]; omega) hOne.1 hEnds) fun a ha => ?_
    rw [isDefault_of_bare ha]
    refine Reads.last (ih (by omega) _ hOne.2 (by omega)) fun others hOthers => Reads.pure ?_
    rw [Case.bares, Case.bares, ha, hOthers]

theorem switchOn (hTest : ReadsAt level false test t) {rows : List (List Spelling)}
    {list : List Case} (h : List.Forall₂ (CaseAt c.switch) rows list)
    (hOne : oneDefault false list = true) (span : Span) :
    ReadsStmt c (.word .kwSwitch :: (parenRow test ++ Spelling.mark .leftBrace ::
      (rows.flatten ++ [Spelling.mark .rightBrace]))) (.switchOn span (.holds t) list) := by
  refine of_rule ⟨_, _, rfl, rfl⟩ fun n hn rest hFollows => ?_
  simp only [parenRow, List.length_cons, List.length_append] at hn
  refine Reads.still current_reads fun t hSpelled => ?_
  rw [hSpelled.type_eq]
  refine Reads.still position_reads fun _ _ => Reads.token (expect_reads rfl) fun _ _ => ?_
  refine Reads.bind (parenthesized_reads hTest (by omega)) fun a ha => ?_
  refine Reads.token (expect_reads rfl) fun _ _ => Reads.still rounds_reads fun k hk => ?_
  simp only [List.length_append, List.length_cons] at hk
  refine Reads.last (cases_reads h (by omega) false hOne (by omega)) fun as has => ?_
  refine Reads.still (spanFrom_reads _) fun _ _ => Reads.pure ?_
  rw [Alike, Stmt.bare, Stmt.bare, Slot.bare, Slot.bare, ha, has]

/-! ### Handlers -/

/-- The tokens are those of a handler, which may be left out. -/
inductive HandlerAt (c : Context) : List Spelling → Handler → Prop
  | absent : HandlerAt c [] .absent
  | clause {items : List (List Spelling)} {list : List Stmt} (id : Ident) (span inner : Span) :
      List.Forall₂ (ReadsStmt c) items list →
      HandlerAt c (.word .kwCatch :: .mark .leftParen :: .name id.name :: .mark .rightParen ::
        braced items) (.clause span (.holds (.ident id)) (.braces inner list))

theorem HandlerAt.reads {handler : Handler} (h : HandlerAt c ws handler) {n : Nat}
    (hn : ws.length ≤ n) {rest : List Spelling}
    (hNext : handler = .absent → ∀ w, rest.head? = some w → w.type ≠ .keyword .kwCatch) :
    Reads ((Grammar.nested n).catchClause c) ws rest (·.bare = handler.bare) := by
  cases h with
  | absent =>
    refine Reads.of_cons fun w more hCons => ?_
    subst hCons
    refine Reads.still (sees_reads _) fun b hb => ?_
    subst hb
    rw [decide_eq_false (hNext rfl w rfl)]
    exact Reads.pure rfl
  | clause id span inner hBody =>
    simp only [braced, List.length_cons, List.length_append] at hn
    refine Reads.still (sees_reads _) fun b hb => ?_
    subst hb
    refine Reads.still position_reads fun _ _ => Reads.token advance_reads fun _ _ => ?_
    refine Reads.token (expect_reads rfl) fun _ _ => Reads.token name_reads fun a ha => ?_
    refine Reads.token (expect_reads rfl) fun _ _ => Reads.last (block hBody (by omega)) ?_
    intro p hp
    refine Reads.still (spanFrom_reads _) fun _ _ => Reads.still (inSlot_reads _) fun b hb => ?_
    refine Reads.pure ?_
    simp only [Handler.bare, Slot.bare, hb, Expr.bare, Ident.bare, ha, Block.bare, hp]

/-- The tokens are those of a finalizer, which may be left out. -/
inductive FinalizerAt (c : Context) : List Spelling → Block → Prop
  | absent : FinalizerAt c [] .absent
  | block {items : List (List Spelling)} {list : List Stmt} (span : Span) :
      List.Forall₂ (ReadsStmt c) items list →
      FinalizerAt c (.word .kwFinally :: braced items) (.braces span list)

theorem tryCatch {items : List (List Spelling)} {list : List Stmt} {caught final : List Spelling}
    {handler : Handler} {finalizer : Block} (h : List.Forall₂ (ReadsStmt c) items list)
    (hHandler : HandlerAt c caught handler) (hFinalizer : FinalizerAt c final finalizer)
    (hSome : handler ≠ .absent ∨ finalizer ≠ .absent) (span inner : Span) :
    ReadsStmt c (.word .kwTry :: (braced items ++ (caught ++ final)))
      (.tryCatch span (.braces inner list) handler finalizer) := by
  refine of_rule ⟨_, _, rfl, rfl⟩ fun n hn rest hFollows => ?_
  simp only [braced, List.length_cons, List.length_append] at hn
  refine Reads.still current_reads fun t hSpelled => ?_
  rw [hSpelled.type_eq]
  refine Reads.still position_reads fun _ _ => Reads.token (expect_reads rfl) fun _ _ => ?_
  refine Reads.bind (block h (by omega)) fun p hp => ?_
  cases hFinalizer with
  | absent =>
    have hHandled : handler ≠ .absent := hSome.resolve_right fun h => h rfl
    rw [List.append_nil]
    refine Reads.last (hHandler.reads (by omega) fun h => absurd h hHandled) fun q hq => ?_
    refine Reads.of_cons fun w more hCons => ?_
    subst hCons
    refine Reads.still (accept_passes (hFollows w rfl).1) fun b hb => ?_
    subst hb
    cases hHandler with
    | absent => exact absurd rfl hHandled
    | clause id span inner hBody =>
      cases q with
      | absent => cases hq
      | clause whole param body =>
        refine Reads.still (spanFrom_reads _) fun _ _ => Reads.pure ?_
        simp only [Alike, Stmt.bare, Block.bare, hp, hq]
  | block inner' hFinal =>
    refine Reads.bind (hHandler.reads (by omega) ?_) fun q hq => ?_
    · rintro - w ⟨⟩
      decide
    refine Reads.token (accept_reads rfl) fun b hb => ?_
    subst hb
    simp only [braced, List.length_cons, List.length_append] at hn
    refine Reads.last (block hFinal (by omega)) fun r hr => ?_
    refine Reads.still (spanFrom_reads _) fun _ _ => Reads.pure ?_
    simp only [Alike, Stmt.bare, Block.bare, hp, hq, hr]

end ReadsStmt

end ScriptOptimizer
