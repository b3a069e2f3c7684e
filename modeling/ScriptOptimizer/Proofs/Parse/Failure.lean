import ScriptOptimizer.Proofs.Parse.Statement

/-!
Where rules of the grammar fail. An error in a part of a statement, after parts that are read, is an
error of the statement.
-/

namespace ScriptOptimizer

open Parse

/-- On every stream that shows `ws` before `rest`, which holds at least the end of input, the rule
fails. -/
def Fails {α : Type} (p : Parse α) (ws rest : List Spelling) : Prop :=
  rest ≠ [] → ∀ s : Stream, s.Shows (ws ++ rest) → ∃ d s', p s = .error d s'

namespace Fails

variable {α β : Type} {p : Parse α} {f : α → Parse β} {ws us rest : List Spelling} {w : Spelling}
  {good : α → Prop}

theorem before (h : Fails p ws (us ++ rest)) : Fails p (ws ++ us) rest := by
  intro hRest s hShows
  rw [List.append_assoc] at hShows
  exact h (by simp [hRest]) s hShows

theorem first (h : Fails p ws rest) : Fails (p >>= f) ws rest := by
  intro hRest s hShows
  obtain ⟨d, s', hRun⟩ := h hRest s hShows
  refine ⟨d, s', ?_⟩
  show EStateM.bind p f s = _
  rw [EStateM.bind, hRun]

theorem bind (h : Reads p ws (us ++ rest) good)
    (hNext : ∀ a, good a → Fails (f a) us rest) : Fails (p >>= f) (ws ++ us) rest := by
  intro hRest s hShows
  rw [List.append_assoc] at hShows
  obtain ⟨a, s', hRun, hGood, hShows'⟩ := h (by simp [hRest]) s hShows
  obtain ⟨d, s'', hRun'⟩ := hNext a hGood hRest s' hShows'
  refine ⟨d, s'', ?_⟩
  show EStateM.bind p f s = _
  rw [EStateM.bind, hRun]
  exact hRun'

theorem still (h : Reads p [] (us ++ rest) good)
    (hNext : ∀ a, good a → Fails (f a) us rest) : Fails (p >>= f) us rest :=
  bind h hNext

theorem token (h : Reads p [w] (us ++ rest) good)
    (hNext : ∀ a, good a → Fails (f a) us rest) : Fails (p >>= f) (w :: us) rest :=
  bind h hNext

theorem branch {b : Bool} {q : Parse α} (h : Fails ((if b then p else q) >>= f) ws rest) :
    Fails (if b then p >>= f else q >>= f) ws rest := by
  cases b <;> exact h

theorem failAt (t : Token) (message : Bytes) :
    Fails (Parse.failAt t message : Parse α) ws rest :=
  fun _ _ _ => ⟨_, _, rfl⟩

/-- The token after the current one is only looked at. -/
theorem ahead {v : Spelling} {g : Stream → Parse β}
    (h : ∀ s t, s.upcoming.head? = some t → t.Spelled v → Fails (g s) (w :: v :: us) rest) :
    Fails (get >>= g) (w :: v :: us) rest := by
  intro hRest s hShows
  obtain ⟨-, hMore⟩ := List.forall₂_cons.1 hShows.spelled
  obtain ⟨t, upcoming, hNext, -, hUpcoming⟩ := List.forall₂_cons_right_iff.1 hMore
  exact h s t (by rw [hUpcoming]; rfl) hNext hRest s hShows

end Fails

/-- The spellings start a statement in which an error is met, in a nesting deeper than there are
tokens. -/
structure FailsStmt (c : Context) (ws : List Spelling) : Prop where
  starts : ∃ w more, ws = w :: more ∧ w.type.startsStatement = true
  fails {n : Nat} {rest : List Spelling} : ws.length < n →
    Fails ((Grammar.nested n).statement c) ws rest

namespace FailsStmt

variable {c : Context} {ws yes no body : List Spelling} {e : Expr} {y : Stmt}

/-- A statement fails by the rule for statements. -/
theorem of_rule (hStart : ∃ w more, ws = w :: more ∧ w.type.startsStatement = true)
    (h : ∀ n, ws.length ≤ n → ∀ rest, Fails ((Grammar.nested n).statementRule c) ws rest) :
    FailsStmt c ws := by
  refine ⟨hStart, fun {n rest} hn => ?_⟩
  obtain ⟨m, rfl⟩ := Nat.exists_eq_add_of_lt hn
  exact h _ (Nat.le_add_right _ m) rest

/-! ### Statements in a row -/

/-- Every statement takes a token. -/
theorem length_le_flatten {items : List (List Spelling)} {list : List Stmt}
    (h : List.Forall₂ (ReadsStmt c) items list) : items.length ≤ items.flatten.length := by
  induction h with
  | nil => exact Nat.le_refl _
  | cons hFirst _ ih =>
    obtain ⟨w, more, rfl, -⟩ := hFirst.starts
    simp only [List.length_cons, List.flatten_cons, List.length_append]
    omega

section Row

variable {isEnd : Parse Bool} {item : Parse Stmt} {n : Nat} {items : List (List Spelling)}
  {list : List Stmt} {rest : List Spelling}
  (hGo : ∀ w more, w.type.startsStatement = true → Reads isEnd [] (w :: more) (· = false))
  (hRead : ∀ w ws rest good, w.type.startsStatement = true →
    Reads ((Grammar.nested n).statement c) (w :: ws) rest good → Reads item (w :: ws) rest good)
  (hFail : ∀ w ws rest, w.type.startsStatement = true →
    Fails ((Grammar.nested n).statement c) (w :: ws) rest → Fails item (w :: ws) rest)
include hGo hRead hFail

theorem row (hItems : List.Forall₂ (ReadsStmt c) items list) (h : FailsStmt c ws)
    (hn : items.flatten.length + ws.length < n) {rounds : Nat} (hRounds : items.length < rounds) :
    Fails (manyIn isEnd item rounds) (items.flatten ++ ws) rest := by
  induction hItems generalizing rounds with
  | nil =>
    obtain ⟨m, rfl⟩ := Nat.exists_eq_add_of_lt hRounds
    obtain ⟨w, more, rfl, hStart⟩ := h.starts
    refine Fails.still (hGo w _ hStart) fun b hb => ?_
    subst hb
    exact (hFail w more rest hStart (h.fails (by simpa using hn))).first
  | @cons us s items list hFirst hMore ih =>
    obtain ⟨m, rfl⟩ := Nat.exists_eq_add_of_lt hRounds
    obtain ⟨w, more, rfl, hStart⟩ := hFirst.starts
    simp only [List.flatten_cons, List.length_append] at hn
    have hFollows : Follows true (items.flatten ++ ws ++ rest) := by
      obtain ⟨v, vs, rfl, hNext⟩ := h.starts
      rw [List.append_assoc]
      exact ReadsStmt.follows_flatten hMore (.of_startsStatement hNext)
    rw [List.flatten_cons, List.append_assoc]
    refine Fails.still (hGo w _ hStart) fun b hb => ?_
    subst hb
    refine Fails.bind (hRead w more _ _ hStart (hFirst.reads (by omega) (hFollows.mono _)))
      fun a _ => (ih (by omega) ?_).first
    simp only [List.length_cons]
    omega

/-- An error after statements that are read. -/
theorem many (hItems : List.Forall₂ (ReadsStmt c) items list) (h : FailsStmt c ws)
    (hn : items.flatten.length + ws.length < n) :
    Fails (many isEnd item) (items.flatten ++ ws) rest := by
  intro hRest s hShows
  have hRow : Fails (manyIn isEnd item (s.upcoming.length + 2)) (items.flatten ++ ws) rest := by
    refine row hGo hRead hFail hItems h hn ?_
    have hLength := hShows.spelled.length_eq
    have hItemsLength : items.length ≤ items.flatten.length := length_le_flatten hItems
    simp only [List.length_cons, List.length_append] at hLength
    omega
  exact hRow hRest s hShows

end Row

/-- An error in a block after statements that are read. -/
theorem block {items : List (List Spelling)} {list : List Stmt}
    (hItems : List.Forall₂ (ReadsStmt c) items list) (h : FailsStmt c ws) (more : List Spelling) :
    FailsStmt c (.mark .leftBrace :: (items.flatten ++ ws ++ more)) := by
  refine of_rule ⟨_, _, rfl, rfl⟩ fun n hn rest => ?_
  simp only [List.length_cons, List.length_append] at hn
  have hGo (w : Spelling) (more : List Spelling) (hStart : w.type.startsStatement = true) :
      Reads (sees (.punctuator .rightBrace)) [] (w :: more) (· = false) := by
    refine (sees_reads _).mono ?_
    rintro b rfl
    refine decide_eq_false fun hEnd => ?_
    rw [hEnd] at hStart
    cases hStart
  have hFail (w : Spelling) (ws rest : List Spelling) (hStart : w.type.startsStatement = true)
      (h : Fails ((Grammar.nested n).statement c) (w :: ws) rest) :
      Fails ((Grammar.nested n).inBlock c) (w :: ws) rest := by
    refine Fails.still (sees_reads .endOfInput) fun b hb => ?_
    subst hb
    have hEnd : w.type ≠ .endOfInput := by
      intro hEnd
      rw [hEnd] at hStart
      cases hStart
    rw [decide_eq_false hEnd]
    exact h
  refine Fails.still current_reads fun t hSpelled => ?_
  rw [hSpelled.type_eq]
  refine Fails.first ?_
  refine Fails.still position_reads fun _ _ => Fails.token (expect_reads rfl) fun _ _ => ?_
  refine Fails.first (Fails.before ?_)
  exact many hGo (fun _ _ _ _ => ReadsStmt.inBlock_reads) hFail hItems h (by omega)

/-! ### Statements with bodies -/

variable {test object first update : List Spelling} {level : Nat} {t : Expr}

theorem whileLoop (hTest : ReadsAt level false test t) (hBody : FailsStmt c.loop body) :
    FailsStmt c (.word .kwWhile :: (parenRow test ++ body)) := by
  refine of_rule ⟨_, _, rfl, rfl⟩ fun n hn rest => ?_
  simp only [parenRow, List.length_cons, List.length_append] at hn
  refine Fails.still current_reads fun t hSpelled => ?_
  rw [hSpelled.type_eq]
  refine Fails.still position_reads fun _ _ => Fails.token (expect_reads rfl) fun _ _ => ?_
  refine Fails.bind (parenthesized_reads hTest (by omega)) fun a ha => ?_
  exact (hBody.fails (by omega)).first

theorem withObject (hObject : ReadsAt level false object t) (hBody : FailsStmt c body) :
    FailsStmt c (.word .kwWith :: (parenRow object ++ body)) := by
  refine of_rule ⟨_, _, rfl, rfl⟩ fun n hn rest => ?_
  simp only [parenRow, List.length_cons, List.length_append] at hn
  refine Fails.still current_reads fun t hSpelled => ?_
  rw [hSpelled.type_eq]
  refine Fails.still position_reads fun _ _ => Fails.token (expect_reads rfl) fun _ _ => ?_
  refine Fails.bind (parenthesized_reads hObject (by omega)) fun a ha => ?_
  exact (hBody.fails (by omega)).first

/-- An error in the first branch. -/
theorem conditional (hTest : ReadsAt level false test t) (hYes : FailsStmt c yes)
    (more : List Spelling) : FailsStmt c (.word .kwIf :: (parenRow test ++ (yes ++ more))) := by
  refine of_rule ⟨_, _, rfl, rfl⟩ fun n hn rest => ?_
  simp only [parenRow, List.length_cons, List.length_append] at hn
  refine Fails.still current_reads fun t hSpelled => ?_
  rw [hSpelled.type_eq]
  refine Fails.still position_reads fun _ _ => Fails.token (expect_reads rfl) fun _ _ => ?_
  refine Fails.bind (parenthesized_reads hTest (by omega)) fun a ha => ?_
  exact (hYes.fails (by omega)).before.first

/-- An error in the second branch. -/
theorem conditionalElse (hTest : ReadsAt level false test t) (hYes : ReadsStmt c yes y)
    (hClosed : y.endsOpen = false) (hNo : FailsStmt c no) :
    FailsStmt c (.word .kwIf :: (parenRow test ++ (yes ++ Spelling.word .kwElse :: no))) := by
  refine of_rule ⟨_, _, rfl, rfl⟩ fun n hn rest => ?_
  simp only [parenRow, List.length_cons, List.length_append] at hn
  refine Fails.still current_reads fun t hSpelled => ?_
  rw [hSpelled.type_eq]
  refine Fails.still position_reads fun _ _ => Fails.token (expect_reads rfl) fun _ _ => ?_
  refine Fails.bind (parenthesized_reads hTest (by omega)) fun a ha => ?_
  have hMiddle : Follows y.endsOpen (Spelling.word .kwElse :: no ++ rest) := by
    rw [hClosed]
    rintro w ⟨⟩
    exact ⟨by decide, by simp⟩
  refine Fails.bind (hYes.reads (by omega) hMiddle) fun s hs => ?_
  refine Fails.token (accept_reads rfl) fun b hb => ?_
  subst hb
  exact (hNo.fails (by omega)).first

/-- A label that is nested in itself. -/
theorem labelAgain {id : Ident} (hLabel : c.labels.contains id.name = true)
    (body : List Spelling) : FailsStmt c (.name id.name :: .mark .colon :: body) := by
  refine of_rule ⟨_, _, rfl, rfl⟩ fun n hn rest => ?_
  refine Fails.still current_reads fun t hSpelled => ?_
  rw [hSpelled.type_eq]
  refine Fails.ahead fun s t hAhead hColon => ?_
  rw [hAhead]
  dsimp only
  rw [hColon.type_eq, if_pos (show (Spelling.mark .colon).type = .punctuator .colon from rfl)]
  refine Fails.still position_reads fun _ _ => Fails.still current_still fun _ _ => ?_
  refine Fails.token name_reads fun a ha => Fails.token (expect_reads rfl) fun _ _ => ?_
  rw [ha, hLabel]
  exact (Fails.failAt _ _).first

theorem labeled {id : Ident} (hNew : c.labels.contains id.name = false)
    (hBody : FailsStmt (c.label id.name) body) :
    FailsStmt c (.name id.name :: .mark .colon :: body) := by
  refine of_rule ⟨_, _, rfl, rfl⟩ fun n hn rest => ?_
  simp only [List.length_cons] at hn
  refine Fails.still current_reads fun t hSpelled => ?_
  rw [hSpelled.type_eq]
  refine Fails.ahead fun s t hAhead hColon => ?_
  rw [hAhead]
  dsimp only
  rw [hColon.type_eq, if_pos (show (Spelling.mark .colon).type = .punctuator .colon from rfl)]
  refine Fails.still position_reads fun _ _ => Fails.still current_still fun _ _ => ?_
  refine Fails.token name_reads fun a ha => Fails.token (expect_reads rfl) fun _ _ => ?_
  rw [ha, hNew]
  exact (hBody.fails (by omega)).first

/-! ### Loops with heads -/

open ReadsStmt (HeadAt PartAt forTail forInTail isTarget declarators_reads)

variable {head : ForHead} {u : Slot} {n : Nat} {rest : List Spelling}

theorem forRest_fails {test' : Slot} (hTest : PartAt test test') (hUpdate : PartAt update u)
    (hBody : FailsStmt c.loop body) (hn : (forTail test update body).length ≤ n) (start : Place)
    (init : ForHead) :
    Fails ((Grammar.nested n).forRest c start init) (forTail test update body) rest := by
  simp only [forTail, List.length_cons, List.length_append] at hn
  refine Fails.token (expect_reads rfl) fun _ _ => ?_
  refine Fails.still (by simpa using hTest.sees_reads rfl) fun b hb => ?_
  subst hb
  refine Fails.branch (Fails.bind (hTest.reads (by omega) (.cons rfl)) fun a ha => ?_)
  refine Fails.token (expect_reads rfl) fun _ _ => ?_
  refine Fails.still (by simpa using hUpdate.sees_reads rfl) fun b hb => ?_
  subst hb
  refine Fails.branch (Fails.bind (hUpdate.reads (by omega) (.cons rfl)) fun a' ha' => ?_)
  refine Fails.token (expect_reads rfl) fun _ _ => ?_
  exact (hBody.fails (by omega)).first

theorem forInRest_fails (hObject : ReadsAt level false object t) (hBody : FailsStmt c.loop body)
    (hn : (forInTail object body).length ≤ n) (start : Place) (left : ForHead) :
    Fails ((Grammar.nested n).forInRest c start left) (forInTail object body) rest := by
  simp only [forInTail, List.length_cons, List.length_append] at hn
  refine Fails.token (expect_reads rfl) fun _ _ => ?_
  refine Fails.bind (hObject.expression (by omega) (.cons rfl)) fun a ha => ?_
  refine Fails.token (expect_reads rfl) fun _ _ => ?_
  exact (hBody.fails (by omega)).first

/-- A loop whose head starts with an expression. -/
theorem forExpression_fails (hBegins : Begins ws)
    (h : ∀ start, Fails ((Grammar.nested n).forExpression c start) ws rest) :
    Fails ((Grammar.nested n).forStatement c) (.word .kwFor :: .mark .leftParen :: ws) rest := by
  obtain ⟨w, more, rfl⟩ := List.exists_cons_of_ne_nil hBegins.ne_nil
  refine Fails.still position_reads fun _ _ => Fails.token (expect_reads rfl) fun _ _ => ?_
  refine Fails.token (expect_reads rfl) fun _ _ => Fails.still current_reads fun t hSpelled => ?_
  rw [hSpelled.type_eq]
  split
  case h_1 hType => exact absurd hType (hBegins.head_ne rfl rfl)
  case h_2 hType => exact absurd hType (hBegins.head_ne rfl rfl)
  case h_3 => exact h _

theorem forLoop {test' : Slot} (hHead : HeadAt first head) (hTest : PartAt test test')
    (hUpdate : PartAt update u) (hBody : FailsStmt c.loop body) :
    FailsStmt c (.word .kwFor :: .mark .leftParen :: (first ++ forTail test update body)) := by
  refine of_rule ⟨_, _, rfl, rfl⟩ fun n hn rest => ?_
  simp only [List.length_cons, List.length_append] at hn
  have hRest (start : Place) (init : ForHead) :
      Fails ((Grammar.nested n).forRest c start init) (forTail test update body) rest :=
    forRest_fails hTest hUpdate hBody (by omega) start init
  refine Fails.still current_reads fun t hSpelled => ?_
  rw [hSpelled.type_eq]
  cases hHead with
  | absent =>
    refine Fails.still position_reads fun _ _ => Fails.token (expect_reads rfl) fun _ _ => ?_
    refine Fails.token (expect_reads rfl) fun _ _ => Fails.still current_reads fun t hSpelled => ?_
    rw [hSpelled.type_eq]
    exact hRest _ _
  | declaration span hList hne =>
    rw [List.length_cons] at hn
    refine Fails.still position_reads fun _ _ => Fails.token (expect_reads rfl) fun _ _ => ?_
    refine Fails.token (expect_reads rfl) fun _ _ => Fails.still current_reads fun t hSpelled => ?_
    rw [hSpelled.type_eq]
    refine Fails.bind (declarators_reads hList hne (by omega) (.cons rfl) (by decide)) fun p _ => ?_
    refine Fails.still (spanFrom_reads _) fun _ _ => Fails.still (sees_reads _) fun b hb => ?_
    subst hb
    exact hRest _ _
  | expression hAt =>
    refine forExpression_fails (hAt.begins.append ?_) fun start => ?_
    · rintro v ⟨⟩
      decide
    refine Fails.still current_still fun _ _ => ?_
    refine Fails.bind (hAt.expression (by omega) (.cons rfl)) fun a _ => ?_
    refine Fails.still (sees_reads _) fun b hb => ?_
    subst hb
    exact hRest _ _

theorem forIn (hHead : HeadAt first head) (hTarget : isTarget head = true)
    (hObject : ReadsAt level false object t) (hBody : FailsStmt c.loop body) :
    FailsStmt c (.word .kwFor :: .mark .leftParen :: (first ++ forInTail object body)) := by
  refine of_rule ⟨_, _, rfl, rfl⟩ fun n hn rest => ?_
  simp only [List.length_cons, List.length_append] at hn
  have hRest (start : Place) (left : ForHead) :
      Fails ((Grammar.nested n).forInRest c start left) (forInTail object body) rest :=
    forInRest_fails hObject hBody (by omega) start left
  refine Fails.still current_reads fun t hSpelled => ?_
  rw [hSpelled.type_eq]
  cases hHead with
  | absent => cases hTarget
  | declaration span hList hne =>
    rw [List.length_cons] at hn
    refine Fails.still position_reads fun _ _ => Fails.token (expect_reads rfl) fun _ _ => ?_
    refine Fails.token (expect_reads rfl) fun _ _ => Fails.still current_reads fun t hSpelled => ?_
    rw [hSpelled.type_eq]
    refine Fails.bind (declarators_reads hList hne (by omega) (.cons rfl) (by decide)) fun p _ => ?_
    refine Fails.still (spanFrom_reads _) fun _ _ => Fails.still (sees_reads _) fun b hb => ?_
    subst hb
    have hIn : (Spelling.word .kwIn).type = .keyword .kwIn := rfl
    dsimp only
    rw [if_pos (decide_eq_true hIn)]
    split
    · exact Fails.still current_still fun t _ => (Fails.failAt t _).first
    · exact hRest _ _
  | expression hAt =>
    refine forExpression_fails (hAt.begins.append ?_) fun start => ?_
    · rintro v ⟨⟩
      decide
    refine Fails.still current_still fun _ _ => ?_
    refine Fails.bind (hAt.expression (by omega) (.cons rfl)) fun a _ => ?_
    refine Fails.still (sees_reads _) fun b hb => ?_
    subst hb
    have hIn : (Spelling.word .kwIn).type = .keyword .kwIn := rfl
    rw [if_pos (decide_eq_true hIn)]
    split
    · exact (Fails.failAt _ _).first
    · exact hRest _ _

end FailsStmt

/-- An error after statements that are read is an error of the program. -/
theorem Grammar.program_fails {items : List (List Spelling)} {list : List Stmt}
    {ws more rest : List Spelling} (hItems : List.Forall₂ (ReadsStmt Context.program) items list)
    (h : FailsStmt Context.program ws) {n : Nat} (hn : items.flatten.length + ws.length < n) :
    Fails (Grammar.nested n).program (items.flatten ++ ws ++ more) rest := by
  have hGo (w : Spelling) (more : List Spelling) (hStart : w.type.startsStatement = true) :
      Reads (Parse.sees .endOfInput) [] (w :: more) (· = false) := by
    refine (Parse.sees_reads _).mono ?_
    rintro b rfl
    refine decide_eq_false fun hEnd => ?_
    rw [hEnd] at hStart
    cases hStart
  refine Fails.still Parse.position_reads fun start _ => Fails.first (Fails.before ?_)
  exact FailsStmt.many hGo (fun _ _ _ _ _ h => h) (fun _ _ _ _ h => h) hItems h hn

end ScriptOptimizer
