import ScriptOptimizer.Pattern.Check
import ScriptOptimizer.Proofs.Parse.Failure
import ScriptOptimizer.Proofs.Print.Branches
import ScriptOptimizer.Proofs.Print.RoundTrip

/-!
The printed text of branches. Its tokens are those of the tree that is heard from it, so the parser
reads that tree if the labels in it are apart, and refuses the text if they are not.
-/

namespace ScriptOptimizer

namespace Stmt

/-- The tokens are those of the statement, in which every `else` belongs to the innermost `if` that
has none. -/
inductive Heard : List Spelling → Stmt → Prop
  | expression {level : Nat} {ws : List Spelling} {e : Expr} (span : Span) :
      ReadsAt level false ws e →
      (∀ v, ws.head? = some v →
        v.type ≠ .punctuator .leftBrace ∧ v.type ≠ .keyword .kwFunction) →
      Heard (ws ++ [.mark .semicolon]) (.expression span (.holds e))
  | block {items : List (List Spelling × Stmt)} (span : Span) :
      (∀ i ∈ items, Heard i.1 i.2) →
      Heard (ReadsStmt.braced (items.map Prod.fst)) (.block span (items.map Prod.snd))
  | conditional {test yes : List Spelling} {t : Expr} {y : Stmt} (span : Span) :
      ReadsAt Level.sequence false test t → Heard yes y →
      Heard (.word .kwIf :: (parenRow test ++ yes)) (.conditional span (.holds t) y .absent)
  | conditionalElse {test yes no : List Spelling} {t : Expr} {y n : Stmt} (span : Span) :
      ReadsAt Level.sequence false test t → Heard yes y → y.endsOpen = false → Heard no n →
      Heard (.word .kwIf :: (parenRow test ++ (yes ++ .word .kwElse :: no)))
        (.conditional span (.holds t) y n)
  | labeled {id : Ident} {body : List Spelling} {b : Stmt} (span : Span) : Heard body b →
      Heard (.name id.name :: .mark .colon :: body) (.labeled span (some id) b)
  | withObject {object body : List Spelling} {o : Expr} {b : Stmt} (span : Span) :
      ReadsAt Level.sequence false object o → Heard body b →
      Heard (.word .kwWith :: (parenRow object ++ body)) (.withObject span (.holds o) b)
  | whileLoop {test body : List Spelling} {t : Expr} {b : Stmt} (span : Span) :
      ReadsAt Level.sequence false test t → Heard body b →
      Heard (.word .kwWhile :: (parenRow test ++ body)) (.whileLoop span (.holds t) b)
  | forLoop {first test update body : List Spelling} {head : ForHead} {t u : Slot} {b : Stmt}
      (span : Span) : ReadsStmt.HeadAt first head → ReadsStmt.PartAt test t →
      ReadsStmt.PartAt update u → Heard body b →
      Heard (.word .kwFor :: .mark .leftParen :: (first ++ ReadsStmt.forTail test update body))
        (.forLoop span head t u b)
  | forIn {left object body : List Spelling} {head : ForHead} {o : Expr} {b : Stmt}
      (span : Span) : ReadsStmt.HeadAt left head → ReadsStmt.isTarget head = true →
      ReadsAt Level.sequence false object o → Heard body b →
      Heard (.word .kwFor :: .mark .leftParen :: (left ++ ReadsStmt.forInTail object body))
        (.forIn span head (.holds o) b)

variable {ws vs : List Spelling} {s t n : Stmt}

theorem Heard.ne_absent (h : Heard ws t) : t ≠ .absent := by
  rintro rfl
  cases h

/-- Tokens beside what is heard from them. -/
theorem exists_pairs {items : List (List Spelling)} {list : List Stmt}
    (h : List.Forall₂ Heard items list) :
    ∃ pairs : List (List Spelling × Stmt), items = pairs.map Prod.fst ∧
      list = pairs.map Prod.snd ∧ ∀ i ∈ pairs, Heard i.1 i.2 := by
  obtain ⟨hLength, hItems⟩ := List.forall₂_iff_zip.1 h
  exact ⟨items.zip list, (List.map_fst_zip hLength.le).symm, (List.map_snd_zip hLength.ge).symm,
    fun i hi => hItems hi⟩

theorem Heard.ofBlock {items : List (List Spelling)} {list : List Stmt}
    (h : List.Forall₂ Heard items list) (span : Span) :
    Heard (ReadsStmt.braced items) (.block span list) := by
  obtain ⟨pairs, rfl, rfl, hPairs⟩ := exists_pairs h
  exact .block span hPairs

theorem forall₂_pairs {α β : Type} {R : α → β → Prop} {pairs : List (α × β)}
    (h : ∀ i ∈ pairs, R i.1 i.2) : List.Forall₂ R (pairs.map Prod.fst) (pairs.map Prod.snd) := by
  rwa [List.forall₂_map_left_iff, List.forall₂_map_right_iff, List.forall₂_same]

/-- What is heard is read where the labels around it are not in it. -/
theorem Heard.reads {c : Context} (h : Heard ws t) (hLabels : t.labelsApart c.labels = true) :
    ReadsStmt c ws t := by
  induction h generalizing c with
  | expression span hAt hStart => exact ReadsStmt.expressionStatement hAt hStart span
  | @block items span _ ih =>
    rw [labelsApart, allLabelsApart_iff, List.forall_mem_map] at hLabels
    exact ReadsStmt.blockStatement (forall₂_pairs fun i hi => ih i hi (hLabels i hi)) span
  | conditional span hTest _ ih =>
    simp only [labelsApart, Bool.and_eq_true] at hLabels
    exact ReadsStmt.conditional hTest (ih hLabels.1) span
  | conditionalElse span hTest _ hClosed hNo ihYes ihNo =>
    simp only [labelsApart, Bool.and_eq_true] at hLabels
    exact ReadsStmt.conditionalElse hTest (ihYes hLabels.1) hClosed (ihNo hLabels.2) hNo.ne_absent
      span
  | labeled span _ ih =>
    simp only [labelsApart, Bool.and_eq_true, Bool.not_eq_true'] at hLabels
    exact ReadsStmt.labeled hLabels.1 (ih hLabels.2) span
  | withObject span hObject _ ih => exact ReadsStmt.withObject hObject (ih hLabels) span
  | whileLoop span hTest _ ih => exact ReadsStmt.whileLoop hTest (ih hLabels) span
  | forLoop span hHead hTest hUpdate _ ih =>
    exact ReadsStmt.forLoop hHead hTest hUpdate (ih hLabels) span
  | forIn span hHead hTarget hObject _ ih =>
    exact ReadsStmt.forIn hHead hTarget hObject (ih hLabels) span

/-- The first item that does not pass a test stands behind items that do. -/
theorem exists_first {α : Type} {test : α → Bool} {list : List α}
    (h : ¬∀ a ∈ list, test a = true) :
    ∃ front a back, list = front ++ a :: back ∧ (∀ b ∈ front, test b = true) ∧ test a = false := by
  have hSome : (list.find? fun a => !test a).isSome = true := by
    simpa [List.find?_isSome] using h
  obtain ⟨a, hFind⟩ := Option.isSome_iff_exists.1 hSome
  obtain ⟨hTest, front, back, hSplit, hFront⟩ := List.find?_eq_some_iff_append.1 hFind
  exact ⟨front, a, back, hSplit, by simpa using hFront, by simpa using hTest⟩

/-- What is heard is refused where a label in it is nested in itself. -/
theorem Heard.fails {c : Context} (h : Heard ws t) (hLabels : t.labelsApart c.labels = false) :
    FailsStmt c ws := by
  induction h generalizing c with
  | expression => cases hLabels
  | @block items span hItems ih =>
    have hSome : ¬∀ i ∈ items, i.2.labelsApart c.labels = true := by
      rw [labelsApart, Bool.eq_false_iff, ne_eq, allLabelsApart_iff, List.forall_mem_map] at hLabels
      exact hLabels
    obtain ⟨front, i, back, rfl, hFront, hApart⟩ := exists_first hSome
    have hReads : List.Forall₂ (ReadsStmt c) (front.map Prod.fst) (front.map Prod.snd) :=
      forall₂_pairs fun j hj => (hItems j (by simp [hj])).reads (hFront j hj)
    have hBlock := FailsStmt.block hReads (ih i (by simp) hApart)
      ((back.map Prod.fst).flatten ++ [Spelling.mark .rightBrace])
    simpa [ReadsStmt.braced] using hBlock
  | conditional span hTest _ ih =>
    simp only [labelsApart, Bool.and_true] at hLabels
    simpa using FailsStmt.conditional hTest (ih hLabels) []
  | @conditionalElse test yes no t y n span hTest hYes hClosed hNo ihYes ihNo =>
    cases hApart : y.labelsApart c.labels with
    | false => exact FailsStmt.conditional hTest (ihYes hApart) (.word .kwElse :: no)
    | true =>
      rw [labelsApart, hApart, Bool.true_and] at hLabels
      exact FailsStmt.conditionalElse hTest (hYes.reads hApart) hClosed (ihNo hLabels)
  | @labeled id body b span _ ih =>
    cases hNew : c.labels.contains id.name with
    | true => exact FailsStmt.labelAgain hNew body
    | false =>
      rw [labelsApart, hNew, Bool.not_false, Bool.true_and] at hLabels
      exact FailsStmt.labeled hNew (ih hLabels)
  | withObject span hObject _ ih => exact FailsStmt.withObject hObject (ih hLabels)
  | whileLoop span hTest _ ih => exact FailsStmt.whileLoop hTest (ih hLabels)
  | forLoop span hHead hTest hUpdate _ ih =>
    exact FailsStmt.forLoop hHead hTest hUpdate (ih hLabels)
  | forIn span hHead hTarget hObject _ ih =>
    exact FailsStmt.forIn hHead hTarget hObject (ih hLabels)

/-- An `else` behind a statement that ends open is heard with the innermost `if`. -/
theorem Heard.attach (h : Heard ws t) (hOpen : t.endsOpen = true) (hNo : Heard vs n) :
    Heard (ws ++ Spelling.word .kwElse :: vs) (t.attach n) := by
  induction h with
  | expression | block => cases hOpen
  | @conditional test yes t y span hTest hYes ih =>
    rw [Stmt.attach]
    split_ifs with hEnds
    · simpa using Heard.conditional span hTest (ih hEnds)
    · simpa using Heard.conditionalElse span hTest hYes (Bool.eq_false_iff.2 hEnds) hNo
  | conditionalElse span hTest hYes hClosed hLast _ ih =>
    rw [ReadsStmt.endsOpen_conditional hLast.ne_absent] at hOpen
    rw [attach_conditional hLast.ne_absent]
    simpa using Heard.conditionalElse span hTest hYes hClosed (ih hOpen)
  | labeled span _ ih => simpa [Stmt.attach] using Heard.labeled span (ih hOpen)
  | withObject span hObject _ ih =>
    simpa [Stmt.attach] using Heard.withObject span hObject (ih hOpen)
  | whileLoop span hTest _ ih => simpa [Stmt.attach] using Heard.whileLoop span hTest (ih hOpen)
  | forLoop span hHead hTest hUpdate _ ih =>
    simpa [Stmt.attach, ReadsStmt.forTail] using Heard.forLoop span hHead hTest hUpdate (ih hOpen)
  | forIn span hHead hTarget hObject _ ih =>
    simpa [Stmt.attach, ReadsStmt.forInTail] using
      Heard.forIn span hHead hTarget hObject (ih hOpen)

end Stmt

/-! ### What is written -/

theorem Slot.IsName.good [PatternCheck] {s : Slot} (h : s.IsName) :
    ∃ e : Expr, s = .holds e ∧ e.Good := by
  obtain ⟨id, rfl, hName⟩ := h
  exact ⟨_, rfl, Expr.Good.ident hName⟩

theorem Slot.good_of_isName [PatternCheck] {s : Slot} (h : s = .absent ∨ s.IsName) : s.Good := by
  rcases h with rfl | ⟨id, rfl, hName⟩
  · trivial
  · exact Expr.Good.ident hName

namespace Stmt

variable {s y n : Stmt}

/-- An open `if` in front of an `else` is printed in a block. -/
theorem stmt_wrapped {span : Span} {test : Slot} (hIf : Print.isOpenIf y = true)
    (hPresent : n.isPresent = true) (place : Span) (depth : Nat) :
    Print.stmt depth (.conditional span test y n) =
      Print.stmt depth (.conditional span test (.block place [y]) n) := by
  have hOpen : Print.isOpenIf (.block place [y]) = false := rfl
  have hBlock : Print.isBlock (.block place [y]) = true := rfl
  simp [Print.stmt, Print.stmts, hIf, hPresent, hOpen, hBlock, Print.body.eq_1]

theorem Writes.wrapped [PatternCheck] {good : List Spelling → Prop} {span : Span} {test : Slot}
    (hIf : Print.isOpenIf y = true) (hPresent : n.isPresent = true) (place : Span)
    (h : (Stmt.conditional span test (.block place [y]) n).Writes good) :
    (Stmt.conditional span test y n).Writes good := by
  intro depth
  rw [stmt_wrapped hIf hPresent place]
  exact h depth

/-- There are no regular expressions where every expression is a name. -/
theorem Branching.keeps (h : s.Branching) : s.leadsRegex = false ∧ s.KeepsRegexes := by
  have hName {slot : Slot} (h : slot = .absent ∨ slot.IsName) :
      Child.KeepRegexes (Child.slot slot) := by
    rcases h with rfl | ⟨id, rfl, -⟩ <;> simp
  induction h with
  | expression span h =>
    obtain ⟨id, rfl, -⟩ := h
    exact ⟨rfl, (keepsRegexes_iff _).2 ⟨rfl, by simp [Child.ofStmt]⟩⟩
  | @block list span _ ih =>
    have hRow (allowed : Bool) : rowKeepsRegex allowed list = true :=
      rowKeepsRegex_of_leads (fun s hs => (ih s hs).1) allowed
    exact ⟨rfl, (keepsRegexes_iff _).2 ⟨hRow true, (Child.keep_stmts _).2 fun s hs => (ih s hs).2⟩⟩
  | conditional span hTest _ ih =>
    refine ⟨rfl, (keepsRegexes_iff _).2 ⟨by simp [Node.keepsRegex, ih.1], ?_⟩⟩
    simp [Child.ofStmt, hName (.inr hTest), ih.2]
  | conditionalElse span hTest _ _ ihYes ihNo =>
    refine ⟨rfl, (keepsRegexes_iff _).2 ⟨by simp [Node.keepsRegex, ihYes.1], ?_⟩⟩
    simp [Child.ofStmt, hName (.inr hTest), ihYes.2, ihNo.2]
  | labeled span _ _ ih => exact ⟨rfl, (keepsRegexes_iff _).2 ⟨rfl, by simp [Child.ofStmt, ih.2]⟩⟩
  | withObject span hObject _ ih | whileLoop span hObject _ ih =>
    refine ⟨rfl, (keepsRegexes_iff _).2 ⟨by simp [Node.keepsRegex, ih.1], ?_⟩⟩
    simp [Child.ofStmt, hName (.inr hObject), ih.2]
  | forLoop span hInit hTest hUpdate _ ih =>
    refine ⟨rfl, (keepsRegexes_iff _).2 ⟨by simp [Node.keepsRegex, ih.1], ?_⟩⟩
    rcases hInit with rfl | ⟨s, rfl, hInit⟩
    · simp [Child.ofStmt, Child.forHead, hName hTest, hName hUpdate, ih.2]
    · simp [Child.ofStmt, Child.forHead, hName (.inr hInit), hName hTest, hName hUpdate, ih.2]
  | forIn span hLeft hRight _ ih =>
    refine ⟨rfl, (keepsRegexes_iff _).2 ⟨by simp [Node.keepsRegex, ih.1], ?_⟩⟩
    simp [Child.ofStmt, Child.forHead, hName (.inr hLeft), hName (.inr hRight), ih.2]

/-- A block around a first branch that begins with no regular expression changes nothing. -/
theorem Judged.unwrapped {span place : Span} {test : Slot} {ws : List Spelling}
    (h : (Stmt.conditional span test (.block place [y]) n).Judged ws)
    (hPlain : y.leadsRegex = false) (hPresent : n ≠ .absent) :
    (Stmt.conditional span test y n).Judged ws := by
  have hSame : (Stmt.conditional span test (.block place [y]) n).KeepsRegexes ↔
      (Stmt.conditional span test y n).KeepsRegexes := by
    have hBlock : (Stmt.block place [y]).leadsRegex = false := rfl
    simp [keepsRegexes_iff (.conditional _ _ _ _), keepsRegexes_iff (.block _ _), Node.keepsRegex,
      Child.ofStmt, rowKeepsRegex, hBlock, hPlain]
  intro allowed more
  rw [h, hSame, endsBrace_conditional hPresent, endsBrace_conditional hPresent]
  rfl

/-- A statement is written as what is heard. -/
theorem Branching.writes [PatternCheck] (h : s.Branching) :
    s.Writes fun ws => Heard ws s.reread ∧ s.Judged ws := by
  induction h with
  | expression span hName =>
    obtain ⟨id, rfl, hName⟩ := hName
    refine (Writes.expression (Expr.Good.ident hName) (.ident hName.1) span).mono ?_
    rintro ws ⟨level, us, rfl, hAt, hStart, hJudged⟩
    exact ⟨.expression span hAt hStart, .expression hJudged span⟩
  | @block list span _ ih =>
    refine (Writes.block ih span).mono ?_
    rintro ws ⟨items, rfl, hItems⟩
    rw [reread, rereads_eq_map]
    exact ⟨.ofBlock (List.forall₂_map_right_iff.2 (hItems.imp fun _ _ h => h.1)) span,
      .block (hItems.imp fun _ _ h => h.2) span⟩
  | conditional span hTest _ ih =>
    obtain ⟨t, rfl, hGood⟩ := hTest.good
    refine (Writes.conditional hGood ih span).mono ?_
    rintro ws ⟨test, yes, rfl, hAt, hTest, hYes⟩
    exact ⟨.conditional span hAt hYes.1, .conditional hTest hYes.2 span⟩
  | @conditionalElse test y n span hTest hYes hNo ihYes ihNo =>
    obtain ⟨t, rfl, hGood⟩ := hTest.good
    rw [reread_conditional hNo.ne_absent]
    split_ifs with hIf hOpen
    · have hBlock : (Stmt.block .none [y]).Writes fun ws => ∃ items, ws = ReadsStmt.braced items ∧
          List.Forall₂ (fun ws s => Heard ws s.reread ∧ s.Judged ws) items [y] :=
        Writes.block (by simpa using ihYes) .none
      refine Writes.wrapped hIf hNo.isPresent .none ?_
      refine (Writes.conditionalElse hGood hBlock rfl ihNo hNo.ne_absent span).mono ?_
      rintro ws ⟨test, yes, no, rfl, hAt, hTest, ⟨items, rfl, hItems⟩, hSecond⟩
      have hFirst := List.forall₂_map_right_iff.2 (hItems.imp fun _ _ h => h.1)
      have hInner := Judged.block (hItems.imp fun _ _ h => h.2) .none
      exact ⟨.conditionalElse span hAt (.ofBlock hFirst .none) rfl hSecond.1,
        (Judged.conditionalElse hTest hInner hSecond.2 hNo.ne_absent span).unwrapped hYes.keeps.1
          hNo.ne_absent⟩
    · have hWrites :=
        Writes.conditionalElse hGood ihYes (by simpa using hIf) ihNo hNo.ne_absent span
      refine hWrites.mono ?_
      rintro ws ⟨test, yes, no, rfl, hAt, hTest, hFirst, hSecond⟩
      exact ⟨.conditional span hAt (hFirst.1.attach hOpen hSecond.1),
        .conditionalElse hTest hFirst.2 hSecond.2 hNo.ne_absent span⟩
    · have hWrites :=
        Writes.conditionalElse hGood ihYes (by simpa using hIf) ihNo hNo.ne_absent span
      refine hWrites.mono ?_
      rintro ws ⟨test, yes, no, rfl, hAt, hTest, hFirst, hSecond⟩
      exact ⟨.conditionalElse span hAt hFirst.1 (Bool.eq_false_iff.2 hOpen) hSecond.1,
        .conditionalElse hTest hFirst.2 hSecond.2 hNo.ne_absent span⟩
  | @labeled id _ span hName _ ih =>
    refine (Writes.labeled hName ih span).mono ?_
    rintro ws ⟨body, rfl, hBody⟩
    exact ⟨.labeled span hBody.1, .labeled id hBody.2 span⟩
  | withObject span hObject _ ih =>
    obtain ⟨o, rfl, hGood⟩ := hObject.good
    refine (Writes.withObject hGood ih span).mono ?_
    rintro ws ⟨object, body, rfl, hAt, hObject, hBody⟩
    exact ⟨.withObject span hAt hBody.1, .withObject hObject hBody.2 span⟩
  | whileLoop span hTest _ ih =>
    obtain ⟨t, rfl, hGood⟩ := hTest.good
    refine (Writes.whileLoop hGood ih span).mono ?_
    rintro ws ⟨test, body, rfl, hAt, hTest, hBody⟩
    exact ⟨.whileLoop span hAt hBody.1, .whileLoop hTest hBody.2 span⟩
  | @forLoop init test update b span hInit hTest hUpdate _ ih =>
    have hHead : init.Good := by
      rcases hInit with rfl | ⟨s, rfl, id, rfl, hName⟩
      · exact .absent
      · exact .expression (Expr.Good.ident hName)
    refine (Writes.forLoop hHead (Slot.good_of_isName hTest) (Slot.good_of_isName hUpdate) ih
      span).mono ?_
    rintro ws ⟨first, test, update, body, rfl, hFirst, hTest, hUpdate, hBody⟩
    exact ⟨.forLoop span hFirst.1 hTest.1 hUpdate.1 hBody.1,
      .forLoop hFirst.2 hTest.2 hUpdate.2 hBody.2 span⟩
  | forIn span hLeft hRight _ ih =>
    obtain ⟨id, rfl, hName⟩ := hLeft
    obtain ⟨o, rfl, hGood⟩ := hRight.good
    refine (Writes.forIn (.expression (Expr.Good.ident hName)) rfl hGood ih span).mono ?_
    rintro ws ⟨left, object, body, rfl, hHead, hObject, hBody⟩
    exact ⟨.forIn span hHead.1 rfl hObject.1 hBody.1, .forIn hHead.2 hObject.2 hBody.2 span⟩

end Stmt

namespace Program

/-- A program without places and without the blocks of one statement around first branches. -/
def shapes (p : Program) : List Stmt := p.body.map Stmt.shape

theorem shapes_of_bare {p : Program} {list : List Stmt} (h : p.bare = ⟨.none, Stmt.bares list⟩) :
    p.shapes = list.map Stmt.shape := by
  rw [bare, Program.mk.injEq, Stmt.bares_eq_map, Stmt.bares_eq_map] at h
  have hShapes := congrArg (List.map Stmt.unblocked) h.2
  rwa [List.map_map, List.map_map] at hShapes

theorem shapes_eq_iff {p : Program} (h : ∀ s ∈ p.body, s.Branching) :
    (p.body.map Stmt.reread).map Stmt.shape = p.shapes ↔ ∀ s ∈ p.body, s.keepsElses = true := by
  rw [shapes, List.map_map, List.map_inj_left]
  exact forall₂_congr fun s hs => (h s hs).shape_reread_iff

/-- The text of a program of branches is read exactly if no label is nested in itself in what is
heard, and then it is read as that. -/
theorem parse_heard [PatternCheck] {p : Program} (h : ∀ s ∈ p.body, s.Branching) {source : Source}
    (hText : source.content = p.print) :
    ((∃ q, parse source = .ok q) ↔ ∀ s ∈ p.body, s.reread.labelsApart [] = true) ∧
      ∀ q, parse source = .ok q → q.bare = ⟨.none, Stmt.bares (p.body.map Stmt.reread)⟩ := by
  obtain ⟨items, hItems, hLexed⟩ := print_lexed fun s hs => (h s hs).writes
  have hAdmitted : Spelling.Admitted true (items.flatten ++ [Spelling.finish]) :=
    (row_judges (hItems.imp fun _ _ h => h.2)).iff.2 (p.keepsRegexes_iff.2
      ⟨Stmt.rowKeepsRegex_of_leads (fun s hs => (h s hs).keeps.1) true,
        fun s hs => (h s hs).keeps.2⟩)
  obtain ⟨pairs, rfl, hRead, hHeard⟩ :=
    Stmt.exists_pairs (List.forall₂_map_right_iff.2 (hItems.imp fun _ _ h => h.1))
  rw [← hText] at hLexed
  have hSame : (∀ s ∈ p.body, s.reread.labelsApart [] = true) ↔
      ∀ i ∈ pairs, i.2.labelsApart [] = true :=
    calc (∀ s ∈ p.body, s.reread.labelsApart [] = true)
        ↔ ∀ t ∈ p.body.map Stmt.reread, t.labelsApart [] = true := by rw [List.forall_mem_map]
      _ ↔ ∀ i ∈ pairs, i.2.labelsApart [] = true := by rw [hRead, List.forall_mem_map]
  rw [hSame, hRead]
  by_cases hLabels : ∀ i ∈ pairs, i.2.labelsApart [] = true
  · obtain ⟨q, hParse, hBare⟩ := parse_of_reads
      (Stmt.forall₂_pairs fun i hi => (hHeard i hi).reads (hLabels i hi)) hLexed hAdmitted
    refine ⟨iff_of_true ⟨q, hParse⟩ hLabels, fun q' hParse' => ?_⟩
    rw [hParse] at hParse'
    exact Except.ok.inj hParse' ▸ hBare
  · obtain ⟨front, i, back, rfl, hFront, hApart⟩ := Stmt.exists_first hLabels
    have hReads : List.Forall₂ (ReadsStmt Context.program) (front.map Prod.fst)
        (front.map Prod.snd) :=
      Stmt.forall₂_pairs fun j hj => (hHeard j (by simp [hj])).reads (hFront j hj)
    obtain ⟨n, s, hn, hShows, hParse⟩ := parse_lexed hLexed hAdmitted
    have hFails : Fails (Grammar.nested n).program
        ((front.map Prod.fst).flatten ++ i.1 ++ (back.map Prod.fst).flatten) [.finish] := by
      refine Grammar.program_fails hReads ((hHeard i (by simp)).fails hApart) ?_
      simp only [List.map_append, List.map_cons, List.flatten_append, List.flatten_cons,
        List.length_append] at hn
      omega
    obtain ⟨d, after, hRun⟩ := hFails (by simp) s (by simpa using hShows)
    rw [hRun] at hParse
    have hNone (q : Program) : parse source ≠ .ok q := by
      rw [hParse]
      exact nofun
    exact ⟨iff_of_false (fun ⟨q, hq⟩ => hNone q hq) hLabels, fun q hq => absurd hq (hNone q)⟩

/-- A program of branches whose labels are apart is read back from its text as the same program, but
for blocks around first branches, exactly if every `else` stands behind a first branch that ends
closed or is an open `if` itself. Behind any other first branch it is heard with an `if` inside, and
the text is read exactly if no label comes to stand in itself. -/
theorem parse_print_elses [PatternCheck] {p : Program} (hBranching : ∀ s ∈ p.body, s.Branching)
    (hLabels : ∀ s ∈ p.body, s.labelsApart [] = true) {source : Source}
    (hText : source.content = p.print) :
    ((∃ q, parse source = .ok q ∧ q.shapes = p.shapes) ↔ ∀ s ∈ p.body, s.keepsElses = true) ∧
    ((∃ q, parse source = .ok q) ↔ ∀ s ∈ p.body, s.reread.labelsApart [] = true) ∧
    ∀ q, parse source = .ok q → q.bare = ⟨.none, Stmt.bares (p.body.map Stmt.reread)⟩ := by
  obtain ⟨hRead, hHeard⟩ := parse_heard hBranching hText
  refine ⟨⟨?_, fun hKept => ?_⟩, hRead, hHeard⟩
  · rintro ⟨q, hParse, hShapes⟩
    rwa [shapes_of_bare (hHeard q hParse), shapes_eq_iff hBranching] at hShapes
  · obtain ⟨q, hParse⟩ := hRead.2 fun s hs =>
      (hBranching s hs).labelsApart_reread (hKept s hs) (hLabels s hs)
    refine ⟨q, hParse, ?_⟩
    rwa [shapes_of_bare (hHeard q hParse), shapes_eq_iff hBranching]

/-! ### Three programs -/

/-- A name of one letter. -/
def letter (b : UInt8) : Slot := .holds (.ident ⟨.none, [b]⟩)

/-- A letter on its own. -/
def alone (b : UInt8) : Stmt := .expression .none (letter b)

/-- In `if (a) if (b) x; else y;` the `else` of the outer `if`. -/
def elseOfOuter : Program :=
  ⟨.none, [.conditional .none (letter 97)
    (.conditional .none (letter 98) (alone 120) .absent) (alone 121)]⟩

/-- In `if (a) while (b) if (c) x; else y;` the `else` of the outer `if`. -/
def elseBehindLoop : Program :=
  ⟨.none, [.conditional .none (letter 97)
    (.whileLoop .none (letter 98) (.conditional .none (letter 99) (alone 120) .absent))
    (alone 121)]⟩

/-- In `if (a) L: if (b) x; else L: y;` the `else` of the outer `if`. -/
def elseBehindLabel : Program :=
  ⟨.none, [.conditional .none (letter 97)
    (.labeled .none (some ⟨.none, [76]⟩) (.conditional .none (letter 98) (alone 120) .absent))
    (.labeled .none (some ⟨.none, [76]⟩) (alone 121))]⟩

theorem writable_letter {b : UInt8} (h : Word.isStartByte b = true)
    (hFree : Keyword.ofText? [b] = none) : (⟨.none, [b]⟩ : Ident).Writable :=
  ⟨Word.plain_of_bytes h rfl, hFree⟩

theorem isName_letter {b : UInt8} (h : Word.isStartByte b = true)
    (hFree : Keyword.ofText? [b] = none) : (letter b).IsName :=
  ⟨_, rfl, writable_letter h hFree⟩

theorem branching_alone {b : UInt8} (h : Word.isStartByte b = true)
    (hFree : Keyword.ofText? [b] = none) : (alone b).Branching :=
  .expression .none (isName_letter h hFree)

theorem elseOfOuter_branching : ∀ s ∈ elseOfOuter.body, s.Branching := by
  rintro s (- | ⟨-, ⟨⟩⟩)
  exact .conditionalElse .none (isName_letter rfl rfl)
    (.conditional .none (isName_letter rfl rfl) (branching_alone rfl rfl)) (branching_alone rfl rfl)

theorem elseBehindLoop_branching : ∀ s ∈ elseBehindLoop.body, s.Branching := by
  rintro s (- | ⟨-, ⟨⟩⟩)
  exact .conditionalElse .none (isName_letter rfl rfl)
    (.whileLoop .none (isName_letter rfl rfl)
      (.conditional .none (isName_letter rfl rfl) (branching_alone rfl rfl)))
    (branching_alone rfl rfl)

theorem elseBehindLabel_branching : ∀ s ∈ elseBehindLabel.body, s.Branching := by
  rintro s (- | ⟨-, ⟨⟩⟩)
  exact .conditionalElse .none (isName_letter rfl rfl)
    (.labeled .none (writable_letter rfl rfl)
      (.conditional .none (isName_letter rfl rfl) (branching_alone rfl rfl)))
    (.labeled .none (writable_letter rfl rfl) (branching_alone rfl rfl))

/-- The block that the printer adds keeps the `else` with the outer `if`. -/
theorem parse_print_elses_block :
    ∃ q, parse ⟨[], [], elseOfOuter.print⟩ = .ok q ∧ q.shapes = elseOfOuter.shapes :=
  (parse_print_elses elseOfOuter_branching (by decide) rfl).1.2 (by decide)

/-- Behind a loop the `else` goes to the inner `if`, and behind a label that it repeats the text is
refused, though no label stood in itself. -/
theorem parse_print_elses_lost :
    ((∀ s ∈ elseBehindLoop.body, s.Branching ∧ s.labelsApart [] = true) ∧
      ¬∃ q, parse ⟨[], [], elseBehindLoop.print⟩ = .ok q ∧ q.shapes = elseBehindLoop.shapes) ∧
    (∀ s ∈ elseBehindLabel.body, s.Branching ∧ s.labelsApart [] = true) ∧
      ¬∃ q, parse ⟨[], [], elseBehindLabel.print⟩ = .ok q := by
  refine ⟨⟨fun s hs => ⟨elseBehindLoop_branching s hs, ?_⟩, ?_⟩,
    fun s hs => ⟨elseBehindLabel_branching s hs, ?_⟩, ?_⟩
  · revert s
    decide
  · rintro ⟨q, hParse, hShapes⟩
    rw [shapes_of_bare ((parse_heard elseBehindLoop_branching rfl).2 q hParse),
      shapes_eq_iff elseBehindLoop_branching] at hShapes
    exact absurd hShapes (by decide)
  · revert s
    decide
  · rw [(parse_heard elseBehindLabel_branching rfl).1]
    decide

end Program

end ScriptOptimizer
