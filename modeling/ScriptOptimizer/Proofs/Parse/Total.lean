import ScriptOptimizer.Proofs.Parse.PairedProgram
import ScriptOptimizer.Proofs.Parse.ProgressStatement

/-!
Reading a source always comes to an end, with a program or with an error of the lexer or of the
grammar. The bounds in the definitions play no part in it: loops end by themselves because every
turn takes a token, rules are nested no deeper than there are tokens, and of the tokens behind those
of the source only the end of input and the one after it are ever asked for.
-/

namespace ScriptOptimizer

namespace Parse

/-- The rule takes at least one token, or it fails. -/
def Advances {α : Type} (p : Parse α) : Prop :=
  ∀ s, s.Closed → ∀ a t, p s = .ok a t → t.Closed ∧ t.left < s.left

/-- The turns of a loop that has no bound: in each it reads an item, by a rule that may depend on
those before it, and takes a token, until its test holds or something fails. -/
inductive Turns {σ α : Type} (isEnd : Parse Bool) (item : σ → Parse α) (next : σ → α → σ) :
    σ → Stream → EStateM.Result Diagnostic Stream (List α) → Prop
  | done {x : σ} {s t : Stream} : isEnd s = .ok true t → Turns isEnd item next x s (.ok [] t)
  | unended {x : σ} {s t : Stream} {d : Diagnostic} : isEnd s = .error d t →
      Turns isEnd item next x s (.error d t)
  | broken {x : σ} {s t u : Stream} {d : Diagnostic} : isEnd s = .ok false t →
      item x t = .error d u → Turns isEnd item next x s (.error d u)
  | turn {x : σ} {s t u v : Stream} {a : α} {as : List α} : isEnd s = .ok false t →
      item x t = .ok a u → u.left < s.left → Turns isEnd item next (next x a) u (.ok as v) →
      Turns isEnd item next x s (.ok (a :: as) v)
  | later {x : σ} {s t u v : Stream} {a : α} {d : Diagnostic} : isEnd s = .ok false t →
      item x t = .ok a u → u.left < s.left → Turns isEnd item next (next x a) u (.error d v) →
      Turns isEnd item next x s (.error d v)

/-- The loop over one rule ends by itself. -/
def Loops {α : Type} (isEnd : Parse Bool) (item : Parse α) : Prop :=
  ∀ s, s.Closed → Turns isEnd (fun _ : Unit => item) (fun _ _ => ()) () s (many isEnd item s)

/-- The turns of an extension that has no bound: in each the step applies and takes a token, until
it does not apply or fails. -/
inductive Grows {α : Type} (step : α → Parse (Option α)) :
    α → Stream → EStateM.Result Diagnostic Stream α → Prop
  | done {a : α} {s t : Stream} : step a s = .ok none t → Grows step a s (.ok a t)
  | broken {a : α} {s t : Stream} {d : Diagnostic} : step a s = .error d t →
      Grows step a s (.error d t)
  | turn {a b : α} {s t : Stream} {r : EStateM.Result Diagnostic Stream α} :
      step a s = .ok (some b) t → t.left < s.left → Grows step b t r → Grows step a s r

end Parse

open Parse

/-- The rules of a grammar get on: a statement takes a token or fails, and so does every turn of the
loops over statements, clauses, parameters, arguments, elements, entries, declarators, the parts of
a sequence, member accesses and operands. -/
structure Grammar.Progresses (g : Grammar) : Prop where
  statement (c : Context) : Advances (g.statement c)
  program : Loops (sees .endOfInput) (g.statement Context.program)
  block (c : Context) : Loops (sees (.punctuator .rightBrace)) (g.inBlock c)
  consequent (c : Context) : Loops atClauseEnd (g.inBlock c)
  clauses (c : Context) (sawDefault : Bool) (s : Stream) (n : Nat) : s.Closed → s.left < n →
    Turns (accept (.punctuator .rightBrace)) (g.clause c)
      (fun saw clause => saw || clause.isDefault) sawDefault s (g.casesIn c n sawDefault s)
  parameters : Loops (accept (.punctuator .rightParen)) (do
    let _ ← expect (.punctuator .comma)
    inSlot (.ident (← name)))
  arguments : Loops (accept (.punctuator .rightParen)) (do
    let _ ← expect (.punctuator .comma)
    g.assignment false)
  elements : Loops (accept (.punctuator .rightBracket)) (element (g.assignment false))
  entries : Loops (accept (.punctuator .rightBrace))
    (withComma g.property (.punctuator .rightBrace) id)
  declarators (noIn : Bool) : Loops (return !(← accept (.punctuator .comma))) (g.declarator noIn)
  sequence (noIn : Bool) : Loops (return !(← accept (.punctuator .comma))) (g.assignment noIn)
  members (calls : Bool) (e : Expr) (s : Stream) : s.Closed →
    Grows (g.memberStep calls) e s (g.memberTail calls e s)
  operands (least : Nat) (noIn : Bool) (e : Expr) (s : Stream) : s.Closed →
    Grows (g.binaryStep least noIn) e s (extend (g.binaryStep least noIn) e s)

namespace Ending

variable {α σ : Type} {s : Stream}

/-- A stream whose end is that of a text, beside itself. -/
theorem ends_plain (h : s.Closed) : (plain s.failure).Ends s := ⟨h, rfl⟩

theorem Outcomes.holds {E : Ending} {Q : α → Stream → Prop} {a : α} {t : Stream}
    {y : EStateM.Result Diagnostic Stream α} (h : E.Outcomes Q (.ok a t) y) : E.Ends t ∧ Q a t := by
  cases h with
  | ok hEnds hQ => exact ⟨hEnds, hQ⟩

theorem advances {p : Parse α} (h : ∀ E k, Takes E k p p) : Advances p := by
  intro s hs a t hRun
  have hEnds := ends_plain hs
  obtain ⟨ht, hLt⟩ := (hRun ▸ h _ _ s hEnds (Nat.lt_succ_self s.left)).holds
  exact ⟨ht.toClosed, hLt⟩

/-- A loop with a bound beyond the number of tokens has the turns of the loop without one. -/
theorem IsLoop.turns {isEnd : Parse Bool} {item : σ → Parse α} {next : σ → α → σ}
    {loop : Nat → σ → Parse (List α)} (h : IsLoop isEnd item next loop) {K : Stream → Prop}
    (hEnd : ∀ E, Tests (E := E) K isEnd isEnd) (hItem : ∀ x E k, Takes E k (item x) (item x))
    {n : Nat} {x : σ} (hs : s.Closed) (hn : s.left < n) :
    Turns isEnd item next x s (loop n x s) := by
  induction n generalizing s x with
  | zero => exact absurd hn (Nat.not_lt_zero _)
  | succ n ih =>
    have hEnds := ends_plain hs
    rw [h n x]
    show Turns isEnd item next x s (EStateM.bind isEnd _ s)
    unfold EStateM.bind
    cases hTest : isEnd s with
    | error d t => exact .unended hTest
    | ok b t =>
      obtain ⟨ht, hLe, -⟩ := (hTest ▸ hEnd _ s hEnds).holds
      cases b with
      | true => exact .done hTest
      | false =>
        show Turns isEnd item next x s (EStateM.bind (item x) _ t)
        unfold EStateM.bind
        cases hRead : item x t with
        | error d u => exact .broken hTest hRead
        | ok a u =>
          obtain ⟨hu, hLt⟩ := advances (hItem x) t ht.toClosed a u hRead
          have hMore := ih (x := next x a) hu (by omega)
          show Turns isEnd item next x s (EStateM.bind (loop n (next x a)) _ u)
          unfold EStateM.bind
          cases hRest : loop n (next x a) u with
          | error d v => exact .later hTest hRead (by omega) (hRest ▸ hMore)
          | ok as v => exact .turn hTest hRead (by omega) (hRest ▸ hMore)

theorem loops {isEnd : Parse Bool} {item : Parse α} {K : Stream → Prop}
    (hEnd : ∀ E, Tests (E := E) K isEnd isEnd) (hItem : ∀ E k, Takes E k item item) :
    Loops isEnd item :=
  fun _ hs => (isLoop_manyIn isEnd item).turns hEnd (fun _ => hItem) hs
    (Nat.lt_add_of_pos_right Nat.two_pos)

theorem grows {step : α → Parse (Option α)} (hStep : ∀ E k a, Steps E k (step a) (step a)) (a : α)
    (hs : s.Closed) : Grows step a s (extend step a s) := by
  have hGo (n : Nat) {a : α} {s : Stream} (hs : s.Closed) (hn : s.left < n) :
      Grows step a s (extendIn step n a s) := by
    induction n generalizing a s with
    | zero => exact absurd hn (Nat.not_lt_zero _)
    | succ n ih =>
      have hEnds := ends_plain hs
      show Grows step a s (EStateM.bind (step a) _ s)
      unfold EStateM.bind
      cases hRun : step a s with
      | error d t => exact .broken hRun
      | ok r t =>
        obtain ⟨ht, -, hLt⟩ := (hRun ▸ hStep _ _ a s hEnds (Nat.lt_succ_self _)).holds
        cases r with
        | none => exact .done hRun
        | some b =>
          have hLt := hLt rfl
          exact .turn hRun hLt (ih ht.toClosed (by omega))
  exact hGo _ hs (Nat.lt_add_of_pos_right Nat.two_pos)

/-- The rules without any text to read at the bottom agree with themselves on all tokens. -/
theorem Agrees.nested (E : Ending) (n k : Nat) :
    E.Agrees k (Grammar.nested n) (Grammar.nested n) := by
  induction n generalizing k with
  | zero =>
    exact ⟨fun _ => .unexpected _, fun _ _ => .unexpected _, .unexpected _, .unexpected _,
      fun _ => .unexpected _⟩
  | succ n ih =>
    cases k with
    | zero => exact .zero E _ _
    | succ k => exact (ih k).around

end Ending

open Ending in
/-- The rules of every nesting get on. -/
theorem Grammar.progresses_nested (n : Nat) : (nested n).Progresses := by
  have hg (E : Ending) (k : Nat) : E.Agrees k (nested n) (nested n) := .nested E n k
  have hStatement (c : Context) (E : Ending) (k : Nat) :
      Takes E k ((nested n).statement c) ((nested n).statement c) := (hg E (k + 1)).statement c
  have hInBlock (c : Context) (E : Ending) (k : Nat) :
      Takes E k ((nested n).inBlock c) ((nested n).inBlock c) := (hg E (k + 1)).inBlock c
  have hComma {α : Type} {item : Parse α} (hItem : ∀ E k, Takes E k item item)
      (E : Ending) (k : Nat) : Takes E k (do let _ ← expect (.punctuator .comma); item)
        (do let _ ← expect (.punctuator .comma); item) :=
    (expect_takes (by simp)).bind fun _ => (hItem E _).keeps
  have hAccept {type : TokenType} (hType : type ≠ .endOfInput) (E : Ending) :
      Tests (E := E) (fun _ => True) (accept type) (accept type) := accept_tests hType
  exact
    { statement := fun c => advances (hStatement c)
      program := loops (fun _ => sees_tests _) (hStatement _)
      block := fun c => loops (fun _ => sees_tests _) (hInBlock c)
      consequent := fun c => loops (fun _ => atClauseEnd_tests) (hInBlock c)
      clauses := fun c saw s m hs hm => (isLoop_casesIn (nested n) c).turns (hAccept (by simp))
        (fun saw E k => (hg E k).clause c saw) hs hm
      parameters := loops (hAccept (by simp)) (hComma fun _ _ => slotName_takes)
      arguments := loops (hAccept (by simp)) (hComma fun E k => (hg E k).assignment false)
      elements := loops (hAccept (by simp)) fun E k => element_takes ((hg E k).assignment false)
      entries := loops (hAccept (by simp)) fun E k => withComma_takes (hg E k).property
      declarators := fun noIn => loops (fun _ => noComma_tests) fun E k => (hg E k).declarator noIn
      sequence := fun noIn => loops (fun _ => noComma_tests) fun E k => (hg E k).assignment noIn
      members := fun calls e _ => grows (fun E k a s hs hLeft =>
        (hg E k).memberStep calls a s hs (Nat.lt_succ_of_lt hLeft)) e
      operands := fun least noIn e _ => grows (fun E k a s hs hLeft =>
        (hg E k).binaryStep least noIn a s hs (Nat.lt_succ_of_lt hLeft)) e }

/-! ### What the lexer hands over -/

namespace Lexer

/-- The error of a lexer, if it has one, is a lexical one. -/
def Lexical (l : Lexer) : Prop := ∀ d, l.failure = some d → d.kind = .lexical

variable [PatternCheck]

theorem Lexical.next {l : Lexer} (h : l.Lexical) : l.next.2.Lexical := by
  unfold Lexer.next
  cases hFailure : l.failure with
  | some d => exact h
  | none =>
    have hClear {m : Lexer} (hNone : m.failure = none) : m.Lexical :=
      fun d hd => absurd (hNone.symm.trans hd) (by simp)
    dsimp only
    cases Lexeme.scan l.before (l.cursor.advance (Gap.scan l.cursor.rest).width).rest with
    | error f =>
      intro d hd
      rw [← Option.some.inj hd]
      rfl
    | ok lexeme =>
      dsimp only
      split
      · exact hClear rfl
      · exact hClear rfl

theorem Lexical.steps {l : Lexer} (h : l.Lexical) {fuel : Nat} :
    ∀ step ∈ l.steps fuel, step.2.Lexical := by
  induction fuel generalizing l with
  | zero => exact fun _ hStep => absurd hStep List.not_mem_nil
  | succ fuel ih =>
    rw [Lexer.steps]
    dsimp only
    split
    · exact List.forall_mem_singleton.mpr h.next
    · exact List.forall_mem_cons.mpr ⟨h.next, ih h.next⟩

theorem significant_lexical {source : Source} {d : Diagnostic}
    (h : (ofSource source).significant.2 = some d) : d.kind = .lexical := by
  obtain ⟨step, hLast, hFailure⟩ := Option.bind_eq_some_iff.mp h
  have hStart : (ofSource source).Lexical := fun d hd => by cases hd
  exact hStart.steps step (List.mem_of_getLast? hLast) d hFailure

/-- In front of a lexical error there is no end of input. -/
theorem significant_endless (source : Source) (h : (ofSource source).significant.2.isSome = true) :
    ∀ t ∈ (ofSource source).significant.1, t.type ≠ .endOfInput := by
  have hGo {text : Bytes} {offset : Nat} {steps : List (Token × Lexer)}
      (hCuts : Cuts text offset steps)
      (hSome : (steps.getLast?.bind (·.2.failure)).isSome = true) :
      ∀ t ∈ steps.map (·.1), t.type ≠ .endOfInput := by
    induction hCuts with
    | @last offset t after hStep hLast =>
      refine List.forall_mem_singleton.mpr fun hEnd => ?_
      have hEnd : t.type = .endOfInput := hEnd
      have hNone : after.failure = none := hStep.failure_iff.mpr (by simp [hEnd])
      simp [hNone] at hSome
    | @more offset t after rest hStep hLast hRest ih =>
      have hne : rest ≠ [] := by
        rintro rfl
        cases hRest
      rw [List.getLast?_cons_of_ne_nil hne] at hSome
      exact List.forall_mem_cons.mpr ⟨(isLast_eq_false.mp hLast).1, ih hSome⟩
  exact fun t ht => hGo (cuts_ofSource source) h t (List.mem_filter.mp ht).1

end Lexer

/-- The tokens of the text end in the end of input, or a lexical error comes after them. -/
structure Ending.Hands (E : Ending) (tokens : List Token) : Prop where
  last : E.failure = none → ∃ front t, tokens = front ++ [t] ∧ t.type = .endOfInput ∧
    ∀ u ∈ front, u.type ≠ .endOfInput
  endless : E.failure.isSome = true → ∀ t ∈ tokens, t.type ≠ .endOfInput

/-- Either the lexical error is met at once, or the stream starts, and does so with more behind its
end. -/
theorem Ending.Hands.start {E : Ending} {tokens : List Token} (h : E.Hands tokens)
    (source : Option Source) (census : Census) :
    (∃ d, E.failure = some d ∧ Stream.start source census tokens E.failure = .error d ∧
      Stream.start source census (tokens ++ E.tail) E.after = .error d) ∨
    ∃ s, Stream.start source census tokens E.failure = .ok s ∧
      Stream.start source census (tokens ++ E.tail) E.after = .ok (E.beyond s) ∧ E.Ends s ∧
      s.left < tokens.length := by
  have hFits := E.fits
  have hClosed {first : Token} {rest : List Token} (hTokens : tokens = first :: rest)
      (hUnread : E.failure.isSome = true → rest ≠ []) :
      E.Ends ⟨first, rest, E.failure, ⟨0, 0, 0⟩, source, census⟩ ∧ rest.length < tokens.length := by
    subst hTokens
    refine ⟨⟨⟨fun hNone t ht => ?_, hUnread, h.endless⟩, rfl⟩, Nat.lt_succ_self _⟩
    obtain ⟨front, last, hSplit, hType, -⟩ := h.last hNone
    have hLast : t ∈ (front ++ [last]).getLast? := hSplit ▸ ht
    rw [List.getLast?_concat] at hLast
    exact Option.some.inj hLast ▸ hType
  cases hFailure : E.failure with
  | some d =>
    obtain ⟨hTail, hAfter⟩ := hFits.resolve_right (by simp [hFailure])
    rw [hTail, List.append_nil, hAfter, hFailure]
    match tokens with
    | [] => exact .inl ⟨d, rfl, rfl, rfl⟩
    | [_] => exact .inl ⟨d, rfl, rfl, rfl⟩
    | first :: next :: rest =>
      refine .inr ⟨_, rfl, ?_, hFailure ▸ hClosed rfl (fun _ => List.cons_ne_nil _ _)⟩
      rw [beyond, hTail, hAfter, hFailure, List.append_nil]
      rfl
  | none =>
    obtain ⟨front, last, hSplit, -⟩ := h.last hFailure
    obtain ⟨first, rest, hCons⟩ := List.exists_cons_of_ne_nil
      (show tokens ≠ [] by simp [hSplit])
    refine .inr ⟨⟨first, rest, E.failure, ⟨0, 0, 0⟩, source, census⟩, ?_, ?_,
      hClosed hCons (by simp [hFailure])⟩
    · rw [hCons, hFailure]
      cases rest <;> rfl
    · rw [hCons, List.cons_append, beyond]
      rcases hFits with ⟨hTail, hAfter⟩ | ⟨hTail, -⟩
      · rw [hTail, hAfter, hFailure, List.append_nil]
        cases rest <;> rfl
      · obtain ⟨u, us, hMore⟩ := List.exists_cons_of_ne_nil
          (show rest ++ E.tail ≠ [] by simp [hTail])
        rw [hMore]
        cases E.after <;> rfl

/-! ### Programs -/

theorem Grammar.nestedOver_add (g : Grammar) (n m : Nat) :
    g.nestedOver (n + m) = (g.nestedOver n).nestedOver m := by
  induction m with
  | zero => rfl
  | succ m ih => rw [← Nat.add_assoc, nestedOver, nestedOver, ih]

namespace Program

/-- What a grammar makes of tokens with a lexical error after them. -/
def readTokens (g : Grammar) (source : Option Source) (tokens : List Token)
    (failure : Option Diagnostic) : Except Diagnostic Program :=
  match Stream.start source {} tokens failure with
  | .error d => .error d
  | .ok s =>
    match g.program s with
    | .ok p _ => .ok p
    | .error d _ => .error d

theorem parse_eq_readTokens [PatternCheck] (source : Source) :
    parse source = readTokens (Grammar.nested ((Lexer.ofSource source).significant.1.length + 1))
      source (Lexer.ofSource source).significant.1 (Lexer.ofSource source).significant.2 := by
  unfold parse readFrom readTokens
  dsimp only
  rw [show (Lexer.ofSource source).source = some source from rfl]
  cases Stream.start (some source) {} (Lexer.ofSource source).significant.1
      (Lexer.ofSource source).significant.2 with
  | error d => rfl
  | ok s =>
    dsimp only
    cases (Grammar.nested ((Lexer.ofSource source).significant.1.length + 1)).program s <;> rfl

/-- What comes out does not depend on the rules for texts nested deeper than there are tokens, nor
on what stands behind the end; it is a program that ends at the end of input, or an error. -/
theorem readTokens_beyond {E : Ending} {tokens : List Token} (h : E.Hands tokens)
    (source : Option Source) (g g' : Grammar) {n : Nat} (hn : tokens.length < n) :
    readTokens (g.nestedOver n) source (tokens ++ E.tail) E.after =
        readTokens (g'.nestedOver n) source tokens E.failure ∧
      ((∃ p, readTokens (g'.nestedOver n) source tokens E.failure = .ok p ∧ E.failure = none) ∨
        ∃ d, readTokens (g'.nestedOver n) source tokens E.failure = .error d ∧ E.Faults d) := by
  unfold readTokens
  rcases h.start source {} with ⟨d, hFailure, hStart, hStart'⟩ | ⟨s, hStart, hStart', hEnds, hLeft⟩
  · rw [hStart, hStart']
    exact ⟨rfl, .inr ⟨d, rfl, .inl hFailure⟩⟩
  · rw [hStart, hStart']
    have hRuns := (Ending.Agrees.nestedOver g' g n).program hEnds (by omega)
    dsimp only
    revert hRuns
    generalize (g'.nestedOver n).program s = x
    generalize (g.nestedOver n).program (E.beyond s) = y
    rintro (⟨hAfter, hType⟩ | ⟨hFaults⟩)
    · refine ⟨rfl, .inl ⟨_, rfl, Option.not_isSome_iff_eq_none.mp fun hSome => ?_⟩⟩
      exact hAfter.endless (hAfter.failure ▸ hSome) _ List.mem_cons_self hType
    · exact ⟨rfl, .inr ⟨_, rfl, hFaults⟩⟩

/-- Reading a source comes to an end, whatever its bytes are.

It gives a program, if the lexer gave no error, or the error of the lexer, or one of the grammar.
Any rules at all for texts nested deeper than there are tokens give the same, so they are never
used. Any tokens and any error behind the end of input and one token more give the same as well, so
the lexer is asked for no more than these two. And a statement takes a token or fails, as does every
turn of a loop, so that each loop ends without its bound. -/
theorem parse_total [PatternCheck] (source : Source) : ∃ tokens failure,
    (Lexer.ofSource source).significant = (tokens, failure) ∧
    ((∃ p, parse source = .ok p ∧ failure = none) ∨
      ∃ d, parse source = .error d ∧
        (failure = some d ∧ d.kind = .lexical ∨ d.kind = .syntactic)) ∧
    (∀ g n, tokens.length < n →
      readTokens (Grammar.nestedOver g n) source tokens failure = parse source) ∧
    (failure = none → ∃ front last, tokens = front ++ [last] ∧ last.type = .endOfInput ∧
      (∀ t ∈ front, t.type ≠ .endOfInput) ∧
      ∀ g n second more d, tokens.length < n →
        readTokens (Grammar.nestedOver g n) source (front ++ last :: second :: more) d =
          parse source) ∧
    ∀ n, (Grammar.nested n).Progresses := by
  have hParse := parse_eq_readTokens source
  have hLast :=
    Lexer.significant_last (l := Lexer.ofSource source) (Cursor.In.start source.content) rfl
  have hEndless := Lexer.significant_endless source
  have hLexical (d : Diagnostic) : (Lexer.ofSource source).significant.2 = some d →
      d.kind = .lexical := Lexer.significant_lexical
  refine ⟨(Lexer.ofSource source).significant.1, (Lexer.ofSource source).significant.2, rfl, ?_⟩
  revert hParse hLast hEndless hLexical
  generalize (Lexer.ofSource source).significant.1 = tokens
  generalize (Lexer.ofSource source).significant.2 = failure
  intro hParse hLast hEndless hLexical
  have hHands (E : Ending) (hFailure : E.failure = failure) : E.Hands tokens :=
    ⟨hFailure ▸ hLast, hFailure ▸ hEndless⟩
  rw [Grammar.nested_eq_nestedOver] at hParse
  have hBeyond (E : Ending) (hFailure : E.failure = failure) (g : Grammar) (n : Nat)
      (hn : tokens.length < n) :
      readTokens (g.nestedOver n) source (tokens ++ E.tail) E.after = parse source := by
    obtain ⟨m, rfl⟩ := Nat.exists_eq_add_of_lt hn
    rw [show tokens.length + m + 1 = m + (tokens.length + 1) by omega, Grammar.nestedOver_add,
      hParse, (readTokens_beyond (hHands E hFailure) source _ Grammar.empty (Nat.lt_succ_self _)).1,
      hFailure]
  refine ⟨?_, fun g n hn => ?_, fun hNone => ?_, Grammar.progresses_nested⟩
  · rw [hParse]
    have hVerdict := (readTokens_beyond (hHands (.plain failure) rfl) source Grammar.empty
      Grammar.empty (Nat.lt_succ_self _)).2
    refine hVerdict.imp_right fun ⟨d, hRun, hFaults⟩ => ⟨d, hRun, ?_⟩
    exact hFaults.imp_left fun hFailure => ⟨hFailure, hLexical d hFailure⟩
  · have hPlain := hBeyond (.plain failure) rfl g n hn
    rwa [Ending.plain, List.append_nil] at hPlain
  · obtain ⟨front, last, hSplit, hType, hFront⟩ := hLast hNone
    refine ⟨front, last, hSplit, hType, hFront, fun g n second more d hn => ?_⟩
    have hMore :=
      hBeyond ⟨none, second :: more, d, .inr ⟨List.cons_ne_nil _ _, rfl⟩⟩ hNone.symm g n hn
    rwa [hSplit, List.append_assoc] at hMore

end Program

end ScriptOptimizer
