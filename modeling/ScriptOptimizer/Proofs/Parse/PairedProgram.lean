import ScriptOptimizer.Parse.Statement
import ScriptOptimizer.Proofs.Parse.PairedStatement
import ScriptOptimizer.Proofs.Token.Lossless

/-!
Whole programs side by side, and the two ends of a reading: what the lexer hands over and what comes
out.
-/

namespace ScriptOptimizer

variable [PatternCheck]

namespace Lexer

/-- Without a lexical error the last token that counts is the end of input, and no other is. -/
theorem significant_last {text : Bytes} {l : Lexer} (h : l.cursor.In text)
    (hOk : l.failure = none) (hNone : l.significant.2 = none) :
    ∃ (front : List Token) (t : Token), l.significant.1 = front ++ [t] ∧ t.type = .endOfInput ∧
      ∀ u ∈ front, u.type ≠ .endOfInput := by
  have hRun : text.length - l.cursor.offset < l.cursor.rest.length + 1 := by
    rw [h.length_rest]
    omega
  have hCuts := steps_cuts h hOk hRun
  have hEnd {offset : Nat} {steps : List (Token × Lexer)} (hCuts : Cuts text offset steps)
      (hNone : steps.getLast?.bind (·.2.failure) = none) :
      ∃ (front : List Token) (t : Token),
        (steps.map (·.1)).filter (fun t => t.type ≠ .illegal && t.type ≠ .comment) =
          front ++ [t] ∧ t.type = .endOfInput ∧ ∀ u ∈ front, u.type ≠ .endOfInput := by
    induction hCuts with
    | @last offset t after hStep hLast =>
      have hLegal : t.type ≠ .illegal := hStep.failure_iff.mp (by simpa using hNone)
      have hType : t.type = .endOfInput := by
        simp only [isLast, Bool.or_eq_true, decide_eq_true_eq] at hLast
        exact hLast.resolve_right hLegal
      exact ⟨[], t, by simp [hType], hType, by simp⟩
    | @more offset t after rest hStep hLast hRest ih =>
      have hne : rest ≠ [] := by
        rintro rfl
        cases hRest
      obtain ⟨front, last, hSplit, hType, hFront⟩ :=
        ih (by rwa [List.getLast?_cons_of_ne_nil hne] at hNone)
      rw [List.map_cons, List.filter_cons, hSplit]
      split
      · exact ⟨t :: front, last, rfl, hType,
          List.forall_mem_cons.mpr ⟨(isLast_eq_false.mp hLast).1, hFront⟩⟩
      · exact ⟨front, last, rfl, hType, hFront⟩
  exact hEnd hCuts hNone

end Lexer

namespace Pairing

variable {P : Pairing}

/-- Both texts read as programs that belong together, or both have errors that do. -/
inductive Verdicts (P : Pairing) : Except Diagnostic Program → Except Diagnostic Program → Prop
  | ok {p q : Program} : Twins Program.bare (fun p => Stmt.AllFormed P.tokens .program p.body) p q →
      Verdicts P (.ok p) (.ok q)
  | error {d e : Diagnostic} : P.Faults d e → Verdicts P (.error d) (.error e)

/-- Two lexers whose tokens belong together. A lexical error may come before all of them. -/
structure Sources (P : Pairing) (l m : Lexer) : Prop where
  left : l.source = P.left
  right : m.source = P.right
  leftFailure : l.significant.2 = P.leftFailure
  rightFailure : m.significant.2 = P.rightFailure
  lists : P.Lists false l.significant.1 m.significant.1 ∨
    l.significant.1 = [] ∧ m.significant.1 = [] ∧ P.leftFailure.isSome = true

/-- Both streams start, or neither does. -/
theorem Sources.start {l m : Lexer} (h : P.Sources l m) (c d : Census) :
    (∃ e e', Stream.start l.source c l.significant.1 l.significant.2 = .error e ∧
      Stream.start m.source d m.significant.1 m.significant.2 = .error e' ∧ P.Faults e e') ∨
    ∃ s u, Stream.start l.source c l.significant.1 l.significant.2 = .ok s ∧
      Stream.start m.source d m.significant.1 m.significant.2 = .ok u ∧ P.Streams false s u := by
  have hFails := P.fails
  rw [h.left, h.right, h.leftFailure, h.rightFailure]
  rcases h.lists with hLists | ⟨hLeft, hRight, hFailure⟩
  · revert hLists
    generalize l.significant.1 = ts
    generalize m.significant.1 = us
    intro hLists
    cases hLists with
    | @last _ t v hRel hEnd =>
      cases hLeft : P.leftFailure with
      | none =>
        have hRight : P.rightFailure = none := by simpa [hLeft] using hFails
        rw [hRight]
        exact .inr ⟨_, _, rfl, rfl, .last hRel hEnd, hLeft.symm, hRight.symm, rfl, rfl,
          by simp [hLeft]⟩
      | some e =>
        rw [hLeft] at hFails
        obtain ⟨e', hRight⟩ := Option.isSome_iff_exists.mp hFails.symm
        rw [hRight]
        exact .inl ⟨e, e', rfl, rfl, .failed hLeft hRight⟩
    | @cons _ t v ts us hRel hMore =>
      have hne {ts us : List Token} {dot : Bool} (hMore : P.Lists dot ts us) : ts ≠ [] := by
        cases hMore <;> simp
      refine .inr ⟨⟨t, ts, P.leftFailure, ⟨0, 0, 0⟩, P.left, c⟩,
        ⟨v, us, P.rightFailure, ⟨0, 0, 0⟩, P.right, d⟩, ?_, ?_, .cons hRel hMore, rfl, rfl, rfl,
        rfl, fun _ => hne hMore⟩
      · cases hMore <;> cases P.leftFailure <;> rfl
      · cases hMore <;> cases P.rightFailure <;> rfl
  · rw [hLeft, hRight]
    obtain ⟨e, hLeftFailure⟩ := Option.isSome_iff_exists.mp hFailure
    obtain ⟨e', hRightFailure⟩ := Option.isSome_iff_exists.mp (hFails ▸ hFailure)
    rw [hLeftFailure, hRightFailure]
    exact .inl ⟨e, e', rfl, rfl, .failed hLeftFailure hRightFailure⟩

/-- Texts whose tokens belong together read as programs, or fail with errors, that do. -/
theorem Sources.readFrom {l m : Lexer} (h : P.Sources l m) (c d : Census) :
    Verdicts P (Program.readFrom c l).1 (Program.readFrom d m).1 := by
  have hLength : m.significant.1.length = l.significant.1.length := by
    rcases h.lists with hLists | ⟨hLeft, hRight, -⟩
    · exact hLists.length_eq
    · rw [hLeft, hRight]
  unfold Program.readFrom
  rcases h.start c d with ⟨e, e', hLeft, hRight, hFaults⟩ | ⟨s, u, hLeft, hRight, hStreams⟩
  · dsimp only
    rw [hLeft, hRight]
    exact .error hFaults
  · dsimp only
    rw [hLeft, hRight, hLength]
    dsimp only
    have hOutcomes := (P.rules_nested (l.significant.1.length + 1)).program hStreams
    revert hOutcomes
    generalize (Grammar.nested (l.significant.1.length + 1)).program s = x
    generalize (Grammar.nested (l.significant.1.length + 1)).program u = y
    rintro (⟨hPrograms, -⟩ | ⟨hFaults⟩)
    · exact .ok hPrograms
    · exact .error hFaults

/-! ### A text beside itself -/

/-- The tokens are in a set, the first of them perhaps after a dot. -/
def Along (ts : TokenSet) : Bool → List Token → Prop
  | _, [] => True
  | dot, t :: rest => ts dot t ∧ Along ts (t.type = .punctuator .dot) rest

omit [PatternCheck] in
/-- Tokens are of a set whichever of them stand after a dot. -/
theorem Along.of_forall {p : Token → Prop} {dot : Bool} {list : List Token}
    (h : ∀ t ∈ list, p t) : Along (fun _ t => p t) dot list := by
  induction list generalizing dot with
  | nil => trivial
  | cons t rest ih => exact ⟨h t (by simp), ih fun u hu => h u (by simp [hu])⟩

/-- A text beside itself, with tokens from a set. -/
def self (ts : TokenSet) (source : Option Source) (failure : Option Diagnostic) : Pairing where
  rel dot t u := t = u ∧ ts dot t
  same := by
    rintro dot t _ ⟨rfl, -⟩
    exact ⟨rfl, rfl, rfl, rfl, rfl, rfl⟩
  left := source
  right := source
  leftFailure := failure
  rightFailure := failure
  fails := rfl

omit [PatternCheck] in
theorem tokens_self (ts : TokenSet) (source : Option Source) (failure : Option Diagnostic) :
    (self ts source failure).tokens = ts := by
  funext dot t
  exact propext ⟨fun ⟨_, _, h⟩ => h, fun h => ⟨t, rfl, h⟩⟩

omit [PatternCheck] in
theorem Lists.self {ts : TokenSet} {source : Option Source} {failure : Option Diagnostic}
    {dot : Bool} {list : List Token} (hne : list ≠ []) (hAlong : Along ts dot list)
    (hEnd : failure = none → ∃ (front : List Token) (t : Token),
      list = front ++ [t] ∧ t.type = .endOfInput ∧
      ∀ u ∈ front, u.type ≠ .endOfInput) :
    (self ts source failure).Lists dot list list := by
  induction list generalizing dot with
  | nil => exact absurd rfl hne
  | cons t rest ih =>
    cases rest with
    | nil =>
      refine .last ⟨rfl, hAlong.1⟩ fun hNone => ?_
      obtain ⟨front, last, hSplit, hType, -⟩ := hEnd hNone
      have hLast : t = last := by simpa using congrArg List.getLast? hSplit
      exact hLast ▸ hType
    | cons next rest =>
      refine .cons ⟨rfl, hAlong.1⟩ (ih (by simp) hAlong.2 fun hNone => ?_)
      obtain ⟨front, last, hSplit, hType, hFront⟩ := hEnd hNone
      cases front with
      | nil => simp at hSplit
      | cons first front =>
        exact ⟨front, last, (List.cons.inj hSplit).2, hType, (List.forall_mem_cons.mp hFront).2⟩

/-- The tokens of a text that are in a set make formed programs and errors about tokens of the
set. -/
theorem Sources.self {ts : TokenSet} {l : Lexer} {text : Bytes} (h : l.cursor.In text)
    (hOk : l.failure = none) (hAlong : Along ts false l.significant.1) :
    (Pairing.self ts l.source l.significant.2).Sources l l := by
  refine ⟨rfl, rfl, rfl, rfl, ?_⟩
  by_cases hNil : l.significant.1 = []
  · refine .inr ⟨hNil, hNil, Option.isSome_iff_ne_none.mpr fun hNone => ?_⟩
    obtain ⟨front, t, hSplit, -⟩ := Lexer.significant_last h hOk hNone
    simp [hNil] at hSplit
  · exact .inl (Lists.self hNil hAlong (Lexer.significant_last h hOk))

end Pairing

/-- A program that is read is formed of the tokens of its source. -/
theorem Program.formed_of_parse {ts : TokenSet} {source : Source} {p : Program}
    (h : parse source = .ok p)
    (hAlong : Pairing.Along ts false (Lexer.ofSource source).significant.1) :
    Stmt.AllFormed ts .program p.body := by
  have hSources := Pairing.Sources.self (l := Lexer.ofSource source) (Cursor.In.start _) rfl hAlong
  have hVerdicts := hSources.readFrom {} {}
  rw [show (readFrom {} (Lexer.ofSource source)).1 = .ok p from h] at hVerdicts
  cases hVerdicts with
  | ok hTwins =>
    have hFormed := hTwins.formed
    rwa [Pairing.tokens_self] at hFormed

end ScriptOptimizer
