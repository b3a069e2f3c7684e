import ScriptOptimizer.Pattern.Check
import ScriptOptimizer.Proofs.Parse.PairedProgram
import ScriptOptimizer.Proofs.Token.Spacing

/-!
Only tokens and line breaks matter. A text whose gaps are replaced by one byte each, which tells
only whether a line break was there, is cut into the same tokens and read as the same program.
-/

namespace ScriptOptimizer

/-! ### The source that errors refer to -/

/-- The same error in another source. -/
def Diagnostic.inSource (source : Option Source) (d : Diagnostic) : Diagnostic :=
  { d with location := { d.location with source } }

namespace Lexer

/-- The same lexer on another source. -/
def inSource (source : Option Source) (l : Lexer) : Lexer :=
  { l with source, failure := l.failure.map (Diagnostic.inSource source) }

variable [PatternCheck]

/-- The source goes into errors only. -/
theorem next_inSource (source : Option Source) (l : Lexer) :
    (l.inSource source).next = (l.next.1, l.next.2.inSource source) := by
  unfold next
  cases hFailure : l.failure with
  | some d => simp only [inSource, hFailure]; rfl
  | none =>
    simp only [inSource, hFailure]
    dsimp only [Option.map]
    cases Lexeme.scan l.before (l.cursor.advance (Gap.scan l.cursor.rest).width).rest with
    | error f => rfl
    | ok lexeme =>
      dsimp only
      split <;> simp

theorem steps_inSource (source : Option Source) (l : Lexer) (fuel : Nat) :
    (l.inSource source).steps fuel =
      (l.steps fuel).map fun step => (step.1, step.2.inSource source) := by
  induction fuel generalizing l with
  | zero => rfl
  | succ n ih =>
    rw [steps, steps, next_inSource]
    dsimp only
    split
    · rfl
    · rw [ih, List.map_cons]

theorem significant_inSource (source : Option Source) (l : Lexer) :
    (l.inSource source).significant =
      (l.significant.1, l.significant.2.map (Diagnostic.inSource source)) := by
  have hRun : (l.inSource source).run = l.run.map fun step => (step.1, step.2.inSource source) :=
    steps_inSource source l _
  unfold significant
  simp only [hRun, List.map_map, List.getLast?_map]
  refine Prod.ext rfl ?_
  cases l.run.getLast? with
  | none => rfl
  | some step => rfl

end Lexer

/-! ### Gaps replaced -/

/-- The text with the gap before each token, comments included, replaced by a line feed where a line
break was in it, and by a blank elsewhere. -/
def respaced [PatternCheck] (text : Bytes) : Bytes :=
  (Lexer.ofText text).significant.1.flatMap fun t => t.separator :: text.slice t.start t.stop

namespace Lexer

variable [PatternCheck]

/-- The literals of the tokens that count are what the text holds there. -/
theorem respaced_eq (text : Bytes) : respaced text = spread (ofText text).significant.1 := by
  have hCuts : Cuts text 0 (ofText text).run :=
    steps_cuts (l := ofText text) (Cursor.In.start text) rfl (Nat.lt_succ_of_le (Nat.sub_le _ _))
  refine List.flatMap_congr fun t ht => ?_
  obtain ⟨hMem, hKept⟩ := List.mem_filter.mp ht
  obtain ⟨step, hStep, rfl⟩ := List.mem_map.mp hMem
  obtain ⟨start, hAdvances⟩ := hCuts.exists_advances hStep
  rw [hAdvances.literal_eq (by simp at hKept; exact hKept.1)]

/-- Replacing the gaps of a text without lexical errors keeps its tokens. -/
theorem significant_respaced {text : Bytes} (h : (ofText text).significant.2 = none) :
    (ofText (respaced text)).significant.2 = none ∧
      List.Forall₂ Token.Same (ofText text).significant.1
        (ofText (respaced text)).significant.1 := by
  obtain ⟨front, last, hSplit, hLast, hFront⟩ :=
    significant_last (Cursor.In.start text) (l := ofText text) rfl h
  have hScanned : Scanned none (ofText text).significant.1 := significant_scanned (ofText text)
  have hKept : ∀ u ∈ front, u.type ∉ [.illegal, .comment, .endOfInput] := by
    intro u hu
    have hMem : u ∈ (ofText text).significant.1 := by rw [hSplit]; simp [hu]
    have := (List.mem_filter.mp hMem).2
    simp only [Bool.and_eq_true, decide_eq_true_eq] at this
    simp [this, hFront u hu]
  have hLength := length_le_spread (front ++ [last])
  rw [List.length_append] at hLength
  rw [respaced_eq, hSplit]
  rw [hSplit] at hScanned
  have hSteps : List.Forall₂ _ (ofText (spread (front ++ [last]))).run (front ++ [last]) :=
    steps_spread hScanned hLast hKept rfl rfl rfl .none
      (Nat.lt_succ_of_le (Nat.le_of_add_right_le hLength))
  obtain ⟨hClean, hSame⟩ := (List.forall₂_and_left _ _).1 hSteps
  rw [significant_of_run hClean]
  exact ⟨rfl, List.forall₂_map_right_iff.2 hSame.flip⟩

end Lexer

namespace Pairing

/-- Two texts without lexical errors whose tokens say the same. -/
def beside (left right : Option Source) : Pairing where
  rel _ t u := t.Same u
  same h := h
  left := left
  right := right
  leftFailure := none
  rightFailure := none
  fails := rfl

theorem Lists.beside {left right : Option Source} {front us : List Token} {last : Token}
    {dot : Bool} (h : List.Forall₂ Token.Same (front ++ [last]) us)
    (hLast : last.type = .endOfInput) :
    (Pairing.beside left right).Lists dot (front ++ [last]) us := by
  induction front generalizing us dot with
  | nil =>
    obtain ⟨u, rest, hSame, hRest, rfl⟩ := List.forall₂_cons_left_iff.1 h
    obtain rfl := List.forall₂_nil_left_iff.1 hRest
    exact .last hSame fun _ => hLast
  | cons t front ih =>
    obtain ⟨u, rest, hSame, hRest, rfl⟩ := List.forall₂_cons_left_iff.1 h
    exact .cons hSame (ih hRest)

theorem Sources.beside [PatternCheck] {l m : Lexer} {text : Bytes} (h : l.cursor.In text)
    (hOk : l.failure = none) (hLeft : l.significant.2 = none) (hRight : m.significant.2 = none)
    (hSame : List.Forall₂ Token.Same l.significant.1 m.significant.1) :
    (Pairing.beside l.source m.source).Sources l m := by
  obtain ⟨front, last, hSplit, hLast, -⟩ := Lexer.significant_last h hOk hLeft
  rw [hSplit] at hSame
  exact ⟨rfl, rfl, hLeft, hRight, .inl (hSplit ▸ Lists.beside hSame hLast)⟩

end Pairing

namespace Program

/-- Only tokens and line breaks matter. If a text is cut into tokens without error, so is the text
with its gaps replaced, and into the same tokens, line breaks before them included. Both texts read
as the same program, spans apart, or both fail with the same message. -/
theorem respaced_same [PatternCheck] (text : Bytes) (h : (tokenize text).2 = none) :
    (tokenize (respaced text)).2 = none ∧
    List.Forall₂ Token.Same (Lexer.ofText text).significant.1
      (Lexer.ofText (respaced text)).significant.1 ∧
    ∀ name path name' path',
      (∃ p q, parse ⟨name, path, text⟩ = .ok p ∧ parse ⟨name', path', respaced text⟩ = .ok q ∧
        p.bare = q.bare) ∨
      ∃ d e, parse ⟨name, path, text⟩ = .error d ∧ parse ⟨name', path', respaced text⟩ = .error e ∧
        d.message = e.message := by
  obtain ⟨hNone, hSame⟩ := Lexer.significant_respaced h
  refine ⟨hNone, hSame, fun name path name' path' => ?_⟩
  have hLeft : (Lexer.ofSource ⟨name, path, text⟩).significant = _ :=
    Lexer.significant_inSource (some ⟨name, path, text⟩) (Lexer.ofText text)
  have hRight : (Lexer.ofSource ⟨name', path', respaced text⟩).significant = _ :=
    Lexer.significant_inSource (some ⟨name', path', respaced text⟩) (Lexer.ofText (respaced text))
  rw [show (Lexer.ofText text).significant.2 = none from h] at hLeft
  rw [hNone] at hRight
  have hSources := Pairing.Sources.beside (l := Lexer.ofSource ⟨name, path, text⟩)
    (m := Lexer.ofSource ⟨name', path', respaced text⟩) (Cursor.In.start text) rfl
    (congrArg Prod.snd hLeft) (congrArg Prod.snd hRight) (by rw [hLeft, hRight]; exact hSame)
  have hVerdicts := hSources.readFrom {} {}
  unfold parse
  revert hVerdicts
  generalize (readFrom {} (Lexer.ofSource ⟨name, path, text⟩)).1 = x
  generalize (readFrom {} (Lexer.ofSource ⟨name', path', respaced text⟩)).1 = y
  rintro (⟨hTwins⟩ | ⟨hFaults⟩)
  · exact .inl ⟨_, _, rfl, rfl, hTwins.alike⟩
  · refine .inr ⟨_, _, rfl, rfl, ?_⟩
    cases hFaults with
    | failed hFailed => cases hFailed
    | located _ _ hSays => rw [hSays]

/-- A line break in a comment, a regular expression, a reserved word after a dot and a comment at
the end. -/
theorem respaced_same_comments :
    let text := Bytes.ofString "a/*\n*/= /b/g.in// c"
    (tokenize text).2 = none ∧ respaced text = Bytes.ofString " a\n= /b/g . in " ∧
      (tokenize (respaced text)).2 = none := by
  intro text
  have hNone : (tokenize text).2 = none := by decide +kernel
  exact ⟨hNone, by decide +kernel, (respaced_same text hNone).1⟩

end Program

end ScriptOptimizer
