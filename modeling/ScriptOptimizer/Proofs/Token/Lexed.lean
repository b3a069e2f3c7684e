import Mathlib.Data.List.Forall2
import ScriptOptimizer.Parse.Statement
import ScriptOptimizer.Proofs.Token.Lossless
import ScriptOptimizer.Proofs.Token.Spelling

/-!
Texts that are laid out for the lexer: spellings in a row with gaps of blanks and line feeds between
them. Such a text is cut into exactly those tokens unless one of them is a regular expression that
stands where a slash divides. Layouts are put together from the left, each
piece saying after which tokens it may stand and what the text behind it must not begin with.
-/

namespace ScriptOptimizer

/-- Blanks and line feeds only. -/
def IsGap (gap : Bytes) : Prop := ∀ b ∈ gap, b = 32 ∨ b = 10

variable [PatternCheck]

/-- The text reads as tokens of these spellings up to the end of input, after a token of a sort and,
if so `broken`, after a line break. -/
inductive Lexed : (Option Token → Prop) → Bool → Bytes → List Spelling → Prop
  | finish {sort : Option Token → Prop} {broken : Bool} {gap : Bytes} :
      IsGap gap → Lexed sort broken gap [.finish]
  | token {sort : Option Token → Prop} {broken : Bool} {gap rest : Bytes} {w : Spelling}
      {ws : List Spelling} :
      IsGap gap → w.Stands sort rest → w.type ∉ [.illegal, .endOfInput, .comment] →
      (w.joined = true → broken = false ∧ 10 ∉ gap) → Lexed w.After false rest ws →
      Lexed sort broken (gap ++ (w.text ++ rest)) (w :: ws)

namespace Lexed

/-- A text that stands after every token of a sort stands after those of a narrower one. -/
theorem mono {sort narrow : Option Token → Prop} {broken : Bool} {text : Bytes}
    {ws : List Spelling} (h : Lexed sort broken text ws) (hSort : ∀ b, narrow b → sort b) :
    Lexed narrow broken text ws := by
  cases h with
  | finish hGap => exact .finish hGap
  | token hGap hStands hType hJoined hRest =>
    exact .token hGap ⟨fun hBefore => hStands.scan (hSort _ hBefore), hStands.gap, hStands.text_ne⟩
      hType hJoined hRest

/-- One more blank in front. -/
theorem blank {sort : Option Token → Prop} {broken : Bool} {text : Bytes} {ws : List Spelling}
    (h : Lexed sort broken text ws) : Lexed sort broken (32 :: text) ws := by
  have hCons {gap : Bytes} (hGap : IsGap gap) : IsGap (32 :: gap) := by
    simpa [IsGap] using hGap
  cases h with
  | finish hGap => exact .finish (hCons hGap)
  | token hGap hStands hType hJoined hRest =>
    rw [← List.cons_append]
    exact .token (hCons hGap) hStands hType (by simpa using hJoined) hRest

/-- One more line feed in front, unless the first token is bound to the line before. -/
theorem newline {sort : Option Token → Prop} {broken : Bool} {text : Bytes} {w : Spelling}
    {ws : List Spelling} (h : Lexed sort broken text (w :: ws)) (hJoined : w.joined = false) :
    Lexed sort broken (10 :: text) (w :: ws) := by
  have hCons {gap : Bytes} (hGap : IsGap gap) : IsGap (10 :: gap) := by
    simpa [IsGap] using hGap
  cases h with
  | finish hGap => exact .finish (hCons hGap)
  | token hGap hStands hType _ hRest =>
    rw [← List.cons_append]
    exact .token (hCons hGap) hStands hType (by simp [hJoined]) hRest

/-- What stands after a line break stands behind a line feed. -/
theorem lineFeed {sort : Option Token → Prop} {broken : Bool} {text : Bytes} {ws : List Spelling}
    (h : Lexed sort true text ws) : Lexed sort broken (10 :: text) ws := by
  have hCons {gap : Bytes} (hGap : IsGap gap) : IsGap (10 :: gap) := by
    simpa [IsGap] using hGap
  cases h with
  | finish hGap => exact .finish (hCons hGap)
  | token hGap hStands hType hJoined hRest =>
    rw [← List.cons_append]
    exact .token (hCons hGap) hStands hType (fun h => absurd (hJoined h).1 (by simp)) hRest

/-- There is at least the end of input. -/
theorem ne_nil {sort : Option Token → Prop} {broken : Bool} {text : Bytes} {ws : List Spelling}
    (h : Lexed sort broken text ws) : ws ≠ [] := by
  cases h <;> exact List.cons_ne_nil _ _

/-- Every token but the last takes a byte. -/
theorem length_le {sort : Option Token → Prop} {broken : Bool} {text : Bytes} {ws : List Spelling}
    (h : Lexed sort broken text ws) : ws.length ≤ text.length + 1 := by
  induction h with
  | finish => simp
  | token _ hStands _ _ _ ih =>
    have := List.length_pos_iff.2 hStands.text_ne
    simp only [List.length_cons, List.length_append]
    omega

end Lexed

omit [PatternCheck] in
/-- A gap is read as a whole in front of a text that begins with none. -/
theorem Gap.scan_append {gap text : Bytes} (hGap : IsGap gap) (h : scan text = ⟨0, false⟩) :
    scan (gap ++ text) = ⟨gap.length, decide (10 ∈ gap)⟩ := by
  induction gap with
  | nil => simpa using h
  | cons b gap ih =>
    have ih := ih fun c hc => hGap c (List.mem_cons_of_mem _ hc)
    unfold scan at ih ⊢
    rcases hGap b List.mem_cons_self with rfl | rfl
    · simp [scanFrom, startsWithLineSeparator, blankWidth, ih]
    · simp [scanFrom, ih]

namespace Lexer

/-- What the lexer gives for a spelling behind a gap. -/
theorem next_stands {l : Lexer} {sort : Option Token → Prop} {gap rest : Bytes} {w : Spelling}
    (hOk : l.failure = none) (hText : l.cursor.rest = gap ++ (w.text ++ rest)) (hGap : IsGap gap)
    (hSort : sort l.before) (hStands : w.Stands sort rest)
    (hAllowed : w.type = .regex → Lexeme.regexAllowedAfter l.before = true)
    (hType : w.type ≠ .comment) (hJoined : w.joined = true → l.lineBreak = false ∧ 10 ∉ gap) :
    l.next.1.Spelled w ∧ l.next.2.failure = none ∧ l.next.2.cursor.rest = rest ∧
      l.next.2.before = some l.next.1 ∧ l.next.2.lineBreak = false := by
  have hScan := hStands.scan hSort hAllowed
  have hRest : (l.cursor.advance gap.length).rest = w.text ++ rest := by
    rw [Cursor.advance_rest, hText, List.drop_left]
  unfold next
  simp only [hOk, hText, Gap.scan_append hGap hStands.gap, hRest, hScan]
  rw [if_neg (show ¬w.lexeme.type = .comment from hType)]
  refine ⟨⟨rfl, ?_, rfl, rfl, rfl, fun h => ?_⟩, rfl, ?_, rfl, rfl⟩
  · rw [token, hRest]
    exact List.take_left
  · obtain ⟨hBreak, hNone⟩ := hJoined h
    simp [token, hBreak, hNone]
  · rw [Cursor.advance_rest, hRest]
    exact List.drop_left

/-- A text that is laid out as tokens is cut into them if every regular expression stands where one
may stand. -/
theorem steps_lexed {sort : Option Token → Prop} {broken : Bool} {text : Bytes}
    {ws : List Spelling} (h : Lexed sort broken text ws) {l : Lexer} {fuel : Nat}
    (hOk : l.failure = none) (hText : l.cursor.rest = text) (hSort : sort l.before)
    (hBreak : l.lineBreak = broken) (hFuel : ws.length ≤ fuel)
    (hAdmitted : Spelling.Admitted (Lexeme.regexAllowedAfter l.before) ws) :
    List.Forall₂ (fun step w => (step.1.type ∉ [.illegal, .comment] ∧ step.2.failure = none) ∧
      step.1.Spelled w) (l.steps fuel) ws := by
  induction h generalizing l fuel with
  | @finish sort broken gap hGap =>
    obtain ⟨n, rfl⟩ : ∃ n, fuel = n + 1 :=
      ⟨fuel - 1, by simp only [List.length_cons] at hFuel; omega⟩
    have hScan := Gap.scan_append hGap (show Gap.scan [] = ⟨0, false⟩ from rfl)
    rw [List.append_nil] at hScan
    have hRest : (l.cursor.advance gap.length).rest = [] := by
      rw [Cursor.advance_rest, hText, List.drop_length]
    have hNext : l.next.1.Spelled .finish ∧ l.next.2.failure = none := by
      unfold next
      simp only [hOk, hText, hScan, hRest, Lexeme.scan]
      exact ⟨⟨rfl, by simp [token, Spelling.finish], rfl, rfl, rfl, fun h => by cases h⟩, rfl⟩
    have hLast : isLast l.next.1 = true := by
      simp [isLast, hNext.1.type_eq, Spelling.finish]
    rw [steps]
    dsimp only
    rw [if_pos hLast]
    refine .cons ⟨⟨?_, hNext.2⟩, hNext.1⟩ .nil
    simp [hNext.1.type_eq, Spelling.finish]
  | @token sort broken gap rest w ws hGap hStands hType hJoined _ ih =>
    obtain ⟨n, rfl⟩ : ∃ n, fuel = n + 1 :=
      ⟨fuel - 1, by simp only [List.length_cons] at hFuel; omega⟩
    simp only [List.mem_cons, List.not_mem_nil, or_false, not_or] at hType
    obtain ⟨hSpelled, hOk, hRest, hBefore, hBreak⟩ :=
      next_stands hOk hText hGap hSort hStands hAdmitted.1 hType.2.2 (hBreak ▸ hJoined)
    have hLast : isLast l.next.1 = false := by
      simp [isLast, hSpelled.type_eq, hType]
    rw [steps]
    dsimp only
    rw [if_neg (by simp [hLast])]
    refine .cons ⟨⟨?_, hOk⟩, hSpelled⟩ (ih hOk hRest ⟨_, hBefore, hSpelled⟩ hBreak ?_ ?_)
    · simp [hSpelled.type_eq, hType]
    · simp only [List.length_cons] at hFuel
      omega
    · rw [hBefore, hSpelled.allowsRegex]
      exact hAdmitted.2

/-- Where nothing is left out and no error comes up, every step gives a token that counts. -/
theorem significant_of_run {l : Lexer}
    (h : ∀ step ∈ l.run, step.1.type ∉ [.illegal, .comment] ∧ step.2.failure = none) :
    l.significant = (l.run.map (·.1), none) := by
  have hKept : ((l.run.map (·.1)).filter fun t => t.type ≠ .illegal && t.type ≠ .comment) =
      l.run.map (·.1) := by
    refine List.filter_eq_self.2 fun t ht => ?_
    obtain ⟨step, hMem, rfl⟩ := List.mem_map.1 ht
    simpa using (h step hMem).1
  have hFailure : l.run.getLast?.bind (·.2.failure) = none := by
    cases hLast : l.run.getLast? with
    | none => rfl
    | some step => exact (h step (List.mem_of_getLast? hLast)).2
  exact Prod.ext hKept hFailure

/-- The tokens of a text that is laid out for the lexer. -/
theorem significant_lexed {source : Source} {ws : List Spelling}
    (h : Lexed NotDot false source.content ws) (hAdmitted : Spelling.Admitted true ws) :
    ∃ tokens, (ofSource source).significant = (tokens, none) ∧
      List.Forall₂ Token.Spelled tokens ws := by
  have hSteps : List.Forall₂ _ ((ofSource source).run) ws :=
    steps_lexed h rfl rfl (fun t ht => by cases ht) rfl h.length_le hAdmitted
  obtain ⟨hClean, hSpelled⟩ := (List.forall₂_and_left _ _).1 hSteps
  exact ⟨_, significant_of_run hClean, List.forall₂_map_left_iff.2 hSpelled⟩

end Lexer

end ScriptOptimizer
