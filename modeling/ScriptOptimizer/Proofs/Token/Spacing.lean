import ScriptOptimizer.Proofs.Token.Lexed
import ScriptOptimizer.Proofs.Token.Sourced

/-!
Tokens set apart by one byte each. A line feed stands before a token that a line break separated
from the one before it, and a blank before every other one; comments and all other white space are
gone. Such a text is cut into the same tokens, because no scanner looks beyond the byte that follows
its token, and because of the tokens before only the last one matters.
-/

namespace ScriptOptimizer

/-- The text begins with a blank or a line feed. -/
def Spaced (text : Bytes) : Prop := ∃ b rest, text = b :: rest ∧ (b = 32 ∨ b = 10)

theorem Spaced.stops {text : Bytes} (h : Spaced text) (dot : Bool) : Stops dot text := by
  obtain ⟨b, rest, rfl, rfl | rfl⟩ := h
  · exact ⟨by decide, by decide, by decide, fun h => absurd h (by decide)⟩
  · exact ⟨by decide, by decide, by decide, fun h => absurd h (by decide)⟩

theorem Spaced.markStops {text : Bytes} (h : Spaced text) (p : Punctuator) :
    Spelling.MarkStops p text := by
  obtain ⟨b, rest, rfl, hByte⟩ := h
  intro c hc
  obtain rfl : b = c := by simpa using hc
  have hExtends := p.blank_not_mem_extensions
  rcases hByte with rfl | rfl
  · exact ⟨hExtends.1, fun _ => rfl, fun _ => by decide⟩
  · exact ⟨hExtends.2, fun _ => rfl, fun _ => by decide⟩

namespace Lexeme

/-- The tokens before say the same, or there is none on either side. -/
abbrev Beside (before before' : Option Token) : Prop := Option.Rel Token.Same before before'

variable {before before' : Option Token} {text rest : Bytes} {lexeme : Lexeme}

theorem regexAllowedAfter_beside (h : Beside before before') :
    regexAllowedAfter before' = regexAllowedAfter before := by
  cases h with
  | none => rfl
  | some hSame => exact regexAllowedAfter_congr hSame.type_eq hSame.literal_eq

theorem wordType_beside (h : Beside before before') (name : Word.Name) :
    wordType before' name = wordType before name := by
  cases h with
  | none => rfl
  | @some t u hSame => simp only [wordType, hSame.type_eq]

/-- A lexeme is scanned again in front of a blank or a line feed, and begins no gap. -/
theorem scan_spaced [PatternCheck] (hBefore : Beside before before')
    (h : scan before text = .ok lexeme) (hType : lexeme.type ∉ [.comment, .endOfInput])
    (hRest : Spaced rest) :
    scan before' (text.take lexeme.width ++ rest) = .ok lexeme ∧
      Gap.scan (text.take lexeme.width ++ rest) = ⟨0, false⟩ := by
  have hLength : (text.take lexeme.width).length = lexeme.width :=
    List.length_take_of_le (scan_ok h).1
  cases comes_of_scan h with
  | finish => exact absurd hType (by decide)
  | quoted hQuote hScan =>
    have hStands := Spelling.stands_quoted (StringLiteral.spells_of_scan hQuote hScan)
      (fun _ => True) rest
    refine ⟨(hStands.scan trivial (by simp [Spelling.quoted])).trans ?_, hStands.gap⟩
    simp only [Spelling.lexeme, Spelling.quoted, hLength]
  | numeral hStart hScan =>
    have hStands := Spelling.stands_numeral (Numeral.spells_of_scan hStart hScan)
      (hRest.stops false) fun _ => True
    refine ⟨(hStands.scan trivial (by simp [Spelling.numeral])).trans ?_, hStands.gap⟩
    simp only [Spelling.lexeme, Spelling.numeral, hLength]
  | line => exact absurd hType (by simp [lineComment])
  | block => exact absurd hType (by simp)
  | regex hStart hAllowed hScan =>
    have hAgain := scan_regex (RegexLiteral.spells_of_scan hStart hScan) (hRest.stops true)
      ((regexAllowedAfter_beside hBefore).trans hAllowed)
    rwa [hLength] at hAgain
  | word hStart hWord =>
    obtain ⟨⟨width, name⟩, hScan, rfl⟩ := bind_ok hWord
    have hAgain := scan_word (Word.spells_of_scan hStart hScan) (hRest.stops true) before'
    rwa [hLength, wordType_beside hBefore] at hAgain
  | @mark b tail mark hNoRegex hMark =>
    have hText := List.prefix_iff_eq_take.1 (Punctuator.atStart?_isPrefix hMark)
    rw [Punctuator.length_ofString_text] at hText
    have hDivides : mark = .divide ∨ mark = .divideAssign →
        ∀ c, c = before' → regexAllowedAfter c = false := by
      rintro hDivides _ rfl
      have hSlash : b = 47 := by
        have hPrefix := Punctuator.atStart?_isPrefix hMark
        rcases hDivides with rfl | rfl <;> exact (List.cons_prefix_cons.1 hPrefix).1.symm
      exact (regexAllowedAfter_beside hBefore).trans (hNoRegex hSlash)
    have hStands := Spelling.stands_mark mark (hRest.markStops mark) hDivides
    rw [← hText]
    refine ⟨(hStands.scan rfl (by simp [Spelling.mark])).trans ?_, hStands.gap⟩
    simp [Spelling.lexeme, Spelling.mark, Punctuator.length_ofString_text]

end Lexeme

/-- The byte that stands before a token. -/
def Token.separator (t : Token) : UInt8 := if t.newlineBefore then 10 else 32

/-- Tokens in a row, each behind its separator. -/
def spread (tokens : List Token) : Bytes := tokens.flatMap fun t => t.separator :: t.literal

theorem spread_cons (t : Token) (rest : List Token) :
    spread (t :: rest) = t.separator :: (t.literal ++ spread rest) := rfl

theorem length_le_spread (tokens : List Token) : tokens.length ≤ (spread tokens).length := by
  induction tokens with
  | nil => exact Nat.zero_le _
  | cons t rest ih =>
    simp only [spread_cons, List.length_cons, List.length_append]
    omega

theorem spaced_spread {tokens : List Token} (h : tokens ≠ []) : Spaced (spread tokens) := by
  cases tokens with
  | nil => exact absurd rfl h
  | cons t rest =>
    refine ⟨t.separator, t.literal ++ spread rest, rfl, ?_⟩
    unfold Token.separator
    split <;> simp

theorem Token.isGap_separator (t : Token) : IsGap [t.separator] := by
  unfold separator
  split <;> simp [IsGap]

theorem Token.newline_mem_separator (t : Token) :
    decide (10 ∈ [t.separator]) = t.newlineBefore := by
  unfold separator
  cases t.newlineBefore <;> decide

namespace Lexer

variable {m : Lexer} {t : Token} {text more : Bytes} {before : Option Token} {lexeme : Lexeme}

variable [PatternCheck]

/-- What was scanned as a token is the next one behind its separator. -/
theorem next_spread (hOk : m.failure = none) (hBreak : m.lineBreak = false)
    (hRest : m.cursor.rest = t.separator :: (t.literal ++ more))
    (hScan : Lexeme.scan before text = .ok lexeme) (hMakes : lexeme.Makes text t)
    (hBefore : Lexeme.Beside before m.before) (hType : t.type ∉ [.comment, .endOfInput])
    (hMore : Spaced more) :
    t.Same m.next.1 ∧ m.next.2.failure = none ∧ m.next.2.lineBreak = false ∧
      m.next.2.cursor.rest = more ∧ m.next.2.before = some m.next.1 := by
  rw [hMakes.type_eq] at hType
  obtain ⟨hAgain, hNoGap⟩ := Lexeme.scan_spaced hBefore hScan hType hMore
  rw [← hMakes.literal_eq] at hAgain hNoGap
  have hGap : Gap.scan (t.separator :: (t.literal ++ more)) = ⟨1, t.newlineBefore⟩ := by
    have := Gap.scan_append t.isGap_separator hNoGap
    rwa [t.newline_mem_separator] at this
  have hText : (m.cursor.advance 1).rest = t.literal ++ more := by
    rw [Cursor.advance_rest, hRest]
    rfl
  have hWidth : t.literal.length = lexeme.width := by
    rw [hMakes.literal_eq, List.length_take_of_le (Lexeme.scan_ok hScan).1]
  have hTake : (t.literal ++ more).take lexeme.width = t.literal := List.take_left' hWidth
  unfold next
  simp only [hOk, hRest, hGap, hText, hAgain, hBreak]
  rw [if_neg fun hComment => hType (by simp [hComment])]
  refine ⟨⟨hMakes.type_eq.symm, ?_, hMakes.value_eq.symm, hMakes.number_eq.symm,
    hMakes.flags_eq.symm, Bool.false_or _⟩, rfl, rfl, ?_, rfl⟩
  · simp only [token, hText, hTake]
  · rw [Cursor.advance_rest, hText]
    exact List.drop_left' hWidth

/-- Behind the separator of the last token the text ends. -/
theorem next_finish (hOk : m.failure = none) (hBreak : m.lineBreak = false)
    (hRest : m.cursor.rest = [t.separator])
    (hMakes : Lexeme.Makes { type := .endOfInput, width := 0 } [] t) :
    t.Same m.next.1 ∧ m.next.2.failure = none := by
  have hGap : Gap.scan [t.separator] = ⟨1, t.newlineBefore⟩ := by
    have := Gap.scan_append t.isGap_separator (show Gap.scan [] = ⟨0, false⟩ from rfl)
    rwa [t.newline_mem_separator] at this
  have hText : (m.cursor.advance 1).rest = [] := by
    rw [Cursor.advance_rest, hRest]
    rfl
  unfold next
  simp only [hOk, hRest, hGap, hText, Lexeme.scan, hBreak]
  refine ⟨⟨hMakes.type_eq.symm, ?_, hMakes.value_eq.symm, hMakes.number_eq.symm,
    hMakes.flags_eq.symm, Bool.false_or _⟩, rfl⟩
  simp [token, hMakes.literal_eq]

/-- Tokens that were scanned one after another are read again behind their separators. -/
theorem steps_spread {front : List Token} {last : Token} (h : Scanned before (front ++ [last]))
    (hLast : last.type = .endOfInput)
    (hFront : ∀ u ∈ front, u.type ∉ [.illegal, .comment, .endOfInput]) {fuel : Nat}
    (hOk : m.failure = none) (hBreak : m.lineBreak = false)
    (hRest : m.cursor.rest = spread (front ++ [last])) (hBefore : Lexeme.Beside before m.before)
    (hFuel : front.length < fuel) :
    List.Forall₂ (fun step t => (step.1.type ∉ [.illegal, .comment] ∧ step.2.failure = none) ∧
      t.Same step.1) (m.steps fuel) (front ++ [last]) := by
  obtain ⟨n, rfl⟩ : ∃ n, fuel = n + 1 := ⟨fuel - 1, by omega⟩
  rw [steps]
  dsimp only
  induction front generalizing m before n with
  | nil =>
    obtain ⟨⟨text, lexeme, hScan, hMakes⟩, -⟩ := h
    obtain ⟨-, -, hNil, -⟩ := Lexeme.scan_ok hScan
    obtain rfl := hNil (hMakes.type_eq ▸ hLast)
    cases hScan
    have hNext := next_finish hOk hBreak
      (by rw [hRest, List.nil_append, spread_cons, hMakes.literal_eq]; rfl) hMakes
    have hEnds : isLast m.next.1 = true := by simp [isLast, hNext.1.type_eq, hLast]
    rw [if_pos hEnds]
    exact .cons ⟨⟨by simp [hNext.1.type_eq, hLast], hNext.2⟩, hNext.1⟩ .nil
  | cons t front ih =>
    obtain ⟨⟨text, lexeme, hScan, hMakes⟩, hMore⟩ := h
    obtain ⟨hType, hFront⟩ := List.forall_mem_cons.mp hFront
    simp only [List.mem_cons, List.not_mem_nil, or_false, not_or] at hType
    obtain ⟨hSame, hOk, hBreak, hRest, hAfter⟩ := next_spread hOk hBreak hRest hScan hMakes hBefore
      (by simp [hType]) (spaced_spread (by simp))
    have hGoes : isLast m.next.1 = false := by simp [isLast, hSame.type_eq, hType]
    obtain ⟨k, rfl⟩ : ∃ k, n = k + 1 := ⟨n - 1, by simp at hFuel; omega⟩
    rw [if_neg (by simp [hGoes]), steps]
    refine .cons ⟨⟨by simp [hSame.type_eq, hType], hOk⟩, hSame⟩ ?_
    exact ih hMore hFront hOk hBreak hRest (hAfter ▸ .some hSame) k (by simpa using hFuel)

end Lexer

end ScriptOptimizer
