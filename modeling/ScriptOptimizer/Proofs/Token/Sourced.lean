import Mathlib.Data.List.Forall2
import ScriptOptimizer.Parse.Statement
import ScriptOptimizer.Proofs.Token.Spelling

/-!
What the tokens of a text are like. Apart from names with escapes, every token that the lexer gives
is one that reads again as itself, and a name that does not follow a dot is no reserved word.
-/

namespace ScriptOptimizer

namespace Token

/-- The literal of the token reads again as the same token. -/
def Sound [PatternCheck] (t : Token) : Prop :=
  match t.type with
  | .identifier => Word.Plain t.value
  | .keyword k => t.literal = Bytes.ofString k.text
  | .punctuator p => t.literal = Bytes.ofString p.text
  | .number => Numeral.Spells t.literal t.number
  | .string => StringLiteral.Spells t.literal t.value
  | .regex => RegexLiteral.Spells t.literal ⟨t.value, t.flags⟩
  | _ => True

/-- If the token is a name, it is no reserved word. -/
def Free (t : Token) : Prop := t.type = .identifier → Keyword.ofText? t.value = none

/-- The token is no name with a backslash. -/
def Unescaped (t : Token) : Prop := t.type = .identifier → 92 ∉ t.literal

/-- Is the token neither a regular expression nor a name with a backslash? -/
def Simple (t : Token) : Prop :=
  t.type ≠ .regex ∧ (t.type = .identifier → 92 ∉ t.literal)

end Token

theorem Keyword.text_of_ofText? {word : Bytes} {k : Keyword} (h : ofText? word = some k) :
    word = Bytes.ofString k.text := by
  have := List.find?_some h
  simpa [eq_comm] using this

namespace Lexeme

theorem bind_ok {α : Type} {r : Scan α} {make : Nat × α → Lexeme} {lexeme : Lexeme}
    (h : (do let p ← r; pure (make p) : Except ScanFault Lexeme) = .ok lexeme) :
    ∃ p, r = .ok p ∧ lexeme = make p := by
  cases r with
  | error f => cases h
  | ok p =>
    cases h
    exact ⟨p, rfl, rfl⟩

/-- The token is what the lexer makes of a lexeme at the front of a text. -/
structure Makes (lexeme : Lexeme) (text : Bytes) (t : Token) : Prop where
  type_eq : t.type = lexeme.type
  literal_eq : t.literal = text.take lexeme.width
  value_eq : t.value = lexeme.value
  number_eq : t.number = lexeme.number
  flags_eq : t.flags = lexeme.flags

variable {before : Option Token} {text : Bytes} {lexeme : Lexeme} {t : Token}

variable [PatternCheck]

/-- What a lexeme was scanned as, and what let it be. -/
inductive Comes (before : Option Token) : Bytes → Lexeme → Prop
  | finish : Comes before [] { type := .endOfInput, width := 0 }
  | quoted {b : UInt8} {rest value : Bytes} {width : Nat} : StringLiteral.IsQuote b →
      StringLiteral.scan (b :: rest) = .ok (width, value) →
      Comes before (b :: rest) { type := .string, width, value }
  | numeral {b : UInt8} {rest : Bytes} {width : Nat} {number : Binary64} :
      Bytes.isDigit b = true ∨ b = 46 ∧ Bytes.isDigit (rest.headD 0) = true →
      Numeral.scan (b :: rest) = .ok (width, number) →
      Comes before (b :: rest) { type := .number, width, value := (b :: rest).take width, number }
  | line {rest : Bytes} : Comes before (47 :: 47 :: rest) (lineComment (47 :: 47 :: rest))
  | block {rest : Bytes} {width : Nat} {lineBreak : Bool} :
      Comment.scanBlock 2 false rest = .ok (width, lineBreak) →
      Comes before (47 :: 42 :: rest) { type := .comment, width, lineBreak
                                        value := ((47 :: 42 :: rest).take (width - 2)).drop 2 }
  | regex {rest : Bytes} {width : Nat} {parts : RegexLiteral.Parts} :
      rest.headD 0 ≠ 47 ∧ rest.headD 0 ≠ 42 → regexAllowedAfter before = true →
      RegexLiteral.scan (47 :: rest) = .ok (width, parts) →
      Comes before (47 :: rest)
        { type := .regex, width, value := parts.body, flags := parts.flags }
  | word {b : UInt8} {rest : Bytes} {lexeme : Lexeme} : Word.Starts b rest →
      word before (b :: rest) = .ok lexeme → Comes before (b :: rest) lexeme
  | mark {b : UInt8} {rest : Bytes} {mark : Punctuator} :
      (b = 47 → regexAllowedAfter before = false) →
      Punctuator.atStart? (b :: rest) = some mark →
      Comes before (b :: rest) { type := .punctuator mark, width := mark.text.length }

theorem comes_of_scan (h : scan before text = .ok lexeme) : Comes before text lexeme := by
  cases text with
  | nil =>
    cases h
    exact .finish
  | cons b rest =>
    unfold scan at h
    dsimp only at h
    split at h
    · rename_i hQuote
      obtain ⟨⟨width, value⟩, hScan, rfl⟩ := bind_ok h
      exact .quoted (by simpa [StringLiteral.IsQuote] using hQuote) hScan
    split at h
    · rename_i hStart
      obtain ⟨⟨width, number⟩, hScan, rfl⟩ := bind_ok h
      exact .numeral (by simpa using hStart) hScan
    split at h
    · rename_i hSlash
      cases h
      cases rest with
      | nil => simp at hSlash
      | cons c rest =>
        obtain ⟨rfl, rfl⟩ : b = 47 ∧ c = 47 := by simpa using hSlash
        exact .line
    split at h
    · rename_i hSlash
      obtain ⟨⟨width, lineBreak⟩, hScan, rfl⟩ := bind_ok h
      cases rest with
      | nil => simp at hSlash
      | cons c rest =>
        obtain ⟨rfl, rfl⟩ : b = 47 ∧ c = 42 := by simpa using hSlash
        exact .block hScan
    split at h
    · rename_i hSlash
      obtain ⟨⟨width, parts⟩, hScan, rfl⟩ := bind_ok h
      simp only [Bool.and_eq_true, decide_eq_true_eq] at hSlash
      obtain ⟨rfl, hAllowed⟩ := hSlash
      exact .regex (by simp_all) hAllowed hScan
    rename_i hNoRegex
    split at h
    · exact .word (by unfold Word.Starts; grind) h
    split at h
    · exact .word (by unfold Word.Starts; grind) h
    · unfold punctuator at h
      split at h
      · rename_i mark hMark
        cases h
        exact .mark (fun hSlash => by simpa [hSlash] using hNoRegex) hMark
      · cases h

/-- A token that is no word is sound, if it is, and free. -/
theorem sound_of_ne (hType : t.type ≠ .identifier) (h : t.Sound) :
    t.Sound ∧ (NotDot before → t.Free) :=
  ⟨h, fun _ hName => absurd hName hType⟩

omit [PatternCheck] in
theorem wordType_cases (before : Option Token) (n : Bytes) :
    wordType before ⟨n, false⟩ = .identifier ∨
      ∃ k, Keyword.ofText? n = some k ∧ wordType before ⟨n, false⟩ = .keyword k := by
  have hWord : TokenType.ofWord n = .identifier ∨
      ∃ k, Keyword.ofText? n = some k ∧ TokenType.ofWord n = .keyword k := by
    unfold TokenType.ofWord
    cases Keyword.ofText? n with
    | none => exact .inl rfl
    | some k => exact .inr ⟨k, rfl, rfl⟩
  cases before with
  | none => exact hWord
  | some t =>
    simp only [wordType]
    split
    · exact .inl rfl
    · exact hWord

theorem word_sound {b : UInt8} {rest : Bytes} (hStart : Word.Starts b rest)
    (h : word before (b :: rest) = .ok lexeme) (hMakes : lexeme.Makes (b :: rest) t)
    (hPlain : t.Unescaped) : t.Sound ∧ (NotDot before → t.Free) := by
  obtain ⟨⟨width, name, escaped⟩, hScan, rfl⟩ := bind_ok h
  have hEscaped : escaped = false := by
    cases escaped with
    | false => rfl
    | true =>
      have hType : t.type = .identifier := by rw [hMakes.type_eq]; simp [wordType]
      have hSlash := hPlain hType
      rw [hMakes.literal_eq] at hSlash
      exact absurd (Word.scanFrom_plain hScan hSlash) (by simp)
  subst hEscaped
  have hSlash : b ≠ 92 := by
    rintro rfl
    rw [Word.scan, Word.scanFrom.eq_def] at hScan
    dsimp only at hScan
    split at hScan
    · split at hScan
      · split at hScan
        · cases Word.scanFrom_escaped hScan
        · cases hScan
      · cases hScan
      · cases hScan
    · contradiction
  obtain ⟨hName, hPlain⟩ := Word.plain_of_scan hStart hSlash hScan
  have hLiteral : t.literal = name := by rw [hMakes.literal_eq, hName]
  have hValue : t.value = name := hMakes.value_eq
  have hType : t.type = wordType before ⟨name, false⟩ := hMakes.type_eq
  constructor
  · rcases wordType_cases before name with hIdent | ⟨k, hKey, hWord⟩
    · rw [hIdent] at hType
      simpa [Token.Sound, hType, hValue] using hPlain
    · rw [hWord] at hType
      simp [Token.Sound, hType, hLiteral, Keyword.text_of_ofText? hKey]
  · intro hBefore hIdent
    rw [wordType_notDot hBefore, TokenType.ofWord] at hType
    rw [hValue]
    cases hKey : Keyword.ofText? name with
    | none => rfl
    | some k => rw [hKey, hIdent] at hType; cases hType

/-- A token without escapes that was scanned reads again as itself. -/
theorem scan_sound (h : scan before text = .ok lexeme) (hMakes : lexeme.Makes text t)
    (hPlain : t.Unescaped) : t.Sound ∧ (NotDot before → t.Free) := by
  have hType := hMakes.type_eq
  cases comes_of_scan h with
  | finish => simp [Token.Sound, Token.Free, hType]
  | quoted hQuote hScan =>
    refine sound_of_ne (by simp [hType]) ?_
    simpa [Token.Sound, hType, hMakes.literal_eq, hMakes.value_eq] using
      StringLiteral.spells_of_scan hQuote hScan
  | numeral hStart hScan =>
    refine sound_of_ne (by simp [hType]) ?_
    simpa [Token.Sound, hType, hMakes.literal_eq, hMakes.number_eq] using
      Numeral.spells_of_scan hStart hScan
  | line =>
    exact sound_of_ne (by simp [hType, lineComment]) (by simp [Token.Sound, hType, lineComment])
  | block => exact sound_of_ne (by simp [hType]) (by simp [Token.Sound, hType])
  | regex hStart _ hScan =>
    refine sound_of_ne (by simp [hType]) ?_
    simpa [Token.Sound, hType, hMakes.literal_eq, hMakes.value_eq, hMakes.flags_eq] using
      RegexLiteral.spells_of_scan hStart hScan
  | word hStart hWord => exact word_sound hStart hWord hMakes hPlain
  | mark _ hMark =>
    refine sound_of_ne (by simp [hType]) ?_
    have hText := List.prefix_iff_eq_take.1 (Punctuator.atStart?_isPrefix hMark)
    rw [Punctuator.length_ofString_text] at hText
    simp [Token.Sound, hType, hMakes.literal_eq, ← hText]

/-- Only a word is scanned as an identifier. -/
theorem word_of_scan {text : Bytes} (h : scan before text = .ok lexeme)
    (hType : lexeme.type = .identifier) :
    ∃ b rest, text = b :: rest ∧ Word.Starts b rest ∧ word before text = .ok lexeme := by
  cases comes_of_scan h with
  | word hStart hWord => exact ⟨_, _, rfl, hStart, hWord⟩
  | _ => cases hType

omit [PatternCheck] in
theorem word_type (h : word before text = .ok lexeme) :
    lexeme.type = .identifier ∨ ∃ k, lexeme.type = .keyword k := by
  obtain ⟨⟨width, name⟩, -, rfl⟩ := bind_ok h
  have hWord : TokenType.ofWord name.text = .identifier ∨
      ∃ k, TokenType.ofWord name.text = .keyword k := by
    unfold TokenType.ofWord
    cases Keyword.ofText? name.text with
    | none => exact .inl rfl
    | some k => exact .inr ⟨k, rfl⟩
  have hType : wordType before name = .identifier ∨ wordType before name = .ofWord name.text :=
    ite_eq_or_eq _ _ _
  show wordType before name = .identifier ∨ _
  rcases hType with hType | hType
  · exact .inl hType
  · rwa [hType]

/-- A regular expression is scanned only after a token that allows one. -/
theorem regexAllowed_of_scan (h : scan before text = .ok lexeme) (hRegex : lexeme.type = .regex) :
    regexAllowedAfter before = true := by
  cases comes_of_scan h with
  | regex _ hAllowed _ => exact hAllowed
  | word _ hWord =>
    rcases word_type hWord with hType | ⟨k, hType⟩ <;> rw [hType] at hRegex <;> cases hRegex
  | _ => cases hRegex

end Lexeme

variable [PatternCheck]

/-- Each token was scanned after the one before it. -/
def Scanned (before : Option Token) : List Token → Prop
  | [] => True
  | t :: rest =>
    (∃ text lexeme, Lexeme.scan before text = .ok lexeme ∧ lexeme.Makes text t) ∧
      Scanned (some t) rest

namespace Lexer

/-- Is the token one that the reader of programs sees? -/
def isKept (t : Token) : Bool := t.type ≠ .illegal && t.type ≠ .comment

theorem next_kept {l : Lexer} (h : isKept l.next.1 = true) :
    l.next.2.before = some l.next.1 ∧
      ∃ text lexeme, Lexeme.scan l.before text = .ok lexeme ∧ lexeme.Makes text l.next.1 := by
  revert h
  unfold next
  cases l.failure with
  | some d => exact fun h => by cases h
  | none =>
    dsimp only
    cases hScan : Lexeme.scan l.before (l.cursor.advance (Gap.scan l.cursor.rest).width).rest with
    | error f => exact fun h => by cases h
    | ok lexeme =>
      dsimp only
      split
      · rename_i hComment
        intro h
        simp [isKept, token, hComment] at h
      · intro _
        exact ⟨rfl, _, lexeme, hScan, rfl, rfl, rfl, rfl, rfl⟩

theorem next_dropped {l : Lexer} (h : isKept l.next.1 = false) (hLast : isLast l.next.1 = false) :
    l.next.2.before = l.before := by
  revert h hLast
  unfold next
  cases l.failure with
  | some d => exact fun _ h => by cases h
  | none =>
    dsimp only
    cases hScan : Lexeme.scan l.before (l.cursor.advance (Gap.scan l.cursor.rest).width).rest with
    | error f => exact fun _ h => by cases h
    | ok lexeme =>
      have hLegal := (Lexeme.scan_ok hScan).2.1
      dsimp only
      split
      · exact fun _ _ => rfl
      · rename_i hComment
        intro h
        simp [isKept, token, hComment, hLegal] at h

/-- The tokens that are kept from the steps of a lexer were scanned one after another. -/
theorem steps_scanned (fuel : Nat) (l : Lexer) :
    Scanned l.before (((l.steps fuel).map (·.1)).filter isKept) := by
  induction fuel generalizing l with
  | zero => trivial
  | succ n ih =>
    -- What follows the first token was scanned after any token that the lexer remembers.
    have hRest (before : Option Token)
        (hBefore : isLast l.next.1 = false → l.next.2.before = before) :
        Scanned before
          (((if isLast l.next.1 then [] else l.next.2.steps n).map (·.1)).filter isKept) := by
      cases hLast : isLast l.next.1 with
      | true => trivial
      | false =>
        rw [← hBefore hLast]
        exact ih _
    have hSteps : l.steps (n + 1) =
        l.next :: if isLast l.next.1 then [] else l.next.2.steps n := by
      rw [steps]
      dsimp only
      split <;> rfl
    rw [hSteps, List.map_cons]
    cases hKept : isKept l.next.1 with
    | true =>
      obtain ⟨hBefore, hScan⟩ := next_kept hKept
      rw [List.filter_cons_of_pos hKept]
      exact ⟨hScan, hRest _ fun _ => hBefore⟩
    | false =>
      rw [List.filter_cons_of_neg (by simp [hKept])]
      exact hRest _ (next_dropped hKept)

theorem significant_scanned (l : Lexer) : Scanned l.before l.significant.1 :=
  steps_scanned _ l

end Lexer

/-- The tokens read again as themselves, and are no reserved words where the token before is no
dot. -/
def Sourced (before : Option Token) : List Token → Prop
  | [] => True
  | t :: rest => t.Sound ∧ (NotDot before → t.Free) ∧ Sourced (some t) rest

/-- Tokens without escapes that were scanned one after another are sourced. -/
theorem Scanned.sourced {before : Option Token} {tokens : List Token} (h : Scanned before tokens)
    (hPlain : ∀ t ∈ tokens, t.Unescaped) : Sourced before tokens := by
  induction tokens generalizing before with
  | nil => trivial
  | cons t rest ih =>
    obtain ⟨⟨text, lexeme, hScan, hMakes⟩, hRest⟩ := h
    obtain ⟨hSound, hFree⟩ := Lexeme.scan_sound hScan hMakes (hPlain t List.mem_cons_self)
    exact ⟨hSound, hFree, ih hRest fun u hu => hPlain u (List.mem_cons_of_mem _ hu)⟩

/-- Of tokens that were scanned one after another every regular expression stands where one may
stand. -/
theorem Scanned.admitted {before : Option Token} {tokens : List Token} {ws : List Spelling}
    (h : Scanned before tokens) (hSpelled : List.Forall₂ Token.Spelled tokens ws) :
    Spelling.Admitted (Lexeme.regexAllowedAfter before) ws := by
  induction hSpelled generalizing before with
  | nil => trivial
  | @cons t w tokens ws hFirst _ ih =>
    obtain ⟨⟨text, lexeme, hScan, hMakes⟩, hRest⟩ := h
    refine ⟨fun hRegex => ?_, hFirst.allowsRegex ▸ ih hRest⟩
    exact Lexeme.regexAllowed_of_scan hScan (hMakes.type_eq ▸ hFirst.type_eq.trans hRegex)

end ScriptOptimizer
