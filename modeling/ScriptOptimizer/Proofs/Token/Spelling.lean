import ScriptOptimizer.Proofs.Token.Respell

/-!
Tokens apart from their places. A spelling is what a token looks like wherever it stands; this
module says in front of which texts, and after which tokens, the lexer reads a spelling as that
token.
-/

namespace ScriptOptimizer

/-- A token apart from its place. One that is `joined` stands on the line of the token before it. -/
structure Spelling where
  type : TokenType
  text : Bytes
  value : Bytes := []
  number : Binary64 := Binary64.zero
  flags : Bytes := []
  joined : Bool := false
deriving DecidableEq, Repr

/-- The token is spelled so. -/
structure Token.Spelled (t : Token) (w : Spelling) : Prop where
  type_eq : t.type = w.type
  literal_eq : t.literal = w.text
  value_eq : t.value = w.value
  number_eq : t.number = w.number
  flags_eq : t.flags = w.flags
  joined : w.joined = true → t.newlineBefore = false

/-- The tokens say the same. -/
structure Token.Same (t u : Token) : Prop where
  type_eq : u.type = t.type
  literal_eq : u.literal = t.literal
  value_eq : u.value = t.value
  number_eq : u.number = t.number
  flags_eq : u.flags = t.flags
  newlineBefore_eq : u.newlineBefore = t.newlineBefore

/-- The last token before, if there was one, is no dot. -/
def NotDot (before : Option Token) : Prop := ∀ t, before = some t → t.type ≠ .punctuator .dot

/-- The last token before ends an operand, so that a slash after it divides. -/
def AfterOperand (before : Option Token) : Prop :=
  NotDot before ∧ Lexeme.regexAllowedAfter before = false

/-- The last token before is a dot. -/
def AfterDot (before : Option Token) : Prop :=
  ∃ t, before = some t ∧ t.type = .punctuator .dot

namespace Spelling

/-- A reserved word. -/
def word (k : Keyword) : Spelling :=
  { type := .keyword k, text := Bytes.ofString k.text, value := Bytes.ofString k.text }

/-- An operator or punctuator. -/
def mark (p : Punctuator) : Spelling := { type := .punctuator p, text := Bytes.ofString p.text }

/-- A name that is no reserved word, or stands after a dot. -/
def name (n : Bytes) : Spelling := { type := .identifier, text := n, value := n }

/-- A number. -/
def numeral (raw : Bytes) (number : Binary64) : Spelling :=
  { type := .number, text := raw, value := raw, number }

/-- A string. -/
def quoted (raw value : Bytes) : Spelling := { type := .string, text := raw, value }

/-- A regular expression. -/
def regex (raw : Bytes) (parts : RegexLiteral.Parts) : Spelling :=
  { type := .regex, text := raw, value := parts.body, flags := parts.flags }

/-- The end of input. -/
def finish : Spelling := { type := .endOfInput, text := [] }

/-- The same token, bound to the line of the one before it. -/
def join (w : Spelling) : Spelling := { w with joined := true }

/-- What the lexer scans. -/
def lexeme (w : Spelling) : Lexeme :=
  { type := w.type, width := w.text.length, value := w.value, number := w.number, flags := w.flags }

/-- The token without a place. -/
def token (w : Spelling) : Token :=
  { type := w.type, literal := w.text, value := w.value, number := w.number, flags := w.flags,
    line := 0, column := 0, start := 0, stop := 0 }

/-- May a regular expression stand after the token? -/
def allowsRegex (w : Spelling) : Bool := Lexeme.regexAllowedAfter (some w.token)

/-- Every regular expression among the tokens stands where one may stand. The flag says so of the
first token. -/
def Admitted : Bool → List Spelling → Prop
  | _, [] => True
  | allowed, w :: ws => (w.type = .regex → allowed = true) ∧ Admitted w.allowsRegex ws

/-- The last token before is spelled so. -/
def After (w : Spelling) (before : Option Token) : Prop := ∃ t, before = some t ∧ t.Spelled w

variable [PatternCheck]

/-- After tokens of a sort, the spelling in front of a text is read as that token, a regular
expression only after a token that allows one. -/
structure Stands (w : Spelling) (sort : Option Token → Prop) (rest : Bytes) : Prop where
  scan {before : Option Token} : sort before →
    (w.type = .regex → Lexeme.regexAllowedAfter before = true) →
    Lexeme.scan before (w.text ++ rest) = .ok w.lexeme
  gap : Gap.scan (w.text ++ rest) = ⟨0, false⟩
  text_ne : w.text ≠ []

end Spelling

theorem Token.Spelled.of_join {t : Token} {w : Spelling} (h : t.Spelled w.join) : t.Spelled w :=
  ⟨h.type_eq, h.literal_eq, h.value_eq, h.number_eq, h.flags_eq, fun _ => h.joined rfl⟩

theorem Spelling.token_spelled (w : Spelling) : w.token.Spelled w :=
  ⟨rfl, rfl, rfl, rfl, rfl, fun _ => rfl⟩

/-- The type and the text of a token decide whether a regular expression may stand after it. -/
theorem Lexeme.regexAllowedAfter_congr {t u : Token} (hType : u.type = t.type)
    (hLiteral : u.literal = t.literal) :
    regexAllowedAfter (some u) = regexAllowedAfter (some t) := by
  simp only [regexAllowedAfter, Token.kind, hType, hLiteral]
  rfl

theorem Token.Spelled.allowsRegex {t : Token} {w : Spelling} (h : t.Spelled w) :
    Lexeme.regexAllowedAfter (some t) = w.allowsRegex :=
  Lexeme.regexAllowedAfter_congr h.type_eq h.literal_eq

/-! ### What no gap begins with -/

/-- A code point in ranges of one table is in none of a table whose ranges lie apart. -/
theorem Category.inRanges_apart {table : List (Nat × Nat)} (other : List (Nat × Nat)) {n : Nat}
    (hApart : (table.all fun r => other.all fun s => Nat.blt r.2 s.1 || Nat.blt s.2 r.1) = true)
    (h : inRanges table n = true) : inRanges other n = false := by
  obtain ⟨r, hr, hIn⟩ := List.any_eq_true.1 h
  refine List.any_eq_false.2 fun s hs hOther => ?_
  have hPair := List.all_eq_true.1 (List.all_eq_true.1 hApart r hr) s hs
  simp only [Bool.or_eq_true, Nat.blt_eq] at hPair
  simp only [Bool.and_eq_true, decide_eq_true_eq] at hIn hOther
  omega

/-- No letter is white space. -/
theorem not_blankRune_of_isLetter {rune : Nat} (h : Category.isLetter rune = true) :
    ¬BlankRune rune := by
  have hTable : Category.inRanges ((65, 90) :: (97, 122) :: Category.letters) rune = true := by
    simpa [Category.isLetter, Category.isAsciiLetter, Category.inRanges, or_assoc] using h
  have hSpace := Category.inRanges_apart ((32, 32) :: Category.spaces) (by decide +kernel)
    hTable
  have hOther := Category.inRanges_apart
    ([9, 10, 11, 12, 13, 32, 0xFEFF, 0x2028, 0x2029].map fun n => (n, n)) (by decide +kernel) hTable
  rintro (hMem | hSeparator)
  · refine absurd (List.any_eq_true.2 ⟨_, List.mem_map_of_mem hMem, ?_⟩)
      (Bool.eq_false_iff.1 hOther)
    simp
  · simp only [Category.isSpaceSeparator, Bool.or_eq_true, decide_eq_true_eq] at hSeparator
    simp only [Category.inRanges, List.any_cons, Bool.or_eq_false_iff] at hSpace
    rcases hSeparator with rfl | hSeparator
    · exact absurd hSpace.1 (by decide)
    · exact absurd hSeparator (Bool.eq_false_iff.1 hSpace.2)

namespace Gap

/-- No gap begins with an ASCII byte other than a blank and a line break. -/
theorem scan_ascii {b : UInt8} (rest : Bytes) (hAscii : b < 0x80)
    (h : b ∉ [32, 9, 11, 12, 10, 13]) : scan (b :: rest) = ⟨0, false⟩ := by
  simp only [List.mem_cons, List.not_mem_nil, or_false, not_or] at h
  have hSeparator : startsWithLineSeparator (b :: rest) = false := by
    unfold startsWithLineSeparator
    grind
  simp [scan, scanFrom, hSeparator, blankWidth, hAscii, h]

/-- No gap begins with a letter. -/
theorem scan_letter {b : UInt8} {rest : Bytes}
    (h : Category.isLetter (Utf8.decode (b :: rest)).1 = true) : scan (b :: rest) = ⟨0, false⟩ := by
  have hNot := not_blankRune_of_isLetter h
  have hBreak : (b = 10 || b = 13) = false := by
    refine Bool.eq_false_iff.2 fun hBreak => ?_
    obtain ⟨rune, hDecode, hRune⟩ := lineBreak_decode rest hBreak
    exact hNot (by simpa [Utf8.decode, hDecode] using hRune)
  have hSeparator : startsWithLineSeparator (b :: rest) = false := by
    refine Bool.eq_false_iff.2 fun hSeparator => ?_
    obtain ⟨rune, hDecode, hRune⟩ := separator_decode hSeparator
    exact hNot (by simpa [Utf8.decode, hDecode] using hRune)
  have hBlank : blankWidth (b :: rest) = 0 := by
    cases hWidth : blankWidth (b :: rest) with
    | zero => rfl
    | succ width =>
      obtain ⟨rune, hDecode, hRune⟩ := blankWidth_decode hWidth
      exact absurd (by simpa [Utf8.decode, hDecode] using hRune) hNot
  simp [scan, scanFrom, hBreak, hSeparator, hBlank]

end Gap

/-! ### Where the spellings stand -/

namespace Lexeme

section

variable [PatternCheck]

/-- A word is scanned where one begins, and no gap begins so. -/
theorem scan_starts {b : UInt8} {rest : Bytes} (h : Word.Starts b rest) (before : Option Token) :
    scan before (b :: rest) = word before (b :: rest) ∧ Gap.scan (b :: rest) = ⟨0, false⟩ := by
  rcases h with hByte | rfl | ⟨hHigh, hLetter⟩
  · have hByte' := hByte
    simp only [Word.isStartByte] at hByte'
    refine ⟨?_, Gap.scan_ascii _ (by grind) (by simp; grind)⟩
    unfold scan
    dsimp only
    rw [if_neg (by grind), if_neg (by simp only [Bytes.isDigit]; grind), if_neg (by grind),
      if_neg (by grind), if_neg (by grind), if_pos (by simp [hByte])]
  · refine ⟨?_, Gap.scan_ascii _ (by decide) (by decide)⟩
    unfold scan
    simp [Bytes.isDigit]
  · refine ⟨?_, Gap.scan_letter hLetter⟩
    have hNoStart : Word.isStartByte b = false := by
      simp only [Word.isStartByte]
      grind
    unfold scan
    dsimp only
    rw [if_neg (by grind), if_neg (by simp only [Bytes.isDigit]; grind), if_neg (by grind),
      if_neg (by grind), if_neg (by grind), if_neg (by grind), if_pos (by simp [hHigh, hLetter])]

/-- A numeral is scanned where one begins, and no gap begins so. -/
theorem scan_numeral {b : UInt8} {rest : Bytes}
    (h : Bytes.isDigit b = true ∨ b = 46 ∧ Bytes.isDigit (rest.headD 0) = true)
    (before : Option Token) :
    scan before (b :: rest) = numeral (b :: rest) ∧ Gap.scan (b :: rest) = ⟨0, false⟩ := by
  have hByte : b ∉ [32, 9, 11, 12, 10, 13, 34, 39] ∧ b < 0x80 := by
    rcases h with hDigit | ⟨rfl, -⟩
    · simp only [Bytes.isDigit, Bool.and_eq_true, decide_eq_true_eq] at hDigit
      constructor
      · simp only [List.mem_cons, List.not_mem_nil]
        rintro (rfl | rfl | rfl | rfl | rfl | rfl | rfl | rfl | h)
        all_goals grind
      · grind
    · decide
  have hBranch : (Bytes.isDigit b || (b = 46 && Bytes.isDigit (rest.headD 0))) = true := by
    rcases h with hDigit | ⟨rfl, hDigit⟩
    · simp [hDigit]
    · rw [hDigit]
      rfl
  refine ⟨?_, Gap.scan_ascii _ hByte.2 fun hBlank => hByte.1 (by grind)⟩
  rw [scan, if_neg (by grind), if_pos hBranch]

/-- What spells a word is scanned as one, and begins no gap. -/
theorem scan_word {raw rest : Bytes} {name : Word.Name} (h : Word.Spells raw name)
    (hRest : Stops true rest) (before : Option Token) :
    scan before (raw ++ rest) =
        .ok { type := wordType before name, width := raw.length, value := name.text } ∧
      Gap.scan (raw ++ rest) = ⟨0, false⟩ := by
  obtain ⟨b, tail, rfl, hStart⟩ := h.starts
  have hWord : word before (b :: tail ++ rest) =
      .ok { type := wordType before name, width := (b :: tail).length, value := name.text } := by
    rw [word, h.scan hRest]
    rfl
  obtain ⟨hScan, hGap⟩ := scan_starts (hStart rest) before
  rw [List.cons_append] at hWord ⊢
  exact ⟨hScan.trans hWord, hGap⟩

/-- A plain name is scanned as a word, and begins no gap. -/
theorem scan_plain {n rest : Bytes} (h : Word.Plain n) (hRest : Stops true rest)
    (before : Option Token) :
    scan before (n ++ rest) =
        .ok { type := wordType before ⟨n, false⟩, width := n.length, value := n } ∧
      Gap.scan (n ++ rest) = ⟨0, false⟩ :=
  scan_word h.spells hRest before

/-- What spells a regular expression is scanned as one where one may stand, and begins no gap. -/
theorem scan_regex {raw rest : Bytes} {parts : RegexLiteral.Parts}
    (h : RegexLiteral.Spells raw parts) (hRest : Stops true rest) {before : Option Token}
    (hBefore : regexAllowedAfter before = true) :
    scan before (raw ++ rest) =
        .ok { type := .regex, width := raw.length, value := parts.body, flags := parts.flags } ∧
      Gap.scan (raw ++ rest) = ⟨0, false⟩ := by
  obtain ⟨c, tail, rfl, hComment⟩ := h.starts
  refine ⟨?_, Gap.scan_ascii _ (by decide) (by decide)⟩
  have hScan := h.scan hRest
  simp only [List.cons_append] at hScan ⊢
  unfold scan
  simp [Bytes.isDigit, hComment, hBefore, regexLiteral, hScan, bind, Except.bind, pure, Except.pure]

end

theorem wordType_notDot {before : Option Token} (h : NotDot before) (n : Bytes) :
    wordType before ⟨n, false⟩ = TokenType.ofWord n := by
  cases before with
  | none => rfl
  | some t =>
    have := h t rfl
    simp [wordType, this]

theorem wordType_afterDot {before : Option Token} (h : AfterDot before) (n : Bytes) :
    wordType before ⟨n, false⟩ = .identifier := by
  obtain ⟨t, rfl, hType⟩ := h
  simp [wordType, hType]

end Lexeme

namespace Keyword

/-- The spelling of a reserved word is a plain name. -/
theorem plain (k : Keyword) : Word.Plain (Bytes.ofString k.text) := by
  cases k <;> exact Word.plain_of_bytes (by decide) (by decide)

theorem ofText?_text (k : Keyword) : ofText? (Bytes.ofString k.text) = some k :=
  of_all (by decide) k

end Keyword

namespace Punctuator

/-- The first byte of a punctuator: only the dot begins with a dot, and only the two that divide
begin with a slash. -/
theorem text_front (p : Punctuator) : ∃ b tail, Bytes.ofString p.text = b :: tail ∧
    b ∉ [32, 9, 11, 12, 10, 13, 34, 39, 92] ∧ Word.isPartByte b = false ∧ b < 0x80 ∧
    (b = 46 → p = .dot ∧ tail = []) ∧
    (b = 47 → p = .divide ∧ tail = [] ∨ p = .divideAssign ∧ tail = [61]) := by
  cases p <;> exact ⟨_, _, rfl, by decide⟩

end Punctuator

namespace Spelling

variable {rest : Bytes}

variable [PatternCheck]

theorem stands_word (k : Keyword) (hRest : Stops true rest) : (word k).Stands NotDot rest := by
  refine ⟨fun {before} hBefore _ => ?_, (Lexeme.scan_plain k.plain hRest none).2, k.plain.ne_nil⟩
  rw [word, (Lexeme.scan_plain k.plain hRest before).1, Lexeme.wordType_notDot hBefore,
    TokenType.ofWord, k.ofText?_text]
  rfl

theorem stands_name {n : Bytes} (h : Word.Plain n) (hFree : Keyword.ofText? n = none)
    (hRest : Stops true rest) : (name n).Stands NotDot rest := by
  refine ⟨fun {before} hBefore _ => ?_, (Lexeme.scan_plain h hRest none).2, h.ne_nil⟩
  rw [name, (Lexeme.scan_plain h hRest before).1, Lexeme.wordType_notDot hBefore,
    TokenType.ofWord, hFree]
  rfl

/-- After a dot any word is a name. -/
theorem stands_afterDot {n : Bytes} (h : Word.Plain n) (hRest : Stops true rest) :
    (name n).Stands AfterDot rest := by
  refine ⟨fun {before} hBefore _ => ?_, (Lexeme.scan_plain h hRest none).2, h.ne_nil⟩
  rw [name, (Lexeme.scan_plain h hRest before).1, Lexeme.wordType_afterDot hBefore]
  rfl

theorem stands_numeral {raw : Bytes} {value : Binary64} (h : Numeral.Spells raw value)
    (hRest : Stops false rest) (sort : Option Token → Prop) :
    (numeral raw value).Stands sort rest := by
  obtain ⟨b, tail, rfl, hStart⟩ := h.starts
  have hScan := h.scan hRest
  have hBegins := Numeral.begins_append hStart rest
  refine ⟨fun {before} _ _ => ?_, (Lexeme.scan_numeral hBegins none).2, List.cons_ne_nil _ _⟩
  rw [show (numeral (b :: tail) value).text ++ rest = b :: (tail ++ rest) from rfl,
    (Lexeme.scan_numeral hBegins before).1, Lexeme.numeral, ← List.cons_append, hScan]
  simp [bind, Except.bind, pure, Except.pure, lexeme, numeral]

theorem stands_quoted {raw value : Bytes} (h : StringLiteral.Spells raw value)
    (sort : Option Token → Prop) (rest : Bytes) : (quoted raw value).Stands sort rest := by
  obtain ⟨b, tail, rfl, hQuote⟩ := h.starts
  have hScan := h.scan rest
  have hByte : b ∉ [32, 9, 11, 12, 10, 13] ∧ b < 0x80 := by rcases hQuote with rfl | rfl <;> decide
  refine ⟨fun {before} _ _ => ?_, Gap.scan_ascii _ hByte.2 hByte.1, List.cons_ne_nil _ _⟩
  rw [show (quoted (b :: tail) value).text ++ rest = b :: (tail ++ rest) from rfl, Lexeme.scan]
  rw [if_pos (by rcases hQuote with rfl | rfl <;> rfl), Lexeme.stringLiteral, ← List.cons_append,
    hScan]
  rfl

theorem stands_regex {raw : Bytes} {parts : RegexLiteral.Parts} (h : RegexLiteral.Spells raw parts)
    (hRest : Stops true rest) (sort : Option Token → Prop) :
    (regex raw parts).Stands sort rest := by
  obtain ⟨c, tail, rfl, -⟩ := h.starts
  exact ⟨fun {before} _ hAllowed => (Lexeme.scan_regex h hRest (hAllowed rfl)).1,
    Gap.scan_ascii _ (by decide) (by decide), List.cons_ne_nil _ _⟩

/-- A text in front of which a punctuator stands: no byte of it extends the punctuator, makes a
number of a dot or a comment of a slash. -/
def MarkStops (p : Punctuator) (rest : Bytes) : Prop :=
  ∀ b, rest.head? = some b → b ∉ p.extensions ∧ (p = .dot → Bytes.isDigit b = false) ∧
    (p = .divide → b ∉ [47, 42])

theorem stands_mark (p : Punctuator) {sort : Option Token → Prop} (hRest : MarkStops p rest)
    (hSort : p = .divide ∨ p = .divideAssign →
      ∀ before, sort before → Lexeme.regexAllowedAfter before = false) :
    (mark p).Stands sort rest := by
  obtain ⟨b, tail, hText, hByte, hPart, hAscii, hDot, hSlash⟩ := p.text_front
  have hScan : Lexeme.punctuator (b :: (tail ++ rest)) = .ok (mark p).lexeme := by
    rw [← List.cons_append, ← hText, Lexeme.punctuator,
      p.atStart?_respell fun b hb => (hRest b hb).1]
    simp [lexeme, mark, Punctuator.length_ofString_text]
  simp only [List.mem_cons, List.not_mem_nil, or_false, not_or] at hByte
  simp only [Word.isPartByte, Bool.or_eq_false_iff] at hPart
  have hNumber : (Bytes.isDigit b || (b = 46 && Bytes.isDigit ((tail ++ rest).headD 0))) =
      false := by
    rw [hPart.2, Bool.false_or]
    by_cases hb : b = 46
    · obtain ⟨rfl, rfl⟩ := hDot hb
      cases rest with
      | nil => exact Bool.and_eq_false_imp.2 fun _ => rfl
      | cons c rest => simp [(hRest c rfl).2.1 rfl]
    · simp [hb]
  have hComment : b = 47 → (tail ++ rest).headD 0 ≠ 47 ∧ (tail ++ rest).headD 0 ≠ 42 := by
    intro hb
    rcases hSlash hb with ⟨rfl, rfl⟩ | ⟨rfl, rfl⟩
    · cases rest with
      | nil => decide
      | cons c rest =>
        have := (hRest c rfl).2.2 rfl
        simpa [not_or] using this
    · simp
  have hText' : (mark p).text ++ rest = b :: (tail ++ rest) := by simp [mark, hText]
  refine ⟨fun {before} hBefore _ => ?_, ?_, by simp [mark, hText]⟩
  · have hRegex : b = 47 → Lexeme.regexAllowedAfter before = false := fun hb =>
      hSort ((hSlash hb).imp And.left And.left) before hBefore
    rw [hText', Lexeme.scan, if_neg (by grind), if_neg (Bool.eq_false_iff.1 hNumber),
      if_neg (by grind), if_neg (by grind), if_neg (by grind), if_neg (by grind),
      if_neg (by grind), hScan]
  · rw [hText']
    exact Gap.scan_ascii _ hAscii (by simp; grind)

end Spelling

end ScriptOptimizer
