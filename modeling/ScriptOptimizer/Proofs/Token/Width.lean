import ScriptOptimizer.Token.Lexer

/-!
How far the scanners read. Every scanner answers with the width of a token that lies inside the text
it was given, and a fault that it reports lies inside that text too. A scanned token takes at least
one byte, unless the text is empty.
-/

namespace ScriptOptimizer

namespace Utf8

/-- A well-formed sequence has at least one byte and lies inside the text. -/
theorem decode?_width {text : Bytes} {rune width : Nat} (h : decode? text = some (rune, width)) :
    0 < width ∧ width ≤ text.length := by
  unfold decode? at h
  split at h
  · simp at h
  · grind

theorem decode_width (b : UInt8) (rest : Bytes) :
    0 < (decode (b :: rest)).2 ∧ (decode (b :: rest)).2 ≤ rest.length + 1 := by
  unfold decode
  cases h : decode? (b :: rest) with
  | none => simp
  | some pair =>
    obtain ⟨rune, width⟩ := pair
    simpa using decode?_width h

end Utf8

/-- The answer of a scanner after `width` bytes of a token lies inside the `left` bytes that follow
them: the token ends there, or the fault does. -/
def Scan.Within {α : Type} (width left : Nat) : Scan α → Prop
  | .ok (stop, _) => width ≤ stop ∧ stop ≤ width + left
  | .error f => f.start < width + left ∧ f.width ≤ width + left

namespace Scan.Within

variable {α : Type} {width left : Nat}

theorem fail {fault : LexicalFault} {stop : Nat} (hLeft : 0 < width + left)
    (hStop : stop ≤ width + left) : Scan.Within width left (Scan.fail (α := α) fault stop) :=
  ⟨hLeft, hStop⟩

/-- An answer after more bytes of the same text. -/
theorem mono {width' left' : Nat} {r : Scan α} (h : Scan.Within width' left' r)
    (hWidth : width ≤ width') (hLeft : width' + left' ≤ width + left) :
    Scan.Within width left r := by
  cases r with
  | ok pair => exact ⟨Nat.le_trans hWidth h.1, Nat.le_trans h.2 hLeft⟩
  | error f => exact ⟨Nat.lt_of_lt_of_le h.1 hLeft, Nat.le_trans h.2 hLeft⟩

end Scan.Within

/-! ### Comments -/

theorem Comment.lineWidth_le (text : Bytes) : Comment.lineWidth text ≤ text.length := by
  fun_induction Comment.lineWidth text <;> simp_all

theorem Comment.scanBlock_within (width : Nat) (lineBreak : Bool) (text : Bytes) (h : 0 < width) :
    Scan.Within width text.length (Comment.scanBlock width lineBreak text) := by
  fun_induction Comment.scanBlock width lineBreak text with
  | case1 width lineBreak => exact .fail (by omega) (by omega)
  | case2 width lineBreak rest => exact ⟨by omega, by simp⟩
  | case3 width lineBreak b rest _ ih => exact (ih (by omega)).mono (by omega) (by simp; omega)

/-! ### Words -/

theorem Word.scanFrom_within (width skip : Nat) (name : Bytes) (escaped : Bool) (text : Bytes) :
    Scan.Within width text.length (Word.scanFrom width skip name escaped text) := by
  fun_induction Word.scanFrom width skip name escaped text with
  | case1 => exact ⟨Nat.le_refl _, by omega⟩
  | case2 width name escaped b rest k ih => exact ih.mono (by omega) (by simp; omega)
  | case3 width name escaped h₁ h₂ h₃ h₄ rest rune _ ih =>
    exact ih.mono (by omega) (by simp; omega)
  | case4 => exact ⟨by simp, by simp⟩
  | case5 => exact ⟨by simp, by simp⟩
  | case6 => exact ⟨by simp, by simp⟩
  | case7 width name escaped b rest _ _ _ ih => exact ih.mono (by omega) (by simp; omega)
  | case8 => exact ⟨Nat.le_refl _, by omega⟩
  | case9 width name escaped b rest _ _ rune size _ _ ih =>
    exact ih.mono (by omega) (by simp; omega)
  | case10 => exact ⟨Nat.le_refl _, by omega⟩

theorem Word.scanFrom_ge {width skip : Nat} {name : Bytes} {escaped : Bool} {text : Bytes}
    {stop : Nat} {word : Word.Name}
    (h : Word.scanFrom width skip name escaped text = .ok (stop, word)) : width ≤ stop := by
  have within := Word.scanFrom_within width skip name escaped text
  rw [h] at within
  exact within.1

/-- Does a word start at the front of a text, as the lexer decides it? -/
def Word.Starts (b : UInt8) (rest : Bytes) : Prop :=
  Word.isStartByte b = true ∨ b = 92 ∨
    (0x80 ≤ b ∧ Category.isLetter (Utf8.decode (b :: rest)).1 = true)

/-- A word takes at least the byte it starts with. -/
theorem Word.scan_pos {b : UInt8} {rest : Bytes} {width : Nat} {name : Word.Name}
    (hStart : Word.Starts b rest) (h : Word.scan (b :: rest) = .ok (width, name)) : 0 < width := by
  have hPart : Word.isPartByte b = true ∨ b = 92 ∨
      (0x80 ≤ b ∧ Word.isPartRune (Utf8.decode (b :: rest)).1 = true) := by
    rcases hStart with hByte | hSlash | ⟨hHigh, hLetter⟩
    · simp [Word.isPartByte, hByte]
    · exact .inr (.inl hSlash)
    · simp [Word.isPartRune, hHigh, hLetter]
  rw [Word.scan, Word.scanFrom.eq_def] at h
  dsimp only at h
  split at h
  · split at h
    · split at h
      · have := Word.scanFrom_ge h
        omega
      · cases h
    · cases h
    · cases h
  · rename_i hSlash
    split at h
    · rename_i hLow
      have hByte : Word.isPartByte b = true := by
        rcases hPart with hByte | hEq | ⟨hHigh, -⟩
        · exact hByte
        · exact absurd hEq hSlash
        · exact absurd hLow (UInt8.not_lt.2 hHigh)
      rw [if_pos hByte] at h
      exact Word.scanFrom_ge h
    · rename_i hHigh
      have hRune : Word.isPartRune (Utf8.decode (b :: rest)).1 = true := by
        rcases hPart with hByte | hEq | ⟨-, hRune⟩
        · simp only [Word.isPartByte, Word.isStartByte, Bytes.isDigit] at hByte
          exact absurd (by grind) hHigh
        · exact absurd hEq hSlash
        · exact hRune
      rw [if_pos hRune] at h
      exact Word.scanFrom_ge h

/-! ### String literals -/

namespace StringLiteral

theorem octalWidth_le (text : Bytes) : octalWidth text ≤ text.length := by
  unfold octalWidth
  cases text with
  | nil => simp
  | cons d rest =>
    have := (List.takeWhile_sublist Bytes.isOctalDigit (l := d :: rest)).length_le
    simp only
    omega

/-- What a turn of the body reads lies inside the text, and a turn that goes on reads something. -/
def Turn.Within (left : Nat) : Turn → Prop
  | .close => 0 < left
  | .fault _ read => read ≤ left
  | .take count _ => 0 < count ∧ count ≤ left

theorem escape_within (text : Bytes) : (escape text).Within (text.length + 1) := by
  fun_cases escape text with
  | case2 c more hSeparator =>
    have : 2 ≤ more.length := by
      unfold startsWithLineSeparator at hSeparator
      split at hSeparator <;> simp_all
    simp only [Turn.Within, List.length_cons]
    omega
  | case4 more =>
    simp only [Turn.Within, List.length_cons]
    cases more with
    | nil => simp
    | cons d rest => split <;> simp
  | case9 more unit _ _ rune hPair =>
    obtain ⟨low, hLow, -⟩ := Option.bind_eq_some_iff.1 hPair
    have : 10 ≤ more.length := by
      unfold escape.lowHalf? at hLow
      split at hLow
      · simp_all
        omega
      · cases hLow
    simp only [Turn.Within, List.length_cons]
    omega
  | case12 c more =>
    have := octalWidth_le (c :: more)
    simp only [Turn.Within, List.length_cons] at *
    omega
  | case14 c more _ _ _ _ _ _ _ rune size hDecode =>
    have := Utf8.decode_width c more
    simp only [Turn.Within, List.length_cons, hDecode] at *
    omega
  | _ => simp only [Turn.Within, List.length_cons]; omega

theorem turn_within (quote : UInt8) (text : Bytes) : (turn quote text).Within text.length := by
  fun_cases turn quote text with
  | case1 => exact Nat.le_refl _
  | case2 => simp [Turn.Within]
  | case3 => simp [Turn.Within]
  | case4 rest => exact escape_within rest
  | case5 => simp [Turn.Within]

theorem scanFrom_within (quote : UInt8) (width skip : Nat) (value text : Bytes) (h : 0 < width) :
    Scan.Within width text.length (scanFrom quote width skip value text) := by
  fun_induction scanFrom quote width skip value text with
  | case1 => exact .fail (by omega) (by omega)
  | case2 width value b rest k ih => exact (ih (by omega)).mono (by omega) (by simp; omega)
  | case3 => exact ⟨by omega, by simp⟩
  | case4 width value b rest fault read hTurn => 
    have := turn_within quote (b :: rest)
    rw [hTurn] at this
    exact .fail (by omega) (Nat.add_le_add_left this _)
  | case5 width value b rest count piece _ ih =>
    exact (ih (by omega)).mono (by omega) (by simp; omega)

end StringLiteral

/-! ### Numerals -/

namespace Numeral

theorem fractionWidth_le (text : Bytes) : fractionWidth text ≤ text.length := by
  unfold fractionWidth
  split
  · rename_i rest
    have := (List.takeWhile_sublist Bytes.isDigit (l := rest)).length_le
    simp only [List.length_cons]
    omega
  · exact Nat.zero_le _

/-- The width of an exponent, and of what stands in its place, lies inside the text. -/
theorem exponentWidth_le (text : Bytes) :
    (∀ n, exponentWidth text = .ok n → n ≤ text.length) ∧
      ∀ n, exponentWidth text = .error n → n ≤ text.length := by
  cases text with
  | nil => simp [exponentWidth]
  | cons e rest =>
    have takeWhile_le (list : Bytes) : (list.takeWhile Bytes.isDigit).length ≤ list.length :=
      (List.takeWhile_sublist Bytes.isDigit).length_le
    have := takeWhile_le rest
    cases rest with
    | nil => simp [exponentWidth]; grind
    | cons s more =>
      have := takeWhile_le more
      simp only [exponentWidth, List.length_cons]
      constructor <;> grind

theorem scanHex_within (rest : Bytes) :
    Scan.Within 2 rest.length (scanHex rest) := by
  have := (List.takeWhile_sublist Bytes.isHexDigit (l := rest)).length_le
  unfold scanHex
  dsimp only
  split
  · exact .fail (by omega) (by omega)
  split
  · exact .fail (by omega) (by omega)
  · exact ⟨by omega, by omega⟩

theorem scanDecimal_within (whole : Nat) (text : Bytes) (h : whole ≤ text.length)
    (hText : 0 < text.length) : Scan.Within 0 text.length (scanDecimal whole text) := by
  have hFraction := fractionWidth_le (text.drop whole)
  have hExponent := exponentWidth_le (text.drop (whole + fractionWidth (text.drop whole)))
  rw [List.length_drop] at hFraction hExponent
  unfold scanDecimal
  dsimp only
  cases hWidth : exponentWidth (text.drop (whole + fractionWidth (text.drop whole))) with
  | error width =>
    have := hExponent.2 width hWidth
    exact .fail (by omega) (by omega)
  | ok width =>
    have := hExponent.1 width hWidth
    dsimp only
    split
    · split
      · exact .fail (by omega) (by omega)
      · exact ⟨by omega, by omega⟩
    · exact ⟨by omega, by omega⟩

theorem scanDecimal_ge {whole : Nat} {text : Bytes} {width : Nat} {value : Binary64}
    (h : scanDecimal whole text = .ok (width, value)) :
    whole + fractionWidth (text.drop whole) ≤ width := by
  unfold scanDecimal at h
  dsimp only at h
  split at h
  · cases h
  · split at h
    · split at h
      · cases h
      · simp only [Except.ok.injEq, Prod.mk.injEq] at h
        omega
    · simp only [Except.ok.injEq, Prod.mk.injEq] at h
      omega

/-- A numeral takes at least the digit or the point it starts with. -/
theorem scan_pos {b : UInt8} {rest : Bytes} {width : Nat} {value : Binary64}
    (hStart : Bytes.isDigit b = true ∨ b = 46) (h : scan (b :: rest) = .ok (width, value)) :
    0 < width := by
  unfold scan at h
  split at h
  · have within := scanHex_within ‹_›
    rw [h] at within
    exact Nat.lt_of_lt_of_le (by omega) within.1
  · have within := scanHex_within ‹_›
    rw [h] at within
    exact Nat.lt_of_lt_of_le (by omega) within.1
  · dsimp only at h
    rcases hStart with hDigit | rfl
    · have hPos : 0 < ((b :: rest).takeWhile Bytes.isDigit).length := by simp [hDigit]
      split at h
      · split at h
        · cases h
        · simp only [Except.ok.injEq, Prod.mk.injEq] at h
          omega
      · have := scanDecimal_ge h
        omega
    · have hWhole : (46 :: rest).takeWhile Bytes.isDigit = [] :=
        List.takeWhile_cons_of_neg (by decide)
      rw [hWhole, if_neg (by decide)] at h
      have hPoint : 0 < fractionWidth (46 :: rest) := by
        rw [fractionWidth]
        omega
      exact Nat.lt_of_lt_of_le (Nat.lt_of_lt_of_le hPoint (Nat.le_add_left _ _)) (scanDecimal_ge h)

theorem scan_within (text : Bytes) (h : 0 < text.length) :
    Scan.Within 0 text.length (scan text) := by
  unfold scan
  split
  · rename_i rest
    exact (scanHex_within rest).mono (by omega) (by simp; omega)
  · rename_i rest
    exact (scanHex_within rest).mono (by omega) (by simp; omega)
  · have := (List.takeWhile_sublist Bytes.isDigit (l := text)).length_le
    dsimp only
    split
    · split
      · exact .fail (by omega) (by omega)
      · exact ⟨by omega, by omega⟩
    · exact scanDecimal_within _ _ this h

end Numeral

/-! ### Regular expressions -/

namespace RegexLiteral

/-- A body ends at its closing slash, which lies inside the text, as a fault does. -/
def BodyWithin (width left : Nat) : Scan Unit → Prop
  | .ok (closing, _) => width ≤ closing ∧ closing < width + left
  | .error f => f.start < width + left ∧ f.width ≤ width + left

theorem BodyWithin.next {width left : Nat} {r : Scan Unit} (h : BodyWithin (width + 1) left r) :
    BodyWithin width (left + 1) r := by
  cases r with
  | ok pair => exact ⟨Nat.le_of_succ_le h.1, Nat.lt_of_lt_of_le h.2 (by omega)⟩
  | error f => exact ⟨Nat.lt_of_lt_of_le h.1 (by omega), Nat.le_trans h.2 (by omega)⟩

theorem scanBody_within (width depth : Nat) (inClass escaped : Bool) (text : Bytes)
    (h : 0 < width) :
    BodyWithin width text.length (scanBody width depth inClass escaped text) := by
  fun_induction scanBody width depth inClass escaped text with
  | case1 | case2 | case4 | case10 | case13 =>
    exact ⟨Nat.add_pos_left h _, Nat.le_add_right _ _⟩
  | case12 => exact ⟨Nat.le_refl _, by simp⟩
  | case3 | case5 | case6 | case7 | case8 | case9 | case11 | case14 =>
    rename_i ih
    exact (ih (by omega)).next

theorem scan_within [PatternCheck] (text : Bytes) (h : 0 < text.length) :
    Scan.Within 1 (text.length - 1) (scan text) := by
  have hBody := scanBody_within 1 0 false false (text.drop 1) (by omega)
  rw [List.length_drop] at hBody
  unfold scan
  cases hScan : scanBody 1 0 false false (text.drop 1) with
  | error f =>
    rw [hScan] at hBody
    exact hBody
  | ok pair =>
    obtain ⟨closing, _⟩ := pair
    rw [hScan] at hBody
    obtain ⟨hLow, hHigh⟩ := hBody
    have hFlags := (List.takeWhile_sublist Word.isPartByte (l := text.drop (closing + 1))).length_le
    rw [List.length_drop] at hFlags
    dsimp only
    split
    · exact .fail (by omega) (by omega)
    split
    · exact ⟨by omega, by omega⟩
    split
    · exact .fail (by omega) (by omega)
    · exact ⟨by omega, by omega⟩

end RegexLiteral

/-! ### Lexemes -/

namespace Keyword

theorem mem_all (k : Keyword) : k ∈ all := by
  cases k <;> decide

/-- What holds of each reserved word in the list holds of every reserved word. -/
@[elab_as_elim]
theorem of_all {P : Keyword → Prop} (h : ∀ k ∈ all, P k) (k : Keyword) : P k :=
  h k k.mem_all

end Keyword

namespace Punctuator

theorem mem_all (p : Punctuator) : p ∈ all := by
  cases p <;> decide

/-- What holds of each punctuator in the list holds of every punctuator. -/
@[elab_as_elim]
theorem of_all {P : Punctuator → Prop} (h : ∀ p ∈ all, P p) (p : Punctuator) : P p :=
  h p p.mem_all

/-- The spelling of a punctuator is plain ASCII, so its width is its length. -/
theorem length_ofString_text (p : Punctuator) : (Bytes.ofString p.text).length = p.text.length :=
  of_all (by decide) p

theorem text_length_pos (p : Punctuator) : 0 < p.text.length :=
  of_all (by decide) p

theorem atStart?_isPrefix {text : Bytes} {p : Punctuator} (h : atStart? text = some p) :
    Bytes.ofString p.text <+: text := by
  have := List.find?_some h
  simpa using this

end Punctuator

namespace Lexeme

/-- The answer for the token at the front of a text that is not empty: a token of at least one byte
that lies inside the text, or a fault that does. -/
def Fits (left : Nat) : Except ScanFault Lexeme → Prop
  | .ok lexeme =>
    0 < lexeme.width ∧ lexeme.width ≤ left ∧ lexeme.type ≠ .endOfInput ∧ lexeme.type ≠ .illegal
  | .error f => f.start < left ∧ f.width ≤ left

/-- A lexeme made of the answer of a scanner. -/
theorem Fits.of_within {α : Type} {width left : Nat} {r : Scan α} {make : Nat × α → Lexeme}
    (h : r.Within width left)
    (hMake : ∀ stop a, r = .ok (stop, a) → width ≤ stop →
      (make (stop, a)).width = stop ∧ 0 < stop ∧
        (make (stop, a)).type ≠ .endOfInput ∧ (make (stop, a)).type ≠ .illegal) :
    Fits (width + left) (r >>= fun pair => pure (make pair)) := by
  cases r with
  | error f => exact h
  | ok pair =>
    obtain ⟨stop, a⟩ := pair
    obtain ⟨hWidth, hPos, hType⟩ := hMake stop a rfl h.1
    exact ⟨by rw [hWidth]; exact hPos, by rw [hWidth]; exact h.2, hType⟩

theorem wordType_ne (before : Option Token) (name : Word.Name) :
    wordType before name ≠ .endOfInput ∧ wordType before name ≠ .illegal := by
  have hWord : TokenType.ofWord name.text ≠ .endOfInput ∧
      TokenType.ofWord name.text ≠ .illegal := by
    unfold TokenType.ofWord
    cases Keyword.ofText? name.text <;> simp
  unfold wordType
  dsimp only
  generalize (_ || name.escaped) = plain
  cases plain with
  | true => simp
  | false => exact hWord

theorem word_fits {before : Option Token} {b : UInt8} {rest : Bytes} (h : Word.Starts b rest) :
    Fits (rest.length + 1) (word before (b :: rest)) := by
  have within := Word.scanFrom_within 0 0 [] false (b :: rest)
  rw [← Nat.zero_add (rest.length + 1)]
  exact .of_within within fun stop name hScan _ =>
    ⟨rfl, Word.scan_pos h hScan, wordType_ne _ _⟩

theorem stringLiteral_fits (b : UInt8) (rest : Bytes) :
    Fits (rest.length + 1) (stringLiteral (b :: rest)) := by
  have within := StringLiteral.scanFrom_within b 1 0 [] rest (by omega)
  rw [Nat.add_comm]
  exact .of_within within fun stop value _ hStop => ⟨rfl, hStop, by simp⟩

theorem numeral_fits {b : UInt8} {rest : Bytes} (h : Bytes.isDigit b = true ∨ b = 46) :
    Fits (rest.length + 1) (numeral (b :: rest)) := by
  have within := Numeral.scan_within (b :: rest) (by simp)
  rw [← Nat.zero_add (rest.length + 1)]
  exact .of_within within fun stop value hScan _ =>
    ⟨rfl, Numeral.scan_pos h hScan, by simp⟩

theorem regexLiteral_fits [PatternCheck] (b : UInt8) (rest : Bytes) :
    Fits (rest.length + 1) (regexLiteral (b :: rest)) := by
  have within := RegexLiteral.scan_within (b :: rest) (by simp)
  rw [Nat.add_comm]
  exact .of_within within fun stop value _ hStop => ⟨rfl, hStop, by simp⟩

theorem blockComment_fits (b c : UInt8) (rest : Bytes) :
    Fits (rest.length + 2) (blockComment (b :: c :: rest)) := by
  have within := Comment.scanBlock_within 2 false rest (by omega)
  rw [Nat.add_comm]
  exact .of_within within fun stop value _ hStop => ⟨rfl, by omega, by simp⟩

theorem lineComment_fits (rest : Bytes) :
    Fits (rest.length + 1) (.ok (lineComment (47 :: rest))) := by
  refine ⟨?_, Comment.lineWidth_le _, by simp [lineComment], by simp [lineComment]⟩
  simp [lineComment, Comment.lineWidth, startsWithLineBreak, startsWithLineSeparator]

theorem punctuator_fits (b : UInt8) (rest : Bytes) :
    Fits (rest.length + 1) (punctuator (b :: rest)) := by
  unfold punctuator
  cases h : Punctuator.atStart? (b :: rest) with
  | none => exact ⟨by simp, by simp⟩
  | some mark =>
    have hLength := (Punctuator.atStart?_isPrefix h).length_le
    rw [Punctuator.length_ofString_text] at hLength
    exact ⟨mark.text_length_pos, hLength, by simp, by simp⟩

variable [PatternCheck]

/-- The token at the front of a text that is not empty takes at least one byte of it. -/
theorem scan_fits (before : Option Token) (b : UInt8) (rest : Bytes) :
    Fits (rest.length + 1) (scan before (b :: rest)) := by
  unfold scan
  dsimp only
  split
  · exact stringLiteral_fits b rest
  split
  · refine numeral_fits ?_
    grind
  split
  · rename_i hComment
    obtain rfl : b = 47 := by grind
    exact lineComment_fits rest
  split
  · rename_i hComment
    cases rest with
    | nil => simp at hComment
    | cons c rest => exact blockComment_fits b c rest
  split
  · exact regexLiteral_fits b rest
  split
  · refine word_fits ?_
    unfold Word.Starts
    grind
  split
  · refine word_fits ?_
    unfold Word.Starts
    grind
  · exact punctuator_fits b rest

/-- A fault starts inside the text and is found there. -/
theorem scan_error {before : Option Token} {text : Bytes} {f : ScanFault}
    (h : scan before text = .error f) : f.start < text.length ∧ f.width ≤ text.length := by
  cases text with
  | nil => cases h
  | cons b rest =>
    have := scan_fits before b rest
    rw [h] at this
    exact this

/-- A lexeme lies inside the text; only the end of input is empty, and only it stands at the end. -/
theorem scan_ok {before : Option Token} {text : Bytes} {lexeme : Lexeme}
    (h : scan before text = .ok lexeme) :
    lexeme.width ≤ text.length ∧ lexeme.type ≠ .illegal ∧
      (lexeme.type = .endOfInput → text = []) ∧
      (lexeme.type ≠ .endOfInput → 0 < lexeme.width) := by
  cases text with
  | nil =>
    cases h
    simp
  | cons b rest =>
    have := scan_fits before b rest
    rw [h] at this
    obtain ⟨hPos, hWidth, hEnd, hLegal⟩ := this
    exact ⟨hWidth, hLegal, fun hLast => absurd hLast hEnd, fun _ => hPos⟩

end Lexeme

end ScriptOptimizer
