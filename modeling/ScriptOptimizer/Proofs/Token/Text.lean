import ScriptOptimizer.Proofs.Syntax.Formed
import ScriptOptimizer.Proofs.Text.Utf8
import ScriptOptimizer.Proofs.Token.Lossless
import ScriptOptimizer.Proofs.Token.Spacing

/-!
Tokens of well-formed text. No token starts in the middle of a sequence, so the literals of the
tokens are well-formed themselves; names are too, and what a literal denotes can be told from its
text.
-/

namespace ScriptOptimizer

namespace Utf8

theorem Begins.append {u v : Bytes} (hu : Begins u) (hv : Begins v) : Begins (u ++ v) := by
  cases u with
  | nil => exact hv
  | cons b rest => exact hu

theorem Begins.append_of_ne_nil {u v : Bytes} (hu : Begins u) (hne : u ≠ []) : Begins (u ++ v) := by
  cases u with
  | nil => exact absurd rfl hne
  | cons b rest => exact hu

theorem Begins.take {text : Bytes} (h : Begins text) (n : Nat) : Begins (text.take n) := by
  cases n with
  | zero => exact nofun
  | succ n =>
    cases text with
    | nil => exact nofun
    | cons b rest => exact h

theorem Begins.of_low {b : UInt8} {rest : Bytes} (h : b < 0x80) : Begins (b :: rest) := by
  intro c hc
  obtain rfl : b = c := by simpa using hc
  unfold isContinuation
  grind

/-- What reads as a code point of its own does not begin in the middle of a sequence. -/
theorem begins_of_decode {b : UInt8} {rest : Bytes} (h : (decode (b :: rest)).1 ≠ replacement) :
    Begins (b :: rest) := by
  intro c hc
  obtain rfl : b = c := by simpa using hc
  unfold decode at h
  cases hDecode : decode? (b :: rest) with
  | none =>
    rw [hDecode] at h
    exact absurd rfl h
  | some pair => exact decode?_begins hDecode

end Utf8

theorem Blank.text {gap : Bytes} (h : Blank gap) : Utf8.Text gap := by
  induction h with
  | nil => exact .nil
  | cons hDecode _ _ ih => exact .cons hDecode ih

/-! ### Names -/

namespace Word

/-- The name of a word is made of whole characters and of escapes. On the way the name so far is
well-formed together with what is left of the character that is being read. -/
theorem scanFrom_utf8 {width skip : Nat} {name : Bytes} {escaped : Bool} {text : Bytes}
    {stop : Nat} {word : Name} (h : scanFrom width skip name escaped text = .ok (stop, word))
    (hSkip : skip ≤ text.length) (hName : Utf8.Text (name.reverse ++ text.take skip)) :
    Utf8.Text word.text := by
  fun_induction scanFrom width skip name escaped text with
  | case1 width skip name escaped =>
    simp only [Except.ok.injEq, Prod.mk.injEq] at h
    obtain ⟨-, rfl⟩ := h
    simpa using hName
  | case2 width name escaped b rest k ih =>
    exact ih h (by simpa using hSkip) (by simpa using hName)
  | case3 width name escaped h₁ h₂ h₃ h₄ rest rune hRune ih =>
    refine ih h (Nat.zero_le _) ?_
    rw [List.take_zero, List.append_nil] at hName
    simpa using hName.append (Utf8.Text.encode rune)
  | case4 | case5 | case6 => cases h
  | case7 width name escaped b rest hSlash hLow hPart ih =>
    refine ih h (Nat.zero_le _) ?_
    have hDecode : Utf8.decode? [b] = some (b.toNat, [b].length) := by simp [Utf8.decode?, hLow]
    have hSingle := Utf8.Text.single hDecode
    rw [List.take_zero, List.append_nil] at hName
    simpa using hName.append hSingle
  | case9 width name escaped b rest hSlash hLow rune size hDecode hPart ih =>
    have hRune : rune ≠ Utf8.replacement := by
      rintro rfl
      rw [isPartRune_replacement] at hPart
      cases hPart
    have hSequence := Utf8.decode?_of_decode hDecode hRune
    obtain ⟨hPos, hWidth⟩ := Utf8.decode?_width hSequence
    have hWidth : size ≤ rest.length + 1 := hWidth
    refine ih h (by omega) ?_
    have hSingle := Utf8.Text.single (Utf8.decode?_take hSequence)
    rw [show size = size - 1 + 1 by omega, List.take_succ_cons] at hSingle
    rw [List.take_zero, List.append_nil] at hName
    simpa using hName.append hSingle
  | case8 | case10 =>
    simp only [Except.ok.injEq, Prod.mk.injEq] at h
    obtain ⟨-, rfl⟩ := h
    simpa using hName

theorem scan_utf8 {text : Bytes} {width : Nat} {word : Name} (h : scan text = .ok (width, word)) :
    Utf8.Text word.text :=
  scanFrom_utf8 h (Nat.zero_le _) .nil

end Word

namespace Lexeme

variable {before before' : Option Token} {text : Bytes} {lexeme lexeme' : Lexeme} {t : Token}

theorem word_name (h : word before text = .ok lexeme) : Utf8.Text lexeme.value := by
  obtain ⟨⟨width, name⟩, hScan, rfl⟩ := bind_ok h
  exact Word.scan_utf8 hScan

/-- A name that was scanned is well-formed, whatever the text is. -/
theorem scan_name [PatternCheck] (h : scan before text = .ok lexeme)
    (hType : lexeme.type = .identifier) : Utf8.Text lexeme.value := by
  obtain ⟨b, rest, -, -, hWord⟩ := word_of_scan h hType
  exact word_name hWord

theorem isLetter_replacement : Category.isLetter Utf8.replacement = false := by
  decide +kernel

/-- Nothing is scanned from the middle of a sequence. -/
theorem scan_begins [PatternCheck] (h : scan before text = .ok lexeme) : Utf8.Begins text := by
  cases text with
  | nil => exact nofun
  | cons b rest =>
    by_cases hLow : b < 0x80
    · exact .of_low hLow
    · refine Utf8.begins_of_decode fun hRune => ?_
      have hStart : Word.isStartByte b = false := by
        unfold Word.isStartByte
        grind
      have hDigit : Bytes.isDigit b = false := by
        unfold Bytes.isDigit
        grind
      unfold scan at h
      dsimp only at h
      rw [if_neg (by grind), if_neg (by grind), if_neg (by grind), if_neg (by grind),
        if_neg (by grind), if_neg (by grind), hRune, isLetter_replacement, if_neg (by simp)] at h
      unfold punctuator at h
      split at h
      · rename_i mark hMark
        obtain ⟨c, tail, hText, -, -, hAscii, -⟩ := mark.text_front
        have hPrefix := Punctuator.atStart?_isPrefix hMark
        rw [hText, List.cons_prefix_cons] at hPrefix
        exact hLow (hPrefix.1 ▸ hAscii)
      · cases h

theorem wordType_ofWord {name : Word.Name} (h : (wordType before name).isValue = true) :
    wordType before name = TokenType.ofWord name.text := by
  have hPlain {afterDot : Bool}
      (h : (if afterDot || name.escaped then TokenType.identifier
        else TokenType.ofWord name.text).isValue = true) :
      (if afterDot || name.escaped then TokenType.identifier else TokenType.ofWord name.text) =
        TokenType.ofWord name.text := by
    by_cases hEscaped : (afterDot || name.escaped) = true
    · rw [if_pos hEscaped] at h
      cases h
    · rw [if_neg hEscaped]
  cases before with
  | none => exact hPlain h
  | some t => exact hPlain h

theorem word_value (h : word before text = .ok lexeme) (h' : word before' text = .ok lexeme')
    (hValue : lexeme.type.isValue = true) (hValue' : lexeme'.type.isValue = true) :
    lexeme = lexeme' := by
  obtain ⟨⟨width, name⟩, hScan, rfl⟩ := bind_ok h
  obtain ⟨p, hScan', rfl⟩ := bind_ok h'
  rw [hScan] at hScan'
  cases hScan'
  simp only [wordType_ofWord hValue, wordType_ofWord hValue']

theorem punctuator_isValue (h : punctuator text = .ok lexeme) : lexeme.type.isValue = false := by
  unfold punctuator at h
  split at h
  · cases h
    rfl
  · cases h

/-- A slash that begins no regular expression begins no value. -/
theorem scan_slash [PatternCheck] {rest : Bytes} (h : scan before (47 :: rest) = .ok lexeme)
    (hBefore : regexAllowedAfter before = false) : lexeme.type.isValue = false := by
  unfold scan at h
  dsimp only at h
  rw [if_neg (by decide), if_neg (by simp [Bytes.isDigit])] at h
  split at h
  · cases h
    rfl
  split at h
  · obtain ⟨_, -, rfl⟩ := bind_ok h
    rfl
  · rw [hBefore, if_neg (by simp), if_neg (by decide), if_neg (by simp)] at h
    exact punctuator_isValue h

theorem eq_of_ite {c : Prop} [Decidable c] {x y x' y' : Except ScanFault Lexeme}
    (h : (if c then x else y) = .ok lexeme) (h' : (if c then x' else y') = .ok lexeme')
    (hThen : x = .ok lexeme → x' = .ok lexeme' → lexeme = lexeme')
    (hElse : y = .ok lexeme → y' = .ok lexeme' → lexeme = lexeme') : lexeme = lexeme' := by
  by_cases hc : c
  · rw [if_pos hc] at h h'
    exact hThen h h'
  · rw [if_neg hc] at h h'
    exact hElse h h'

/-- Values that are scanned from one text are the same, whatever tokens stand before it. -/
theorem scan_value [PatternCheck] (h : scan before text = .ok lexeme)
    (h' : scan before' text = .ok lexeme') (hValue : lexeme.type.isValue = true)
    (hValue' : lexeme'.type.isValue = true) : lexeme = lexeme' := by
  have hSame {x : Except ScanFault Lexeme} (h : x = .ok lexeme) (h' : x = .ok lexeme') :
      lexeme = lexeme' := Except.ok.inj (h.symm.trans h')
  cases text with
  | nil => exact hSame h h'
  | cons b rest =>
    have hSlash (hb : b = 47) : regexAllowedAfter before = regexAllowedAfter before' := by
      subst hb
      cases hBefore : regexAllowedAfter before with
      | false => rw [scan_slash h hBefore] at hValue; cases hValue
      | true =>
        cases hBefore' : regexAllowedAfter before' with
        | false => rw [scan_slash h' hBefore'] at hValue'; cases hValue'
        | true => rfl
    have hRegex : (b = 47 && regexAllowedAfter before') = (b = 47 && regexAllowedAfter before) := by
      by_cases hb : b = 47
      · rw [hSlash hb]
      · simp [hb]
    unfold scan at h h'
    dsimp only at h h'
    rw [hRegex] at h'
    refine eq_of_ite h h' hSame fun h h' => ?_
    refine eq_of_ite h h' hSame fun h h' => ?_
    refine eq_of_ite h h' hSame fun h h' => ?_
    refine eq_of_ite h h' hSame fun h h' => ?_
    refine eq_of_ite h h' hSame fun h h' => ?_
    have hWord (h : word before (b :: rest) = .ok lexeme)
        (h' : word before' (b :: rest) = .ok lexeme') : lexeme = lexeme' :=
      word_value h h' hValue hValue'
    refine eq_of_ite h h' hWord fun h h' => ?_
    exact eq_of_ite h h' hWord hSame

end Lexeme

namespace Token

variable [PatternCheck]

/-- A token that was scanned from well-formed text. -/
structure Clean (t : Token) : Prop where
  literal : Utf8.Text t.literal
  scanned : ∃ before text lexeme, Lexeme.scan before text = .ok lexeme ∧ lexeme.Makes text t

variable {t u : Token}

theorem Clean.value (h : t.Clean) (hType : t.type = .identifier) : Utf8.Text t.value := by
  obtain ⟨before, text, lexeme, hScan, hMakes⟩ := h.scanned
  rw [hMakes.value_eq]
  exact Lexeme.scan_name hScan (hMakes.type_eq.symm.trans hType)

theorem Clean.scan (h : t.Clean) (hType : t.type.isValue = true) :
    ∃ before lexeme, Lexeme.scan before (t.literal ++ [32]) = .ok lexeme ∧
      t.type = lexeme.type ∧ t.value = lexeme.value ∧ t.number = lexeme.number ∧
      t.flags = lexeme.flags := by
  obtain ⟨before, text, lexeme, hScan, hMakes⟩ := h.scanned
  refine ⟨before, lexeme, ?_, hMakes.type_eq, hMakes.value_eq, hMakes.number_eq, hMakes.flags_eq⟩
  rw [hMakes.literal_eq]
  refine (Lexeme.scan_spaced ?_ hScan ?_ ⟨32, [], rfl, .inl rfl⟩).1
  · cases before with
    | none => exact .none
    | some t => exact .some ⟨rfl, rfl, rfl, rfl, rfl, rfl⟩
  · rw [← hMakes.type_eq]
    intro hMem
    simp only [List.mem_cons, List.not_mem_nil, or_false] at hMem
    rcases hMem with h | h <;> rw [h] at hType <;> cases hType

/-- What a value denotes can be told from its text. -/
theorem Clean.literalValue_eq (ht : t.Clean) (hu : u.Clean) (hType : t.type.isValue = true)
    (hType' : u.type.isValue = true) (h : t.literal = u.literal) :
    t.literalValue = u.literalValue := by
  obtain ⟨before, lexeme, hScan, hKind, hValue, hNumber, hFlags⟩ := ht.scan hType
  obtain ⟨before', lexeme', hScan', hKind', hValue', hNumber', hFlags'⟩ := hu.scan hType'
  rw [← h] at hScan'
  obtain rfl := Lexeme.scan_value hScan hScan' (hKind ▸ hType) (hKind' ▸ hType')
  unfold literalValue
  rw [hKind, hKind', hValue, hValue', hNumber, hNumber', hFlags, hFlags']

end Token

namespace Lexer

variable {text : Bytes} {offset : Nat} {steps : List (Token × Lexer)}

theorem next_scanned [PatternCheck] {l : Lexer} (h : l.next.1.type ≠ .illegal) :
    ∃ before text lexeme, Lexeme.scan before text = .ok lexeme ∧ lexeme.Makes text l.next.1 := by
  revert h
  unfold next
  cases l.failure with
  | some d => exact fun h => absurd rfl h
  | none =>
    dsimp only
    cases hScan : Lexeme.scan l.before (l.cursor.advance (Gap.scan l.cursor.rest).width).rest with
    | error f => exact fun h => absurd rfl h
    | ok lexeme =>
      intro _
      dsimp only
      split
      · exact ⟨l.before, _, lexeme, hScan, rfl, rfl, rfl, rfl, rfl⟩
      · exact ⟨l.before, _, lexeme, hScan, rfl, rfl, rfl, rfl, rfl⟩

theorem mem_steps [PatternCheck] {l : Lexer} {fuel : Nat} {step : Token × Lexer}
    (h : step ∈ l.steps fuel) : ∃ m : Lexer, step = m.next := by
  induction fuel generalizing l with
  | zero => cases h
  | succ fuel ih =>
    rw [steps] at h
    dsimp only at h
    split at h
    · exact ⟨l, List.mem_singleton.1 h⟩
    · rcases List.mem_cons.1 h with rfl | h
      · exact ⟨l, rfl⟩
      · exact ih h

theorem drop_eq_slice (text : Bytes) {a b : Nat} (h : a ≤ b) :
    text.drop a = text.slice a b ++ text.drop b := by
  have := (List.take_append_drop (b - a) (text.drop a)).symm
  rwa [List.drop_drop, Nat.add_sub_cancel' h] at this

/-- The text at a token begins with the token, or ends. -/
theorem Advances.begins {t : Token} {after : Lexer} (h : Advances text offset t after)
    (hLegal : t.type ≠ .illegal) (hLiteral : Utf8.Begins t.literal) :
    Utf8.Begins (text.drop t.start) := by
  by_cases hEnd : t.type = .endOfInput
  · rw [h.last hEnd, List.drop_length]
    exact nofun
  · have hStart := h.progress hEnd
    have hStop := h.stop_le
    rw [h.literal_eq hLegal] at hLiteral
    rw [drop_eq_slice text h.start_le]
    refine hLiteral.append_of_ne_nil fun hNil => ?_
    have := congrArg List.length hNil
    simp only [Bytes.slice, List.length_take, List.length_drop, List.length_nil] at this
    omega

/-- In a text without errors no token starts or stops in the middle of a sequence. -/
theorem Cuts.begins (h : Cuts text offset steps)
    (hSteps : ∀ step ∈ steps, step.1.type ≠ .illegal ∧ Utf8.Begins step.1.literal) :
    Utf8.Begins (text.drop offset) ∧ ∀ step ∈ steps,
      Utf8.Begins (text.drop step.1.start) ∧ Utf8.Begins (text.drop step.1.stop) := by
  -- The gap before a token begins with a whole character too.
  have hOffset {offset : Nat} {t : Token} {after : Lexer} (hStep : Advances text offset t after)
      (hLegal : t.type ≠ .illegal) (hStart : Utf8.Begins (text.drop t.start)) :
      Utf8.Begins (text.drop offset) := by
    rw [drop_eq_slice text hStep.offset_le]
    exact (hStep.gap_blank hLegal).text.begins.append hStart
  induction h with
  | @last offset t after hStep hLast =>
    obtain ⟨hLegal, hLiteral⟩ := hSteps _ List.mem_cons_self
    have hStart := hStep.begins hLegal hLiteral
    refine ⟨hOffset hStep hLegal hStart, List.forall_mem_singleton.2 ⟨hStart, ?_⟩⟩
    have hEnd : t.type = .endOfInput := by
      simp only [isLast, Bool.or_eq_true, decide_eq_true_eq] at hLast
      exact hLast.resolve_right hLegal
    have hLength : text.length ≤ t.stop := hStep.last hEnd ▸ hStep.start_le
    rw [List.drop_eq_nil_of_le hLength]
    intro b hb
    cases hb
  | @more offset t after rest hStep hLast hRest ih =>
    obtain ⟨⟨hLegal, hLiteral⟩, hMore⟩ := List.forall_mem_cons.1 hSteps
    have hStart := hStep.begins hLegal hLiteral
    obtain ⟨hStop, hTokens⟩ := ih hMore
    exact ⟨hOffset hStep hLegal hStart, List.forall_mem_cons.2 ⟨⟨hStart, hStop⟩, hTokens⟩⟩

/-- Where the end of a text is reached, there was no error on the way. -/
theorem Cuts.legal (h : Cuts text offset steps)
    (hEnd : ∃ t ∈ steps.map (·.1), t.type = .endOfInput) :
    ∀ t ∈ steps.map (·.1), t.type ≠ .illegal := by
  obtain ⟨front, last, hSplit, -, hFront⟩ := h.exists_last
  obtain ⟨t, hMem, hType⟩ := hEnd
  rw [hSplit] at hMem ⊢
  have hNotFront : t ∉ front := by
    intro hMem
    have := hFront t hMem
    simp [isLast, hType] at this
  obtain rfl : t = last := by simpa [hNotFront] using hMem
  intro u hu
  rcases List.mem_append.1 hu with hu | hu
  · exact (isLast_eq_false.1 (hFront u hu)).2
  · rw [List.mem_singleton.1 hu, hType]
    simp

/-- The tokens of a well-formed text without errors are clean. -/
theorem clean_of_significant [PatternCheck] {source : Source}
    (hValid : Utf8.isValid source.content = true)
    (hEnd : ∃ t ∈ (ofSource source).significant.1, t.type = .endOfInput) :
    ∀ t ∈ (ofSource source).significant.1, t.Clean := by
  have hText := Utf8.text_of_isValid hValid
  have hCuts := cuts_ofSource source
  obtain ⟨last, hLast, hType⟩ := hEnd
  have hLegal := hCuts.legal ⟨last, List.mem_of_mem_filter hLast, hType⟩
  have hScanned : ∀ step ∈ (ofSource source).run, ∃ before text lexeme,
      Lexeme.scan before text = .ok lexeme ∧ lexeme.Makes text step.1 := by
    intro step hStep
    obtain ⟨m, rfl⟩ := mem_steps hStep
    exact next_scanned (hLegal _ (List.mem_map_of_mem hStep))
  have hBegins := hCuts.begins fun step hStep => by
    obtain ⟨before, text, lexeme, hScan, hMakes⟩ := hScanned step hStep
    refine ⟨hLegal _ (List.mem_map_of_mem hStep), ?_⟩
    rw [hMakes.literal_eq]
    exact (Lexeme.scan_begins hScan).take _
  intro t ht
  obtain ⟨step, hStep, rfl⟩ := List.mem_map.1 (List.mem_of_mem_filter ht)
  refine ⟨?_, hScanned step hStep⟩
  obtain ⟨start, hAdvances⟩ := hCuts.exists_advances hStep
  obtain ⟨hStart, hStop⟩ := hBegins.2 step hStep
  rw [← List.take_append_drop step.1.start source.content] at hText
  have hFrom := (hText.split hStart).2
  rw [drop_eq_slice _ hAdvances.start_le] at hFrom
  rw [hAdvances.literal_eq (hLegal _ (List.mem_map_of_mem hStep))]
  exact (hFrom.split hStop).1

end Lexer

end ScriptOptimizer
