import ScriptOptimizer.Proofs.Token.Blank

/-!
Tokens read again. What a scanner takes from the front of a text it takes again when those bytes
stand in front of another text, provided that the other text does not go on with a byte that the
token could take too.
-/

namespace ScriptOptimizer

/-- A text whose first byte continues neither a word nor a numeral. A dot stands at its front only
if `dot` allows it. -/
def Stops (dot : Bool) : Bytes → Prop
  | [] => True
  | b :: _ => Word.isPartByte b = false ∧ b ≠ 92 ∧ b < 0x80 ∧ (b = 46 → dot = true)

instance (dot : Bool) (text : Bytes) : Decidable (Stops dot text) := by
  cases text <;> unfold Stops <;> infer_instance

namespace Utf8

/-- A sequence is decoded in front of any text. -/
theorem decode?_append {front : Bytes} {rune : Nat} (rest : Bytes)
    (h : decode? front = some (rune, front.length)) :
    decode? (front ++ rest) = some (rune, front.length) := by
  match front with
  | [] => simp [decode?] at h
  | [a] => unfold decode? at h ⊢; grind
  | [a, b] => unfold decode? at h ⊢; grind
  | [a, b, c] => unfold decode? at h ⊢; grind
  | a :: b :: c :: d :: front => unfold decode? at h ⊢; grind

/-- A text that begins with enough bytes of another decodes to the same code point, unless that is
the one for malformed bytes. -/
theorem decode_respell {text : Bytes} {width : Nat} (rest : Bytes)
    (hRune : (decode text).1 ≠ replacement) (hWidth : (decode text).2 ≤ width) :
    decode (text.take width ++ rest) = decode text := by
  unfold decode at hRune hWidth ⊢
  cases hDecode : decode? text with
  | none => simp [hDecode] at hRune
  | some pair =>
    obtain ⟨rune, size⟩ := pair
    have hWidth : size ≤ width := by simpa [hDecode] using hWidth
    have hTake := decode?_take hDecode
    have hSplit : text.take width ++ rest =
        text.take size ++ ((text.take width).drop size ++ rest) := by
      rw [← List.append_assoc]
      congr 1
      have := List.take_append_drop size (text.take width)
      rw [List.take_take, Nat.min_eq_left hWidth] at this
      exact this.symm
    have hSize : (text.take size).length = size :=
      List.length_take_of_le (decode?_width hDecode).2
    rw [hSplit, decode?_append _ hTake, hSize]

end Utf8

/-! ### Words -/

namespace Word

/-- A word ends before a text that does not continue it. -/
theorem scanFrom_stops {rest : Bytes} (h : Stops true rest) (width : Nat) (name : Bytes)
    (escaped : Bool) :
    scanFrom width 0 name escaped rest = .ok (width, ⟨name.reverse, escaped⟩) := by
  cases rest with
  | nil => rw [scanFrom]
  | cons b rest =>
    obtain ⟨hPart, hSlash, hLow, -⟩ := h
    rw [scanFrom.eq_def]
    simp [hPart, hSlash, hLow]

/-- The code point for malformed bytes stands in no word. -/
theorem isPartRune_replacement : isPartRune Utf8.replacement = false := by
  decide +kernel

/-- Once a part was escaped, the word has an escape. -/
theorem scanFrom_escaped {width skip : Nat} {name text : Bytes} {stop : Nat} {word : Name}
    (h : scanFrom width skip name true text = .ok (stop, word)) : word.escaped = true := by
  generalize hEscaped : true = escaped at h
  fun_induction scanFrom width skip name escaped text <;> simp_all
  all_goals exact h.2 ▸ rfl

/-- An escape shows by its backslash. -/
theorem scanFrom_plain {width skip : Nat} {name : Bytes} {escaped : Bool} {text : Bytes}
    {stop : Nat} {word : Name} (h : scanFrom width skip name escaped text = .ok (stop, word))
    (hSlash : 92 ∉ text.take (stop - width)) : word.escaped = escaped := by
  -- The first byte of what is read is no backslash, and neither is the rest.
  have tail {width : Nat} {b : UInt8} {rest : Bytes} (hStop : width + 1 ≤ stop)
      (hSlash : 92 ∉ (b :: rest).take (stop - width)) :
      b ≠ 92 ∧ 92 ∉ rest.take (stop - (width + 1)) := by
    rw [show stop - width = stop - (width + 1) + 1 by omega, List.take_succ_cons] at hSlash
    simp only [List.mem_cons, not_or] at hSlash
    exact ⟨Ne.symm hSlash.1, hSlash.2⟩
  fun_induction scanFrom width skip name escaped text with
  | case2 width name escaped b rest k ih => exact ih h (tail (scanFrom_ge h) hSlash).2
  | case3 width name escaped h₁ h₂ h₃ h₄ rest rune hRune ih =>
    have := scanFrom_ge h
    exact absurd rfl (tail (by omega) hSlash).1
  | case7 width name escaped b rest _ _ _ ih => exact ih h (tail (scanFrom_ge h) hSlash).2
  | case9 width name escaped b rest _ _ rune size _ _ ih =>
    exact ih h (tail (scanFrom_ge h) hSlash).2
  | case4 | case5 | case6 => cases h
  | case1 | case8 | case10 =>
    simp only [Except.ok.injEq, Prod.mk.injEq] at h
    exact h.2 ▸ rfl

/-- A word is read again in front of any text that does not continue it. -/
theorem scanFrom_respell {width skip : Nat} {name : Bytes} {escaped : Bool} {text : Bytes}
    {stop : Nat} {word : Name} (h : scanFrom width skip name escaped text = .ok (stop, word))
    (hSkip : skip ≤ text.length) :
    width + skip ≤ stop ∧ ∀ rest, Stops true rest →
      scanFrom width skip name escaped (text.take (stop - width) ++ rest) = .ok (stop, word) := by
  -- A step that takes one byte and leaves `next` more of its character.
  have step {width skip next : Nat} {name : Bytes} {escaped : Bool} {b : UInt8} {rest : Bytes}
      (hTaken : ∀ more, rest.take next <+: more →
        scanFrom width skip name escaped (b :: more) =
          scanFrom (width + 1) next (b :: name) escaped more)
      (ih : width + 1 + next ≤ stop ∧ ∀ after, Stops true after →
          scanFrom (width + 1) next (b :: name) escaped (rest.take (stop - (width + 1)) ++ after) =
            .ok (stop, word)) :
      ∀ after, Stops true after →
        scanFrom width skip name escaped ((b :: rest).take (stop - width) ++ after) =
          .ok (stop, word) := by
    obtain ⟨hStop, hAgain⟩ := ih
    have hTake : (b :: rest).take (stop - width) = b :: rest.take (stop - (width + 1)) := by
      rw [← List.take_succ_cons]
      congr 1
      omega
    intro after hAfter
    rw [hTake, List.cons_append, hTaken _ ?_]
    · exact hAgain after hAfter
    · refine List.IsPrefix.trans ?_ (List.prefix_append _ _)
      exact List.take_prefix_take_left (by omega)
  fun_induction scanFrom width skip name escaped text with
  | case1 width skip name escaped =>
    obtain rfl : skip = 0 := by simpa using hSkip
    simp only [Except.ok.injEq, Prod.mk.injEq] at h
    obtain ⟨rfl, rfl⟩ := h
    refine ⟨Nat.le_refl _, fun rest hRest => ?_⟩
    simpa using scanFrom_stops hRest width name escaped
  | case2 width name escaped b rest k ih =>
    obtain ⟨hStop, ih⟩ := ih h (by simpa using hSkip)
    exact ⟨by omega, step (fun more _ => by rw [scanFrom]) ⟨hStop, ih⟩⟩
  | case3 width name escaped h₁ h₂ h₃ h₄ rest rune hRune ih =>
    obtain ⟨hStop, ih⟩ := ih h (Nat.zero_le _)
    refine ⟨by omega, fun after hAfter => ?_⟩
    have hWidth : stop - width = stop - (width + 6) + 6 := by omega
    rw [hWidth]
    simp only [List.take_succ_cons, List.cons_append]
    rw [scanFrom.eq_def]
    simp only [if_true, hRune]
    exact ih after hAfter
  | case4 => cases h
  | case5 => cases h
  | case6 => cases h
  | case7 width name escaped b rest hSlash hLow hPart ih =>
    obtain ⟨hStop, ih⟩ := ih h (Nat.zero_le _)
    refine ⟨by omega, step (fun more _ => ?_) ⟨hStop, ih⟩⟩
    rw [scanFrom.eq_def]
    simp [hSlash, hLow, hPart]
  | case9 width name escaped b rest hSlash hLow rune size hDecode hPart ih =>
    have hSize := Utf8.decode_width b rest
    have hRune : (Utf8.decode (b :: rest)).1 ≠ Utf8.replacement := by
      intro hRune
      rw [hDecode] at hRune
      rw [show rune = _ from hRune, isPartRune_replacement] at hPart
      cases hPart
    rw [hDecode] at hSize
    dsimp only at hSize
    obtain ⟨hStop, ih⟩ := ih h (by omega)
    refine ⟨by omega, step (fun more hMore => ?_) ⟨hStop, ih⟩⟩
    obtain ⟨after, rfl⟩ := hMore
    have hAgain : Utf8.decode ((b :: rest).take size ++ after) = Utf8.decode (b :: rest) :=
      Utf8.decode_respell after hRune (Nat.le_of_eq (by rw [hDecode]))
    have hTake : (b :: rest).take size = b :: rest.take (size - 1) := by
      rw [← List.take_succ_cons]
      congr 1
      omega
    rw [hTake, List.cons_append, hDecode] at hAgain
    rw [scanFrom.eq_def]
    simp [hSlash, hLow, hAgain, hPart]
  | case8 | case10 =>
    simp only [Except.ok.injEq, Prod.mk.injEq] at h
    obtain ⟨rfl, rfl⟩ := h
    refine ⟨Nat.le_refl _, fun rest hRest => ?_⟩
    simpa using scanFrom_stops hRest _ _ _

/-- A word without escapes denotes its own bytes. -/
theorem scanFrom_text {width skip : Nat} {name : Bytes} {escaped : Bool} {text : Bytes}
    {stop : Nat} {word : Bytes}
    (h : scanFrom width skip name escaped text = .ok (stop, ⟨word, false⟩)) :
    word = name.reverse ++ text.take (stop - width) := by
  -- A step that takes one byte.
  have step {width : Nat} {name : Bytes} {b : UInt8} {rest : Bytes} (hStop : width + 1 ≤ stop)
      (ih : word = (b :: name).reverse ++ rest.take (stop - (width + 1))) :
      word = name.reverse ++ (b :: rest).take (stop - width) := by
    rw [ih, show stop - width = stop - (width + 1) + 1 by omega]
    simp
  fun_induction scanFrom width skip name escaped text with
  | case2 width name escaped b rest k ih => exact step (scanFrom_ge h) (ih h)
  | case3 => cases scanFrom_escaped h
  | case4 | case5 | case6 => cases h
  | case7 width name escaped b rest _ _ _ ih => exact step (scanFrom_ge h) (ih h)
  | case9 width name escaped b rest _ _ rune size _ _ ih => exact step (scanFrom_ge h) (ih h)
  | case1 | case8 | case10 =>
    simp only [Except.ok.injEq, Prod.mk.injEq, Name.mk.injEq] at h
    obtain ⟨rfl, rfl, rfl⟩ := h
    simp

/-- The text spells a word: its start is that of a word, and it is read as a whole in front of any
text that does not continue it. -/
structure Spells (raw : Bytes) (name : Name) : Prop where
  starts : ∃ b tail, raw = b :: tail ∧ ∀ rest, Starts b (tail ++ rest)
  scan {rest : Bytes} : Stops true rest → scan (raw ++ rest) = .ok (raw.length, name)

/-- What was scanned as a word spells it. -/
theorem spells_of_scan {b : UInt8} {rest : Bytes} {width : Nat} {word : Name}
    (hStart : Starts b rest) (h : scan (b :: rest) = .ok (width, word)) :
    Spells ((b :: rest).take width) word := by
  have hPos := scan_pos hStart h
  obtain ⟨-, hAgain⟩ := scanFrom_respell h (Nat.zero_le _)
  obtain ⟨-, hWidth⟩ : 0 ≤ width ∧ width ≤ 0 + (rest.length + 1) := by
    have := scanFrom_within 0 0 [] false (b :: rest)
    rw [show scanFrom 0 0 [] false (b :: rest) = _ from h] at this
    exact this
  rw [Nat.sub_zero] at hAgain
  have hTake : (b :: rest).take width = b :: rest.take (width - 1) := by
    rw [← List.take_succ_cons]
    congr 1
    omega
  refine ⟨⟨b, rest.take (width - 1), hTake, fun after => ?_⟩, fun hAfter => ?_⟩
  · rcases hStart with hByte | hEq | ⟨hHigh, hLetter⟩
    · exact .inl hByte
    · exact .inr (.inl hEq)
    · have hSlash : b ≠ 92 := by
        rintro rfl
        exact absurd hHigh (by decide)
      refine .inr (.inr ⟨hHigh, ?_⟩)
      have hPart : isPartRune (Utf8.decode (b :: rest)).1 = true := by simp [isPartRune, hLetter]
      have hRune : (Utf8.decode (b :: rest)).1 ≠ Utf8.replacement := by
        intro hRune
        rw [hRune, isPartRune_replacement] at hPart
        cases hPart
      have hSize := Utf8.decode_width b rest
      -- The first code point is read as a whole.
      have hFirst : (Utf8.decode (b :: rest)).2 ≤ width := by
        rw [scan, scanFrom.eq_def] at h
        simp only [hSlash, if_false, UInt8.not_lt.2 hHigh, hPart, if_true] at h
        have := (scanFrom_respell h (by omega)).1
        omega
      have := Utf8.decode_respell after hRune hFirst
      rw [hTake, List.cons_append] at this
      rw [this]
      exact hLetter
  · rw [List.length_take_of_le (by simpa using hWidth)]
    exact hAgain _ hAfter

/-- A name that stands for itself: its start is that of a word and no escape, and it is read as a
whole in front of any text that does not continue it. -/
structure Plain (name : Bytes) : Prop where
  starts : ∃ b tail, name = b :: tail ∧ ∀ rest, isStartByte b = true ∨
    (0x80 ≤ b ∧ Category.isLetter (Utf8.decode (b :: (tail ++ rest))).1 = true)
  scan {rest : Bytes} : Stops true rest → scan (name ++ rest) = .ok (name.length, ⟨name, false⟩)

theorem Plain.spells {name : Bytes} (h : Plain name) : Spells name ⟨name, false⟩ := by
  obtain ⟨b, tail, hName, hStart⟩ := h.starts
  exact ⟨⟨b, tail, hName, fun rest => (hStart rest).imp_right .inr⟩, h.scan⟩

theorem Plain.ne_nil {name : Bytes} (h : Plain name) : name ≠ [] := by
  obtain ⟨b, tail, rfl, -⟩ := h.starts
  exact List.cons_ne_nil b tail

/-- A word that was read without a backslash is a plain name. -/
theorem plain_of_scan {b : UInt8} {rest : Bytes} {width : Nat} {word : Bytes}
    (hStart : Starts b rest) (hSlash : b ≠ 92)
    (h : scan (b :: rest) = .ok (width, ⟨word, false⟩)) :
    word = (b :: rest).take width ∧ Plain word := by
  have hSpells := spells_of_scan hStart h
  have hWord : word = (b :: rest).take width := scanFrom_text h
  rw [← hWord] at hSpells
  obtain ⟨c, tail, hName, hFirst⟩ := hSpells.starts
  have hHead : c = b := by
    have hTake := congrArg List.head? (hName.symm.trans hWord)
    rw [List.head?_take, if_neg (Nat.ne_of_gt (scan_pos hStart h))] at hTake
    exact Option.some.inj hTake
  refine ⟨hWord, ⟨c, tail, hName, fun after => ?_⟩, hSpells.scan⟩
  rcases hFirst after with hByte | hEq | hLetter
  · exact .inl hByte
  · exact absurd (hHead.symm.trans hEq) hSlash
  · exact .inr hLetter

/-- ASCII letters and digits after an ASCII letter are a plain name. -/
theorem plain_of_bytes {b : UInt8} {tail : Bytes} (hStart : isStartByte b = true)
    (hTail : tail.all isPartByte = true) : Plain (b :: tail) := by
  have read (width : Nat) (name text rest : Bytes) (hText : text.all isPartByte = true)
      (hRest : Stops true rest) :
      scanFrom width 0 name false (text ++ rest) =
        .ok (width + text.length, ⟨name.reverse ++ text, false⟩) := by
    induction text generalizing width name with
    | nil => simpa using scanFrom_stops hRest width name false
    | cons c text ih =>
      simp only [List.all_cons, Bool.and_eq_true] at hText
      have hLow : c < 0x80 := by
        have := hText.1
        simp only [isPartByte, isStartByte, Bytes.isDigit] at this
        grind
      have hSlash : c ≠ 92 := by
        rintro rfl
        exact absurd hText.1 (by decide)
      rw [List.cons_append, scanFrom.eq_def]
      simp only [hSlash, hLow, hText.1, if_false, if_true]
      rw [ih _ _ hText.2]
      simp [Nat.add_comm, Nat.add_left_comm]
  refine ⟨⟨b, tail, rfl, fun _ => .inl hStart⟩, fun hRest => ?_⟩
  have := read 0 [] (b :: tail) _ (by simp [isPartByte, hStart] at hTail ⊢; exact hTail) hRest
  simpa [scan] using this

end Word

/-! ### Numerals -/

theorem take_takeWhile (test : UInt8 → Bool) (text : Bytes) :
    text.take (text.takeWhile test).length = text.takeWhile test :=
  (List.prefix_iff_eq_take.1 (List.takeWhile_prefix test)).symm

/-- A run of bytes is found again in front of a text that does not continue it, also when more of
the text it was read from stays behind it. -/
theorem takeWhile_take_respell {test : UInt8 → Bool} {text rest : Bytes} {width : Nat}
    (hWidth : (text.takeWhile test).length ≤ width)
    (hRest : ∀ b, rest.head? = some b → test b = false) :
    (text.take width ++ rest).takeWhile test = text.takeWhile test := by
  have hStop : rest.takeWhile test = [] := by
    cases rest with
    | nil => rfl
    | cons b rest => simp [hRest b rfl]
  induction text generalizing width with
  | nil => simpa using hStop
  | cons b text ih =>
    cases width with
    | zero =>
      have hNone := List.eq_nil_of_length_eq_zero (Nat.le_zero.1 hWidth)
      rw [hNone]
      simpa using hStop
    | succ n =>
      cases hTest : test b with
      | false => simp [hTest]
      | true =>
        simp only [List.takeWhile_cons, hTest, if_true, List.length_cons] at hWidth
        simp [hTest, ih (Nat.le_of_succ_le_succ hWidth)]

/-- A run of bytes ends in front of a text that does not continue it. -/
theorem takeWhile_exact {test : UInt8 → Bool} {front rest : Bytes}
    (hFront : ∀ b ∈ front, test b = true) (hRest : ∀ b, rest.head? = some b → test b = false) :
    (front ++ rest).takeWhile test = front := by
  rw [List.takeWhile_append_of_pos hFront]
  cases rest with
  | nil => simp
  | cons b rest => simp [hRest b rfl]

theorem takeWhile_respell {test : UInt8 → Bool} (text : Bytes) {rest : Bytes}
    (hRest : ∀ b, rest.head? = some b → test b = false) :
    (text.takeWhile test ++ rest).takeWhile test = text.takeWhile test :=
  takeWhile_exact (List.all_eq_true.1 List.all_takeWhile) hRest

namespace Numeral

theorem not_isHexDigit {rest : Bytes} (h : Stops false rest) (b : UInt8)
    (hb : rest.head? = some b) : Bytes.isHexDigit b = false := by
  obtain ⟨rest, rfl⟩ : ∃ more, rest = b :: more := by cases rest <;> simp_all
  have := h.1
  simp only [Word.isPartByte, Word.isStartByte, Bytes.isDigit, Bytes.isHexDigit,
    Bytes.hexValue?] at this ⊢
  grind

theorem not_isDigit {rest : Bytes} (h : Stops false rest) (b : UInt8)
    (hb : rest.head? = some b) : Bytes.isDigit b = false := by
  obtain ⟨rest, rfl⟩ : ∃ more, rest = b :: more := by cases rest <;> simp_all
  have := h.1
  simp only [Word.isPartByte] at this
  grind

theorem scanHex_respell {text : Bytes} {width : Nat} {value : Binary64} {rest : Bytes}
    (h : scanHex text = .ok (width, value)) (hRest : Stops false rest) :
    2 ≤ width ∧ scanHex (text.take (width - 2) ++ rest) = .ok (width, value) := by
  unfold scanHex at h ⊢
  dsimp only at h ⊢
  split at h
  · cases h
  · rename_i hDigits
    split at h
    · cases h
    · rename_i hLimit
      simp only [Except.ok.injEq, Prod.mk.injEq] at h
      obtain ⟨rfl, rfl⟩ := h
      rw [Nat.add_sub_cancel_left, take_takeWhile, takeWhile_respell text (not_isHexDigit hRest),
        if_neg hDigits, if_neg hLimit]
      exact ⟨by omega, rfl⟩

theorem fractionWidth_respell {text rest : Bytes}
    (hRest : ∀ b, rest.head? = some b → Bytes.isDigit b = false ∧ b ≠ 46) :
    fractionWidth (text.take (fractionWidth text) ++ rest) = fractionWidth text := by
  have hNone : fractionWidth rest = 0 := by
    unfold fractionWidth
    split
    · exact absurd rfl (hRest 46 rfl).2
    · rfl
  fun_cases fractionWidth text with
  | case1 digits =>
    rw [Nat.add_comm 1, List.take_succ_cons, take_takeWhile, List.cons_append, fractionWidth,
      takeWhile_respell digits fun b hb => (hRest b hb).1]
    exact Nat.add_comm _ _
  | case2 => exact hNone

/-- The digits after the letter of an exponent and its sign. -/
theorem exponentWidth_digits {e : UInt8} {sign digits : Bytes}
    (hLetter : (e = 101 || e = 69) = true) (hSign : sign ∈ [[], [43], [45]])
    (hDigits : 0 < (digits.takeWhile Bytes.isDigit).length) :
    exponentWidth (e :: (sign ++ digits)) =
      .ok (1 + sign.length + (digits.takeWhile Bytes.isDigit).length) := by
  obtain ⟨count, hCount⟩ := Nat.exists_eq_succ_of_ne_zero (Nat.ne_of_gt hDigits)
  simp only [List.mem_cons, List.not_mem_nil, or_false] at hSign
  unfold exponentWidth
  simp only [hLetter, if_true]
  rcases hSign with rfl | rfl | rfl
  · cases digits with
    | nil => simp at hDigits
    | cons d digits =>
      have hDigit : Bytes.isDigit d = true := by
        cases h : Bytes.isDigit d
        · simp [h] at hDigits
        · rfl
      have hPlain : (d = 43 || d = 45) = false := by
        simp only [Bytes.isDigit] at hDigit
        grind
      simp only [List.nil_append, hPlain, Bool.false_eq_true, if_false, hCount]
      rfl
  · simp [hCount]
  · simp [hCount]

/-- What an exponent that is not empty is made of. -/
theorem exponentWidth_pos {text : Bytes} {width : Nat} (h : exponentWidth text = .ok (width + 1)) :
    ∃ e sign digits, text = e :: (sign ++ digits) ∧ (e = 101 || e = 69) = true ∧
      sign ∈ [[], [43], [45]] ∧ 0 < (digits.takeWhile Bytes.isDigit).length ∧
      width = sign.length + (digits.takeWhile Bytes.isDigit).length := by
  cases text with
  | nil => simp [exponentWidth] at h
  | cons e text =>
    by_cases hLetter : (e = 101 || e = 69) = true
    · unfold exponentWidth at h
      simp only [hLetter, if_true] at h
      rcases text with _ | ⟨s, more⟩
      · simp at h
      · by_cases hSign : (s = 43 || s = 45) = true
        · simp only [hSign, if_true] at h
          refine ⟨e, [s], more, rfl, hLetter, by grind, ?_⟩
          grind
        · simp only [hSign] at h
          refine ⟨e, [], s :: more, rfl, hLetter, by simp, ?_⟩
          grind
    · simp [exponentWidth, hLetter] at h

/-- An exponent is read again in front of a text that does not continue it. -/
theorem exponentWidth_respell {text rest : Bytes} {width : Nat}
    (h : exponentWidth text = .ok width)
    (hRest : ∀ b, rest.head? = some b → Bytes.isDigit b = false ∧ b ≠ 101 ∧ b ≠ 69) :
    exponentWidth (text.take width ++ rest) = .ok width := by
  cases width with
  | zero =>
    cases rest with
    | nil => rfl
    | cons b rest => simp [exponentWidth, hRest b rfl]
  | succ width =>
    obtain ⟨e, sign, digits, rfl, hLetter, hSign, hPos, rfl⟩ := exponentWidth_pos h
    have hTake : (sign ++ digits).take (sign.length + (digits.takeWhile Bytes.isDigit).length) =
        sign ++ digits.takeWhile Bytes.isDigit := by
      rw [List.take_length_add_append, take_takeWhile]
    rw [List.take_succ_cons, hTake, List.cons_append, List.append_assoc]
    have hDigits := takeWhile_respell digits fun b hb => (hRest b hb).1
    rw [exponentWidth_digits hLetter hSign (by rw [hDigits]; exact hPos), hDigits]
    congr 1
    omega

/-- What a decimal numeral takes: its whole part, its fraction and its exponent. -/
theorem scanDecimal_ok {whole : Nat} {text : Bytes} {width : Nat} {value : Binary64}
    (h : scanDecimal whole text = .ok (width, value)) :
    ∃ exponent, width = whole + fractionWidth (text.drop whole) + exponent ∧
      exponentWidth (text.drop (whole + fractionWidth (text.drop whole))) = .ok exponent ∧
      value = Binary64.ofNumeral (text.take width) := by
  unfold scanDecimal at h
  dsimp only at h
  split at h
  · cases h
  · rename_i exponent hExponent
    refine ⟨exponent, ?_⟩
    split at h
    · split at h
      · cases h
      · simp only [Except.ok.injEq, Prod.mk.injEq] at h
        exact ⟨h.1.symm, hExponent, by rw [← h.1, ← h.2]⟩
    · simp only [Except.ok.injEq, Prod.mk.injEq] at h
      exact ⟨h.1.symm, hExponent, by rw [← h.1, ← h.2]⟩

theorem scanDecimal_respell {text : Bytes} {whole width : Nat} {value : Binary64} {rest : Bytes}
    (h : scanDecimal whole text = .ok (width, value)) (hWidth : width ≤ text.length)
    (hRest : Stops false rest) :
    scanDecimal whole (text.take width ++ rest) = .ok (width, value) := by
  obtain ⟨exponent, hSum, hExponent, hValue⟩ := scanDecimal_ok h
  generalize hMantissa : whole + fractionWidth (text.drop whole) = mantissa at hSum hExponent
  -- The text again, cut after its whole part and after its fraction.
  have hTail : (text.take width ++ rest).drop mantissa =
      (text.drop mantissa).take exponent ++ rest := by
    rw [List.drop_append_of_le_length (by simp; omega), List.drop_take]
    congr 2
    omega
  have hMiddle : (text.take width ++ rest).drop whole =
      (text.drop whole).take (fractionWidth (text.drop whole)) ++
        ((text.drop mantissa).take exponent ++ rest) := by
    rw [List.drop_append_of_le_length (by simp; omega), List.drop_take,
      show width - whole = fractionWidth (text.drop whole) + exponent by omega, List.take_add,
      List.drop_drop, hMantissa, List.append_assoc]
  have hStop (b : UInt8) (hb : rest.head? = some b) :
      Bytes.isDigit b = false ∧ b ≠ 46 ∧ b ≠ 101 ∧ b ≠ 69 := by
    obtain ⟨rest, rfl⟩ : ∃ more, rest = b :: more := by cases rest <;> simp_all
    refine ⟨not_isDigit hRest b rfl, by have := hRest.2.2.2; simpa using this, ?_, ?_⟩
    · rintro rfl
      exact absurd hRest.1 (by decide)
    · rintro rfl
      exact absurd hRest.1 (by decide)
  have hFraction : fractionWidth ((text.take width ++ rest).drop whole) =
      fractionWidth (text.drop whole) := by
    rw [hMiddle]
    refine fractionWidth_respell fun b hb => ?_
    cases exponent with
    | zero => exact ⟨(hStop b (by simpa using hb)).1, (hStop b (by simpa using hb)).2.1⟩
    | succ n =>
      obtain ⟨e, sign, digits, hText, hLetter, -⟩ := exponentWidth_pos hExponent
      rw [hText] at hb
      obtain rfl : e = b := by simpa using hb
      have : e = 101 ∨ e = 69 := by simpa using hLetter
      rcases this with rfl | rfl <;> decide
  unfold scanDecimal
  dsimp only
  rw [hFraction, hMantissa, hTail,
    exponentWidth_respell hExponent fun b hb => ⟨(hStop b hb).1, (hStop b hb).2.2⟩]
  dsimp only
  rw [← hSum, List.drop_left' (List.length_take_of_le hWidth),
    List.take_left' (List.length_take_of_le hWidth), ← hValue]
  cases rest with
  | nil => rfl
  | cons b rest =>
    have : Word.isStartByte b = false := by
      have := hRest.1
      simp only [Word.isPartByte] at this
      grind
    simp [this]

/-- A numeral is read again in front of a text that does not continue it. -/
theorem scan_respell {b : UInt8} {text : Bytes} {width : Nat} {value : Binary64} {rest : Bytes}
    (hStart : Bytes.isDigit b = true ∨ b = 46) (h : scan (b :: text) = .ok (width, value))
    (hRest : Stops false rest) :
    scan ((b :: text).take width ++ rest) = .ok (width, value) := by
  have hPos := scan_pos hStart h
  have hWidth : width ≤ (b :: text).length := by
    have := scan_within (b :: text) (by simp)
    rw [h] at this
    simpa [Scan.Within] using this
  have hTake : (b :: text).take width = b :: text.take (width - 1) := by
    rw [← List.take_succ_cons]
    congr 1
    omega
  unfold scan at h
  split at h
  · rename_i afterMark heq
    obtain ⟨rfl, rfl⟩ := List.cons.inj heq
    obtain ⟨hTwo, hAgain⟩ := scanHex_respell h hRest
    obtain ⟨n, rfl⟩ := Nat.exists_eq_add_of_le' hTwo
    simpa [scan] using hAgain
  · rename_i afterMark heq
    obtain ⟨rfl, rfl⟩ := List.cons.inj heq
    obtain ⟨hTwo, hAgain⟩ := scanHex_respell h hRest
    obtain ⟨n, rfl⟩ := Nat.exists_eq_add_of_le' hTwo
    simpa [scan] using hAgain
  · rename_i hLower hUpper
    -- No mark of a hexadecimal numeral comes up, neither from the text nor from what follows.
    have hMark (c : UInt8) (more : Bytes) (hc : c = 120 ∨ c = 88) :
        (b :: text).take width ++ rest ≠ 48 :: c :: more := by
      rw [hTake, List.cons_append]
      intro hCons
      obtain ⟨rfl, hEq⟩ := List.cons.inj hCons
      cases hTail : text.take (width - 1) with
      | nil =>
        rw [hTail, List.nil_append] at hEq
        subst hEq
        rcases hc with rfl | rfl
        · exact absurd hRest.1 (by decide)
        · exact absurd hRest.1 (by decide)
      | cons d tail =>
        rw [hTail] at hEq
        obtain rfl : d = c := (List.cons.inj hEq).1
        obtain ⟨after, hText⟩ : ∃ after, text = d :: after := by
          cases text with
          | nil => simp at hTail
          | cons e text =>
            obtain ⟨n, hn⟩ : ∃ n, width - 1 = n + 1 := by
              cases hn : width - 1 with
              | zero => simp [hn] at hTail
              | succ n => exact ⟨n, rfl⟩
            rw [hn, List.take_succ_cons] at hTail
            exact ⟨text, by rw [(List.cons.inj hTail).1]⟩
        rcases hc with rfl | rfl
        · exact hLower after (by rw [hText])
        · exact hUpper after (by rw [hText])
    dsimp only at h
    have hWhole : (b :: text).takeWhile Bytes.isDigit =
        ((b :: text).take width ++ rest).takeWhile Bytes.isDigit := by
      refine (takeWhile_take_respell ?_ (not_isDigit hRest)).symm
      split at h
      · split at h
        · cases h
        · simp only [Except.ok.injEq, Prod.mk.injEq] at h
          exact Nat.le_of_eq h.1
      · have := scanDecimal_ge h
        omega
    unfold scan
    split
    · rename_i heq
      exact absurd heq (hMark _ _ (.inl rfl))
    · rename_i heq
      exact absurd heq (hMark _ _ (.inr rfl))
    · dsimp only
      rw [← hWhole]
      split
      · rename_i hOctal
        rw [if_pos hOctal] at h
        exact h
      · rename_i hOctal
        rw [if_neg hOctal] at h
        exact scanDecimal_respell h hWidth hRest

/-- The text stands for the number in front of every text that does not continue it. -/
structure Spells (raw : Bytes) (value : Binary64) : Prop where
  starts : ∃ b tail, raw = b :: tail ∧ (Bytes.isDigit b = true ∨
    b = 46 ∧ ∃ d more, tail = d :: more ∧ Bytes.isDigit d = true)
  scan {rest : Bytes} : Stops false rest → scan (raw ++ rest) = .ok (raw.length, value)

/-- What begins a numeral does so in front of any text. -/
theorem begins_append {b : UInt8} {tail : Bytes} (h : Bytes.isDigit b = true ∨
    b = 46 ∧ ∃ d more, tail = d :: more ∧ Bytes.isDigit d = true) (rest : Bytes) :
    Bytes.isDigit b = true ∨ b = 46 ∧ Bytes.isDigit ((tail ++ rest).headD 0) = true := by
  refine h.imp_right ?_
  rintro ⟨rfl, d, more, rfl, hDigit⟩
  exact ⟨rfl, hDigit⟩

/-- What was scanned as a numeral spells its number. -/
theorem spells_of_scan {b : UInt8} {rest : Bytes} {width : Nat} {value : Binary64}
    (hStart : Bytes.isDigit b = true ∨ b = 46 ∧ Bytes.isDigit (rest.headD 0) = true)
    (h : scan (b :: rest) = .ok (width, value)) : Spells ((b :: rest).take width) value := by
  have hByte : Bytes.isDigit b = true ∨ b = 46 := hStart.imp_right And.left
  have hPos := scan_pos hByte h
  have hWidth : width ≤ (b :: rest).length := by
    have := scan_within (b :: rest) (by simp)
    rw [h] at this
    simpa [Scan.Within] using this
  have hTake : (b :: rest).take width = b :: rest.take (width - 1) := by
    rw [← List.take_succ_cons]
    congr 1
    omega
  refine ⟨⟨b, rest.take (width - 1), hTake, hStart.imp_right ?_⟩, fun hRest => ?_⟩
  · rintro ⟨rfl, hDigit⟩
    refine ⟨rfl, ?_⟩
    cases rest with
    | nil => exact absurd hDigit (by decide)
    | cons d rest =>
      replace hDigit : Bytes.isDigit d = true := hDigit
      -- The digit after the point is part of the fraction.
      have hTwo : 2 ≤ width := by
        have hWhole : (46 :: d :: rest).takeWhile Bytes.isDigit = [] :=
          List.takeWhile_cons_of_neg (by decide)
        unfold scan at h
        simp only [hWhole] at h
        rw [if_neg (by decide)] at h
        have := scanDecimal_ge h
        simp only [List.length_nil, List.drop_zero, fractionWidth, List.takeWhile_cons, hDigit,
          if_true, List.length_cons] at this
        omega
      refine ⟨d, rest.take (width - 2), ?_, hDigit⟩
      rw [← List.take_succ_cons]
      congr 1
      omega
  · rw [List.length_take_of_le hWidth]
    exact scan_respell hByte h hRest

end Numeral

/-! ### Line breaks -/

/-- No line separator goes over an ASCII byte, so what stands behind one does not matter. -/
theorem startsWithLineSeparator_local {q : UInt8} (hAscii : q < 0x80) (body r r' : Bytes) :
    startsWithLineSeparator (body ++ q :: r) = startsWithLineSeparator (body ++ q :: r') := by
  have three (a b c : UInt8) (x y : Bytes) :
      startsWithLineSeparator (a :: b :: c :: x) = startsWithLineSeparator (a :: b :: c :: y) := by
    by_cases h : a = 0xE2 ∧ b = 0x80
    · obtain ⟨rfl, rfl⟩ := h
      rfl
    · unfold startsWithLineSeparator
      grind
  have hByte : q ≠ 0xE2 ∧ q ≠ 0x80 := by
    refine ⟨?_, ?_⟩ <;> rintro rfl <;> exact absurd hAscii (by decide)
  match body with
  | [] => unfold startsWithLineSeparator; grind
  | [a] => unfold startsWithLineSeparator; grind
  | [a, b] => exact three a b q r r'
  | a :: b :: c :: body => exact three a b c _ _

theorem startsWithLineBreak_local {q : UInt8} (hAscii : q < 0x80) (b : UInt8) (body r r' : Bytes) :
    startsWithLineBreak (b :: (body ++ q :: r)) = startsWithLineBreak (b :: (body ++ q :: r')) := by
  have hSeparator := startsWithLineSeparator_local hAscii (b :: body) r r'
  simp only [List.cons_append] at hSeparator
  rw [startsWithLineBreak, startsWithLineBreak, hSeparator]

/-! ### String literals -/

namespace StringLiteral

theorem escape_ne_close (text : Bytes) : escape text ≠ .close := by
  fun_cases escape text <;> simp

theorem turn_close {quote b : UInt8} {rest : Bytes} (h : turn quote (b :: rest) = .close) :
    b = quote := by
  rw [turn] at h
  split at h
  · assumption
  split at h
  · cases h
  split at h
  · exact absurd h (escape_ne_close rest)
  · cases h

/-- A quote, single or double. -/
def IsQuote (q : UInt8) : Prop := q = 34 ∨ q = 39

theorem IsQuote.ascii {q : UInt8} (h : IsQuote q) : q < 0x80 := by
  rcases h with rfl | rfl <;> decide

/- No escape looks past the closing quote: no quote is a digit, a part of a longer sequence or the
start of another escape. -/
variable {q : UInt8} (hQuote : IsQuote q) (body r r' : Bytes)

include hQuote

theorem decode_local : Utf8.decode (body ++ q :: r) = Utf8.decode (body ++ q :: r') := by
  have hAscii := hQuote.ascii
  have hMore : Utf8.isContinuation q = false := by rcases hQuote with rfl | rfl <;> decide
  -- No lead byte takes a quote as its second byte, whatever it asks of that one.
  have hLow (a b c : UInt8) (hc : 0x80 ≤ c) : ¬(if a = b then c else 0x80) ≤ q := by
    split
    · exact UInt8.not_le.2 (UInt8.lt_of_lt_of_le hAscii hc)
    · exact UInt8.not_le.2 hAscii
  have hEnd (r : Bytes) : Utf8.decode? (body ++ q :: r) = Utf8.decode? (body ++ [q]) := by
    match body, r with
    | [], _ => simp [Utf8.decode?, hAscii]
    | [a], [] => rfl
    | [a], [x] => simp [Utf8.decode?, hMore, hLow]
    | [a], x :: y :: r => simp [Utf8.decode?, hMore, hLow]
    | [a, b], [] => rfl
    | [a, b], x :: r => unfold Utf8.decode?; grind
    | [a, b, c], r => unfold Utf8.decode?; grind
    | a :: b :: c :: d :: body, r => unfold Utf8.decode?; grind
  rw [Utf8.decode, Utf8.decode, hEnd r, hEnd r']

theorem hex_local (n : Nat) :
    Bytes.hex? ((body ++ q :: r).take n) =
      if n ≤ body.length then Bytes.hex? (body.take n) else none := by
  split
  · rename_i hn
    rw [List.take_append_of_le_length hn]
  · rename_i hn
    have hDigit : Bytes.isHexDigit q = false := by rcases hQuote with rfl | rfl <;> decide
    have hMem : q ∈ (body ++ q :: r).take n := by
      rw [List.take_append]
      refine List.mem_append_right _ ?_
      rw [show n - body.length = n - body.length - 1 + 1 by omega, List.take_succ_cons]
      exact List.mem_cons_self
    have : ((body ++ q :: r).take n).all Bytes.isHexDigit = false := by
      rw [List.all_eq_false]
      exact ⟨q, hMem, by simp [hDigit]⟩
    simp [Bytes.hex?, this]

theorem lowHalf_local :
    escape.lowHalf? (body ++ q :: r) = escape.lowHalf? (body ++ q :: r') := by
  have hHex (r : Bytes) (h : 2 ≤ body.length) :
      Bytes.hex? (((body ++ q :: r).drop 2).take 4) =
        if 4 ≤ (body.drop 2).length then Bytes.hex? ((body.drop 2).take 4) else none := by
    rw [List.drop_append_of_le_length h, hex_local hQuote]
  have hNone (r : Bytes) (h : body.length < 6) : escape.lowHalf? (body ++ q :: r) = none := by
    unfold escape.lowHalf?
    split
    · rename_i hMark
      simp only [Bool.and_eq_true, decide_eq_true_eq] at hMark
      match body with
      | [] => rcases hQuote with rfl | rfl <;> simp at hMark
      | [a] => rcases hQuote with rfl | rfl <;> simp at hMark
      | a :: b :: body =>
        rw [hHex r (by simp), if_neg (by simp at h ⊢; omega)]
    · rfl
  by_cases h : body.length < 6
  · rw [hNone r h, hNone r' h]
  · unfold escape.lowHalf?
    rw [List.take_append_of_le_length (by omega), List.take_append_of_le_length (by omega),
      hHex r (by omega), hHex r' (by omega)]
    have hLength (r : Bytes) : decide ((body ++ q :: r).length ≥ 6) = true := by
      simp only [List.length_append, decide_eq_true_eq]
      omega
    rw [hLength, hLength]

theorem octalWidth_local :
    octalWidth (body ++ q :: r) = octalWidth (body ++ q :: r') ∧
      octalWidth (body ++ q :: r) ≤ body.length := by
  have hDigit : Bytes.isOctalDigit q = false := by rcases hQuote with rfl | rfl <;> decide
  have hRun (r : Bytes) :
      (body ++ q :: r).takeWhile Bytes.isOctalDigit = body.takeWhile Bytes.isOctalDigit := by
    have hHead (b : UInt8) (hb : (q :: r).head? = some b) : Bytes.isOctalDigit b = false := by
      obtain rfl : q = b := by simpa using hb
      exact hDigit
    have := takeWhile_take_respell
      (List.takeWhile_prefix Bytes.isOctalDigit (l := body)).length_le hHead
    rwa [List.take_length] at this
  have hLength := (List.takeWhile_prefix Bytes.isOctalDigit (l := body)).length_le
  unfold octalWidth
  cases body with
  | nil =>
    dsimp only
    rw [hRun r, hRun r']
    exact ⟨rfl, by simp⟩
  | cons d body =>
    simp only [List.cons_append] at hRun ⊢
    rw [hRun r, hRun r']
    exact ⟨rfl, by omega⟩

theorem escape_local : escape (body ++ q :: r) = escape (body ++ q :: r') := by
  cases body with
  | nil =>
    rcases hQuote with rfl | rfl <;> rfl
  | cons c body =>
    have hSeparator := startsWithLineSeparator_local hQuote.ascii (c :: body) r r'
    have hDecode := decode_local hQuote (c :: body) r r'
    have hOctal := octalWidth_local hQuote (c :: body) r r'
    have hDigits (r : Bytes) (n : Nat) (h : n ≤ body.length + 1) :
        (c :: (body ++ q :: r)).take n = (c :: body).take n := by
      rw [← List.cons_append, List.take_append_of_le_length (by simpa using h)]
    simp only [List.cons_append] at hSeparator hDecode hOctal ⊢
    have hHead : (body ++ q :: r).head? = (body ++ q :: r').head? := by cases body <;> rfl
    have hLong (r : Bytes) (n : Nat) (h : n ≤ body.length) : ¬(body ++ q :: r).length < n := by
      simp only [List.length_append]
      omega
    unfold escape
    dsimp only
    rw [hSeparator, hHead, hDecode, hOctal.1]
    split
    · rfl
    split
    · rfl
    split
    · rfl
    split
    · rw [hex_local hQuote, hex_local hQuote]
      by_cases h : 2 ≤ body.length
      · simp only [h, if_true, hLong r 2 h, hLong r' 2 h]
      · simp only [h, if_false]
    split
    · rw [hex_local hQuote, hex_local hQuote]
      by_cases h : 4 ≤ body.length
      · simp only [h, if_true, hLong r 4 h, hLong r' 4 h]
        rw [List.drop_append_of_le_length h, List.drop_append_of_le_length h,
          lowHalf_local hQuote _ r r']
      · simp only [h, if_false]
    split
    · have hWidth : octalWidth (c :: (body ++ q :: r')) ≤ body.length + 1 := by
        rw [← hOctal.1]
        exact hOctal.2
      rw [hDigits r _ hWidth, hDigits r' _ hWidth]
    · rfl

theorem turn_local (b : UInt8) : turn q (b :: body ++ q :: r) = turn q (b :: body ++ q :: r') := by
  simp only [List.cons_append, turn]
  rw [startsWithLineBreak_local hQuote.ascii b body r r', escape_local hQuote body r r']

/-- A literal ends with its quote, and is read again in front of any text. -/
theorem scanFrom_respell {width skip : Nat} {value text : Bytes} {stop : Nat} {result : Bytes}
    (h : scanFrom q width skip value text = .ok (stop, result)) :
    ∃ body after, text = body ++ q :: after ∧ stop = width + body.length + 1 ∧
      ∀ rest, scanFrom q width skip value (body ++ q :: rest) = .ok (stop, result) := by
  fun_induction scanFrom q width skip value text with
  | case1 => cases h
  | case2 width value b rest k ih =>
    obtain ⟨body, after, rfl, hStop, hAgain⟩ := ih h
    refine ⟨b :: body, after, rfl, by simp; omega, fun rest => ?_⟩
    rw [List.cons_append, scanFrom, hAgain]
  | case3 width value b rest hTurn =>
    cases h
    obtain rfl : b = q := turn_close hTurn
    refine ⟨[], rest, rfl, rfl, fun rest => ?_⟩
    simp [scanFrom, turn]
  | case4 => cases h
  | case5 width value b rest count piece hTurn ih =>
    obtain ⟨body, after, rfl, hStop, hAgain⟩ := ih h
    refine ⟨b :: body, after, rfl, by simp; omega, fun rest => ?_⟩
    have := turn_local hQuote body after rest b
    simp only [List.cons_append] at this
    rw [List.cons_append, scanFrom, ← this, hTurn]
    exact hAgain rest

/-- The text stands for the string in front of every text. -/
structure Spells (raw result : Bytes) : Prop where
  starts : ∃ q tail, raw = q :: tail ∧ IsQuote q
  scan (rest : Bytes) : scan (raw ++ rest) = .ok (raw.length, result)

/-- What was scanned as a string spells its value. -/
theorem spells_of_scan {rest : Bytes} {width : Nat} {result : Bytes}
    (h : scan (q :: rest) = .ok (width, result)) : Spells ((q :: rest).take width) result := by
  obtain ⟨body, after, rfl, rfl, hAgain⟩ := scanFrom_respell hQuote h
  have hTake : (q :: (body ++ q :: after)).take (1 + body.length + 1) = q :: (body ++ [q]) := by
    rw [List.take_succ_cons, Nat.add_comm 1, List.take_length_add_append]
    rfl
  rw [hTake]
  refine ⟨⟨q, _, rfl, hQuote⟩, fun rest => ?_⟩
  have := hAgain rest
  simpa [scan, Nat.add_comm] using this

end StringLiteral

/-! ### Regular expressions -/

namespace RegexLiteral

/-- The body closes with a slash, and is read again in front of any text. -/
def Closes (width depth : Nat) (inClass escaped : Bool) (text : Bytes) (closing : Nat) : Prop :=
  ∃ body after, text = body ++ 47 :: after ∧ closing = width + body.length ∧
    ∀ rest, scanBody width depth inClass escaped (body ++ 47 :: rest) = .ok (closing, ())

/-- A step that takes one byte, and looks further ahead only for a line break. -/
theorem Closes.step {width depth depth' closing : Nat} {inClass inClass' escaped escaped' : Bool}
    {b : UInt8} {rest : Bytes} (h : Closes (width + 1) depth' inClass' escaped' rest closing)
    (hTaken : ∀ more, startsWithLineBreak (b :: more) = startsWithLineBreak (b :: rest) →
      scanBody width depth inClass escaped (b :: more) =
        scanBody (width + 1) depth' inClass' escaped' more) :
    Closes width depth inClass escaped (b :: rest) closing := by
  obtain ⟨body, after, rfl, hClosing, hAgain⟩ := h
  refine ⟨b :: body, after, rfl, by simp; omega, fun rest => ?_⟩
  rw [List.cons_append, hTaken _ (startsWithLineBreak_local (by decide) b body rest after)]
  exact hAgain rest

theorem closes_of_scanBody {width depth : Nat} {inClass escaped : Bool} {text : Bytes}
    {closing : Nat} (h : scanBody width depth inClass escaped text = .ok (closing, ())) :
    Closes width depth inClass escaped text closing := by
  fun_induction scanBody width depth inClass escaped text with
  | case1 | case2 | case4 | case10 | case13 => cases h
  | case12 =>
    simp only [Except.ok.injEq, Prod.mk.injEq, and_true] at h
    refine ⟨[], _, rfl, h.symm, fun rest => ?_⟩
    have hBreak : startsWithLineBreak (47 :: rest) = false := rfl
    rw [List.nil_append, scanBody.eq_def]
    simp_all
  | case3 | case5 | case6 | case7 | case8 | case9 | case11 | case14 =>
    rename_i ih
    refine (ih h).step fun more hMore => ?_
    clear ih h
    rw [scanBody.eq_def]
    simp_all

variable [PatternCheck]

/-- What a literal with this body denotes depends on its flags only. -/
theorem scan_congr {body after after' : Bytes}
    (hBody : ∀ rest, scanBody 1 0 false false (body ++ 47 :: rest) = .ok (1 + body.length, ()))
    (hFlags : after'.takeWhile Word.isPartByte = after.takeWhile Word.isPartByte) :
    scan (47 :: (body ++ 47 :: after')) = scan (47 :: (body ++ 47 :: after)) := by
  have hTake (after : Bytes) :
      ((47 :: (body ++ 47 :: after)).take (1 + body.length)).drop 1 = body := by
    simp [Nat.add_comm 1]
  have hDrop (after : Bytes) : (47 :: (body ++ 47 :: after)).drop (1 + body.length + 1) =
      after := by
    rw [Nat.add_comm 1, List.drop_succ_cons, List.drop_length_add_append]
    rfl
  unfold scan
  simp only [List.drop_succ_cons, List.drop_zero, hBody, hTake, hDrop, hFlags]

/-- How wide a literal with this body is, and what its parts are. -/
theorem parts_of_scan {body after : Bytes} {width : Nat} {parts : Parts}
    (hBody : scanBody 1 0 false false (body ++ 47 :: after) = .ok (1 + body.length, ()))
    (h : scan (47 :: (body ++ 47 :: after)) = .ok (width, parts)) :
    width = 1 + body.length + 1 + (after.takeWhile Word.isPartByte).length ∧
      parts = ⟨body, after.takeWhile Word.isPartByte⟩ ∧ validFlags parts.flags = true := by
  have hTake : ((47 :: (body ++ 47 :: after)).take (1 + body.length)).drop 1 = body := by
    simp [Nat.add_comm 1]
  have hDrop : (47 :: (body ++ 47 :: after)).drop (1 + body.length + 1) = after := by
    rw [Nat.add_comm 1, List.drop_succ_cons, List.drop_length_add_append]
    rfl
  unfold scan at h
  simp only [List.drop_succ_cons, List.drop_zero, hBody, hTake, hDrop] at h
  split at h
  · cases h
  rename_i hFlags
  have hValid : validFlags (after.takeWhile Word.isPartByte) = true := by simpa using hFlags
  split at h
  · cases h
    exact ⟨rfl, rfl, hValid⟩
  split at h
  · cases h
  · cases h
    exact ⟨rfl, rfl, hValid⟩

/-- The text stands for the regular expression in front of every text that does not continue its
flags, and begins no comment. -/
structure Spells (raw : Bytes) (parts : Parts) : Prop where
  starts : ∃ c tail, raw = 47 :: c :: tail ∧ c ≠ 47 ∧ c ≠ 42
  scan {rest : Bytes} : Stops true rest → scan (raw ++ rest) = .ok (raw.length, parts)

/-- What was scanned as a regular expression spells it. -/
theorem spells_of_scan {text : Bytes} {width : Nat} {parts : Parts}
    (hStart : text.headD 0 ≠ 47 ∧ text.headD 0 ≠ 42) (h : scan (47 :: text) = .ok (width, parts)) :
    Spells ((47 :: text).take width) parts := by
  cases hScan : scanBody 1 0 false false text with
  | error fault => simp [scan, hScan] at h
  | ok pair =>
    obtain ⟨closing, ⟨⟩⟩ := pair
    obtain ⟨body, after, rfl, rfl, hBody⟩ := closes_of_scanBody hScan
    have hWidth := (parts_of_scan hScan h).1
    have hTake : (47 :: (body ++ 47 :: after)).take width =
        47 :: (body ++ 47 :: after.takeWhile Word.isPartByte) := by
      have hSum : width = body.length + (1 + (after.takeWhile Word.isPartByte).length) + 1 := by
        omega
      rw [hSum, List.take_succ_cons, List.take_length_add_append, Nat.add_comm 1,
        List.take_succ_cons, take_takeWhile]
    have hLength : ((47 :: (body ++ 47 :: after)).take width).length = width := by
      rw [hTake, hWidth]
      simp only [List.length_cons, List.length_append]
      omega
    refine ⟨?_, fun {rest} hRest => ?_⟩
    · rw [hTake]
      cases body with
      | nil => exact absurd rfl hStart.1
      | cons c body => exact ⟨c, _, rfl, hStart⟩
    · have hFlags : (after.takeWhile Word.isPartByte ++ rest).takeWhile Word.isPartByte =
          after.takeWhile Word.isPartByte := by
        refine takeWhile_respell after fun b hb => ?_
        cases rest with
        | nil => cases hb
        | cons c rest =>
          obtain rfl : c = b := by simpa using hb
          exact hRest.1
      have hAppend : (47 :: (body ++ 47 :: after)).take width ++ rest =
          47 :: (body ++ 47 :: (after.takeWhile Word.isPartByte ++ rest)) := by
        rw [hTake]
        simp
      rw [hLength, hAppend, scan_congr hBody hFlags, h]

end RegexLiteral

/-- What a test finds of each byte of a text, by running over the text. -/
theorem Bytes.forall_mem_of_all {P : UInt8 → Prop} [DecidablePred P] {text : Bytes}
    (h : (text.all fun b => decide (P b)) = true) : ∀ b ∈ text, P b :=
  fun b hb => of_decide_eq_true (List.all_eq_true.mp h b hb)

/-! ### Punctuators -/

namespace Punctuator

/-- The bytes that make a longer punctuator of a shorter one. -/
def extensions (p : Punctuator) : Bytes :=
  all.filterMap fun q =>
    if (Bytes.ofString p.text).isPrefixOf (Bytes.ofString q.text) then
      (Bytes.ofString q.text)[p.text.length]?
    else none

/-- No punctuator begins with one that stands before it in the list of all. -/
theorem not_isPrefixOf_of_before (p : Punctuator) : ∀ q ∈ all.takeWhile (· ≠ p),
    ¬(Bytes.ofString q.text).isPrefixOf (Bytes.ofString p.text) := by
  have hAll : ∀ p ∈ all, ∀ q ∈ all.takeWhile (· ≠ p),
      ¬(Bytes.ofString q.text).isPrefixOf (Bytes.ofString p.text) := by decide +kernel
  exact hAll p (mem_all p)

/-- A punctuator that begins with another goes on with one of its extensions. -/
theorem mem_extensions {p q : Punctuator} {b : UInt8} {tail : Bytes}
    (h : Bytes.ofString q.text = Bytes.ofString p.text ++ b :: tail) : b ∈ p.extensions := by
  refine List.mem_filterMap.2 ⟨q, mem_all q, ?_⟩
  rw [if_pos (List.isPrefixOf_iff_prefix.2 ⟨_, h.symm⟩), h, ← length_ofString_text]
  simp

/-- A blank makes no longer punctuator of any. -/
theorem blank_not_mem_extensions (p : Punctuator) : 32 ∉ p.extensions ∧ 10 ∉ p.extensions := by
  have hText : ∀ q ∈ all, 32 ∉ Bytes.ofString q.text ∧ 10 ∉ Bytes.ofString q.text := by
    decide +kernel
  have hByte {b : UInt8} (hb : b ∈ p.extensions) : ∃ q ∈ all, b ∈ Bytes.ofString q.text := by
    obtain ⟨q, hq, hNext⟩ := List.mem_filterMap.1 hb
    split at hNext
    · exact ⟨q, hq, List.mem_of_getElem? hNext⟩
    · cases hNext
  constructor
  · intro hb
    obtain ⟨q, hq, hMem⟩ := hByte hb
    exact (hText q hq).1 hMem
  · intro hb
    obtain ⟨q, hq, hMem⟩ := hByte hb
    exact (hText q hq).2 hMem

/-- A punctuator is read again in front of a text that does not extend it. -/
theorem atStart?_respell (p : Punctuator) {rest : Bytes}
    (hRest : ∀ b, rest.head? = some b → b ∉ p.extensions) :
    atStart? (Bytes.ofString p.text ++ rest) = some p := by
  refine List.find?_eq_some_iff_append.2 ⟨by simp, ?_⟩
  obtain ⟨shorter, after, hAll, hMem⟩ := List.eq_append_cons_of_mem (mem_all p)
  have hTake : all.takeWhile (· ≠ p) = shorter := by
    have hOther (q : Punctuator) (hq : q ∈ shorter) : decide (q ≠ p) = true :=
      decide_eq_true fun h => hMem (h ▸ hq)
    rw [hAll, List.takeWhile_append_of_pos hOther]
    simp
  refine ⟨shorter, after, hAll, fun q hq => ?_⟩
  have hBefore := not_isPrefixOf_of_before p q (hTake ▸ hq)
  rw [Bool.not_eq_true']
  refine Bool.eq_false_iff.2 fun hStart => ?_
  have hStart := List.isPrefixOf_iff_prefix.1 hStart
  rcases List.prefix_or_prefix_of_prefix hStart (List.prefix_append _ _) with hShort | ⟨tail, hTail⟩
  · exact hBefore (List.isPrefixOf_iff_prefix.2 hShort)
  · rw [← hTail, List.prefix_append_right_inj] at hStart
    cases tail with
    | nil => exact hBefore (by rw [← hTail]; simp)
    | cons b tail =>
      obtain ⟨more, rfl⟩ := hStart
      exact hRest b rfl (mem_extensions hTail.symm)

end Punctuator

end ScriptOptimizer
