import ScriptOptimizer.Proofs.Token.StringValue

/-!
The lexer's reading of a string literal. The value of a literal is the text of its code points: a
pair of halves whose escapes follow each other is joined, and any other half is replaced.
-/

namespace ScriptOptimizer.StringLiteral

open Utf8 (Text points)

variable {q b : UInt8} {text rest more digits value piece result : Bytes}
  {count width stop n u : Nat}

/-! ### Numbers -/

theorem hexValue?_getD (b : UInt8) : (Bytes.hexValue? b).getD 0 = digitValue b.toNat := by
  simp only [Bytes.hexValue?, digitValue, UInt8.le_iff_toNat_le, Bool.and_eq_true,
    decide_eq_true_eq]
  change (if 48 ≤ b.toNat ∧ b.toNat ≤ 57 then _ else if 97 ≤ b.toNat ∧ b.toNat ≤ 102 then _
    else if 65 ≤ b.toNat ∧ b.toNat ≤ 70 then _ else _ : Option Nat).getD 0 = _
  repeat' split
  all_goals rfl

theorem valueInBase_eq (base : Nat) (digits : Bytes) :
    Bytes.valueInBase base digits = number base (digits.map UInt8.toNat) := by
  simp only [Bytes.valueInBase, number, List.foldl_map, hexValue?_getD]

theorem hex?_reads (h : Bytes.hex? digits = some n) :
    n = number 16 (digits.map UInt8.toNat) ∧ ∀ b ∈ digits, b < 0x80 := by
  unfold Bytes.hex? at h
  split at h
  · rename_i hDigits
    refine ⟨(Option.some.inj h).symm.trans (valueInBase_eq 16 digits), fun b hb => ?_⟩
    have hDigit := List.all_eq_true.1 (Bool.and_eq_true_iff.1 hDigits).2 b hb
    simp only [Bytes.isHexDigit, Bytes.hexValue?] at hDigit
    grind
  · cases h

/-- Four hexadecimal digits behind `\u` number a unit. -/
theorem unit_reads (hText : Text more) (h : Bytes.hex? (more.take 4) = some u) :
    element (92 :: 117 :: points more) = (.unit u, 6) ∧
      (points more).drop 4 = points (more.drop 4) ∧ Text (more.drop 4) := by
  obtain ⟨hNumber, hAscii⟩ := hex?_reads h
  obtain ⟨hDrop, hTake, hPoints⟩ := hText.ascii_take hAscii
  refine ⟨?_, hPoints, hDrop⟩
  rw [hNumber, ← hTake]
  rfl

theorem lowHalf?_reads (hText : Text text) (h : escape.lowHalf? text = some u) :
    element (points text) = (.unit u, 6) ∧ (points text).head? = some 92 ∧
      (points text).drop 6 = points (text.drop 6) ∧ Text (text.drop 6) := by
  unfold escape.lowHalf? at h
  split at h
  · rename_i hFront
    simp only [Bool.and_eq_true, decide_eq_true_eq] at hFront
    match text, hFront with
    | a :: b :: more, hFront =>
      obtain ⟨rfl, rfl⟩ : a = 92 ∧ b = 117 := by simpa using hFront.1
      obtain ⟨hTail, hPoints⟩ := hText.ascii (by decide)
      obtain ⟨hMore, hPoints'⟩ := hTail.ascii (by decide)
      obtain ⟨hElement, hDrop, hAfter⟩ := unit_reads hMore h
      rw [hPoints, hPoints']
      exact ⟨hElement, rfl, hDrop, hAfter⟩
  · cases h

/-! ### Escapes -/

/-- The lexer takes an escape as the language reads it, or two of them that are a pair: `e` is the
piece there, `after` the text behind it. -/
inductive Takes (text : Bytes) : Nat → Bytes → Element → Bytes → Prop
  | one {e : Element} {after : Bytes} {count : Nat} : text.drop count = after →
      (∀ u, e = .unit u → (escape.lowHalf? after).bind (Utf16.pair? u) = none) →
      Takes text count ((Element.characters [e]).flatMap Utf8.encode) e after
  | two {after : Bytes} {u v rune count : Nat} : escape.lowHalf? after = some v →
      Utf16.pair? u v = some rune → text.drop count = after.drop 6 →
      Takes text count (Utf8.encode rune) (.unit u) after

theorem isOctalDigit_eq (b : UInt8) : Bytes.isOctalDigit b = isOctal b.toNat := by
  simp [Bytes.isOctalDigit, isOctal, UInt8.le_iff_toNat_le]

theorem octal_reads {c : UInt8} (hText : Text (c :: more)) :
    ((points (c :: more)).takeWhile isOctal).take (if c > 51 then 2 else 3) =
        ((c :: more).take (octalWidth (c :: more))).map UInt8.toNat ∧
      octalWidth (c :: more) ≤ (c :: more).length ∧
      ∀ b ∈ (c :: more).take (octalWidth (c :: more)), b < 0x80 := by
  have hAscii (n : Nat) (h : isOctal n = true) : n < 0x80 := by
    simp only [isOctal, Bool.and_eq_true, decide_eq_true_eq] at h
    omega
  have hDigits : (c :: more).takeWhile Bytes.isOctalDigit <+: c :: more := List.takeWhile_prefix _
  have hTake : (c :: more).take (octalWidth (c :: more)) =
      ((c :: more).takeWhile Bytes.isOctalDigit).take (if c > 51 then 2 else 3) := by
    have := congrArg (List.take (if c > 51 then 2 else 3)) (List.prefix_iff_eq_take.1 hDigits)
    rw [this, List.take_take, Nat.min_comm]
    rfl
  have hPoints := hText.takeWhile_points isOctal hAscii
  rw [show (fun b : UInt8 => isOctal b.toNat) = Bytes.isOctalDigit from
    funext fun b => (isOctalDigit_eq b).symm] at hPoints
  refine ⟨?_, ?_, fun b hb => ?_⟩
  · rw [hPoints, hTake, List.map_take]
  · exact Nat.le_trans (Nat.min_le_left _ _) hDigits.length_le
  · rw [hTake] at hb
    have hb := List.all_eq_true.1 List.all_takeWhile b (List.mem_of_mem_take hb)
    rw [isOctalDigit_eq] at hb
    exact UInt8.lt_iff_toNat_lt.2 (hAscii _ hb)

theorem controlEscape?_some {c control : UInt8} (h : controlEscape? c = some control) :
    control.toNat = escaped c.toNat ∧ control < 0x80 := by
  unfold controlEscape? at h
  split at h <;> cases h <;> exact ⟨rfl, by decide⟩

theorem controlEscape?_none {c : UInt8} (h : controlEscape? c = none) :
    escaped c.toNat = c.toNat := by
  have hNot (control : UInt8) (hSome : controlEscape? control ≠ none) : c.toNat ≠ control.toNat :=
    fun hc => hSome (UInt8.toNat_inj.1 hc ▸ h)
  unfold escaped
  split <;> rename_i hc
  · exact absurd hc (hNot 110 (by decide))
  · exact absurd hc (hNot 116 (by decide))
  · exact absurd hc (hNot 114 (by decide))
  · exact absurd hc (hNot 98 (by decide))
  · exact absurd hc (hNot 102 (by decide))
  · exact absurd hc (hNot 118 (by decide))
  · rfl

/-- A line separator at the front of a text is three bytes of it. -/
theorem separator_reads (hText : Text rest) (h : startsWithLineSeparator rest = true) :
    ∃ n ∈ [0x2028, 0x2029], points rest = n :: points (rest.drop 3) ∧ Text (rest.drop 3) := by
  unfold startsWithLineSeparator at h
  split at h
  · rename_i c more
    have hSequence : ∃ n ∈ [0x2028, 0x2029], Utf8.decode? [0xE2, 0x80, c] = some (n, 3) := by
      rcases (by simpa using h : c = 0xA8 ∨ c = 0xA9) with rfl | rfl
      · exact ⟨0x2028, by decide, rfl⟩
      · exact ⟨0x2029, by decide, rfl⟩
    obtain ⟨n, hn, hDecode⟩ := hSequence
    exact ⟨n, hn, Utf8.points_append hDecode, hText.tail hDecode⟩
  · cases h

theorem not_separator {n : Nat} (hText : Text rest) (h : startsWithLineSeparator rest = false)
    (hHead : (points rest).head? = some n) : n ∉ [0x2028, 0x2029] := by
  cases hText with
  | nil => cases hHead
  | @cons character more rune hDecode hMore =>
    rw [Utf8.points_append hDecode] at hHead
    obtain rfl := Option.some.inj hHead
    rw [← Utf8.encode_of_decode? hDecode] at h
    intro hn
    rcases (by simpa using hn : rune = 0x2028 ∨ rune = 0x2029) with rfl | rfl <;> cases h

theorem Takes.nothing {count : Nat} : Takes text count [] .nothing (text.drop count) :=
  .one rfl (nofun : ∀ u, Element.nothing = .unit u → _)

theorem Takes.character {count n : Nat} :
    Takes text count (Utf8.encode n) (.character n) (text.drop count) := by
  have h : Takes text count _ (.character n) (text.drop count) := .one rfl nofun
  rwa [Element.characters, Element.characters, List.flatMap_cons, List.flatMap_nil,
    List.append_nil] at h

theorem Takes.lone {count u : Nat}
    (h : (escape.lowHalf? (text.drop count)).bind (Utf16.pair? u) = none) :
    Takes text count (Utf8.encode u) (.unit u) (text.drop count) := by
  have h : Takes text count _ (.unit u) (text.drop count) := .one rfl fun v hv => by
    obtain rfl := Element.unit.inj hv
    exact h
  have hOne : Element.characters [.unit u] = [u] := by simp [Element.characters]
  rwa [hOne, List.flatMap_singleton] at h

/-- What the lexer takes behind a backslash is what the language reads there. -/
def Agrees (rest : Bytes) (count : Nat) (piece : Bytes) : Prop :=
  ∃ e k after, element (92 :: points rest) = (e, k) ∧
    (92 :: points rest).drop k = points after ∧ Text after ∧ Takes (92 :: rest) count piece e after

theorem element_plain {n : Nat} (ns : List Nat) (h : n ∉ [10, 13, 120, 117, 0x2028, 0x2029])
    (hOctal : isOctal n = false) : element (92 :: n :: ns) = (.character (escaped n), 2) := by
  simp only [List.mem_cons, List.not_mem_nil, or_false, not_or] at h
  simp [element, h, hOctal]

theorem element_octal {n : Nat} (ns : List Nat) (h : isOctal n = true) :
    element (92 :: n :: ns) =
      let digits := ((n :: ns).takeWhile isOctal).take (if n > 51 then 2 else 3)
      (.character (number 8 digits), 1 + digits.length) := by
  have hRange := h
  simp only [isOctal, Bool.and_eq_true, decide_eq_true_eq] at hRange
  rw [element, if_neg (by simp; omega), if_neg (by omega), if_neg (by omega), if_neg (by omega),
    if_pos h]

/-- A character that is not ASCII stands for itself behind a backslash. -/
theorem escape_high {c : UInt8} (hText : Text (c :: more)) (hHigh : ¬c < 0x80)
    (hSeparator : startsWithLineSeparator (c :: more) = false)
    (h : escape (c :: more) = .take count piece) : Agrees (c :: more) count piece := by
  obtain ⟨character, after, rune, hFront, hDecode, -, hRune, hAfter⟩ := hText.high hHigh
  have hPoints : points (c :: more) = rune :: points after := by
    rw [hFront, Utf8.points_append hDecode]
  have hNot := not_separator hText hSeparator (n := rune) (by rw [hPoints]; rfl)
  have hPlain : element (92 :: rune :: points after) = (.character rune, 2) := by
    have hOctal : isOctal rune = false := by
      rw [isOctal, Bool.and_eq_false_iff, decide_eq_false_iff_not, decide_eq_false_iff_not]
      omega
    rw [element_plain _ (by simp at hNot ⊢; omega) hOctal]
    unfold escaped
    split <;> first | omega | rfl
  have hDecode : Utf8.decode (c :: more) = (rune, character.length) := by
    rw [hFront, Utf8.decode, Utf8.decode?_append after hDecode]
    rfl
  have hControl : controlEscape? c = none := by
    unfold controlEscape?
    grind
  have hOctal : Bytes.isOctalDigit c = false := by
    unfold Bytes.isOctalDigit
    grind
  rw [escape, hSeparator, if_neg (by simp), if_neg (by grind), if_neg (by grind), if_neg (by grind),
    if_neg (by grind), hOctal, if_neg (by simp), hControl, hDecode] at h
  cases h
  have hDrop : (92 :: c :: more).drop (1 + character.length) = after := by
    rw [Nat.add_comm 1, List.drop_succ_cons, hFront, List.drop_left]
  refine ⟨_, _, _, hPoints ▸ hPlain, ?_, ?_, .character⟩
  · rw [hDrop, hPoints]
    rfl
  · rwa [hDrop]

/-- A line that goes on after a carriage return, which takes a line feed with it. -/
theorem escape_return (hText : Text (13 :: more))
    (h : escape (13 :: more) = .take count piece) : Agrees (13 :: more) count piece := by
  obtain ⟨hMore, hPoints⟩ := hText.ascii (by decide)
  unfold Agrees
  rw [hPoints]
  rw [escape, if_neg (by simp [startsWithLineSeparator]), if_neg (by decide), if_pos rfl] at h
  cases h
  have hHead : (points more).head? = some 10 ↔ more.head? = some 10 :=
    hMore.head?_points 10 (by decide)
  by_cases hNext : more.head? = some 10
  · obtain ⟨more, rfl⟩ : ∃ rest, more = 10 :: rest := List.head?_eq_some_iff.1 hNext
    obtain ⟨hRest, hPoints⟩ := hMore.ascii (by decide)
    rw [hPoints, if_pos hNext]
    exact ⟨_, _, _, rfl, rfl, hRest, .nothing⟩
  · rw [if_neg hNext]
    refine ⟨.nothing, 2, _, ?_, rfl, hMore, .nothing⟩
    rw [element, if_neg (by decide), if_pos (by decide), if_neg (hNext ∘ hHead.1)]

/-- A character by two hexadecimal digits. -/
theorem escape_hex (hText : Text (120 :: more))
    (h : escape (120 :: more) = .take count piece) : Agrees (120 :: more) count piece := by
  obtain ⟨hMore, hPoints⟩ := hText.ascii (by decide)
  unfold Agrees
  rw [hPoints]
  rw [escape, if_neg (by simp [startsWithLineSeparator]), if_neg (by decide), if_neg (by decide),
    if_pos rfl] at h
  split at h
  · split at h
    · cases h
    · cases h
      rename_i hNumber _
      obtain ⟨rfl, hDigits⟩ := hex?_reads hNumber
      obtain ⟨hDrop, hTake, hAfter⟩ := hMore.ascii_take hDigits
      rw [← hTake]
      exact ⟨_, _, _, rfl, hAfter, hDrop, .character⟩
  · cases h

/-- A code unit by four hexadecimal digits, or a pair of them. -/
theorem escape_unit (hText : Text (117 :: more))
    (h : escape (117 :: more) = .take count piece) : Agrees (117 :: more) count piece := by
  obtain ⟨hMore, hPoints⟩ := hText.ascii (by decide)
  unfold Agrees
  rw [hPoints]
  rw [escape, if_neg (by simp [startsWithLineSeparator]), if_neg (by decide), if_neg (by decide),
    if_neg (by decide), if_pos rfl] at h
  split at h
  · rename_i unit hNumber
    obtain ⟨hElement, hDrop, hAfter⟩ := unit_reads hMore hNumber
    split at h
    · cases h
    split at h
    · rename_i rune hPair
      cases h
      obtain ⟨low, hLow, hPair⟩ := Option.bind_eq_some_iff.1 hPair
      refine ⟨_, _, _, hElement, hDrop, hAfter, .two hLow hPair ?_⟩
      rw [List.drop_drop]
      rfl
    · rename_i hLone
      cases h
      exact ⟨_, _, _, hElement, hDrop, hAfter, .lone hLone⟩
  · cases h

/-- A character by octal digits. -/
theorem escape_octal {c : UInt8} (hText : Text (c :: more)) (hAscii : c < 0x80)
    (hOctal : Bytes.isOctalDigit c = true) :
    Agrees (c :: more) (1 + octalWidth (c :: more))
      (Utf8.encode (Bytes.valueInBase 8 ((c :: more).take (octalWidth (c :: more))))) := by
  obtain ⟨-, hPoints⟩ := hText.ascii hAscii
  obtain ⟨hDigits, hWidth, hLow⟩ := octal_reads hText
  obtain ⟨hDrop, -, hAfter⟩ := hText.ascii_take hLow
  have hCount : (((points (c :: more)).takeWhile isOctal).take (if c > 51 then 2 else 3)).length =
      octalWidth (c :: more) := by
    rw [hDigits, List.length_map, List.length_take_of_le hWidth]
  have hLength : ((92 :: c :: more).drop (1 + octalWidth (c :: more))) =
      (c :: more).drop (octalWidth (c :: more)) := by
    rw [Nat.add_comm 1, List.drop_succ_cons]
  unfold Agrees
  rw [valueInBase_eq, ← hDigits]
  rw [hPoints] at hAfter hCount ⊢
  refine ⟨_, 1 + octalWidth (c :: more), _, ?_, ?_, hLength ▸ hDrop, .character⟩
  · have hLimit : (if c > 51 then 2 else 3) = if c.toNat > 51 then 2 else 3 := by
      simp [UInt8.lt_iff_toNat_lt]
    rw [← hCount, hLimit, element_octal _ (isOctalDigit_eq c ▸ hOctal)]
  · rw [hLength, ← hAfter, Nat.add_comm 1, List.drop_succ_cons]

/-- An escape that begins with an ASCII character. -/
theorem escape_ascii {c : UInt8} (hText : Text (c :: more)) (hAscii : c < 0x80)
    (hSeparator : startsWithLineSeparator (c :: more) = false)
    (h : escape (c :: more) = .take count piece) : Agrees (c :: more) count piece := by
  obtain ⟨hMore, hPoints⟩ := hText.ascii hAscii
  by_cases hReturn : c = 13
  · subst hReturn
    exact escape_return hText h
  by_cases hHex : c = 120
  · subst hHex
    exact escape_hex hText h
  by_cases hUnit : c = 117
  · subst hUnit
    exact escape_unit hText h
  rw [escape, hSeparator, if_neg (by simp)] at h
  by_cases hFeed : c = 10
  · subst hFeed
    rw [if_pos rfl] at h
    cases h
    unfold Agrees
    rw [hPoints]
    exact ⟨_, _, _, rfl, rfl, hMore, .nothing⟩
  rw [if_neg hFeed, if_neg hReturn, if_neg hHex, if_neg hUnit] at h
  by_cases hOctal : Bytes.isOctalDigit c = true
  · rw [if_pos hOctal] at h
    cases h
    exact escape_octal hText hAscii hOctal
  · rw [if_neg hOctal] at h
    unfold Agrees
    rw [hPoints]
    have hPlain : element (92 :: c.toNat :: points more) = (.character (escaped c.toNat), 2) := by
      have hNe {b : UInt8} (h : c ≠ b) : c.toNat ≠ b.toNat := fun hEq => h (UInt8.toNat_inj.1 hEq)
      have hFeed : c.toNat ≠ 10 := hNe hFeed
      have hReturn : c.toNat ≠ 13 := hNe hReturn
      have hHex : c.toNat ≠ 120 := hNe hHex
      have hUnit : c.toNat ≠ 117 := hNe hUnit
      have hLow : c.toNat < 128 := UInt8.lt_iff_toNat_lt.1 hAscii
      refine element_plain _ ?_ (isOctalDigit_eq c ▸ Bool.eq_false_iff.2 hOctal)
      simp only [List.mem_cons, List.not_mem_nil, or_false]
      omega
    split at h
    · rename_i control hControl
      cases h
      obtain ⟨hValue, hLow⟩ := controlEscape?_some hControl
      rw [← Utf8.encode_toNat hLow, hValue]
      exact ⟨_, _, _, hPlain, rfl, hMore, .character⟩
    · rename_i hControl
      rw [controlEscape?_none hControl] at hPlain
      have hDecode : Utf8.decode (c :: more) = (c.toNat, 1) := by
        simp [Utf8.decode, Utf8.decode?, hAscii]
      rw [hDecode] at h
      cases h
      exact ⟨_, _, _, hPlain, rfl, hMore, .character⟩

theorem escape_reads (hText : Text rest) (h : escape rest = .take count piece) :
    Agrees rest count piece := by
  cases rest with
  | nil => cases h
  | cons c more =>
    cases hSeparator : startsWithLineSeparator (c :: more) with
    | true =>
      obtain ⟨n, hn, hPoints, hAfter⟩ := separator_reads hText hSeparator
      rw [escape, hSeparator, if_pos rfl] at h
      cases h
      unfold Agrees
      rw [hPoints]
      refine ⟨.nothing, 2, _, ?_, rfl, hAfter, .nothing⟩
      rw [element, if_pos (List.mem_cons_of_mem _ hn)]
    | false =>
      by_cases hAscii : c < 0x80
      · exact escape_ascii hText hAscii hSeparator h
      · exact escape_high hText hAscii hSeparator h

/-! ### Bodies -/

theorem scanFrom_skip {skip : Nat} {r : Nat × Bytes}
    (h : scanFrom q width skip value text = .ok r) :
    scanFrom q (width + skip) 0 value (text.drop skip) = .ok r := by
  induction skip generalizing width text with
  | zero => exact h
  | succ skip ih =>
    cases text with
    | nil => cases h
    | cons b rest =>
      have hrest : scanFrom q (width + 1 + skip) 0 value (rest.drop skip) = .ok r := ih h
      rwa [Nat.add_right_comm] at hrest

theorem turn_take (h : turn q (b :: rest) = .take count piece) : 0 < count := by
  rw [turn] at h
  split at h
  · cases h
  split at h
  · cases h
  split at h
  · revert h
    fun_cases escape rest
    all_goals intro h; cases h
    all_goals try omega
    split <;> omega
  · cases h
    decide

theorem scanFrom_take {r : Nat × Bytes} (hTurn : turn q (b :: rest) = .take count piece)
    (h : scanFrom q width 0 value (b :: rest) = .ok r) :
    scanFrom q (width + count) 0 (piece.reverse ++ value) ((b :: rest).drop count) = .ok r := by
  have hPos := turn_take hTurn
  rw [scanFrom, hTurn] at h
  obtain ⟨k, rfl⟩ := Nat.exists_eq_succ_of_ne_zero (Nat.ne_of_gt hPos)
  have := scanFrom_skip h
  rwa [Nat.add_assoc, Nat.add_comm 1] at this

/-- Bytes of sequences are taken as they are. -/
theorem scanFrom_high (hQuote : IsQuote q) {front : Bytes} {r : Nat × Bytes}
    (hHigh : ∀ b ∈ front, 0x80 ≤ b.toNat) (h : scanFrom q width 0 value (front ++ rest) = .ok r) :
    ∃ width, scanFrom q width 0 (front.reverse ++ value) rest = .ok r := by
  induction front generalizing width value with
  | nil => exact ⟨width, h⟩
  | cons b front ih =>
    obtain ⟨hb, hFront⟩ := List.forall_mem_cons.1 hHigh
    have hNe : b ≠ q ∧ b ≠ 92 := by
      constructor
      · rintro rfl
        rcases hQuote with rfl | rfl <;> exact absurd hb (by decide)
      · rintro rfl
        exact absurd hb (by decide)
    cases hTurn : turn q (b :: (front ++ rest)) with
    | close => exact absurd (turn_close hTurn) hNe.1
    | fault fault read =>
      rw [List.cons_append, scanFrom, hTurn] at h
      cases h
    | take count piece =>
      have hTake := scanFrom_take hTurn h
      rw [turn, if_neg hNe.1] at hTurn
      split at hTurn
      · cases hTurn
      rw [if_neg hNe.2] at hTurn
      cases hTurn
      obtain ⟨width, hRest⟩ := ih hFront hTake
      exact ⟨width, by simpa using hRest⟩

/-- The pieces of a body. -/
abbrev body (q : UInt8) (text : Bytes) : List Element := elementsFrom q.toNat 0 (points text)

theorem isQuote_toNat (hQuote : IsQuote q) : q.toNat < 0x80 ∧ q.toNat ≠ 92 := by
  rcases hQuote with rfl | rfl <;> decide

/-- A body is a piece and the body behind it. -/
theorem body_cons {e : Element} {k : Nat} {c : Nat} {ns : List Nat} {after : Bytes}
    (hPoints : points text = c :: ns) (hc : c ≠ q.toNat) (hElement : element (c :: ns) = (e, k))
    (hDrop : (c :: ns).drop k = points after) : body q text = e :: body q after := by
  rw [body, hPoints, elementsFrom_cons hc, hElement, hDrop]

/-- Any character but a backslash and the quote is a piece of its own. -/
theorem body_character {n : Nat} {after : Bytes} (hPoints : points text = n :: points after)
    (hQuote : n ≠ q.toNat) (hNe : n ≠ 92) : body q text = .character n :: body q after := by
  refine body_cons hPoints hQuote (k := 1) ?_ rfl
  unfold element
  split <;> simp_all

theorem head?_of_element_unit {ns : List Nat} {k : Nat} (h : element (92 :: ns) = (.unit u, k)) :
    ns.head? = some 117 := by
  unfold element at h
  split at h
  · rename_i hEq
    obtain ⟨-, rfl⟩ := List.cons.inj hEq
    dsimp only at h
    repeat' split at h
    all_goals first | cases h; done | skip
    rename_i hUnit
    rw [hUnit]
    rfl
  · cases h
  · cases h

/-- The lexer goes on after the escape of a unit only if it has four digits. -/
theorem hex?_of_scanFrom (hEnd : 92 ≠ q) {r : Nat × Bytes}
    (h : scanFrom q width 0 value (92 :: 117 :: more) = .ok r) :
    ∃ v, Bytes.hex? (more.take 4) = some v ∧ ¬more.length < 4 := by
  have hTurn : turn q (92 :: 117 :: more) = escape (117 :: more) := by
    rw [turn, if_neg hEnd]
    rfl
  rw [scanFrom, hTurn] at h
  cases hHex : Bytes.hex? (more.take 4) with
  | none =>
    have hEscape : escape (117 :: more) = .fault .invalidUnicodeEscape 2 := by
      simp [escape, startsWithLineSeparator, hHex]
    rw [hEscape] at h
    cases h
  | some v =>
    refine ⟨v, rfl, fun hShort => ?_⟩
    have hEscape : escape (117 :: more) = .fault .invalidUnicodeEscape 2 := by
      simp [escape, startsWithLineSeparator, hHex, hShort]
    rw [hEscape] at h
    cases h

/-- Where a body begins with a unit, the lexer sees the escape of one. -/
theorem lowHalf?_of_body (hQuote : IsQuote q) (hText : Text text) {r : Nat × Bytes}
    (h : scanFrom q width 0 value text = .ok r) {es : List Element}
    (hBody : body q text = .unit u :: es) : escape.lowHalf? text = some u := by
  obtain ⟨hLow, hSlash⟩ := isQuote_toNat hQuote
  cases text with
  | nil => cases hBody
  | cons b rest =>
    by_cases hAscii : b < 0x80
    · obtain ⟨hRest, hPoints⟩ := hText.ascii hAscii
      have hEnd : b.toNat ≠ q.toNat := by
        intro hEnd
        rw [body, hPoints, elementsFrom, if_pos hEnd] at hBody
        cases hBody
      by_cases hBackslash : b = 92
      · subst hBackslash
        have hElement : ∃ k, element (92 :: points rest) = (.unit u, k) := by
          rw [body, hPoints, elementsFrom_cons hEnd] at hBody
          exact ⟨_, Prod.ext (List.cons.inj hBody).1 rfl⟩
        obtain ⟨k, hElement⟩ := hElement
        -- Only the letter of the escape makes a unit, and only four digits let the lexer go on.
        obtain ⟨more, rfl⟩ := List.head?_eq_some_iff.1
          ((hRest.head?_points 117 (by decide)).1 (head?_of_element_unit hElement))
        obtain ⟨hMore, hPoints'⟩ := hRest.ascii (by decide)
        obtain ⟨v, hHex, hLong⟩ := hex?_of_scanFrom (fun hEq => hEnd (congrArg UInt8.toNat hEq)) h
        rw [hPoints', show (117 : UInt8).toNat = 117 from rfl,
          (unit_reads hMore hHex).1] at hElement
        cases hElement
        rw [escape.lowHalf?, if_pos (by simp; omega)]
        exact hHex
      · rw [body_character hPoints hEnd fun hEq => hBackslash (UInt8.toNat_inj.1 hEq)] at hBody
        cases hBody
    · obtain ⟨character, after, rune, hFront, hDecode, -, hRune, -⟩ := hText.high hAscii
      have hPoints : points (b :: rest) = rune :: points after := by
        rw [hFront, Utf8.points_append hDecode]
      rw [body_character hPoints (by omega) (by omega)] at hBody
      cases hBody

theorem Element.characters_cons {e : Element} {es : List Element}
    (h : ∀ u v rest, e = .unit u → es = .unit v :: rest → Utf16.pair? u v = none) :
    characters (e :: es) = characters [e] ++ characters es := by
  cases e with
  | character n => simp [characters]
  | nothing => simp [characters]
  | unit u =>
    have hOne : characters [unit u] = [u] := by simp [characters]
    rw [hOne]
    cases es with
    | nil => exact hOne
    | cons f rest =>
      cases f with
      | unit v => rw [characters, h u v rest rfl rfl]; rfl
      | _ => simp [characters]

/-- What an escape denotes comes before what the text behind it denotes. -/
theorem characters_escape (hQuote : IsQuote q) (hText : Text (92 :: rest))
    (hTurn : escape rest = .take count piece) {r : Nat × Bytes}
    (hScan : scanFrom q width 0 value ((92 :: rest).drop count) = .ok r) :
    Text ((92 :: rest).drop count) ∧
      (Element.characters (body q (92 :: rest))).flatMap Utf8.encode =
        piece ++
          (Element.characters (body q ((92 :: rest).drop count))).flatMap Utf8.encode := by
  obtain ⟨-, hSlash⟩ := isQuote_toNat hQuote
  obtain ⟨hRest, hPoints⟩ := hText.ascii (by decide)
  obtain ⟨e, k, after, hElement, hDrop, hAfter, hTakes⟩ := escape_reads hRest hTurn
  have hBody : body q (92 :: rest) = e :: body q after :=
    body_cons hPoints hSlash.symm hElement hDrop
  cases hTakes with
  | one hBehind hLone =>
    subst hBehind
    have hJoin := Element.characters_cons fun u v es (hUnit : e = .unit u) hNext => by
      have := hLone u hUnit
      rwa [lowHalf?_of_body hQuote hAfter hScan hNext] at this
    refine ⟨hAfter, ?_⟩
    rw [hBody, hJoin]
    simp
  | two hNext hPair hBehind =>
    obtain ⟨hElement, hHead, hDrop, hAfter'⟩ := lowHalf?_reads hAfter hNext
    obtain ⟨ns, hNs⟩ := List.head?_eq_some_iff.1 hHead
    rw [hNs] at hElement hDrop
    rw [hBehind]
    refine ⟨hAfter', ?_⟩
    rw [hBody, body_cons hNs hSlash.symm hElement hDrop, Element.characters, hPair]
    simp

/-- The value that the lexer gives is the text of the code points of the literal. -/
theorem scanFrom_reads (hQuote : IsQuote q) (hText : Text text)
    (h : scanFrom q width 0 value text = .ok (stop, result)) :
    result = value.reverse ++ (Element.characters (body q text)).flatMap Utf8.encode := by
  obtain ⟨hLow, hSlash⟩ := isQuote_toNat hQuote
  generalize hLength : text.length = n
  induction n using Nat.strongRecOn generalizing text value width with
  | _ n ih =>
    subst hLength
    cases text with
    | nil => cases h
    | cons b rest =>
      by_cases hAscii : b < 0x80
      · obtain ⟨hRest, hPoints⟩ := hText.ascii hAscii
        cases hTurn : turn q (b :: rest) with
        | close =>
          obtain rfl := turn_close hTurn
          rw [scanFrom, hTurn] at h
          cases h
          rw [body, hPoints, elementsFrom, if_pos rfl]
          simp [Element.characters]
        | fault fault read =>
          rw [scanFrom, hTurn] at h
          cases h
        | take count piece =>
          have hScan := scanFrom_take hTurn h
          have hCount := turn_take hTurn
          have hEnd' : b ≠ q := by
            rintro rfl
            rw [turn, if_pos rfl] at hTurn
            cases hTurn
          have hEnd : b.toNat ≠ q.toNat := fun hEq => hEnd' (UInt8.toNat_inj.1 hEq)
          rw [turn, if_neg hEnd'] at hTurn
          split at hTurn
          · cases hTurn
          split at hTurn
          · rename_i hBackslash
            subst hBackslash
            obtain ⟨hAfter, hCharacters⟩ := characters_escape hQuote hText hTurn hScan
            have hShorter : ((92 :: rest).drop count).length < (92 :: rest).length := by
              rw [List.length_drop, List.length_cons]
              omega
            rw [ih _ hShorter hAfter hScan rfl, hCharacters]
            simp
          · rename_i hBackslash
            cases hTurn
            have := ih rest.length (Nat.lt_succ_self _) hRest hScan rfl
            rw [this, body_character hPoints hEnd fun hEq => hBackslash (UInt8.toNat_inj.1 hEq),
              Element.characters, List.flatMap_cons, Utf8.encode_toNat hAscii]
            simp
      · obtain ⟨character, after, rune, hFront, hDecode, hHigh, hRune, hAfter⟩ := hText.high hAscii
        have hPoints : points (b :: rest) = rune :: points after := by
          rw [hFront, Utf8.points_append hDecode]
        rw [hFront] at h
        obtain ⟨width, h⟩ := scanFrom_high hQuote hHigh h
        have hShorter : after.length < (b :: rest).length := by
          have := (Utf8.decode?_width hDecode).1
          rw [hFront, List.length_append]
          omega
        have := ih after.length hShorter hAfter h rfl
        rw [this, body_character hPoints (by omega) (by omega), Element.characters,
          List.flatMap_cons, Utf8.encode_of_decode? hDecode]
        simp

theorem Spells.value_eq {raw : Bytes} (h : Spells raw result) (hText : Text raw) :
    result = (characters raw).flatMap Utf8.encode := by
  obtain ⟨q, tail, rfl, hQuote⟩ := h.starts
  have hScan := h.scan []
  rw [List.append_nil, StringLiteral.scan] at hScan
  obtain ⟨hTail, hPoints⟩ := hText.ascii hQuote.ascii
  rw [characters, elements, hPoints]
  exact scanFrom_reads hQuote hTail hScan

end ScriptOptimizer.StringLiteral
