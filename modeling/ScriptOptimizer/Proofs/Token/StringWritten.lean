import ScriptOptimizer.Pattern.Check
import ScriptOptimizer.Proofs.Token.Lexed
import ScriptOptimizer.Proofs.Token.LineBreak
import ScriptOptimizer.Proofs.Token.StringScan

/-!
Strings as they can be written. Between the quotes each character stands as itself or as one of its
escapes, and a backslash before a line break may stand anywhere between two characters. However a
string is written, the lexer reads it back.
-/

namespace ScriptOptimizer.StringLiteral

/-- The digits write the number with so many hexadecimal digits, which may be of either case. -/
structure HexDigits (width n : Nat) (digits : Bytes) : Prop where
  length : digits.length = width
  digit : ∀ b ∈ digits, Bytes.isHexDigit b = true
  number : number 16 (digits.map UInt8.toNat) = n

/-- The letters that stand for control characters behind a backslash, each with its character. -/
def controlLetters : List (UInt8 × Nat) :=
  [(110, 10), (116, 9), (114, 13), (98, 8), (102, 12), (118, 11)]

/-- The characters that a backslash gives a meaning of their own: those letters, the letters of the
numeric escapes, and the octal digits. -/
def escapeCharacters : List Nat :=
  [110, 116, 114, 98, 102, 118, 120, 117, 48, 49, 50, 51, 52, 53, 54, 55]

/-- The text writes the character between quotes of this sort. -/
inductive Writes (quote : UInt8) : Nat → Bytes → Prop
  | itself {c : Nat} : Utf8.isScalar c = true → c ∉ quote.toNat :: 92 :: lineTerminators →
      Writes quote c (Utf8.encode c)
  | hex {c : Nat} {digits : Bytes} : HexDigits 2 c digits → Writes quote c (92 :: 120 :: digits)
  | unicode {c : Nat} {digits : Bytes} : Utf8.isScalar c = true → HexDigits 4 c digits →
      Writes quote c (92 :: 117 :: digits)
  | pair {c high low : Nat} {front back : Bytes} : 0x10000 ≤ c → Utf8.isScalar c = true →
      Utf16.encode c = [high, low] → HexDigits 4 high front → HexDigits 4 low back →
      Writes quote c (92 :: 117 :: (front ++ 92 :: 117 :: back))
  | control {letter : UInt8} {c : Nat} : (letter, c) ∈ controlLetters → Writes quote c [92, letter]
  | escaped {c : Nat} : Utf8.isScalar c = true → c ∉ lineTerminators → c ∉ escapeCharacters →
      Writes quote c (92 :: Utf8.encode c)

/-- What may stand behind a backslash to go on in the next line. -/
def lineBreaks : List Bytes := [13, 10] :: lineTerminators.map Utf8.encode

/-- The text writes the characters between quotes of this sort, with continued lines anywhere. -/
inductive Written (quote : UInt8) : List Nat → Bytes → Prop
  | nil : Written quote [] []
  | character {c : Nat} {cs : List Nat} {text rest : Bytes} : Writes quote c text →
      Written quote cs rest → Written quote (c :: cs) (text ++ rest)
  | continued {cs : List Nat} {line rest : Bytes} : line ∈ lineBreaks → Written quote cs rest →
      Written quote cs (92 :: (line ++ rest))

variable {q : UInt8} {c n width : Nat} {digits front rest acc text value : Bytes}

/-! ### Escapes -/

theorem HexDigits.hex? (h : HexDigits (width + 1) n digits) : Bytes.hex? digits = some n := by
  have hne : digits ≠ [] := by
    rintro rfl
    cases h.length
  rw [Bytes.hex?, if_pos (by simpa [hne] using h.digit), valueInBase_eq, h.number]

theorem escape_hex_digits (h : HexDigits 2 c digits) :
    escape (120 :: (digits ++ rest)) = .take 4 (Utf8.encode c) := by
  have hTake : (digits ++ rest).take 2 = digits := List.take_left' h.length
  have hLong : ¬(digits ++ rest).length < 2 := by
    rw [List.length_append, h.length]
    omega
  simp only [escape, hTake, h.hex?, if_neg hLong]
  rfl

theorem escape_unicode_digits (hScalar : Utf8.isScalar c = true) (h : HexDigits 4 c digits) :
    escape (117 :: (digits ++ rest)) = .take 6 (Utf8.encode c) := by
  have hTake : (digits ++ rest).take 4 = digits := List.take_left' h.length
  have hLong : ¬(digits ++ rest).length < 4 := by
    rw [List.length_append, h.length]
    omega
  -- A character is no half of a pair, whatever follows.
  have hLone (next : Option Nat) : next.bind (Utf16.pair? c) = none := by
    cases next with
    | none => rfl
    | some v =>
      have hHigh : Utf16.isHigh c = false := by
        simp only [Utf8.isScalar, Utf16.isHigh] at hScalar ⊢
        grind
      simp [Utf16.pair?, hHigh]
  simp only [escape, hTake, h.hex?, if_neg hLong, hLone]
  rfl

theorem pair?_of_encode {high low : Nat} (hHigh : 0x10000 ≤ c) (hScalar : Utf8.isScalar c = true)
    (h : Utf16.encode c = [high, low]) : Utf16.pair? high low = some c := by
  rw [Utf16.encode, if_neg (by omega)] at h
  obtain ⟨rfl, hTail⟩ := List.cons.inj h
  obtain ⟨rfl, -⟩ := List.cons.inj hTail
  simp only [Utf8.isScalar, Bool.or_eq_true, Bool.and_eq_true, decide_eq_true_eq] at hScalar
  have hHalves : (Utf16.isHigh (0xD800 + (c - 0x10000) / 0x400) &&
      Utf16.isLow (0xDC00 + (c - 0x10000) % 0x400)) = true := by
    simp only [Utf16.isHigh, Utf16.isLow, Bool.and_eq_true, decide_eq_true_eq]
    omega
  rw [Utf16.pair?, if_pos hHalves]
  exact congrArg some (by omega)

theorem escape_pair_digits {high low : Nat} {back : Bytes} (hPair : Utf16.pair? high low = some c)
    (hHigh : HexDigits 4 high front) (hLow : HexDigits 4 low back) :
    escape (117 :: (front ++ 92 :: 117 :: (back ++ rest))) = .take 12 (Utf8.encode c) := by
  have hTake : (front ++ 92 :: 117 :: (back ++ rest)).take 4 = front := List.take_left' hHigh.length
  have hDrop : (front ++ 92 :: 117 :: (back ++ rest)).drop 4 = 92 :: 117 :: (back ++ rest) :=
    List.drop_left' hHigh.length
  have hLong : ¬(front ++ 92 :: 117 :: (back ++ rest)).length < 4 := by
    rw [List.length_append, hHigh.length]
    omega
  have hNext : escape.lowHalf? (92 :: 117 :: (back ++ rest)) = some low := by
    have hTake : (back ++ rest).take 4 = back := List.take_left' hLow.length
    rw [escape.lowHalf?, if_pos (by simp [hLow.length])]
    simpa [hTake] using hLow.hex?
  simp only [escape, hTake, hHigh.hex?, if_neg hLong, hDrop, hNext, Option.bind_some, hPair]
  rfl

theorem escape_control {letter : UInt8} (h : (letter, c) ∈ controlLetters) :
    escape (letter :: rest) = .take 2 (Utf8.encode c) := by
  simp only [controlLetters, List.mem_cons, List.not_mem_nil, or_false, Prod.mk.injEq] at h
  rcases h with ⟨rfl, rfl⟩ | ⟨rfl, rfl⟩ | ⟨rfl, rfl⟩ | ⟨rfl, rfl⟩ | ⟨rfl, rfl⟩ | ⟨rfl, rfl⟩ <;> rfl

/-- A line break begins the text of a character only if it is that character. -/
theorem startsWithLineBreak_encode (hScalar : Utf8.isScalar c = true) :
    startsWithLineBreak (Utf8.encode c ++ rest) = true ↔ c ∈ lineTerminators := by
  rw [Bytes.startsWithLineBreak_iff]
  refine ⟨fun ⟨rune, hRune, more, hMore⟩ => ?_, fun h => ⟨c, h, List.prefix_append _ _⟩⟩
  have hLine : Utf8.isScalar rune = true := by
    simp only [lineTerminators, List.mem_cons, List.not_mem_nil, or_false] at hRune
    rcases hRune with rfl | rfl | rfl | rfl <;> rfl
  have hBoth := Utf8.decode?_append more (Utf8.decode?_encode_scalar hLine)
  rw [hMore, Utf8.decode?_append rest (Utf8.decode?_encode_scalar hScalar)] at hBoth
  rwa [(Prod.mk.inj (Option.some.inj hBoth)).1]

theorem decode_encode (hScalar : Utf8.isScalar c = true) :
    Utf8.decode (Utf8.encode c ++ rest) = (c, (Utf8.encode c).length) := by
  rw [Utf8.decode, Utf8.decode?_append rest (Utf8.decode?_encode_scalar hScalar)]
  rfl

/-- An ASCII byte begins the text of no character but itself. -/
theorem eq_of_encode_head {b : UInt8} {tail : Bytes} (h : Utf8.encode c = b :: tail)
    (hLow : b.toNat < 0x80) : b.toNat = c := by
  by_cases hAscii : c < 0x80
  · rw [Utf8.encode, if_pos hAscii] at h
    obtain ⟨rfl, -⟩ := List.cons.inj h
    exact Utf8.toNat_toUInt8 (by omega)
  · have hHigh := Utf8.encode_high (Nat.le_of_not_lt hAscii) b (by simp [h])
    omega

theorem encode_cons (hScalar : Utf8.isScalar c = true) : ∃ b tail, Utf8.encode c = b :: tail ∧
    ∀ d ∈ tail, Utf8.isContinuation d = true := by
  have hDecode := Utf8.decode?_encode_scalar hScalar
  cases hText : Utf8.encode c with
  | nil =>
    rw [hText] at hDecode
    cases hDecode
  | cons b tail =>
    rw [hText] at hDecode
    exact ⟨b, tail, rfl, Utf8.decode?_continues hDecode⟩

theorem escape_character (hScalar : Utf8.isScalar c = true) (hLine : c ∉ lineTerminators)
    (hEscape : c ∉ escapeCharacters) :
    escape (Utf8.encode c ++ rest) = .take (1 + (Utf8.encode c).length) (Utf8.encode c) := by
  have hBreak : ¬startsWithLineBreak (Utf8.encode c ++ rest) = true :=
    mt (startsWithLineBreak_encode hScalar).1 hLine
  have hDecode : Utf8.decode (Utf8.encode c ++ rest) = (c, (Utf8.encode c).length) :=
    decode_encode hScalar
  obtain ⟨b, tail, hText, -⟩ := encode_cons hScalar
  -- The first byte has no other meaning behind a backslash.
  have hFree : b.toNat ∉ escapeCharacters := by
    intro hb
    have hLow : ∀ n ∈ escapeCharacters, n < 0x80 := by decide
    exact hEscape (eq_of_encode_head hText (hLow _ hb) ▸ hb)
  have hNe (d : UInt8) (hd : d.toNat ∈ escapeCharacters) : b ≠ d := by
    rintro rfl
    exact hFree hd
  have hHex : b ≠ 120 := hNe 120 (by decide)
  have hUnit : b ≠ 117 := hNe 117 (by decide)
  have hOctal : Bytes.isOctalDigit b = false := by
    rw [isOctalDigit_eq]
    simp only [escapeCharacters, List.mem_cons, List.not_mem_nil, or_false] at hFree
    simp only [isOctal, Bool.and_eq_false_iff, decide_eq_false_iff_not]
    omega
  have hControl : controlEscape? b = none := by
    unfold controlEscape?
    split <;> first | rfl | exact absurd rfl (hNe _ (by decide))
  rw [hText, List.cons_append] at hBreak hDecode
  obtain ⟨hFeed, hReturn, hSeparator⟩ : b ≠ 10 ∧ b ≠ 13 ∧
      startsWithLineSeparator (b :: (tail ++ rest)) = false := by
    simpa [startsWithLineBreak, or_assoc] using hBreak
  rw [hText, List.cons_append]
  simp only [escape, hSeparator, hOctal, hControl, hDecode, if_neg hFeed, if_neg hReturn,
    if_neg hHex, if_neg hUnit, Bool.false_eq_true, if_false, hText]

/-- A continued line stands for nothing, if no line feed follows that would belong to it. -/
theorem escape_lineBreak {line : Bytes} (h : line ∈ lineBreaks) (hRest : rest.head? ≠ some 10) :
    escape (line ++ rest) = .take (1 + line.length) [] := by
  have hLines : lineBreaks = [[13, 10], [10], [13], [0xE2, 0x80, 0xA8], [0xE2, 0x80, 0xA9]] := by
    decide
  rw [hLines] at h
  simp only [List.mem_cons, List.not_mem_nil, or_false] at h
  rcases h with rfl | rfl | rfl | rfl | rfl
  · rfl
  · rfl
  · simp [escape, startsWithLineSeparator, hRest]
  · rfl
  · rfl

/-! ### Bodies -/

/-- Bytes that belong to an escape that was read are passed over. -/
theorem scanFrom_pass (hWidth : width = front.length) (n : Nat) :
    scanFrom q n width acc (front ++ rest) = scanFrom q (n + width) 0 acc rest := by
  subst hWidth
  induction front generalizing n with
  | nil => rfl
  | cons b front ih =>
    rw [List.cons_append, List.length_cons, scanFrom, ih, Nat.add_assoc, Nat.add_comm 1]

/-- One turn takes the bytes of a text and gives its piece of the value. -/
theorem scanFrom_turn {b : UInt8} {tail : Bytes}
    (h : turn q (b :: (tail ++ rest)) = .take (1 + tail.length) value) (n : Nat) :
    scanFrom q n 0 acc (b :: (tail ++ rest)) =
      scanFrom q (n + (1 + tail.length)) 0 (value.reverse ++ acc) rest := by
  rw [scanFrom, h]
  show scanFrom q (n + 1) (1 + tail.length - 1) _ _ = _
  rw [Nat.add_sub_cancel_left, scanFrom_pass rfl, Nat.add_assoc]

theorem turn_backslash (hQuote : IsQuote q) : turn q (92 :: rest) = escape rest := by
  have hne : (92 : UInt8) ≠ q := by
    rintro rfl
    rcases hQuote with h | h <;> exact absurd h (by decide)
  rw [turn, if_neg hne]
  rfl

/-- A byte that is neither the quote nor a backslash and begins no line break stands for itself. -/
theorem scanFrom_byte {b : UInt8} (hQuote : b ≠ q) (hSlash : b ≠ 92)
    (hBreak : startsWithLineBreak (b :: rest) = false) (n : Nat) :
    scanFrom q n 0 acc (b :: rest) = scanFrom q (n + 1) 0 (b :: acc) rest := by
  have hTurn : turn q (b :: ([] ++ rest)) = .take (1 + ([] : Bytes).length) [b] := by
    rw [List.nil_append, turn, if_neg hQuote, hBreak, if_neg (by simp), if_neg hSlash]
    rfl
  exact scanFrom_turn hTurn n

theorem scanFrom_continuations (hQuote : IsQuote q)
    (h : ∀ b ∈ front, Utf8.isContinuation b = true) (n : Nat) :
    scanFrom q n 0 acc (front ++ rest) =
      scanFrom q (n + front.length) 0 (front.reverse ++ acc) rest := by
  induction front generalizing n acc with
  | nil => rfl
  | cons b front ih =>
    obtain ⟨hb, hFront⟩ := List.forall_mem_cons.1 h
    have hne : b ≠ q ∧ b ≠ 92 := by
      constructor
      · rintro rfl
        rcases hQuote with rfl | rfl <;> exact absurd hb (by decide)
      · rintro rfl
        exact absurd hb (by decide)
    rw [List.cons_append,
      scanFrom_byte hne.1 hne.2 (Bytes.startsWithLineBreak_continuation hb), ih hFront,
      List.length_cons, List.reverse_cons, List.append_assoc, Nat.add_assoc, Nat.add_comm 1]
    rfl

namespace Writes

/-- What writes a character is read as the text of that character. -/
theorem scanFrom (hQuote : IsQuote q) (h : Writes q c text) (n : Nat) :
    StringLiteral.scanFrom q n 0 acc (text ++ rest) =
      StringLiteral.scanFrom q (n + text.length) 0 ((Utf8.encode c).reverse ++ acc) rest := by
  have hEscape (tail : Bytes)
      (h : escape (tail ++ rest) = .take (1 + tail.length) (Utf8.encode c)) :
      StringLiteral.scanFrom q n 0 acc (92 :: (tail ++ rest)) =
        StringLiteral.scanFrom q (n + (tail.length + 1)) 0 ((Utf8.encode c).reverse ++ acc)
          rest := by
    rw [Nat.add_comm tail.length]
    exact scanFrom_turn ((turn_backslash hQuote).trans h) n
  cases h with
  | itself hScalar hPlain =>
    simp only [List.mem_cons, not_or] at hPlain
    obtain ⟨hNotQuote, hNotSlash, hLine⟩ := hPlain
    have hBreak : ¬startsWithLineBreak (Utf8.encode c ++ rest) = true :=
      mt (startsWithLineBreak_encode hScalar).1 hLine
    obtain ⟨b, tail, hText, hTail⟩ := encode_cons hScalar
    have hNe {d : UInt8} (hd : d < 0x80) (hc : c ≠ d.toNat) : b ≠ d := by
      rintro rfl
      exact hc (eq_of_encode_head hText (UInt8.lt_iff_toNat_lt.1 hd)).symm
    rw [hText, List.cons_append] at hBreak
    rw [hText, List.cons_append, scanFrom_byte (hNe hQuote.ascii hNotQuote)
      (hNe (by decide) hNotSlash) (Bool.eq_false_iff.2 hBreak), scanFrom_continuations hQuote hTail,
      List.length_cons, List.reverse_cons, List.append_assoc, Nat.add_assoc, Nat.add_comm 1]
    rfl
  | hex hDigits =>
    refine hEscape (120 :: _) ?_
    rw [List.cons_append, escape_hex_digits hDigits, List.length_cons, hDigits.length]
  | unicode hScalar hDigits =>
    refine hEscape (117 :: _) ?_
    rw [List.cons_append, escape_unicode_digits hScalar hDigits, List.length_cons, hDigits.length]
  | pair hHigh hScalar hUnits hFront hBack =>
    refine hEscape (117 :: (_ ++ 92 :: 117 :: _)) ?_
    have hPair := pair?_of_encode hHigh hScalar hUnits
    simp only [List.cons_append, List.append_assoc, escape_pair_digits hPair hFront hBack,
      List.length_cons, List.length_append, hFront.length, hBack.length]
  | control hLetter => exact hEscape [_] (escape_control hLetter)
  | escaped hScalar hLine hFree => exact hEscape _ (escape_character hScalar hLine hFree)

/-- No character is written with a line feed in front. -/
theorem head?_ne (h : Writes q c text) : (text ++ rest).head? ≠ some 10 := by
  cases h with
  | itself hScalar hPlain =>
    obtain ⟨b, tail, hText, -⟩ := encode_cons hScalar
    rw [hText]
    rintro ⟨⟩
    refine hPlain ?_
    rw [← eq_of_encode_head hText (by decide)]
    simp [lineTerminators]
  | _ => simp

end Writes

namespace Written

variable {cs : List Nat} {body : Bytes}

theorem head?_ne (hQuote : IsQuote q) (h : Written q cs body) :
    (body ++ q :: rest).head? ≠ some 10 := by
  cases h with
  | nil => rcases hQuote with rfl | rfl <;> simp
  | character hWrites hRest =>
    rw [List.append_assoc]
    exact hWrites.head?_ne
  | continued => simp

/-- The body of a literal is read as the characters that it writes. -/
theorem scanFrom (hQuote : IsQuote q) (h : Written q cs body) (n : Nat) :
    StringLiteral.scanFrom q n 0 acc (body ++ q :: rest) =
      .ok (n + body.length + 1, acc.reverse ++ cs.flatMap Utf8.encode) := by
  induction h generalizing n acc with
  | nil => simp [StringLiteral.scanFrom, turn]
  | @character c cs text body hWrites hBody ih =>
    rw [List.append_assoc, hWrites.scanFrom hQuote, ih]
    simp [Nat.add_assoc]
  | @continued cs line body hLine hBody ih =>
    have hTurn : turn q (92 :: (line ++ (body ++ q :: rest))) = .take (1 + line.length) [] := by
      rw [turn_backslash hQuote, escape_lineBreak hLine (hBody.head?_ne hQuote)]
    rw [List.cons_append, List.append_assoc, scanFrom_turn hTurn, ih]
    simp [Nat.add_assoc, Nat.add_comm, Nat.add_left_comm]

theorem spells (hQuote : IsQuote q) (h : Written q cs body) :
    Spells (q :: (body ++ [q])) (cs.flatMap Utf8.encode) := by
  refine ⟨⟨q, _, rfl, hQuote⟩, fun rest => ?_⟩
  rw [List.cons_append, List.append_assoc, List.singleton_append, StringLiteral.scan,
    h.scanFrom hQuote]
  simp [Nat.add_comm]

end Written

end ScriptOptimizer.StringLiteral

namespace ScriptOptimizer.Lexer

open StringLiteral (IsQuote HexDigits Writes Written lineBreaks)

/-- A token that no gap stands before. -/
theorem next_gapless [PatternCheck] {l : Lexer} {lexeme : Lexeme} (hOk : l.failure = none)
    (hGap : Gap.scan l.cursor.rest = ⟨0, false⟩)
    (hScan : Lexeme.scan l.before l.cursor.rest = .ok lexeme) (hType : lexeme.type ≠ .comment) :
    l.next = (token l.cursor lexeme l.lineBreak,
      { l with cursor := l.cursor.advance lexeme.width
               before := some (token l.cursor lexeme l.lineBreak), lineBreak := false }) := by
  unfold next
  simp only [hOk, hGap]
  rw [show l.cursor.advance 0 = l.cursor from rfl, hScan, Bool.or_false]
  exact if_neg hType

/-- However characters are written between quotes, the lexer reads the literal as one token up to
the closing quote, whatever was before it and whatever follows, and the value of the token is the
text of the characters. A text of nothing else is cut into that token and the end of input. -/
theorem string_written [PatternCheck] {q : UInt8} {cs : List Nat} {body : Bytes}
    (hQuote : IsQuote q) (h : Written q cs body) :
    let raw := q :: (body ++ [q])
    (∀ (l : Lexer) (rest : Bytes), l.failure = none → l.cursor.rest = raw ++ rest →
      l.next.1.type = .string ∧ l.next.1.literal = raw ∧
      l.next.1.value = cs.flatMap Utf8.encode ∧
      l.next.1.start = l.cursor.offset ∧ l.next.1.stop = l.cursor.offset + raw.length ∧
      l.next.2.failure = none ∧ l.next.2.cursor.rest = rest) ∧
    ∃ t last, tokenize raw = ([t, last], none) ∧ t.type = .string ∧ t.literal = raw ∧
      t.value = cs.flatMap Utf8.encode ∧ last.type = .endOfInput := by
  intro raw
  have hSpells := h.spells hQuote
  have hNext (l : Lexer) (rest : Bytes) (hOk : l.failure = none)
      (hText : l.cursor.rest = raw ++ rest) :
      l.next.1.type = .string ∧ l.next.1.literal = raw ∧
      l.next.1.value = cs.flatMap Utf8.encode ∧
      l.next.1.start = l.cursor.offset ∧ l.next.1.stop = l.cursor.offset + raw.length ∧
      l.next.2.failure = none ∧ l.next.2.cursor.rest = rest := by
    have hStands := Spelling.stands_quoted hSpells (fun _ => True) rest
    have hScan : Lexeme.scan l.before (raw ++ rest) = .ok _ := hStands.scan trivial nofun
    have hGap := hStands.gap
    change Gap.scan (raw ++ rest) = _ at hGap
    rw [← hText] at hScan hGap
    rw [next_gapless hOk hGap hScan (by simp [Spelling.lexeme, Spelling.quoted])]
    refine ⟨rfl, ?_, rfl, rfl, rfl, hOk, ?_⟩
    · show l.cursor.rest.take raw.length = raw
      rw [hText, List.take_left]
    · show (l.cursor.advance raw.length).rest = rest
      rw [Cursor.advance_rest, hText, List.drop_left]
  refine ⟨hNext, ?_⟩
  obtain ⟨hType, hLiteral, hValue, -, -, hOk, hRest⟩ :=
    hNext (ofText raw) [] rfl (List.append_nil raw).symm
  have hEnd := next_gapless hOk (by rw [hRest]; rfl) (by rw [hRest]; rfl) (by simp)
  have hLast : (ofText raw).next.2.next.1.type = .endOfInput := by rw [hEnd]; rfl
  have hClean : (ofText raw).next.2.next.2.failure = none := by rw [hEnd]; exact hOk
  refine ⟨_, _, ?_, hType, hLiteral, hValue, hLast⟩
  have hRun : (ofText raw).run =
      [(ofText raw).next, (ofText raw).next.2.next] := by
    show (ofText raw).steps (raw.length + 1) = _
    rw [show raw.length + 1 = body.length + 1 + 1 + 1 by simp [raw], steps]
    dsimp only
    rw [if_neg (by simp [isLast, hType]), steps]
    dsimp only
    rw [if_pos (by simp [isLast, hLast])]
  rw [tokenize, hRun]
  simp [hType, hLast, hClean]

/-- A character above the basic plane as a pair of escapes, a continued line, and a quote that is
escaped. -/
theorem string_written_pair :
    IsQuote 34 ∧
      Written 34 [0x1F600, 34]
        [92, 117, 68, 56, 51, 68, 92, 117, 100, 101, 48, 48, 92, 13, 10, 92, 34] ∧
      ∃ t last, tokenize "\"\\uD83D\\ude00\\\r\n\\\"\"" = ([t, last], none) ∧ t.type = .string ∧
        t.literal = Bytes.ofString "\"\\uD83D\\ude00\\\r\n\\\"\"" ∧
        t.value = [0x1F600, 34].flatMap Utf8.encode ∧ last.type = .endOfInput := by
  have hQuote : IsQuote 34 := .inl rfl
  have hUnits : Utf16.encode 0x1F600 = [0xD83D, 0xDE00] := rfl
  have hHigh : HexDigits 4 0xD83D [68, 56, 51, 68] := ⟨rfl, List.all_eq_true.mp rfl, by decide⟩
  have hLow : HexDigits 4 0xDE00 [100, 101, 48, 48] := ⟨rfl, List.all_eq_true.mp rfl, by decide⟩
  have hPair : Writes 34 0x1F600 [92, 117, 68, 56, 51, 68, 92, 117, 100, 101, 48, 48] :=
    .pair (by decide) rfl hUnits hHigh hLow
  have hEscaped : Writes 34 34 [92, 34] := .escaped (c := 34) rfl (by decide) (by decide)
  have hLine : [13, 10] ∈ lineBreaks := by decide
  have hWritten : Written 34 [0x1F600, 34]
      [92, 117, 68, 56, 51, 68, 92, 117, 100, 101, 48, 48, 92, 13, 10, 92, 34] :=
    .character hPair (.continued hLine (.character hEscaped .nil))
  exact ⟨hQuote, hWritten, (string_written hQuote hWritten).2⟩

end ScriptOptimizer.Lexer
