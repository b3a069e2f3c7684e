import Mathlib.Data.Nat.Find
import ScriptOptimizer.Proofs.Token.Respell

/-!
Numerals. A numeral is hexadecimal, octal behind a leading zero, or decimal with a fraction and an
exponent. Where one stands the scanner takes the longest, unless there is something wrong with it: a
number of more than 64 bits, or behind a decimal numeral an ASCII letter, `_` or `$`. What follows
the others it does not look at.
-/

namespace ScriptOptimizer

namespace Numeral

/-- A point with digits, if any, behind it, or nothing. -/
inductive IsFraction : Bytes → Prop
  | nil : IsFraction []
  | point {digits : Bytes} : (∀ d ∈ digits, Bytes.isDigit d = true) → IsFraction (46 :: digits)

/-- A letter and digits, with a sign between them or without, or nothing. -/
inductive IsExponent : Bytes → Prop
  | nil : IsExponent []
  | letter {e : UInt8} {sign digits : Bytes} : e = 101 ∨ e = 69 → sign ∈ [[], [43], [45]] →
      digits ≠ [] → (∀ d ∈ digits, Bytes.isDigit d = true) → IsExponent (e :: (sign ++ digits))

/-- The parts of a decimal numeral. There is a digit in front of the exponent, and the whole part is
no octal numeral. -/
structure IsDecimal (whole fraction exponent : Bytes) : Prop where
  digits : ∀ d ∈ whole, Bytes.isDigit d = true
  not_octal : isOctal whole = false
  digit : whole ≠ [] ∨ 2 ≤ fraction.length
  fraction : IsFraction fraction
  exponent : IsExponent exponent

/-- The ways to write a numeral. -/
inductive Written : Bytes → Prop
  | hex {mark : UInt8} {digits : Bytes} : mark = 120 ∨ mark = 88 → digits ≠ [] →
      (∀ d ∈ digits, Bytes.isHexDigit d = true) → Written (48 :: mark :: digits)
  | octal {digits : Bytes} : isOctal digits = true → Written digits
  | decimal {whole fraction exponent : Bytes} : IsDecimal whole fraction exponent →
      Written (whole ++ (fraction ++ exponent))

/-- A numeral in front of a text, with which no longer numeral begins there. -/
structure Longest (raw rest : Bytes) : Prop where
  written : Written raw
  length_le : ∀ other, Written other → other <+: raw ++ rest → other.length ≤ raw.length

/-- Has the text the mark of a hexadecimal numeral? -/
def isHex : Bytes → Bool
  | 48 :: mark :: _ => mark = 120 || mark = 88
  | _ => false

/-- Is the numeral neither hexadecimal nor octal? -/
def isDecimal (raw : Bytes) : Bool := !isHex raw && !isOctal raw

/-- Has the decimal numeral an exponent? -/
def hasExponent (raw : Bytes) : Bool := raw.any fun c => c = 101 || c = 69

/-- What is wrong with a byte directly behind a decimal numeral: it is an ASCII letter, `_` or `$`.
The fault is that of a hexadecimal numeral or of an exponent if the numeral could go on with the
byte. -/
def clash? (raw : Bytes) (b : UInt8) : Option LexicalFault :=
  if !Word.isStartByte b then none
  else if raw = [48] && (b = 120 || b = 88) then some (.invalidHexLiteral "invalid syntax")
  else if (b = 101 || b = 69) && !hasExponent raw then some .missingExponent
  else some .identifierAfterNumber

/-- What is wrong with a numeral in front of a text: if it is decimal, the byte that follows, and
otherwise a number of more than 64 bits. -/
def fault? (raw rest : Bytes) : Option LexicalFault :=
  if isHex raw then
    if Bytes.valueInBase 16 (raw.drop 2) ≥ limit then some (.invalidHexLiteral "value out of range")
    else none
  else if isOctal raw then
    if Bytes.valueInBase 8 raw ≥ limit then some (.invalidOctalLiteral "value out of range")
    else none
  else rest.head?.bind (clash? raw)

variable {raw rest whole fraction exponent : Bytes}

/-! ### Ways to write a numeral -/

theorem isHexDigit_of_isDigit {d : UInt8} (h : Bytes.isDigit d = true) :
    Bytes.isHexDigit d = true := by
  simp only [Bytes.isDigit] at h
  simp [Bytes.isHexDigit, Bytes.hexValue?, h]

theorem isOctal_iff : isOctal raw = true ↔
    ∃ d more, raw = 48 :: d :: more ∧ ∀ c ∈ d :: more, Bytes.isOctalDigit c = true := by
  constructor
  · intro h
    unfold isOctal at h
    split at h
    · exact ⟨_, _, rfl, List.all_eq_true.1 h⟩
    · cases h
  · rintro ⟨d, more, rfl, h⟩
    exact List.all_eq_true.2 h

theorem digits_of_isOctal (h : isOctal raw = true) : ∀ d ∈ raw, Bytes.isDigit d = true := by
  obtain ⟨d, more, rfl, hDigits⟩ := isOctal_iff.1 h
  intro c hc
  rcases List.mem_cons.1 hc with rfl | hc
  · decide
  · have := hDigits c hc
    simp only [Bytes.isOctalDigit, Bytes.isDigit] at this ⊢
    grind

/-- Digits alone are a numeral, octal or decimal. -/
theorem written_digits (hDigits : ∀ d ∈ whole, Bytes.isDigit d = true) (hWhole : whole ≠ []) :
    Written whole := by
  by_cases hOctal : isOctal whole = true
  · exact .octal hOctal
  · have hDecimal : IsDecimal whole [] [] :=
      ⟨hDigits, Bool.eq_false_iff.2 hOctal, .inl hWhole, .nil, .nil⟩
    simpa using Written.decimal hDecimal

theorem Written.starts (h : Written raw) : ∃ b tail, raw = b :: tail ∧
    (Bytes.isDigit b = true ∨ b = 46 ∧ ∃ d more, tail = d :: more ∧ Bytes.isDigit d = true) := by
  cases h with
  | hex => exact ⟨48, _, rfl, .inl (by decide)⟩
  | octal hOctal =>
    obtain ⟨d, more, rfl, -⟩ := isOctal_iff.1 hOctal
    exact ⟨48, _, rfl, .inl (by decide)⟩
  | @decimal whole fraction exponent hDecimal =>
    obtain ⟨hDigits, -, hDigit, hFraction, -⟩ := hDecimal
    cases whole with
    | cons b whole => exact ⟨b, _, rfl, .inl (hDigits b List.mem_cons_self)⟩
    | nil =>
      have hTwo : 2 ≤ fraction.length := hDigit.resolve_left (by simp)
      cases hFraction with
      | nil => simp at hTwo
      | @point digits hDigits =>
        cases digits with
        | nil => simp at hTwo
        | cons d more =>
          exact ⟨46, _, rfl, .inr ⟨rfl, d, _, rfl, hDigits d List.mem_cons_self⟩⟩

/-- The bytes of a decimal numeral. -/
theorem IsDecimal.mem (h : IsDecimal whole fraction exponent) {b : UInt8}
    (hb : b ∈ whole ++ (fraction ++ exponent)) :
    Bytes.isDigit b = true ∨ b ∈ [46, 101, 69, 43, 45] := by
  rcases List.mem_append.1 hb with hb | hb
  · exact .inl (h.digits b hb)
  rcases List.mem_append.1 hb with hb | hb
  · cases h.fraction with
    | nil => cases hb
    | point hDigits =>
      rcases List.mem_cons.1 hb with rfl | hb
      · exact .inr (by decide)
      · exact .inl (hDigits b hb)
  · cases h.exponent with
    | nil => cases hb
    | letter hLetter hSign _ hDigits =>
      rcases List.mem_cons.1 hb with rfl | hb
      · right
        rcases hLetter with rfl | rfl <;> decide
      rcases List.mem_append.1 hb with hb | hb
      · right
        simp only [List.mem_cons, List.not_mem_nil, or_false] at hSign
        rcases hSign with rfl | rfl | rfl <;> simp_all
      · exact .inl (hDigits b hb)

/-- A decimal numeral of digits alone has no fraction and no exponent. -/
theorem IsDecimal.eq_whole (h : IsDecimal whole fraction exponent)
    (hDigits : ∀ d ∈ whole ++ (fraction ++ exponent), Bytes.isDigit d = true) :
    fraction = [] ∧ exponent = [] := by
  have hTail (d : UInt8) (hd : d ∈ fraction ++ exponent) : Bytes.isDigit d = true :=
    hDigits d (List.mem_append_right _ hd)
  constructor
  · cases h.fraction with
    | nil => rfl
    | point => exact absurd (hTail 46 (by simp)) (by decide)
  · cases h.exponent with
    | nil => rfl
    | @letter e _ _ hLetter =>
      have := hTail e (by simp)
      rcases hLetter with rfl | rfl <;> exact absurd this (by decide)

theorem IsDecimal.isHex_eq (h : IsDecimal whole fraction exponent) :
    isHex (whole ++ (fraction ++ exponent)) = false := by
  unfold isHex
  split
  · rename_i mark tail hRaw
    have hMark := h.mem (b := mark) (by rw [hRaw]; simp)
    apply Bool.eq_false_iff.2
    intro hHex
    have : mark = 120 ∨ mark = 88 := by simpa using hHex
    rcases this with rfl | rfl <;> exact absurd hMark (by decide)
  · rfl

theorem IsDecimal.isOctal_eq (h : IsDecimal whole fraction exponent) :
    isOctal (whole ++ (fraction ++ exponent)) = false := by
  apply Bool.eq_false_iff.2
  intro hOctal
  obtain ⟨rfl, rfl⟩ := h.eq_whole (digits_of_isOctal hOctal)
  rw [List.append_nil, List.append_nil, h.not_octal] at hOctal
  cases hOctal

theorem not_isHex_of_isOctal (h : isOctal raw = true) : isHex raw = false := by
  obtain ⟨d, more, rfl, hDigits⟩ := isOctal_iff.1 h
  have := hDigits d List.mem_cons_self
  simp only [Bytes.isOctalDigit] at this
  simp only [isHex]
  grind

theorem not_isDigit_letter {e : UInt8} (h : e = 101 ∨ e = 69) : Bytes.isDigit e = false := by
  rcases h with rfl | rfl <;> decide

/-- A numeral goes on with every digit. -/
theorem Written.concat (h : Written raw) {d : UInt8} (hd : Bytes.isDigit d = true) :
    Written (raw ++ [d]) := by
  have snoc {digits : Bytes} (hDigits : ∀ c ∈ digits, Bytes.isDigit c = true) :
      ∀ c ∈ digits ++ [d], Bytes.isDigit c = true := by
    simpa [or_imp, forall_and] using ⟨hDigits, hd⟩
  cases h with
  | hex hMark _ hDigits =>
    apply Written.hex hMark (by simp)
    intro c hc
    rcases List.mem_append.1 hc with hc | hc
    · exact hDigits c hc
    · rw [List.mem_singleton.1 hc]
      exact isHexDigit_of_isDigit hd
  | octal hOctal => exact written_digits (snoc (digits_of_isOctal hOctal)) (by simp)
  | @decimal whole fraction exponent hDecimal =>
    obtain ⟨hDigits, hOctal, hDigit, hFraction, hExponent⟩ := hDecimal
    cases hExponent with
    | @letter e sign digits hLetter hSign hSome hAll =>
      have hMore : IsExponent (e :: (sign ++ (digits ++ [d]))) :=
        .letter hLetter hSign (by simp) (snoc hAll)
      simpa using Written.decimal ⟨hDigits, hOctal, hDigit, hFraction, hMore⟩
    | nil =>
      cases hFraction with
      | @point digits hAll =>
        have hMore : IsFraction (46 :: (digits ++ [d])) := .point (snoc hAll)
        have hTwo : 2 ≤ (46 :: (digits ++ [d])).length := by simp
        simpa using Written.decimal ⟨hDigits, hOctal, .inr hTwo, hMore, .nil⟩
      | nil => simpa using written_digits (snoc hDigits) (by simp)

/-! ### The longest numeral -/

theorem Longest.eq_nil (h : Longest raw rest) {back : Bytes} (hBack : back <+: rest)
    (hWritten : Written (raw ++ back)) : back = [] := by
  have := h.length_le _ hWritten ((List.prefix_append_right_inj raw).2 hBack)
  rw [List.length_append] at this
  exact List.eq_nil_of_length_eq_zero (by omega)

theorem Longest.not_written {b : UInt8} (h : Longest raw (b :: rest)) : ¬Written (raw ++ [b]) := by
  intro hWritten
  have := h.eq_nil (List.cons_prefix_cons.2 ⟨rfl, List.nil_prefix⟩) hWritten
  cases this

theorem Longest.not_digit (h : Longest raw rest) (b : UInt8) (hb : rest.head? = some b) :
    Bytes.isDigit b = false := by
  cases rest with
  | nil => cases hb
  | cons c rest =>
    obtain rfl : c = b := by simpa using hb
    apply Bool.eq_false_iff.2
    intro hDigit
    exact h.not_written (h.written.concat hDigit)

/-- Where there is a numeral there is a longest one. -/
theorem exists_longest {text : Bytes} (h : Written raw) (hPrefix : raw <+: text) :
    ∃ front back, text = front ++ back ∧ Longest front back := by
  classical
  let n := Nat.findGreatest (fun n => Written (text.take n)) text.length
  have hRaw : Written (text.take raw.length) := by
    rwa [← List.prefix_iff_eq_take.1 hPrefix]
  have hWritten : Written (text.take n) :=
    Nat.findGreatest_spec (P := fun n => Written (text.take n)) hPrefix.length_le hRaw
  refine ⟨text.take n, text.drop n, (List.take_append_drop n text).symm, hWritten, ?_⟩
  intro other hOther hFront
  rw [List.take_append_drop] at hFront
  rw [List.length_take_of_le (Nat.findGreatest_le _)]
  apply Nat.le_findGreatest hFront.length_le
  rwa [← List.prefix_iff_eq_take.1 hFront]

/-- A digit, or a point with a digit behind it, begins a numeral. -/
theorem exists_longest_cons {b : UInt8} {rest : Bytes}
    (h : Bytes.isDigit b = true ∨ b = 46 ∧ Bytes.isDigit (rest.headD 0) = true) :
    ∃ front back, b :: rest = front ++ back ∧ Longest front back := by
  rcases h with hDigit | ⟨rfl, hDigit⟩
  · have hWritten : Written [b] :=
      written_digits (List.forall_mem_singleton.2 hDigit) (List.cons_ne_nil _ _)
    exact exists_longest hWritten ⟨rest, rfl⟩
  · cases rest with
    | nil => exact absurd hDigit (by decide)
    | cons d rest =>
      have hPoint : IsDecimal [] [46, d] [] :=
        ⟨List.forall_mem_nil _, rfl, .inr (Nat.le_refl _),
          .point (List.forall_mem_singleton.2 hDigit), .nil⟩
      exact exists_longest (Written.decimal hPoint) ⟨rest, rfl⟩

/-! ### Reading it -/

/-- A text without the mark of a hexadecimal numeral is read by its leading digits. -/
theorem scan_unmarked {text : Bytes} (h : isHex text = false) : scan text =
    if isOctal (text.takeWhile Bytes.isDigit) then
      if Bytes.valueInBase 8 (text.takeWhile Bytes.isDigit) ≥ limit then
        Scan.fail (.invalidOctalLiteral "value out of range")
          (text.takeWhile Bytes.isDigit).length
      else .ok ((text.takeWhile Bytes.isDigit).length,
        Binary64.ofNat (Bytes.valueInBase 8 (text.takeWhile Bytes.isDigit)))
    else scanDecimal (text.takeWhile Bytes.isDigit).length text := by
  unfold scan
  split
  · simp [isHex] at h
  · simp [isHex] at h
  · rfl

/-- The scanner answers with what is wrong with the numeral, or with the numeral. -/
def Answers (raw rest : Bytes) (answer : Scan Binary64) : Prop :=
  match fault? raw rest with
  | some fault => ∃ width, answer = Scan.fail fault width
  | none => ∃ value, answer = .ok (raw.length, value)

theorem Longest.scan_hex {mark : UInt8} {digits : Bytes} (h : Longest (48 :: mark :: digits) rest)
    (hMark : mark = 120 ∨ mark = 88) (hSome : digits ≠ [])
    (hDigits : ∀ d ∈ digits, Bytes.isHexDigit d = true) :
    Answers (48 :: mark :: digits) rest (scan (48 :: mark :: digits ++ rest)) := by
  have hScan : scan (48 :: mark :: digits ++ rest) = scanHex (digits ++ rest) := by
    rcases hMark with rfl | rfl <;> rfl
  have hHex : isHex (48 :: mark :: digits) = true := by
    rcases hMark with rfl | rfl <;> rfl
  have hEnd (b : UInt8) (hb : rest.head? = some b) : Bytes.isHexDigit b = false := by
    obtain ⟨more, rfl⟩ := List.head?_eq_some_iff.1 hb
    apply Bool.eq_false_iff.2
    intro hDigit
    apply h.not_written
    apply Written.hex hMark (List.append_ne_nil_of_left_ne_nil hSome [b])
    intro c hc
    rcases List.mem_append.1 hc with hc | hc
    · exact hDigits c hc
    · rwa [List.mem_singleton.1 hc]
  have hTake := takeWhile_exact hDigits hEnd
  have hDrop : (48 :: mark :: digits).drop 2 = digits := rfl
  have hLength : (48 :: mark :: digits).length = 2 + digits.length := by
    simp only [List.length_cons]
    omega
  rw [hScan, scanHex, hTake, Answers, fault?, if_pos hHex, hDrop, hLength]
  by_cases hLimit : Bytes.valueInBase 16 digits ≥ limit
  · simp [hSome, hLimit]
  · simp [hSome, hLimit]

theorem Longest.scan_octal (h : Longest raw rest) (hOctal : isOctal raw = true) :
    Answers raw rest (scan (raw ++ rest)) := by
  have hTake := takeWhile_exact (digits_of_isOctal hOctal) h.not_digit
  have hHex := not_isHex_of_isOctal hOctal
  have hUnmarked : isHex (raw ++ rest) = false := by
    obtain ⟨d, more, rfl, -⟩ := isOctal_iff.1 hOctal
    exact hHex
  rw [scan_unmarked hUnmarked, hTake, Answers, fault?, if_neg (by simp [hHex]), if_pos hOctal,
    if_pos hOctal]
  by_cases hLimit : Bytes.valueInBase 8 raw ≥ limit
  · simp [hLimit]
  · simp [hLimit]

/-- Behind a zero there may be the mark of a hexadecimal numeral that has no digits. -/
theorem Longest.scan_marked (h : Longest (whole ++ (fraction ++ exponent)) rest)
    (hDecimal : IsDecimal whole fraction exponent)
    (hMarked : isHex (whole ++ (fraction ++ exponent) ++ rest) = true) :
    Answers (whole ++ (fraction ++ exponent)) rest
      (scan (whole ++ (fraction ++ exponent) ++ rest)) := by
  have hHex := hDecimal.isHex_eq
  obtain ⟨b, tail, hRaw, -⟩ := h.written.starts
  rw [hRaw] at h hMarked hHex ⊢
  obtain ⟨mark, after, rfl, rfl, rfl, hMark⟩ : ∃ mark after, b = 48 ∧ tail = [] ∧
      rest = mark :: after ∧ (mark = 120 ∨ mark = 88) := by
    unfold isHex at hMarked
    split at hMarked
    · rename_i mark after hText
      rw [List.cons_append] at hText
      obtain ⟨rfl, hBehind⟩ := List.cons.inj hText
      cases tail with
      | nil => exact ⟨mark, after, rfl, rfl, hBehind, by simpa using hMarked⟩
      | cons c tail =>
        have hMark : c = mark := (List.cons.inj hBehind).1
        rw [isHex, hMark, hMarked] at hHex
        cases hHex
    · cases hMarked
  have hNone : after.takeWhile Bytes.isHexDigit = [] := by
    cases after with
    | nil => rfl
    | cons d after =>
      apply List.takeWhile_cons_of_neg
      intro hDigit
      have hWritten : Written ([48] ++ [mark, d]) :=
        .hex hMark (by simp) (List.forall_mem_singleton.2 hDigit)
      have := h.eq_nil ⟨after, rfl⟩ hWritten
      cases this
  have hScan : scan ([48] ++ mark :: after) = scanHex after := by
    rcases hMark with rfl | rfl <;> rfl
  have hFault : fault? [48] (mark :: after) = some (.invalidHexLiteral "invalid syntax") := by
    rcases hMark with rfl | rfl <;> rfl
  rw [Answers, hFault, hScan, scanHex, hNone]
  exact ⟨2, rfl⟩

theorem IsDecimal.hasExponent_iff (h : IsDecimal whole fraction exponent) :
    hasExponent (whole ++ (fraction ++ exponent)) = true ↔ exponent ≠ [] := by
  have hDigit {d : UInt8} (hd : Bytes.isDigit d = true) : (d = 101 || d = 69) = false := by
    apply Bool.eq_false_iff.2
    intro hLetter
    rw [not_isDigit_letter (by simpa using hLetter)] at hd
    cases hd
  have hFront : whole.any (fun c => c = 101 || c = 69) = false ∧
      fraction.any (fun c => c = 101 || c = 69) = false := by
    constructor
    · exact List.any_eq_false.2 fun d hd => by simp [hDigit (h.digits d hd)]
    · cases h.fraction with
      | nil => rfl
      | point hDigits =>
        apply List.any_eq_false.2
        intro d hd
        rcases List.mem_cons.1 hd with rfl | hd
        · decide
        · simp [hDigit (hDigits d hd)]
  rw [hasExponent, List.any_append, List.any_append, hFront.1, hFront.2, Bool.false_or,
    Bool.false_or]
  cases h.exponent with
  | nil => simp
  | letter hLetter => simp [hLetter]

/-- What is read as an exponent is one. -/
theorem exists_exponent {text : Bytes} {width : Nat} (h : exponentWidth text = .ok (width + 1)) :
    ∃ front, IsExponent front ∧ front ≠ [] ∧ front <+: text := by
  obtain ⟨e, sign, digits, rfl, hLetter, hSign, hPos, -⟩ := exponentWidth_pos h
  refine ⟨e :: (sign ++ digits.takeWhile Bytes.isDigit), ?_, List.cons_ne_nil _ _, ?_⟩
  · apply IsExponent.letter
    · simpa using hLetter
    · exact hSign
    · exact List.length_pos_iff.1 hPos
    · exact List.all_eq_true.1 List.all_takeWhile
  · apply List.cons_prefix_cons.2
    exact ⟨rfl, (List.prefix_append_right_inj sign).2 (List.takeWhile_prefix _)⟩

/-- Behind the longest numeral there is no exponent that it could have had. -/
theorem Longest.exponentWidth_ne (h : Longest (whole ++ (fraction ++ [])) rest)
    (hDecimal : IsDecimal whole fraction []) (width : Nat) :
    exponentWidth rest ≠ .ok (width + 1) := by
  intro hWidth
  obtain ⟨front, hExponent, hSome, hFront⟩ := exists_exponent hWidth
  have hMore : IsDecimal whole fraction front := { hDecimal with exponent := hExponent }
  apply hSome
  apply h.eq_nil hFront
  simpa using Written.decimal hMore

/-- The exponent is read as it is written. Without one nothing is, or there is a letter with no
digits behind it. -/
theorem Longest.exponentWidth_cases (h : Longest (whole ++ (fraction ++ exponent)) rest)
    (hDecimal : IsDecimal whole fraction exponent) :
    (exponentWidth (exponent ++ rest) = .ok exponent.length ∧
      (exponent = [] → ∀ b, rest.head? = some b → b ≠ 101 ∧ b ≠ 69)) ∨
    (exponent = [] ∧ ∃ e more width, rest = e :: more ∧ (e = 101 ∨ e = 69) ∧
      exponentWidth rest = .error width) := by
  cases hDecimal.exponent with
  | @letter e sign digits hLetter hSign hSome hAll =>
    have hTake := takeWhile_exact hAll h.not_digit
    have hPos : 0 < ((digits ++ rest).takeWhile Bytes.isDigit).length := by
      rw [hTake]
      exact List.length_pos_iff.2 hSome
    have hWidth := exponentWidth_digits (by simpa using hLetter) hSign hPos
    left
    constructor
    · rw [List.cons_append, List.append_assoc, hWidth, hTake]
      simp only [List.length_cons, List.length_append]
      congr 1
      omega
    · intro hNil
      cases hNil
  | nil =>
    cases rest with
    | nil => exact .inl ⟨rfl, fun _ b hb => by cases hb⟩
    | cons e more =>
      by_cases hLetter : e = 101 ∨ e = 69
      · right
        cases hWidth : exponentWidth (e :: more) with
        | error width => exact ⟨rfl, e, more, width, rfl, hLetter, rfl⟩
        | ok width =>
          cases width with
          | zero =>
            unfold exponentWidth at hWidth
            grind
          | succ width => exact absurd hWidth (h.exponentWidth_ne hDecimal width)
      · left
        constructor
        · simp [exponentWidth, hLetter]
        · intro _ b hb
          obtain rfl : e = b := by simpa using hb
          exact not_or.1 hLetter

theorem Longest.fractionWidth_eq (h : Longest (whole ++ (fraction ++ exponent)) rest)
    (hDecimal : IsDecimal whole fraction exponent) :
    (∀ b, (fraction ++ (exponent ++ rest)).head? = some b → Bytes.isDigit b = false) ∧
      fractionWidth (fraction ++ (exponent ++ rest)) = fraction.length := by
  have hEnd := h.not_digit
  obtain ⟨hDigits, hOctal, hDigit, hFraction, hExponent⟩ := hDecimal
  have hTail (b : UInt8) (hb : (exponent ++ rest).head? = some b) :
      Bytes.isDigit b = false ∧ (fraction = [] → b ≠ 46) := by
    cases hExponent with
    | letter hLetter =>
      obtain rfl : _ = b := by simpa using hb
      constructor
      · exact not_isDigit_letter hLetter
      · intro _
        rcases hLetter with rfl | rfl <;> decide
    | nil =>
      refine ⟨hEnd b hb, ?_⟩
      rintro rfl rfl
      obtain ⟨more, rfl⟩ := List.head?_eq_some_iff.1 hb
      have hPoint : IsDecimal whole [46] [] :=
        ⟨hDigits, hOctal, .inl (hDigit.resolve_right (by simp)), .point (List.forall_mem_nil _),
          .nil⟩
      apply h.not_written
      simpa using Written.decimal hPoint
  cases hFraction with
  | nil =>
    refine ⟨fun b hb => (hTail b hb).1, ?_⟩
    rw [List.nil_append]
    unfold fractionWidth
    split
    · rename_i more hText
      exact absurd rfl ((hTail 46 (by rw [hText]; rfl)).2 rfl)
    · rfl
  | point hAll =>
    constructor
    · intro b hb
      obtain rfl : 46 = b := by simpa using hb
      decide
    · rw [List.cons_append, fractionWidth, takeWhile_exact hAll fun b hb => (hTail b hb).1,
        List.length_cons]
      omega

theorem clash?_eq_none {b : UInt8} : clash? raw b = none ↔ Word.isStartByte b = false := by
  unfold clash?
  grind

theorem clash?_unmarked {b : UInt8} (hMarked : isHex (raw ++ b :: rest) = false)
    (hStart : Word.isStartByte b = true) : clash? raw b =
      if (b = 101 || b = 69) && !hasExponent raw then some .missingExponent
      else some .identifierAfterNumber := by
  have hZero : (raw = [48] && (b = 120 || b = 88)) = false := by
    apply Bool.eq_false_iff.2
    intro hZero
    obtain ⟨hRaw, hMark⟩ : raw = [48] ∧ (b = 120 || b = 88) = true := by simpa using hZero
    rw [hRaw, List.singleton_append, isHex, hMark] at hMarked
    cases hMarked
  rw [clash?, if_neg (by simp [hStart]), hZero]
  rfl

/-- How a decimal numeral is read whose fraction and exponent are read as they are written. -/
theorem scanDecimal_parts (whole : Bytes)
    (hFraction : fractionWidth (fraction ++ (exponent ++ rest)) = fraction.length) :
    (∀ width, exponentWidth (exponent ++ rest) = .error width → ∃ stop,
      scanDecimal whole.length (whole ++ (fraction ++ (exponent ++ rest))) =
        Scan.fail .missingExponent stop) ∧
    (exponentWidth (exponent ++ rest) = .ok exponent.length →
      (∀ b, rest.head? = some b → Word.isStartByte b = true → ∃ stop,
        scanDecimal whole.length (whole ++ (fraction ++ (exponent ++ rest))) =
          Scan.fail .identifierAfterNumber stop) ∧
      ((∀ b, rest.head? = some b → Word.isStartByte b = false) → ∃ value,
        scanDecimal whole.length (whole ++ (fraction ++ (exponent ++ rest))) =
          .ok ((whole ++ (fraction ++ exponent)).length, value))) := by
  have hMantissa : (whole ++ (fraction ++ (exponent ++ rest))).drop
      (whole.length + fraction.length) = exponent ++ rest := by
    rw [← List.drop_drop, List.drop_left, List.drop_left]
  have hBehind : (whole ++ (fraction ++ (exponent ++ rest))).drop
      (whole.length + fraction.length + exponent.length) = rest := by
    rw [← List.drop_drop, hMantissa, List.drop_left]
  have hLength : (whole ++ (fraction ++ exponent)).length =
      whole.length + fraction.length + exponent.length := by
    simp [Nat.add_assoc]
  rw [scanDecimal, List.drop_left, hFraction, hMantissa]
  constructor
  · intro width hError
    rw [hError]
    exact ⟨_, rfl⟩
  · intro hOk
    rw [hOk]
    dsimp only
    rw [hBehind, hLength]
    constructor
    · intro b hb hStart
      obtain ⟨more, rfl⟩ := List.head?_eq_some_iff.1 hb
      dsimp only
      rw [if_pos hStart]
      exact ⟨_, rfl⟩
    · intro hNone
      cases rest with
      | nil => exact ⟨_, rfl⟩
      | cons b rest =>
        dsimp only
        rw [if_neg (Bool.eq_false_iff.1 (hNone b rfl))]
        exact ⟨_, rfl⟩

theorem Longest.scan_decimal (h : Longest (whole ++ (fraction ++ exponent)) rest)
    (hDecimal : IsDecimal whole fraction exponent) :
    Answers (whole ++ (fraction ++ exponent)) rest
      (scan (whole ++ (fraction ++ exponent) ++ rest)) := by
  by_cases hMarked : isHex (whole ++ (fraction ++ exponent) ++ rest) = true
  · exact h.scan_marked hDecimal hMarked
  rw [Bool.not_eq_true] at hMarked
  obtain ⟨hTail, hFraction⟩ := h.fractionWidth_eq hDecimal
  obtain ⟨hMissing, hRead⟩ := scanDecimal_parts whole hFraction
  have hText : whole ++ (fraction ++ exponent) ++ rest =
      whole ++ (fraction ++ (exponent ++ rest)) := by simp
  rw [scan_unmarked hMarked, hText, takeWhile_exact hDecimal.digits hTail,
    if_neg (by simp [hDecimal.not_octal]), Answers, fault?, if_neg (by simp [hDecimal.isHex_eq]),
    if_neg (by simp [hDecimal.isOctal_eq])]
  have hHas := hDecimal.hasExponent_iff
  rcases h.exponentWidth_cases hDecimal with ⟨hOk, hPlain⟩ |
    ⟨rfl, e, more, width, rfl, hLetter, hError⟩
  · obtain ⟨hWord, hNumber⟩ := hRead hOk
    cases rest with
    | nil => exact hNumber nofun
    | cons b rest =>
      rw [List.head?_cons, Option.bind_some]
      by_cases hStart : Word.isStartByte b = true
      · have hElse : ((b = 101 || b = 69) &&
            !hasExponent (whole ++ (fraction ++ exponent))) = false := by
          by_cases hNil : exponent = []
          · simp [hPlain hNil b rfl]
          · simp [hHas.2 hNil]
        rw [clash?_unmarked hMarked hStart, hElse]
        exact hWord b rfl hStart
      · rw [clash?_eq_none.2 (Bool.not_eq_true _ ▸ hStart)]
        apply hNumber
        intro c hc
        obtain rfl : b = c := by simpa using hc
        exact Bool.not_eq_true _ ▸ hStart
  · have hStart : Word.isStartByte e = true := by
      rcases hLetter with rfl | rfl <;> decide
    have hElse : ((e = 101 || e = 69) && !hasExponent (whole ++ (fraction ++ []))) = true := by
      have hNone : hasExponent (whole ++ (fraction ++ [])) = false :=
        Bool.eq_false_iff.2 fun hSome => hHas.1 hSome rfl
      rw [hNone]
      simp [hLetter]
    rw [List.head?_cons, Option.bind_some, clash?_unmarked hMarked hStart, hElse]
    exact hMissing width hError

/-- Where the longest numeral is, the scanner finds the fault with it or takes it. -/
theorem scan_longest (h : Longest raw rest) : Answers raw rest (scan (raw ++ rest)) := by
  cases h.written with
  | hex hMark hSome hDigits => exact h.scan_hex hMark hSome hDigits
  | octal hOctal => exact h.scan_octal hOctal
  | decimal hDecimal => exact h.scan_decimal hDecimal

end Numeral

end ScriptOptimizer
