import Mathlib.Data.List.TakeWhile
import ScriptOptimizer.Proofs.Token.LineBreak
import ScriptOptimizer.Proofs.Token.Names
import ScriptOptimizer.Proofs.Token.Position
import ScriptOptimizer.Proofs.Token.Text

/-!
Tokens on one line. A line may end in a string, a regular expression or a comment, but in no other
token; one in which no line ends stops on the line where it starts.
-/

namespace ScriptOptimizer

namespace Bytes

/-- No byte of the text is the first one of a line terminator. -/
def Lineless (text : Bytes) : Prop := ∀ b ∈ text, b ≠ 10 ∧ b ≠ 13 ∧ b ≠ 0xE2

instance (text : Bytes) : Decidable text.Lineless :=
  List.decidableBAll (fun b => b ≠ 10 ∧ b ≠ 13 ∧ b ≠ 0xE2) text

variable {text front back : Bytes}

theorem Lineless.append (h : Lineless front) (h' : Lineless back) : Lineless (front ++ back) :=
  fun b hb => (List.mem_append.1 hb).elim (h b) (h' b)

theorem Lineless.unbroken (h : Lineless text) : ¬LineBroken text := by
  rintro ⟨rune, hRune, hInfix⟩
  have hFirst : ∀ rune ∈ lineTerminators, ∃ b ∈ Utf8.encode rune, b = 10 ∨ b = 13 ∨ b = 0xE2 := by
    decide
  obtain ⟨b, hb, hLead⟩ := hFirst rune hRune
  have := h b (hInfix.subset hb)
  grind

theorem lineless_of_all {p : UInt8 → Bool} (h : p 10 = false ∧ p 13 = false ∧ p 0xE2 = false)
    (hText : ∀ b ∈ text, p b = true) : Lineless text := by
  intro b hb
  have hp := hText b hb
  refine ⟨?_, ?_, ?_⟩ <;> rintro rfl <;> simp_all

theorem lineless_takeWhile {p : UInt8 → Bool} (h : p 10 = false ∧ p 13 = false ∧ p 0xE2 = false) :
    Lineless (text.takeWhile p) :=
  lineless_of_all h fun _ => List.mem_takeWhile_imp

theorem lineBroken_of_mem {b : UInt8} (h : b ∈ text) (hb : b = 10 ∨ b = 13) : LineBroken text := by
  obtain ⟨front, back, rfl⟩ := List.append_of_mem h
  rcases hb with rfl | rfl
  · exact ⟨10, by decide, front, back, List.append_assoc _ _ _⟩
  · exact ⟨13, by decide, front, back, List.append_assoc _ _ _⟩

theorem getElem?_slice {start stop i : Nat} (hStart : start ≤ i) (hStop : i < stop) :
    (text.slice start stop)[i - start]? = text[i]? := by
  rw [slice, List.getElem?_take_of_lt (by omega), List.getElem?_drop]
  congr 1
  omega

/-- Only line terminators are written as such. -/
theorem encode_unbroken {rune : Nat} (hScalar : Utf8.isScalar rune = true)
    (hRune : rune ∉ lineTerminators) : ¬LineBroken (Utf8.encode rune) := by
  have hDecode := Utf8.decode?_encode_scalar hScalar
  cases hEncode : Utf8.encode rune with
  | nil => exact not_lineBroken_nil
  | cons b tail =>
    rw [hEncode] at hDecode
    have hTail : LineBroken (tail ++ []) ↔ LineBroken [] :=
      lineBroken_continuations (Utf8.decode?_continues hDecode)
    rw [List.append_nil] at hTail
    rw [lineBroken_cons, hTail, startsWithLineBreak_iff]
    rintro (⟨line, hLine, more, hText⟩ | hNil)
    · have hRead := Utf8.decode?_append more (Utf8.decode?_encode_mended line)
      rw [hText, hDecode] at hRead
      have hMended : ∀ line ∈ lineTerminators, Utf8.mended line = line := by decide
      simp only [Option.some.injEq, Prod.mk.injEq, hMended line hLine] at hRead
      exact hRune (hRead.1 ▸ hLine)
    · exact not_lineBroken_nil hNil

/-- A part of the text that begins between two characters and has no line terminator in it has no
end of a line in it. -/
theorem endsLineAt_eq_false {start stop : Nat} (hBegins : Utf8.Begins (text.slice start stop))
    (hUnbroken : ¬LineBroken (text.slice start stop)) {i : Nat} (hStart : start ≤ i)
    (hStop : i < stop) : text.endsLineAt i = false := by
  have hByte {j : Nat} {b : UInt8} (hLow : start ≤ j) (hHigh : j < stop) (h : text[j]? = some b) :
      (text.slice start stop)[j - start]? = some b := (getElem?_slice hLow hHigh).trans h
  have hNone {b : UInt8} (h : text[i]? = some b) : b ≠ 10 ∧ b ≠ 13 := by
    have hMem := List.mem_of_getElem? (hByte hStart hStop h)
    exact ⟨fun hb => hUnbroken (lineBroken_of_mem hMem (.inl hb)),
      fun hb => hUnbroken (lineBroken_of_mem hMem (.inr hb))⟩
  -- The three bytes of a separator lie in the part, since it does not begin with a later one.
  have hFront {b : UInt8} (h : text[start]? = some b) : Utf8.isContinuation b = false := by
    refine hBegins b ?_
    rw [List.head?_eq_getElem?, ← Nat.sub_self start]
    exact hByte (Nat.le_refl _) (by omega) h
  have hNotTail (j : Nat) (b : UInt8) (hContinues : Utf8.isContinuation b = true)
      (h : text[j]? = some b) : start ≠ j := by
    rintro rfl
    rw [hFront h] at hContinues
    cases hContinues
  have hSeparator (hTwo : 2 ≤ i) (hFirst : text[i - 2]? = some 0xE2)
      (hSecond : text[i - 1]? = some 0x80) {c : UInt8} (hThird : text[i]? = some c)
      (hLast : c = 0xA8 ∨ c = 0xA9) : False := by
    have hTail : Utf8.isContinuation c = true := by rcases hLast with rfl | rfl <;> decide
    have hLow := hNotTail (i - 1) 0x80 (by decide) hSecond
    have hHere := hNotTail i c hTail hThird
    have hBytes : [0xE2, 0x80, c] <+: (text.slice start stop).drop (i - 2 - start) := by
      refine List.prefix_iff_getElem?.2 fun k hk => ?_
      rw [List.getElem?_drop, show i - 2 - start + k = i - 2 + k - start by omega]
      match k with
      | 0 => exact hByte (by omega) (by omega) hFirst
      | 1 => exact hByte (by omega) (by omega) (by rwa [show i - 2 + 1 = i - 1 by omega])
      | 2 => exact hByte (by omega) (by omega) (by rwa [show i - 2 + 2 = i by omega])
    have hInfix := hBytes.isInfix.trans (List.drop_suffix _ _).isInfix
    rcases hLast with rfl | rfl
    · exact hUnbroken ⟨0x2028, by decide, hInfix⟩
    · exact hUnbroken ⟨0x2029, by decide, hInfix⟩
  rw [Bool.eq_false_iff]
  intro hEnds
  simp only [endsLineAt, Bool.or_eq_true, Bool.and_eq_true, decide_eq_true_eq] at hEnds
  obtain (hFeed | hReturn) | ⟨⟨⟨hTwo, hFirst⟩, hSecond⟩, hThird⟩ := hEnds
  · exact (hNone hFeed).1 rfl
  · exact (hNone hReturn.1).2 rfl
  · rcases hThird with hThird | hThird
    · exact hSeparator hTwo hFirst hSecond hThird (.inl rfl)
    · exact hSeparator hTwo hFirst hSecond hThird (.inr rfl)

end Bytes

open Bytes (Lineless LineBroken lineBroken_append)

/-! ### Numbers and words -/

namespace Numeral

theorem fraction_lineless (text : Bytes) : Lineless (text.take (fractionWidth text)) := by
  fun_cases fractionWidth text with
  | case1 digits =>
    rw [Nat.add_comm 1, List.take_succ_cons, take_takeWhile]
    exact Lineless.append (by decide : Lineless [46]) (Bytes.lineless_takeWhile (by decide))
  | case2 =>
    rw [List.take_zero]
    exact List.forall_mem_nil _

theorem exponent_lineless {text : Bytes} {width : Nat} (h : exponentWidth text = .ok width) :
    Lineless (text.take width) := by
  cases width with
  | zero =>
    rw [List.take_zero]
    exact List.forall_mem_nil _
  | succ width =>
    obtain ⟨e, sign, digits, rfl, hLetter, hSign, -, rfl⟩ := exponentWidth_pos h
    have hMark : Lineless (e :: sign) := by
      have hLetter : e = 101 ∨ e = 69 := by simpa using hLetter
      simp only [List.mem_cons, List.not_mem_nil, or_false] at hSign
      rcases hLetter with rfl | rfl <;> rcases hSign with rfl | rfl | rfl <;> decide
    rw [List.take_succ_cons, List.take_length_add_append, take_takeWhile]
    exact hMark.append (Bytes.lineless_takeWhile (by decide))

/-- A numeral is made of digits, letters, signs and points. -/
theorem scan_lineless {text : Bytes} {width : Nat} {value : Binary64}
    (h : scan text = .ok (width, value)) : Lineless (text.take width) := by
  have hHex {rest : Bytes} {mark : UInt8} (hMark : Lineless [48, mark])
      (h : scanHex rest = .ok (width, value)) : Lineless ((48 :: mark :: rest).take width) := by
    unfold scanHex at h
    dsimp only at h
    split at h
    · cases h
    · split at h
      · cases h
      · simp only [Except.ok.injEq, Prod.mk.injEq] at h
        rw [← h.1, List.take_add]
        exact hMark.append (by
          rw [List.drop_succ_cons, List.drop_one, List.tail_cons, take_takeWhile]
          exact Bytes.lineless_takeWhile (by decide))
  unfold scan at h
  split at h
  · exact hHex (by decide) h
  · exact hHex (by decide) h
  · dsimp only at h
    split at h
    · split at h
      · cases h
      · simp only [Except.ok.injEq, Prod.mk.injEq] at h
        rw [← h.1, take_takeWhile]
        exact Bytes.lineless_takeWhile (by decide)
    · obtain ⟨exponent, rfl, hExponent, -⟩ := scanDecimal_ok h
      rw [List.take_add, List.take_add, take_takeWhile]
      exact ((Bytes.lineless_takeWhile (by decide)).append (fraction_lineless _)).append
        (exponent_lineless hExponent)

end Numeral

namespace Word

/-- What is written for a character of a name is no line terminator and begins no sequence in the
middle. -/
theorem Character.Valid.unbroken {c : Character} (h : c.Valid) :
    Utf8.Begins c.text ∧ c.text ≠ [] ∧ ¬LineBroken c.text := by
  cases c with
  | itself rune =>
    obtain ⟨hPart, hScalar⟩ := h
    have hDecode := Utf8.decode?_encode_scalar hScalar
    have hNoBreak : ∀ rune ∈ lineTerminators, Word.isPart rune = false := by decide +kernel
    refine ⟨(Utf8.Text.encode rune).begins, fun hNil => ?_,
      Bytes.encode_unbroken hScalar fun hRune => ?_⟩
    · rw [show Utf8.encode rune = [] from hNil] at hDecode
      cases hDecode
    · rw [hNoBreak rune hRune] at hPart
      cases hPart
  | escape digits =>
    obtain ⟨-, hHex⟩ := h
    refine ⟨Utf8.Begins.of_low (by decide), List.cons_ne_nil _ _, Lineless.unbroken ?_⟩
    have hDigits : ∀ b ∈ digits, Bytes.isHexDigit b = true := by
      unfold Bytes.hex? at hHex
      grind
    exact Lineless.append (by decide : Lineless [92, 117])
      (Bytes.lineless_of_all (by decide) hDigits)

theorem Written.unbroken {cs : List Character} {raw name : Bytes} (h : Written cs raw name) :
    ¬LineBroken raw := by
  rw [h.raw_eq]
  have hCharacters : Utf8.Begins (cs.flatMap Character.text) ∧
      ¬LineBroken (cs.flatMap Character.text) := by
    have hValid := h.valid
    clear h
    induction cs with
    | nil => exact ⟨nofun, Bytes.not_lineBroken_nil⟩
    | cons c cs ih =>
      obtain ⟨hc, hcs⟩ := List.forall_mem_cons.1 hValid
      obtain ⟨hBegins, hUnbroken⟩ := ih hcs
      obtain ⟨hFirst, hNonempty, hWhole⟩ := hc.unbroken
      rw [List.flatMap_cons, lineBroken_append hBegins]
      exact ⟨hFirst.append_of_ne_nil hNonempty, not_or.2 ⟨hWhole, hUnbroken⟩⟩
  exact hCharacters.2

end Word

theorem Punctuator.text_lineless (mark : Punctuator) : Lineless (Bytes.ofString mark.text) := by
  cases mark <;> decide

namespace Lexeme

variable {before : Option Token} {text : Bytes} {lexeme : Lexeme}

/-- Only strings, regular expressions and comments have line terminators in them. -/
theorem scan_unbroken [PatternCheck] (h : scan before text = .ok lexeme)
    (hType : lexeme.type ∉ [.string, .regex, .comment]) :
    ¬LineBroken (text.take lexeme.width) := by
  cases comes_of_scan h with
  | finish => simp
  | numeral _ hScan => exact (Numeral.scan_lineless hScan).unbroken
  | word hStart hWord =>
    obtain ⟨⟨width, name⟩, hScan, rfl⟩ := bind_ok hWord
    obtain ⟨cs, hWritten, -⟩ := Word.written_of_scan hStart hScan
    exact hWritten.unbroken
  | mark _ hMark =>
    have hPrefix := List.prefix_iff_eq_take.1 (Punctuator.atStart?_isPrefix hMark)
    rw [Punctuator.length_ofString_text] at hPrefix
    rw [← hPrefix]
    exact (Punctuator.text_lineless _).unbroken
  | line => simp [lineComment] at hType
  | _ => simp at hType

end Lexeme

/-! ### Tokens -/

namespace Bytes

variable {text : Bytes} {start stop : Nat}

theorem lineAt_mono (text : Bytes) (h : start ≤ stop) : text.lineAt start ≤ text.lineAt stop := by
  induction stop, h using Nat.le_induction with
  | base => exact Nat.le_refl _
  | succ stop _ ih =>
    rw [lineAt_succ]
    omega

/-- The line is the same as long as none ends. -/
theorem lineAt_eq_iff (h : start ≤ stop) : text.lineAt stop = text.lineAt start ↔
    ∀ i, start ≤ i → i < stop → text.endsLineAt i = false := by
  induction stop, h using Nat.le_induction with
  | base => exact ⟨fun _ i hLow hHigh => by omega, fun _ => rfl⟩
  | succ stop hLe ih =>
    have hMono := text.lineAt_mono hLe
    rw [lineAt_succ]
    constructor
    · intro hSame i hLow hHigh
      have hEnds : text.endsLineAt stop = false := by
        refine Bool.eq_false_iff.2 fun hEnds => ?_
        rw [if_pos hEnds] at hSame
        omega
      rcases Nat.lt_succ_iff_lt_or_eq.1 hHigh with hBefore | rfl
      · rw [hEnds] at hSame
        exact ih.1 hSame i hLow hBefore
      · exact hEnds
    · intro hNone
      rw [hNone stop hLe (Nat.lt_succ_self _)]
      exact ih.2 fun i hLow hHigh => hNone i hLow (by omega)

/-- As long as no line ends the column grows byte by byte. -/
theorem columnAt_eq (h : start ≤ stop)
    (hNone : ∀ i, start ≤ i → i < stop → text.endsLineAt i = false) :
    text.columnAt stop = text.columnAt start + (stop - start) := by
  induction stop, h using Nat.le_induction with
  | base => simp
  | succ stop hLe ih =>
    have hHere := hNone stop hLe (Nat.lt_succ_self _)
    have := ih fun i hLow hHigh => hNone i hLow (by omega)
    rw [columnAt_succ, hHere, if_neg (by simp)]
    omega

end Bytes

/-- No line ends in the token. -/
def Token.OneLine (text : Bytes) (t : Token) : Prop :=
  ∀ i, t.start ≤ i → i < t.stop → text.endsLineAt i = false

namespace Lexer

/-- A token that counts has no end of a line in it, unless it is a string or a regular
expression. -/
theorem significant_oneLine [PatternCheck] (source : Source) :
    ∀ t ∈ (ofSource source).significant.1,
    t.type ∉ [.string, .regex] → t.OneLine source.content := by
  intro t ht hType i hStart hStop
  obtain ⟨hRun, hKept⟩ := List.mem_filter.1 ht
  have hKept : t.type ≠ .illegal ∧ t.type ≠ .comment := by simpa using hKept
  obtain ⟨step, hStep, rfl⟩ := List.mem_map.1 hRun
  obtain ⟨offset, hAdvances⟩ := (cuts_ofSource source).exists_advances hStep
  have hLiteral := hAdvances.literal_eq hKept.1
  obtain ⟨l, rfl⟩ := mem_steps hStep
  obtain ⟨before, read, lexeme, hScan, hMakes⟩ := next_scanned hKept.1
  rw [hMakes.literal_eq] at hLiteral
  refine Bytes.endsLineAt_eq_false ?_ ?_ hStart hStop
  · rw [← hLiteral]
    exact (Lexeme.scan_begins hScan).take _
  · rw [← hLiteral]
    refine Lexeme.scan_unbroken hScan ?_
    rw [← hMakes.type_eq]
    simp only [List.mem_cons, List.not_mem_nil, or_false, not_or] at hType ⊢
    exact ⟨hType.1, hType.2, hKept.2⟩

end Lexer

end ScriptOptimizer
