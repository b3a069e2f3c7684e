import ScriptOptimizer.Proofs.Token.Width

/-!
White space as a language of its own. A blank text is a sequence of code points that are white space
or line breaks; the gap before a token is such a text, and it lies inside the text it is read from.
-/

namespace ScriptOptimizer

/-- The code points that may stand between tokens: the ASCII blanks and line breaks, the byte order
mark, the two separators and every space separator. -/
def BlankRune (rune : Nat) : Prop :=
  rune ∈ [9, 10, 11, 12, 13, 32, 0xFEFF, 0x2028, 0x2029] ∨ Category.isSpaceSeparator rune = true

instance (rune : Nat) : Decidable (BlankRune rune) := inferInstanceAs (Decidable (_ ∨ _))

/-- A text of white space and line breaks only. -/
inductive Blank : Bytes → Prop
  | nil : Blank []
  | cons {character rest : Bytes} {rune : Nat} :
      Utf8.decode? character = some (rune, character.length) → BlankRune rune → Blank rest →
      Blank (character ++ rest)

/-- A sequence is decoded by its own bytes alone. -/
theorem Utf8.decode?_take {text : Bytes} {rune width : Nat}
    (h : decode? text = some (rune, width)) :
    decode? (text.take width) = some (rune, (text.take width).length) := by
  match text with
  | [] => simp [decode?] at h
  | [a] => unfold decode? at h ⊢; grind
  | [a, b] => unfold decode? at h ⊢; grind
  | [a, b, c] => unfold decode? at h ⊢; grind
  | a :: b :: c :: d :: rest => unfold decode? at h ⊢; grind

namespace Gap

/-- A blank at the front of a text is one code point of white space. -/
theorem blankWidth_decode {text : Bytes} {width : Nat} (h : blankWidth text = width + 1) :
    ∃ rune, Utf8.decode? text = some (rune, width + 1) ∧ BlankRune rune := by
  cases text with
  | nil => simp [blankWidth] at h
  | cons b rest =>
    simp only [blankWidth] at h
    split at h
    · rename_i hBlank
      obtain rfl : width = 0 := by omega
      have : b = 32 ∨ b = 9 ∨ b = 11 ∨ b = 12 := by simpa [or_assoc] using hBlank
      rcases this with rfl | rfl | rfl | rfl <;> exact ⟨_, rfl, by decide⟩
    · split at h
      · omega
      · split at h
        · rename_i hRune
          unfold Utf8.decode at h hRune
          cases hDecode : Utf8.decode? (b :: rest) with
          | none =>
            rw [hDecode] at hRune
            exact absurd hRune (by decide)
          | some pair =>
            rw [hDecode] at h hRune
            refine ⟨pair.1, by rw [← h]; rfl, ?_⟩
            unfold BlankRune
            grind
        · omega

theorem separator_decode {text : Bytes} (h : startsWithLineSeparator text = true) :
    ∃ rune, Utf8.decode? text = some (rune, 3) ∧ BlankRune rune := by
  unfold startsWithLineSeparator at h
  split at h
  · rename_i c rest
    have : c = 0xA8 ∨ c = 0xA9 := by simpa using h
    rcases this with rfl | rfl
    · exact ⟨0x2028, rfl, by decide⟩
    · exact ⟨0x2029, rfl, by decide⟩
  · cases h

theorem lineBreak_decode {b : UInt8} (rest : Bytes) (h : (b = 10 || b = 13) = true) :
    ∃ rune, Utf8.decode? (b :: rest) = some (rune, 1) ∧ BlankRune rune := by
  have : b = 10 ∨ b = 13 := by simpa using h
  rcases this with rfl | rfl
  · exact ⟨10, rfl, by decide⟩
  · exact ⟨13, rfl, by decide⟩

/-- One more code point before a blank text, of which `skip` bytes after the first are already
taken. -/
theorem prepend_blank {b : UInt8} {rest : Bytes} {rune skip width : Nat}
    (hDecode : Utf8.decode? (b :: rest) = some (rune, skip + 1)) (hRune : BlankRune rune)
    (hSkip : skip ≤ width) (h : Blank ((rest.take width).drop skip)) :
    Blank ((b :: rest).take (width + 1)) := by
  have hFront := Utf8.decode?_take hDecode
  have hSplit : (b :: rest).take (width + 1) =
      (b :: rest).take (skip + 1) ++ (rest.take width).drop skip := by
    rw [List.take_succ_cons, List.take_succ_cons, List.cons_append]
    congr 1
    have := List.take_append_drop skip (rest.take width)
    rw [List.take_take, Nat.min_eq_left hSkip] at this
    exact this.symm
  rw [hSplit]
  exact .cons hFront hRune h

/-- The gap after `skip` bytes that are already taken is blank and lies inside the text. -/
theorem scanFrom_blank (skip : Nat) (text : Bytes) (h : skip ≤ text.length) :
    skip ≤ (scanFrom skip text).width ∧ (scanFrom skip text).width ≤ text.length ∧
      Blank ((text.take (scanFrom skip text).width).drop skip) := by
  fun_induction scanFrom skip text with
  | case1 skip => exact ⟨h, Nat.le_refl _, by simpa using Blank.nil⟩
  | case2 b rest k gap ih =>
    obtain ⟨hLow, hHigh, hBlank⟩ := ih (by simpa using h)
    exact ⟨by simpa using hLow, by simpa using hHigh, by simpa using hBlank⟩
  | case3 b rest hBreak gap ih =>
    obtain ⟨-, hHigh, hBlank⟩ := ih (Nat.zero_le _)
    obtain ⟨rune, hDecode, hRune⟩ := lineBreak_decode rest hBreak
    exact ⟨Nat.zero_le _, by simpa using hHigh, prepend_blank hDecode hRune (Nat.zero_le _) hBlank⟩
  | case4 b rest hBreak hSeparator gap ih =>
    obtain ⟨rune, hDecode, hRune⟩ := separator_decode hSeparator
    have := (Utf8.decode?_width hDecode).2
    obtain ⟨hLow, hHigh, hBlank⟩ := ih (by simpa using this)
    exact ⟨Nat.zero_le _, by simpa using hHigh, prepend_blank hDecode hRune hLow hBlank⟩
  | case5 => exact ⟨Nat.zero_le _, Nat.zero_le _, by simpa using Blank.nil⟩
  | case6 b rest hBreak hSeparator width hWidth gap ih =>
    obtain ⟨rune, hDecode, hRune⟩ := blankWidth_decode hWidth
    have := (Utf8.decode?_width hDecode).2
    obtain ⟨hLow, hHigh, hBlank⟩ := ih (by simpa using this)
    exact ⟨Nat.zero_le _, by simpa using hHigh, prepend_blank hDecode hRune hLow hBlank⟩

theorem scan_blank (text : Bytes) :
    (scan text).width ≤ text.length ∧ Blank (text.take (scan text).width) :=
  (scanFrom_blank 0 text (Nat.zero_le _)).2

end Gap

end ScriptOptimizer
