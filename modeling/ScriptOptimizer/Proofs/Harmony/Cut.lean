import ScriptOptimizer.Harmony.Scanner
import ScriptOptimizer.Proofs.Text.Utf8
import ScriptOptimizer.Proofs.Token.Spelling

/-!
Cutting a text of names, operators and parentheses into the tokens of the newer language. One blank
at most stands between two of them.
-/

namespace ScriptOptimizer.Harmony

/-! ### Words -/

/-- The code points of the text are those of a word. -/
def IsWord (text : Bytes) : Prop :=
  match Utf8.points text with
  | [] => False
  | first :: rest => isNameStart first = true ∧ ∀ rune ∈ rest, isNamePart rune = true

instance (text : Bytes) : Decidable (IsWord text) := by
  unfold IsWord
  split <;> infer_instance

/-- What a word without escapes is. -/
def Lexeme.ofSpelling (text : Bytes) : Lexeme :=
  if text.length > 1 then Lexeme.ofWord text else .name

/-- The text is a word that may be a name. -/
def IsName (text : Bytes) : Prop :=
  IsWord text ∧ ({} : Setting).takesAsName (Lexeme.ofSpelling text) = true

instance (text : Bytes) : Decidable (IsName text) := inferInstanceAs (Decidable (_ ∧ _))

theorem isNamePart_of_start {rune : Nat} (h : isNameStart rune = true) :
    isNamePart rune = true := by
  simp [isNamePart, h]

theorem isNamePart_replacement : isNamePart Utf8.replacement = false := by
  decide +kernel

theorem IsWord.part {text : Bytes} (h : IsWord text) :
    ∀ rune ∈ Utf8.points text, isNamePart rune = true := by
  unfold IsWord at h
  cases hPoints : Utf8.points text with
  | nil => exact List.forall_mem_nil _
  | cons first rest =>
    rw [hPoints] at h
    exact List.forall_mem_cons.2 ⟨isNamePart_of_start h.1, h.2⟩

theorem IsWord.formed {text : Bytes} (h : IsWord text) : Utf8.Text text := by
  refine Utf8.text_of_points fun rune hRune => ?_
  rintro rfl
  have hPart := h.part _ hRune
  rw [isNamePart_replacement] at hPart
  cases hPart

/-- A word starts with a character that may start a name. -/
theorem IsWord.first {text : Bytes} (h : IsWord text) (rest : Bytes) : ∃ b tail rune size,
    text = b :: tail ∧ Utf8.decode? (b :: (tail ++ rest)) = some (rune, size) ∧
      isNameStart rune = true := by
  have hFormed := h.formed
  cases hFormed with
  | nil => cases h
  | @cons character more rune hDecode _ =>
    rw [IsWord, Utf8.points_append hDecode] at h
    cases character with
    | nil => cases hDecode
    | cons b tail =>
      refine ⟨b, tail ++ more, rune, (b :: tail).length, rfl, ?_, h.1⟩
      rw [List.append_assoc, ← List.cons_append]
      exact Utf8.decode?_append _ hDecode

/-- A text that ends a word: nothing, a closing parenthesis, or one blank. -/
inductive Ends : Bytes → Prop
  | nil : Ends []
  | closing (rest : Bytes) : Ends (41 :: rest)
  | blank {rest : Bytes} : blankWidth rest = 0 → Ends (32 :: rest)

/-- A blank that ends a word is all there is to skip. -/
theorem Ends.blanks {rest : Bytes} (h : Ends rest) :
    (rest.drop (blanksWidth 0 rest)).dropWhile (· = 32) = rest.dropWhile (· = 32) := by
  cases h with
  | nil => rfl
  | closing rest => rfl
  | @blank rest h =>
    have hNone : blanksWidth 0 rest = 0 := by
      cases rest with
      | nil => rfl
      | cons b rest => rw [blanksWidth, h]
    have hWidth : blanksWidth 0 (32 :: rest) = 1 := by
      rw [blanksWidth]
      simp only [show blankWidth (32 :: rest) = 0 + 1 from rfl]
      rw [hNone]
    rw [hWidth, List.drop_succ_cons, List.drop_zero]
    rfl

namespace Word

theorem scanFrom_ends {rest : Bytes} (h : Ends rest) (width : Nat) (name : Bytes) (escaped : Bool) :
    scanFrom width 0 name escaped true rest = ⟨width, some name.reverse, escaped⟩ := by
  have hByte {b : UInt8} {rest : Bytes} (hSlash : b ≠ 92) (hLow : b < 0x80)
      (hPart : isNamePart b.toNat = false) :
      scanFrom width 0 name escaped true (b :: rest) = ⟨width, some name.reverse, escaped⟩ := by
    have hDecode : Utf8.decode (b :: rest) = (b.toNat, 1) := by
      simp [Utf8.decode, Utf8.decode?, hLow]
    rw [scanFrom.eq_def]
    simp [hSlash, hDecode, hPart]
  cases h with
  | nil => rw [scanFrom, if_pos rfl]
  | closing rest => exact hByte (by decide) (by decide) (by decide)
  | blank h => exact hByte (by decide) (by decide) (by decide)

/-- The bytes of a character that is being read are passed over. -/
theorem scanFrom_skip (width : Nat) (name : Bytes) (escaped sound : Bool) (tail rest : Bytes) :
    scanFrom width tail.length name escaped sound (tail ++ rest) =
      scanFrom (width + tail.length) 0 name escaped sound rest := by
  induction tail generalizing width with
  | nil => rfl
  | cons b tail ih =>
    rw [List.length_cons, List.cons_append, scanFrom, ih, Nat.add_right_comm, Nat.add_assoc]

theorem scanFrom_character {character : Bytes} {rune : Nat}
    (hDecode : Utf8.decode? character = some (rune, character.length))
    (hPart : isNamePart rune = true) (width : Nat) (name : Bytes) (escaped sound : Bool)
    (rest : Bytes) :
    scanFrom width 0 name escaped sound (character ++ rest) =
      scanFrom (width + character.length) 0 (character.reverse ++ name) escaped sound rest := by
  cases character with
  | nil => cases hDecode
  | cons b tail =>
    have hSlash : b ≠ 92 := by
      rintro rfl
      obtain ⟨rfl, -⟩ := Utf8.decode?_low hDecode (by decide)
      revert hPart
      decide
    have hFront : Utf8.decode (b :: (tail ++ rest)) = (rune, (b :: tail).length) := by
      rw [← List.cons_append, Utf8.decode, Utf8.decode?_append rest hDecode]
      rfl
    rw [List.cons_append, scanFrom.eq_def]
    simp only [hSlash, if_false, hFront, hPart, if_true, Utf8.encode_of_decode? hDecode,
      List.length_cons, Nat.add_sub_cancel, scanFrom_skip]
    simp [Nat.add_comm, Nat.add_left_comm]

theorem scanFrom_word {text rest : Bytes} (hText : Utf8.Text text)
    (hPart : ∀ rune ∈ Utf8.points text, isNamePart rune = true) (hRest : Ends rest) (width : Nat)
    (name : Bytes) : scanFrom width 0 name false true (text ++ rest) =
      ⟨width + text.length, some (name.reverse ++ text), false⟩ := by
  induction hText generalizing width name with
  | nil => simpa using scanFrom_ends hRest width name false
  | cons hDecode _ ih =>
    rw [Utf8.points_append hDecode, List.forall_mem_cons] at hPart
    rw [List.append_assoc, scanFrom_character hDecode hPart.1, ih hPart.2]
    simp [Nat.add_assoc]

theorem scan_word {text rest : Bytes} (h : IsWord text) (hRest : Ends rest) :
    scan (text ++ rest) = ⟨text.length, some text, false⟩ := by
  simpa [scan] using scanFrom_word h.formed h.part hRest 0 []

end Word

/-! ### Between two tokens -/

/-- A text whose front is neither white space nor the start of a comment. -/
structure Solid (text : Bytes) : Prop where
  blank : blankWidth text = 0
  lineBreak : startsWithLineBreak text = false
  comment : ∀ rest, text = 47 :: rest → rest.head? ≠ some 47 ∧ rest.head? ≠ some 42
  interpreter : text.head? ≠ some 35

theorem Solid.nil : Solid [] := ⟨rfl, rfl, nofun, nofun⟩

theorem Solid.of_byte {b : UInt8} {rest : Bytes} (hLow : b < 0x80)
    (hByte : b ∉ [32, 9, 11, 12, 10, 13, 35, 47]) : Solid (b :: rest) := by
  simp only [List.mem_cons, List.not_mem_nil, or_false, not_or] at hByte
  have hSeparator : startsWithLineSeparator (b :: rest) = false := by
    unfold startsWithLineSeparator
    grind
  refine ⟨by simp [blankWidth, hLow, hByte], by simp [startsWithLineBreak, hSeparator, hByte], ?_,
    by simp [hByte]⟩
  rintro more hMore
  exact absurd (List.cons.inj hMore).1 hByte.2.2.2.2.2.2.2

theorem Solid.slash (rest : Bytes) : Solid (47 :: 32 :: rest) := by
  refine ⟨rfl, rfl, ?_, by simp⟩
  rintro more hMore
  rw [← (List.cons.inj hMore).2]
  exact ⟨by simp, by simp⟩

/-- What may start a name is no white space. -/
theorem not_white_of_nameStart {rune : Nat} (h : isNameStart rune = true) :
    Category.isWhiteSpace rune = false ∧ rune ∉ [0xFEFF, 0x2028, 0x2029] := by
  have hTable : Category.inRanges ((36, 36) :: (95, 95) :: (65, 90) :: (97, 122) ::
      Category.letters ++ Category.otherNameStarts) rune = true := by
    simp only [isNameStart, Category.isNameStart, Category.isLetter, Category.isAsciiLetter,
      Bool.or_eq_true, Bool.and_eq_true, decide_eq_true_eq] at h
    simp only [Category.inRanges, List.cons_append, List.any_cons, List.any_append,
      Bool.or_eq_true, Bool.and_eq_true, decide_eq_true_eq] at h ⊢
    grind
  have hApart := Category.inRanges_apart ((9, 13) :: (32, 32) :: (0x85, 0x85) :: (0x2028, 0x2029) ::
    (0xFEFF, 0xFEFF) :: Category.spaces) (by decide +kernel) hTable
  simp only [Category.inRanges, List.any_cons, Bool.or_eq_false_iff, Bool.and_eq_false_iff,
    decide_eq_false_iff_not] at hApart
  simp only [Category.isWhiteSpace, Category.isSpaceSeparator, Category.inRanges,
    Bool.or_eq_false_iff, Bool.and_eq_false_iff, decide_eq_false_iff_not, List.mem_cons,
    List.not_mem_nil, or_false, not_or]
  grind

theorem Solid.word {text : Bytes} (h : IsWord text) (rest : Bytes) : Solid (text ++ rest) := by
  obtain ⟨b, tail, rune, size, rfl, hDecode, hStart⟩ := h.first rest
  obtain ⟨hWhite, hOther⟩ := not_white_of_nameStart hStart
  have hBlank : ¬BlankRune rune := by
    rintro (hMem | hSeparator)
    · simp only [List.mem_cons, List.not_mem_nil, or_false] at hMem
      rcases hMem with rfl | rfl | rfl | rfl | rfl | rfl | rfl | rfl | rfl
      all_goals first | exact absurd hWhite (by decide) | exact hOther (by decide)
    · simp [Category.isWhiteSpace, hSeparator] at hWhite
  have hByte {c : UInt8} (hc : c < 0x80) (hNot : isNameStart c.toNat = false) : b ≠ c := by
    rintro rfl
    rw [(Utf8.decode?_low hDecode hc).1, hNot] at hStart
    cases hStart
  have hFront : Utf8.decode (b :: (tail ++ rest)) = (rune, size) := by
    rw [Utf8.decode, hDecode]
    rfl
  refine ⟨?_, ?_, ?_, ?_⟩
  · have hAscii (c : UInt8) (hc : c ∈ [32, 9, 11, 12]) : b ≠ c := by
      simp only [List.mem_cons, List.not_mem_nil, or_false] at hc
      rcases hc with rfl | rfl | rfl | rfl <;> exact hByte (by decide) (by decide)
    simp only [List.mem_cons, List.not_mem_nil, or_false, not_or] at hOther
    simp [blankWidth, hFront, hWhite, hOther, hAscii]
  · refine Bool.eq_false_iff.2 fun hBreak => ?_
    simp only [List.cons_append, startsWithLineBreak, Bool.or_eq_true] at hBreak
    rcases hBreak with hBreak | hSeparator
    · obtain ⟨_, hRune, hBlankRune⟩ := Gap.lineBreak_decode (tail ++ rest) (by simpa using hBreak)
      rw [hDecode] at hRune
      cases hRune
      exact hBlank hBlankRune
    · obtain ⟨_, hRune, hBlankRune⟩ := Gap.separator_decode hSeparator
      rw [hDecode] at hRune
      cases hRune
      exact hBlank hBlankRune
  · intro more hMore
    exact absurd (List.cons.inj hMore).1 (hByte (by decide) (by decide))
  · simpa using hByte (c := 35) (by decide) (by decide)

theorem Between.scanFrom_blanks (n : Nat) (g : Between) {text : Bytes} (h : Solid text) :
    scanFrom .blank 0 g (List.replicate n 32 ++ text) = { g with width := g.width + n } := by
  induction n generalizing g with
  | zero =>
    cases text with
    | nil => rw [List.replicate_zero, List.nil_append, scanFrom, if_neg (by decide)]; rfl
    | cons b rest =>
      have hComment (hSlash : b = 47) := h.comment rest (by rw [hSlash])
      rw [List.replicate_zero, List.nil_append, scanFrom.eq_def]
      simp only [h.lineBreak, h.blank]
      rw [if_neg (by decide), if_neg (by decide), if_neg (by grind), if_neg (by grind)]
      rfl
  | succ n ih =>
    have hBreak : startsWithLineBreak (32 :: (List.replicate n 32 ++ text)) = false := by
      simp [startsWithLineBreak, startsWithLineSeparator]
    rw [List.replicate_succ, List.cons_append, scanFrom.eq_def]
    simp only [hBreak, show blankWidth (32 :: (List.replicate n 32 ++ text)) = 0 + 1 from rfl]
    simp [ih, grow, Nat.add_comm, Nat.add_left_comm]

/-! ### The tokens of a text -/

/-- The scanner gives the tokens one after another. The words that may be names are those of a
program's outermost statements. -/
inductive Cuts : Scanner → List Token → Scanner → Prop
  | done {s : Scanner} : Cuts s [] s
  | token {s s' s'' : Scanner} {t : Token} {ts : List Token} :
      s.next ({} : Setting).takesAsName = (t, s') → t.lexeme ≠ .endOfInput → Cuts s' ts s'' →
      Cuts s (t :: ts) s''

/-- The tokens are all that the text is cut into, without a fault. -/
def CutInto (text : Bytes) (ts : List Token) : Prop :=
  ∃ s last s', Cuts (.start text) ts s ∧ s.next ({} : Setting).takesAsName = (last, s') ∧
    last.lexeme = .endOfInput ∧ s'.fault = none

namespace Cuts

theorem append {s s' s'' : Scanner} {ts us : List Token} (h : Cuts s ts s') (h' : Cuts s' us s'') :
    Cuts s (ts ++ us) s'' := by
  induction h with
  | done => exact h'
  | token hNext hMore _ ih => exact .token hNext hMore (ih h')

/-- What is given up to the end of the input is settled. -/
theorem eq_of_end {s s' s'' : Scanner} {ts us : List Token} (h : Cuts s ts s') (h' : Cuts s us s'')
    (hEnd : (s'.next ({} : Setting).takesAsName).1.lexeme = .endOfInput)
    (hEnd' : (s''.next ({} : Setting).takesAsName).1.lexeme = .endOfInput) : ts = us := by
  induction h generalizing us with
  | done =>
    cases h' with
    | done => rfl
    | token hNext hMore _ => rw [hNext] at hEnd; exact absurd hEnd hMore
  | token hNext hMore _ ih =>
    cases h' with
    | done => rw [hNext] at hEnd'; exact absurd hEnd' hMore
    | token hNext' _ hRest =>
      rw [hNext] at hNext'
      cases hNext'
      rw [ih hRest hEnd]

end Cuts

theorem CutInto.unique {text : Bytes} {ts us : List Token} (ht : CutInto text ts)
    (hu : CutInto text us) : ts = us := by
  obtain ⟨s, last, s', hCuts, hNext, hEnd, -⟩ := ht
  obtain ⟨r, last', r', hCuts', hNext', hEnd', -⟩ := hu
  exact hCuts.eq_of_end hCuts' (by rw [hNext]; exact hEnd) (by rw [hNext']; exact hEnd')

theorem malformedFrom_skip (offset : Nat) (tail rest : Bytes) :
    malformedFrom offset tail.length (tail ++ rest) =
      malformedFrom (offset + tail.length) 0 rest := by
  induction tail generalizing offset with
  | nil => rfl
  | cons b tail ih =>
    rw [List.length_cons, List.cons_append, malformedFrom, ih, Nat.add_right_comm, Nat.add_assoc]

theorem malformedFrom_text {text : Bytes} (h : Utf8.Text text) (offset : Nat) :
    malformedFrom offset 0 text = none := by
  induction h generalizing offset with
  | nil => rfl
  | @cons character rest rune hDecode _ ih =>
    cases character with
    | nil => cases hDecode
    | cons b tail =>
      have hFront := Utf8.decode?_append rest hDecode
      rw [List.cons_append] at hFront ⊢
      rw [malformedFrom, hFront]
      simp only [List.length_cons, Nat.add_sub_cancel, malformedFrom_skip, ih]

namespace Scanner

/-- The scanner stands in front of the text, but for blanks, and has found no fault. -/
structure At (s : Scanner) (text : Bytes) : Prop where
  sound : s.fault = none
  formed : s.malformed = none
  blanks : s.rest.dropWhile (· = 32) = text.dropWhile (· = 32)

theorem move_eq {s : Scanner} (h : s.malformed = none) (width : Nat) :
    s.move width = { s with rest := s.rest.drop width, offset := s.offset + width } := by
  rw [move, h]

theorem start_at {text : Bytes} (h : Utf8.Text text) : (start text).At text := by
  rw [start, malformedFrom_text h, move_eq rfl]
  exact ⟨rfl, rfl, rfl⟩

/-- The bytes that marks of formulas start with. -/
def markBytes : Bytes := "()+-!~*/%<>=&^|?"

/-- What starts with such a byte is no word, number, string or private name. -/
theorem not_other_of_markByte {b : UInt8} (h : b ∈ markBytes) (rest : Bytes) :
    startsWord (b :: rest) = false ∧ Bytes.isDigit b = false ∧ b ∉ [34, 35, 39, 46] := by
  have hAll : ∀ b ∈ markBytes, b < 0x80 ∧ (b = 92 || isNameStart b.toNat) = false ∧
      Bytes.isDigit b = false ∧ b ∉ [34, 35, 39, 46] :=
    Bytes.forall_mem_of_all (by decide)
  obtain ⟨hLow, hStart, hOther⟩ := hAll b h
  refine ⟨?_, hOther⟩
  simpa [startsWord, Utf8.decode, Utf8.decode?, hLow] using hStart

namespace At

variable {s : Scanner} {text rest : Bytes}

theorem blank (h : s.At (32 :: text)) : s.At text := ⟨h.sound, h.formed, h.blanks⟩

/-- What the scanner remembers of line breaks is of no account. -/
theorem breakEnds (h : s.At text) (breakEnds : Bool) : At { s with breakEnds } text :=
  ⟨h.sound, h.formed, h.blanks⟩

theorem move (h : s.At text) {width : Nat}
    (hRest : (s.rest.drop width).dropWhile (· = 32) = rest.dropWhile (· = 32)) :
    (s.move width).At rest := by
  rw [move_eq h.formed]
  exact ⟨h.sound, h.formed, hRest⟩

/-- Nothing but blanks stands in front of the next token. -/
theorem skipGap (h : s.At text) (hSolid : Solid text) :
    ∃ s' : Scanner, s.skipGap = (false, s') ∧ s'.At text ∧ s'.rest = text := by
  have hText : text.dropWhile (· = 32) = text := by
    cases text with
    | nil => rfl
    | cons b more =>
      refine List.dropWhile_cons_of_neg fun hBlank => ?_
      have hWidth := hSolid.blank
      rw [of_decide_eq_true hBlank] at hWidth
      cases hWidth
  obtain ⟨n, hRest⟩ : ∃ n, s.rest = List.replicate n 32 ++ text := by
    refine ⟨(s.rest.takeWhile (· = 32)).length, ?_⟩
    have hBlanks : s.rest.takeWhile (· = 32) = List.replicate _ 32 :=
      List.eq_replicate_of_mem fun b hb =>
        of_decide_eq_true (List.all_eq_true.1 List.all_takeWhile b hb)
    rw [← hBlanks, ← hText, ← h.blanks, List.takeWhile_append_dropWhile]
  have hNoLine : (Bytes.ofString "#!").isPrefixOf s.rest = false := by
    refine Bool.eq_false_iff.2 fun hPrefix => ?_
    obtain ⟨more, hMore⟩ := List.isPrefixOf_iff_prefix.1 hPrefix
    rw [hRest] at hMore
    cases n with
    | zero =>
      refine hSolid.interpreter ?_
      rw [← List.nil_append text, ← List.replicate_zero, ← hMore]
      rfl
    | succ n => cases (List.cons.inj hMore).1
  refine ⟨{ s with rest := text, offset := s.offset + n }, ?_, ⟨h.sound, h.formed, rfl⟩, rfl⟩
  simp only [Scanner.skipGap, hNoLine, Bool.and_false, Bool.false_eq_true, if_false]
  rw [hRest, Between.scanFrom_blanks n _ hSolid]
  simp [move_eq h.formed, hRest]

/-- At the end of the text the scanner says so. -/
theorem finish (h : s.At []) (isName : Lexeme → Bool) : ∃ last s', s.next isName = (last, s') ∧
    last.lexeme = .endOfInput ∧ s'.fault = none := by
  obtain ⟨s', hGap, hAt, hText⟩ := h.skipGap .nil
  rw [next, hGap]
  dsimp only
  split
  · exact ⟨_, _, rfl, rfl, hAt.sound⟩
  · rename_i hCons
    rw [hText] at hCons
    cases hCons

/-- A word is the next token, and what ends it is left. -/
theorem word {name : Bytes} (h : s.At (name ++ rest)) (hName : IsWord name) (hRest : Ends rest)
    (isName : Lexeme → Bool) : ∃ t s', s.next isName = (t, s') ∧ t.value = name ∧ s'.At rest ∧
      (t.lexeme = .ofSpelling name ∨ Lexeme.ofSpelling name = .kwAsync ∧ t.lexeme = .name) := by
  obtain ⟨s', hGap, hAt, hText⟩ := h.skipGap (.word hName rest)
  obtain ⟨b, tail, rune, size, hFront, hDecode, hStart⟩ := hName.first rest
  have hWord : startsWord (name ++ rest) = true := by
    rw [hFront, List.cons_append, startsWord, Utf8.decode, hDecode]
    simp [hStart]
  have hAfter : (s'.move name.length).At rest := hAt.move (by rw [hText, List.drop_left])
  have hNext : s.next isName = s'.word isName false := by
    rw [next, hGap]
    dsimp only
    split
    · rename_i hNil
      rw [hText, hFront] at hNil
      cases hNil
    · rw [hText, if_pos hWord]
  rw [hNext, Scanner.word, hText, Word.scan_word hName hRest]
  dsimp only
  rw [if_neg (by decide), ← Lexeme.ofSpelling]
  by_cases hAsync : Lexeme.ofSpelling name = .kwAsync
  · rw [if_pos hAsync]
    have hSkipped : ((s'.move name.length).move
        (blanksWidth 0 (s'.move name.length).rest)).At rest :=
      hAfter.move (by rw [move_eq hAt.formed, hText, List.drop_left, hRest.blanks])
    split
    · exact ⟨_, _, rfl, rfl, hSkipped.breakEnds _, .inr ⟨hAsync, rfl⟩⟩
    · exact ⟨_, _, rfl, rfl, hSkipped, .inl rfl⟩
  · rw [if_neg hAsync]
    exact ⟨_, _, rfl, rfl, hAfter.breakEnds _, .inl rfl⟩

/-- A mark is the next token. -/
theorem mark {op : Lexeme} (h : s.At (op.text ++ rest)) (hSolid : Solid (op.text ++ rest))
    (hFirst : ∃ b tail, op.text = b :: tail ∧ b ∈ markBytes)
    (hMark : markAt false (op.text ++ rest) = some (op, op.text.length)) (isName : Lexeme → Bool) :
    ∃ t s', s.next isName = (t, s') ∧ t.lexeme = op ∧ s'.At rest := by
  obtain ⟨s', hGap, hAt, hText⟩ := h.skipGap hSolid
  obtain ⟨b, tail, hOp, hByte⟩ := hFirst
  obtain ⟨hWord, hOther⟩ := not_other_of_markByte hByte (tail ++ rest)
  have hNext : s.next isName = s'.mark false := by
    rw [next, hGap]
    dsimp only
    split
    · rename_i hNil
      rw [hText, hOp] at hNil
      cases hNil
    · rename_i c more hCons
      rw [hText, hOp] at hCons
      obtain ⟨rfl, rfl⟩ := List.cons.inj hCons
      simp only [List.mem_cons, List.not_mem_nil, or_false, not_or] at hOther
      rw [hText, hOp, List.cons_append, hWord]
      simp [hOther]
  rw [hNext, Scanner.mark, hText, hMark]
  exact ⟨_, _, rfl, rfl, (hAt.move (by rw [hText, List.drop_left])).breakEnds _⟩

end At

/-! ### Marks -/

/-- A mark is found in front of a text that goes on with none of its extensions, unless a newer mark
starts there. -/
theorem markAt_front {p : Punctuator} {rest : Bytes}
    (hAdded : ∀ l ∈ Lexeme.addedMarks, ¬l.text <+: (Lexeme.mark p).text ++ rest)
    (hDots : ¬Bytes.ofString ".." <+: (Lexeme.mark p).text ++ rest)
    (hRest : ∀ b, rest.head? = some b → b ∉ p.extensions) :
    markAt false ((Lexeme.mark p).text ++ rest) = some (.mark p, (Lexeme.mark p).text.length) := by
  have hNone : (Lexeme.addedMarks.find? fun l =>
      l.text.isPrefixOf ((Lexeme.mark p).text ++ rest)) = none :=
    List.find?_eq_none.2 fun l hl hPrefix => hAdded l hl (List.isPrefixOf_iff_prefix.1 hPrefix)
  rw [markAt, hNone]
  dsimp only
  rw [if_neg fun h => hDots (List.isPrefixOf_iff_prefix.1 h), Lexeme.text, p.atStart?_respell hRest,
    Option.map_some, Punctuator.length_ofString_text]

/-- What has no blank and starts a text starts what stands in front of the first blank. -/
theorem prefix_of_blank {word text rest : Bytes} (hBlank : 32 ∉ word)
    (h : word <+: text ++ 32 :: rest) : word <+: text := by
  rcases List.prefix_or_prefix_of_prefix h (List.prefix_append text _) with hShort | ⟨more, rfl⟩
  · exact hShort
  · cases more with
    | nil => simp
    | cons b more =>
      rw [List.prefix_append_right_inj, List.cons_prefix_cons] at h
      exact absurd (by simp [h.1]) hBlank

/-- A mark with which no newer mark starts is found in front of a blank. -/
theorem markAt_blank {p : Punctuator}
    (hAdded : ∀ l ∈ Lexeme.addedMarks, ¬l.text <+: (Lexeme.mark p).text)
    (hDots : ¬Bytes.ofString ".." <+: (Lexeme.mark p).text) (rest : Bytes) :
    markAt false ((Lexeme.mark p).text ++ 32 :: rest) =
      some (.mark p, (Lexeme.mark p).text.length) := by
  have hBlanks : ∀ l ∈ Lexeme.addedMarks, 32 ∉ l.text := by decide
  refine markAt_front (fun l hl hPrefix => hAdded l hl (prefix_of_blank (hBlanks l hl) hPrefix))
    (fun hPrefix => hDots (prefix_of_blank (by decide) hPrefix)) ?_
  simpa using p.blank_not_mem_extensions.1

/-- A mark whose first byte starts no newer mark is found in front of a text that goes on with none
of its extensions. -/
theorem markAt_first {p : Punctuator} {b : UInt8} {tail rest : Bytes}
    (hText : (Lexeme.mark p).text = b :: tail) (hFirst : b ∈ Bytes.ofString "()+-!~")
    (hRest : ∀ b, rest.head? = some b → b ∉ p.extensions) :
    markAt false ((Lexeme.mark p).text ++ rest) = some (.mark p, (Lexeme.mark p).text.length) := by
  have hApart : ∀ b ∈ Bytes.ofString "()+-!~", ∀ l ∈ Lexeme.addedMarks,
      l.text ≠ [] ∧ l.text.head? ≠ some b := Bytes.forall_mem_of_all (by decide)
  have hHead {text : Bytes} (hPrefix : text <+: (Lexeme.mark p).text ++ rest) (hne : text ≠ []) :
      text.head? = some b := by
    cases text with
    | nil => exact absurd rfl hne
    | cons c text =>
      rw [hText, List.cons_append, List.cons_prefix_cons] at hPrefix
      rw [hPrefix.1, List.head?_cons]
  refine markAt_front (fun l hl hPrefix => ?_) (fun hPrefix => ?_) hRest
  · obtain ⟨hne, hOther⟩ := hApart b hFirst l hl
    exact hOther (hHead hPrefix hne)
  · have hDot := hHead hPrefix (by decide)
    obtain rfl : 46 = b := Option.some.inj hDot
    revert hFirst
    decide

end Scanner

end ScriptOptimizer.Harmony
