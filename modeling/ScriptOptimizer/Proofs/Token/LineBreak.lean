import ScriptOptimizer.Proofs.Text.Utf8
import ScriptOptimizer.Proofs.Token.Lossless
import ScriptOptimizer.Proofs.Token.Sourced

/-!
Line breaks between tokens. The lexer meets line terminators in white space and in comments and
keeps in mind that it did until the next token that is no comment. So that token says whether a line
terminator stands anywhere in the text between it and the token before it.
-/

namespace ScriptOptimizer

/-- The characters that end a line: line feed, carriage return, and the two separators. -/
def lineTerminators : List Nat := [10, 13, 0x2028, 0x2029]

namespace Bytes

open Utf8 (isContinuation)

/-- A line terminator stands in the text. -/
def LineBroken (text : Bytes) : Prop := ∃ rune ∈ lineTerminators, Utf8.encode rune <:+: text

instance (text : Bytes) : Decidable text.LineBroken :=
  inferInstanceAs (Decidable (∃ rune ∈ lineTerminators, Utf8.encode rune <:+: text))

variable {b : UInt8} {front back rest text : Bytes}

theorem startsWithLineBreak_iff :
    startsWithLineBreak text = true ↔ ∃ rune ∈ lineTerminators, Utf8.encode rune <+: text := by
  have hEncode : lineTerminators.map Utf8.encode =
      [[10], [13], [0xE2, 0x80, 0xA8], [0xE2, 0x80, 0xA9]] := by decide
  have hMap : (∃ rune ∈ lineTerminators, Utf8.encode rune <+: text) ↔
      ∃ line ∈ lineTerminators.map Utf8.encode, line <+: text := by simp
  rw [hMap, hEncode]
  simp only [List.mem_cons, List.not_mem_nil, or_false, exists_eq_or_imp, exists_eq_left]
  rcases text with _ | ⟨a, _ | ⟨b, _ | ⟨c, rest⟩⟩⟩
  · simp [startsWithLineBreak]
  · simp only [startsWithLineBreak, startsWithLineSeparator, List.cons_prefix_cons]; grind
  · simp only [startsWithLineBreak, startsWithLineSeparator, List.cons_prefix_cons]; grind
  · simp only [startsWithLineBreak, startsWithLineSeparator, List.cons_prefix_cons, List.nil_prefix]
    grind

@[simp] theorem not_lineBroken_nil : ¬LineBroken [] := by decide

theorem lineBroken_cons :
    LineBroken (b :: rest) ↔ startsWithLineBreak (b :: rest) = true ∨ LineBroken rest := by
  simp only [LineBroken, List.infix_cons_iff, startsWithLineBreak_iff]
  grind

theorem startsWithLineBreak_mono (h : front <+: text) (hFront : startsWithLineBreak front = true) :
    startsWithLineBreak text = true := by
  obtain ⟨rune, hRune, hPrefix⟩ := startsWithLineBreak_iff.1 hFront
  exact startsWithLineBreak_iff.2 ⟨rune, hRune, hPrefix.trans h⟩

/-- No line terminator begins in the middle of a sequence. -/
theorem startsWithLineBreak_continuation (h : isContinuation b = true) :
    startsWithLineBreak (b :: rest) = false := by
  have hRange : 0x80 ≤ b ∧ b ≤ 0xBF := by simpa [isContinuation] using h
  have hNe : b ≠ 10 ∧ b ≠ 13 ∧ b ≠ 0xE2 := by
    refine ⟨?_, ?_, ?_⟩ <;> rintro rfl <;> exact absurd hRange (by decide)
  unfold startsWithLineBreak startsWithLineSeparator
  grind

theorem lineBroken_continuations (h : ∀ c ∈ front, isContinuation c = true) :
    LineBroken (front ++ back) ↔ LineBroken back := by
  induction front with
  | nil => rfl
  | cons c front ih =>
    obtain ⟨hc, hFront⟩ := List.forall_mem_cons.1 h
    rw [List.cons_append, lineBroken_cons, startsWithLineBreak_continuation hc, ih hFront]
    simp

/-- A line terminator does not go over the start of a sequence. -/
theorem startsWithLineBreak_append (hBegins : Utf8.Begins back) :
    startsWithLineBreak (b :: (front ++ back)) = startsWithLineBreak (b :: front) := by
  rw [Bool.eq_iff_iff]
  refine ⟨fun h => ?_, startsWithLineBreak_mono (List.prefix_append (b :: front) back)⟩
  obtain ⟨rune, hRune, hPrefix⟩ := startsWithLineBreak_iff.1 h
  rcases List.prefix_or_prefix_of_prefix hPrefix (List.prefix_append (b :: front) back) with
    hWhole | ⟨middle, hMiddle⟩
  · exact startsWithLineBreak_iff.2 ⟨rune, hRune, hWhole⟩
  · cases middle with
    | nil => exact startsWithLineBreak_iff.2 ⟨rune, hRune, by simp [← hMiddle]⟩
    | cons c middle =>
      -- What is left of the terminator begins in its middle, and so does the text behind.
      have hScalar : Utf8.isScalar rune = true := by
        revert hRune
        unfold lineTerminators
        simp only [List.mem_cons, List.not_mem_nil, or_false]
        rintro (rfl | rfl | rfl | rfl) <;> rfl
      have hDecode := Utf8.decode?_encode_scalar hScalar
      rw [← hMiddle] at hDecode
      have hInside := Utf8.decode?_continues hDecode c (by simp)
      rw [← hMiddle, show b :: (front ++ back) = (b :: front) ++ back from rfl,
        List.prefix_append_right_inj] at hPrefix
      obtain ⟨tail, rfl⟩ := hPrefix
      exact absurd (hBegins c rfl) (by simp [hInside])

theorem lineBroken_append (hBegins : Utf8.Begins back) :
    LineBroken (front ++ back) ↔ LineBroken front ∨ LineBroken back := by
  induction front with
  | nil => simp
  | cons b front ih =>
    rw [List.cons_append, lineBroken_cons, lineBroken_cons, ih, startsWithLineBreak_append hBegins,
      or_assoc]

end Bytes

open Bytes (LineBroken lineBroken_cons lineBroken_append)

/-! ### White space and comments -/

/-- White space, of which `skip` bytes were already taken, says whether a line terminator is in
it. -/
theorem Gap.scanFrom_lineBreak (skip : Nat) (text : Bytes) (h : skip ≤ text.length) :
    (scanFrom skip text).lineBreak = true ↔
      LineBroken ((text.take (scanFrom skip text).width).drop skip) := by
  fun_induction scanFrom skip text with
  | case1 skip => simp
  | case2 b rest k gap ih => simpa using ih (by simpa using h)
  | case3 b rest hBreak gap ih =>
    have hStarts : startsWithLineBreak (b :: rest.take gap.width) = true := by
      simp only [startsWithLineBreak, hBreak, Bool.true_or]
    simp [lineBroken_cons, hStarts]
  | case4 b rest hBreak hSeparator gap ih =>
    have hLength : 2 ≤ rest.length := by
      obtain ⟨rune, hDecode, -⟩ := separator_decode hSeparator
      simpa using (Utf8.decode?_width hDecode).2
    have hWidth : 2 ≤ gap.width := (scanFrom_blank 2 rest hLength).1
    have hStarts : startsWithLineBreak (b :: rest.take gap.width) = true := by
      obtain ⟨n, hn⟩ := Nat.exists_eq_add_of_le' hWidth
      obtain ⟨c, d, more, rfl⟩ : ∃ c d more, rest = c :: d :: more := by
        rcases rest with _ | ⟨c, _ | ⟨d, more⟩⟩
        · simp at hLength
        · simp at hLength
        · exact ⟨c, d, more, rfl⟩
      rw [hn, List.take_succ_cons, List.take_succ_cons]
      unfold startsWithLineSeparator at hSeparator
      unfold startsWithLineBreak startsWithLineSeparator
      grind
    simp [lineBroken_cons, hStarts]
  | case5 => simp
  | case6 b rest hBreak hSeparator width hWidth gap ih =>
    obtain ⟨rune, hDecode, -⟩ := blankWidth_decode hWidth
    have hLength : width ≤ rest.length := by simpa using (Utf8.decode?_width hDecode).2
    have hTaken : width ≤ gap.width := (scanFrom_blank width rest hLength).1
    have hNone : startsWithLineBreak (b :: rest.take gap.width) = false := by
      refine Bool.eq_false_iff.2 fun hStarts => ?_
      have := Bytes.startsWithLineBreak_mono
        (List.cons_prefix_cons.2 ⟨rfl, List.take_prefix gap.width rest⟩) hStarts
      simp_all [startsWithLineBreak]
    have hInside : ∀ c ∈ rest.take width, Utf8.isContinuation c = true := by
      have hFront := Utf8.decode?_take hDecode
      rw [List.take_succ_cons] at hFront
      exact Utf8.decode?_continues hFront
    have hSplit : rest.take gap.width = rest.take width ++ (rest.take gap.width).drop width := by
      have := List.take_append_drop width (rest.take gap.width)
      rw [List.take_take, Nat.min_eq_left hTaken] at this
      exact this.symm
    have hRest : LineBroken (rest.take gap.width) ↔
        LineBroken ((rest.take gap.width).drop width) := by
      conv_lhs => rw [hSplit]
      exact Bytes.lineBroken_continuations hInside
    rw [List.take_succ_cons, List.drop_zero, lineBroken_cons, hNone, hRest]
    simpa using ih hLength

theorem Gap.scan_lineBreak (text : Bytes) :
    (scan text).lineBreak = true ↔ LineBroken (text.take (scan text).width) :=
  scanFrom_lineBreak 0 text (Nat.zero_le _)

/-- White space begins with a whole character. -/
theorem Blank.begins {text : Bytes} (h : Blank text) : Utf8.Begins text := by
  cases h with
  | nil => exact nofun
  | @cons character rest rune hDecode hRune hRest =>
    cases character with
    | nil => cases hDecode
    | cons a tail =>
      intro b hb
      obtain rfl : a = b := by simpa using hb
      exact Utf8.decode?_begins hDecode

namespace Comment

/-- A comment to the end of the line has no line terminator. -/
theorem lineWidth_unbroken (text : Bytes) : ¬LineBroken (text.take (lineWidth text)) := by
  fun_induction lineWidth text with
  | case1 => simp
  | case2 => simp
  | case3 b rest hNone ih =>
    rw [List.take_succ_cons, lineBroken_cons, not_or]
    refine ⟨fun hStarts => hNone ?_, ih⟩
    exact Bytes.startsWithLineBreak_mono
      (List.cons_prefix_cons.2 ⟨rfl, List.take_prefix _ rest⟩) hStarts

/-- The rest of a bracketed comment says whether a line terminator was met up to its end. -/
theorem scanBlock_lineBreak {width stop : Nat} {before broken : Bool} {text : Bytes}
    (h : scanBlock width before text = .ok (stop, broken)) :
    ∃ body after, text = body ++ 42 :: 47 :: after ∧ stop = width + (body.length + 2) ∧
      (broken = true ↔ before = true ∨ LineBroken (body ++ [42, 47])) := by
  fun_induction scanBlock width before text with
  | case1 => cases h
  | case2 width before after =>
    cases h
    have hNone : ¬LineBroken [42, 47] := by decide
    exact ⟨[], after, rfl, rfl, by simp [hNone]⟩
  | case3 width before b rest _ ih =>
    obtain ⟨body, after, rfl, rfl, hBroken⟩ := ih h
    have hLocal := startsWithLineBreak_local (q := 42) (by decide) b body (47 :: after) [47]
    refine ⟨b :: body, after, rfl, by simp; omega, ?_⟩
    rw [hBroken, hLocal, List.cons_append, lineBroken_cons, Bool.or_eq_true, or_assoc]

end Comment

namespace Lexeme

variable {before : Option Token} {text : Bytes} {lexeme : Lexeme}

/-- A comment begins with a slash, and says whether a line terminator is in it. -/
theorem comment_lineBreak [PatternCheck] (h : scan before text = .ok lexeme)
    (hType : lexeme.type = .comment) :
    text.head? = some 47 ∧
      (lexeme.lineBreak = true ↔ LineBroken (text.take lexeme.width)) := by
  cases comes_of_scan h with
  | @line rest =>
    have hNone := Comment.lineWidth_unbroken (47 :: 47 :: rest)
    exact ⟨rfl, by simpa [lineComment] using hNone⟩
  | block hScan =>
    obtain ⟨body, after, rfl, rfl, hBroken⟩ := Comment.scanBlock_lineBreak hScan
    have hTake : (47 :: 42 :: (body ++ 42 :: 47 :: after)).take (2 + (body.length + 2)) =
        47 :: 42 :: (body ++ [42, 47]) := by
      rw [Nat.add_comm 2, List.take_succ_cons, List.take_succ_cons, List.take_length_add_append]
      rfl
    refine ⟨rfl, ?_⟩
    rw [hBroken, hTake, lineBroken_cons, lineBroken_cons]
    simp [startsWithLineBreak, startsWithLineSeparator]
  | word _ hWord => rcases word_type hWord with hWord | ⟨k, hWord⟩ <;> simp [hType] at hWord
  | _ => cases hType

end Lexeme

/-! ### Tokens -/

/-- What a cursor has before it is what stands in the text from there on. -/
theorem Cursor.In.slice_eq {text : Bytes} {c : Cursor} (h : c.In text) (width : Nat) :
    text.slice c.offset (c.offset + width) = c.rest.take width := by
  rw [Bytes.slice, Nat.add_sub_cancel_left, ← h.rest_eq]

namespace Lexer

/-- The lexer stands at an offset or behind it, and knows whether a line terminator is between. -/
structure Since (text : Bytes) (offset : Nat) (l : Lexer) : Prop where
  cursor : l.cursor.In text
  offset_le : offset ≤ l.cursor.offset
  lineBreak_iff : l.lineBreak = true ↔ LineBroken (text.slice offset l.cursor.offset)

variable {text : Bytes} {offset : Nat} {l : Lexer}

theorem Since.start (text : Bytes) (source : Option Source) :
    Since text 0 { ofText text with source } :=
  ⟨Cursor.In.start text, Nat.le_refl _, by simp [ofText, Cursor.start]⟩

/-- A comment adds the line terminators in it and before it to those that were met already. Any
other token says whether there were some, and none are behind it yet. -/
theorem Since.next [PatternCheck] (h : Since text offset l) (hOk : l.failure = none) :
    (l.next.1.type = .comment → Since text offset l.next.2) ∧
    (l.next.1.type ∉ [.illegal, .comment] → offset ≤ l.next.1.start ∧
      (l.next.1.newlineBefore = true ↔ LineBroken (text.slice offset l.next.1.start)) ∧
      Since text l.next.1.stop l.next.2) := by
  obtain ⟨hGap, hBlank⟩ := Gap.scan_blank l.cursor.rest
  have hGapBreak := Gap.scan_lineBreak l.cursor.rest
  have hIn := h.cursor.advance hGap
  have hOffset := l.cursor.advance_offset hGap
  have hBefore := h.offset_le
  -- Up to the token behind the gap.
  have hUpTo : (l.lineBreak || (Gap.scan l.cursor.rest).lineBreak) = true ↔
      LineBroken (text.slice offset (l.cursor.advance (Gap.scan l.cursor.rest).width).offset) := by
    rw [hOffset, ← Bytes.slice_append_slice text hBefore (Nat.le_add_right _ _),
      h.cursor.slice_eq, lineBroken_append hBlank.begins, Bool.or_eq_true, h.lineBreak_iff,
      hGapBreak]
  unfold Lexer.next
  rw [hOk]
  dsimp only
  revert hIn hOffset hUpTo
  generalize l.cursor.advance (Gap.scan l.cursor.rest).width = c
  generalize (l.lineBreak || (Gap.scan l.cursor.rest).lineBreak) = lineBreak
  intro hIn hOffset hUpTo
  cases hScan : Lexeme.scan l.before c.rest with
  | error f => exact ⟨nofun, fun hLegal => absurd List.mem_cons_self hLegal⟩
  | ok lexeme =>
    obtain ⟨hWidth, -⟩ := Lexeme.scan_ok hScan
    have hStop := c.advance_offset hWidth
    have hAfter := hIn.advance hWidth
    dsimp only
    split
    case isTrue hComment =>
      refine ⟨fun _ => ⟨hAfter, ?_, ?_⟩, fun hLegal => absurd hComment ?_⟩
      · show offset ≤ (c.advance lexeme.width).offset
        omega
      · obtain ⟨hSlash, hBroken⟩ := Lexeme.comment_lineBreak hScan hComment
        have hBegins : Utf8.Begins (c.rest.take lexeme.width) := by
          intro b hb
          rw [List.head?_take, hSlash] at hb
          split at hb
          · cases hb
          · cases hb
            rfl
        show (lineBreak || lexeme.lineBreak) = true ↔
          LineBroken (text.slice offset (c.advance lexeme.width).offset)
        rw [hStop, ← Bytes.slice_append_slice text (b := c.offset) (by omega)
          (Nat.le_add_right _ _), hIn.slice_eq, lineBroken_append hBegins, Bool.or_eq_true, hUpTo,
          hBroken]
      · exact fun hType => hLegal (hType ▸ List.mem_cons_of_mem _ List.mem_cons_self)
    case isFalse hComment =>
      refine ⟨fun hType => absurd hType hComment, fun _ => ⟨?_, hUpTo, hAfter, ?_, ?_⟩⟩
      · show offset ≤ c.offset
        omega
      · exact Nat.le_of_eq hStop.symm
      · show false = true ↔ LineBroken (text.slice (c.offset + lexeme.width) (c.advance _).offset)
        rw [hStop, Bytes.slice_self]
        simp

/-- The tokens that are neither comments nor errors say one by one whether a line terminator stands
between them and the one before, the first of them being counted from an offset. -/
inductive Parted (text : Bytes) : Nat → List Token → Prop
  | nil {offset : Nat} : Parted text offset []
  | cons {offset : Nat} {t : Token} {rest : List Token} : offset ≤ t.start →
      (t.newlineBefore = true ↔ LineBroken (text.slice offset t.start)) →
      Parted text t.stop rest → Parted text offset (t :: rest)

theorem steps_parted [PatternCheck] (h : Since text offset l) (hOk : l.failure = none)
    (fuel : Nat) :
    Parted text offset ((l.steps fuel).map (·.1) |>.filter fun t =>
      t.type ≠ .illegal && t.type ≠ .comment) := by
  induction fuel generalizing offset l with
  | zero => exact .nil
  | succ fuel ih =>
    obtain ⟨hComment, hToken⟩ := h.next hOk
    rw [steps]
    dsimp only
    cases hLast : isLast l.next.1 with
    | true =>
      rw [if_pos rfl, List.map_cons, List.map_nil, List.filter_cons]
      split
      · rename_i hType
        obtain ⟨hStart, hBroken, -⟩ := hToken (by simpa using hType)
        exact .cons hStart hBroken .nil
      · exact .nil
    | false =>
      obtain ⟨-, hAgain, -⟩ := next_more h.cursor hOk hLast
      rw [if_neg (by simp), List.map_cons, List.filter_cons]
      split
      · rename_i hType
        obtain ⟨hStart, hBroken, hSince⟩ := hToken (by simpa using hType)
        exact .cons hStart hBroken (ih hSince hAgain)
      · rename_i hType
        exact ih (hComment (by simp_all [isLast])) hAgain

namespace Parted

variable {tokens : List Token}

theorem head (h : Parted text offset tokens) : ∀ t ∈ tokens.head?, offset ≤ t.start ∧
    (t.newlineBefore = true ↔ LineBroken (text.slice offset t.start)) := by
  cases h with
  | nil => exact nofun
  | cons hStart hBroken _ => simpa using ⟨hStart, hBroken⟩

theorem isChain (h : Parted text offset tokens) : tokens.IsChain fun a b => a.stop ≤ b.start ∧
    (b.newlineBefore = true ↔ LineBroken (text.slice a.stop b.start)) := by
  induction h with
  | nil => exact .nil
  | cons _ _ hRest ih => exact List.isChain_cons.2 ⟨hRest.head, ih⟩

end Parted

variable [PatternCheck]

theorem significant_parted (text : Bytes) (source : Option Source) :
    Parted text 0 ({ ofText text with source } : Lexer).significant.1 :=
  steps_parted (.start text source) rfl _

/-- Of the tokens of a text that are no comments, up to the end of input or an error, the first says
exactly whether a line terminator stands in the text before it, and every other one whether a line
terminator stands between the one before and itself, be it in white space, in a comment or behind
one. -/
theorem newlineBefore_exact (text : Bytes) (source : Option Source) :
    let tokens := ({ ofText text with source } : Lexer).significant.1
    (∀ t ∈ tokens.head?,
      (t.newlineBefore = true ↔ LineBroken (text.slice 0 t.start))) ∧
    tokens.IsChain fun a b => a.stop ≤ b.start ∧
      (b.newlineBefore = true ↔ LineBroken (text.slice a.stop b.start)) := by
  have hParted := significant_parted text source
  exact ⟨fun t ht => (hParted.head t ht).2, hParted.isChain⟩

end Lexer

end ScriptOptimizer
