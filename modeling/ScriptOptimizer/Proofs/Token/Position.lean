import ScriptOptimizer.Proofs.Token.Lossless

/-!
Where tokens and errors are. The lexer counts lines and columns byte by byte, looking one byte ahead
and two back; what it counts is what the text up to there says: the line is the number of line
terminators that end before an offset, and the column the distance from the last of them.
-/

namespace ScriptOptimizer

namespace Bytes

/-- Is the byte at an offset the last one of a line terminator: a line feed, a carriage return that
no line feed follows, or the end of U+2028 or U+2029? -/
def endsLineAt (text : Bytes) (i : Nat) : Bool :=
  text[i]? = some 10 ||
  (text[i]? = some 13 && text[i + 1]? ≠ some 10) ||
  (2 ≤ i && text[i - 2]? = some 0xE2 && text[i - 1]? = some 0x80 &&
    (text[i]? = some 0xA8 || text[i]? = some 0xA9))

/-- The line terminators before an offset, each by the offset of its last byte. -/
def lineEnds (text : Bytes) (offset : Nat) : List Nat := (List.range offset).filter text.endsLineAt

/-- The offset at which the line of an offset starts. -/
def lineStart (text : Bytes) (offset : Nat) : Nat :=
  match (text.lineEnds offset).getLast? with
  | some i => i + 1
  | none => 0

/-- The line of an offset, counted from one. -/
def lineAt (text : Bytes) (offset : Nat) : Nat := 1 + (text.lineEnds offset).length

/-- The column of an offset in its line, counted from one. -/
def columnAt (text : Bytes) (offset : Nat) : Nat := 1 + (offset - text.lineStart offset)

theorem lineStart_le (text : Bytes) (offset : Nat) : text.lineStart offset ≤ offset := by
  unfold lineStart
  split
  · rename_i i hLast
    have hMem : i ∈ text.lineEnds offset := List.mem_of_getLast? hLast
    rw [lineEnds, List.mem_filter, List.mem_range] at hMem
    exact hMem.1
  · exact Nat.zero_le _

/-- One byte further a line may have ended. -/
theorem lineEnds_succ (text : Bytes) (offset : Nat) :
    text.lineEnds (offset + 1) =
      text.lineEnds offset ++ if text.endsLineAt offset then [offset] else [] := by
  rw [lineEnds, List.range_succ, List.filter_append]
  congr 1
  cases h : text.endsLineAt offset <;> simp [h]

theorem lineAt_succ (text : Bytes) (offset : Nat) :
    text.lineAt (offset + 1) = text.lineAt offset + if text.endsLineAt offset then 1 else 0 := by
  unfold lineAt
  rw [lineEnds_succ]
  split <;> simp [Nat.add_assoc]

theorem lineStart_succ (text : Bytes) (offset : Nat) : text.lineStart (offset + 1) =
    if text.endsLineAt offset then offset + 1 else text.lineStart offset := by
  split
  · rename_i hEnds
    rw [lineStart, lineEnds_succ, if_pos hEnds, List.getLast?_concat]
  · rename_i hEnds
    rw [lineStart, lineEnds_succ, if_neg hEnds, List.append_nil, lineStart]

theorem columnAt_succ (text : Bytes) (offset : Nat) :
    text.columnAt (offset + 1) =
      if text.endsLineAt offset then 1 else text.columnAt offset + 1 := by
  have hLe := text.lineStart_le offset
  unfold columnAt
  rw [lineStart_succ]
  split <;> omega

end Bytes

namespace Cursor

/-- What a cursor sees behind it and ahead of it tells whether a line ends there. -/
theorem endsLine_eq (past rest : Bytes) (b : UInt8) :
    endsLine (b :: past) rest = Bytes.endsLineAt (past.reverse ++ b :: rest) past.length := by
  have hHere : (past.reverse ++ b :: rest)[past.length]? = some b := by simp
  have hNext : (past.reverse ++ b :: rest)[past.length + 1]? = rest.head? := by
    rw [List.getElem?_append_right (by simp), List.head?_eq_getElem?]
    simp
  unfold Bytes.endsLineAt
  rw [hHere, hNext]
  clear hHere hNext
  match past with
  | [] => unfold endsLine; split <;> simp_all
  | [y] => unfold endsLine; split <;> simp_all
  | y :: z :: past =>
    have hBack : ((y :: z :: past).reverse ++ b :: rest)[(y :: z :: past).length - 1]? =
        some y := by
      simp
    have hBackTwo :
        ((y :: z :: past).reverse ++ b :: rest)[(y :: z :: past).length - 2]? = some z := by
      simp
    rw [hBack, hBackTwo]
    clear hBack hBackTwo
    unfold endsLine
    split <;> simp_all
    rename_i hNotA8 hNotA9
    exact fun hLead hMiddle =>
      ⟨fun hLast => hNotA8 past hLast hMiddle hLead rfl,
        fun hLast => hNotA9 past hLast hMiddle hLead rfl⟩

/-- The cursor splits the text and has counted its lines and columns. -/
structure Exact (text : Bytes) (c : Cursor) : Prop where
  text_eq : c.past.reverse ++ c.rest = text
  offset_eq : c.offset = c.past.length
  line_eq : c.line = text.lineAt c.offset
  column_eq : c.column = text.columnAt c.offset

theorem Exact.start (text : Bytes) : Exact text (start text) := ⟨rfl, rfl, rfl, rfl⟩

theorem Exact.inside {text : Bytes} {c : Cursor} (h : Exact text c) : c.In text := by
  refine ⟨?_, ?_⟩
  · rw [← h.text_eq, h.offset_eq]
    simp
  · rw [← h.text_eq, h.offset_eq]
    simp

theorem Exact.next {text : Bytes} {c : Cursor} (h : Exact text c) : Exact text c.next := by
  unfold Cursor.next
  split
  · exact h
  · rename_i b rest hRest
    have hText : (b :: c.past).reverse ++ rest = text := by
      simpa [hRest] using h.text_eq
    have hOffset : c.offset + 1 = (b :: c.past).length := by
      rw [h.offset_eq, List.length_cons]
    have hEnds : endsLine (b :: c.past) rest = text.endsLineAt c.offset := by
      rw [endsLine_eq, h.offset_eq, ← h.text_eq, hRest]
    have hLine := text.lineAt_succ c.offset
    have hColumn := text.columnAt_succ c.offset
    split
    · rename_i hBreak
      rw [← hEnds, if_pos hBreak] at hLine hColumn
      exact ⟨hText, hOffset, by rw [hLine, h.line_eq], hColumn.symm⟩
    · rename_i hBreak
      rw [← hEnds, if_neg hBreak] at hLine hColumn
      exact ⟨hText, hOffset, by rw [hLine, h.line_eq, Nat.add_zero], by rw [hColumn, h.column_eq]⟩

theorem Exact.advance {text : Bytes} {c : Cursor} (h : Exact text c) (n : Nat) :
    Exact text (c.advance n) := by
  induction n generalizing c with
  | zero => exact h
  | succ n ih => exact ih h.next

end Cursor

/-- The token lies in the text, and its line and column are those of its first byte. -/
structure Token.Exact (text : Bytes) (t : Token) : Prop where
  start_le : t.start ≤ t.stop
  stop_le : t.stop ≤ text.length
  line_eq : t.line = text.lineAt t.start
  column_eq : t.column = text.columnAt t.start

/-- The location is a range of the text, and its line and column are those of its first byte. -/
structure Location.Exact (text : Bytes) (l : Location) : Prop where
  start_nonneg : 0 ≤ l.start
  start_le : l.start ≤ l.stop
  stop_le : l.stop ≤ text.length
  line_eq : l.line = text.lineAt l.start.toNat
  column_eq : l.column = text.columnAt l.start.toNat

namespace Lexer

/-- The token that reports an error is where the error is. -/
theorem illegalToken_exact {text : Bytes} {d : Diagnostic} (h : d.location.Exact text) :
    (illegalToken d).Exact text := by
  have hNonneg := h.start_nonneg
  have hStart := h.start_le
  have hStop := h.stop_le
  refine ⟨?_, ?_, ?_, ?_⟩
  · show d.location.start.toNat ≤ d.location.stop.toNat
    omega
  · show d.location.stop.toNat ≤ text.length
    omega
  · show d.location.line.toNat = _
    rw [h.line_eq, Int.toNat_natCast]
    rfl
  · show d.location.column.toNat = _
    rw [h.column_eq, Int.toNat_natCast]
    rfl

/-- The error for a fault in the token at a cursor is where the fault is. -/
theorem diagnostic_exact {text : Bytes} {c : Cursor} {f : ScanFault} (source : Option Source)
    (h : c.Exact text) (hStart : f.start < c.rest.length) (hWidth : f.width ≤ c.rest.length) :
    (diagnostic source c f).location.Exact text := by
  obtain ⟨-, hRange, hHigh⟩ := illegalToken_range source h.inside hStart hWidth
  have hPlace := h.advance f.start
  exact
    { start_nonneg := Int.natCast_nonneg _
      start_le := by simp only [illegalToken, diagnostic, Diagnostic.lexical] at hRange ⊢; omega
      stop_le := by simp only [illegalToken, diagnostic, Diagnostic.lexical] at hHigh ⊢; omega
      line_eq := congrArg Nat.cast hPlace.line_eq
      column_eq := congrArg Nat.cast hPlace.column_eq }

/-- The lexer has counted the lines and columns up to where it stands, and its error, if it has one,
is where it says. -/
structure Exact (text : Bytes) (l : Lexer) : Prop where
  cursor : l.cursor.Exact text
  failure {d : Diagnostic} : l.failure = some d → d.location.Exact text

theorem Exact.ofText (text : Bytes) (source : Option Source) :
    Exact text { ofText text with source } := ⟨.start text, nofun⟩

variable [PatternCheck]

/-- One call gives a token that is where it says, and leaves a lexer that has counted on. -/
theorem next_exact {text : Bytes} {l : Lexer} (h : l.Exact text) :
    l.next.1.Exact text ∧ l.next.2.Exact text := by
  cases hFailure : l.failure with
  | some d =>
    unfold next
    rw [hFailure]
    exact ⟨illegalToken_exact (h.failure hFailure), h⟩
  | none =>
    obtain ⟨-, -, hStart, hStop, -⟩ := next_advances h.cursor.inside hFailure
    have hCursor := h.cursor.advance (Gap.scan l.cursor.rest).width
    revert hStart hStop
    unfold next
    rw [hFailure]
    dsimp only
    generalize l.cursor.advance (Gap.scan l.cursor.rest).width = c at *
    intro hStart hStop
    cases hScan : Lexeme.scan l.before c.rest with
    | error f =>
      obtain ⟨hFault, hWidth⟩ := Lexeme.scan_error hScan
      have hExact := diagnostic_exact l.source hCursor hFault hWidth
      refine ⟨illegalToken_exact hExact, hCursor, ?_⟩
      rintro d ⟨⟩
      exact hExact
    | ok lexeme =>
      rw [hScan] at hStart hStop
      dsimp only at hStart hStop ⊢
      split at hStart <;> rename_i hComment
      · rw [if_pos hComment] at hStop ⊢
        exact ⟨⟨hStart, hStop, hCursor.line_eq, hCursor.column_eq⟩, hCursor.advance _, nofun⟩
      · rw [if_neg hComment] at hStop ⊢
        exact ⟨⟨hStart, hStop, hCursor.line_eq, hCursor.column_eq⟩, hCursor.advance _, nofun⟩

/-- However often the lexer is called, it has counted right. -/
theorem Exact.iterate {text : Bytes} {l : Lexer} (h : l.Exact text) (n : Nat) :
    ((fun l : Lexer => l.next.2)^[n] l).Exact text := by
  induction n generalizing l with
  | zero => exact h
  | succ n ih => exact ih (next_exact h).2

theorem Exact.steps {text : Bytes} {l : Lexer} (h : l.Exact text) (fuel : Nat) :
    ∀ step ∈ l.steps fuel, step.1.Exact text ∧ step.2.Exact text := by
  induction fuel generalizing l with
  | zero => simp [Lexer.steps]
  | succ fuel ih =>
    have hNext := next_exact h
    rw [Lexer.steps]
    dsimp only
    split
    · simpa using hNext
    · simpa using ⟨hNext, fun t after => ih hNext.2 (t, after)⟩

end Lexer

end ScriptOptimizer
