import ScriptOptimizer.Pattern.Check
import ScriptOptimizer.Proofs.Parse.Position
import ScriptOptimizer.Proofs.Text.Pieces
import ScriptOptimizer.Proofs.Token.LineBreak

/-!
What is shown of an error. The lexer counts lines by every line terminator, and the display looks
for the line between line feeds. Up to the first terminator that is no line feed the two agree; a
line behind one is never shown.
-/

namespace ScriptOptimizer

namespace Bytes

/-- The line with an offset, without its terminator. -/
def lineText (text : Bytes) (offset : Nat) : Bytes :=
  let rest := text.drop (text.lineStart offset)
  rest.take (Comment.lineWidth rest)

/-- What follows the line with an offset, from its terminator on. -/
def afterLine (text : Bytes) (offset : Nat) : Bytes :=
  text.drop (text.lineStart offset + (text.lineText offset).length)

/-- Every line before the one with the offset ends with a line feed, perhaps behind a carriage
return. -/
def FedBefore (text : Bytes) (offset : Nat) : Prop :=
  ∀ i ∈ text.lineEnds offset, text[i]? = some 10

/-- So does the line with the offset, or it is the last one. -/
def FedAt (text : Bytes) (offset : Nat) : Prop :=
  text.afterLine offset = [] ∨ [10] <+: text.afterLine offset ∨ [13, 10] <+: text.afterLine offset

instance (text : Bytes) (offset : Nat) : Decidable (text.FedBefore offset) :=
  inferInstanceAs (Decidable (∀ i ∈ text.lineEnds offset, text[i]? = some 10))

instance (text : Bytes) (offset : Nat) : Decidable (text.FedAt offset) :=
  inferInstanceAs (Decidable (_ ∨ _ ∨ _))

/-! ### Pieces between line feeds -/

section

variable {sep : UInt8} {front back text : Bytes}

/-- The text is empty, or the separator is its last byte. -/
def EndsIn (sep : UInt8) (front : Bytes) : Prop := front = [] ∨ front.getLast? = some sep

theorem EndsIn.cons {b : UInt8} (h : EndsIn sep front) (hSome : front = [] → b = sep) :
    EndsIn sep (b :: front) := by
  refine .inr ?_
  rcases h with rfl | h
  · rw [hSome rfl, List.getLast?_singleton]
  · rw [List.getLast?_cons, h, Option.getD_some]

theorem EndsIn.tail {b : UInt8} (h : EndsIn sep (b :: front)) :
    EndsIn sep front ∧ (front = [] → b = sep) := by
  have hLast := h.resolve_left (List.cons_ne_nil _ _)
  cases front with
  | nil => exact ⟨.inl rfl, fun _ => Option.some.inj hLast⟩
  | cons c front => exact ⟨.inr (List.getLast?_cons_cons ▸ hLast), nofun⟩

theorem EndsIn.count_pos (h : EndsIn sep front) (hSome : front ≠ []) : 0 < front.count sep :=
  List.count_pos_iff.2 (List.mem_of_getLast? (h.resolve_left hSome))

/-- The piece behind a separator is found by the number of separators up to it. -/
theorem splitOn_behind (h : EndsIn sep front) :
    (splitOn sep (front ++ back))[front.count sep]? = some (back.takeWhile (· ≠ sep)) := by
  induction front with
  | nil => exact splitOn_head
  | cons b front ih =>
    obtain ⟨hTail, hOnly⟩ := h.tail
    rw [List.cons_append, splitOn_cons]
    split
    · rename_i hSep
      rw [hSep, List.count_cons_self, List.getElem?_cons_succ, ih hTail]
    · rename_i hSep
      obtain ⟨k, hk⟩ := Nat.exists_eq_succ_of_ne_zero (hTail.count_pos (mt hOnly hSep)).ne'
      have hMore := ih hTail
      rw [List.count_cons_of_ne hSep, hk]
      rw [hk] at hMore
      cases hPieces : splitOn sep (front ++ back) with
      | nil => exact absurd hPieces splitOn_ne_nil
      | cons piece pieces =>
        rw [hPieces] at hMore
        exact hMore

/-- Every piece stands at the front or behind a separator. -/
theorem exists_of_splitOn {k : Nat} {piece : Bytes} (h : (splitOn sep text)[k]? = some piece) :
    ∃ front back, text = front ++ back ∧ EndsIn sep front ∧ front.count sep = k ∧
      piece = back.takeWhile (· ≠ sep) := by
  induction text generalizing k with
  | nil =>
    cases k with
    | zero => exact ⟨[], [], rfl, .inl rfl, rfl, (Option.some.inj h).symm⟩
    | succ k => simp [splitOn] at h
  | cons b rest ih =>
    cases k with
    | zero =>
      rw [splitOn_head] at h
      exact ⟨[], b :: rest, rfl, .inl rfl, rfl, (Option.some.inj h).symm⟩
    | succ k =>
      rw [splitOn_cons] at h
      split at h
      · rename_i hSep
        obtain ⟨front, back, rfl, hEnds, hCount, hPiece⟩ := ih h
        refine ⟨b :: front, back, rfl, hEnds.cons fun _ => hSep, ?_, hPiece⟩
        rw [hSep, List.count_cons_self, hCount]
      · rename_i hSep
        have hMore : (splitOn sep rest)[k + 1]? = some piece := by
          cases hPieces : splitOn sep rest with
          | nil => exact absurd hPieces splitOn_ne_nil
          | cons first pieces =>
            rw [hPieces] at h
            exact h
        obtain ⟨front, back, rfl, hEnds, hCount, hPiece⟩ := ih hMore
        refine ⟨b :: front, back, rfl, hEnds.cons ?_, ?_, hPiece⟩
        · rintro rfl
          cases hCount
        · rw [List.count_cons_of_ne hSep, hCount]

end

/-! ### Lines among the pieces -/

section

variable (text : Bytes) (offset : Nat)

/-- No line ends between the start of a line and an offset in it. -/
theorem lineEnds_lineStart : text.lineEnds (text.lineStart offset) = text.lineEnds offset := by
  induction offset with
  | zero => rfl
  | succ n ih =>
    rw [lineStart_succ]
    split
    · rfl
    · rename_i hEnds
      rw [lineEnds_succ, if_neg hEnds, List.append_nil, ih]

theorem endsLineAt_of_feed {text : Bytes} {i : Nat} (h : text[i]? = some 10) :
    text.endsLineAt i = true := by
  simp [endsLineAt, h]

/-- Of the lines before an offset those with a line feed are counted by the line feeds. -/
theorem count_take : (text.take offset).count 10 =
    ((text.lineEnds offset).filter fun i => text[i]? = some 10).length := by
  induction offset with
  | zero => rfl
  | succ n ih =>
    rw [List.take_add_one, List.count_append, ih, lineEnds_succ, List.filter_append,
      List.length_append]
    congr 1
    by_cases hFeed : text[n]? = some 10
    · rw [if_pos (endsLineAt_of_feed hFeed), hFeed, List.filter_singleton]
      simp [hFeed]
    · have hNone : text[n]?.toList.count 10 = 0 := by
        cases hByte : text[n]? with
        | none => rfl
        | some b => simp_all
      rw [hNone]
      split <;> simp [hFeed]

theorem count_take_le : (text.take offset).count 10 ≤ (text.lineEnds offset).length := by
  rw [count_take]
  exact List.length_filter_le _ _

theorem fedBefore_iff :
    text.FedBefore offset ↔ (text.take offset).count 10 = (text.lineEnds offset).length := by
  rw [count_take, List.length_filter_eq_length_iff]
  simp [FedBefore]

/-- Up to a line feed a text goes on to the end of its line, and perhaps further. -/
theorem takeWhile_lineWidth : text.takeWhile (· ≠ 10) = text.take (Comment.lineWidth text) ++
    (text.drop (Comment.lineWidth text)).takeWhile (· ≠ 10) := by
  fun_induction Comment.lineWidth text with
  | case1 => rfl
  | case2 => rfl
  | case3 b rest hBreak ih =>
    have hFeed : b ≠ 10 := by
      rintro rfl
      exact hBreak rfl
    rw [List.takeWhile_cons_of_pos (by simpa using hFeed), ih]
    rfl

/-- Behind line feeds only, the line of an offset is the beginning of the piece with its number. -/
theorem splitOn_fed {text : Bytes} {offset : Nat} (h : text.FedBefore offset) :
    (splitOn 10 text)[(text.lineEnds offset).length]? =
      some (text.lineText offset ++ (text.afterLine offset).takeWhile (· ≠ 10)) := by
  have hCount : (text.take (text.lineStart offset)).count 10 = (text.lineEnds offset).length := by
    rw [(fedBefore_iff _ _).1, lineEnds_lineStart]
    intro i hi
    exact h i (lineEnds_lineStart text offset ▸ hi)
  have hEnds : EndsIn 10 (text.take (text.lineStart offset)) := by
    unfold lineStart
    split
    · rename_i i hLast
      have hFeed := h i (List.mem_of_getLast? hLast)
      refine .inr ?_
      rw [List.take_add_one, hFeed]
      simp
    · exact .inl rfl
  have hPiece :
      (splitOn 10 (text.take (text.lineStart offset) ++ text.drop (text.lineStart offset)))[
        (text.take (text.lineStart offset)).count 10]? = _ := splitOn_behind hEnds
  rw [List.take_append_drop, hCount, takeWhile_lineWidth] at hPiece
  rw [hPiece, lineText, afterLine, List.drop_drop, lineText, List.length_take_of_le]
  exact Comment.lineWidth_le _

/-- Behind another line terminator, a piece with the number of the line begins further on. -/
theorem splitOn_unfed {text piece : Bytes} {offset : Nat} (h : ¬text.FedBefore offset)
    (hPiece : (splitOn 10 text)[(text.lineEnds offset).length]? = some piece) :
    ∃ start > offset, piece = (text.drop start).takeWhile (· ≠ 10) := by
  obtain ⟨front, back, rfl, -, hCount, rfl⟩ := exists_of_splitOn hPiece
  refine ⟨front.length, ?_, by rw [List.drop_left]⟩
  by_contra hLe
  refine h ((fedBefore_iff _ _).2 (le_antisymm (count_take_le _ _) ?_))
  rw [← hCount, List.take_append, List.take_of_length_le (by omega)]
  exact (List.sublist_append_left _ _).count_le _

end

/-- What is left out at the end anyway may follow the text. -/
theorem trimEnd_append {drop : UInt8 → Bool} {text more : Bytes} (h : ∀ b ∈ more, drop b = true) :
    trimEnd drop (text ++ more) = trimEnd drop text := by
  unfold trimEnd
  rw [List.reverse_append, List.dropWhile_append_of_pos]
  simpa using h

end Bytes

namespace Diagnostic

/-- The name of the source, as it stands in front of an error. -/
def origin (d : Diagnostic) : Bytes :=
  match d.location.source with
  | some source => source.displayName ++ Bytes.ofString ": "
  | none => []

/-- Is the byte left out at the end of a line? -/
def isTrailing (b : UInt8) : Bool := b = 13 || b = 10 || b = 9 || b = 32

/-- The output is the error with this line, and a caret under the column of the error. -/
def Shows (d : Diagnostic) (line output : Bytes) : Prop :=
  ∃ tildes : Bytes, (∀ b ∈ tildes, b = 126) ∧ output =
    d.origin ++ d.text ++ Bytes.ofString "\n  " ++ line.trimEnd isTrailing ++
      Bytes.ofString "\n  " ++ (Bytes.replicate (d.location.column - 1).toNat 32 ++
      Bytes.ofString "^" ++ tildes) ++ Bytes.ofString "\n\n"

theorem Shows.trim {d : Diagnostic} {line more output : Bytes} (h : d.Shows (line ++ more) output)
    (hMore : ∀ b ∈ more, isTrailing b = true) : d.Shows line output := by
  unfold Shows at h ⊢
  rwa [Bytes.trimEnd_append hMore] at h

/-- The output is the error without any line. -/
def ShowsNoLine (d : Diagnostic) (output : Bytes) : Prop :=
  output = d.origin ++ d.kind.name ++ Bytes.ofString " Error: " ++ d.message ++ Bytes.ofString "\n"

/-- How an error is rendered, by the line with its number. -/
theorem render_cases (lines : List Bytes) {d : Diagnostic} {n : Nat}
    (h : d.location.line = 1 + n) :
    match lines[n]? with
    | some line => d.Shows line (render lines d)
    | none => d.ShowsNoLine (render lines d) := by
  have hIndex : d.location.line - 1 = n := by omega
  have hNat : ¬(n : Int) < 0 := by omega
  unfold render
  simp only [hIndex, if_neg hNat, Int.toNat_natCast]
  cases lines[n]? with
  | none => rfl
  | some line => exact ⟨Bytes.replicate _ 126, fun b hb => List.eq_of_mem_replicate hb, rfl⟩

end Diagnostic

open Diagnostic (display)

namespace Program

/-- What is shown of an error of a source. The caret is as far in as the error is in its line. If
all lines before end with line feeds, the line shown begins with the line of the error; if so does
that line itself, it is that line. Otherwise the line shown begins somewhere behind the error, or
there is none. -/
theorem displayed_line [PatternCheck] {source : Source} {d : Diagnostic}
    (h : parse source = .error d) :
    let text := source.content
    let start := d.location.start.toNat
    text.lineStart start + (d.location.column - 1).toNat = start ∧
    (text.FedBefore start →
      d.Shows (text.lineText start ++ (text.afterLine start).takeWhile (· ≠ 10))
        (display text [d]) ∧
      (text.FedAt start → d.Shows (text.lineText start) (display text [d]))) ∧
    (¬text.FedBefore start → d.ShowsNoLine (display text [d]) ∨
      ∃ i > start, d.Shows ((text.drop i).takeWhile (· ≠ 10)) (display text [d])) := by
  intro text start
  have hExact := readFrom_error_exact h
  have hColumn : d.location.column = 1 + (start - text.lineStart start : Nat) := by
    rw [hExact.column_eq, Bytes.columnAt]
    simp [text, start]
  have hLe := text.lineStart_le start
  have hLine : d.location.line = 1 + ((text.lineEnds start).length : Nat) := by
    rw [hExact.line_eq, Bytes.lineAt]
    simp [text, start]
  have hCases := Diagnostic.render_cases (Bytes.splitOn 10 text) hLine
  have hDisplay : display text [d] = Diagnostic.render (Bytes.splitOn 10 text) d :=
    List.flatMap_singleton _ _
  rw [← hDisplay] at hCases
  refine ⟨by omega, fun hFed => ?_, fun hFed => ?_⟩
  · rw [Bytes.splitOn_fed hFed] at hCases
    refine ⟨hCases, fun hAt => Diagnostic.Shows.trim hCases ?_⟩
    rcases hAt with hEnd | ⟨more, hFeed⟩ | ⟨more, hReturn⟩
    · simp [hEnd]
    · simp [← hFeed]
    · simp [← hReturn, Diagnostic.isTrailing]
  · cases hPiece : (Bytes.splitOn 10 text)[(text.lineEnds start).length]? with
    | none =>
      rw [hPiece] at hCases
      exact .inl hCases
    | some piece =>
      rw [hPiece] at hCases
      obtain ⟨i, hi, rfl⟩ := Bytes.splitOn_unfed hFed hPiece
      exact .inr ⟨i, hi, hCases⟩

/-- The second of two lines, with a carriage return before each line feed. -/
theorem displayed_line_second :
    let text := Bytes.ofString "var a;\r\nvar = 2;  \r\n"
    ∃ d, parse (Source.inline text) = .error d ∧
      d.Shows (Bytes.ofString "var = 2;  ") (display text [d]) := by
  intro text
  have hFails : (match parse (Source.inline text) with
      | .ok _ => none
      | .error d => some d.location.start) = some 12 := by decide +kernel
  cases h : parse (Source.inline text) with
  | ok p =>
    rw [h] at hFails
    cases hFails
  | error d =>
    rw [h] at hFails
    have hStart : d.location.start = 12 := Option.some.inj hFails
    obtain ⟨-, hFed, -⟩ := displayed_line h
    rw [hStart] at hFed
    exact ⟨d, rfl, (hFed (by decide +kernel)).2 (by decide +kernel)⟩

/-- Behind a carriage return alone no line is shown. -/
theorem displayed_line_return :
    let text := Bytes.ofString "a\r)"
    ∃ d, parse (Source.inline text) = .error d ∧ text.lineText d.location.start.toNat = [41] ∧
      ∀ line, ¬d.Shows line (display text [d]) := by
  intro text
  have hFails : (match parse (Source.inline text) with
      | .ok _ => none
      | .error d => some (text.lineText d.location.start.toNat, display text [d])) =
        some ([41], Bytes.ofString "<inline>: Syntax Error: unexpected ')'\n") := by decide +kernel
  cases h : parse (Source.inline text) with
  | ok p =>
    rw [h] at hFails
    cases hFails
  | error d =>
    rw [h] at hFails
    obtain ⟨hLine, hOutput⟩ := Prod.mk.inj (Option.some.inj hFails)
    refine ⟨d, rfl, hLine, fun line ⟨tildes, _, hShown⟩ => ?_⟩
    have hEnd : Bytes.ofString "\n\n" <:+ display text [d] := hShown ▸ List.suffix_append _ _
    rw [hOutput] at hEnd
    revert hEnd
    decide +kernel

end Program

end ScriptOptimizer
