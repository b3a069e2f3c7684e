import ScriptOptimizer.Pattern.Check
import ScriptOptimizer.Proofs.Parse.PairedProgram
import ScriptOptimizer.Proofs.Token.Position

/-!
Where errors are. An error of the grammar is about a token that was read, so it is where the lexer
found that token, and a lexical error is where the lexer says.
-/

namespace ScriptOptimizer

theorem Token.Exact.locationIn {text : Bytes} {t : Token} (h : t.Exact text)
    (source : Option Source) : (t.locationIn source).Exact text where
  start_nonneg := Int.natCast_nonneg _
  start_le := Int.ofNat_le.mpr h.start_le
  stop_le := Int.ofNat_le.mpr h.stop_le
  line_eq := congrArg Nat.cast h.line_eq
  column_eq := congrArg Nat.cast h.column_eq

namespace Lexer

/-- The tokens that count, and the error after them, are where they say. -/
theorem Exact.significant [PatternCheck] {text : Bytes} {l : Lexer} (h : l.Exact text) :
    (∀ t ∈ l.significant.1, t.Exact text) ∧
      ∀ d, l.significant.2 = some d → d.location.Exact text := by
  have hSteps := h.steps (l.cursor.rest.length + 1)
  refine ⟨fun t ht => ?_, fun d hd => ?_⟩
  · obtain ⟨step, hMem, rfl⟩ := List.mem_map.mp (List.mem_of_mem_filter ht)
    exact (hSteps step hMem).1
  · obtain ⟨step, hLast, hFailure⟩ := Option.bind_eq_some_iff.mp hd
    exact (hSteps step (List.mem_of_getLast? hLast)).2.failure hFailure

end Lexer

namespace Program

/-- Every error of a source is where it says. -/
theorem readFrom_error_exact [PatternCheck] {source : Source} {d : Diagnostic}
    (h : parse source = .error d) : d.location.Exact source.content := by
  have hLexer : (Lexer.ofSource source).Exact source.content := .ofText source.content (some source)
  obtain ⟨hTokens, hFailure⟩ := hLexer.significant
  have hAlong : Pairing.Along _ false _ := Pairing.Along.of_forall hTokens
  have hSources := Pairing.Sources.self hLexer.cursor.inside rfl hAlong
  have hVerdicts := hSources.readFrom {} {}
  rw [show (readFrom {} (Lexer.ofSource source)).1 = parse source from rfl, h] at hVerdicts
  cases hVerdicts with
  | error hFaults =>
    cases hFaults with
    | failed hLeft => exact hFailure d hLeft
    | located hRel hLocation => exact hLocation ▸ hRel.2.locationIn _

/-- Positions are exact. Whatever the text, and however often the lexer is called on it, the line of
the token it gives is one more than the number of line terminators that end before the token starts,
and the column one more than the distance from the last of them; and so for every error of the text
as a program, which is about a range of the text. -/
theorem positions_exact [PatternCheck] (text : Bytes) (source : Option Source) :
    (∀ n, let l : Lexer := { Lexer.ofText text with source }
      let t := ((fun l : Lexer => l.next.2)^[n] l).next.1
      t.line = 1 + (text.lineEnds t.start).length ∧
      t.column = 1 + (t.start - text.lineStart t.start)) ∧
    ∀ name path d, parse ⟨name, path, text⟩ = .error d →
      0 ≤ d.location.start ∧ d.location.start ≤ d.location.stop ∧ d.location.stop ≤ text.length ∧
      d.location.line = 1 + (text.lineEnds d.location.start.toNat).length ∧
      d.location.column =
        1 + (d.location.start - text.lineStart d.location.start.toNat) := by
  refine ⟨fun n => ?_, fun name path d h => ?_⟩
  · have hToken := (Lexer.next_exact ((Lexer.Exact.ofText text source).iterate n)).1
    exact ⟨hToken.line_eq, hToken.column_eq⟩
  · have hExact : d.location.Exact text := readFrom_error_exact h
    have hStart := text.lineStart_le d.location.start.toNat
    have hNonneg := hExact.start_nonneg
    refine ⟨hNonneg, hExact.start_le, hExact.stop_le, ?_, ?_⟩
    · rw [hExact.line_eq, Bytes.lineAt, Int.natCast_add, Int.natCast_one]
    · rw [hExact.column_eq, Bytes.columnAt]
      omega

/-- A parenthesis that closes nothing, on the third line: a carriage return with a line feed after
it ends one line only, and so does U+2028. -/
theorem positions_exact_separators :
    let text : Bytes := [97, 13, 10, 0xE2, 0x80, 0xA8, 32, 41]
    ∃ d, parse (Source.inline text) = .error d ∧ d.location.start = 7 ∧ d.location.line = 3 ∧
      d.location.column = 2 := by
  intro text
  have hFails : (match parse (Source.inline text) with
      | .ok _ => none
      | .error d => some d.location.start) = some 7 := by decide
  cases h : parse (Source.inline text) with
  | ok p =>
    rw [h] at hFails
    cases hFails
  | error d =>
    rw [h] at hFails
    have hStart : d.location.start = 7 := Option.some.inj hFails
    obtain ⟨-, -, -, hLine, hColumn⟩ := (positions_exact text none).2 _ _ d h
    rw [hStart] at hLine hColumn
    exact ⟨d, rfl, hStart, hLine.trans (by decide), hColumn.trans (by decide)⟩

end Program

end ScriptOptimizer
