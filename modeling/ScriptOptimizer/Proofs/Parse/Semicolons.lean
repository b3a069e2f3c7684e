import ScriptOptimizer.Pattern.Check
import ScriptOptimizer.Proofs.Parse.LinesStatement
import ScriptOptimizer.Proofs.Parse.Spans

/-!
Semicolons that are left out. A program may lack one only where none could be missed, and it never
reads on over the end of a line where that would be taken for the end of a statement.
-/

namespace ScriptOptimizer

namespace Lexer

/-- The tokens of a source say whether a line terminator stands between them and the one before. -/
theorem significant_noted [PatternCheck] (source : Source) :
    Parse.Noted source.content (ofSource source).significant.1 := by
  intro t u hPair
  have hChain := List.IsChain.infix (significant_parted source.content (some source)).isChain hPair
  exact (List.isChain_pair.mp hChain).2

end Lexer

namespace Program

/-- In a program that was read every declaration, expression, `return`, `throw`, `break`, `continue`
and `debugger` that stands as a statement ends in a semicolon, or a closing brace, the end of input
or a token behind a line terminator comes next. No line terminator stands between an operand and the
operator after it, nor behind the word of a `throw`, a `return`, a `break` or a `continue` that has
an argument or a label. -/
theorem semicolons_inserted [PatternCheck] {source : Source} {p : Program}
    (h : parse source = .ok p) :
    ∀ n ∈ (Node.program p).preorder,
      (∀ s ∈ n.innerStatements,
        s.Ends source.content (Lexer.ofSource source).significant.1) ∧
      n.Unbroken source.content (Lexer.ofSource source).significant.1 := by
  unfold parse readFrom at h
  dsimp only at h
  split at h
  case h_1 => cases h
  case h_2 s hStart =>
    obtain ⟨hReady, hTokens⟩ := start_ready hStart
    have hShows : Parse.Shows (Lexer.ofSource source).significant.1 s :=
      ⟨hReady, hTokens ▸ List.suffix_refl _⟩
    have hYields := (Parse.Lines.nested (Lexer.significant_noted source)
      ((Lexer.ofSource source).significant.1.length + 1)).program hShows
    unfold Parse.Yields at hYields
    split at h
    case h_2 => cases h
    case h_1 q t hRun =>
      obtain rfl : q = p := Except.ok.inj h
      rw [hRun] at hYields
      exact fun n hn => ⟨(hYields n hn).ends, (hYields n hn).unbroken⟩

/-- An operator that belongs to the line after it, one that belongs to the line before it, and a
jump that a closing brace ends. -/
theorem semicolons_inserted_lines :
    let source := Source.inline (Bytes.ofString "x: while (a) \x7bb\n++c; d++\ncontinue x\x7d")
    ∃ p, parse source = .ok p ∧ ∀ n ∈ (Node.program p).preorder,
      (∀ s ∈ n.innerStatements,
        s.Ends source.content (Lexer.ofSource source).significant.1) ∧
      n.Unbroken source.content (Lexer.ofSource source).significant.1 := by
  intro source
  have hSome : (parse source).toOption.isSome = true := by decide +kernel
  cases h : parse source with
  | ok p => exact ⟨p, rfl, semicolons_inserted h⟩
  | error d =>
    rw [h] at hSome
    cases hSome

end Program

end ScriptOptimizer
