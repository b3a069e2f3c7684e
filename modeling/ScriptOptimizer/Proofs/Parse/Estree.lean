import ScriptOptimizer.Pattern.Check
import ScriptOptimizer.Proofs.Parse.Spans
import ScriptOptimizer.Proofs.Syntax.Document

/-!
The ESTree text of a program that was read loses nothing but the places.
-/

namespace ScriptOptimizer.Program

/-- A program that was read from well-formed text is formed of clean tokens. -/
theorem formed_clean [PatternCheck] {source : Source} {p : Program}
    (hValid : Utf8.isValid source.content = true) (h : parse source = .ok p) :
    Stmt.AllFormed .clean .program p.body := by
  obtain ⟨ps, last, -, hType, hTokens, -⟩ := exists_row h
  have hClean := Lexer.clean_of_significant hValid ⟨last, by simp [hTokens], hType⟩
  exact formed_of_parse h (Pairing.Along.of_forall hClean)

/-- Programs that are read from well-formed texts and have the same ESTree text are the same in
everything but the places of their nodes. -/
theorem estree_lossless [PatternCheck] {source other : Source} {p q : Program}
    (hSource : Utf8.isValid source.content = true) (hOther : Utf8.isValid other.content = true)
    (hp : parse source = .ok p) (hq : parse other = .ok q) (h : p.estree = q.estree) :
    p.bare = q.bare := by
  have hBody : SameText (p.document false) (q.document false) := h
  obtain ⟨hStmts, -⟩ := Document.values_told hBody
  rw [bare, bare, Stmt.AllFormed.told p.body q.body (formed_clean hSource hp)
    (formed_clean hOther hq) hStmts.items]

/-- Two layouts of one program. -/
theorem estree_lossless_layouts : ∃ p q,
    parse (Source.inline (Bytes.ofString "if(a)b=/é/g")) = .ok p ∧
      parse (Source.inline (Bytes.ofString "if (a)\n  b = /é/g;")) = .ok q ∧
      p.estree = q.estree ∧ p.bare = q.bare := by
  have hSame :
      (parse (Source.inline (Bytes.ofString "if(a)b=/é/g"))).toOption.map estree =
        (parse (Source.inline (Bytes.ofString "if (a)\n  b = /é/g;"))).toOption.map estree := by
    decide +kernel
  have hSome : (parse (Source.inline (Bytes.ofString "if(a)b=/é/g"))).toOption.isSome = true := by
    decide +kernel
  cases hp : parse (Source.inline (Bytes.ofString "if(a)b=/é/g")) with
  | error d =>
    rw [hp] at hSome
    cases hSome
  | ok p =>
    cases hq : parse (Source.inline (Bytes.ofString "if (a)\n  b = /é/g;")) with
    | error d =>
      rw [hp, hq] at hSame
      cases hSame
    | ok q =>
      rw [hp, hq] at hSame
      have hText : p.estree = q.estree := Option.some.inj hSame
      exact ⟨p, q, rfl, rfl, hText,
        estree_lossless (by decide +kernel) (by decide +kernel) hp hq hText⟩

end ScriptOptimizer.Program
