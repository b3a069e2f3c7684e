import ScriptOptimizer.Pattern.Check
import ScriptOptimizer.Proofs.Print.RoundTrip
import ScriptOptimizer.Proofs.Walk.Bare

/-!
Regular expressions in printed text. The tokens that the printer writes have the regular expressions
of the source in their order. The lexer finds these tokens again exactly if the program keeps its
regular expressions, that is, if none is written directly behind a token that ends an operand.
-/

namespace ScriptOptimizer

theorem Node.regex?_bare (n : Node) : n.bare.regex? = n.regex? := by
  cases n with
  | expr e =>
    cases e with
    | literal lit =>
      obtain ⟨span, raw, value⟩ := lit
      cases value <;> rfl
    | _ => simp only [bare, Expr.bare, regex?]
  | _ => rfl

theorem Node.regexes_bare (n : Node) : n.bare.regexes = n.regexes := by
  rw [regexes, preorder_bare, List.filterMap_map]
  exact congrArg (List.filterMap · n.preorder) (funext regex?_bare)

namespace Spelling

/-- The texts of the regular expressions among the tokens. -/
def regexes (ws : List Spelling) : List Bytes := (ws.map token).filterMap Token.regex?

end Spelling

/-- Tokens that are spelled so have the same regular expressions. -/
theorem regexes_of_spelled {tokens : List Token} {ws : List Spelling}
    (h : List.Forall₂ Token.Spelled tokens ws) :
    tokens.filterMap Token.regex? = Spelling.regexes ws := by
  induction h with
  | nil => rfl
  | @cons t w tokens ws hFirst _ ih =>
    have hSame : t.regex? = w.token.regex? := by
      rw [Token.regex?, Token.regex?, hFirst.type_eq, hFirst.literal_eq]
      rfl
    rw [Spelling.regexes, List.map_cons, List.filterMap_cons, List.filterMap_cons, hSame, ih]
    rfl

namespace Stream

/-- A stream of tokens without places. -/
def ofSpellings (w : Spelling) (ws : List Spelling) : Stream :=
  ⟨w.token, ws.map Spelling.token, none, ⟨0, 0, 0⟩, none, {}⟩

theorem ofSpellings_tokens (w : Spelling) (ws : List Spelling) :
    (ofSpellings w ws).current :: (ofSpellings w ws).upcoming = (w :: ws).map Spelling.token := rfl

theorem ofSpellings_shows (w : Spelling) (ws : List Spelling) :
    (ofSpellings w ws).Shows (w :: ws) := by
  refine ⟨rfl, .cons w.token_spelled ?_⟩
  exact List.forall₂_map_left_iff.2 (List.forall₂_same.2 fun v _ => v.token_spelled)

theorem ofSpellings_ready {w : Spelling} {ws : List Spelling}
    (h : ∀ v ∈ (w :: ws).getLast?, v.type = .endOfInput) : Parse.Ready (ofSpellings w ws) where
  sorted := by
    rw [ofSpellings_tokens, List.pairwise_map]
    exact List.pairwise_of_forall fun _ _ => Nat.le_refl 0
  le := by
    rw [ofSpellings_tokens, List.forall_mem_map]
    exact fun _ _ => Nat.le_refl 0
  last _ := by
    rw [ofSpellings_tokens, List.getLast?_map]
    rintro t ht
    obtain ⟨v, hv, rfl⟩ := Option.map_eq_some_iff.1 ht
    exact h v hv
  unread := nofun
  stop_le := Int.le_refl 0

end Stream

namespace Program

theorem regexes_congr {p q : Program} (h : p.bare = q.bare) : p.regexes = q.regexes := by
  rw [regexes, regexes, ← Node.regexes_bare, ← Node.regexes_bare (.program q), Node.bare, Node.bare,
    h]

/-- Tokens that are read as the statements of a program have its regular expressions. -/
theorem regexes_of_reads {items : List (List Spelling)} {p : Program}
    (h : List.Forall₂ (ReadsStmt Context.program) items p.body) :
    Spelling.regexes (items.flatten ++ [Spelling.finish]) = p.regexes := by
  obtain ⟨w, ws, hCons⟩ := List.exists_cons_of_ne_nil
    (show items.flatten ++ [Spelling.finish] ≠ [] by simp)
  have hLast : ∀ v ∈ (w :: ws).getLast?, v.type = .endOfInput := by
    rw [← hCons, List.getLast?_concat]
    rintro v ⟨⟩
    rfl
  obtain ⟨q, after, hRun, hBody, hShows⟩ := Grammar.program_reads h (Nat.lt_succ_self _)
    (by simp) (.ofSpellings w ws) (hCons ▸ Stream.ofSpellings_shows w ws)
  -- The rule reads the nodes of its tree from the tokens.
  have hYields := (Parse.Extents.nested (items.flatten.length + 1)).program
    (Stream.ofSpellings_ready hLast)
  rw [Parse.Yields, hRun] at hYields
  obtain ⟨ps, hRow, hPieces, -⟩ := hYields.1.pieces
  have hRest : (after.current :: after.upcoming).filterMap Token.regex? = [] :=
    regexes_of_spelled hShows.spelled
  have hRegexes : q.regexes = Spelling.regexes (items.flatten ++ [Spelling.finish]) :=
    calc q.regexes
        = (Part.nodes (Node.program q).parts).filterMap Node.regex? := by
          rw [regexes, Node.regexes, Node.preorder_parts, List.filterMap_cons_none rfl]
          rfl
      _ = (ps.map Piece.token).filterMap Token.regex? := hRow.regexes
      _ = ((w :: ws).map Spelling.token).filterMap Token.regex? := by
          rw [← Stream.ofSpellings_tokens, hPieces, List.filterMap_append, hRest, List.append_nil]
      _ = Spelling.regexes (items.flatten ++ [Spelling.finish]) := by rw [hCons, Spelling.regexes]
  rw [← hRegexes]
  exact regexes_congr (congrArg (Program.mk .none) hBody)

/-- The tokens that the printer writes for a program that was read, unless a name with an escape
stood in the source, have the regular expressions of the source. Every one of these stands where one
may stand exactly if the program keeps its regular expressions, and exactly then the lexer gives
these tokens; so the regular expressions are found again, and the text is read as the program. -/
theorem parse_print_regexes [PatternCheck] {source : Source} {p : Program}
    (h : parse source = .ok p) (hPlain : ∀ t ∈ (Lexer.ofSource source).significant.1, t.Unescaped)
    (name path : Bytes) :
    let tokens := (Lexer.ofSource source).significant.1
    let printed := (Lexer.ofSource ⟨name, path, p.print⟩).significant
    ∃ ws, Lexed NotDot false p.print ws ∧
      Spelling.regexes ws = tokens.filterMap Token.regex? ∧
      (Spelling.Admitted true ws ↔ p.KeepsRegexes) ∧
      (printed.2 = none ∧ List.Forall₂ Token.Spelled printed.1 ws ↔ p.KeepsRegexes) ∧
      (p.KeepsRegexes → printed.1.filterMap Token.regex? = tokens.filterMap Token.regex? ∧
        ∃ q, parse ⟨name, path, p.print⟩ = .ok q ∧ q.bare = p.bare) := by
  intro tokens printed
  have hGood := good_of_parse h hPlain
  obtain ⟨items, hItems, hLexed⟩ := print_lexed hGood
  have hAdmitted := (row_judges (hItems.imp fun _ _ h => h.2)).iff
  have hRegexes : Spelling.regexes (items.flatten ++ [.finish]) =
      tokens.filterMap Token.regex? := by
    rw [regexes_of_reads (hItems.imp fun _ _ h => h.1), regexes_of_parse h]
  have hFound : printed.2 = none ∧ List.Forall₂ Token.Spelled printed.1
      (items.flatten ++ [.finish]) ↔ p.KeepsRegexes := by
    rw [← hAdmitted]
    constructor
    · rintro ⟨-, hSpelled⟩
      exact (Lexer.significant_scanned (Lexer.ofSource ⟨name, path, p.print⟩)).admitted hSpelled
    · intro hStand
      obtain ⟨found, hTokens, hSpelled⟩ :=
        @Lexer.significant_lexed _ ⟨name, path, p.print⟩ _ hLexed hStand
      rw [show printed = (found, none) from hTokens]
      exact ⟨rfl, hSpelled⟩
  refine ⟨_, hLexed, hRegexes, hAdmitted, hFound, fun hKeeps => ⟨?_, ?_⟩⟩
  · rw [regexes_of_spelled (hFound.2 hKeeps).2, hRegexes]
  · exact parse_print_of_good hGood hKeeps rfl

/-- Behind operators, an opening parenthesis, a comma and `return`. -/
theorem parse_print_regexes_kept :
    let source := Source.inline
      (Bytes.ofString "c=/x+/g,f(/[/]/,!/b/i.test(s));function g()\x7breturn/=/\x7d")
    ∃ p, parse source = .ok p ∧ p.KeepsRegexes ∧
      (Lexer.ofSource ⟨[], [], p.print⟩).significant.1.filterMap Token.regex? =
        ["/x+/g", "/[/]/", "/b/i", "/=/"].map Bytes.ofString := by
  intro source
  have hKeeps : (parse source).toOption.any (fun p => decide p.KeepsRegexes) = true := by
    decide +kernel
  have hPlain : ∀ t ∈ (Lexer.ofSource source).significant.1, t.Unescaped := by
    simp only [Token.Unescaped]
    decide +kernel
  have hRegexes : (Lexer.ofSource source).significant.1.filterMap Token.regex? =
      ["/x+/g", "/[/]/", "/b/i", "/=/"].map Bytes.ofString := by decide +kernel
  cases h : parse source with
  | ok p =>
    rw [h] at hKeeps
    have hKeeps : p.KeepsRegexes := of_decide_eq_true hKeeps
    obtain ⟨ws, -, -, -, -, hFound⟩ := parse_print_regexes h hPlain [] []
    exact ⟨p, rfl, hKeeps, (hFound hKeeps).1.trans hRegexes⟩
  | error d =>
    rw [h] at hKeeps
    cases hKeeps

/-- Without its parentheses a regular expression behind the head of an `if` is not found again. -/
theorem parse_print_regexes_lost :
    let source := Source.inline (Bytes.ofString "if(x)(/a/.test(y))")
    ∃ p, parse source = .ok p ∧
      (∀ t ∈ (Lexer.ofSource source).significant.1, t.Unescaped) ∧
      (Lexer.ofSource source).significant.1.filterMap Token.regex? = [Bytes.ofString "/a/"] ∧
      (Lexer.ofSource ⟨[], [], p.print⟩).significant.1.filterMap Token.regex? = [] := by
  intro source
  have hPlain : ∀ t ∈ (Lexer.ofSource source).significant.1, t.Unescaped := by
    simp only [Token.Unescaped]
    decide +kernel
  have hRegexes : (Lexer.ofSource source).significant.1.filterMap Token.regex? =
      [Bytes.ofString "/a/"] := by
    decide +kernel
  have hLost : (parse source).toOption.any (fun p =>
      (Lexer.ofSource ⟨[], [], p.print⟩).significant.1.filterMap Token.regex? = []) = true := by
    decide +kernel
  cases h : parse source with
  | ok p =>
    rw [h] at hLost
    exact ⟨p, rfl, hPlain, hRegexes, of_decide_eq_true hLost⟩
  | error d =>
    rw [h] at hLost
    cases hLost

end Program

end ScriptOptimizer
