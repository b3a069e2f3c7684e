import ScriptOptimizer.Proofs.Harmony.Cut
import ScriptOptimizer.Proofs.Print.Operator
import ScriptOptimizer.Proofs.Print.Powers

/-!
What the newer language reads in the printed text of an expression over names. The text is cut into
the tokens that the printer shows, so it says what the expression does exactly if every operand that
stands bare suits its operator.
-/

namespace ScriptOptimizer

open Harmony

/-- The expression has the names and operators of the formula. -/
inductive Expr.Is : Expr → Formula → Prop
  | name (id : Ident) : Is (.ident id) (.name id.name)
  | unary {span : Span} {op : Harmony.Lexeme} {e : Expr} {f : Formula} :
      Rules.isPrefixOperator op = true → Is e f →
      Is (.unary span op.text (.holds e)) (.unary op f)
  | binary {span : Span} {op : Harmony.Lexeme} {layer : Layer} {e e' : Expr} {f g : Formula} :
      op.layer? = some layer → layer ∉ [.conjunction, .disjunction, .coalesce] → Is e f → Is e' g →
      Is (.binary span op.text (.holds e) (.holds e')) (.binary op f g)
  | logical {span : Span} {op : Harmony.Lexeme} {layer : Layer} {e e' : Expr} {f g : Formula} :
      op.layer? = some layer → layer ∈ [.conjunction, .disjunction, .coalesce] → Is e f → Is e' g →
      Is (.logical span op.text (.holds e) (.holds e')) (.binary op f g)

namespace Harmony

/-- All names of the formula may be names. -/
def Formula.Named : Formula → Prop
  | name text => IsName text
  | unary _ f => f.Named
  | binary _ f g => f.Named ∧ g.Named

instance Formula.decidableNamed : (f : Formula) → Decidable f.Named
  | name text => inferInstanceAs (Decidable (IsName text))
  | unary _ f => decidableNamed f
  | binary _ f g =>
    have := decidableNamed f
    have := decidableNamed g
    inferInstanceAs (Decidable (_ ∧ _))

/-- By the rules of the newer language the text is the formula. -/
def Denotes (text : Bytes) (f : Formula) : Prop :=
  ∃ ts, CutInto text ts ∧ Derives .expression ts f

/-! ### Operators in a text -/

theorem Lexeme.text_formed (l : Lexeme) : Utf8.Text l.text := by
  refine Utf8.text_of_ascii (Bytes.forall_mem_of_all ?_)
  cases l with
  | mark p => exact Punctuator.of_all (by decide) p
  | word k => exact Keyword.of_all (by decide) k
  | _ => decide

/-- The reserved words among the operators are read as what they are. -/
theorem Lexeme.spelling_word {k : Keyword}
    (h : Rules.isPrefixOperator (word k) = true ∨ (word k).layer?.isSome = true) :
    IsWord (word k).text ∧ ofSpelling (word k).text = word k := by
  cases k with
  | kwDelete | kwVoid | kwTypeof | kwInstanceof | kwIn => decide
  | _ => rcases h with h | h <;> cases h

/-- A mark between two operands is found in front of a blank. -/
theorem markAt_operator {op : Lexeme} {layer : Layer} (h : op.layer? = some layer)
    (hWord : op.isWord = false) (rest : Bytes) :
    Scanner.markAt false (op.text ++ 32 :: rest) = some (op, op.text.length) := by
  have hApart : ∀ p ∈ Punctuator.all, (Lexeme.mark p).layer?.isSome = true →
      (∀ l ∈ Lexeme.addedMarks, ¬l.text.isPrefixOf (Lexeme.mark p).text) ∧
        ¬(Bytes.ofString "..").isPrefixOf (Lexeme.mark p).text := by decide
  cases op with
  | power | coalesce => rfl
  | mark p =>
    obtain ⟨hAdded, hDots⟩ := hApart p (Punctuator.mem_all p) (by rw [h]; rfl)
    exact Scanner.markAt_blank
      (fun l hl hPrefix => hAdded l hl (List.isPrefixOf_iff_prefix.2 hPrefix))
      (fun hPrefix => hDots (List.isPrefixOf_iff_prefix.2 hPrefix)) rest
  | word k => cases hWord
  | _ => cases h

/-- The first byte of a mark between two operands. -/
theorem first_operator {op : Lexeme} {layer : Layer} (h : op.layer? = some layer)
    (hWord : op.isWord = false) :
    ∃ b tail, op.text = b :: tail ∧ b ∈ Scanner.markBytes ∧ (b = 47 → tail = []) := by
  cases op with
  | power | coalesce => exact ⟨_, _, rfl, by decide, by decide⟩
  | mark p => cases p <;> cases h <;> exact ⟨_, _, rfl, by decide, by decide⟩
  | word k => cases hWord
  | _ => cases h

theorem Solid.of_markByte {b : UInt8} {rest : Bytes} (h : b ∈ Scanner.markBytes)
    (hSlash : b = 47 → rest.head? = some 32) : Solid (b :: rest) := by
  by_cases hb : b = 47
  · subst hb
    cases rest with
    | nil => exact absurd (hSlash rfl) nofun
    | cons c rest =>
      obtain rfl : c = 32 := Option.some.inj (hSlash rfl)
      exact .slash rest
  · have hOther : ∀ b ∈ Scanner.markBytes, b < 0x80 ∧
        (b = 47 ∨ b ∉ [32, 9, 11, 12, 10, 13, 35, 47]) :=
      Bytes.forall_mem_of_all (by decide)
    obtain ⟨hLow, hOther⟩ := hOther b h
    exact .of_byte hLow (hOther.resolve_left hb)

theorem Solid.operator {op : Lexeme} {layer : Layer} (h : op.layer? = some layer) (rest : Bytes) :
    Solid (op.text ++ 32 :: rest) := by
  cases hWord : op.isWord with
  | true =>
    cases op with
    | word k => exact .word (Lexeme.spelling_word (.inr (by rw [h]; rfl))).1 _
    | mark p => cases hWord
    | power | coalesce => cases hWord
    | _ => cases h
  | false =>
    obtain ⟨b, tail, hText, hByte, hSlash⟩ := first_operator h hWord
    rw [hText]
    exact .of_markByte hByte fun hb => by rw [hSlash hb]; rfl

/-- A reserved word in front of a blank is the next token. -/
theorem Scanner.At.keyword {s : Scanner} {k : Keyword} {rest : Bytes}
    (h : s.At ((Lexeme.word k).text ++ 32 :: rest))
    (hk : Rules.isPrefixOperator (.word k) = true ∨ (Lexeme.word k).layer?.isSome = true)
    (hRest : Solid rest) :
    ∃ t s', s.next ({} : Setting).takesAsName = (t, s') ∧ t.lexeme = .word k ∧ s'.At rest := by
  obtain ⟨hName, hSpelling⟩ := Lexeme.spelling_word hk
  obtain ⟨t, s', hNext, -, hAt, hLexeme⟩ := h.word hName (.blank hRest.blank)
    ({} : Setting).takesAsName
  rw [hSpelling] at hLexeme
  exact ⟨t, s', hNext, hLexeme.resolve_right (fun hAsync => nomatch hAsync.1), hAt.blank⟩

/-- An operator between blanks is the next token. -/
theorem Scanner.At.operator {s : Scanner} {op : Lexeme} {layer : Layer} {rest : Bytes}
    (h : s.At (op.text ++ 32 :: rest)) (hOp : op.layer? = some layer) (hRest : Solid rest) :
    ∃ t s', s.next ({} : Setting).takesAsName = (t, s') ∧ t.lexeme = op ∧ s'.At rest := by
  cases hWord : op.isWord with
  | true =>
    cases op with
    | word k => exact h.keyword (.inr (by rw [hOp]; rfl)) hRest
    | mark p => cases hWord
    | power | coalesce => cases hWord
    | _ => cases hOp
  | false =>
    obtain ⟨b, tail, hText, hByte, -⟩ := first_operator hOp hWord
    obtain ⟨t, s', hNext, hLexeme, hAt⟩ := h.mark (.operator hOp rest) ⟨b, tail, hText, hByte⟩
      (markAt_operator hOp hWord rest) ({} : Setting).takesAsName
    exact ⟨t, s', hNext, hLexeme, hAt.blank⟩

/-- The first byte of an operator in front of an operand. -/
theorem first_prefix {op : Lexeme} (h : Rules.isPrefixOperator op = true) : ∃ b tail,
    op.text = b :: tail ∧ b < 0x80 ∧ b ∉ [32, 9, 11, 12, 10, 13, 35, 47] ∧ b ≠ 61 := by
  cases op with
  | mark p => cases p <;> cases h <;> exact ⟨_, _, rfl, by decide, by decide, by decide⟩
  | word k => cases k <;> cases h <;> exact ⟨_, _, rfl, by decide, by decide, by decide⟩
  | _ => cases h

/-- A mark in front of an operand has one byte, with which no newer mark starts. -/
theorem first_unary {p : Punctuator} (h : Rules.isPrefixOperator (.mark p) = true) :
    (TokenType.punctuator p).isUnary = true ∧
      ∃ b, (Lexeme.mark p).text = [b] ∧ b ∈ Bytes.ofString "()+-!~" := by
  cases p <;> cases h <;> exact ⟨rfl, _, rfl, by decide⟩

/-- An operator in front of an operand is the next token. -/
theorem Scanner.At.unary {s : Scanner} {op : Lexeme} {text rest : Bytes}
    (h : s.At (Print.unary op.text text ++ rest)) (hOp : Rules.isPrefixOperator op = true)
    (hRest : Solid (text ++ rest)) (hEqual : text.head? ≠ some 61) (hNe : text ≠ []) :
    ∃ t s', s.next ({} : Setting).takesAsName = (t, s') ∧ t.lexeme = op ∧ s'.At (text ++ rest) := by
  cases op with
  | word k =>
    rw [Lexeme.text, Expr.unary_word, List.append_assoc] at h
    exact h.keyword (.inl hOp) hRest
  | mark p =>
    obtain ⟨hUnary, b, hText, hByte⟩ := first_unary hOp
    have hMark : ∀ b ∈ Bytes.ofString "()+-!~", b ∈ markBytes ∧ b ≠ 47 :=
      Bytes.forall_mem_of_all (by decide)
    obtain ⟨hMarkByte, hSlash⟩ := hMark b hByte
    have hSolid (rest : Bytes) : Solid ((Lexeme.mark p).text ++ rest) := by
      rw [hText]
      exact .of_markByte hMarkByte fun hb => absurd hb hSlash
    rcases Expr.unary_mark hUnary text with hBlank | ⟨hBare, hApart⟩
    · rw [Lexeme.text, hBlank, List.append_assoc] at h
      obtain ⟨t, s', hNext, hLexeme, hAt⟩ := h.mark (hSolid _) ⟨b, [], hText, hMarkByte⟩
        (markAt_first hText hByte (by
          rintro c hc
          obtain rfl : 32 = c := Option.some.inj hc
          exact p.blank_not_mem_extensions.1)) ({} : Setting).takesAsName
      exact ⟨t, s', hNext, hLexeme, hAt.blank⟩
    · rw [Lexeme.text, hBare, List.append_assoc] at h
      refine h.mark (hSolid _) ⟨b, [], hText, hMarkByte⟩ (markAt_first hText hByte ?_) _
      rintro c hc hMem
      cases text with
      | nil => exact hNe rfl
      | cons d text =>
        obtain rfl : d = c := Option.some.inj hc
        rcases hApart d hMem with rfl | hNe
        · exact hEqual rfl
        · exact hNe rfl
  | _ => cases hOp

/-- A parenthesis is the next token. -/
theorem Scanner.At.parenthesis {s : Scanner} {p : Punctuator} {rest : Bytes}
    (h : s.At ((Lexeme.mark p).text ++ rest)) (hp : p ∈ [.leftParen, .rightParen]) :
    ∃ t s', s.next ({} : Setting).takesAsName = (t, s') ∧ t.lexeme = .mark p ∧ s'.At rest := by
  obtain ⟨b, hText, hFirst, hByte, hSlash, hExtensions⟩ : ∃ b, (Lexeme.mark p).text = [b] ∧
      b ∈ Bytes.ofString "()+-!~" ∧ b ∈ markBytes ∧ b ≠ 47 ∧ p.extensions = [] := by
    simp only [List.mem_cons, List.not_mem_nil, or_false] at hp
    rcases hp with rfl | rfl
    · exact ⟨40, by decide, by decide, by decide, by decide, by decide⟩
    · exact ⟨41, by decide, by decide, by decide, by decide, by decide⟩
  refine h.mark ?_ ⟨b, [], hText, hByte⟩ (markAt_first hText hFirst ?_) _
  · rw [hText]
    exact .of_markByte hByte fun hb => absurd hb hSlash
  · simp [hExtensions]

/-! ### Texts that are cut into tokens of a kind -/

/-- A text that an operand may be, and the tokens it is cut into in front of what ends a word. -/
structure Shows (text : Bytes) (kind : List Token → Prop) : Prop where
  formed : Utf8.Text text
  solid (rest : Bytes) : Solid (text ++ rest)
  equal : text.head? ≠ some 61
  ne : text ≠ []
  cuts {s : Scanner} {rest : Bytes} : s.At (text ++ rest) → Ends rest →
    ∃ ts s', Cuts s ts s' ∧ s'.At rest ∧ kind ts

namespace Shows

variable {text left right : Bytes} {kind kind' : List Token → Prop}

theorem mono (h : Shows text kind) (hKind : ∀ ts, kind ts → kind' ts) : Shows text kind' :=
  { h with
    cuts := fun hAt hRest =>
      let ⟨ts, s', hCuts, hAt', hTokens⟩ := h.cuts hAt hRest
      ⟨ts, s', hCuts, hAt', hKind ts hTokens⟩ }

theorem name (h : IsName text) : Shows text fun ts => ∃ t : Token,
    ({} : Setting).takesAsName t.lexeme = true ∧ t.value = text ∧ ts = [t] := by
  obtain ⟨b, tail, rune, size, rfl, hDecode, hStart⟩ := h.1.first []
  refine ⟨h.1.formed, .word h.1, ?_, by simp, fun hAt hRest => ?_⟩
  · rintro hEqual
    obtain rfl : b = 61 := Option.some.inj hEqual
    rw [(Utf8.decode?_low hDecode (by decide)).1] at hStart
    cases hStart
  · obtain ⟨t, s', hNext, hValue, hAt', hLexeme⟩ := hAt.word h.1 hRest ({} : Setting).takesAsName
    have hName : ({} : Setting).takesAsName t.lexeme = true := by
      rcases hLexeme with hLexeme | ⟨-, hLexeme⟩
      · rw [hLexeme]
        exact h.2
      · rw [hLexeme]
        rfl
    refine ⟨[t], s', .token hNext ?_ .done, hAt', t, hName, hValue, rfl⟩
    intro hEnd
    rw [hEnd] at hName
    cases hName

theorem parentheses (h : Shows text kind) :
    Shows (Bytes.ofString "(" ++ (text ++ Bytes.ofString ")")) fun ts =>
      ∃ (t u : Token) (inner : List Token),
      t.lexeme = .mark .leftParen ∧ u.lexeme = .mark .rightParen ∧ kind inner ∧
        ts = t :: inner ++ [u] := by
  refine ⟨?_, fun rest => .of_byte (by decide) (by decide), fun hEqual => ?_, fun hNil => ?_,
    fun {s rest} hAt hRest => ?_⟩
  · exact (Lexeme.text_formed (.mark .leftParen)).append
      (h.formed.append (Lexeme.text_formed (.mark .rightParen)))
  · cases hEqual
  · cases hNil
  · have hFront : s.At ((Lexeme.mark .leftParen).text ++
        (text ++ ((Lexeme.mark .rightParen).text ++ rest))) := by
      rwa [List.append_assoc, List.append_assoc] at hAt
    obtain ⟨t, s', hNext, hLexeme, hAt'⟩ := hFront.parenthesis (by decide)
    obtain ⟨ts, r, hCuts, hClose, hTokens⟩ := h.cuts hAt' (.closing rest)
    obtain ⟨u, r', hNext', hLexeme', hEnd⟩ := hClose.parenthesis (by decide)
    refine ⟨t :: ts ++ [u], r', ?_, hEnd, t, u, ts, hLexeme, hLexeme', hTokens, rfl⟩
    have hLast : Cuts r [u] r' := .token hNext' (by rw [hLexeme']; decide) .done
    exact .token hNext (by rw [hLexeme]; decide) (hCuts.append hLast)

theorem unary {op : Lexeme} (h : Shows text kind) (hOp : Rules.isPrefixOperator op = true) :
    Shows (Print.unary op.text text) fun ts => ∃ t rest, t.lexeme = op ∧ kind rest ∧
      ts = t :: rest := by
  obtain ⟨b, tail, hText, hLow, hByte, hEqual⟩ := first_prefix hOp
  have hFront : ∃ more, Print.unary op.text text = b :: more := by
    rw [Print.unary, hText]
    exact ⟨_, rfl⟩
  obtain ⟨more, hMore⟩ := hFront
  have hFormed : Utf8.Text (Print.unary op.text text) := by
    have hBlank : ∀ blank : Bool, Utf8.Text (if blank then Bytes.ofString " " else "") := by
      rintro (_ | _) <;> exact Utf8.text_of_ascii (Bytes.forall_mem_of_all (by decide))
    rw [Print.unary, Bytes.cat, List.flatten_cons, List.flatten_cons, List.flatten_singleton]
    exact (Lexeme.text_formed op).append ((hBlank _).append h.formed)
  refine ⟨hFormed, fun rest => ?_, ?_, ?_, fun {s rest} hAt hRest => ?_⟩
  · rw [hMore]
    exact .of_byte hLow hByte
  · rw [hMore]
    simpa using hEqual
  · rw [hMore]
    exact List.cons_ne_nil _ _
  · obtain ⟨t, s', hNext, hLexeme, hAt'⟩ := hAt.unary hOp (h.solid rest) h.equal h.ne
    obtain ⟨ts, r, hCuts, hEnd, hTokens⟩ := h.cuts hAt' hRest
    refine ⟨t :: ts, r, .token hNext ?_ hCuts, hEnd, t, ts, hLexeme, hTokens, rfl⟩
    rintro hLast
    rw [hLast] at hLexeme
    rw [← hLexeme] at hOp
    cases hOp

theorem binary {op : Lexeme} {layer : Layer} (hLeft : Shows left kind)
    (hOp : op.layer? = some layer) (hRight : Shows right kind') :
    Shows (left ++ 32 :: (op.text ++ 32 :: right)) fun ts => ∃ t ls rs, t.lexeme = op ∧ kind ls ∧
      kind' rs ∧ ts = ls ++ t :: rs := by
  have hBlank : Utf8.Text [32] := Utf8.text_of_ascii (Bytes.forall_mem_of_all (by decide))
  have hFormed : Utf8.Text (left ++ 32 :: (op.text ++ 32 :: right)) :=
    hLeft.formed.append (hBlank.append ((Lexeme.text_formed op).append
      (hBlank.append hRight.formed)))
  refine ⟨hFormed, fun rest => ?_, ?_, by simp, fun {s rest} hAt hRest => ?_⟩
  · rw [List.append_assoc]
    exact hLeft.solid _
  · obtain ⟨b, more, hText⟩ := List.exists_cons_of_ne_nil hLeft.ne
    have := hLeft.equal
    rw [hText] at this ⊢
    exact this
  · rw [List.append_assoc, List.cons_append, List.append_assoc, List.cons_append] at hAt
    obtain ⟨ls, r, hCuts, hOperator, hTokens⟩ :=
      hLeft.cuts hAt (.blank (Solid.operator hOp _).blank)
    obtain ⟨t, r', hNext, hLexeme, hAt'⟩ := hOperator.blank.operator hOp (hRight.solid rest)
    obtain ⟨rs, s', hCuts', hEnd, hTokens'⟩ := hRight.cuts hAt' hRest
    refine ⟨ls ++ t :: rs, s', hCuts.append (.token hNext ?_ hCuts'), hEnd, t, ls, rs, hLexeme,
      hTokens, hTokens', rfl⟩
    rintro hLast
    rw [hLast] at hLexeme
    rw [← hLexeme] at hOp
    cases hOp

end Shows

end Harmony

namespace Expr.Is

variable {e : Expr} {f : Formula}

theorem level_eq (h : e.Is f) : e.level = f.layer.level := by
  cases h with
  | name id => rfl
  | unary hOp _ => rfl
  | binary hOp _ _ _ | logical hOp _ _ _ =>
    rw [Formula.layer_binary hOp]
    exact Harmony.Lexeme.level_text hOp

/-- What is shown without parentheses is shown with those that the printer puts. -/
theorem enclosed (h : e.Is f) {depth : Nat}
    (hText : Shows (Print.expr depth false e) fun ts => ∀ level ≤ f.layer.level, Shown level ts f)
    (level : Nat) : Shows (Print.slot depth false level (.holds e)) (Shown level · f) := by
  rw [Print.slot, enclose_eq, Bool.false_and, Bool.or_false, h.level_eq]
  by_cases hLess : f.layer.level < level
  · rw [if_pos (decide_eq_true hLess)]
    refine hText.parentheses.mono fun ts => ?_
    rintro ⟨t, u, inner, hOpen, hClose, hInner, rfl⟩
    exact .parentheses hLess hOpen hClose (hInner _ (Nat.zero_le _))
  · rw [if_neg (by simpa using hLess)]
    exact hText.mono fun ts hShown => hShown level (Nat.not_lt.1 hLess)

/-- An operator is shown between its operands. -/
theorem joined {op : Harmony.Lexeme} {layer : Layer} {left right : Bytes} {f g : Formula}
    (hOp : op.layer? = some layer) (hLeft : Shows left (Shown layer.level · f))
    (hRight : Shows right (Shown (layer.level + 1) · g)) :
    Shows (Bytes.cat [left, " ", op.text, " ", right]) fun ts =>
      ∀ level ≤ (Formula.binary op f g).layer.level, Shown level ts (.binary op f g) := by
  have hText : Bytes.cat [left, " ", op.text, " ", right] =
      left ++ 32 :: (op.text ++ 32 :: right) := by
    simp [show Bytes.ofString " " = [32] by decide]
  rw [hText, Formula.layer_binary hOp]
  refine (hLeft.binary hOp hRight).mono fun ts => ?_
  rintro ⟨t, ls, rs, rfl, hls, hrs, rfl⟩ level hLevel
  exact .binary hLevel hOp hls hrs

/-- A printed expression is cut into the tokens that the printer shows. -/
theorem shows (h : e.Is f) (hNamed : f.Named) (depth : Nat) :
    Shows (Print.expr depth false e) fun ts => ∀ level ≤ f.layer.level, Shown level ts f := by
  induction h with
  | name id =>
    rw [Print.expr]
    refine (Shows.name hNamed).mono fun ts => ?_
    rintro ⟨t, hName, hValue, rfl⟩ level -
    rw [← hValue]
    exact .name hName
  | unary hOp h ih =>
    rw [Print.expr]
    refine ((h.enclosed (ih hNamed) Level.unary).unary hOp).mono fun ts => ?_
    rintro ⟨t, rest, rfl, hRest, rfl⟩ level hLevel
    exact .unary hLevel hOp hRest
  | binary hOp _ hl hr ihl ihr | logical hOp _ hl hr ihl ihr =>
    rw [Print.expr, Harmony.Lexeme.level_text hOp]
    exact joined hOp (hl.enclosed (ihl hNamed.1) _) (hr.enclosed (ihr hNamed.2) _)

/-- The text of an expression is cut into tokens in full. -/
theorem cutInto (h : e.Is f) (hNamed : f.Named) :
    ∃ ts, CutInto e.print ts ∧ Shown Level.sequence ts f := by
  have hShows : Shows e.print (Shown Level.sequence · f) := h.enclosed (h.shows hNamed 0) _
  have hStart : (Scanner.start e.print).At (e.print ++ []) := by
    rw [List.append_nil]
    exact Scanner.start_at hShows.formed
  obtain ⟨ts, s, hCuts, hAt, hShown⟩ := hShows.cuts hStart .nil
  obtain ⟨last, s', hNext, hEnd, hSound⟩ := hAt.finish ({} : Setting).takesAsName
  exact ⟨ts, ⟨s, last, s', hCuts, hNext, hEnd, hSound⟩, hShown⟩

end Expr.Is

/-- A text is one formula at most. -/
theorem Harmony.Denotes.unique {text : Bytes} {f g : Formula} (h : Denotes text f)
    (h' : Denotes text g) : f = g := by
  obtain ⟨ts, hCut, hDerives⟩ := h
  obtain ⟨us, hCut', hDerives'⟩ := h'
  obtain rfl := hCut.unique hCut'
  exact hDerives.unique hDerives'

/-- The printed text of an expression over names is that expression, and nothing else, exactly if
the operands suit their operators everywhere. -/
theorem Expr.print_denotes {e : Expr} {f : Formula} (h : e.Is f) (hNamed : f.Named) :
    (∀ g, Denotes e.print g ↔ g = f) ↔ f.Legible := by
  obtain ⟨ts, hCut, hShown⟩ := h.cutInto hNamed
  have hWide : Layer.expression.Includes (f.layer.written Level.sequence) :=
    f.layer.expression_includes
  constructor
  · intro hOnly
    obtain ⟨us, hCut', hDerives⟩ := (hOnly f).2 rfl
    rw [hCut'.unique hCut] at hDerives
    exact (hShown.derives_iff.1 hDerives).2
  · intro hLegible g
    have hDenotes : Denotes e.print f := ⟨ts, hCut, hShown.derives_iff.2 ⟨hWide, hLegible⟩⟩
    exact ⟨fun hOther => hOther.unique hDenotes, fun hEq => hEq ▸ hDenotes⟩

theorem Expr.print_denotes_mixed : ∃ (e : Expr) (f : Formula), e.Is f ∧ f.Named ∧ f.Legible ∧
    e.print = Bytes.ofString "a ** b ?? (c || -d)" ∧ ∀ g, Denotes e.print g ↔ g = f := by
  have hPower := @Expr.Is.binary default .power .power _ _ _ _ rfl (by decide)
    (.name ⟨default, "a"⟩) (.name ⟨default, "b"⟩)
  have hMinus := @Expr.Is.unary default (.mark .minus) _ _ rfl (.name ⟨default, "d"⟩)
  have hOr := @Expr.Is.logical default (.mark .orOr) .disjunction _ _ _ _ rfl (by decide)
    (.name ⟨default, "c"⟩) hMinus
  have hIs := @Expr.Is.logical default .coalesce .coalesce _ _ _ _ rfl (by decide) hPower hOr
  exact ⟨_, _, hIs, by decide, by decide, by decide,
    (Expr.print_denotes hIs (by decide)).2 (by decide)⟩

/-- A power of a power is printed as if powers grouped to the left, but they group to the right. -/
theorem Expr.print_denotes_powers : ∃ e : Expr,
    e.Is (.binary .power (.binary .power (.name "a") (.name "b")) (.name "c")) ∧
      e.print = Bytes.ofString "a ** b ** c" ∧
      Denotes e.print (.binary .power (.name "a") (.binary .power (.name "b") (.name "c"))) ∧
      ¬Denotes e.print (.binary .power (.binary .power (.name "a") (.name "b")) (.name "c")) := by
  have hLeft := @Expr.Is.binary default .power .power _ _ _ _ rfl (by decide)
    (.name ⟨default, "a"⟩) (.name ⟨default, "b"⟩)
  have hIs := @Expr.Is.binary default .power .power _ _ _ _ rfl (by decide) hLeft
    (.name ⟨default, "c"⟩)
  have hCut : CutInto (Bytes.ofString "a ** b ** c")
      [⟨.name, "a", "a", 0, false⟩, ⟨.power, "**", [], 2, false⟩, ⟨.name, "b", "b", 5, false⟩,
        ⟨.power, "**", [], 7, false⟩, ⟨.name, "c", "c", 10, false⟩] :=
    ⟨_, _, _, .token rfl nofun (.token rfl nofun (.token rfl nofun (.token rfl nofun
      (.token rfl nofun .done)))), rfl, rfl, rfl⟩
  have hRight : Denotes (Bytes.ofString "a ** b ** c")
      (.binary .power (.name "a") (.binary .power (.name "b") (.name "c"))) :=
    ⟨_, hCut, .wider (by decide) (.binary .power (.name rfl)
      (.binary .power (.name rfl) (.wider (by decide) (.name rfl))))⟩
  exact ⟨_, hIs, by decide, hRight, fun hOther => absurd (hRight.unique hOther) (by decide)⟩

end ScriptOptimizer
