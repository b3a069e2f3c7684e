import ScriptOptimizer.Proofs.Print.Operand

/-!
Operators whose text with their operands' reads back.
-/

namespace ScriptOptimizer

/-- The token is a word or a punctuator other than the dot. -/
def Spelling.IsOperator (w : Spelling) : Prop :=
  (∃ p, w = .mark p ∧ p ≠ .dot) ∨ ∃ k, w = .word k

namespace Spelling.IsOperator

variable {w : Spelling}

/-- An operator between blanks. -/
theorem lexes [PatternCheck] (h : w.IsOperator) :
    Lexes AfterOperand NotDot (fun rest => rest.head? = some 32) w.text [w] := by
  rcases h with ⟨p, rfl, hDot⟩ | ⟨k, rfl⟩
  · exact Lexes.operator hDot
  · refine (Lexes.wordAlone k).afterOperand.stop_mono fun rest hRest => ?_
    cases rest with
    | nil => cases hRest
    | cons b rest =>
      obtain rfl : b = 32 := Option.some.inj hRest
      exact Stops.of_byte (by decide)

theorem precedence_text (h : w.IsOperator) (hBinary : 0 < w.type.precedence) :
    operatorPrecedence w.text = w.type.precedence := by
  rcases h with ⟨p, rfl, -⟩ | ⟨k, rfl⟩
  · revert hBinary
    exact Punctuator.of_all (by decide) p
  · revert hBinary
    exact Keyword.of_all (by decide) k

theorem type_ne (h : w.IsOperator) : w.type ≠ .regex := by
  rcases h with ⟨p, rfl, -⟩ | ⟨k, rfl⟩ <;> simp

theorem allowsRegex (h : w.IsOperator) (hOperator : w.type.isUnary = true ∨ 0 < w.type.precedence) :
    w.allowsRegex = true := by
  rcases h with ⟨p, rfl, -⟩ | ⟨k, rfl⟩
  · revert hOperator
    exact Punctuator.of_all (by decide) p
  · revert hOperator
    exact Keyword.of_all (by decide) k

theorem leads (h : w.IsOperator) (hSign : w.type.isUnary = true ∨ w.type.isUpdate = true) :
    w.Leads := by
  rcases h with ⟨p, rfl, -⟩ | ⟨k, rfl⟩
  · refine Spelling.leads_mark p ?_
    revert hSign
    exact Punctuator.of_all (by decide) p
  · exact Spelling.leads_word k

end Spelling.IsOperator

namespace Expr

variable {l r e : Expr} {w : Spelling}

/-- Two pieces with an operator between them. -/
theorem infix_lexes [PatternCheck] {stop : Bytes → Prop} {dot : Bool} {left right : Bytes}
    {us ws : List Spelling} (hLeft : Lexes NotDot AfterOperand (Stops dot) left us)
    (hOperator : w.IsOperator) (hRight : Lexes NotDot AfterOperand stop right ws) :
    Lexes NotDot AfterOperand stop (left ++ 32 :: (w.text ++ 32 :: right)) (us ++ w :: ws) :=
  hLeft.thenBlank (hOperator.lexes.append hRight.blank fun _ _ => rfl)

theorem level_operation {type : TokenType} {span : Span} {operator : Bytes} :
    (operation type span operator l r).level = Level.binary operator := by
  unfold operation
  split <;> rfl

theorem print_operation {type : TokenType} {span : Span} {operator : Bytes} (depth : Nat)
    (noIn : Bool) :
    Print.expr depth noIn (operation type span operator l r) =
      Print.slot depth noIn (Level.binary operator) (.holds l) ++ 32 :: (operator ++
        32 :: Print.slot depth noIn (Level.binary operator + 1) (.holds r)) := by
  have hBlank : Bytes.ofString " " = [32] := by decide
  unfold operation
  split <;> simp [Print.expr, hBlank]

/-- Where a bare `in` may not stand there is none. -/
theorem binds_of_isIn {span : Span} {noIn flag : Bool} (hOperator : w.IsOperator)
    (hIn : (noIn && (operation w.type span w.text l r).isIn) = false)
    (hFlag : flag = true → noIn = true) : w.type.binds flag = w.type.precedence := by
  rw [TokenType.binds, if_neg]
  simp only [Bool.and_eq_true, decide_eq_true_eq, not_and]
  intro hTrue hType
  obtain ⟨p, rfl, -⟩ | ⟨k, rfl⟩ := hOperator
  · cases hType
  · cases hType
    have hIs : (operation (Spelling.word .kwIn).type span (Spelling.word .kwIn).text l r).isIn =
        true := by
      show decide (Bytes.ofString Keyword.kwIn.text = Bytes.ofString "in") = true
      decide
    rw [hFlag hTrue, hIs] at hIn
    cases hIn

theorem keepsRegexes_operation {type : TokenType} {span : Span} {operator : Bytes} :
    l.KeepsRegexes ∧ r.KeepsRegexes ↔ (operation type span operator l r).KeepsRegexes := by
  unfold operation
  split <;> simp [keepsRegexes_iff (.binary _ _ _ _), keepsRegexes_iff (.logical _ _ _ _),
    Node.keepsRegex, Child.ofExpr]

theorem Good.operation [PatternCheck] (hLeft : l.Good) (hRight : r.Good) (hOperator : w.IsOperator)
    (hBinary : 0 < w.type.precedence) (span : Span) :
    (operation w.type span w.text l r).Good := by
  intro depth noIn hIn
  have hHigh := w.type.precedence_le
  have hLow {k : Nat} (hk : k ≤ 13) : k < Level.call := Nat.lt_of_le_of_lt hk (by decide)
  have hPrimary {k : Nat} (hk : k ≤ 13) : k ≤ Level.primary := Nat.le_trans hk (by decide)
  have hLevel : Level.binary w.text = w.type.precedence + 2 := by
    rw [Level.binary, hOperator.precedence_text hBinary, Nat.add_comm]
  obtain ⟨us, hus⟩ := hLeft.slot depth noIn (w.type.precedence + 2) (hPrimary (by omega))
  obtain ⟨ws, hws⟩ := hRight.slot depth noIn (w.type.precedence + 3) (hPrimary (by omega))
  rw [print_operation, level_operation, hLevel]
  refine ⟨us ++ w :: ws, ?_, hus.front.append _ _, fun flag hFlag => ?_, fun hCall => ?_, ?_⟩
  · have hRightLexes := hws.lexes
    rw [takesDot_low (hLow (by omega))] at hRightLexes ⊢
    exact infix_lexes hus.lexes hOperator hRightLexes
  · have hBinds := binds_of_isIn hOperator hIn hFlag
    have hAll : ReadsAt (w.type.binds flag + 2) flag (us ++ w :: ws) _ :=
      ReadsAt.operation (hBinds ▸ hBinary) (hBinds ▸ hus.reads flag hFlag)
        (hBinds ▸ hws.reads flag hFlag) span
    rwa [hBinds] at hAll
  · exact absurd hCall (Nat.not_le.2 (hLow (by omega)))
  · have hAllows := hOperator.allowsRegex (.inr hBinary)
    exact (hus.judged.apart hws.judged hOperator.type_ne hAllows).congr keepsRegexes_operation

/-! ### The first byte -/

/-- The text begins with a slash just if a regular expression leads it. Where no bare `in` may stand
this says nothing of what is looser than an operand of a sign, which may be put in parentheses. -/
def Heads (e : Expr) : Prop := ∀ depth noIn, (noIn = true → Level.unary ≤ e.level) →
  ∃ b tail, Print.expr depth noIn e = b :: tail ∧ (b = 47 ↔ e.leadsRegex = true)

theorem level_of_isIn (h : e.isIn = true) : e.level < Level.unary := by
  cases e with
  | binary span operator left right =>
    obtain rfl : operator = Bytes.ofString "in" := by simpa [isIn] using h
    show Level.binary (Bytes.ofString "in") < Level.unary
    decide
  | _ => cases h

namespace Heads

variable {first : Expr} {level : Nat} {noIn : Bool}

theorem slot (h : e.Heads) (depth : Nat) (hNoIn : noIn = true → Level.unary ≤ level) :
    ∃ b tail, Print.slot depth noIn level (.holds e) = b :: tail ∧
      (b = 47 ↔ (Slot.holds e).leadsRegex level = true) := by
  rw [Print.slot, enclose_eq, Slot.leadsRegex]
  split
  · rename_i hEnclosed
    have hLow : e.level < level := by
      simp only [Bool.or_eq_true, Bool.and_eq_true, decide_eq_true_eq] at hEnclosed
      rcases hEnclosed with hLow | ⟨hTrue, hIn⟩
      · exact hLow
      · exact Nat.lt_of_lt_of_le (level_of_isIn hIn) (hNoIn hTrue)
    exact ⟨40, _, rfl, by simp [Nat.not_le.2 hLow]⟩
  · rename_i hBare
    simp only [Bool.or_eq_true, decide_eq_true_eq, not_or, Nat.not_lt] at hBare
    obtain ⟨b, tail, hText, hSlash⟩ := h depth noIn fun hTrue => Nat.le_trans (hNoIn hTrue) hBare.1
    exact ⟨b, tail, hText, by simp [hBare.1, hSlash]⟩

theorem slot_head (h : e.Heads) (depth : Nat) (hNoIn : noIn = true → Level.unary ≤ level) :
    (Print.slot depth noIn level (.holds e)).head? = some 47 ↔
      (Slot.holds e).leadsRegex level = true := by
  obtain ⟨b, tail, hText, hSlash⟩ := h.slot depth hNoIn
  rw [hText, ← hSlash]
  simp

/-- A text that begins with that of an operand. -/
theorem of_first (h : first.Heads) (level : Nat) (hLevel : e.level ≤ level)
    (hLeads : e.leadsRegex = (Slot.holds first).leadsRegex level)
    (hText : ∀ depth noIn, ∃ tail, Print.expr depth noIn e =
      Print.slot depth noIn level (.holds first) ++ tail) : e.Heads := by
  intro depth noIn hNoIn
  obtain ⟨b, tail, hFirst, hSlash⟩ := h.slot depth fun hTrue => Nat.le_trans (hNoIn hTrue) hLevel
  obtain ⟨more, hText⟩ := hText depth noIn
  exact ⟨b, tail ++ more, by rw [hText, hFirst, List.cons_append], by rw [hSlash, hLeads]⟩

/-- A text that begins with a token. -/
theorem of_token (hLeads : w.Leads) (hType : w.type = .regex ↔ e.leadsRegex = true)
    (hText : ∀ depth noIn, ∃ tail, Print.expr depth noIn e = w.text ++ tail) : e.Heads := by
  intro depth noIn _
  obtain ⟨b, tail, hToken, -⟩ := hLeads.byte
  obtain ⟨more, hText⟩ := hText depth noIn
  refine ⟨b, tail ++ more, by rw [hText, hToken, List.cons_append], ?_⟩
  rw [← hType, hLeads.slash, hToken]
  simp

theorem ident {id : Ident} (h : Word.Plain id.name) : (Expr.ident id).Heads :=
  of_token (Spelling.leads_name h) (iff_of_false nofun nofun)
    fun _ _ => ⟨[], (List.append_nil _).symm⟩

/-- Before a dot a number is put in parentheses. -/
theorem of_object (h : first.Heads) (span : Span) (property : Slot) (computed : Bool) :
    (Expr.member span (.holds first) property computed).Heads := by
  by_cases hNumber : computed = false ∧ Print.isNumber (.holds first) = true
  · obtain ⟨rfl, hNumber⟩ := hNumber
    have hPlain : first.leadsRegex = false := by
      unfold Print.isNumber at hNumber
      split at hNumber
      · rename_i hHolds
        cases hHolds
        rfl
      · cases hNumber
    refine of_token (Spelling.leads_mark .leftParen (by decide)) (iff_of_false nofun ?_)
      fun depth noIn => ?_
    · simp [leadsRegex, Slot.leadsRegex, hPlain]
    · rw [Print.expr, if_neg (by simp), if_pos hNumber, Bytes.cat, List.flatten_cons, Bytes.cat,
        List.flatten_cons, List.append_assoc]
      exact ⟨_, rfl⟩
  · refine h.of_first Level.call (Nat.le_refl _) rfl fun depth noIn => ?_
    rw [Print.expr]
    cases computed with
    | true => exact ⟨_, by rw [if_pos rfl, Bytes.cat, List.flatten_cons]⟩
    | false =>
      rw [if_neg (by simp), if_neg fun h => hNumber ⟨rfl, h⟩]
      exact ⟨_, by rw [Bytes.cat, List.flatten_cons]⟩

end Heads

/-! ### Operators before and after their operand -/

/-- What is looser than a call is no chain of calls. -/
theorem of_call_le {level : Nat} {q : Prop} (hLow : Nat.ble Level.call level = false)
    (hCall : Level.call ≤ level) : q :=
  absurd (hLow ▸ Nat.ble_eq_true_of_le hCall) Bool.false_ne_true

/-- No regular expression may stand behind the sign. -/
theorem Good.prefixed [PatternCheck] (h : e.Good) (hHeads : e.Heads)
    (hAssign : e.isAssignable = true) {p : Punctuator}
    (hType : (TokenType.punctuator p).isUpdate = true) (span : Span) :
    (Expr.update span (Bytes.ofString p.text) true (.holds e)).Good := by
  intro depth noIn _
  have hMark : p = .increment ∨ p = .decrement := by simpa [TokenType.isUpdate] using hType
  have hPlain : p.isPlain = true := by rcases hMark with rfl | rfl <;> decide
  obtain ⟨ws, hws⟩ := h.slot depth noIn Level.unary (by decide)
  rw [Print.expr]
  refine ⟨.mark p :: ws, hws.lexes.mark hPlain, .of_leads (Spelling.leads_mark p ?_) _ _,
    fun flag hFlag => (hws.reads flag hFlag).prefixed hAssign hType span, of_call_le rfl, ?_⟩
  · rcases hMark with rfl | rfl <;> decide
  · have hAllows : (Spelling.mark p).allowsRegex = false := by rcases hMark with rfl | rfl <;> rfl
    rw [Judges, Spelling.admitted_cons (by simp), hAllows, hws.front.admitted,
      hHeads.slot_head depth fun _ => Nat.le_refl _, hws.judged.iff,
      keepsRegexes_iff (.update _ _ _ _)]
    simp [Node.keepsRegex, Child.ofExpr]

theorem Good.postfixed [PatternCheck] (h : e.Good) (hAssign : e.isAssignable = true)
    {p : Punctuator} (hType : (TokenType.punctuator p).isUpdate = true) (span : Span) :
    (Expr.update span (Bytes.ofString p.text) false (.holds e)).Good := by
  intro depth noIn _
  have hMark : p = .increment ∨ p = .decrement := by simpa [TokenType.isUpdate] using hType
  have hPlain : p.isPlain = true := by rcases hMark with rfl | rfl <;> decide
  have hEnds : (TokenType.punctuator p).endsOperand = true := by
    rcases hMark with rfl | rfl <;> rfl
  obtain ⟨ws, hws⟩ := h.slot depth noIn Level.call (by decide)
  rw [Print.expr]
  refine ⟨ws ++ [(Spelling.mark p).join], ?_, hws.front.append _ _, fun flag hFlag => ?_,
    of_call_le rfl, (hws.judged.closed (by simp [Spelling.join])).congr ?_⟩
  · have hGap : NoGap (Bytes.ofString p.text) := by
      rcases hMark with rfl | rfl <;> exact ⟨_, _, rfl, by decide, by decide⟩
    refine (hws.lexes.append ((Lexes.closing hPlain hEnds).join hGap).afterOperand
      fun rest _ => ?_).stop_mono fun _ _ => trivial
    exact Stops.mark (by rcases hMark with rfl | rfl <;> decide) _ rest
  · exact (hws.reads flag hFlag).postfixed hAssign hType rfl span
  · simp [keepsRegexes_iff (.update _ _ _ _), Node.keepsRegex, Child.ofExpr]

theorem unary_word (k : Keyword) (text : Bytes) :
    Print.unary (Bytes.ofString k.text) text = Bytes.ofString k.text ++ 32 :: text := by
  have hLong : (Bytes.ofString k.text).length > 1 := Keyword.of_all (by decide) k
  simp [Print.unary, hLong, show Bytes.ofString " " = [32] by decide]

/-- A punctuator before its operand has a blank behind it unless the operand cannot extend it. -/
theorem unary_mark {p : Punctuator} (h : (TokenType.punctuator p).isUnary = true) (text : Bytes) :
    (Print.unary (Bytes.ofString p.text) text = Bytes.ofString p.text ++ 32 :: text) ∨
      Print.unary (Bytes.ofString p.text) text = Bytes.ofString p.text ++ text ∧
        ∀ b ∈ p.extensions, b = 61 ∨ text.head? ≠ some b := by
  have hEmpty : Bytes.ofString "" = [] := by decide
  have hBlank : Bytes.ofString " " = [32] := by decide
  have hShort : ¬(Bytes.ofString p.text).length > 1 := by
    revert h
    exact Punctuator.of_all (by decide) p
  have hExtensions : ∀ b ∈ p.extensions, b = 61 ∨ (Bytes.ofString p.text = Bytes.ofString "+" ∨
      Bytes.ofString p.text = Bytes.ofString "-") ∧ (Bytes.ofString p.text).head? = some b := by
    refine Bytes.forall_mem_of_all ?_
    cases p with
    | bang | tilde | plus | minus => decide
    | _ => cases h
  cases hSame : (Bytes.ofString p.text = Bytes.ofString "+" || Bytes.ofString p.text =
      Bytes.ofString "-") && text.head? = (Bytes.ofString p.text).head? with
  | true => exact .inl (by simp [Print.unary, hShort, hSame, hBlank])
  | false =>
    refine .inr ⟨by simp [Print.unary, hShort, hSame, hEmpty], fun b hb => ?_⟩
    refine (hExtensions b hb).imp_right ?_
    rintro ⟨hSign, hHead⟩ hText
    rw [hText, hHead] at hSame
    simp only [decide_true, Bool.and_true, Bool.or_eq_false_iff, decide_eq_false_iff_not] at hSame
    exact hSign.elim hSame.1 hSame.2

/-- A punctuator stands in front of an operand whose first byte does not extend it. -/
theorem mark_lexes [PatternCheck] {p : Punctuator} (hType : (TokenType.punctuator p).isUnary = true)
    {text : Bytes} {ws : List Spelling} (h : Lexes NotDot AfterOperand (Stops false) text ws)
    (hFront : Fronted text ws) :
    Lexes NotDot AfterOperand (Stops false) (Print.unary (Bytes.ofString p.text) text)
      (.mark p :: ws) := by
  have hDot : p ≠ .dot := by rintro rfl; cases hType
  have hSlash : p ≠ .divide := by rintro rfl; cases hType
  have hMark : Lexes NotDot NotDot (Spelling.MarkStops p) (Bytes.ofString p.text) [.mark p] :=
    Lexes.markAlone hDot hSlash (by rintro rfl; cases hType)
  rcases unary_mark hType text with hText | ⟨hText, hNext⟩
  · rw [hText]
    refine hMark.append h.blank fun rest _ b hb => ?_
    cases hb
    refine ⟨?_, by simp [hDot], by simp [hSlash]⟩
    revert hType
    exact Punctuator.of_all (by decide) p
  · rw [hText]
    obtain ⟨b, tail, rfl, hByte⟩ := hFront.byte
    refine hMark.append h fun rest _ c hc => ?_
    cases hc
    refine ⟨fun hMem => ?_, by simp [hDot], by simp [hSlash]⟩
    rcases hNext b hMem with rfl | hNe
    · exact hByte (by decide)
    · exact hNe rfl

theorem unary_front (operator text : Bytes) :
    ∃ tail, Print.unary operator text = operator ++ tail := by
  exact ⟨_, by rw [Print.unary, Bytes.cat, List.flatten_cons]⟩

variable [PatternCheck]

/-- A unary operator is a word, or a punctuator that is followed by nothing that extends it. -/
theorem Good.unaryOperator (h : e.Good) (hOperator : w.IsOperator)
    (hType : w.type.isUnary = true) (span : Span) :
    (Expr.unary span w.text (.holds e)).Good := by
  intro depth noIn _
  obtain ⟨ws, hws⟩ := h.slot depth noIn Level.unary (by decide)
  have hReads (flag : Bool) (hFlag : flag = true → noIn = true) :=
    (hws.reads flag hFlag).unaryOperator hType span
  obtain ⟨tail, hFront⟩ := unary_front w.text (Print.slot depth noIn Level.unary (.holds e))
  rw [Print.expr]
  refine ⟨w :: ws, ?_, ?_, hReads, of_call_le rfl,
    (hws.judged.behind (hOperator.allowsRegex (.inl hType))).congr ?_⟩
  · obtain ⟨p, rfl, -⟩ | ⟨k, rfl⟩ := hOperator
    · exact mark_lexes hType hws.lexes hws.front
    · have hText := unary_word k (Print.slot depth noIn Level.unary (.holds e))
      rw [show (Spelling.word k).text = Bytes.ofString k.text from rfl, hText]
      exact Lexes.word k hws.lexes.blank (by decide)
  · rw [hFront]
    exact .of_leads (hOperator.leads (.inl hType)) _ _
  · simp [keepsRegexes_iff (.unary _ _ _), Node.keepsRegex, Child.ofExpr]

/-! ### Conditionals, assignments and the comma -/

theorem Good.conditional {t y n : Expr} (hTest : t.Good) (hYes : y.Good) (hNo : n.Good)
    (span : Span) : (Expr.conditional span (.holds t) (.holds y) (.holds n)).Good := by
  intro depth noIn _
  obtain ⟨test, hTest⟩ := hTest.slot depth noIn Level.loosestBinary (by decide)
  obtain ⟨yes, hYes⟩ := hYes.slot depth noIn Level.assign (by decide)
  obtain ⟨no, hNo⟩ := hNo.slot depth noIn Level.assign (by decide)
  have hText : Print.expr depth noIn (.conditional span (.holds t) (.holds y) (.holds n)) =
      Print.slot depth noIn Level.loosestBinary (.holds t) ++
        32 :: ((Spelling.mark .question).text ++ 32 :: (
          Print.slot depth noIn Level.assign (.holds y) ++ 32 :: ((Spelling.mark .colon).text ++
            32 :: Print.slot depth noIn Level.assign (.holds n)))) := by
    have hQuestion : Bytes.ofString " ? " = 32 :: ((Spelling.mark .question).text ++ [32]) := by
      decide
    have hColon : Bytes.ofString " : " = 32 :: ((Spelling.mark .colon).text ++ [32]) := by decide
    rw [Print.expr]
    simp [hQuestion, hColon]
  have hColon : (Spelling.mark .colon).IsOperator := .inl ⟨_, rfl, by decide⟩
  have hQuestion : (Spelling.mark .question).IsOperator := .inl ⟨_, rfl, by decide⟩
  rw [hText]
  refine ⟨_, ?_, hTest.front.append _ _, fun flag hFlag => (hTest.reads flag hFlag).conditional
    (hYes.reads false (by simp)) (hNo.reads flag hFlag) span, of_call_le rfl, ?_⟩
  · exact infix_lexes hTest.lexes hQuestion (infix_lexes hYes.lexes hColon hNo.lexes)
  · have hBranches := hYes.judged.apart (w := .mark .colon) hNo.judged (by simp) rfl
    refine (hTest.judged.apart (w := .mark .question) hBranches (by simp) rfl).congr ?_
    simp [keepsRegexes_iff (.conditional _ _ _ _), Node.keepsRegex, Child.ofExpr]

theorem Good.assign (hLeft : l.Good) (hAssign : l.isAssignable = true) (hRight : r.Good)
    {p : Punctuator} (hType : p.isAssignment = true) (span : Span) :
    (Expr.assign span (Bytes.ofString p.text) (.holds l) (.holds r)).Good := by
  intro depth noIn _
  obtain ⟨us, hus⟩ := hLeft.slot depth noIn Level.call (by decide)
  obtain ⟨ws, hws⟩ := hRight.slot depth noIn Level.assign (by decide)
  have hText : Print.expr depth noIn
      (.assign span (Bytes.ofString p.text) (.holds l) (.holds r)) =
      Print.slot depth noIn Level.call (.holds l) ++ 32 :: ((Spelling.mark p).text ++
        32 :: Print.slot depth noIn Level.assign (.holds r)) := by
    rw [Print.expr]
    simp [Spelling.mark, show Bytes.ofString " " = [32] by decide]
  have hOperator : (Spelling.mark p).IsOperator := .inl ⟨_, rfl, by rintro rfl; cases hType⟩
  rw [hText]
  refine ⟨us ++ Spelling.mark p :: ws, ?_, hus.front.append _ _, fun flag hFlag => ?_,
    of_call_le rfl, ?_⟩
  · exact infix_lexes hus.lexes hOperator hws.lexes
  · exact (hus.reads flag hFlag).assign (w := .mark p) hAssign hType (hws.reads flag hFlag) span
  · have hAllows : (Spelling.mark p).allowsRegex = true := by
      revert hType
      exact Punctuator.of_all (by decide) p
    refine (hus.judged.apart hws.judged (by simp) hAllows).congr ?_
    simp [keepsRegexes_iff (.assign _ _ _ _), Node.keepsRegex, Child.ofExpr]

theorem Good.sequence {es : List Expr} (hFirst : e.Good) (hMore : ∀ a ∈ es, a.Good)
    (hne : es ≠ []) (span : Span) : (Expr.sequence span ((e :: es).map .holds)).Good := by
  intro depth noIn _
  obtain ⟨ws, hws⟩ := hFirst.slot depth noIn Level.assign (by decide)
  obtain ⟨rows, hRows⟩ := items_of_good hMore depth noIn
  obtain ⟨second, others, rfl⟩ := List.exists_cons_of_ne_nil hne
  obtain ⟨us, rows, rfl⟩ : ∃ us more, rows = us :: more := by
    cases hRows
    exact ⟨_, _, rfl⟩
  have hItems := items_lexes (.cons hws hRows)
  rw [Print.expr]
  have hJudged := Judges.row (.cons hws.judged (hRows.imp fun _ _ hAt => hAt.judged))
  refine ⟨_, Lexes.row hItems (by simp [Print.slots]), ?_, fun flag hFlag => ?_, of_call_le rfl,
    hJudged.congr ?_⟩
  rotate_left
  · have hMore := hRows.imp fun _ _ hAt => hAt.reads flag hFlag
    exact (hws.reads flag hFlag).sequence hMore (by simp) span
  · simp [keepsRegexes_iff (.sequence _ _), Node.keepsRegex, Child.ofExpr]
  · rw [List.map_cons, List.map_cons, Print.slots, Print.slots, Bytes.join, List.append_assoc,
      commaRow]
    · exact hws.front.append _ _
    · simp

end Expr

end ScriptOptimizer
