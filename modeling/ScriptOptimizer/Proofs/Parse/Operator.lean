import ScriptOptimizer.Proofs.Parse.Operand

/-!
How operators are read with their operands, from those that bind tightest to the comma.
-/

namespace ScriptOptimizer

open Parse

/-- What may be assigned to does not depend on places. -/
theorem Expr.isAssignable_bare (e : Expr) : e.bare.isAssignable = e.isAssignable := by
  cases e <;> rw [Expr.bare] <;> rfl

theorem Expr.isAssignable_of_bare {a e : Expr} (h : a.bare = e.bare) :
    a.isAssignable = e.isAssignable := by
  rw [← a.isAssignable_bare, h, e.isAssignable_bare]

/-- Does a token of this type count up or down? -/
def TokenType.isUpdate (type : TokenType) : Bool :=
  type = .punctuator .increment || type = .punctuator .decrement

/-- Is it an operator that stands before its operand and does not change it? -/
def TokenType.isUnary (type : TokenType) : Bool := type.isPrefix && !type.isUpdate

theorem TokenType.mem_of_isUnary {type : TokenType} (h : type.isUnary = true) :
    type ∈ [.punctuator .bang, .punctuator .tilde, .punctuator .plus, .punctuator .minus,
      .keyword .kwTypeof, .keyword .kwVoid, .keyword .kwDelete] := by
  revert h
  cases type with
  | keyword word => cases word <;> decide
  | punctuator mark => cases mark <;> decide
  | illegal | endOfInput | comment | identifier | number | string | regex => decide

namespace ReadsAt

variable {level : Nat} {noIn : Bool} {ws : List Spelling} {e : Expr} {w : Spelling}

theorem of_call (hBegins : Begins ws) (h : ReadsChain true ws e) :
    ReadsAt Level.call noIn ws e :=
  ReadsAt.of_reads hBegins (by decide) h

theorem chain (h : ReadsAt level noIn ws e) (hLevel : Level.call ≤ level) :
    ReadsChain true ws e :=
  h.reads hLevel

/-- An operand with a counting operator after it. -/
theorem postfixed (h : ReadsAt Level.call noIn ws e) (hAssign : e.isAssignable = true)
    (hType : w.type.isUpdate = true) (hJoined : w.joined = true) (span : Span) :
    ReadsAt Level.after noIn (ws ++ [w]) (.update span w.text false (.holds e)) := by
  have hNoColon : ∀ v, [w].head? = some v → v.type ≠ .punctuator .colon := by
    rintro v ⟨⟩ hColon
    rw [hColon] at hType
    cases hType
  refine ReadsAt.of_reads (h.begins.append hNoColon) (by decide) fun n hn rest hEnds => ?_
  have hUpdate : w.type = .punctuator .increment ∨ w.type = .punctuator .decrement := by
    simpa [TokenType.isUpdate] using hType
  have hLeft : Reads (Grammar.nested n).leftHandSide ws ([w] ++ rest) (·.bare = e.bare) := by
    rw [Grammar.leftHandSide_eq]
    rw [List.length_append] at hn
    refine Extends.close (h.chain (Nat.le_refl _) n n (by omega) (by omega) _) fun a _ =>
      ReadsAs.memberStep_stops a ?_ ?_ fun _ => ?_
    all_goals rcases hUpdate with hUpdate | hUpdate <;> rw [hUpdate] <;> decide
  refine Reads.still current_still fun first _ => Reads.bind hLeft fun a ha => ?_
  refine Reads.still current_reads fun t hSpelled => ?_
  have hGo : ((t.type = .punctuator .increment || t.type = .punctuator .decrement) &&
      !t.newlineBefore) = true := by
    rw [hSpelled.type_eq, hSpelled.joined hJoined]
    simpa [TokenType.isUpdate] using hType
  dsimp only
  rw [if_pos hGo, Expr.isAssignable_of_bare ha, hAssign]
  refine Reads.token advance_reads fun _ _ => Reads.still (spanFrom_reads _) fun _ _ => ?_
  refine (inSlot_reads _).mono ?_
  rintro b rfl
  rw [Expr.bare, Expr.bare, Slot.bare, Slot.bare, ha, hSpelled.literal_eq]

/-- A counting operator before its operand. -/
theorem prefixed (h : ReadsAt Level.unary noIn ws e) (hAssign : e.isAssignable = true)
    (hType : w.type.isUpdate = true) (span : Span) :
    ReadsAt Level.unary noIn (w :: ws) (.update span w.text true (.holds e)) := by
  have hUpdate : w.type = .punctuator .increment ∨ w.type = .punctuator .decrement := by
    simpa [TokenType.isUpdate] using hType
  have hBegins : Begins (w :: ws) := by
    rcases hUpdate with hUpdate | hUpdate
    all_goals exact .of_ne (by rw [hUpdate]; rfl) (by simp [hUpdate]) _
  refine ReadsAt.of_reads hBegins (by decide) fun n hn rest hEnds => ?_
  refine Reads.still current_reads fun t hSpelled => ?_
  have hRead : Reads (do
      let _ ← advance
      let first ← current
      let e ← (Grammar.nested n).unary
      if !e.isAssignable then failAt first "invalid left-hand side in prefix operation"
      inSlot (.update (← spanFrom t.startPlace) t.literal true (.holds e))) (w :: ws) rest
      (·.bare = (Expr.update span w.text true (.holds e)).bare) := by
    refine Reads.token advance_reads fun _ _ => Reads.still current_still fun first _ => ?_
    refine Reads.last (h.unary (Nat.le_refl _) hn hEnds) fun a ha => ?_
    rw [Expr.isAssignable_of_bare ha, hAssign]
    refine Reads.still (spanFrom_reads _) fun _ _ => (inSlot_reads _).mono ?_
    rintro b rfl
    rw [Expr.bare, Expr.bare, Slot.bare, Slot.bare, ha, hSpelled.literal_eq]
  rw [hSpelled.type_eq]
  rcases hUpdate with hUpdate | hUpdate <;> rw [hUpdate] <;> exact hRead

/-- Another operator before its operand. -/
theorem unaryOperator (h : ReadsAt Level.unary noIn ws e) (hUnary : w.type.isUnary = true)
    (span : Span) : ReadsAt Level.unary noIn (w :: ws) (.unary span w.text (.holds e)) := by
  have hType := hUnary
  simp only [TokenType.isUnary, Bool.and_eq_true, Bool.not_eq_true'] at hType
  have hBegins : Begins (w :: ws) := by
    refine .of_ne ?_ ?_ _
    · rw [TokenType.startsExpression, hType.1, Bool.or_true]
    · intro hName
      rw [hName] at hType
      cases hType.1
  refine ReadsAt.of_reads hBegins (by decide) fun n hn rest hEnds => ?_
  refine Reads.still current_reads fun t hSpelled => ?_
  have hRead : Reads (do
      let _ ← advance
      let e ← (Grammar.nested n).unary
      inSlot (.unary (← spanFrom t.startPlace) t.literal (.holds e))) (w :: ws) rest
      (·.bare = (Expr.unary span w.text (.holds e)).bare) := by
    refine Reads.token advance_reads fun _ _ => ?_
    refine Reads.last (h.unary (Nat.le_refl _) hn hEnds) fun a ha => ?_
    refine Reads.still (spanFrom_reads _) fun _ _ => (inSlot_reads _).mono ?_
    rintro b rfl
    rw [Expr.bare, Expr.bare, Slot.bare, Slot.bare, ha, hSpelled.literal_eq]
  have hMem := TokenType.mem_of_isUnary hUnary
  simp only [List.mem_cons, List.not_mem_nil, or_false] at hMem
  rw [hSpelled.type_eq]
  rcases hMem with hEq | hEq | hEq | hEq | hEq | hEq | hEq <;> rw [hEq] <;> exact hRead

end ReadsAt

/-! ### Binary operators -/

namespace TokenType

variable {type : TokenType} {noIn : Bool}

theorem precedence_of_binds (h : 0 < type.binds noIn) : type.precedence = type.binds noIn := by
  unfold binds at h ⊢
  split at h <;> simp_all

theorem precedence_le (type : TokenType) : type.precedence ≤ 10 := by
  unfold precedence
  split <;> decide

theorem precedence_of_isAssignment (h : type.isAssignment = true) : type.precedence = 0 := by
  unfold isAssignment at h
  split at h
  · rename_i mark
    revert h
    cases mark <;> decide
  · cases h

/-- An operator adds nothing to an expression of a level that it binds less tightly than. -/
theorem continues_of_binds {level : Nat} (h : 0 < type.binds noIn)
    (hLevel : type.binds noIn + 2 < level) : type.continues level noIn = false := by
  have hPrecedence := precedence_of_binds h
  have hNe (other : TokenType) (hZero : other.precedence = 0) : type ≠ other := by
    rintro rfl
    omega
  have hAssignment : type.isAssignment = false := by
    refine Bool.eq_false_iff.2 fun hIs => ?_
    have := precedence_of_isAssignment hIs
    omega
  have := hNe (.punctuator .dot) rfl
  have := hNe (.punctuator .leftBracket) rfl
  have := hNe (.punctuator .leftParen) rfl
  have := hNe (.punctuator .increment) rfl
  have := hNe (.punctuator .decrement) rfl
  have := hNe (.punctuator .question) rfl
  have := hNe (.punctuator .comma) rfl
  have hLow : ¬level ≤ type.binds noIn + 2 := by omega
  simp [continues, *]

/-- An assignment adds nothing to what is no assignment. -/
theorem continues_of_isAssignment {level : Nat} (h : type.isAssignment = true)
    (hLevel : Level.assign < level) : type.continues level noIn = false := by
  have hNe (other : TokenType) (hNot : other.isAssignment = false) : type ≠ other := by
    rintro rfl
    rw [h] at hNot
    cases hNot
  have hBinds : type.binds noIn = 0 := by
    rw [binds, precedence_of_isAssignment h, ite_self]
  have := hNe (.punctuator .dot) rfl
  have := hNe (.punctuator .leftBracket) rfl
  have := hNe (.punctuator .leftParen) rfl
  have := hNe (.punctuator .increment) rfl
  have := hNe (.punctuator .decrement) rfl
  have := hNe (.punctuator .question) rfl
  have := hNe (.punctuator .comma) rfl
  simp [continues, Nat.not_le.2 hLevel, *]

end TokenType

/-- The expression that an operator makes of two operands. -/
def Expr.operation (type : TokenType) (span : Span) (operator : Bytes) (left right : Expr) : Expr :=
  match type with
  | .punctuator .andAnd | .punctuator .orOr => .logical span operator (.holds left) (.holds right)
  | _ => .binary span operator (.holds left) (.holds right)

theorem Expr.operation_bare {type : TokenType} {span span' : Span} {operator : Bytes}
    {left left' right right' : Expr} (hLeft : left.bare = left'.bare)
    (hRight : right.bare = right'.bare) :
    (operation type span operator left right).bare =
      (operation type span' operator left' right').bare := by
  unfold operation
  split <;>
    rw [Expr.bare, Expr.bare, Slot.bare, Slot.bare, Slot.bare, Slot.bare, hLeft, hRight]

namespace ReadsAt

variable {noIn : Bool} {us ws : List Spelling} {l r e : Expr} {w : Spelling}

theorem operation_reads {left right : Expr} {operator : Token} {rest : List Spelling}
    {span : Span} (hSpelled : operator.Spelled w) :
    Reads (match operator.type with
      | .punctuator .andAnd | .punctuator .orOr =>
        some <$> inSlot (.logical span operator.literal (.holds left) (.holds right))
      | _ => do
        modify fun s => { s with census := s.census.addBinary }
        some <$> inSlot (.binary span operator.literal (.holds left) (.holds right))) [] rest
      (· = some (Expr.operation w.type span w.text left right)) := by
  rw [hSpelled.type_eq, hSpelled.literal_eq]
  unfold Expr.operation
  split
  · refine Reads.map (inSlot_reads _) ?_
    rintro a rfl
    rfl
  · refine Reads.map (inSlot_reads _) ?_
    rintro a rfl
    rfl
  · refine Reads.still (modify_reads Census.addBinary) fun _ _ => Reads.map (inSlot_reads _) ?_
    rintro a rfl
    rfl

/-- Two operands with an operator between them. The right one binds tighter. -/
theorem operation (hBinds : 0 < w.type.binds noIn)
    (hLeft : ReadsAt (w.type.binds noIn + 2) noIn us l)
    (hRight : ReadsAt (w.type.binds noIn + 3) noIn ws r) (span : Span) :
    ReadsAt (w.type.binds noIn + 2) noIn (us ++ w :: ws) (.operation w.type span w.text l r) := by
  have hHigh : w.type.binds noIn ≤ 10 := by
    rw [← TokenType.precedence_of_binds hBinds]
    exact w.type.precedence_le
  have hNoColon : ∀ v, (w :: ws).head? = some v → v.type ≠ .punctuator .colon := by
    rintro v ⟨⟩ hColon
    rw [← TokenType.precedence_of_binds hBinds, hColon] at hBinds
    cases hBinds
  refine ReadsAt.of_reads (hLeft.begins.append hNoColon) (by omega)
    ((ReadsAs.joined_iff (by omega) (by omega)).2 ?_)
  intro least hPos hLeast n hn rest hEnds
  rw [List.length_append, List.length_cons] at hn
  have hSeed := (ReadsAs.joined_iff (by omega) (by omega)).1 (hLeft.reads (Nat.le_refl _))
  refine Extends.round (hSeed least hPos hLeast n (by omega) _ (.cons ?_)) (List.cons_ne_nil _ _)
    fun a ha => ?_
  · exact TokenType.continues_of_binds hBinds (by unfold Level.unary; omega)
  refine Reads.still current_reads fun t hSpelled => ?_
  have hPrecedence : Grammar.precedenceOf noIn t = w.type.binds noIn := by
    rw [Grammar.precedenceOf, hSpelled.type_eq]
    rfl
  have hGo : ¬(w.type.binds noIn = 0 || w.type.binds noIn < least) = true := by
    simp
    omega
  dsimp only
  rw [hPrecedence, if_neg hGo]
  refine Reads.token advance_reads fun _ _ => Reads.last (hRight.binary (by omega) (by omega)
    (by unfold Level.unary; omega) (by omega) (hEnds.mono ?_)) fun b hb => ?_
  · unfold Level.unary
    omega
  refine (operation_reads hSpelled).mono ?_
  rintro o rfl
  exact ⟨_, rfl, Expr.operation_bare ha hb⟩

/-! ### Conditionals, assignments and the comma -/

theorem conditional {test yes no : List Spelling} {t y n : Expr}
    (hTest : ReadsAt Level.loosestBinary noIn test t) (hYes : ReadsAt Level.assign false yes y)
    (hNo : ReadsAt Level.assign noIn no n) (span : Span) :
    ReadsAt Level.conditional noIn
      (test ++ Spelling.mark .question :: (yes ++ Spelling.mark .colon :: no))
      (.conditional span (.holds t) (.holds y) (.holds n)) := by
  have hNoColon : ∀ v, (.mark .question :: (yes ++ Spelling.mark .colon :: no)).head? = some v →
      v.type ≠ .punctuator .colon := by
    rintro v ⟨⟩
    decide
  refine ReadsAt.of_reads (hTest.begins.append hNoColon) (by decide) fun k hk rest hEnds => ?_
  simp only [List.length_append, List.length_cons] at hk
  have hQuestion : Ends (1 + 2) noIn
      (.mark .question :: (yes ++ Spelling.mark .colon :: no) ++ rest) :=
    .cons (by cases noIn <;> rfl)
  have hRule := ReadsAs.binaryRule_of_joined (hTest.reads (Nat.le_refl _)) Nat.one_pos
    (Nat.le_refl 3) (by decide) (n := k) (by omega) hQuestion
  refine Reads.bind hRule fun a ha => Reads.token (accept_reads rfl) fun b hb => ?_
  subst hb
  refine Reads.bind (hYes.assignment (Nat.le_refl _) (by omega) (.cons rfl)) fun b hb => ?_
  refine Reads.token (expect_reads rfl) fun _ _ => ?_
  refine Reads.last (hNo.assignment (Nat.le_refl _) (by omega) hEnds) fun c hc => ?_
  refine (inSlot_reads _).mono ?_
  rintro d rfl
  rw [Expr.bare, Expr.bare, Slot.bare, Slot.bare, ha, Slot.bare, Slot.bare, hb, Slot.bare,
    Slot.bare, hc]

theorem assign (hLeft : ReadsAt Level.call noIn us l) (hAssign : l.isAssignable = true)
    (hType : w.type.isAssignment = true) (hRight : ReadsAt Level.assign noIn ws r) (span : Span) :
    ReadsAt Level.assign noIn (us ++ w :: ws) (.assign span w.text (.holds l) (.holds r)) := by
  have hNoColon : ∀ v, (w :: ws).head? = some v → v.type ≠ .punctuator .colon := by
    rintro v ⟨⟩ hColon
    rw [hColon] at hType
    cases hType
  refine ReadsAt.of_reads (hLeft.begins.append hNoColon) (by decide) fun n hn rest hEnds => ?_
  rw [List.length_append, List.length_cons] at hn
  have hTest := ReadsAs.conditional_of_joined (hLeft.reads (by decide)) n (by omega)
    (w :: ws ++ rest) (.cons (TokenType.continues_of_isAssignment hType (by decide)))
  refine Reads.still current_still fun first _ => Reads.bind hTest fun a ha => ?_
  refine Reads.still current_reads fun t hSpelled => ?_
  rw [hSpelled.type_eq, hType, Expr.isAssignable_of_bare ha, hAssign]
  refine Reads.token advance_reads fun _ _ => ?_
  refine Reads.last (hRight.assignment (Nat.le_refl _) (by omega) hEnds) fun b hb => ?_
  refine (inSlot_reads _).mono ?_
  rintro c rfl
  rw [Expr.bare, Expr.bare, Slot.bare, Slot.bare, ha, Slot.bare, Slot.bare, hb,
    hSpelled.literal_eq]

theorem sequence {items : List (List Spelling)} {first : List Spelling} {es : List Expr}
    (hFirst : ReadsAt Level.assign noIn first e)
    (hMore : List.Forall₂ (ReadsAt Level.assign noIn) items es) (hne : items ≠ []) (span : Span) :
    ReadsAt Level.sequence noIn (commaRow (first :: items))
      (.sequence span ((e :: es).map .holds)) := by
  obtain ⟨second, others, rfl⟩ := List.exists_cons_of_ne_nil hne
  have hNoColon : ∀ v, (commaTail (second :: others)).head? = some v →
      v.type ≠ .punctuator .colon := by
    rintro v ⟨⟩
    decide
  refine ReadsAt.of_reads (hFirst.begins.append hNoColon) (by decide) fun n hn rest hEnds => ?_
  have hLength {us : List Spelling} (hMem : us ∈ first :: second :: others) : us.length ≤ n :=
    Nat.le_trans (length_le_commaRow hMem) hn
  have hComma (more : List Spelling) : Ends Level.assign noIn (.mark .comma :: more) :=
    .cons (by cases noIn <;> rfl)
  have hItems : ItemsRead ((Grammar.nested n).assignmentRule noIn) (Alike Expr.bare)
      (Ends Level.assign noIn) (second :: others) es :=
    (forall₂_mem hMore).imp fun us e ⟨hMem, hAt⟩ => ⟨hAt.begins.ne_nil, fun rest hEnds =>
      hAt.reads (Nat.le_refl _) n (hLength (List.mem_cons_of_mem _ hMem)) rest hEnds⟩
  refine Reads.of_cons fun v more hCons => ?_
  subst hCons
  have hRow := Rows.whileCommas hComma (hEnds.mono (by decide)) hItems hEnds.comma
  refine Reads.bind (hFirst.reads (Nat.le_refl _) n (hLength List.mem_cons_self) _ (hComma _))
    fun a ha => Reads.still (sees_reads _) fun b hb => ?_
  subst hb
  refine Reads.last hRow.many fun as has => ?_
  refine Reads.still (spanFrom_reads _) fun _ _ => (inSlot_reads _).mono ?_
  rintro c rfl
  rw [Expr.bare, Expr.bare, Alike.slots (.cons ha has)]

end ReadsAt

end ScriptOptimizer
