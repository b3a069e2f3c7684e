import ScriptOptimizer.Proofs.Token.Lexed

/-!
Pieces of a layout. A piece is a text that, put in front of any layout that may follow it, adds its
own tokens to those of that layout. Pieces are made token by token and put one behind the other.
-/

namespace ScriptOptimizer

/-- The piece stands where `entry` allows and adds its tokens to any layout that stands where `exit`
allows and whose text stops the last of them. It may begin a line unless its first token is bound to
the line before. -/
structure Lexes [PatternCheck] (entry exit : Option Token → Prop) (stop : Bytes → Prop)
    (text : Bytes) (ws : List Spelling) : Prop where
  lexed {rest : Bytes} {more : List Spelling} {broken : Bool} :
    Lexed exit false rest more → stop rest →
    (broken = true → ∀ w, (ws ++ more).head? = some w → w.joined = false) →
    Lexed entry broken (text ++ rest) (ws ++ more)

/-- No text is excluded. -/
def Anything (_ : Bytes) : Prop := True

namespace Punctuator

/-- A punctuator that reads the same whatever follows it and wherever it stands. -/
def isPlain (p : Punctuator) : Bool :=
  p.extensions = [] && p ≠ .dot && p ≠ .divide && p ≠ .divideAssign

end Punctuator

/-- After a token that is no dot, whatever it is. -/
theorem notDot_of_after {w : Spelling} (h : w.type ≠ .punctuator .dot) {before : Option Token}
    (hAfter : w.After before) : NotDot before := by
  obtain ⟨t, rfl, hSpelled⟩ := hAfter
  rintro t' ⟨⟩
  rw [hSpelled.type_eq]
  exact h

/-- Does a token with this type end an operand? -/
def TokenType.endsOperand : TokenType → Bool
  | .identifier | .number | .string | .regex => true
  | .keyword .kwThis | .keyword .kwNull | .keyword .kwTrue | .keyword .kwFalse => true
  | .punctuator .rightParen | .punctuator .rightBracket | .punctuator .rightBrace
  | .punctuator .increment | .punctuator .decrement => true
  | _ => false

theorem Lexeme.regexAllowedAfter_operand {t : Token} (h : t.type.endsOperand = true)
    (hText : ∀ k, t.type = .keyword k → t.literal = Bytes.ofString k.text) :
    regexAllowedAfter (some t) = false := by
  unfold regexAllowedAfter Token.kind
  dsimp only
  cases hType : t.type with
  | identifier | number | string | regex => rfl
  | illegal | endOfInput | comment =>
    rw [hType] at h
    cases h
  | keyword k =>
    rw [hText k hType]
    rw [hType] at h
    revert h
    exact Keyword.of_all (by decide) k
  | punctuator p =>
    rw [hType] at h
    cases p with
    | rightParen | rightBracket | rightBrace | increment | decrement => rfl
    | _ => cases h

theorem afterOperand_of_after {w : Spelling} (h : w.type.endsOperand = true)
    (hText : ∀ k, w.type = .keyword k → w.text = Bytes.ofString k.text) {before : Option Token}
    (hAfter : w.After before) : AfterOperand before := by
  obtain ⟨t, rfl, hSpelled⟩ := hAfter
  refine ⟨notDot_of_after (fun hDot => ?_) ⟨t, rfl, hSpelled⟩, ?_⟩
  · rw [hDot] at h
    cases h
  · refine Lexeme.regexAllowedAfter_operand (hSpelled.type_eq ▸ h) fun k hType => ?_
    rw [hSpelled.literal_eq]
    exact hText k (hSpelled.type_eq ▸ hType)

/-- A punctuator other than the dot stops any token that ends an operand. -/
theorem Stops.mark {p : Punctuator} (h : p ≠ .dot) (dot : Bool) (rest : Bytes) :
    Stops dot (Bytes.ofString p.text ++ rest) := by
  obtain ⟨b, tail, hText, hByte, hPart, hLow, hDot, -⟩ := p.text_front
  simp only [List.mem_cons, not_or] at hByte
  rw [hText]
  exact ⟨hPart, by simp [hByte], hLow, fun hEq => absurd (hDot hEq).1 h⟩

/-- Only the first byte counts. -/
theorem Stops.of_byte {dot : Bool} {b : UInt8} {rest : Bytes} (h : Stops dot [b]) :
    Stops dot (b :: rest) :=
  h

theorem Stops.mono {dot : Bool} {rest : Bytes} (h : Stops false rest) : Stops dot rest := by
  cases rest with
  | nil => trivial
  | cons b rest => exact ⟨h.1, h.2.1, h.2.2.1, fun hEq => absurd (h.2.2.2 hEq) (by simp)⟩

theorem Stops.weaken {dot : Bool} {rest : Bytes} (h : Stops dot rest) : Stops true rest := by
  cases rest with
  | nil => trivial
  | cons b rest => exact ⟨h.1, h.2.1, h.2.2.1, fun _ => rfl⟩

/-- The first byte is no blank and no line feed. -/
def NoGap (text : Bytes) : Prop := ∃ b rest, text = b :: rest ∧ b ≠ 32 ∧ b ≠ 10

theorem Lexed.rebreak [PatternCheck] {sort : Option Token → Prop} {broken : Bool} {text : Bytes}
    {ws : List Spelling} (h : Lexed sort false text ws)
    (hJoined : broken = true → ∀ w, ws.head? = some w → w.joined = false) :
    Lexed sort broken text ws := by
  cases h with
  | finish hGap => exact .finish hGap
  | @token _ _ gap rest w _ hGap hStands hType hJoined' hRest =>
    refine .token hGap hStands hType (fun h => ⟨?_, (hJoined' h).2⟩) hRest
    cases broken with
    | false => rfl
    | true =>
      rw [hJoined rfl w rfl] at h
      cases h

/-- A first token that no gap precedes can be bound to the line before. -/
theorem Lexed.join [PatternCheck] {sort : Option Token → Prop} {text : Bytes} {w : Spelling}
    {ws : List Spelling} (h : Lexed sort false text (w :: ws)) (hGap : NoGap text) :
    Lexed sort false text (w.join :: ws) := by
  obtain ⟨b, tail, hText, hBlank, hFeed⟩ := hGap
  have hNone {gap : Bytes} (hGap : IsGap gap) {after : Bytes} (hEq : gap ++ after = b :: tail) :
      gap = [] := by
    cases gap with
    | nil => rfl
    | cons c gap =>
      obtain ⟨rfl, -⟩ := List.cons.inj hEq
      exact absurd (hGap c List.mem_cons_self) (by simp [hBlank, hFeed])
  cases h with
  | finish hGap =>
    have := hNone hGap (by rw [List.append_nil, hText])
    simp [this] at hText
  | @token _ _ gap rest _ _ hGap hStands hLegal _ hRest =>
    obtain rfl := hNone hGap hText
    have hAfter (before : Option Token) : w.join.After before → w.After before :=
      fun ⟨t, hBefore, hSpelled⟩ => ⟨t, hBefore, hSpelled.of_join⟩
    have hStands : w.join.Stands sort rest := ⟨hStands.scan, hStands.gap, hStands.text_ne⟩
    exact .token hGap hStands hLegal (by simp) (hRest.mono hAfter)

namespace Lexes

variable {entry middle exit : Option Token → Prop} {stop stop' : Bytes → Prop} {text text' : Bytes}
  {ws ws' : List Spelling} {w : Spelling}

variable [PatternCheck]

theorem nil : Lexes entry entry Anything [] [] :=
  ⟨fun hMore _ hJoined => hMore.rebreak hJoined⟩

theorem append (h : Lexes entry middle stop text ws) (h' : Lexes middle exit stop' text' ws')
    (hStop : ∀ rest, stop' rest → stop (text' ++ rest)) :
    Lexes entry exit stop' (text ++ text') (ws ++ ws') := by
  refine ⟨fun {rest more broken} hMore hRest hJoined => ?_⟩
  rw [List.append_assoc] at hJoined ⊢
  rw [List.append_assoc]
  exact h.lexed (h'.lexed hMore hRest (by simp)) (hStop rest hRest) hJoined

/-- After a piece that ends an operand, any other may stand. -/
theorem weaken (h : Lexes entry AfterOperand stop text ws) : Lexes entry NotDot stop text ws :=
  ⟨fun hMore => h.lexed (hMore.mono fun _ hAfter => hAfter.1)⟩

/-- What stands after any token but a dot stands after an operand. -/
theorem afterOperand (h : Lexes NotDot exit stop text ws) : Lexes AfterOperand exit stop text ws :=
  ⟨fun hMore hRest hJoined => (h.lexed hMore hRest hJoined).mono fun _ hAfter => hAfter.1⟩

theorem blank (h : Lexes entry exit stop text ws) : Lexes entry exit stop (32 :: text) ws :=
  ⟨fun hMore hRest hJoined => (h.lexed hMore hRest hJoined).blank⟩

theorem indent (h : Lexes entry exit stop text ws) (n : Nat) :
    Lexes entry exit stop (Bytes.replicate n 32 ++ text) ws := by
  induction n with
  | zero => exact h
  | succ n ih => exact ih.blank

theorem newline (h : Lexes entry exit stop text (w :: ws)) (hJoined : w.joined = false) :
    Lexes entry exit stop (10 :: text) (w :: ws) :=
  ⟨fun hMore hRest hFree => (h.lexed hMore hRest hFree).newline hJoined⟩

theorem token (hStands : ∀ rest, stop rest → w.Stands entry rest)
    (hType : w.type ∉ [.illegal, .endOfInput, .comment])
    (hExit : ∀ before, w.After before → exit before) :
    Lexes entry exit stop w.text [w] := by
  refine ⟨fun {rest more broken} hMore hRest hJoined => ?_⟩
  have hFree : w.joined = true → broken = false ∧ 10 ∉ ([] : Bytes) := by
    intro h
    cases broken with
    | false => simp
    | true =>
      rw [hJoined rfl w rfl] at h
      cases h
  exact .token (fun _ h => absurd h List.not_mem_nil) (hStands rest hRest) hType hFree
    (hMore.mono hExit)

theorem join (h : Lexes entry exit stop text (w :: ws)) (hGap : NoGap text) :
    Lexes entry exit stop text (w.join :: ws) := by
  refine ⟨fun {rest more broken} hMore hRest hJoined => ?_⟩
  cases broken with
  | true => cases hJoined rfl w.join rfl
  | false =>
    refine (h.lexed hMore hRest (by simp)).join ?_
    obtain ⟨b, tail, rfl, hByte⟩ := hGap
    exact ⟨b, tail ++ rest, rfl, hByte⟩

/-- Every stop of a piece can be asked for more. -/
theorem stop_mono (h : Lexes entry exit stop text ws) (hStop : ∀ rest, stop' rest → stop rest) :
    Lexes entry exit stop' text ws :=
  ⟨fun hMore hRest => h.lexed hMore (hStop _ hRest)⟩

/-! #### Pieces of one token -/

theorem wordAlone (k : Keyword) :
    Lexes NotDot NotDot (Stops true) (Bytes.ofString k.text) [.word k] :=
  token (fun _ => Spelling.stands_word k) (by simp [Spelling.word])
    fun _ => notDot_of_after (by simp [Spelling.word])

theorem operandWord {k : Keyword} (h : (TokenType.keyword k).endsOperand = true) :
    Lexes NotDot AfterOperand (Stops true) (Bytes.ofString k.text) [.word k] :=
  token (fun _ => Spelling.stands_word k) (by simp [Spelling.word])
    fun _ => afterOperand_of_after h fun k hType => by cases hType; rfl

theorem name {n : Bytes} (h : Word.Plain n) (hFree : Keyword.ofText? n = none) :
    Lexes NotDot AfterOperand (Stops true) n [.name n] :=
  token (fun _ => Spelling.stands_name h hFree) (by simp [Spelling.name])
    fun _ => afterOperand_of_after rfl fun k hType => by cases hType

theorem numeral {raw : Bytes} {value : Binary64} (h : Numeral.Spells raw value) :
    Lexes NotDot AfterOperand (Stops false) raw [.numeral raw value] :=
  token (fun _ hRest => Spelling.stands_numeral h hRest _) (by simp [Spelling.numeral])
    fun _ => afterOperand_of_after rfl fun k hType => by cases hType

theorem quoted {raw value : Bytes} (h : StringLiteral.Spells raw value) :
    Lexes NotDot AfterOperand Anything raw [.quoted raw value] :=
  token (fun rest _ => Spelling.stands_quoted h _ rest) (by simp [Spelling.quoted])
    fun _ => afterOperand_of_after rfl fun k hType => by cases hType

theorem regex {raw : Bytes} {parts : RegexLiteral.Parts} (h : RegexLiteral.Spells raw parts) :
    Lexes NotDot AfterOperand (Stops true) raw [.regex raw parts] :=
  token (fun _ hRest => Spelling.stands_regex h hRest _) (by simp [Spelling.regex])
    fun _ => afterOperand_of_after rfl fun k hType => by cases hType

theorem markAlone {p : Punctuator} (hDot : p ≠ .dot) (hSlash : p ≠ .divide)
    (hAssign : p ≠ .divideAssign) :
    Lexes NotDot NotDot (Spelling.MarkStops p) (Bytes.ofString p.text) [.mark p] :=
  token (fun _ hRest => Spelling.stands_mark p hRest fun h => by simp_all)
    (by simp [Spelling.mark]) fun _ => notDot_of_after (by simpa [Spelling.mark] using hDot)

theorem plainMark {p : Punctuator} (h : p.isPlain = true) :
    Lexes NotDot NotDot Anything (Bytes.ofString p.text) [.mark p] := by
  simp only [Punctuator.isPlain, Bool.and_eq_true, decide_eq_true_eq] at h
  refine (markAlone h.1.1.2 h.1.2 h.2).stop_mono fun rest _ b hb => ?_
  simp [h]

/-- A punctuator that ends an operand. -/
theorem closing {p : Punctuator} (h : p.isPlain = true)
    (hEnds : (TokenType.punctuator p).endsOperand = true) :
    Lexes NotDot AfterOperand Anything (Bytes.ofString p.text) [.mark p] := by
  simp only [Punctuator.isPlain, Bool.and_eq_true, decide_eq_true_eq] at h
  refine token (fun rest _ => Spelling.stands_mark p ?_ fun h => by simp_all)
    (by simp [Spelling.mark]) fun _ => afterOperand_of_after hEnds fun k hType => by cases hType
  intro b hb
  simp [h]

/-- A binary operator between blanks. -/
theorem operator {p : Punctuator} (hDot : p ≠ .dot) :
    Lexes AfterOperand NotDot (fun rest => rest.head? = some 32) (Bytes.ofString p.text)
      [.mark p] := by
  refine token (fun rest hRest => Spelling.stands_mark p ?_ fun _ _ hBefore => hBefore.2)
    (by simp [Spelling.mark]) fun _ => notDot_of_after (by simpa [Spelling.mark] using hDot)
  intro b hb
  obtain rfl : b = 32 := by rw [hRest] at hb; exact (Option.some.inj hb).symm
  exact ⟨Punctuator.of_all (by decide) p, fun _ => rfl, fun _ => by decide⟩

/-- A name after a dot. -/
theorem member {n : Bytes} (h : Word.Plain n) :
    Lexes NotDot AfterOperand (Stops true) (Bytes.ofString "." ++ n) [.mark .dot, .name n] := by
  have hName : Lexes AfterDot AfterOperand (Stops true) n [.name n] :=
    token (fun _ => Spelling.stands_afterDot h) (by simp [Spelling.name])
      fun _ => afterOperand_of_after rfl fun k hType => by cases hType
  have hDot : Lexes NotDot AfterDot (Spelling.MarkStops .dot) (Bytes.ofString ".") [.mark .dot] :=
    token (fun _ hRest => Spelling.stands_mark .dot hRest (by simp)) (by simp [Spelling.mark])
      fun _ hExit => hExit.imp fun _ ht => ⟨ht.1, ht.2.type_eq⟩
  refine append hDot hName fun rest _ b hb => ?_
  obtain ⟨c, tail, rfl, hStart⟩ := h.starts
  obtain rfl : c = b := by simpa using hb
  have hNone : Punctuator.dot.extensions = [] := by decide
  refine ⟨by simp [hNone], fun _ => ?_, by simp⟩
  rcases hStart [] with hByte | ⟨hHigh, -⟩
  · simp only [Word.isStartByte, Bytes.isDigit] at hByte ⊢
    grind
  · simp only [Bytes.isDigit]
    grind

/-! #### Tokens before a piece -/

/-- A reserved word before a text that does not continue it. -/
theorem word (k : Keyword) {b : UInt8} (h : Lexes NotDot exit stop (b :: text) ws)
    (hByte : Stops true [b]) :
    Lexes NotDot exit stop (Bytes.ofString k.text ++ b :: text) (.word k :: ws) :=
  append (wordAlone k) h fun _ _ => hByte

theorem mark {p : Punctuator} (h : Lexes NotDot exit stop text ws) (hPlain : p.isPlain = true) :
    Lexes NotDot exit stop (Bytes.ofString p.text ++ text) (.mark p :: ws) :=
  append (plainMark hPlain) h fun _ _ => trivial

/-! #### Pieces behind an operand -/

/-- An operand, a punctuator and a piece. -/
theorem thenMark {p : Punctuator} {dot : Bool} (h : Lexes entry AfterOperand (Stops dot) text ws)
    (h' : Lexes NotDot exit stop text' ws') (hPlain : p.isPlain = true) :
    Lexes entry exit stop (text ++ (Bytes.ofString p.text ++ text'))
      (ws ++ Spelling.mark p :: ws') := by
  refine h.append (h'.mark hPlain).afterOperand fun rest _ => ?_
  rw [List.append_assoc]
  exact Stops.mark (by rintro rfl; cases hPlain) dot _

/-- An operand and a punctuator that ends it. -/
theorem thenClosing {p : Punctuator} {dot : Bool}
    (h : Lexes entry AfterOperand (Stops dot) text ws) (hPlain : p.isPlain = true)
    (hEnds : (TokenType.punctuator p).endsOperand = true) :
    Lexes entry AfterOperand Anything (text ++ Bytes.ofString p.text) (ws ++ [Spelling.mark p]) :=
  h.append (closing hPlain hEnds).afterOperand fun rest _ =>
    Stops.mark (by rintro rfl; cases hPlain) dot rest

/-- An operand, a blank and a piece. -/
theorem thenBlank {dot : Bool} (h : Lexes entry AfterOperand (Stops dot) text ws)
    (h' : Lexes AfterOperand exit stop text' ws') :
    Lexes entry exit stop (text ++ 32 :: text') (ws ++ ws') :=
  h.append h'.blank fun _ _ => Stops.of_byte (by cases dot <;> decide)

end Lexes

/-! ### Where regular expressions stand -/

namespace Spelling

@[simp] theorem type_mark (p : Punctuator) : (mark p).type = .punctuator p := rfl

@[simp] theorem type_word (k : Keyword) : (word k).type = .keyword k := rfl

@[simp] theorem type_name (n : Bytes) : (name n).type = .identifier := rfl

@[simp] theorem allowsRegex_mark (p : Punctuator) :
    (mark p).allowsRegex = !(TokenType.punctuator p).endsOperand :=
  Punctuator.of_all (by decide) p

@[simp] theorem allowsRegex_word (k : Keyword) :
    (word k).allowsRegex = decide (k ∈ [.kwCase, .kwDelete, .kwElse, .kwIn, .kwInstanceof, .kwNew,
      .kwReturn, .kwThrow, .kwTypeof, .kwVoid]) :=
  Keyword.of_all (by decide) k

@[simp] theorem allowsRegex_name (n : Bytes) : (name n).allowsRegex = false := rfl

variable {w : Spelling} {ws more : List Spelling} {allowed : Bool}

theorem admitted_cons (h : w.type ≠ .regex) :
    Admitted allowed (w :: ws) ↔ Admitted w.allowsRegex ws :=
  and_iff_right fun hType => absurd hType h

theorem admitted_any (h : w.type ≠ .regex) :
    Admitted allowed (w :: ws) ↔ Admitted true (w :: ws) := by
  rw [admitted_cons h, admitted_cons h]

/-- Of what stands before a token that is no regular expression it does not depend. -/
theorem admitted_append (h : w.type ≠ .regex) :
    Admitted allowed (ws ++ w :: more) ↔ Admitted allowed ws ∧ Admitted w.allowsRegex more := by
  induction ws generalizing allowed with
  | nil => simp [Admitted, h]
  | cons v ws ih => rw [List.cons_append, Admitted, Admitted, ih, and_assoc]

/-- What may stand behind tokens is decided by the last of them. -/
theorem admitted_last (h : ws.getLast? = some w) :
    Admitted allowed (ws ++ more) ↔ Admitted allowed ws ∧ Admitted w.allowsRegex more := by
  induction ws generalizing allowed with
  | nil => cases h
  | cons v ws ih =>
    rw [List.cons_append, Admitted, Admitted, and_assoc]
    cases ws with
    | nil =>
      obtain rfl : v = w := by simpa using h
      simp [Admitted]
    | cons u ws => rw [ih (by simpa using h)]

end Spelling

/-- The tokens are admitted where a regular expression may stand first exactly if so says the
verdict. -/
def Judges (verdict : Prop) (ws : List Spelling) : Prop := Spelling.Admitted true ws ↔ verdict

namespace Judges

variable {p q : Prop} {ws us : List Spelling} {w : Spelling}

theorem iff (h : Judges p ws) : Spelling.Admitted true ws ↔ p := h

theorem nil : Judges True [] := Iff.rfl

theorem single (w : Spelling) : Judges True [w] := by
  simp [Judges, Spelling.Admitted]

theorem congr (h : Judges p ws) (hIff : p ↔ q) : Judges q ws := Iff.trans h hIff

/-- A token that is no regular expression may follow any other. -/
theorem append (h : Judges p ws) (h' : Judges q (w :: us)) (hw : w.type ≠ .regex) :
    Judges (p ∧ q) (ws ++ w :: us) :=
  (Spelling.admitted_append hw).trans (and_congr h ((Spelling.admitted_cons hw).symm.trans h'))

theorem behind (h : Judges p ws) (hAllows : w.allowsRegex = true) : Judges p (w :: ws) := by
  rw [Judges, Spelling.Admitted, hAllows]
  exact (and_iff_right fun _ => rfl).trans h

theorem apart (h : Judges p ws) (h' : Judges q us) (hw : w.type ≠ .regex)
    (hAllows : w.allowsRegex = true) : Judges (p ∧ q) (ws ++ w :: us) :=
  h.append (h'.behind hAllows) hw

theorem closed (h : Judges p ws) (hw : w.type ≠ .regex) : Judges p (ws ++ [w]) :=
  (h.append (single w) hw).congr (and_iff_left trivial)

theorem after (h : Judges p (w :: ws)) (hw : w.type ≠ .regex) (v : Spelling) :
    Judges p (v :: w :: ws) :=
  ((single v).append h hw).congr (and_iff_right trivial)

end Judges

end ScriptOptimizer
