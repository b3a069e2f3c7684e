import ScriptOptimizer.Proofs.Parse.Statement
import ScriptOptimizer.Proofs.Syntax.Regexes
import ScriptOptimizer.Proofs.Token.Layout
import ScriptOptimizer.Syntax.Print

/-!
Trees whose printed text reads back. An expression is good when its text, at any depth and with or
without bare `in`, is cut into tokens that are read as the expression again, in which a regular
expression stands where none may exactly if the tree does not keep it; a statement likewise. Good
parts make good wholes, which the modules after this one show.
-/

namespace ScriptOptimizer

/-! ### How a piece begins -/

/-- The token may begin a piece of an expression. -/
structure Spelling.Leads (w : Spelling) : Prop where
  joined : w.joined = false
  byte : ∃ b tail, w.text = b :: tail ∧ b ∉ [32, 10, 61]
  brace : w.type = .punctuator .leftBrace → w.text = Bytes.ofString "\x7b"
  function : w.type = .keyword .kwFunction → w.text = Bytes.ofString "function"
  slash : w.type = .regex ↔ w.text.head? = some 47

/-- The piece begins with the text of its first token. -/
def Fronted (text : Bytes) (ws : List Spelling) : Prop :=
  ∃ w more tail, ws = w :: more ∧ text = w.text ++ tail ∧ w.Leads

namespace Fronted

variable {text : Bytes} {ws : List Spelling}

theorem of_leads {w : Spelling} (h : w.Leads) (tail : Bytes) (more : List Spelling) :
    Fronted (w.text ++ tail) (w :: more) :=
  ⟨w, more, tail, rfl, rfl, h⟩

theorem append (h : Fronted text ws) (tail : Bytes) (more : List Spelling) :
    Fronted (text ++ tail) (ws ++ more) := by
  obtain ⟨w, us, rest, rfl, rfl, hLeads⟩ := h
  exact ⟨w, us ++ more, rest ++ tail, rfl, List.append_assoc _ _ _, hLeads⟩

theorem byte (h : Fronted text ws) : ∃ b tail, text = b :: tail ∧ b ∉ [32, 10, 61] := by
  obtain ⟨w, us, rest, rfl, rfl, hLeads⟩ := h
  obtain ⟨b, tail, hText, hByte⟩ := hLeads.byte
  exact ⟨b, tail ++ rest, by rw [hText, List.cons_append], hByte⟩

theorem noGap (h : Fronted text ws) : NoGap text := by
  obtain ⟨b, tail, rfl, hByte⟩ := h.byte
  exact ⟨b, tail, rfl, by grind⟩

/-- What begins with a slash begins with a regular expression. -/
theorem admitted (h : Fronted text ws) (allowed : Bool) : Spelling.Admitted allowed ws ↔
    (text.head? = some 47 → allowed = true) ∧ Spelling.Admitted true ws := by
  obtain ⟨w, us, rest, rfl, rfl, hLeads⟩ := h
  obtain ⟨b, tail, hText, -⟩ := hLeads.byte
  have hSlash := hLeads.slash
  rw [hText] at hSlash ⊢
  simp only [List.cons_append, Spelling.Admitted, List.head?_cons] at hSlash ⊢
  rw [hSlash]
  simp

end Fronted

namespace Spelling

theorem leads_mark (p : Punctuator) (h : (Bytes.ofString p.text).head? ∉ [some 61, some 47]) :
    (mark p).Leads := by
  obtain ⟨b, tail, hText, hByte, -⟩ := p.text_front
  simp only [List.mem_cons, List.not_mem_nil, or_false, not_or] at h
  refine ⟨rfl, ⟨b, tail, hText, ?_⟩, ?_, ?_, iff_of_false ?_ h.2⟩
  · rw [hText] at h
    simp only [List.head?_cons] at h
    grind
  · intro hType
    cases hType
    rfl
  · intro hType
    cases hType
  · intro hType
    cases hType

theorem leads_name {n : Bytes} (h : Word.Plain n) : (name n).Leads := by
  obtain ⟨b, tail, hText, hStart⟩ := h.starts
  have hFirst : b ∉ [32, 10, 61] ∧ b ≠ 47 := by
    rcases hStart [] with hByte | ⟨hHigh, -⟩
    · simp only [Word.isStartByte] at hByte
      grind
    · grind
  refine ⟨rfl, ⟨b, tail, hText, hFirst.1⟩, ?_, ?_,
    iff_of_false ?_ (by simpa [name, hText] using hFirst.2)⟩ <;> (intro hType; cases hType)

theorem leads_word (k : Keyword) : (word k).Leads := by
  obtain ⟨joined, byte, -, -, slash⟩ := leads_name k.plain
  refine ⟨joined, byte, nofun, ?_, iff_of_false nofun fun hText => nomatch slash.2 hText⟩
  intro hType
  cases hType
  rfl

theorem leads_numeral {raw : Bytes} {value : Binary64} (h : Numeral.Spells raw value) :
    (numeral raw value).Leads := by
  obtain ⟨b, tail, hText, hStart⟩ := h.starts
  have hFirst : b ∉ [32, 10, 61] ∧ b ≠ 47 := by
    rcases hStart with hDigit | ⟨rfl, -⟩
    · simp only [Bytes.isDigit] at hDigit
      grind
    · decide
  refine ⟨rfl, ⟨b, tail, hText, hFirst.1⟩, ?_, ?_,
    iff_of_false ?_ (by simpa [numeral, hText] using hFirst.2)⟩ <;> (intro hType; cases hType)

theorem leads_quoted {raw value : Bytes} (h : StringLiteral.Spells raw value) :
    (quoted raw value).Leads := by
  obtain ⟨b, tail, hText, hQuote⟩ := h.starts
  have hFirst : b ∉ [32, 10, 61] ∧ b ≠ 47 := by rcases hQuote with rfl | rfl <;> decide
  exact ⟨rfl, ⟨b, tail, hText, hFirst.1⟩, nofun, nofun,
    iff_of_false nofun (by simpa [quoted, hText] using hFirst.2)⟩

theorem leads_regex [PatternCheck] {raw : Bytes} {parts : RegexLiteral.Parts}
    (h : RegexLiteral.Spells raw parts) : (regex raw parts).Leads := by
  obtain ⟨c, tail, hText, -⟩ := h.starts
  exact ⟨rfl, ⟨47, c :: tail, hText, by decide⟩, nofun, nofun,
    iff_of_true rfl (by simp [regex, hText])⟩

end Spelling

/-! ### Pieces that read back -/

namespace Expr

/-- Is it an `in`, which may not stand bare in a loop head? -/
def isIn : Expr → Bool
  | .binary _ operator _ _ => operator = Bytes.ofString "in"
  | _ => false

/-- May a dot follow the text of the expression directly, where a level was wanted? -/
def takesDot (e : Expr) (level : Nat) : Bool :=
  Level.call ≤ level && !Print.isNumber (.holds e)

theorem takesDot_low {e : Expr} {level : Nat} (h : level < Level.call) :
    e.takesDot level = false := by
  simp [takesDot, h]

variable [PatternCheck]

/-- The text is cut into tokens that are read as the expression where a level is wanted. A text that
was printed without bare `in` is also read where one would be an operator. -/
structure Rereads (e : Expr) (level : Nat) (noIn : Bool) (text : Bytes) (ws : List Spelling) :
    Prop where
  lexes : Lexes NotDot AfterOperand (Stops (e.takesDot level)) text ws
  front : Fronted text ws
  reads (flag : Bool) : (flag = true → noIn = true) → ReadsAt level flag ws e
  chain : Level.call ≤ level → Print.hasCallExpr e = false → ReadsChain false ws e
  judged : Judges e.KeepsRegexes ws

/-- The text of the expression, at any depth, reads back. -/
def Good (e : Expr) : Prop :=
  ∀ depth noIn, (noIn && e.isIn) = false →
    ∃ ws, e.Rereads e.level noIn (Print.expr depth noIn e) ws

namespace Rereads

variable {e : Expr} {level k : Nat} {noIn : Bool} {text : Bytes} {ws : List Spelling}

theorem mono (h : e.Rereads level noIn text ws) (hk : k ≤ level) : e.Rereads k noIn text ws := by
  refine ⟨h.lexes.stop_mono fun rest hRest => ?_, h.front,
    fun flag hFlag => (h.reads flag hFlag).mono hk, fun hCall => h.chain (Nat.le_trans hCall hk),
    h.judged⟩
  cases hDot : e.takesDot k with
  | false =>
    rw [hDot] at hRest
    exact hRest.mono
  | true =>
    have hLevel : e.takesDot level = true := by
      simp only [takesDot, Bool.and_eq_true, decide_eq_true_eq] at hDot ⊢
      exact ⟨Nat.le_trans hDot.1 hk, hDot.2⟩
    rwa [hLevel, ← hDot]

theorem of_primary (hLexes : Lexes NotDot AfterOperand (Stops (e.takesDot Level.primary)) text ws)
    (hFront : Fronted text ws) (hReads : ∀ flag, ReadsAt Level.primary flag ws e)
    (hJudged : Judges e.KeepsRegexes ws) : e.Rereads Level.primary noIn text ws :=
  ⟨hLexes, hFront, fun flag _ => hReads flag, fun _ _ =>
    ReadsAs.chain_of_primary ((hReads false).reads (Nat.le_refl _)) false, hJudged⟩

theorem parens_lexes (h : e.Rereads level noIn text ws) :
    Lexes NotDot AfterOperand Anything (Bytes.ofString "(" ++ (text ++ Bytes.ofString ")"))
      (.mark .leftParen :: (ws ++ [Spelling.mark .rightParen])) := by
  have hInner : Lexes NotDot AfterOperand Anything
      (text ++ Bytes.ofString Punctuator.rightParen.text) (ws ++ [Spelling.mark .rightParen]) :=
    h.lexes.thenClosing rfl rfl
  exact hInner.mark (p := .leftParen) rfl

/-- An expression in parentheses stands anywhere. -/
theorem parens {inner : Bool} (h : e.Rereads level inner text ws) (noIn : Bool) :
    e.Rereads Level.primary noIn (Bytes.ofString "(" ++ (text ++ Bytes.ofString ")"))
      (.mark .leftParen :: (ws ++ [Spelling.mark .rightParen])) := by
  refine of_primary (h.parens_lexes.stop_mono fun _ _ => trivial) ?_ (fun flag => ?_) ?_
  · exact .of_leads (Spelling.leads_mark .leftParen (by decide)) _ _
  · exact (h.reads false nofun).parens
  · exact (h.judged.closed (by simp)).behind rfl

end Rereads

omit [PatternCheck] in
theorem enclose_eq (level : Nat) (noIn : Bool) (e : Expr) (text : Bool → Bytes) :
    Print.enclose level noIn e text =
      if e.level < level || (noIn && e.isIn) then
        Bytes.ofString "(" ++ (text false ++ Bytes.ofString ")")
      else text noIn := by
  have hParens : Bytes.cat ["(", text false, ")"] =
      Bytes.ofString "(" ++ (text false ++ Bytes.ofString ")") := by simp
  cases e <;> (unfold Print.enclose Print.wraps; rw [hParens]; rfl)

omit [PatternCheck] in
/-- What needs no parentheses anywhere has none. -/
theorem slot_primary {e : Expr} (h : e.level = Level.primary) (hIn : e.isIn = false) (depth : Nat)
    (noIn : Bool) {level : Nat} (hLevel : level ≤ Level.primary) :
    Print.slot depth noIn level (.holds e) = Print.expr depth noIn e := by
  rw [Print.slot, enclose_eq, h, hIn, Bool.and_false, Bool.or_false, if_neg]
  simpa using hLevel

/-- A good expression in a slot reads back where any level is wanted. -/
theorem Good.slot {e : Expr} (h : e.Good) (depth : Nat) (noIn : Bool) (level : Nat)
    (hLevel : level ≤ Level.primary) :
    ∃ ws, e.Rereads level noIn (Print.slot depth noIn level (.holds e)) ws := by
  rw [Print.slot, enclose_eq]
  cases hEnclosed : decide (e.level < level) || (noIn && e.isIn) with
  | true =>
    obtain ⟨ws, hws⟩ := h depth false rfl
    exact ⟨_, (hws.parens noIn).mono hLevel⟩
  | false =>
    simp only [Bool.or_eq_false_iff, decide_eq_false_iff_not, Nat.not_lt] at hEnclosed
    obtain ⟨ws, hws⟩ := h depth noIn hEnclosed.2
    exact ⟨ws, hws.mono hEnclosed.1⟩

end Expr

/-- What the slot holds reads back, and it may hold nothing. -/
def Slot.Good [PatternCheck] : Slot → Prop
  | .absent => True
  | .vacant => False
  | .holds e => e.Good

namespace Stmt

/-- The text of the statement, at any depth, is cut into good tokens, the first of which is not
bound to the line before. -/
def Writes [PatternCheck] (s : Stmt) (good : List Spelling → Prop) : Prop :=
  ∀ depth, ∃ w more, Lexes NotDot NotDot Anything (Print.stmt depth s) (w :: more) ∧
    w.joined = false ∧ good (w :: more)

/-- A regular expression among the tokens stands where none may exactly if the tree does not keep
it, or if it is the first of them and none may stand there. The next one may stand behind the
statement unless that ends with a brace. -/
def Judged (s : Stmt) (ws : List Spelling) : Prop :=
  ∀ allowed more, Spelling.Admitted allowed (ws ++ more) ↔ (s.leadsRegex = true → allowed = true) ∧
    s.KeepsRegexes ∧ Spelling.Admitted (!s.endsBrace) more

/-- The text of the statement, at any depth, reads back. -/
def Good [PatternCheck] (c : Context) (s : Stmt) : Prop :=
  s.Writes fun ws => ReadsStmt c ws s ∧ s.Judged ws

theorem Writes.mono [PatternCheck] {s : Stmt} {good good' : List Spelling → Prop}
    (h : s.Writes good) (hGood : ∀ ws, good ws → good' ws) : s.Writes good' := by
  intro depth
  obtain ⟨w, more, hLexes, hFree, hws⟩ := h depth
  exact ⟨w, more, hLexes, hFree, hGood _ hws⟩

theorem row_admitted {items : List (List Spelling)} {list : List Stmt}
    (h : List.Forall₂ (fun ws s => Judged s ws) items list) (allowed : Bool) :
    Spelling.Admitted allowed items.flatten ↔
      rowKeepsRegex allowed list = true ∧ ∀ s ∈ list, s.KeepsRegexes := by
  induction h generalizing allowed with
  | nil => simp [Spelling.Admitted, rowKeepsRegex]
  | @cons ws s items list hFirst _ ih =>
    rw [List.flatten_cons, hFirst, ih]
    simp only [rowKeepsRegex, Bool.and_eq_true, Bool.or_eq_true, Bool.not_eq_true',
      List.forall_mem_cons]
    cases s.leadsRegex <;> simp <;> tauto

theorem row_judged {items : List (List Spelling)} {list : List Stmt}
    (h : List.Forall₂ (fun ws s => Judged s ws) items list) :
    Judges (RowKeepsRegexes list) items.flatten :=
  row_admitted h true

theorem braced_judged {items : List (List Spelling)} {list : List Stmt}
    (h : List.Forall₂ (fun ws s => Judged s ws) items list) :
    Judges (RowKeepsRegexes list) (ReadsStmt.braced items) :=
  ((row_judged h).closed (by simp)).behind rfl

variable {good : List Spelling → Stmt → Prop}

variable [PatternCheck]

/-- Statements on lines of their own, in front of a token that may begin a line. -/
theorem lines_lexed {list : List Stmt} (h : ∀ s ∈ list, s.Writes (good · s)) (depth : Nat) :
    ∃ items, List.Forall₂ good items list ∧
      ∀ {rest : Bytes} {w : Spelling} {more : List Spelling} {broken : Bool},
        Lexed NotDot false rest (w :: more) → w.joined = false →
        Lexed NotDot broken (Print.stmts depth list ++ rest) (items.flatten ++ w :: more) := by
  induction list with
  | nil =>
    refine ⟨[], .nil, fun {rest w more broken} hRest hJoined => hRest.rebreak ?_⟩
    rintro - v ⟨⟩
    exact hJoined
  | cons s list ih =>
    obtain ⟨items, hItems, hMore⟩ := ih fun s hs => h s (List.mem_cons_of_mem _ hs)
    obtain ⟨u, us, hLexes, hFree, hGood⟩ := h s List.mem_cons_self depth
    refine ⟨(u :: us) :: items, .cons hGood hItems, fun {rest w more broken} hRest hJoined => ?_⟩
    have hText : Print.stmts depth (s :: list) ++ rest =
        Print.indent depth ++ Print.stmt depth s ++ 10 :: (Print.stmts depth list ++ rest) := by
      rw [Print.stmts]
      simp [show Bytes.ofString "\n" = [10] by decide]
    have hLine : Lexed NotDot false (10 :: (Print.stmts depth list ++ rest))
        (items.flatten ++ w :: more) := (hMore hRest hJoined).lineFeed
    rw [hText, List.flatten_cons, List.append_assoc (u :: us)]
    refine (hLexes.indent (2 * depth)).lexed hLine trivial ?_
    rintro - v ⟨⟩
    exact hFree

/-- Statements in braces. -/
theorem braces_lexes {list : List Stmt} (h : ∀ s ∈ list, s.Writes (good · s)) (depth : Nat) :
    ∃ items, List.Forall₂ good items list ∧
      Lexes NotDot AfterOperand Anything (Print.braces depth (Print.stmts (depth + 1) list))
        (ReadsStmt.braced items) := by
  have hClose : Lexes NotDot AfterOperand Anything (Bytes.ofString Punctuator.rightBrace.text)
      [.mark .rightBrace] := Lexes.closing rfl rfl
  cases list with
  | nil => exact ⟨[], .nil, hClose.mark (p := .leftBrace) rfl⟩
  | cons s list =>
    obtain ⟨items, hItems, hLines⟩ := lines_lexed h (depth + 1)
    refine ⟨items, hItems, ?_⟩
    have hText : Print.braces depth (Print.stmts (depth + 1) (s :: list)) =
        Bytes.ofString Punctuator.leftBrace.text ++ (10 :: (Print.stmts (depth + 1) (s :: list) ++
          (Print.indent depth ++ Bytes.ofString Punctuator.rightBrace.text))) := by
      rw [Print.braces, if_neg (by simp [Print.stmts, show Bytes.ofString "\n" = [10] by decide])]
      have hOpen : Bytes.ofString "\x7b\n" = Bytes.ofString Punctuator.leftBrace.text ++ [10] := by
        decide
      simp [hOpen, Punctuator.text]
    have hInner : Lexes NotDot AfterOperand Anything (10 :: (Print.stmts (depth + 1) (s :: list) ++
        (Print.indent depth ++ Bytes.ofString Punctuator.rightBrace.text)))
        (items.flatten ++ [Spelling.mark .rightBrace]) := by
      refine ⟨fun {rest more broken} hMore _ _ => ?_⟩
      have hEnd : Lexed NotDot false (Print.indent depth ++
          Bytes.ofString Punctuator.rightBrace.text ++ rest) (.mark .rightBrace :: more) :=
        (hClose.indent (2 * depth)).lexed hMore trivial (by simp)
      simpa using (hLines hEnd rfl).lineFeed
    rw [hText]
    exact hInner.mark rfl

end Stmt

end ScriptOptimizer
