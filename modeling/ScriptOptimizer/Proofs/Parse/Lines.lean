import ScriptOptimizer.Proofs.Parse.Extent
import ScriptOptimizer.Proofs.Token.LineBreak
import ScriptOptimizer.Proofs.Walk.Schedule

/-!
Where a program may break its lines. A statement that lacks its semicolon stands before a closing
brace, the end of input or a new line, and some words and operators share a line with the token
beside them. What a rule reads is described by the tokens on both sides of the place it has reached.
-/

namespace ScriptOptimizer

open Bytes (LineBroken)

variable (text : Bytes) (tokens : List Token)

/-- The statement with the range ends in a semicolon, or it may lack one: a closing brace, the end
of input or a token in a new line comes next. -/
def Span.Ends (span : Span) : Prop :=
  ∃ last next : Token, [last, next] <:+: tokens ∧ span.stop = last.stopPlace ∧
    (last.type = .punctuator .semicolon ∨ next.type = .punctuator .rightBrace ∨
      next.type = .endOfInput ∨ LineBroken (text.slice last.stop next.start))

/-- The range starts with the word, and behind it an expression starts at the place. Only opening
parentheses may be before the expression, and the first token after the word is on its line. -/
def Span.Leads (span : Span) (word : Keyword) (start : Place) : Prop :=
  ∃ (t : Token) (opening : List Token) (first : Token), t :: opening ++ [first] <:+: tokens ∧
    t.type = .keyword word ∧ span.start = t.startPlace ∧
    (∀ u ∈ opening, u.type = .punctuator .leftParen) ∧ start = first.startPlace ∧
    ∀ next ∈ (opening ++ [first]).head?, ¬LineBroken (text.slice t.stop next.start)

/-- The range starts with the word, and the label is the token after it, on its line. -/
def Span.Jumps (span : Span) (word : Keyword) (label : Ident) : Prop :=
  ∃ t u : Token, [t, u] <:+: tokens ∧ t.type = .keyword word ∧ span.start = t.startPlace ∧
    label.span = u.span ∧ ¬LineBroken (text.slice t.stop u.start)

/-- The range ends in the operator, and before it an expression stops at the place. Only closing
parentheses may be after the expression, and the last token before the operator is on its line. -/
def Span.Follows (span : Span) (operator : Bytes) (stop : Place) : Prop :=
  ∃ (last : Token) (closing : List Token) (t : Token), last :: closing ++ [t] <:+: tokens ∧
    t.literal = operator ∧ span.stop = t.stopPlace ∧
    (∀ u ∈ closing, u.type = .punctuator .rightParen) ∧ stop = last.stopPlace ∧
    ∀ before ∈ (last :: closing).getLast?, ¬LineBroken (text.slice before.stop t.start)

/-- The statements that need a semicolon have one, or may lack it. -/
def Stmt.Ends : Stmt → Prop
  | .declaration span _ _ | .expression span _ | .returnValue span _ | .throwValue span _
  | .breakTo span _ | .continueTo span _ | .debugger span => span.Ends text tokens
  | _ => True

namespace Node

/-- The statements that stand in a node. The declaration in the head of a loop is none of them. -/
def innerStatements : Node → List Stmt
  | .program p => p.body
  | .stmt (.block _ body) => body
  | .stmt (.conditional _ _ consequent alternate) => [consequent, alternate]
  | .stmt (.labeled _ _ body) | .stmt (.withObject _ _ body) | .stmt (.whileLoop _ _ body)
  | .stmt (.doWhile _ body _) | .stmt (.forLoop _ _ _ _ body) | .stmt (.forIn _ _ _ body) => [body]
  | .case (.clause _ _ consequent) => consequent
  | _ => []

/-- No line ends inside the node where none may: before an operator behind its operand, and behind a
word that an argument or a label belongs to. -/
def Unbroken : Node → Prop
  | .expr (.update span operator false (.holds e)) => span.Follows text tokens operator e.span.stop
  | .stmt (.returnValue span (.holds e)) => span.Leads text tokens .kwReturn e.span.start
  | .stmt (.throwValue span (.holds e)) => span.Leads text tokens .kwThrow e.span.start
  | .stmt (.breakTo span (some label)) => span.Jumps text tokens .kwBreak label
  | .stmt (.continueTo span (some label)) => span.Jumps text tokens .kwContinue label
  | _ => True

/-- The node keeps to the rules about lines. -/
structure Lined (n : Node) : Prop where
  ends : ∀ s ∈ n.innerStatements, s.Ends text tokens
  unbroken : n.Unbroken text tokens

/-- The node and all below it keep to the rules about lines. -/
def AllLined (n : Node) : Prop := ∀ m ∈ n.preorder, m.Lined text tokens

variable {text tokens} {n : Node}

theorem AllLined.of (h : n.Lined text tokens)
    (hChildren : ∀ c ∈ n.children, c.node.AllLined text tokens) : n.AllLined text tokens := by
  intro m hm
  rw [preorder_eq] at hm
  rcases List.mem_cons.mp hm with rfl | hm
  · exact h
  · obtain ⟨c, hc, hm⟩ := List.mem_flatMap.mp hm
    exact hChildren c hc m hm

/-- An expression has no statements of its own. -/
theorem AllLined.ofExpr {e : Expr} (hUnbroken : (Node.expr e).Unbroken text tokens)
    (hChildren : ∀ c ∈ Child.ofExpr e, c.node.AllLined text tokens) :
    (Node.expr e).AllLined text tokens :=
  .of ⟨fun _ hs => absurd hs List.not_mem_nil, hUnbroken⟩ hChildren

end Node

namespace Parse

/-- The tokens say whether a line terminator stands between them and the one before. -/
def Noted : Prop :=
  ∀ t u, [t, u] <:+: tokens → (u.newlineBefore = true ↔ LineBroken (text.slice t.stop u.start))

/-- The stream shows what is left of the tokens. -/
structure Shows (s : Stream) : Prop where
  ready : Ready s
  suffix : s.current :: s.upcoming <:+ tokens

/-- The stream shows what is left of the tokens after the one read last. -/
structure Passed (s : Stream) : Prop where
  ready : Ready s
  last : ∃ last, last :: s.current :: s.upcoming <:+ tokens ∧ s.stop = last.stopPlace

/-- Behind some opening parentheses a token starts at the place. -/
def Opens (start : Place) (s : Stream) : Prop :=
  ∃ (opening : List Token) (first : Token) (rest : List Token),
    s.current :: s.upcoming = opening ++ first :: rest ∧
      (∀ t ∈ opening, t.type = .punctuator .leftParen) ∧ start = first.startPlace

/-- Before some closing parentheses a token stops at the place. -/
def Closes (stop : Place) (s : Stream) : Prop :=
  ∃ (last : Token) (closing : List Token), last :: closing ++ s.current :: s.upcoming <:+ tokens ∧
    (∀ t ∈ closing, t.type = .punctuator .rightParen) ∧ stop = last.stopPlace

/-- Between the streams an expression was read, with parentheses around it. -/
structure Holds (s : Stream) (e : Expr) (t : Stream) : Prop where
  passed : Passed tokens t
  opens : Opens e.span.start s
  closes : Closes tokens e.span.stop t
  lined : (Node.expr e).AllLined text tokens

/-- A statement that was read. -/
structure Stands (s : Stmt) : Prop where
  ends : s.Ends text tokens
  lined : ∀ c ∈ Child.stmt s, c.node.AllLined text tokens

variable {text tokens} {s t u : Stream} {e : Expr}

/-! ### Places between tokens -/

theorem Passed.shows (h : Passed tokens s) : Shows tokens s := by
  obtain ⟨hReady, last, hLast, -⟩ := h
  exact ⟨hReady, (List.suffix_cons last _).trans hLast⟩

theorem Ready.counted (h : Ready s) (c : Census) : Ready { s with census := c } :=
  ⟨h.sorted, h.le, h.last, h.unread, h.stop_le⟩

theorem Passed.counted (h : Passed tokens s) (c : Census) : Passed tokens { s with census := c } :=
  ⟨h.ready.counted c, h.last⟩

theorem Took.passed (hTook : Took s t) (h : Shows tokens s) : Passed tokens t :=
  ⟨hTook.ready, s.current, hTook.tokens ▸ h.suffix, hTook.stop_eq⟩

theorem Opens.here (s : Stream) : Opens s.current.startPlace s :=
  ⟨[], s.current, s.upcoming, rfl, List.forall_mem_nil _, rfl⟩

theorem Opens.paren {start : Place} (h : Opens start t) (hTook : Took s t)
    (hType : s.current.type = .punctuator .leftParen) : Opens start s := by
  obtain ⟨opening, first, rest, hTokens, hOpening, hStart⟩ := h
  refine ⟨s.current :: opening, first, rest, ?_, List.forall_mem_cons.mpr ⟨hType, hOpening⟩, hStart⟩
  rw [hTook.tokens, hTokens, List.cons_append]

theorem Closes.here (h : Passed tokens s) : Closes tokens s.stop s := by
  obtain ⟨last, hLast, hStop⟩ := h.last
  exact ⟨last, [], hLast, List.forall_mem_nil _, hStop⟩

theorem Closes.paren {stop : Place} (h : Closes tokens stop s) (hTook : Took s t)
    (hType : s.current.type = .punctuator .rightParen) : Closes tokens stop t := by
  obtain ⟨last, closing, hTokens, hClosing, hStop⟩ := h
  refine ⟨last, closing ++ [s.current], ?_, ?_, hStop⟩
  · rw [hTook.tokens] at hTokens
    simpa using hTokens
  · exact List.forall_mem_append.mpr ⟨hClosing, List.forall_mem_singleton.mpr hType⟩

/-- The count of nodes plays no part. -/
theorem Holds.counted (h : Holds text tokens s e t) (c : Census) :
    Holds text tokens s e { t with census := c } :=
  ⟨h.passed.counted c, h.opens, h.closes, h.lined⟩

theorem Holds.slot (h : Holds text tokens s e t) :
    Yields (inSlot e) t fun a u => Holds text tokens s a u :=
  h.counted _

theorem Passed.slot (h : Passed tokens s) (e : Expr) :
    Yields (inSlot e) s fun a t => a = e ∧ Passed tokens t :=
  ⟨rfl, h.counted _⟩

/-- An expression that reaches up to the token read last. -/
theorem Passed.holds (h : Passed tokens t) (hOpens : Opens e.span.start s)
    (hStop : e.span.stop = t.stop) (hUnbroken : (Node.expr e).Unbroken text tokens)
    (hChildren : ∀ c ∈ Child.ofExpr e, c.node.AllLined text tokens) : Holds text tokens s e t :=
  ⟨h, hOpens, hStop ▸ Closes.here h, .ofExpr hUnbroken hChildren⟩

/-! ### What a rule passes -/

section

variable (tokens)

/-- The rule reads at least one token, and what it gives is good. -/
def Passes {α : Type} (good : α → Prop) (p : Parse α) : Prop :=
  ∀ s, Shows tokens s → Yields p s fun a t => Passed tokens t ∧ good a

/-- After some token the rule may read further ones, and what it gives is good. -/
def Stays {α : Type} (good : α → Prop) (p : Parse α) : Prop :=
  ∀ s, Passed tokens s → Yields p s fun a t => Passed tokens t ∧ good a

/-- The rule reads an expression that keeps to the rules about lines. -/
def Expresses (text : Bytes) (p : Parse Expr) : Prop :=
  ∀ s, Shows tokens s → Yields p s fun e t => Holds text tokens s e t

end

section

variable {α β : Type} {p : Parse α} {f : α → Parse β} {good : α → Prop} {R : β → Stream → Prop}

theorem Passes.stays (h : Passes tokens good p) : Stays tokens good p := fun s hs => h s hs.shows

theorem Expresses.passes {p : Parse Expr} (h : Expresses tokens text p) :
    Passes tokens (fun e => (Node.expr e).AllLined text tokens) p :=
  fun s hs => (h s hs).mono fun _ _ h => ⟨h.passed, h.lined⟩

theorem Shows.first (h : Shows tokens s) (hp : Passes tokens good p)
    (hNext : ∀ a t, Passed tokens t → good a → Yields (f a) t R) : Yields (p >>= f) s R :=
  (hp s h).bind fun a t ha => hNext a t ha.1 ha.2

theorem Passed.next (h : Passed tokens s) (hp : Stays tokens good p)
    (hNext : ∀ a t, Passed tokens t → good a → Yields (f a) t R) : Yields (p >>= f) s R :=
  (hp s h).bind fun a t ha => hNext a t ha.1 ha.2

end

/-! ### Reading tokens -/

section

variable {type : TokenType}

theorem Took.counted (h : Took s t) (c : Census) : Took s { t with census := c } :=
  ⟨h.ready.counted c, h.tokens, h.stop_eq, h.le, h.next_le, h.stop_le⟩

/-- The token was read as an expression. -/
theorem Took.holds (hTook : Took s t) (h : Shows tokens s) (hSpan : e.span = s.current.span)
    (hUnbroken : (Node.expr e).Unbroken text tokens) (hLeaf : Child.ofExpr e = []) :
    Holds text tokens s e t := by
  refine (hTook.passed h).holds ?_ ?_ hUnbroken (by simp [hLeaf])
  · rw [hSpan]
    exact .here s
  · rw [hSpan, hTook.stop_eq]
    rfl

theorem Ready.expect (h : Ready s) (hMark : type.isMark = true) :
    Yields (Parse.expect type) s fun a t => a = s.current ∧ s.current.type = type ∧ Took s t := by
  refine .sees fun b hb => ?_
  cases b with
  | false => exact .unexpected
  | true =>
    have hType : s.current.type = type := by simpa using hb.symm
    subst hType
    exact (h.advance (ne_endOfInput hMark)).mono fun _ _ h => ⟨h.1, rfl, h.2⟩

theorem expect_passes (hMark : type.isMark = true) :
    Passes tokens (fun _ => True) (Parse.expect type) :=
  fun _ h => (h.ready.expect hMark).mono fun _ _ ht => ⟨ht.2.2.passed h, trivial⟩

theorem Ready.name (h : Ready s) :
    Yields Parse.name s fun id t => id.span = s.current.span ∧ Took s t := by
  refine .current ?_
  split
  case isFalse => exact .unexpected
  case isTrue hType =>
    exact (h.advance (by simp [hType])).bind fun _ t ht => ⟨rfl, ht.2.counted _⟩

theorem name_passes : Passes tokens (fun _ => True) Parse.name :=
  fun _ h => h.ready.name.mono fun _ _ ht => ⟨ht.2.passed h, trivial⟩

/-- A name in a slot. -/
theorem slotName_expresses (text : Bytes) : Expresses tokens text (do inSlot (.ident (← name))) :=
  fun _ h => h.ready.name.bind fun id _ ht =>
    (ht.2.holds (e := .ident id) h ht.1 trivial rfl).slot

theorem Shows.literal (h : Shows tokens s) (hType : s.current.type ≠ .endOfInput) :
    Yields (do let _ ← Parse.advance; inSlot (← literalAt s.current)) s fun e t =>
      Holds text tokens s e t := by
  refine (h.ready.advance hType).bind fun _ t ht => ?_
  have hHolds : Holds text tokens s (.literal ⟨s.current.span, s.current.literal,
      s.current.literalValue⟩) t := ht.2.holds h rfl trivial rfl
  exact (hHolds.counted _).slot

/-- The current token is read if it is the mark. -/
theorem Shows.accept (h : Shows tokens s) (hMark : type.isMark = true) :
    Yields (Parse.accept type) s fun b t =>
      b = true ∧ s.current.type = type ∧ Took s t ∨ b = false ∧ t = s := by
  refine .sees fun b hb => ?_
  cases b with
  | false => exact .pure (.inr ⟨rfl, rfl⟩)
  | true =>
    have hType : s.current.type = type := by simpa using hb.symm
    subst hType
    exact (h.ready.advance (ne_endOfInput hMark)).bind fun _ t ht => .pure (.inl ⟨rfl, rfl, ht.2⟩)

theorem accept_stays (hMark : type.isMark = true) :
    Stays tokens (fun _ => True) (Parse.accept type) := by
  refine fun s h => (h.shows.accept hMark).mono fun b t ht => ⟨?_, trivial⟩
  rcases ht with ⟨-, -, hTook⟩ | ⟨-, rfl⟩
  · exact hTook.passed h.shows
  · exact h

theorem infix_of_suffix (front : List Token) {rest : List Token} (h : front ++ rest <:+ tokens) :
    front <:+: tokens :=
  (List.prefix_append front rest).isInfix.trans h.isInfix

/-- A statement ends in the semicolon, or where it may lack one. -/
theorem Passed.semicolon (h : Passed tokens s) (hNoted : Noted text tokens) :
    Yields Parse.semicolon s fun _ t => Passed tokens t ∧
      ∀ start, (Span.mk start t.stop).Ends text tokens := by
  refine (h.shows.accept rfl).bind fun b t ht => ?_
  rcases ht with ⟨rfl, hType, hTook⟩ | ⟨rfl, rfl⟩
  · refine .pure ⟨hTook.passed h.shows, fun start => ⟨s.current, t.current, ?_, hTook.stop_eq,
      .inl hType⟩⟩
    have hSuffix := h.shows.suffix
    rw [hTook.tokens] at hSuffix
    exact infix_of_suffix [s.current, t.current] hSuffix
  · refine .current ?_
    show Yields (if _ then _ else _) t _
    split
    case isFalse => exact .unexpected
    case isTrue hMayEnd =>
      obtain ⟨last, hLast, hStop⟩ := h.last
      have hPair := infix_of_suffix [last, t.current] hLast
      refine .pure ⟨h, fun start => ⟨last, t.current, hPair, hStop, .inr ?_⟩⟩
      simpa [or_assoc, hNoted _ _ hPair] using hMayEnd

theorem atStatementEnd_yields :
    Yields Parse.atStatementEnd s fun b t =>
      t = s ∧ (b = false → s.current.newlineBefore = false) := by
  refine .current (.pure ⟨rfl, fun hb => ?_⟩)
  simp only [Bool.or_eq_false_iff] at hb
  exact hb.2

end

/-! ### Rows -/

section

variable {α : Type} {good : α → Prop} {isEnd : Parse Bool} {item : Parse α} {I K : Stream → Prop}

/-- Items up to where the test holds. -/
theorem many_good (hEnd : ∀ s, I s → Yields isEnd s fun b t => I t ∧ (b = true → K t))
    (hItem : ∀ s, I s → Yields item s fun a t => I t ∧ good a) (h : I s) :
    Yields (many isEnd item) s fun as t => I t ∧ K t ∧ ∀ a ∈ as, good a := by
  have hGo (n : Nat) {s : Stream} (h : I s) :
      Yields (manyIn isEnd item n) s fun as t => I t ∧ K t ∧ ∀ a ∈ as, good a := by
    induction n generalizing s with
    | zero => exact .unexpected
    | succ n ih =>
      refine (hEnd s h).bind fun b t ht => ?_
      cases b with
      | true => exact .pure ⟨ht.1, ht.2 rfl, List.forall_mem_nil _⟩
      | false =>
        refine (hItem t ht.1).bind fun a u hu => ?_
        refine (ih hu.1).bind fun as v hv => .pure ⟨hv.1, hv.2.1, ?_⟩
        exact List.forall_mem_cons.mpr ⟨hu.2, hv.2.2⟩
  exact .rounds fun n => hGo n h

theorem many_stays {good' : Bool → Prop} (hEnd : Stays tokens good' isEnd)
    (hItem : Stays tokens good item) :
    Stays tokens (fun as => ∀ a ∈ as, good a) (many isEnd item) :=
  fun _ h => (many_good (K := fun _ => True)
    (fun s hs => (hEnd s hs).mono fun _ _ ht => ⟨ht.1, fun _ => trivial⟩) hItem h).mono
    fun _ _ ht => ⟨ht.1, ht.2.2⟩

/-- Items up to a token of the type. -/
theorem many_until_good {type : TokenType}
    (hItem : ∀ s, I s → Yields item s fun a t => I t ∧ good a) (h : I s) :
    Yields (many (Parse.sees type) item) s fun as t =>
      I t ∧ t.current.type = type ∧ ∀ a ∈ as, good a :=
  many_good (fun s hs => .sees (f := pure) fun b hb => .pure
    ⟨hs, fun hTrue => by simpa [hTrue] using hb⟩) hItem h

/-- The values after the first, each after a comma. -/
theorem whileCommas_stays (hItem : Stays tokens good item) :
    Stays tokens (fun as => ∀ a ∈ as, good a)
      (many (return !(← Parse.accept (.punctuator .comma))) item) :=
  many_stays (fun s h => (accept_stays rfl s h).bind fun _ _ ht => .pure ⟨ht.1, trivial⟩ :
    Stays tokens (fun _ => True) _) hItem

theorem commaSeparated_stays {close : TokenType} (hClose : close.isMark = true)
    (hItem : Stays tokens good item) :
    Stays tokens (fun as => ∀ a ∈ as, good a) (commaSeparated close item) := by
  have hNext : Stays tokens good (do let _ ← Parse.expect (.punctuator .comma); item) :=
    fun s h => h.next (expect_passes rfl).stays fun _ t ht _ => hItem t ht
  refine fun s h => h.next (accept_stays hClose) fun b t ht _ => ?_
  cases b with
  | true => exact .pure ⟨ht, List.forall_mem_nil _⟩
  | false =>
    refine ht.next hItem fun a u hu ha => hu.next (many_stays (accept_stays hClose) hNext) ?_
    exact fun as v hv has => .pure ⟨hv, List.forall_mem_cons.mpr ⟨ha, has⟩⟩

/-- A value is extended as long as a step applies. -/
theorem extend_yields {step : α → Parse (Option α)} {J : α → Stream → Prop}
    (hStep : ∀ a t, J a t → Yields (step a) t fun r u => J (r.getD a) u) {a : α} (h : J a t) :
    Yields (Parse.extend step a) t J := by
  have hGo (n : Nat) {a : α} {t : Stream} (h : J a t) : Yields (extendIn step n a) t J := by
    induction n generalizing a t with
    | zero => exact .unexpected
    | succ n ih =>
      refine (hStep a t h).bind fun r u hr => ?_
      cases r with
      | none => exact .pure hr
      | some b => exact ih hr
  exact .rounds fun n => hGo n h

end

/-- The rules nested in others keep to the rules about lines. -/
structure Lines (text : Bytes) (tokens : List Token) (g : Grammar) : Prop where
  noted : Noted text tokens
  assignment (noIn : Bool) : Expresses tokens text (g.assignment noIn)
  binary (least : Nat) (noIn : Bool) : Expresses tokens text (g.binary least noIn)
  unary : Expresses tokens text g.unary
  construct : Expresses tokens text g.construct
  statement (c : Context) : Passes tokens (Stands text tokens) (g.statement c)

theorem Lines.empty (h : Noted text tokens) : Lines text tokens Grammar.empty where
  noted := h
  assignment _ _ _ := .unexpected
  binary _ _ _ _ := .unexpected
  unary _ _ := .unexpected
  construct _ _ := .unexpected
  statement _ _ _ := .unexpected

end Parse

end ScriptOptimizer
