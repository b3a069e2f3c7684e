import Mathlib.Data.List.Forall2
import ScriptOptimizer.Parse.Statement
import ScriptOptimizer.Proofs.Token.Spelling

/-!
Two runs of the grammar side by side. When the tokens of two texts say the same and differ at most
in where they stand, every rule goes the same way on both: both runs fail with errors that say the
same, or both succeed, with related values and with related tokens left. The relation between tokens
is a parameter, so what is known of the tokens is known of the errors and of the trees.
-/

namespace ScriptOptimizer

theorem Token.Same.literalValue_eq {t u : Token} (h : t.Same u) :
    u.literalValue = t.literalValue := by
  unfold Token.literalValue
  rw [h.type_eq, h.value_eq, h.number_eq, h.flags_eq]

/-- Where an error about the token is. -/
def Token.locationIn (t : Token) (source : Option Source) : Location :=
  ⟨t.line, t.column, t.start, t.stop, source⟩

/-- Two texts side by side: which tokens of the two belong together, where a flag says that they
stand after a dot, and which lexical errors come after them. -/
structure Pairing where
  rel : Bool → Token → Token → Prop
  same {dot : Bool} {t u : Token} : rel dot t u → t.Same u
  left : Option Source
  right : Option Source
  leftFailure : Option Diagnostic
  rightFailure : Option Diagnostic
  fails : leftFailure.isSome = rightFailure.isSome

namespace Pairing

variable (P : Pairing)

/-- The tokens belong together one by one. Without a lexical error after them the last of them is
the end of input. -/
inductive Lists : Bool → List Token → List Token → Prop
  | last {dot t u} : P.rel dot t u → (P.leftFailure = none → t.type = .endOfInput) →
      Lists dot [t] [u]
  | cons {dot t u ts us} : P.rel dot t u → Lists (t.type = .punctuator .dot) ts us →
      Lists dot (t :: ts) (u :: us)

/-- The streams show tokens that belong together, the first of them perhaps after a dot. -/
structure Streams (dot : Bool) (s u : Stream) : Prop where
  lists : P.Lists dot (s.current :: s.upcoming) (u.current :: u.upcoming)
  leftFailure : s.failure = P.leftFailure
  rightFailure : u.failure = P.rightFailure
  left : s.source = P.left
  right : u.source = P.right
  unread : P.leftFailure.isSome = true → s.upcoming ≠ []

/-- Both errors are the lexical ones, or they say the same about tokens that belong together. -/
inductive Faults (d e : Diagnostic) : Prop
  | failed : P.leftFailure = some d → P.rightFailure = some e → Faults d e
  | located {dot : Bool} {t u : Token} : P.rel dot t u → d.location = t.locationIn P.left →
      e = { d with location := u.locationIn P.right } → Faults d e

/-- Both runs fail, or both succeed with related values and with related tokens left. -/
inductive Outcomes {α : Type} (dot : Bool) (Q : α → α → Stream → Prop) :
    EStateM.Result Diagnostic Stream α → EStateM.Result Diagnostic Stream α → Prop
  | ok {a b s u} : Q a b s → P.Streams dot s u → Outcomes dot Q (.ok a s) (.ok b u)
  | error {d e s u} : P.Faults d e → Outcomes dot Q (.error d s) (.error e u)

/-- Side by side the rules succeed or fail together. -/
def Agree {α : Type} (Q : α → α → Stream → Prop) (p q : Parse α) : Prop :=
  ∀ {s u : Stream}, P.Streams false s u → P.Outcomes false Q (p s) (q u)

/-- The same value on both sides. -/
def Equal {α : Type} (a b : α) (_ : Stream) : Prop := a = b

variable {P} {α β : Type} {dot after : Bool} {s u : Stream} {t v : Token}
  {Q : α → α → Stream → Prop} {R : β → β → Stream → Prop} {p q : Parse α} {f g : α → Parse β}

/-! ### Steps that read nothing -/

theorem Outcomes.pure {a b : α} (h : Q a b s) (hStreams : P.Streams dot s u) :
    P.Outcomes dot Q ((Pure.pure a : Parse α) s) ((Pure.pure b : Parse α) u) :=
  .ok h hStreams

theorem Outcomes.mono {Q' : α → α → Stream → Prop} {x y : EStateM.Result Diagnostic Stream α}
    (h : P.Outcomes dot Q x y) (hMono : ∀ a b s, Q a b s → Q' a b s) : P.Outcomes dot Q' x y := by
  cases h with
  | ok hQ hStreams => exact .ok (hMono _ _ _ hQ) hStreams
  | error hFaults => exact .error hFaults

theorem Outcomes.bind (h : P.Outcomes after Q (p s) (q u))
    (hNext : ∀ a b s u, Q a b s → P.Streams after s u → P.Outcomes dot R (f a s) (g b u)) :
    P.Outcomes dot R ((p >>= f) s) ((q >>= g) u) := by
  show P.Outcomes dot R (EStateM.bind p f s) (EStateM.bind q g u)
  unfold EStateM.bind
  revert h
  generalize p s = x
  generalize q u = y
  rintro (⟨hQ, hStreams⟩ | ⟨hFaults⟩)
  · exact hNext _ _ _ _ hQ hStreams
  · exact .error hFaults

theorem Outcomes.map {f g : α → β} (h : P.Outcomes dot Q (p s) (q u))
    (hNext : ∀ a b s, Q a b s → R (f a) (g b) s) :
    P.Outcomes dot R ((f <$> p) s) ((g <$> q) u) := by
  show P.Outcomes dot R (EStateM.map f p s) (EStateM.map g q u)
  unfold EStateM.map
  revert h
  generalize p s = x
  generalize q u = y
  rintro (⟨hQ, hStreams⟩ | ⟨hFaults⟩)
  · exact .ok (hNext _ _ _ hQ) hStreams
  · exact .error hFaults

/-- A choice that goes the same way on both sides. -/
theorem Outcomes.choice {c c' : Prop} [Decidable c] [Decidable c'] {p' q' : Parse α}
    (hIff : c' ↔ c) (hThen : c → P.Outcomes dot Q (p s) (p' u))
    (hElse : ¬c → P.Outcomes dot Q (q s) (q' u)) :
    P.Outcomes dot Q ((if c then p else q) s) ((if c' then p' else q') u) := by
  by_cases hc : c
  · rw [if_pos hc, if_pos (hIff.mpr hc)]
    exact hThen hc
  · rw [if_neg hc, if_neg fun hc' => hc (hIff.mp hc')]
    exact hElse hc

/-- A choice between two steps, each with the same steps after it. -/
theorem Outcomes.branch {b : Bool} {p q p' q' : Parse α} {f g : α → Parse β}
    (h : P.Outcomes false Q ((if b then p else q) s) ((if b then p' else q') u))
    (hNext : ∀ a b s u, Q a b s → P.Streams false s u → P.Outcomes dot R (f a s) (g b u)) :
    P.Outcomes dot R ((if b then p >>= f else q >>= f) s)
      ((if b then p' >>= g else q' >>= g) u) := by
  cases b with
  | true => exact .bind h hNext
  | false => exact .bind h hNext

theorem Lists.length_eq {ts us : List Token} (h : P.Lists dot ts us) :
    us.length = ts.length := by
  induction h with
  | last => rfl
  | cons _ _ ih => simp [ih]

namespace Streams

theorem rel (h : P.Streams dot s u) : P.rel dot s.current u.current := by
  have hFront {t v : Token} {ts us : List Token} (hLists : P.Lists dot (t :: ts) (v :: us)) :
      P.rel dot t v := by
    cases hLists with
    | last hRel => exact hRel
    | cons hRel => exact hRel
  exact hFront h.lists

theorem type_eq (h : P.Streams dot s u) : u.current.type = s.current.type :=
  (P.same h.rel).type_eq

theorem census (h : P.Streams dot s u) (c d : Census) :
    P.Streams dot { s with census := c } { u with census := d } :=
  ⟨h.lists, h.leftFailure, h.rightFailure, h.left, h.right, h.unread⟩

theorem length_eq (h : P.Streams dot s u) : u.upcoming.length = s.upcoming.length := by
  simpa using h.lists.length_eq

/-- The tokens after the current ones have one type. -/
theorem next_type_eq (h : P.Streams dot s u) :
    u.upcoming.head?.map Token.type = s.upcoming.head?.map Token.type := by
  have hNext {dot : Bool} {t v : Token} {ts us : List Token}
      (hLists : P.Lists dot (t :: ts) (v :: us)) :
      us.head?.map Token.type = ts.head?.map Token.type := by
    cases hLists with
    | last => rfl
    | cons _ hMore =>
      cases hMore with
      | last hRel => exact congrArg some (P.same hRel).type_eq
      | cons hRel => exact congrArg some (P.same hRel).type_eq
  exact hNext h.lists

theorem got {f g : Stream → Parse β} (h : P.Outcomes dot R (f s s) (g u u)) :
    P.Outcomes dot R (((get : Parse Stream) >>= f) s) (((get : Parse Stream) >>= g) u) :=
  h

theorem current {f g : Token → Parse β}
    (h : P.Outcomes dot R (f s.current s) (g u.current u)) :
    P.Outcomes dot R ((Parse.current >>= f) s) ((Parse.current >>= g) u) :=
  h

theorem sees {f g : Bool → Parse β} (h : P.Streams after s u) (type : TokenType)
    (hNext : ∀ b, b = decide (s.current.type = type) → P.Outcomes dot R (f b s) (g b u)) :
    P.Outcomes dot R ((Parse.sees type >>= f) s) ((Parse.sees type >>= g) u) := by
  have hSame : P.Outcomes dot R (f (decide (s.current.type = type)) s)
      (g (decide (u.current.type = type)) u) := by
    rw [h.type_eq]
    exact hNext _ rfl
  exact hSame

theorem position {f g : Place → Parse β}
    (h : P.Outcomes dot R (f s.current.startPlace s) (g u.current.startPlace u)) :
    P.Outcomes dot R ((Parse.position >>= f) s) ((Parse.position >>= g) u) :=
  h

theorem spanFrom {start start' : Place} {f g : Span → Parse β}
    (h : P.Outcomes dot R (f ⟨start, s.stop⟩ s) (g ⟨start', u.stop⟩ u)) :
    P.Outcomes dot R ((Parse.spanFrom start >>= f) s) ((Parse.spanFrom start' >>= g) u) :=
  h

theorem rounds {f g : Nat → Parse β} (h : P.Streams after s u)
    (hNext : ∀ n, P.Outcomes dot R (f (n + 1) s) (g (n + 1) u)) :
    P.Outcomes dot R ((Parse.rounds >>= f) s) ((Parse.rounds >>= g) u) := by
  have hSame : P.Outcomes dot R (f (s.upcoming.length + 2) s) (g (u.upcoming.length + 2) u) := by
    rw [h.length_eq]
    exact hNext _
  exact hSame

/-- Only the count of nodes changes. -/
theorem counted {c d : Stream → Census} {f g : Unit → Parse β} (h : P.Streams after s u)
    (hNext : ∀ s u, P.Streams after s u → P.Outcomes dot R (f () s) (g () u)) :
    P.Outcomes dot R
      (((modify fun s => { s with census := c s } : Parse Unit) >>= f) s)
      (((modify fun s => { s with census := d s } : Parse Unit) >>= g) u) :=
  hNext _ _ (h.census _ _)

theorem slotted {e e' : Expr} {f g : Expr → Parse β} (h : P.Streams after s u)
    (hNext : ∀ s u, P.Streams after s u → P.Outcomes dot R (f e s) (g e' u)) :
    P.Outcomes dot R ((Parse.inSlot e >>= f) s) ((Parse.inSlot e' >>= g) u) :=
  hNext _ _ (h.census _ _)

theorem inSlot {e e' : Expr} {Q : Expr → Expr → Stream → Prop} (h : P.Streams false s u)
    (hQ : Q e e' { s with census := s.census.addSlot }) :
    P.Outcomes false Q (Parse.inSlot e s) (Parse.inSlot e' u) :=
  .ok hQ (h.census _ _)

theorem nameAt {n n' : Bytes} {Q : Ident → Ident → Stream → Prop} (h : P.Streams dot s u)
    (hQ : Q ⟨t.span, n⟩ ⟨v.span, n'⟩ { s with census := s.census.addName }) :
    P.Outcomes dot Q (Parse.nameAt t n s) (Parse.nameAt v n' u) :=
  .ok hQ (h.census _ _)

theorem literalAt {Q : Expr → Expr → Stream → Prop} (h : P.Streams dot s u)
    (hQ : Q (.literal ⟨t.span, t.literal, t.literalValue⟩)
      (.literal ⟨v.span, v.literal, v.literalValue⟩)
      { s with census := s.census.addLiteral }) :
    P.Outcomes dot Q (Parse.literalAt t s) (Parse.literalAt v u) :=
  .ok hQ (h.census _ _)

/-! ### Failing -/

theorem failAt {given : Bool} {message : Bytes} (h : P.Streams dot s u)
    (hRel : P.rel given t v) :
    P.Outcomes after Q (Parse.failAt t message s) (Parse.failAt v message u) := by
  have hSame := P.same hRel
  refine .error (.located hRel ?_ ?_)
  · show Location.mk t.line t.column t.start t.stop s.source = _
    rw [h.left]
    rfl
  · show Diagnostic.syntactic ⟨v.line, v.column, v.start, v.stop, u.source⟩ message v.describe = _
    rw [h.right, Token.describe, hSame.type_eq, hSame.literal_eq, hSame.value_eq]
    rfl

/-- A check that fails at a token when its condition holds. -/
theorem check {given : Bool} {message message' : Bytes} {c c' : Prop} [Decidable c] [Decidable c']
    {f g : Unit → Parse β} (h : P.Streams dot s u) (hRel : P.rel given t v)
    (hSame : (c' ↔ c) ∧ message' = message)
    (hNext : ¬c → P.Outcomes after R (f () s) (g () u)) :
    P.Outcomes after R ((if c then Parse.failAt t message >>= f else f ()) s)
      ((if c' then Parse.failAt v message' >>= g else g ()) u) := by
  obtain ⟨hIff, rfl⟩ := hSame
  by_cases hc : c
  · rw [if_pos hc, if_pos (hIff.mpr hc)]
    have hFail : P.Outcomes false (fun _ _ _ => False) ((Parse.failAt t message' : Parse Unit) s)
      (Parse.failAt v message' u) := h.failAt hRel
    exact .bind hFail fun _ _ _ _ hNever _ => hNever.elim
  · rw [if_neg hc, if_neg fun hc' => hc (hIff.mp hc')]
    exact hNext hc

theorem unexpected (h : P.Streams dot s u) (wanted : Bytes) :
    P.Outcomes after Q (Parse.unexpected wanted s) (Parse.unexpected wanted u) := by
  have hSame := P.same h.rel
  refine .error (.located h.rel ?_ ?_)
  · show Location.mk _ _ _ _ s.source = _
    rw [h.left]
    rfl
  · show Diagnostic.unexpected ⟨_, _, _, _, u.source⟩ wanted u.current.describe = _
    rw [h.right, Token.describe, hSame.type_eq, hSame.literal_eq, hSame.value_eq]
    rfl

/-! ### Reading tokens -/

/-- The values are the current tokens. -/
def Read (P : Pairing) (dot : Bool) (type : TokenType) (t v : Token) (_ : Stream) : Prop :=
  P.rel dot t v ∧ t.type = type

/-- A token that is not the last one is read, and what comes next may stand after a dot. -/
theorem advance_next (h : P.Streams dot s u) (hMore : s.upcoming ≠ []) :
    P.Outcomes (s.current.type = .punctuator .dot) (Read P dot s.current.type)
      (Parse.advance s) (Parse.advance u) := by
  obtain ⟨t, ts, failure, stop, source, census⟩ := s
  obtain ⟨v, vs, failure', stop', source', census'⟩ := u
  obtain rfl : failure = P.leftFailure := h.leftFailure
  obtain rfl : failure' = P.rightFailure := h.rightFailure
  have hLists : P.Lists dot (t :: ts) (v :: vs) := h.lists
  cases hLists with
  | last => exact absurd rfl hMore
  | @cons _ _ _ ts vs hRel hRest =>
    have hGo {next next' : Token} {rest rest' : List Token}
        (hNext : P.Lists (t.type = .punctuator .dot) (next :: rest) (next' :: rest'))
        (hUnread : P.leftFailure.isSome = true → rest ≠ []) :
        P.Outcomes (t.type = .punctuator .dot) (Read P dot t.type)
          (.ok t ⟨next, rest, P.leftFailure, t.stopPlace, source, census⟩)
          (.ok v ⟨next', rest', P.rightFailure, v.stopPlace, source', census'⟩) :=
      .ok ⟨hRel, rfl⟩ ⟨hNext, rfl, rfl, h.left, h.right, hUnread⟩
    cases hRest with
    | @last _ next next' hNext hEnd =>
      -- The token before a lexical error cannot become the current one.
      have hFails := P.fails
      unfold Parse.advance
      cases hLeft : P.leftFailure with
      | none =>
        rw [hLeft] at hFails hGo
        have hRight : P.rightFailure = none := by simpa using hFails
        rw [hRight] at hGo ⊢
        exact hGo (.last hNext hEnd) nofun
      | some d =>
        rw [hLeft] at hFails
        obtain ⟨e, hRight⟩ := Option.isSome_iff_exists.mp hFails.symm
        rw [hRight]
        exact .error (.failed hLeft hRight)
    | cons hNext hRest =>
      cases hRest with
      | last hAfter hEnd => exact hGo (.cons hNext (.last hAfter hEnd)) (by simp)
      | cons hAfter hRest => exact hGo (.cons hNext (.cons hAfter hRest)) (by simp)

/-- Any token is read that is no dot and comes after none. -/
theorem advance (h : P.Streams false s u) (hType : s.current.type ≠ .punctuator .dot) :
    P.Outcomes false (Read P false s.current.type) (Parse.advance s) (Parse.advance u) := by
  by_cases hMore : s.upcoming = []
  case neg =>
    have hOutcomes := h.advance_next hMore
    rwa [decide_eq_false hType] at hOutcomes
  have hLength := h.length_eq
  rw [hMore, List.length_nil, List.length_eq_zero_iff] at hLength
  have hLists := h.lists
  obtain ⟨t, ts, failure, stop, source, census⟩ := s
  obtain ⟨v, vs, failure', stop', source', census'⟩ := u
  obtain rfl : ts = [] := hMore
  obtain rfl : vs = [] := hLength
  exact .ok ⟨h.rel, rfl⟩ ⟨hLists, h.leftFailure, h.rightFailure, h.left, h.right, h.unread⟩

/-- What is not the end of input is not the last token. -/
theorem upcoming_ne_nil (h : P.Streams dot s u) (hType : s.current.type ≠ .endOfInput) :
    s.upcoming ≠ [] := by
  intro hNil
  have hLast {t : Token} {ts : List Token} (hLists : P.Lists dot [t] ts)
      (hFailure : P.leftFailure = none) : t.type = .endOfInput := by
    cases hLists with
    | last _ hEnd => exact hEnd hFailure
    | cons _ hMore => cases hMore
  have hLists := h.lists
  rw [hNil] at hLists
  refine hType (hLast hLists (Option.not_isSome_iff_eq_none.mp fun hSome => ?_))
  exact h.unread hSome hNil

theorem accept {type : TokenType} (h : P.Streams false s u) (hDot : type ≠ .punctuator .dot) :
    P.Outcomes false (fun b b' s' => b = b' ∧ b = decide (s.current.type = type) ∧
        (b = false → s'.current = s.current))
      (Parse.accept type s) (Parse.accept type u) := by
  refine h.sees type fun b hb => ?_
  cases b with
  | false => exact .pure ⟨rfl, hb, fun _ => rfl⟩ h
  | true =>
    have hType : s.current.type = type := by simpa using hb.symm
    refine .bind (h.advance (hType ▸ hDot)) fun _ _ _ _ _ h => .pure ⟨rfl, hb, nofun⟩ h

theorem expect {type : TokenType} (h : P.Streams false s u) (hDot : type ≠ .punctuator .dot) :
    P.Outcomes false (Read P false type) (Parse.expect type s) (Parse.expect type u) := by
  refine h.sees type fun b hb => ?_
  cases b with
  | false => exact h.unexpected _
  | true =>
    have hType : s.current.type = type := by simpa using hb.symm
    subst hType
    exact h.advance hDot

theorem semicolon (h : P.Streams false s u) :
    P.Outcomes false Equal (Parse.semicolon s) (Parse.semicolon u) := by
  refine .bind (h.accept (by simp)) fun b b' s u hb h => ?_
  obtain ⟨rfl, -⟩ := hb
  cases b with
  | true => exact .pure rfl h
  | false =>
    refine current ?_
    rw [h.type_eq, (P.same h.rel).newlineBefore_eq]
    split
    · exact .pure rfl h
    · exact h.unexpected _

theorem atStatementEnd (h : P.Streams false s u) :
    P.Outcomes false Equal (Parse.atStatementEnd s) (Parse.atStatementEnd u) := by
  refine current ?_
  rw [h.type_eq, (P.same h.rel).newlineBefore_eq]
  exact .pure rfl h

end Streams

/-! ### Rows -/

/-- Values that belong together one by one. -/
def All (R : α → α → Prop) (as bs : List α) (_ : Stream) : Prop := List.Forall₂ R as bs

/-- The same test on both sides, which holds only at some streams. -/
def Test (K : Stream → Prop) (b b' : Bool) (s : Stream) : Prop := b = b' ∧ (b = true → K s)

variable {S : α → α → Prop} {K : Stream → Prop}

theorem Agree.manyIn {isEnd : Parse Bool} {item : Parse α} (hEnd : P.Agree (Test K) isEnd isEnd)
    (hItem : P.Agree (fun a b _ => S a b) item item) (n : Nat) :
    P.Agree (fun as bs s => List.Forall₂ S as bs ∧ K s) (Parse.manyIn isEnd item n)
      (Parse.manyIn isEnd item n) := by
  induction n with
  | zero => exact fun h => h.unexpected _
  | succ n ih =>
    intro s u h
    refine .bind (hEnd h) fun b b' s u hb h => ?_
    obtain ⟨rfl, hK⟩ := hb
    cases b with
    | true => exact .pure ⟨.nil, hK rfl⟩ h
    | false =>
      refine .bind (hItem h) fun a a' s u ha h => ?_
      exact .bind (ih h) fun as bs s u has h => .pure ⟨.cons ha has.1, has.2⟩ h

theorem Agree.many {isEnd : Parse Bool} {item : Parse α} (hEnd : P.Agree (Test K) isEnd isEnd)
    (hItem : P.Agree (fun a b _ => S a b) item item) :
    P.Agree (fun as bs s => List.Forall₂ S as bs ∧ K s) (Parse.many isEnd item)
      (Parse.many isEnd item) :=
  fun h => h.rounds fun n => hEnd.manyIn hItem (n + 1) h

theorem Agree.accept {type : TokenType} (hDot : type ≠ .punctuator .dot) :
    P.Agree (Test fun _ => True) (Parse.accept type) (Parse.accept type) :=
  fun h => (h.accept hDot).mono fun _ _ _ hb => ⟨hb.1, fun _ => trivial⟩

theorem Agree.sees (type : TokenType) :
    P.Agree (Test fun s => s.current.type = type) (Parse.sees type) (Parse.sees type) :=
  fun h => h.sees (f := pure) (g := pure) _ fun _ hb => .pure ⟨rfl, fun hTrue => by
    simpa [hTrue] using hb⟩ h

/-- The values are both missing, or both there and related. -/
def Both (S : α → α → Prop) (a b : Option α) (_ : Stream) : Prop := Option.Rel S a b

theorem Streams.extendIn {step : α → Parse (Option α)}
    (hStep : ∀ a b, S a b → P.Agree (Both S) (step a) (step b)) (n : Nat) {a b : α}
    (hValue : S a b) (h : P.Streams false s u) :
    P.Outcomes false (fun a b _ => S a b) (Parse.extendIn step n a s)
      (Parse.extendIn step n b u) := by
  induction n generalizing a b s u with
  | zero => exact h.unexpected _
  | succ n ih =>
    refine .bind (hStep a b hValue h) fun r r' s u hr h => ?_
    cases hr with
    | none => exact .pure hValue h
    | some hNext => exact ih hNext h

theorem Streams.extend {step : α → Parse (Option α)}
    (hStep : ∀ a b, S a b → P.Agree (Both S) (step a) (step b)) {a b : α} (hValue : S a b)
    (h : P.Streams false s u) :
    P.Outcomes false (fun a b _ => S a b) (Parse.extend step a s) (Parse.extend step b u) :=
  h.rounds fun n => h.extendIn hStep (n + 1) hValue

theorem Agree.commaSeparated {close : TokenType} {item : Parse α}
    (hClose : close ≠ .punctuator .dot) (hItem : P.Agree (fun a b _ => S a b) item item) :
    P.Agree (All S) (Parse.commaSeparated close item) (Parse.commaSeparated close item) := by
  have hNext : P.Agree (fun a b _ => S a b)
      (do let _ ← Parse.expect (.punctuator .comma); item)
      (do let _ ← Parse.expect (.punctuator .comma); item) :=
    fun h => .bind (h.expect (by simp)) fun _ _ _ _ _ h => hItem h
  intro s u h
  refine .bind (h.accept hClose) fun b b' s u hb h => ?_
  obtain rfl : b = b' := hb.1
  cases b with
  | true => exact .pure .nil h
  | false =>
    refine .bind (hItem h) fun a a' s u ha h => ?_
    refine .bind (Agree.many (Agree.accept hClose) hNext h) fun as bs s u has h => ?_
    exact .pure (.cons ha has.1) h

/-- Further items, each after a comma. There is one if a comma comes first. -/
theorem Streams.commaTail {item : Parse α} (h : P.Streams false s u)
    (hItem : P.Agree (fun a b _ => S a b) item item) :
    P.Outcomes false
      (fun as bs _ => List.Forall₂ S as bs ∧ (s.current.type = .punctuator .comma → as ≠ []))
      (Parse.many (return !(← Parse.accept (.punctuator .comma))) item s)
      (Parse.many (return !(← Parse.accept (.punctuator .comma))) item u) := by
  have hEnd : P.Agree (Test fun _ => True) (return !(← Parse.accept (.punctuator .comma)))
      (return !(← Parse.accept (.punctuator .comma))) :=
    fun h => .bind (h.accept (by simp)) fun b b' _ _ hb h =>
      .pure ⟨by rw [hb.1], fun _ => trivial⟩ h
  refine h.rounds fun n => .bind (.bind (h.accept (by simp)) fun b b' s' u' hb h => .pure
    (Q := fun a a' _ => a = a' ∧ a = !decide (s.current.type = .punctuator .comma)) ?_ h) ?_
  · obtain ⟨rfl, rfl, -⟩ := hb
    exact ⟨rfl, rfl⟩
  · intro b b' s' u' hb h
    obtain ⟨rfl, hb⟩ := hb
    cases b with
    | true => exact .pure ⟨.nil, fun hType => by simp [hType] at hb⟩ h
    | false =>
      refine .bind (hItem h) fun a a' s u ha h => ?_
      refine .bind (hEnd.manyIn hItem n h) fun as bs s u has h => ?_
      exact .pure ⟨.cons ha has.1, fun _ => by simp⟩ h

end Pairing

end ScriptOptimizer
