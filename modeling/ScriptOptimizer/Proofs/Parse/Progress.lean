import ScriptOptimizer.Parse.Statement

/-!
How far a rule of the grammar reads. Every rule takes at least one token or fails, and it never
looks past the end of input, so neither the bound on the rounds of a loop nor the nesting of the
rules is ever reached. Two grammars are run side by side, one of them on a stream with more tokens
behind its end: where they agree on fewer tokens, their rules do the same.
-/

namespace ScriptOptimizer

namespace Stream

/-- The tokens after the current one. -/
abbrev left (s : Stream) : Nat := s.upcoming.length

/-- The stream ends as those of a text do: the end of input is the last token, or there is none and
a lexical error comes after a token that is not yet the current one. -/
structure Closed (s : Stream) : Prop where
  last : s.failure = none → ∀ t ∈ (s.current :: s.upcoming).getLast?, t.type = .endOfInput
  unread : s.failure.isSome = true → s.upcoming ≠ []
  endless : s.failure.isSome = true → ∀ t ∈ s.current :: s.upcoming, t.type ≠ .endOfInput

variable {s : Stream}

theorem Closed.upcoming_ne_nil (h : s.Closed) (hType : s.current.type ≠ .endOfInput) :
    s.upcoming ≠ [] := by
  intro hNil
  cases hFailure : s.failure with
  | none => exact hType (h.last hFailure s.current (by simp [hNil]))
  | some d => exact h.unread (by simp [hFailure]) hNil

/-- One token further on. -/
theorem Closed.next {c next : Token} {rest : List Token} {failure : Option Diagnostic}
    {stop stop' : Place} {source : Option Source} {census : Census}
    (h : (Stream.mk c (next :: rest) failure stop source census).Closed)
    (hUnread : failure.isSome = true → rest ≠ []) :
    (Stream.mk next rest failure stop' source census).Closed where
  last hNone t ht := h.last hNone t (by rwa [List.getLast?_cons_cons])
  unread := hUnread
  endless hSome t ht := h.endless hSome t (List.mem_cons_of_mem _ ht)

end Stream

/-- What stands behind the tokens of a text: more tokens than the lexer gives, and another lexical
error than it reports. Nothing stands behind a lexical error. -/
structure Ending where
  failure : Option Diagnostic
  tail : List Token
  after : Option Diagnostic
  fits : tail = [] ∧ after = failure ∨ tail ≠ [] ∧ failure = none

namespace Ending

/-- Nothing more than the lexer gives. -/
def plain (failure : Option Diagnostic) : Ending := ⟨failure, [], failure, .inl ⟨rfl, rfl⟩⟩

variable (E : Ending)

/-- The stream with more behind its end. -/
def beyond (s : Stream) : Stream :=
  { s with upcoming := s.upcoming ++ E.tail, failure := E.after }

/-- The stream is one whose end is known. -/
structure Ends (s : Stream) : Prop extends s.Closed where
  failure : s.failure = E.failure

/-- The error is the lexical one, or one of the grammar. -/
def Faults (d : Diagnostic) : Prop := E.failure = some d ∨ d.kind = .syntactic

/-- Both runs come out the same, and what was behind the end of the stream still is. -/
inductive Outcomes {α : Type} (Q : α → Stream → Prop) :
    EStateM.Result Diagnostic Stream α → EStateM.Result Diagnostic Stream α → Prop
  | ok {a : α} {s : Stream} : E.Ends s → Q a s → Outcomes Q (.ok a s) (.ok a (E.beyond s))
  | error {d : Diagnostic} {s : Stream} : E.Faults d →
      Outcomes Q (.error d s) (.error d (E.beyond s))

/-- Fewer than `n` tokens are left after the current one. -/
def Below {α : Type} (n : Nat) (_ : α) (s : Stream) : Prop := s.left < n

/-- On streams with fewer than `k` tokens after the current one, the first rule does the same as the
second with more behind the end, and takes at least one token unless it fails. -/
def Takes {α : Type} (k : Nat) (p q : Parse α) : Prop :=
  ∀ s, E.Ends s → s.left < k → E.Outcomes (Below s.left) (p s) (q (E.beyond s))

/-- As `Takes`, but the rule may take nothing. -/
def Keeps {α : Type} (k : Nat) (p q : Parse α) : Prop :=
  ∀ s, E.Ends s → s.left < k → E.Outcomes (Below (s.left + 1)) (p s) (q (E.beyond s))

variable {E} {α β : Type} {k j : Nat} {s t : Stream} {p q : Parse α} {f g : α → Parse β}
  {Q Q' : α → Stream → Prop} {R : β → Stream → Prop}

/-! ### Outcomes -/

namespace Outcomes

theorem pure {a : α} (h : E.Ends s) (hQ : Q a s) :
    E.Outcomes Q ((Pure.pure a : Parse α) s) ((Pure.pure a : Parse α) (E.beyond s)) :=
  .ok h hQ

theorem mono {x y : EStateM.Result Diagnostic Stream α} (h : E.Outcomes Q x y)
    (hMono : ∀ a t, Q a t → Q' a t) : E.Outcomes Q' x y := by
  cases h with
  | ok hEnds hQ => exact .ok hEnds (hMono _ _ hQ)
  | error hFaults => exact .error hFaults

theorem below {x y : EStateM.Result Diagnostic Stream α} {m n : Nat}
    (h : E.Outcomes (Below m) x y) (hLe : m ≤ n) : E.Outcomes (Below n) x y :=
  h.mono fun _ _ hLt => Nat.lt_of_lt_of_le hLt hLe

theorem bind (h : E.Outcomes Q (p s) (q (E.beyond s)))
    (hNext : ∀ a t, E.Ends t → Q a t → E.Outcomes R (f a t) (g a (E.beyond t))) :
    E.Outcomes R ((p >>= f) s) ((q >>= g) (E.beyond s)) := by
  show E.Outcomes R (EStateM.bind p f s) (EStateM.bind q g (E.beyond s))
  unfold EStateM.bind
  revert h
  generalize p s = x
  generalize q (E.beyond s) = y
  rintro (⟨hEnds, hQ⟩ | ⟨hFaults⟩)
  · exact hNext _ _ hEnds hQ
  · exact .error hFaults

theorem map {f : α → β} (h : E.Outcomes (Below k) (p s) (q (E.beyond s))) :
    E.Outcomes (Below k) ((f <$> p) s) ((f <$> q) (E.beyond s)) := by
  show E.Outcomes _ (EStateM.map f p s) (EStateM.map f q (E.beyond s))
  unfold EStateM.map
  revert h
  generalize p s = x
  generalize q (E.beyond s) = y
  rintro (⟨hEnds, hQ⟩ | ⟨hFaults⟩)
  · exact .ok hEnds hQ
  · exact .error hFaults

theorem unexpected (wanted : Bytes) :
    E.Outcomes Q (Parse.unexpected wanted s) (Parse.unexpected wanted (E.beyond s)) :=
  .error (.inr rfl)

theorem failAt (t : Token) (message : Bytes) :
    E.Outcomes Q (Parse.failAt t message s) (Parse.failAt t message (E.beyond s)) :=
  .error (.inr rfl)

/-- Nothing comes after a failure. -/
theorem failed {t : Token} {message : Bytes} :
    E.Outcomes R ((Parse.failAt t message >>= f) s)
      ((Parse.failAt t message >>= g) (E.beyond s)) :=
  bind (Q := fun _ _ => False) (failAt t message) fun _ _ _ hNever => hNever.elim

/-- A check that fails when its condition holds. -/
theorem check {c : Prop} [Decidable c] {t : Token} {message : Bytes} {f g : Unit → Parse β}
    (h : E.Outcomes R (f () s) (g () (E.beyond s))) :
    E.Outcomes R ((if c then Parse.failAt t message >>= f else f ()) s)
      ((if c then Parse.failAt t message >>= g else g ()) (E.beyond s)) := by
  split
  · exact failed
  · exact h

theorem current {f g : Token → Parse β}
    (h : E.Outcomes R (f s.current s) (g s.current (E.beyond s))) :
    E.Outcomes R ((Parse.current >>= f) s) ((Parse.current >>= g) (E.beyond s)) := h

theorem got {f g : Stream → Parse β} (h : E.Outcomes R (f s s) (g (E.beyond s) (E.beyond s))) :
    E.Outcomes R ((get >>= f) s) ((get >>= g) (E.beyond s)) := h

theorem position {f g : Place → Parse β}
    (h : ∀ start, E.Outcomes R (f start s) (g start (E.beyond s))) :
    E.Outcomes R ((Parse.position >>= f) s) ((Parse.position >>= g) (E.beyond s)) := h _

theorem spanFrom {start : Place} {f g : Span → Parse β}
    (h : ∀ span, E.Outcomes R (f span s) (g span (E.beyond s))) :
    E.Outcomes R ((Parse.spanFrom start >>= f) s) ((Parse.spanFrom start >>= g) (E.beyond s)) :=
  h _

theorem sees {type : TokenType} {f g : Bool → Parse β}
    (h : ∀ b, b = decide (s.current.type = type) → E.Outcomes R (f b s) (g b (E.beyond s))) :
    E.Outcomes R ((Parse.sees type >>= f) s) ((Parse.sees type >>= g) (E.beyond s)) := h _ rfl

/-- The bounds of a loop are beyond the number of tokens. -/
theorem rounds {f g : Nat → Parse β}
    (h : ∀ n m, s.left < n → s.left < m → E.Outcomes R (f n s) (g m (E.beyond s))) :
    E.Outcomes R ((Parse.rounds >>= f) s) ((Parse.rounds >>= g) (E.beyond s)) := by
  refine h (s.upcoming.length + 2) ((E.beyond s).upcoming.length + 2) ?_ ?_
  · exact Nat.lt_add_of_pos_right Nat.two_pos
  · rw [beyond, List.length_append, Stream.left]
    omega

end Outcomes

/-! ### Rules one after another -/

namespace Keeps

theorem mono (h : E.Keeps k p q) (hLe : j ≤ k) : E.Keeps j p q :=
  fun s hs hLeft => h s hs (Nat.lt_of_lt_of_le hLeft hLe)

theorem pure (a : α) : E.Keeps k (Pure.pure a) (Pure.pure a) :=
  fun s h _ => .pure h (Nat.lt_succ_self s.left)

theorem unexpected (wanted : Bytes) :
    E.Keeps k (Parse.unexpected wanted : Parse α) (Parse.unexpected wanted) :=
  fun _ _ _ => .unexpected wanted

theorem failAt (t : Token) (message : Bytes) :
    E.Keeps k (Parse.failAt t message : Parse α) (Parse.failAt t message) :=
  fun _ _ _ => .failAt t message

theorem bind (h : E.Keeps k p q) (hNext : ∀ a, E.Keeps k (f a) (g a)) :
    E.Keeps k (p >>= f) (q >>= g) := by
  refine fun s hs hLeft => .bind (h s hs hLeft) fun a t ht hLe => ?_
  have hLe : t.left < s.left + 1 := hLe
  exact (hNext a t ht (by omega)).below (by omega)

theorem map {f : α → β} (h : E.Keeps k p q) : E.Keeps k (f <$> p) (f <$> q) :=
  fun s hs hLeft => (h s hs hLeft).map

theorem check {c : Prop} [Decidable c] {t : Token} {message : Bytes} {f g : Unit → Parse β}
    (h : E.Keeps k (f ()) (g ())) :
    E.Keeps k (if c then Parse.failAt t message >>= f else f ())
      (if c then Parse.failAt t message >>= g else g ()) := by
  split
  · exact fun _ _ _ => .failed
  · exact h

/-- A choice between two steps, each with the same steps after it. -/
theorem branch {b : Bool} {p' q' : Parse α} (hThen : E.Keeps k p q) (hElse : E.Keeps k p' q')
    (hNext : ∀ a, E.Keeps k (f a) (g a)) :
    E.Keeps k (if b then p >>= f else p' >>= f) (if b then q >>= g else q' >>= g) := by
  cases b with
  | true => exact hThen.bind hNext
  | false => exact hElse.bind hNext

theorem current {f g : Token → Parse β} (h : ∀ t, E.Keeps k (f t) (g t)) :
    E.Keeps k (Parse.current >>= f) (Parse.current >>= g) :=
  fun s hs hLeft => h s.current s hs hLeft

theorem position {f g : Place → Parse β} (h : ∀ start, E.Keeps k (f start) (g start)) :
    E.Keeps k (Parse.position >>= f) (Parse.position >>= g) :=
  fun s hs hLeft => h _ s hs hLeft

theorem spanFrom {start : Place} {f g : Span → Parse β} (h : ∀ span, E.Keeps k (f span) (g span)) :
    E.Keeps k (Parse.spanFrom start >>= f) (Parse.spanFrom start >>= g) :=
  fun s hs hLeft => h _ s hs hLeft

theorem sees {type : TokenType} {f g : Bool → Parse β} (h : ∀ b, E.Keeps k (f b) (g b)) :
    E.Keeps k (Parse.sees type >>= f) (Parse.sees type >>= g) :=
  fun s hs hLeft => h _ s hs hLeft

/-- Only the count of nodes changes. -/
theorem counted {c : Stream → Census} {f g : Unit → Parse β}
    (hCount : ∀ s, c (E.beyond s) = c s) (h : E.Keeps k (f ()) (g ())) :
    E.Keeps k ((modify fun s => { s with census := c s } : Parse Unit) >>= f)
      ((modify fun s => { s with census := c s } : Parse Unit) >>= g) := by
  intro s hs hLeft
  have hNext := h { s with census := c s } ⟨⟨hs.last, hs.unread, hs.endless⟩, hs.failure⟩ hLeft
  rw [show E.beyond { s with census := c s } = { E.beyond s with census := c (E.beyond s) } by
    rw [hCount]
    rfl] at hNext
  exact hNext

theorem inSlot (e : Expr) : E.Keeps k (Parse.inSlot e) (Parse.inSlot e) :=
  counted (fun _ => rfl) (pure e)

theorem nameAt (t : Token) (name : Bytes) : E.Keeps k (Parse.nameAt t name) (Parse.nameAt t name) :=
  counted (fun _ => rfl) (pure _)

theorem literalAt (t : Token) : E.Keeps k (Parse.literalAt t) (Parse.literalAt t) :=
  counted (fun _ => rfl) (pure _)

end Keeps

namespace Takes

theorem keeps (h : E.Takes k p q) : E.Keeps k p q :=
  fun s hs hLeft => (h s hs hLeft).below (Nat.le_succ _)

theorem mono (h : E.Takes k p q) (hLe : j ≤ k) : E.Takes j p q :=
  fun s hs hLeft => h s hs (Nat.lt_of_lt_of_le hLeft hLe)

theorem unexpected (wanted : Bytes) :
    E.Takes k (Parse.unexpected wanted : Parse α) (Parse.unexpected wanted) :=
  fun _ _ _ => .unexpected wanted

/-- After a token there are fewer. -/
theorem bind (h : E.Takes k p q) (hNext : ∀ a, E.Keeps (k - 1) (f a) (g a)) :
    E.Takes k (p >>= f) (q >>= g) := by
  refine fun s hs hLeft => .bind (h s hs hLeft) fun a t ht hLt => ?_
  have hLt : t.left < s.left := hLt
  exact (hNext a t ht (by omega)).below (by omega)

theorem after (h : E.Keeps k p q) (hNext : ∀ a, E.Takes k (f a) (g a)) :
    E.Takes k (p >>= f) (q >>= g) := by
  refine fun s hs hLeft => .bind (h s hs hLeft) fun a t ht hLe => ?_
  have hLe : t.left < s.left + 1 := hLe
  exact (hNext a t ht (by omega)).below (by omega)

theorem map {f : α → β} (h : E.Takes k p q) : E.Takes k (f <$> p) (f <$> q) :=
  fun s hs hLeft => (h s hs hLeft).map

theorem branch {b : Bool} {p' q' : Parse α} (hThen : E.Takes k p q) (hElse : E.Takes k p' q')
    (hNext : ∀ a, E.Keeps (k - 1) (f a) (g a)) :
    E.Takes k (if b then p >>= f else p' >>= f) (if b then q >>= g else q' >>= g) := by
  cases b with
  | true => exact hThen.bind hNext
  | false => exact hElse.bind hNext

theorem current {f g : Token → Parse β} (h : ∀ t, E.Takes k (f t) (g t)) :
    E.Takes k (Parse.current >>= f) (Parse.current >>= g) :=
  fun s hs hLeft => h s.current s hs hLeft

theorem position {f g : Place → Parse β} (h : ∀ start, E.Takes k (f start) (g start)) :
    E.Takes k (Parse.position >>= f) (Parse.position >>= g) :=
  fun s hs hLeft => h _ s hs hLeft

theorem sees {type : TokenType} {f g : Bool → Parse β} (h : ∀ b, E.Takes k (f b) (g b)) :
    E.Takes k (Parse.sees type >>= f) (Parse.sees type >>= g) :=
  fun s hs hLeft => h _ s hs hLeft

end Takes

/-! ### Reading tokens -/

/-- Any token but the end of input is taken. -/
theorem Ends.advance (h : E.Ends s) (hType : s.current.type ≠ .endOfInput) :
    E.Outcomes (Below s.left) (Parse.advance s) (Parse.advance (E.beyond s)) := by
  have hMore := h.upcoming_ne_nil hType
  have hFits := E.fits
  obtain ⟨c, upcoming, failure, stop, source, census⟩ := s
  obtain rfl : failure = E.failure := h.failure
  cases upcoming with
  | nil => exact absurd rfl hMore
  | cons next rest =>
    -- The token is taken on both sides unless the lexical error is next.
    have hGo (hUnread : E.failure.isSome = true → rest ≠ []) (hTail : rest ++ E.tail ≠ [] ∨
        E.after = none) :
        E.Outcomes (Below (next :: rest).length)
          (.ok c ⟨next, rest, E.failure, c.stopPlace, source, census⟩)
          (Parse.advance (E.beyond ⟨c, next :: rest, E.failure, stop, source, census⟩)) := by
      have hEnds : E.Ends ⟨next, rest, E.failure, c.stopPlace, source, census⟩ :=
        ⟨h.toClosed.next hUnread, rfl⟩
      have hRun : Parse.advance (E.beyond ⟨c, next :: rest, E.failure, stop, source, census⟩) =
          .ok c (E.beyond ⟨next, rest, E.failure, c.stopPlace, source, census⟩) := by
        unfold Parse.advance beyond
        rcases hTail with hTail | hNone
        · obtain ⟨u, us, hCons⟩ := List.exists_cons_of_ne_nil hTail
          rw [List.cons_append, hCons]
          cases E.after <;> rfl
        · rw [hNone, List.cons_append]
          cases rest ++ E.tail <;> rfl
      rw [hRun]
      exact .ok hEnds (Nat.lt_succ_self rest.length)
    cases hRest : rest with
    | cons u us =>
      subst hRest
      have hRun : Parse.advance ⟨c, next :: u :: us, E.failure, stop, source, census⟩ =
          .ok c ⟨next, u :: us, E.failure, c.stopPlace, source, census⟩ := by
        cases E.failure <;> rfl
      rw [hRun]
      exact hGo (by simp) (.inl (by simp))
    | nil =>
      subst hRest
      cases hFailure : E.failure with
      | none =>
        rw [hFailure] at hGo hFits
        refine hGo (by simp) ?_
        rcases hFits with ⟨-, hAfter⟩ | ⟨hTail, -⟩
        · exact .inr hAfter
        · exact .inl (by simpa using hTail)
      | some d =>
        have hRun : E.beyond ⟨c, [next], some d, stop, source, census⟩ =
            ⟨c, [next], some d, stop, source, census⟩ := by
          rw [hFailure] at hFits
          obtain ⟨hTail, hAfter⟩ := hFits.resolve_right (by simp)
          rw [beyond, hTail, hAfter, List.append_nil]
        rw [hRun]
        have hFaults : E.Faults d := .inl hFailure
        have hError := Outcomes.error (E := E) (Q := Below (α := Token) [next].length)
          (s := ⟨c, [next], some d, stop, source, census⟩) hFaults
        rwa [hRun] at hError

/-- The token after the current one is the same, unless the current one is the end of input. -/
theorem Ends.head?_beyond (h : E.Ends s) (hType : s.current.type ≠ .endOfInput) :
    (E.beyond s).upcoming.head? = s.upcoming.head? := by
  obtain ⟨next, rest, hCons⟩ := List.exists_cons_of_ne_nil (h.upcoming_ne_nil hType)
  rw [beyond, hCons]
  rfl

/-- A token that is known not to be the end of input is taken. -/
theorem Ends.take (h : E.Ends s) (hLeft : s.left < k) (hType : s.current.type ≠ .endOfInput)
    {f g : Token → Parse β} (hNext : ∀ t, E.Keeps (k - 1) (f t) (g t)) :
    E.Outcomes (Below s.left) ((Parse.advance >>= f) s) ((Parse.advance >>= g) (E.beyond s)) := by
  refine .bind (h.advance hType) fun a t ht hLt => ?_
  have hLt : t.left < s.left := hLt
  exact (hNext a t ht (by omega)).below (by omega)

theorem expect_takes {type : TokenType} (hType : type ≠ .endOfInput) :
    E.Takes k (Parse.expect type) (Parse.expect type) := by
  refine fun s h hLeft => .sees fun b hb => ?_
  cases b with
  | false => exact .unexpected _
  | true =>
    have hIs : s.current.type = type := by simpa using hb.symm
    exact h.advance (hIs ▸ hType)

/-- A token is taken if it is of the type. -/
theorem Ends.accept {type : TokenType} (h : E.Ends s) (hType : type ≠ .endOfInput) :
    E.Outcomes (fun b t => t.left ≤ s.left ∧ (b = true → t.left < s.left))
      (Parse.accept type s) (Parse.accept type (E.beyond s)) := by
  refine .sees fun b hb => ?_
  cases b with
  | false => exact .pure h ⟨Nat.le_refl _, nofun⟩
  | true =>
    have hIs : s.current.type = type := by simpa using hb.symm
    refine .bind (h.advance (hIs ▸ hType)) fun _ t ht hLt => ?_
    have hLt : t.left < s.left := hLt
    exact .pure ht ⟨Nat.le_of_lt hLt, fun _ => hLt⟩

theorem accept_keeps {type : TokenType} (hType : type ≠ .endOfInput) :
    E.Keeps k (Parse.accept type) (Parse.accept type) :=
  fun _ h _ => (h.accept hType).mono fun _ _ hLe => Nat.lt_succ_of_le hLe.1

theorem semicolon_keeps : E.Keeps k Parse.semicolon Parse.semicolon := by
  refine (accept_keeps (by simp)).bind fun b => ?_
  cases b with
  | true => exact .pure ()
  | false =>
    refine .current fun t => ?_
    split
    · exact .pure ()
    · exact .unexpected _

theorem atStatementEnd_keeps : E.Keeps k Parse.atStatementEnd Parse.atStatementEnd :=
  .current fun _ => .pure _

theorem name_takes : E.Takes k Parse.name Parse.name := by
  refine fun s h hLeft => .current ?_
  split
  case isTrue hType => exact h.take hLeft (by simp [hType]) fun _ => .nameAt _ _
  case isFalse => exact .unexpected _

/-! ### Loops -/

section

variable {σ : Type} {isEnd : Parse Bool} {K : Stream → Prop}

/-- The test of a loop holds only at some streams. -/
def Tests (K : Stream → Prop) (isEnd isEnd' : Parse Bool) : Prop :=
  ∀ s, E.Ends s → E.Outcomes (fun b t => t.left ≤ s.left ∧ (b = true → K t)) (isEnd s)
    (isEnd' (E.beyond s))

theorem accept_tests {type : TokenType} (hType : type ≠ .endOfInput) :
    Tests (E := E) (fun _ => True) (Parse.accept type) (Parse.accept type) :=
  fun _ h => (h.accept hType).mono fun _ _ hLe => ⟨hLe.1, fun _ => trivial⟩

theorem sees_tests (type : TokenType) :
    Tests (E := E) (fun t => t.current.type = type) (Parse.sees type) (Parse.sees type) :=
  fun s h => .sees (f := Pure.pure) (g := Pure.pure) fun _ hb =>
    .pure h ⟨Nat.le_refl _, fun hTrue => by simpa [hTrue] using hb⟩

theorem noComma_tests :
    Tests (E := E) (fun _ => True) (return !(← Parse.accept (.punctuator .comma)))
      (return !(← Parse.accept (.punctuator .comma))) :=
  fun _ h => .bind (h.accept (by simp)) fun _ _ ht hLe => .pure ht ⟨hLe.1, fun _ => trivial⟩

/-- A loop reads items up to where its test holds, each by a rule that may depend on those before
it, in at most so many rounds. -/
def IsLoop (isEnd : Parse Bool) (item : σ → Parse α) (next : σ → α → σ)
    (loop : Nat → σ → Parse (List α)) : Prop :=
  ∀ n x, loop (n + 1) x = do
    if ← isEnd then return []
    let a ← item x
    return a :: (← loop n (next x a))

theorem isLoop_manyIn (isEnd : Parse Bool) (item : Parse α) :
    IsLoop isEnd (fun _ : Unit => item) (fun _ _ => ()) fun n _ => Parse.manyIn isEnd item n :=
  fun _ _ => rfl

theorem isLoop_casesIn (g : Grammar) (c : Context) :
    IsLoop (Parse.accept (.punctuator .rightBrace)) (g.clause c)
      (fun saw clause => saw || clause.isDefault) (g.casesIn c) :=
  fun _ _ => rfl

/-- Loops whose items agree and take a token come out the same, whatever their bounds are beyond the
number of tokens. -/
theorem IsLoop.outcomes {isEnd' : Parse Bool} {item item' : σ → Parse α} {next : σ → α → σ}
    {loop loop' : Nat → σ → Parse (List α)} (h : IsLoop isEnd item next loop)
    (h' : IsLoop isEnd' item' next loop') (hEnd : Tests (E := E) K isEnd isEnd')
    (hItem : ∀ x, E.Takes k (item x) (item' x)) {n m : Nat} {x : σ} (hs : E.Ends s)
    (hLeft : s.left < k) (hn : s.left < n) (hm : s.left < m) :
    E.Outcomes (fun _ t => t.left ≤ s.left ∧ K t) (loop n x s) (loop' m x (E.beyond s)) := by
  induction n generalizing s m x with
  | zero => exact absurd hn (Nat.not_lt_zero _)
  | succ n ih =>
    obtain ⟨m, rfl⟩ := Nat.exists_eq_succ_of_ne_zero (Nat.ne_zero_of_lt hm)
    rw [h n x, h' m x]
    refine .bind (hEnd s hs) fun b t ht hTest => ?_
    cases b with
    | true => exact .pure ht ⟨hTest.1, hTest.2 rfl⟩
    | false =>
      refine .bind (hItem x t ht (by omega)) fun a u hu hLt => ?_
      have hLt : u.left < t.left := hLt
      have hLe := hTest.1
      refine .bind (ih hu (by omega) (by omega) (by omega)) fun as v hv hRest => ?_
      exact .pure hv ⟨by omega, hRest.2⟩

theorem many_outcomes {isEnd' : Parse Bool} {item item' : Parse α}
    (hEnd : Tests (E := E) K isEnd isEnd') (hItem : E.Takes k item item') (hs : E.Ends s)
    (hLeft : s.left < k) :
    E.Outcomes (fun _ t => t.left ≤ s.left ∧ K t) (Parse.many isEnd item s)
      (Parse.many isEnd' item' (E.beyond s)) :=
  .rounds fun _ _ => (isLoop_manyIn isEnd item).outcomes (x := ()) (isLoop_manyIn isEnd' item') hEnd
    (fun _ => hItem) hs hLeft

theorem many_keeps {isEnd' : Parse Bool} {item item' : Parse α}
    (hEnd : Tests (E := E) K isEnd isEnd') (hItem : E.Takes k item item') :
    E.Keeps k (Parse.many isEnd item) (Parse.many isEnd' item') :=
  fun _ h hLeft => (many_outcomes hEnd hItem h hLeft).mono fun _ _ hLe => Nat.lt_succ_of_le hLe.1

/-- A step applies and takes a token, or it does not apply. -/
def Steps (E : Ending) (k : Nat) (p q : Parse (Option α)) : Prop :=
  ∀ s, E.Ends s → s.left < k →
    E.Outcomes (fun r t => t.left ≤ s.left ∧ (r.isSome = true → t.left < s.left)) (p s)
      (q (E.beyond s))

theorem extend_keeps {step step' : α → Parse (Option α)}
    (hStep : ∀ a, Steps E k (step a) (step' a)) (a : α) :
    E.Keeps k (Parse.extend step a) (Parse.extend step' a) := by
  have hGo (n : Nat) {m : Nat} {a : α} {s : Stream} (h : E.Ends s) (hLeft : s.left < k)
      (hn : s.left < n) (hm : s.left < m) :
      E.Outcomes (Below (s.left + 1)) (Parse.extendIn step n a s)
        (Parse.extendIn step' m a (E.beyond s)) := by
    induction n generalizing m a s with
    | zero => exact absurd hn (Nat.not_lt_zero _)
    | succ n ih =>
      obtain ⟨m, rfl⟩ := Nat.exists_eq_succ_of_ne_zero (Nat.ne_zero_of_lt hm)
      refine .bind (hStep a s h hLeft) fun r t ht hr => ?_
      have hLe := hr.1
      cases r with
      | none => exact .pure ht (Nat.lt_succ_of_le hLe)
      | some b =>
        have hLt := hr.2 rfl
        exact (ih ht (by omega) (by omega) (by omega)).below (by omega)
  exact fun s h hLeft => .rounds fun n _ => hGo n h hLeft

theorem commaSeparated_keeps {close : TokenType} {item item' : Parse α}
    (hClose : close ≠ .endOfInput) (hItem : E.Takes k item item') :
    E.Keeps k (Parse.commaSeparated close item) (Parse.commaSeparated close item') := by
  have hMore : E.Takes k (do let _ ← Parse.expect (.punctuator .comma); item)
      (do let _ ← Parse.expect (.punctuator .comma); item') :=
    (expect_takes (by simp)).bind fun _ => (hItem.mono (Nat.sub_le k 1)).keeps
  refine (accept_keeps hClose).bind fun b => ?_
  cases b with
  | true => exact .pure []
  | false =>
    refine hItem.keeps.bind fun first => ?_
    exact (many_keeps (accept_tests hClose) hMore).bind fun rest => .pure (first :: rest)

theorem withComma_takes {close : TokenType} {item item' : Parse α} {f : α → β}
    (hItem : E.Takes k item item') :
    E.Takes k (Parse.withComma item close f) (Parse.withComma item' close f) := by
  refine hItem.bind fun a => .sees fun b => ?_
  cases b with
  | true => exact .pure (f a)
  | false => exact (expect_takes (by simp)).keeps.bind fun _ => .pure (f a)

theorem element_takes {item item' : Parse Expr} (hItem : E.Takes k item item') :
    E.Takes k (Parse.element item) (Parse.element item') := by
  refine fun s h hLeft => .bind (h.accept (by simp)) fun b t ht hAccept => ?_
  have hLe := hAccept.1
  cases b with
  | true => exact .pure ht (hAccept.2 rfl)
  | false => exact (withComma_takes hItem t ht (by omega)).below hLe

end

end Ending

end ScriptOptimizer
