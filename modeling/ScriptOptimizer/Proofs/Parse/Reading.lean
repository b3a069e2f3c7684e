import Mathlib.Data.List.Forall2
import ScriptOptimizer.Parse.Statement
import ScriptOptimizer.Proofs.Token.Spelling

/-!
What rules of the grammar read. A rule reads a list of spellings in front of others when on every
stream that shows them it succeeds and leaves exactly the others. The statements say nothing of
places, so a value that a rule gives is described by a predicate that no place enters.
-/

namespace ScriptOptimizer

/-- The tokens that are still to be read have these spellings, and no lexical error follows. -/
structure Stream.Shows (s : Stream) (ws : List Spelling) : Prop where
  failure : s.failure = none
  spelled : List.Forall₂ Token.Spelled (s.current :: s.upcoming) ws

/-- On every stream that shows `ws` before `rest` the rule gives a good value and leaves `rest`,
which holds at least the end of input. -/
def Reads {α : Type} (p : Parse α) (ws rest : List Spelling) (good : α → Prop) : Prop :=
  rest ≠ [] → ∀ s : Stream, s.Shows (ws ++ rest) → ∃ a s', p s = .ok a s' ∧ good a ∧ s'.Shows rest

namespace Reads

variable {α β : Type} {p : Parse α} {f : α → Parse β} {ws us rest : List Spelling} {w : Spelling}
  {good good' : α → Prop} {goal : β → Prop}

theorem pure {a : α} (h : good a) : Reads (Pure.pure a : Parse α) [] rest good :=
  fun _ s hShows => ⟨a, s, rfl, h, hShows⟩

theorem pure_self (a : α) : Reads (Pure.pure a : Parse α) [] rest (· = a) := pure rfl

theorem bind (h : Reads p ws (us ++ rest) good)
    (hNext : ∀ a, good a → Reads (f a) us rest goal) : Reads (p >>= f) (ws ++ us) rest goal := by
  intro hRest s hShows
  rw [List.append_assoc] at hShows
  obtain ⟨a, s', hRun, hGood, hShows'⟩ := h (by simp [hRest]) s hShows
  obtain ⟨b, s'', hRun', hGoal, hAfter⟩ := hNext a hGood hRest s' hShows'
  refine ⟨b, s'', ?_, hGoal, hAfter⟩
  show EStateM.bind p f s = _
  rw [EStateM.bind, hRun]
  exact hRun'

theorem mono (h : Reads p ws rest good) (hGood : ∀ a, good a → good' a) :
    Reads p ws rest good' := by
  intro hRest s hShows
  obtain ⟨a, s', hRun, ha, hAfter⟩ := h hRest s hShows
  exact ⟨a, s', hRun, hGood a ha, hAfter⟩

/-- What follows begins with some token. -/
theorem of_cons (h : ∀ w more, rest = w :: more → Reads p ws rest good) : Reads p ws rest good := by
  intro hRest
  obtain ⟨w, more, rfl⟩ := List.exists_cons_of_ne_nil hRest
  exact h w more rfl hRest

/-- A step that reads nothing. -/
theorem still (h : Reads p [] (us ++ rest) good)
    (hNext : ∀ a, good a → Reads (f a) us rest goal) : Reads (p >>= f) us rest goal :=
  bind h hNext

/-- A step that reads one token. -/
theorem token (h : Reads p [w] (us ++ rest) good)
    (hNext : ∀ a, good a → Reads (f a) us rest goal) : Reads (p >>= f) (w :: us) rest goal :=
  bind h hNext

/-- A step after which nothing more is read. -/
theorem last (h : Reads p ws rest good)
    (hNext : ∀ a, good a → Reads (f a) [] rest goal) : Reads (p >>= f) ws rest goal := by
  have hBind : Reads (p >>= f) (ws ++ []) rest goal := bind h hNext
  rwa [List.append_nil] at hBind

theorem map {f : α → β} (h : Reads p ws rest good) (hGoal : ∀ a, good a → goal (f a)) :
    Reads (f <$> p) ws rest goal := by
  intro hRest s hShows
  obtain ⟨a, s', hRun, ha, hAfter⟩ := h hRest s hShows
  refine ⟨f a, s', ?_, hGoal a ha, hAfter⟩
  show EStateM.map f p s = _
  rw [EStateM.map, hRun]

/-- A choice between two steps, each with the same steps after it. -/
theorem branch {b : Bool} {q : Parse α}
    (h : Reads ((if b then p else q) >>= f) ws rest goal) :
    Reads (if b then p >>= f else q >>= f) ws rest goal := by
  cases b <;> exact h

end Reads

namespace Parse

variable {rest : List Spelling} {w : Spelling}

/-- Whatever the current token is. -/
theorem current_still : Reads current [] rest fun _ => True :=
  fun _ s hShows => ⟨s.current, s, rfl, trivial, hShows⟩

theorem current_reads : Reads current [] (w :: rest) fun t => t.Spelled w := by
  intro _ s hShows
  obtain ⟨hSpelled, -⟩ := List.forall₂_cons.1 hShows.spelled
  exact ⟨s.current, s, rfl, hSpelled, hShows⟩

theorem sees_reads (type : TokenType) :
    Reads (sees type) [] (w :: rest) (· = decide (w.type = type)) := by
  refine Reads.still current_reads fun t hSpelled => Reads.pure ?_
  rw [hSpelled.type_eq]

theorem position_reads : Reads position [] rest fun _ => True :=
  fun _ s hShows => ⟨_, s, rfl, trivial, hShows⟩

theorem rounds_reads : Reads rounds [] rest (rest.length < ·) := by
  intro _ s hShows
  refine ⟨_, s, rfl, ?_, hShows⟩
  have := hShows.spelled.length_eq
  simp only [List.length_cons, List.nil_append] at this
  omega

theorem spanFrom_reads (start : Place) : Reads (spanFrom start) [] rest fun _ => True :=
  fun _ s hShows => ⟨_, s, rfl, trivial, hShows⟩

theorem modify_reads (f : Census → Census) :
    Reads (modify fun s => { s with census := f s.census } : Parse Unit) [] rest fun _ => True :=
  fun _ s hShows =>
    ⟨(), { s with census := f s.census }, rfl, trivial, hShows.failure, hShows.spelled⟩

theorem inSlot_reads (e : Expr) : Reads (inSlot e) [] rest (· = e) :=
  Reads.still (modify_reads Census.addSlot) fun _ _ => Reads.pure rfl

theorem nameAt_reads (t : Token) (name : Bytes) :
    Reads (nameAt t name) [] rest (· = ⟨t.span, name⟩) :=
  Reads.still (modify_reads Census.addName) fun _ _ => Reads.pure rfl

theorem literalAt_reads (t : Token) :
    Reads (literalAt t) [] rest (· = .literal ⟨t.span, t.literal, t.literalValue⟩) :=
  Reads.still (modify_reads Census.addLiteral) fun _ _ => Reads.pure rfl

theorem advance_reads : Reads advance [w] rest fun t => t.Spelled w := by
  intro hRest s hShows
  obtain ⟨next, rest, rfl⟩ := List.exists_cons_of_ne_nil hRest
  obtain ⟨hSpelled, hMore⟩ := List.forall₂_cons.1 hShows.spelled
  obtain ⟨t, upcoming, hNext, hAfter, hUpcoming⟩ := List.forall₂_cons_right_iff.1 hMore
  refine ⟨s.current, { s with current := t, upcoming, stop := s.current.stopPlace }, ?_, hSpelled,
    hShows.failure, .cons hNext hAfter⟩
  obtain ⟨current, _, failure, stop, source, census⟩ := s
  obtain rfl : failure = none := hShows.failure
  obtain rfl : _ = t :: upcoming := hUpcoming
  cases upcoming <;> rfl

theorem expect_reads {type : TokenType} (h : w.type = type) :
    Reads (expect type) [w] rest fun t => t.Spelled w := by
  refine Reads.still (sees_reads type) fun b hb => ?_
  rw [hb, h, decide_eq_true rfl]
  exact advance_reads

theorem accept_reads {type : TokenType} (h : w.type = type) :
    Reads (accept type) [w] rest (· = true) := by
  refine Reads.still (sees_reads type) fun b hb => ?_
  rw [hb, h, decide_eq_true rfl]
  exact Reads.token advance_reads fun _ _ => Reads.pure rfl

theorem accept_passes {type : TokenType} (h : w.type ≠ type) :
    Reads (accept type) [] (w :: rest) (· = false) := by
  refine Reads.still (sees_reads type) fun b hb => ?_
  rw [hb, decide_eq_false h]
  exact Reads.pure rfl

theorem name_reads {n : Bytes} : Reads name [.name n] rest fun id => id.name = n := by
  refine Reads.still current_reads fun t hSpelled => ?_
  have hType : t.type = .identifier := hSpelled.type_eq
  rw [if_pos hType]
  refine Reads.token advance_reads fun _ _ => (nameAt_reads t t.value).mono ?_
  rintro id rfl
  exact hSpelled.value_eq

/-- Exactly so many rounds of an extension. -/
def extendExactly {α : Type} (step : α → Parse (Option α)) : Nat → α → Parse α
  | 0, a => pure a
  | n + 1, a => do
    let b ← extendExactly step n a
    match ← step b with
    | some c => return c
    | none => unexpected []

theorem bind_ok {α β : Type} {p : Parse α} {f : α → Parse β} {b : β} {s s'' : Stream}
    (h : (p >>= f) s = .ok b s'') : ∃ a s', p s = .ok a s' ∧ f a s' = .ok b s'' := by
  replace h : EStateM.bind p f s = .ok b s'' := h
  unfold EStateM.bind at h
  split at h
  · exact ⟨_, _, ‹_›, h⟩
  · cases h

theorem bind_run {α β : Type} {p : Parse α} {f : α → Parse β} {a : α} {s s' : Stream}
    (h : p s = .ok a s') : (p >>= f) s = f a s' := by
  show EStateM.bind p f s = _
  rw [EStateM.bind, h]

/-- Rounds that were run exactly are the first rounds of an extension. -/
theorem extendIn_exactly {α : Type} {step : α → Parse (Option α)} {a b : α} {s s' : Stream}
    (n m : Nat) (h : extendExactly step n a s = .ok b s') :
    extendIn step (n + m) a s = extendIn step m b s' := by
  induction n generalizing m b s' with
  | zero =>
    cases h
    rw [Nat.zero_add]
  | succ n ih =>
    obtain ⟨c, t, hExactly, h⟩ := bind_ok h
    obtain ⟨r, t', hStep, h⟩ := bind_ok h
    cases r with
    | none => cases h
    | some d =>
      cases h
      rw [Nat.add_assoc, ih (1 + m) hExactly, Nat.add_comm 1, extendIn, bind_run hStep]

theorem semicolon_reads : Reads semicolon [.mark .semicolon] rest fun _ => True := by
  refine Reads.token (accept_reads rfl) fun b hb => ?_
  subst hb
  exact Reads.pure trivial

end Parse

/-- The spellings are those of items in a row and of what ends the row. -/
inductive Repeats {α ι : Type} (isEnd : Parse Bool) (item : Parse α) (good : α → ι → Prop) :
    List Spelling → List Spelling → List ι → Prop
  | done {close rest : List Spelling} :
      Reads isEnd close rest (· = true) → Repeats isEnd item good close rest []
  | more {gap first ws rest : List Spelling} {x : ι} {xs : List ι} :
      Reads isEnd gap (first ++ (ws ++ rest)) (· = false) → first ≠ [] →
      Reads item first (ws ++ rest) (good · x) → Repeats isEnd item good ws rest xs →
      Repeats isEnd item good (gap ++ (first ++ ws)) rest (x :: xs)

namespace Repeats

variable {α ι : Type} {isEnd : Parse Bool} {item : Parse α} {good : α → ι → Prop}
  {ws rest : List Spelling} {xs : List ι}

theorem manyIn (h : Repeats isEnd item good ws rest xs) {n : Nat} (hn : ws.length < n) :
    Reads (Parse.manyIn isEnd item n) ws rest fun as => List.Forall₂ good as xs := by
  induction h generalizing n with
  | done hEnd =>
    obtain ⟨n, rfl⟩ := Nat.exists_eq_add_of_lt hn
    refine Reads.last hEnd fun b hb => ?_
    subst hb
    exact Reads.pure .nil
  | @more gap first ws rest x xs hGo hne hItem _ ih =>
    obtain ⟨m, rfl⟩ := Nat.exists_eq_add_of_lt hn
    have := List.length_pos_iff.2 hne
    refine Reads.bind (by rwa [List.append_assoc]) fun b hb => ?_
    subst hb
    refine Reads.bind hItem fun a ha => Reads.last (ih ?_) fun as has => Reads.pure (.cons ha has)
    simp only [List.length_append]
    omega

/-- A repetition has enough rounds for every token that it reads. -/
theorem many (h : Repeats isEnd item good ws rest xs) :
    Reads (Parse.many isEnd item) ws rest fun as => List.Forall₂ good as xs := by
  intro hRest s hShows
  refine h.manyIn (n := s.upcoming.length + 2) ?_ hRest s hShows
  have := hShows.spelled.length_eq
  simp only [List.length_cons, List.length_append] at this
  omega

end Repeats

/-- A head and some rounds of an extension read the spellings; every round takes one at least. -/
def Extends {α : Type} (head : Parse α) (step : α → Parse (Option α)) (ws rest : List Spelling)
    (good : α → Prop) : Prop :=
  ∃ front back rounds middle, ws = front ++ back ∧ rounds ≤ back.length ∧
    Reads head front (back ++ rest) middle ∧
    ∀ a, middle a → Reads (Parse.extendExactly step rounds a) back rest good

namespace Extends

variable {α : Type} {head : Parse α} {step : α → Parse (Option α)}
  {ws us rest : List Spelling} {good good' : α → Prop}

/-- No round at all. -/
theorem of_reads (h : Reads head ws rest good) : Extends head step ws rest good :=
  ⟨ws, [], 0, good, by simp, Nat.le_refl _, by simpa using h, fun a ha => Reads.pure ha⟩

/-- One more round. -/
theorem round (h : Extends head step ws (us ++ rest) good) (hne : us ≠ [])
    (hStep : ∀ a, good a → Reads (step a) us rest fun r => ∃ b, r = some b ∧ good' b) :
    Extends head step (ws ++ us) rest good' := by
  obtain ⟨front, back, rounds, middle, rfl, hRounds, hHead, hTail⟩ := h
  refine ⟨front, back ++ us, rounds + 1, middle, by simp, ?_, by simpa using hHead, ?_⟩
  · have := List.length_pos_iff.2 hne
    simp only [List.length_append]
    omega
  · intro a ha
    refine Reads.bind (hTail a ha) fun b hb => Reads.last (hStep b hb) ?_
    rintro r ⟨c, rfl, hc⟩
    exact Reads.pure hc

/-- The rounds come to an end where the step does not apply. -/
theorem close (h : Extends head step ws rest good)
    (hStop : ∀ a, good a → Reads (step a) [] rest (· = none)) :
    Reads (do let a ← head; Parse.extend step a) ws rest good := by
  obtain ⟨front, back, rounds, middle, rfl, hRounds, hHead, hTail⟩ := h
  refine Reads.bind hHead fun a ha => ?_
  intro hRest s hShows
  obtain ⟨b, s', hExactly, hb, hShows'⟩ := hTail a ha hRest s hShows
  obtain ⟨r, s'', hStep, rfl, hShows''⟩ := hStop b hb hRest s' hShows'
  refine ⟨b, s'', ?_, hb, hShows''⟩
  -- The stream shows a token for each of the rounds.
  obtain ⟨left, hLeft⟩ : ∃ left, s.upcoming.length + 2 = rounds + (left + 1) := by
    have := hShows.spelled.length_eq
    simp only [List.length_cons, List.length_append] at this
    exact ⟨s.upcoming.length + 1 - rounds, by omega⟩
  show Parse.extendIn step (s.upcoming.length + 2) a s = _
  rw [hLeft, Parse.extendIn_exactly rounds (left + 1) hExactly, Parse.extendIn,
    Parse.bind_run hStep]
  rfl

end Extends

end ScriptOptimizer
