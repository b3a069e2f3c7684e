import ScriptOptimizer.Proofs.Parse.Total
import ScriptOptimizer.Proofs.Parse.Uncounted

/-!
How operands are grouped. The reader climbs the precedences: its loop takes an operator that binds
tightly enough and leaves the operators that bind tighter to the reading of the right operand. What
comes of it is the tree that is split at the last of the loosest operators, over and over.
-/

namespace ScriptOptimizer

/-- Two operands with an operator between them. -/
def Expr.joined (left : Expr) (operator : Token) (right : Expr) : Expr :=
  if operator.type = .punctuator .andAnd ∨ operator.type = .punctuator .orOr then
    .logical (Span.join left.span right.span) operator.literal (.holds left) (.holds right)
  else .binary (Span.join left.span right.span) operator.literal (.holds left) (.holds right)

/-- A first operand and further ones, each behind an operator, as one tree. A lone operand is the
tree itself. Otherwise the tree is split at the last operator of those that bind loosest, and both
sides are grouped in the same way. -/
inductive Expr.Groups : Expr → List (Token × Expr) → Expr → Prop
  | operand {x : Expr} : Groups x [] x
  | split {x y left right : Expr} {operator : Token} {front back : List (Token × Expr)} :
      (∀ p ∈ front, operator.type.precedence ≤ p.1.type.precedence) →
      (∀ p ∈ back, operator.type.precedence < p.1.type.precedence) →
      Groups x front left → Groups y back right →
      Groups x (front ++ (operator, y) :: back) (left.joined operator right)

/-- The grammar's rule for operands reads each of them, and one operator stands before each. -/
inductive Grammar.Operands (g : Grammar) : Stream → List (Token × Expr) → Stream → Prop
  | nil {t : Stream} : Operands g t [] t
  | cons {s u v t : Stream} {y : Expr} {ops : List (Token × Expr)} :
      s.current.type.precedence ≠ 0 → Parse.advance s = .ok s.current u → g.unary u = .ok y v →
      Operands g v ops t → Operands g s ((s.current, y) :: ops) t

/-- There is one way to group operands. -/
theorem Expr.Groups.unique {x e e' : Expr} {ops : List (Token × Expr)} (h : Groups x ops e)
    (h' : Groups x ops e') : e' = e := by
  induction h generalizing e' with
  | operand =>
    generalize hOps : [] = ops at h'
    cases h' with
    | operand => rfl
    | split => exact absurd hOps (by simp)
  | @split x y left right operator front back hFront hBack hLeft hRight ihLeft ihRight =>
    generalize hOps : front ++ (operator, y) :: back = ops at h'
    cases h' with
    | operand => exact absurd hOps (by simp)
    | @split _ y' left' right' operator' front' back' hFront' hBack' hLeft' hRight' =>
      -- Of two loosest operators one would be before the other, and could not be split at.
      have hSame : front' = front ∧ (operator', y') :: back' = (operator, y) :: back := by
        rcases List.append_eq_append_iff.mp hOps with ⟨more, hMore, hRest⟩ | ⟨more, hMore, hRest⟩
        · cases more with
          | nil => exact ⟨by simpa using hMore, hRest.symm⟩
          | cons p more =>
            obtain ⟨rfl, rfl⟩ := List.cons.inj hRest
            have hLe := hFront' (operator, y) (by simp [hMore])
            have hLt := hBack (operator', y') (by simp)
            exact absurd hLt (Nat.not_lt.mpr hLe)
        · cases more with
          | nil => exact ⟨by simpa using hMore.symm, hRest⟩
          | cons p more =>
            obtain ⟨rfl, rfl⟩ := List.cons.inj hRest
            have hLe := hFront (operator', y') (by simp [hMore])
            have hLt := hBack' (operator, y) (by simp)
            exact absurd hLt (Nat.not_lt.mpr hLe)
      obtain ⟨rfl, hTail⟩ := hSame
      obtain ⟨hHead, rfl⟩ := List.cons.inj hTail
      obtain ⟨rfl, rfl⟩ := Prod.mk.inj hHead
      rw [ihLeft hLeft', ihRight hRight']

theorem Stream.Closed.recounted {s : Stream} (h : s.Closed) (c : Census) : (s.recounted c).Closed :=
  ⟨h.last, h.unread, h.endless⟩

namespace Ending

variable {α : Type} {k : Nat} {s t : Stream} {p q : Parse α} {a : α}

/-- Two rules that agree on the tokens left read the same. -/
theorem Takes.transfer (h : Takes (plain s.failure) k p q) (hs : s.Closed) (hLeft : s.left < k)
    (hRun : p s = .ok a t) : q s = .ok a t ∧ t.Closed ∧ t.left < s.left := by
  have hPlain {t : Stream} (hFailure : t.failure = s.failure) :
      (plain s.failure).beyond t = t := by
    obtain ⟨current, upcoming, failure, stop, source, census⟩ := t
    obtain rfl : failure = s.failure := hFailure
    exact congrArg (Stream.mk current · _ stop source census) (List.append_nil upcoming)
  have hBoth := h s (ends_plain hs) hLeft
  rw [hPlain rfl, hRun] at hBoth
  generalize hOther : q s = r at hBoth
  cases hBoth with
  | ok hEnds hLt => exact ⟨by rw [hPlain hEnds.failure], hEnds.toClosed, hLt⟩

/-- Rules that are nested deeply enough agree. -/
theorem Agrees.nested_deep (E : Ending) {n m : Nat} (hn : k ≤ n) (hm : k ≤ m) :
    E.Agrees k (Grammar.nested n) (Grammar.nested m) := by
  have hOver {n : Nat} (hn : k ≤ n) :
      Grammar.nested n = (Grammar.nested (n - k)).nestedOver k := by
    rw [Grammar.nested_eq_nestedOver (n - k), ← Grammar.nestedOver_add, Nat.sub_add_cancel hn,
      Grammar.nested_eq_nestedOver]
  rw [hOver hn, hOver hm]
  exact .nestedOver _ _ k

end Ending

namespace Parse

/-- A loop without a bound has one outcome. -/
theorem Grows.unique {α : Type} {step : α → Parse (Option α)} {a : α} {s : Stream}
    {r r' : EStateM.Result Diagnostic Stream α} (h : Grows step a s r) (h' : Grows step a s r') :
    r' = r := by
  induction h with
  | done hStep => cases h' <;> simp_all
  | broken hStep => cases h' <;> simp_all
  | turn hStep hLt hMore ih =>
    cases h' with
    | done hOther => simp_all
    | broken hOther => simp_all
    | turn hOther hLt' hMore' =>
      rw [hStep] at hOther
      cases hOther
      exact ih hMore'

end Parse

namespace Grammar

open Parse

variable {g : Grammar} {n N least : Nat} {noIn : Bool} {s t u v : Stream}
  {x y e e' right : Expr} {ops front back : List (Token × Expr)}

/-- Is the token an operator that binds at least as tightly as wanted? -/
def Binds (least : Nat) (noIn : Bool) (operator : Token) : Prop :=
  precedenceOf noIn operator ≠ 0 ∧ least ≤ precedenceOf noIn operator

theorem precedenceOf_eq {operator : Token} (h : precedenceOf noIn operator ≠ 0) :
    precedenceOf noIn operator = operator.type.precedence := by
  unfold precedenceOf at h ⊢
  split
  case isTrue hIn => simp [hIn] at h
  case isFalse => rfl

theorem precedenceOf_le (noIn : Bool) (operator : Token) :
    precedenceOf noIn operator ≤ operator.type.precedence := by
  unfold precedenceOf
  split
  · exact Nat.zero_le _
  · exact Nat.le_refl _

namespace Operands

theorem append (hFront : g.Operands s front u) (hBack : g.Operands u back t) :
    g.Operands s (front ++ back) t := by
  induction hFront with
  | nil => exact hBack
  | cons hOperator hAdvance hUnary _ ih => exact .cons hOperator hAdvance hUnary (ih hBack)

theorem operator (h : g.Operands s ops t) : ∀ p ∈ ops, p.1.type.precedence ≠ 0 := by
  induction h with
  | nil => exact fun _ hp => absurd hp List.not_mem_nil
  | cons hOperator _ _ _ ih => exact List.forall_mem_cons.mpr ⟨hOperator, ih⟩

end Operands

/-! ### One turn of the loop -/

/-- An operand is read in the same way at any nesting that is deep enough. -/
theorem unaryRule_deep (hs : s.Closed) (hN : s.left < N) (hn : s.left ≤ n)
    (hRun : (nested N).unary s = .ok x t) (c : Census) :
    (∃ d, (nested n).unaryRule (s.recounted c) = .ok x (t.recounted d)) ∧ t.Closed ∧
      t.left < s.left := by
  have hAgrees := (Ending.Agrees.nested_deep (.plain s.failure) hN (Nat.succ_le_succ hn)).unary
  obtain ⟨hDeep, ht⟩ := hAgrees.transfer hs (Nat.lt_succ_self _) hRun
  obtain ⟨d, hCounted⟩ := (uncounted_nested (n + 1)).unary s c
  rw [hDeep] at hCounted
  exact ⟨⟨d, hCounted⟩, ht⟩

theorem advance_deep (hs : s.Closed) (hOperator : s.current.type.precedence ≠ 0)
    (hRun : advance s = .ok s.current u) (c : Census) :
    (∃ d, advance (s.recounted c) = .ok s.current (u.recounted d)) ∧ u.Closed ∧
      u.left < s.left := by
  have hType : s.current.type ≠ .endOfInput := by
    intro hEnd
    simp [hEnd, TokenType.precedence] at hOperator
  obtain ⟨hu, hLt⟩ := (hRun ▸ (Ending.ends_plain hs).advance hType).holds
  obtain ⟨d, hCounted⟩ := Uncounted.advance s c
  rw [hRun] at hCounted
  exact ⟨⟨d, hCounted⟩, hu.toClosed, hLt⟩

theorem binaryStep_none (h : ¬Binds least noIn s.current) :
    g.binaryStep least noIn e s = .ok none s := by
  have hEnds : (precedenceOf noIn s.current = 0 || precedenceOf noIn s.current < least) = true := by
    simp only [Binds] at h
    simp only [Bool.or_eq_true, decide_eq_true_eq]
    omega
  show (if (precedenceOf noIn s.current = 0 || precedenceOf noIn s.current < least) = true then _
    else _ : Parse (Option Expr)) s = _
  rw [if_pos hEnds]
  rfl

theorem binaryStep_some (h : Binds least noIn s.current)
    (hAdvance : advance s = .ok s.current u)
    (hRight : g.binary (precedenceOf noIn s.current + 1) noIn u = .ok right v) :
    ∃ c, g.binaryStep least noIn e s = .ok (some (e.joined s.current right)) (v.recounted c) := by
  have hGoes :
      ¬(precedenceOf noIn s.current = 0 || precedenceOf noIn s.current < least) = true := by
    simp only [Binds] at h
    simp only [Bool.or_eq_true, decide_eq_true_eq]
    omega
  show ∃ c, (if (precedenceOf noIn s.current = 0 || precedenceOf noIn s.current < least) = true
    then _ else _ : Parse (Option Expr)) s = _
  rw [if_neg hGoes]
  show ∃ c, EStateM.bind advance _ s = _
  simp only [EStateM.bind, hAdvance]
  show ∃ c, EStateM.bind (g.binary _ noIn) _ u = _
  simp only [EStateM.bind, hRight]
  by_cases hLogical : s.current.type = .punctuator .andAnd ∨ s.current.type = .punctuator .orOr
  case pos =>
    refine ⟨v.census.addSlot, ?_⟩
    rw [Expr.joined, if_pos hLogical]
    rcases hLogical with hType | hType
    · simp only [hType]
      rfl
    · simp only [hType]
      rfl
  case neg =>
    refine ⟨v.census.addBinary.addSlot, ?_⟩
    rw [Expr.joined, if_neg hLogical]
    cases hType : s.current.type with
    | punctuator mark =>
      cases mark with
      | andAnd => exact absurd (.inl hType) hLogical
      | orOr => exact absurd (.inr hType) hLogical
      | _ => rfl
    | _ => rfl

theorem extend_none (hs : s.Closed) (h : (nested n).binaryStep least noIn e s = .ok none t) :
    extend ((nested n).binaryStep least noIn) e s = .ok e t :=
  (Grows.done h).unique ((progresses_nested n).operands least noIn e s hs)

theorem extend_some (hs : s.Closed) (ht : t.Closed) (hLt : t.left < s.left)
    (h : (nested n).binaryStep least noIn e s = .ok (some e') t) :
    extend ((nested n).binaryStep least noIn) e s =
      extend ((nested n).binaryStep least noIn) e' t :=
  (Grows.turn h hLt ((progresses_nested n).operands least noIn e' t ht)).unique
    ((progresses_nested n).operands least noIn e s hs)

/-! ### The loop -/

/-- The loop takes the operators that bind tightly enough, up to the first that does not, and groups
their operands with those before. What was read before ends in operators that bind no looser than
the next one, so the next one is a place to split at. -/
theorem extend_operands (least : Nat) (hs : s.Closed) (hN : s.left < N) (hn : s.left ≤ n)
    (hOps : (nested N).Operands s ops t) (hEnd : precedenceOf noIn t.current = 0)
    {done : List (Token × Expr)} (hDone : x.Groups done e)
    (hOrder : ∀ q ∈ ops.head?, ∀ p ∈ done, precedenceOf noIn q.1 ≤ p.1.type.precedence)
    (c : Census) :
    ∃ front back v tree d, ops = front ++ back ∧ (∀ p ∈ front, Binds least noIn p.1) ∧
      (∀ q ∈ back.head?, ¬Binds least noIn q.1) ∧ (nested N).Operands s front v ∧
      (nested N).Operands v back t ∧ v.Closed ∧ v.left ≤ s.left ∧ x.Groups (done ++ front) tree ∧
      extend ((nested n).binaryStep least noIn) e (s.recounted c) = .ok tree (v.recounted d) := by
  induction hLength : ops.length using Nat.strong_induction_on
    generalizing n least s x e done ops c with
  | _ length ih =>
  by_cases hBinds : Binds least noIn s.current
  case neg =>
    refine ⟨[], ops, s, e, c, rfl, List.forall_mem_nil _, ?_, .nil, hOps, hs, Nat.le_refl _,
      by simpa using hDone, extend_none (hs.recounted c) (binaryStep_none hBinds)⟩
    cases hOps with
    | nil => simp
    | cons =>
      rintro q ⟨⟩
      exact hBinds
  case pos =>
    cases hOps with
    | nil => exact absurd hEnd hBinds.1
    | @cons _ u v _ y ops hOperator hAdvance hUnary hMore =>
      subst hLength
      obtain ⟨⟨c₁, hAdvance'⟩, hu, hLtU⟩ := advance_deep hs hOperator hAdvance c
      have hPrecedence := precedenceOf_eq hBinds.1
      obtain ⟨m, rfl⟩ : ∃ m, n = m + 1 := Nat.exists_eq_succ_of_ne_zero (by omega)
      obtain ⟨⟨c₂, hUnary'⟩, hv, hLtV⟩ :=
        unaryRule_deep (n := m) hu (by omega) (by omega) hUnary c₁
      -- The right operand takes the operators that bind tighter.
      obtain ⟨front₁, back₁, w, right, c₃, rfl, hTight, hLoose, hFront₁, hBack₁, hw, hLeW, hRight,
        hRun₁⟩ := ih _ (by simp) (precedenceOf noIn s.current + 1) hv (by omega) (n := m) (by omega)
          hMore Expr.Groups.operand (by simp) c₂ rfl
      have hBinary : (nested (m + 1)).binary (precedenceOf noIn s.current + 1) noIn
          (u.recounted c₁) = .ok right (w.recounted c₃) := by
        show EStateM.bind (nested m).unaryRule _ (u.recounted c₁) = _
        simp only [EStateM.bind, hUnary']
        exact hRun₁
      obtain ⟨c₄, hStep⟩ := binaryStep_some (e := e) (s := s.recounted c) hBinds hAdvance' hBinary
      have hJoined : x.Groups (done ++ (s.current, y) :: front₁) (e.joined s.current right) := by
        refine .split (fun p hp => hPrecedence ▸ hOrder _ rfl p hp) (fun p hp => ?_) hDone hRight
        have hTighter := (hTight p hp).2
        have hLe := precedenceOf_le noIn p.1
        omega
      -- After it comes one that binds no tighter than this one.
      have hNext : ∀ q ∈ back₁.head?, ∀ p ∈ done ++ (s.current, y) :: front₁,
          precedenceOf noIn q.1 ≤ p.1.type.precedence := by
        intro q hq p hp
        have hLe : precedenceOf noIn q.1 ≤ precedenceOf noIn s.current := by
          have hNot := hLoose q hq
          simp only [Binds] at hNot
          omega
        rcases List.mem_append.mp hp with hp | hp
        · exact hLe.trans (hOrder _ rfl p hp)
        · rcases List.mem_cons.mp hp with rfl | hp
          · exact hPrecedence ▸ hLe
          · have hTighter := (hTight p hp).2
            have hLeP := precedenceOf_le noIn p.1
            omega
      obtain ⟨front₂, back₂, z, tree, c₅, rfl, hFits, hStops, hFront₂, hBack₂, hz, hLeZ, hTree,
        hRun₂⟩ := ih _ (by simp only [List.length_cons, List.length_append]; omega) least hw
          (by omega) (n := m + 1) (by omega) hBack₁ hJoined hNext c₄ rfl
      refine ⟨(s.current, y) :: (front₁ ++ front₂), back₂, z, tree, c₅, by simp, ?_, hStops,
        .cons hOperator hAdvance hUnary (hFront₁.append hFront₂), hBack₂, hz, by omega,
        by simpa using hTree, ?_⟩
      · refine List.forall_mem_cons.mpr ⟨hBinds, List.forall_mem_append.mpr ⟨fun p hp => ?_, hFits⟩⟩
        have hTighter := hTight p hp
        have hLeast := hBinds.2
        exact ⟨hTighter.1, by have := hTighter.2; omega⟩
      · have hLt : (w.recounted c₄).left < (s.recounted c).left :=
          show w.left < s.left by omega
        rw [extend_some (hs.recounted c) (hw.recounted c₄) hLt hStep]
        exact hRun₂

/-- The rule for operators takes the operands up to the first operator that does not bind, and
groups them. -/
theorem binary_operands (noIn : Bool) (hs : s.Closed) (hDeep : s.left < n)
    (hFirst : (nested n).unary s = .ok x u) (hOps : (nested n).Operands u ops t)
    (hEnd : precedenceOf noIn t.current = 0) :
    ∃ front back v tree c, ops = front ++ back ∧ (∀ p ∈ front, Binds 1 noIn p.1) ∧
      (∀ q ∈ back.head?, ¬Binds 1 noIn q.1) ∧ (nested n).Operands u front v ∧
      (nested n).Operands v back t ∧ (∀ e, x.Groups front e ↔ e = tree) ∧
      (nested n).binary 1 noIn s = .ok tree (v.recounted c) := by
  obtain ⟨m, rfl⟩ : ∃ m, n = m + 1 := Nat.exists_eq_succ_of_ne_zero (Nat.ne_zero_of_lt hDeep)
  obtain ⟨⟨d, hUnary⟩, hu, hLt⟩ :=
    unaryRule_deep (n := m) hs hDeep (Nat.le_of_lt_succ hDeep) hFirst s.census
  obtain ⟨front, back, v, tree, c, hSplit, hFront, hBack, hRead, hRest, -, -, hTree, hRun⟩ :=
    extend_operands 1 hu (hLt.trans hDeep) (n := m) (by omega) hOps hEnd Expr.Groups.operand
      (by simp) d
  refine ⟨front, back, v, tree, c, hSplit, hFront, hBack, hRead, hRest, fun e => ?_, ?_⟩
  · exact ⟨hTree.unique, fun h => h ▸ hTree⟩
  · show EStateM.bind (nested m).unaryRule _ (s.recounted s.census) = _
    simp only [EStateM.bind, hUnary]
    exact hRun

/-- The rule for operators, from the loosest on, reads all of a row of operands and gives the one
tree that they group to. Where a bare `in` is no operator it reads as much as stands before the
first `in` and gives the tree of that. -/
theorem binary_groups (hs : s.Closed) (hDeep : s.left < n) (hFirst : (nested n).unary s = .ok x u)
    (hOps : (nested n).Operands u ops t) (hEnd : t.current.type.precedence = 0) :
    (∃ tree c, (∀ e, x.Groups ops e ↔ e = tree) ∧
      (nested n).binary 1 false s = .ok tree (t.recounted c)) ∧
    ∃ front back v tree c, ops = front ++ back ∧ (∀ p ∈ front, p.1.type ≠ .keyword .kwIn) ∧
      (nested n).Operands u front v ∧ (nested n).Operands v back t ∧
      (back = [] ∧ v = t ∨ v.current.type = .keyword .kwIn) ∧
      (∀ e, x.Groups front e ↔ e = tree) ∧
      (nested n).binary 1 true s = .ok tree (v.recounted c) := by
  have hStops (noIn : Bool) : precedenceOf noIn t.current = 0 :=
    Nat.le_zero.mp (hEnd ▸ precedenceOf_le noIn t.current)
  constructor
  · obtain ⟨front, back, v, tree, c, rfl, -, hBack, -, hRest, hTree, hRun⟩ :=
      binary_operands false hs hDeep hFirst hOps (hStops false)
    -- No operator is left, since each of them binds.
    cases hRest with
    | nil => exact ⟨tree, c, by simpa using hTree, hRun⟩
    | cons hOperator => exact absurd ⟨hOperator, Nat.one_le_iff_ne_zero.mpr hOperator⟩ (hBack _ rfl)
  · obtain ⟨front, back, v, tree, c, hSplit, hFront, hBack, hRead, hRest, hTree, hRun⟩ :=
      binary_operands true hs hDeep hFirst hOps (hStops true)
    refine ⟨front, back, v, tree, c, hSplit, fun p hp hIn => ?_, hRead, hRest, ?_, hTree, hRun⟩
    · exact (hFront p hp).1 (by simp [precedenceOf, hIn])
    · cases hRest with
      | nil => exact .inl ⟨rfl, rfl⟩
      | cons hOperator =>
        refine .inr (by_contra fun hIn => hBack _ rfl ?_)
        have hBinds : precedenceOf true v.current = v.current.type.precedence := by
          simp [precedenceOf, hIn]
        exact ⟨by rwa [hBinds], by rw [hBinds]; exact Nat.one_le_iff_ne_zero.mpr hOperator⟩

/-- The operands of `a + b in c`. -/
theorem binary_groups_in :
    let a : Token :=
      { type := .identifier, literal := "a", value := "a", line := 1, column := 1, start := 0
        stop := 1 }
    let plus : Token :=
      { type := .punctuator .plus, literal := "+", line := 1, column := 3, start := 2, stop := 3 }
    let b : Token :=
      { type := .identifier, literal := "b", value := "b", line := 1, column := 5, start := 4
        stop := 5 }
    let word : Token :=
      { type := .keyword .kwIn, literal := "in", line := 1, column := 7, start := 6, stop := 8 }
    let c : Token :=
      { type := .identifier, literal := "c", value := "c", line := 1, column := 10, start := 9
        stop := 10 }
    let last : Token :=
      { type := .endOfInput, literal := [], line := 1, column := 11, start := 10, stop := 10 }
    let s : Stream := ⟨a, [plus, b, word, c, last], none, ⟨0, 0, 0⟩, none, {}⟩
    let x : Expr := .ident ⟨a.span, "a"⟩
    let y : Expr := .ident ⟨b.span, "b"⟩
    let z : Expr := .ident ⟨c.span, "c"⟩
    s.Closed ∧ x.Groups [(plus, y), (word, z)] ((x.joined plus y).joined word z) ∧
      ∃ t, t.current = last ∧
        (nested 6).binary 1 false s = .ok ((x.joined plus y).joined word z) t := by
  intro a plus b word c last s x y z
  have hs : s.Closed := ⟨by simp [s, last], by simp [s], by simp [s]⟩
  have hGroups : x.Groups [(plus, y), (word, z)] ((x.joined plus y).joined word z) :=
    @Expr.Groups.split x z _ z word [(plus, y)] [] (by simp [plus, word, TokenType.precedence])
      (by simp) (@Expr.Groups.split x y x y plus [] [] (by simp) (by simp) .operand .operand)
      .operand
  refine ⟨hs, hGroups, ?_⟩
  let counted (n : Nat) : Census := (fun k => k.addName.addSlot)^[n] {}
  have hOps : (nested 6).Operands
      ⟨plus, [b, word, c, last], none, a.stopPlace, none, counted 1⟩ [(plus, y), (word, z)]
      ⟨last, [], none, c.stopPlace, none, counted 3⟩ := by
    refine .cons (by simp [plus, TokenType.precedence]) rfl (v := ⟨word, [c, last], none,
      b.stopPlace, none, counted 2⟩) rfl ?_
    exact .cons (by simp [word, TokenType.precedence]) rfl rfl .nil
  obtain ⟨⟨tree, d, hTree, hRun⟩, -⟩ := binary_groups hs (by decide) rfl hOps rfl
  obtain rfl := (hTree _).mp hGroups
  exact ⟨_, rfl, hRun⟩

end Grammar

end ScriptOptimizer
