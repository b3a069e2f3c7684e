import Mathlib.Algebra.Ring.Int.Defs
import Mathlib.Data.List.Count
import Mathlib.Data.List.Infix
import ScriptOptimizer.Harmony.Operator

/-!
Expressions over names by the rules of the newer language. A power groups to the right and takes no
operator in front of its left operand, `??` stands beside neither `&&` nor `||`, and all other
operators group to the left.
-/

namespace ScriptOptimizer.Harmony

/-- Expressions over names with operators in front of an operand and between two. -/
inductive Formula where
  | name (text : Bytes)
  | unary (operator : Lexeme) (operand : Formula)
  | binary (operator : Lexeme) (left right : Formula)
deriving DecidableEq, Repr

/-- What the rules distinguish. Each of these takes in what binds tighter, but `??` stands aside. -/
inductive Layer where
  | operand | unary | power | product | sum | shift | relation | equality | bitAnd | bitXor | bitOr
  | conjunction | disjunction | coalesce | expression
deriving DecidableEq, Repr

/-- The layer that an operator between two operands makes. -/
def Lexeme.layer? : Lexeme → Option Layer
  | .power => some .power
  | .mark .times | .mark .divide | .mark .remainder => some .product
  | .mark .plus | .mark .minus => some .sum
  | .mark .shiftLeft | .mark .shiftRight | .mark .shiftRightZero => some .shift
  | .mark .less | .mark .greater | .mark .lessEqual | .mark .greaterEqual
  | .word .kwInstanceof | .word .kwIn => some .relation
  | .mark .equal | .mark .notEqual | .mark .strictEqual | .mark .strictNotEqual => some .equality
  | .mark .bitAnd => some .bitAnd
  | .mark .bitXor => some .bitXor
  | .mark .bitOr => some .bitOr
  | .mark .andAnd => some .conjunction
  | .mark .orOr => some .disjunction
  | .coalesce => some .coalesce
  | _ => none

namespace Layer

/-- The place of a layer among the others, the tightest first. -/
def rank : Layer → Nat
  | operand => 0
  | unary => 1
  | power => 2
  | product => 3
  | sum => 4
  | shift => 5
  | relation => 6
  | equality => 7
  | bitAnd => 8
  | bitXor => 9
  | bitOr => 10
  | conjunction => 11
  | disjunction | coalesce => 12
  | expression => 13

/-- Is everything of the other layer also of this one? -/
def Includes (wide narrow : Layer) : Prop :=
  wide = narrow ∨ wide ≠ .coalesce ∧ narrow.rank < wide.rank

instance (wide narrow : Layer) : Decidable (wide.Includes narrow) := by
  unfold Includes
  infer_instance

/-- The next tighter layer. -/
def tighter : Layer → Layer
  | operand | unary => operand
  | power => unary
  | product => power
  | sum => product
  | shift => sum
  | relation => shift
  | equality => relation
  | bitAnd => equality
  | bitXor => bitAnd
  | bitOr => bitXor
  | conjunction | coalesce => bitOr
  | disjunction => conjunction
  | expression => disjunction

end Layer

/-- Which operands make a layer with an operator between them. -/
inductive Joins : Lexeme → Layer → Layer → Layer → Prop
  | power : Joins .power .power .operand .power
  | coalesceFirst : Joins .coalesce .coalesce .bitOr .bitOr
  | coalesceMore : Joins .coalesce .coalesce .coalesce .bitOr
  | leftGrouped {operator : Lexeme} {layer : Layer} : operator.layer? = some layer →
      layer ∉ [.power, .coalesce] → Joins operator layer layer layer.tighter

/-- The tokens are a formula of a layer. -/
inductive Derives : Layer → List Token → Formula → Prop
  | name {t : Token} :
      ({} : Setting).takesAsName t.lexeme = true → Derives .operand [t] (.name t.value)
  | parentheses {t u : Token} {ts : List Token} {f : Formula} :
      t.lexeme = .mark .leftParen → u.lexeme = .mark .rightParen → Derives .expression ts f →
      Derives .operand (t :: ts ++ [u]) f
  | unary {t : Token} {ts : List Token} {f : Formula} :
      Rules.isPrefixOperator t.lexeme = true → Derives .unary ts f →
      Derives .unary (t :: ts) (.unary t.lexeme f)
  | binary {layer left right : Layer} {t : Token} {ls rs : List Token} {f g : Formula} :
      Joins t.lexeme layer left right → Derives left ls f → Derives right rs g →
      Derives layer (ls ++ t :: rs) (.binary t.lexeme f g)
  | wider {wide narrow : Layer} {ts : List Token} {f : Formula} :
      wide.Includes narrow → Derives narrow ts f → Derives wide ts f

/-! ### Layers -/

namespace Layer

def all : List Layer :=
  [operand, unary, power, product, sum, shift, relation, equality, bitAnd, bitXor, bitOr,
   conjunction, disjunction, coalesce, expression]

theorem mem_all (layer : Layer) : layer ∈ all := by
  cases layer <;> decide

theorem Includes.trans {a b c : Layer} (hab : a.Includes b) (hbc : b.Includes c) :
    a.Includes c := by
  rcases hab with rfl | ⟨hWide, hLess⟩
  · exact hbc
  · rcases hbc with rfl | ⟨-, hMore⟩
    · exact .inr ⟨hWide, hLess⟩
    · exact .inr ⟨hWide, hMore.trans hLess⟩

end Layer

theorem Lexeme.layer?_ne {op : Lexeme} {own : Layer} (h : op.layer? = some own) :
    own ∉ [.operand, .unary, .expression] := by
  cases op with
  | power | coalesce => cases h; decide
  | mark p => cases p <;> cases h <;> decide
  | word k => cases k <;> cases h <;> decide
  | _ => cases h

/-- The operator tells the layer that it makes. -/
theorem Joins.layer_eq {op : Lexeme} {layer left right : Layer} (h : Joins op layer left right) :
    op.layer? = some layer := by
  cases h <;> first | assumption | rfl

/-! ### Tokens of formulas -/

/-- How many parentheses are open after the token that were not before. -/
def Token.opens (t : Token) : Int :=
  if t.lexeme = .mark .leftParen then 1 else if t.lexeme = .mark .rightParen then -1 else 0

/-- How many parentheses are open after the tokens that were not before. -/
def opens (ts : List Token) : Int := (ts.map Token.opens).sum

/-- The tokens that are no parentheses. -/
def size (ts : List Token) : Nat := ts.countP fun t => t.opens = 0

/-- Every parenthesis is closed, and none is closed that was not opened. -/
structure Balanced (ts : List Token) : Prop where
  nonneg {front : List Token} : front <+: ts → 0 ≤ opens front
  opens_eq : opens ts = 0

@[simp] theorem opens_nil : opens [] = 0 := rfl

@[simp] theorem opens_cons (t : Token) (ts : List Token) :
    opens (t :: ts) = t.opens + opens ts := by
  simp [opens]

@[simp] theorem opens_append (ts us : List Token) : opens (ts ++ us) = opens ts + opens us := by
  simp [opens]

@[simp] theorem size_cons (t : Token) (ts : List Token) :
    size (t :: ts) = size ts + if t.opens = 0 then 1 else 0 := by
  simp [size, List.countP_cons]

@[simp] theorem size_append (ts us : List Token) : size (ts ++ us) = size ts + size us := by
  simp [size]

/-- The tokens are those of a formula, wherever they have parentheses. -/
inductive Yields : List Token → Formula → Prop
  | name {t : Token} {text : Bytes} : t.opens = 0 → Yields [t] (.name text)
  | parentheses {t u : Token} {ts : List Token} {f : Formula} :
      t.opens = 1 → u.opens = -1 → Yields ts f → Yields (t :: ts ++ [u]) f
  | unary {t : Token} {ts : List Token} {op : Lexeme} {f : Formula} :
      t.opens = 0 → Yields ts f → Yields (t :: ts) (.unary op f)
  | binary {t : Token} {ls rs : List Token} {op : Lexeme} {f g : Formula} :
      t.opens = 0 → Yields ls f → Yields rs g → Yields (ls ++ t :: rs) (.binary op f g)

/-- The tokens of a formula that are no parentheses: its names and operators. -/
def Formula.size : Formula → Nat
  | name _ => 1
  | unary _ f => f.size + 1
  | binary _ f g => f.size + g.size + 1

theorem Yields.size_eq {ts : List Token} {f : Formula} (h : Yields ts f) : size ts = f.size := by
  induction h with
  | name hOpens => simp [Harmony.size, Formula.size, hOpens]
  | parentheses hOpen hClose _ ih => simpa [hOpen, hClose, Harmony.size] using ih
  | unary hOpens _ ih => simp [hOpens, ih, Formula.size]
  | binary hOpens _ _ ihLeft ihRight =>
    simp [hOpens, ihLeft, ihRight, Formula.size, Nat.add_assoc]

namespace Balanced

variable {t u : Token} {ts us : List Token}

theorem nil : Balanced [] where
  nonneg h := by simp [List.prefix_nil.1 h]
  opens_eq := rfl

theorem cons (hOpens : t.opens = 0) (h : Balanced ts) : Balanced (t :: ts) where
  nonneg hFront := by
    rcases List.prefix_cons_iff.1 hFront with rfl | ⟨rest, rfl, hRest⟩
    · exact Int.le_refl 0
    · simpa [hOpens] using h.nonneg hRest
  opens_eq := by simp [hOpens, h.opens_eq]

theorem append (ht : Balanced ts) (hu : Balanced us) : Balanced (ts ++ us) where
  nonneg hFront := by
    obtain ⟨rest, hSplit⟩ := hFront
    rcases List.append_eq_append_iff.1 hSplit with ⟨more, rfl, -⟩ | ⟨more, rfl, rfl⟩
    · exact ht.nonneg (List.prefix_append _ more)
    · rw [opens_append, ht.opens_eq, Int.zero_add]
      exact hu.nonneg (List.prefix_append more rest)
  opens_eq := by simp [ht.opens_eq, hu.opens_eq]

theorem enclose (hOpen : t.opens = 1) (hClose : u.opens = -1) (h : Balanced ts) :
    Balanced (t :: ts ++ [u]) where
  nonneg hFront := by
    rcases List.prefix_concat_iff.1 hFront with rfl | hFront
    · simp [hOpen, hClose, h.opens_eq]
    · rcases List.prefix_cons_iff.1 hFront with rfl | ⟨rest, rfl, hRest⟩
      · exact Int.le_refl 0
      · have := h.nonneg hRest
        rw [opens_cons, hOpen]
        omega
  opens_eq := by simp [hOpen, hClose, h.opens_eq]

/-- Nothing in parentheses stands outside of them. -/
theorem not_between {v : Token} {ls rs : List Token} (hl : Balanced ls) (h : Balanced ts)
    (hOpen : t.opens = 1) (hv : v.opens = 0) : ls ++ v :: rs ≠ t :: ts ++ [u] := by
  intro hSplit
  cases ls with
  | nil =>
    obtain ⟨rfl, -⟩ := List.cons.inj hSplit
    omega
  | cons w ls =>
    obtain ⟨rfl, hInner⟩ := List.cons.inj hSplit
    have hClosed : opens ls = -1 := by
      have := hl.opens_eq
      rw [opens_cons, hOpen] at this
      omega
    have hFront : ls <+: ts := by
      rcases List.append_eq_append_iff.1 hInner with ⟨more, hTokens, -⟩ | ⟨more, rfl, hLast⟩
      · exact ⟨more, hTokens.symm⟩
      · have hLength := congrArg List.length hLast
        obtain rfl : more = [] := by
          rw [← List.length_eq_zero_iff]
          simp only [List.length_append, List.length_cons, List.length_nil] at hLength
          omega
        simp
    have := h.nonneg hFront
    omega

end Balanced

theorem Yields.balanced {ts : List Token} {f : Formula} (h : Yields ts f) : Balanced ts := by
  induction h with
  | name hOpens => exact .cons hOpens .nil
  | parentheses hOpen hClose _ ih => exact ih.enclose hOpen hClose
  | unary hOpens _ ih => exact ih.cons hOpens
  | binary hOpens _ _ ihLeft ihRight => exact ihLeft.append (ihRight.cons hOpens)

/-- An operator stands at the same place wherever the operand before it has the same tokens but for
parentheses. -/
theorem split_eq {t u : Token} {ls rs ls' rs' : List Token} (ht : t.opens = 0) (hu : u.opens = 0)
    (hSize : size ls = size ls') (h : ls ++ t :: rs = ls' ++ u :: rs') :
    ls = ls' ∧ t = u ∧ rs = rs' := by
  -- If one of the two went on, it would have one more token than the other.
  have hEnd {a b c d : List Token} {v w : Token} (hv : v.opens = 0) (hSize : size (a ++ b) = size a)
      (h : v :: c = b ++ w :: d) : b = [] := by
    cases b with
    | nil => rfl
    | cons x b =>
      obtain ⟨rfl, -⟩ := List.cons.inj h
      simp [hv] at hSize
  rcases List.append_eq_append_iff.1 h with ⟨more, rfl, hRest⟩ | ⟨more, rfl, hRest⟩
  · obtain rfl := hEnd ht hSize.symm hRest
    simpa using hRest
  · obtain rfl := hEnd hu hSize hRest
    simpa [eq_comm] using hRest

/-! ### What a derivation says -/

section

variable {layer : Layer} {t : Token} {ts : List Token} {f : Formula}

theorem Token.opens_of_name (h : ({} : Setting).takesAsName t.lexeme = true) : t.opens = 0 := by
  unfold Token.opens
  rw [if_neg (by intro hEq; rw [hEq] at h; cases h), if_neg (by intro hEq; rw [hEq] at h; cases h)]

theorem Token.opens_of_prefix (h : Rules.isPrefixOperator t.lexeme = true) : t.opens = 0 := by
  unfold Token.opens
  rw [if_neg (by intro hEq; rw [hEq] at h; cases h), if_neg (by intro hEq; rw [hEq] at h; cases h)]

theorem Token.opens_of_layer (h : t.lexeme.layer? = some layer) : t.opens = 0 := by
  unfold Token.opens
  rw [if_neg (by intro hEq; rw [hEq] at h; cases h), if_neg (by intro hEq; rw [hEq] at h; cases h)]

theorem Token.opens_of_left (h : t.lexeme = .mark .leftParen) : t.opens = 1 := by
  rw [Token.opens, if_pos h]

theorem Token.opens_of_right (h : t.lexeme = .mark .rightParen) : t.opens = -1 := by
  rw [Token.opens, if_neg (by rw [h]; decide), if_pos h]

theorem Derives.yields (h : Derives layer ts f) : Yields ts f := by
  induction h with
  | name hName => exact .name (Token.opens_of_name hName)
  | parentheses hOpen hClose _ ih =>
    exact .parentheses (Token.opens_of_left hOpen) (Token.opens_of_right hClose) ih
  | unary hOperator _ ih => exact .unary (Token.opens_of_prefix hOperator) ih
  | binary hJoins _ _ ihLeft ihRight =>
    exact .binary (Token.opens_of_layer hJoins.layer_eq) ihLeft ihRight
  | wider _ _ ih => exact ih

/-- How the tokens are a formula of a layer. -/
inductive Shape (layer : Layer) (ts : List Token) (f : Formula) : Prop
  | name {t : Token} : layer.Includes .operand → ({} : Setting).takesAsName t.lexeme = true →
      ts = [t] → f = .name t.value → Shape layer ts f
  | parentheses {t u : Token} {inner : List Token} : layer.Includes .operand →
      t.lexeme = .mark .leftParen → u.lexeme = .mark .rightParen → ts = t :: inner ++ [u] →
      Derives .expression inner f → Shape layer ts f
  | unary {t : Token} {rest : List Token} {g : Formula} : layer.Includes .unary →
      Rules.isPrefixOperator t.lexeme = true → ts = t :: rest → f = .unary t.lexeme g →
      Derives .unary rest g → Shape layer ts f
  | binary {own left right : Layer} {t : Token} {ls rs : List Token} {g g' : Formula} :
      layer.Includes own → Joins t.lexeme own left right → ts = ls ++ t :: rs →
      f = .binary t.lexeme g g' → Derives left ls g → Derives right rs g' → Shape layer ts f

theorem Derives.shape (h : Derives layer ts f) : Shape layer ts f := by
  induction h with
  | name hName => exact .name (.inl rfl) hName rfl rfl
  | parentheses hOpen hClose hInner _ => exact .parentheses (.inl rfl) hOpen hClose rfl hInner
  | unary hOperator hOperand _ => exact .unary (.inl rfl) hOperator rfl rfl hOperand
  | binary hJoins hLeft hRight _ _ => exact .binary (.inl rfl) hJoins rfl rfl hLeft hRight
  | wider hWide _ ih =>
    cases ih with
    | name hOwn hName hTokens hFormula => exact .name (hWide.trans hOwn) hName hTokens hFormula
    | parentheses hOwn hOpen hClose hTokens hInner =>
      exact .parentheses (hWide.trans hOwn) hOpen hClose hTokens hInner
    | unary hOwn hOperator hTokens hFormula hOperand =>
      exact .unary (hWide.trans hOwn) hOperator hTokens hFormula hOperand
    | binary hOwn hJoins hTokens hFormula hLeft hRight =>
      exact .binary (hWide.trans hOwn) hJoins hTokens hFormula hLeft hRight

end

/-! ### One formula only -/

/-- A name or a parenthesis that is closed: what the last token of an operand is. -/
def Token.EndsOperand (t : Token) : Prop :=
  ({} : Setting).takesAsName t.lexeme = true ∨ t.lexeme = .mark .rightParen

theorem Token.EndsOperand.not_prefix {t : Token} (h : t.EndsOperand) :
    Rules.isPrefixOperator t.lexeme = false := by
  refine Bool.eq_false_iff.2 fun hOperator => ?_
  rcases h with hName | hClose
  · cases hLexeme : t.lexeme <;> rw [hLexeme] at hName hOperator <;> cases hName <;> cases hOperator
  · rw [hClose] at hOperator
    cases hOperator

theorem Token.EndsOperand.layer?_eq {t : Token} (h : t.EndsOperand) : t.lexeme.layer? = none := by
  rcases h with hName | hClose
  · cases hLexeme : t.lexeme <;> rw [hLexeme] at hName <;> first | rfl | cases hName
  · rw [hClose]
    rfl

namespace Layer

theorem Includes.rank_le {wide narrow : Layer} (h : wide.Includes narrow) :
    narrow.rank ≤ wide.rank := by
  rcases h with rfl | ⟨-, hLess⟩
  · exact Nat.le_refl _
  · exact Nat.le_of_lt hLess

theorem tighter_rank_le (layer : Layer) : layer.tighter.rank ≤ layer.rank := by
  cases layer <;> decide

end Layer

theorem Joins.rank_le {op : Lexeme} {layer left right : Layer} (h : Joins op layer left right) :
    left.rank ≤ layer.rank ∧ right.rank ≤ layer.rank := by
  cases h with
  | power | coalesceFirst | coalesceMore => decide
  | leftGrouped _ _ => exact ⟨Nat.le_refl _, layer.tighter_rank_le⟩

theorem Balanced.of_append {ts us : List Token} (ht : Balanced ts) (h : Balanced (ts ++ us)) :
    Balanced us where
  nonneg hFront := by
    have := h.nonneg ((List.prefix_append_right_inj ts).2 hFront)
    rwa [opens_append, ht.opens_eq, Int.zero_add] at this
  opens_eq := by
    have := h.opens_eq
    rwa [opens_append, ht.opens_eq, Int.zero_add] at this

section

variable {layer layer' own : Layer} {t : Token} {ts ls rs : List Token} {f g : Formula}

/-- Tokens that an operand may have. -/
structure Whole (ts : List Token) : Prop where
  balanced : Balanced ts
  ends : ∃ front t, ts = front ++ [t] ∧ t.EndsOperand

/-- What stands between an operator and the end of an operand may be an operand. -/
theorem Whole.after (h : Whole (ls ++ t :: rs)) (hl : Balanced ls)
    (hOwn : t.lexeme.layer? = some own) : Whole rs := by
  have hOperator : Balanced [t] := .cons (Token.opens_of_layer hOwn) .nil
  refine ⟨hOperator.of_append (hl.of_append h.balanced), ?_⟩
  obtain ⟨front, u, hFront, hLast⟩ := h.ends
  rcases List.eq_nil_or_concat' rs with rfl | ⟨more, w, rfl⟩
  · obtain ⟨-, hEq⟩ := List.append_inj' hFront rfl
    rw [(List.cons.inj hEq).1, hLast.layer?_eq] at hOwn
    cases hOwn
  · rw [← List.cons_append, ← List.append_assoc] at hFront
    obtain ⟨-, hEq⟩ := List.append_inj' hFront rfl
    refine ⟨more, w, rfl, ?_⟩
    rwa [(List.cons.inj hEq).1]

theorem Derives.whole (h : Derives layer ts f) : Whole ts := by
  refine ⟨h.yields.balanced, ?_⟩
  induction h with
  | @name t hName => exact ⟨[], t, rfl, .inl hName⟩
  | @parentheses t u ts f _ hClose _ _ => exact ⟨t :: ts, u, rfl, .inr hClose⟩
  | @unary t ts f _ _ ih =>
    obtain ⟨front, u, rfl, hLast⟩ := ih
    exact ⟨t :: front, u, rfl, hLast⟩
  | @binary _ _ _ t ls rs f g _ _ _ _ ih =>
    obtain ⟨front, u, rfl, hLast⟩ := ih
    exact ⟨ls ++ t :: front, u, by simp, hLast⟩
  | wider _ _ ih => exact ih

/-- No operator between two operands that stands outside of parentheses binds more loosely than the
layer allows. -/
theorem Derives.rank_le (h : Derives layer ts f) (hTokens : ts = ls ++ t :: rs) (hl : Whole ls)
    (hOwn : t.lexeme.layer? = some own) : own.rank ≤ layer.rank := by
  induction h generalizing ls rs with
  | name _ =>
    obtain ⟨front, u, rfl, -⟩ := hl.ends
    have := congrArg List.length hTokens
    simp only [List.length_append, List.length_cons, List.length_nil] at this
    omega
  | parentheses hOpen _ hInner _ =>
    exact absurd hTokens.symm (hl.balanced.not_between hInner.yields.balanced
      (Token.opens_of_left hOpen) (Token.opens_of_layer hOwn))
  | @unary v ts f hOperator _ ih =>
    obtain ⟨front, u, rfl, hLast⟩ := hl.ends
    cases front with
    | nil =>
      obtain ⟨rfl, -⟩ := List.cons.inj hTokens
      rw [hLast.not_prefix] at hOperator
      cases hOperator
    | cons w front =>
      obtain ⟨rfl, hRest⟩ := List.cons.inj hTokens
      have hFirst : Balanced [v] := .cons (Token.opens_of_prefix hOperator) .nil
      exact ih hRest ⟨hFirst.of_append hl.balanced, front, u, rfl, hLast⟩
  | @binary layer left right v ls' rs' f g hJoins hLeft _ ihLeft ihRight =>
    obtain ⟨hLeftRank, hRightRank⟩ := hJoins.rank_le
    have hSame (h : t = v) : own.rank ≤ layer.rank := by
      rw [h, hJoins.layer_eq] at hOwn
      cases hOwn
      exact Nat.le_refl _
    rcases List.append_eq_append_iff.1 hTokens with ⟨more, rfl, hRest⟩ | ⟨more, rfl, hRest⟩
    · cases more with
      | nil => exact hSame (List.cons.inj hRest).1.symm
      | cons w more =>
        obtain ⟨rfl, rfl⟩ := List.cons.inj hRest
        exact (ihRight rfl (hl.after hLeft.yields.balanced hJoins.layer_eq)).trans hRightRank
    · cases more with
      | nil => exact hSame (List.cons.inj hRest).1
      | cons w more =>
        obtain ⟨rfl, rfl⟩ := List.cons.inj hRest
        exact (ihLeft rfl hl).trans hLeftRank
  | wider hWide _ ih => exact (ih hTokens hl).trans hWide.rank_le

/-- Operands with operators in front of them have no operator between them outside of
parentheses. -/
theorem Derives.not_binary {left right : Layer} (h : Derives .unary ts g)
    (hTokens : ts = ls ++ t :: rs) (hJoins : Joins t.lexeme own left right)
    (hLeft : Derives left ls f) : False := by
  have hRank := h.rank_le hTokens hLeft.whole hJoins.layer_eq
  have hOwn := Lexeme.layer?_ne hJoins.layer_eq
  revert hRank hOwn
  cases own <;> decide

/-- Of two operators, one can not be in the left operand of the other while that one is in its right
operand. -/
theorem Joins.not_crossed {own' left right left' right' : Layer} {op op' : Lexeme}
    (h : Joins op own left right) (h' : Joins op' own' left' right') (hLeft : own.rank ≤ left'.rank)
    (hRight : own'.rank ≤ right.rank) : False := by
  have hBetween : own.rank ≤ right.rank := (hLeft.trans h'.rank_le.1).trans hRight
  cases h with
  | power =>
    cases h' with
    | power | coalesceFirst | coalesceMore => revert hLeft hRight; decide
    | leftGrouped _ hNot =>
      revert hLeft hRight hNot
      cases own' <;> decide
  | coalesceFirst | coalesceMore => revert hBetween; decide
  | leftGrouped hOwn _ =>
    have hOwn := Lexeme.layer?_ne hOwn
    revert hBetween hOwn
    cases own <;> decide

theorem Joins.not_later {own' left right left' right' : Layer} {u : Token} {more rs' : List Token}
    {f g f' : Formula} (h : Joins t.lexeme own left right) (h' : Joins u.lexeme own' left' right')
    (hLeft : Derives left ls f) (hLeft' : Derives left' (ls ++ t :: more) g)
    (hRight : Derives right (more ++ u :: rs') f') : False := by
  have hMore : Whole more := hLeft'.whole.after hLeft.whole.balanced h.layer_eq
  exact h.not_crossed h' (hLeft'.rank_le rfl hLeft.whole h.layer_eq)
    (hRight.rank_le rfl hMore h'.layer_eq)

theorem Derives.of_name (h : Derives layer [t] g) :
    layer.Includes .operand ∧ g = .name t.value := by
  cases h.shape with
  | name hOwn _ hTokens hFormula =>
    rw [(List.cons.inj hTokens).1]
    exact ⟨hOwn, hFormula⟩
  | parentheses _ _ _ hTokens _ => simp at hTokens
  | unary _ _ hTokens _ hOperand =>
    obtain ⟨front, u, hFront, -⟩ := hOperand.whole.ends
    rw [hFront] at hTokens
    simp at hTokens
  | binary _ _ hTokens _ hLeft _ =>
    obtain ⟨front, u, rfl, -⟩ := hLeft.whole.ends
    have := congrArg List.length hTokens
    simp only [List.length_append, List.length_cons, List.length_nil] at this
    omega

theorem Derives.of_parentheses {u : Token} (h : Derives layer (t :: ts ++ [u]) g)
    (hOpen : t.lexeme = .mark .leftParen) (hts : Balanced ts) :
    layer.Includes .operand ∧ Derives .expression ts g := by
  cases h.shape with
  | name _ _ hTokens _ => simp at hTokens
  | parentheses hOwn _ _ hTokens hInner =>
    obtain ⟨-, hRest⟩ := List.cons.inj hTokens
    obtain ⟨rfl, -⟩ := List.append_inj' hRest rfl
    exact ⟨hOwn, hInner⟩
  | unary _ hOperator hTokens _ _ =>
    obtain ⟨rfl, -⟩ := List.cons.inj hTokens
    rw [hOpen] at hOperator
    cases hOperator
  | binary _ hJoins hTokens _ hLeft _ =>
    exact absurd hTokens.symm (hLeft.whole.balanced.not_between hts (Token.opens_of_left hOpen)
      (Token.opens_of_layer hJoins.layer_eq))

theorem Derives.of_front (h : Derives layer (t :: ts) g)
    (hOperator : Rules.isPrefixOperator t.lexeme = true) (hOperand : Derives .unary ts f) :
    ∃ b, g = .unary t.lexeme b ∧ Derives .unary ts b := by
  cases h.shape with
  | name _ hName hTokens _ =>
    have hEnds : t.EndsOperand := (List.cons.inj hTokens).1 ▸ .inl hName
    rw [hEnds.not_prefix] at hOperator
    cases hOperator
  | parentheses _ hOpen _ hTokens _ =>
    obtain ⟨rfl, -⟩ := List.cons.inj hTokens
    rw [hOpen] at hOperator
    cases hOperator
  | unary _ _ hTokens hFormula hOperand' =>
    obtain ⟨rfl, rfl⟩ := List.cons.inj hTokens
    exact ⟨_, hFormula, hOperand'⟩
  | binary _ hJoins hTokens _ hLeft _ =>
    exact (not_binary (.unary hOperator hOperand) hTokens hJoins hLeft).elim

/-- An operator between two operands is outermost in every formula that the tokens are if it is in
one. -/
theorem Derives.of_between {left right : Layer} {f' : Formula}
    (h : Derives layer (ls ++ t :: rs) g) (hJoins : Joins t.lexeme own left right)
    (hLeft : Derives left ls f) (hRight : Derives right rs f') : ∃ l r a b,
      g = .binary t.lexeme a b ∧ Derives l ls a ∧ Derives r rs b := by
  cases h.shape with
  | name _ hName hTokens _ =>
    exact (not_binary (.wider (by decide) (.name hName)) hTokens.symm hJoins hLeft).elim
  | parentheses _ hOpen hClose hTokens hInner =>
    exact (not_binary (.wider (by decide) (.parentheses hOpen hClose hInner)) hTokens.symm hJoins
      hLeft).elim
  | unary _ hOperator hTokens _ hOperand =>
    exact (not_binary (.unary hOperator hOperand) hTokens.symm hJoins hLeft).elim
  | @binary own' left' right' u ls' rs' a b _ hJoins' hTokens hFormula hLeft' hRight' =>
    -- The two splits are the same, or else one operator stands in an operand of the other.
    rcases List.append_eq_append_iff.1 hTokens with ⟨more, rfl, hRest⟩ | ⟨more, rfl, hRest⟩
    · cases more with
      | nil =>
        obtain ⟨rfl, rfl⟩ := List.cons.inj hRest
        exact ⟨_, _, a, b, hFormula, by simpa using hLeft', hRight'⟩
      | cons w more =>
        obtain ⟨rfl, rfl⟩ := List.cons.inj hRest
        exact (hJoins.not_later hJoins' hLeft hLeft' hRight).elim
    · cases more with
      | nil =>
        obtain ⟨rfl, rfl⟩ := List.cons.inj hRest
        exact ⟨_, _, a, b, hFormula, by simpa using hLeft', hRight'⟩
      | cons w more =>
        obtain ⟨rfl, rfl⟩ := List.cons.inj hRest
        exact (hJoins'.not_later hJoins hLeft' hLeft hRight').elim

/-- The same tokens are not two formulas. -/
theorem Derives.unique (h : Derives layer ts f) (h' : Derives layer' ts g) : f = g := by
  induction h generalizing layer' g with
  | name _ => exact h'.of_name.2.symm
  | parentheses hOpen _ hInner ih =>
    exact ih (h'.of_parentheses hOpen hInner.whole.balanced).2
  | unary hOperator hOperand ih =>
    obtain ⟨b, rfl, hb⟩ := h'.of_front hOperator hOperand
    rw [ih hb]
  | binary hJoins hLeft hRight ihLeft ihRight =>
    obtain ⟨_, _, a, b, rfl, ha, hb⟩ := h'.of_between hJoins hLeft hRight
    rw [ihLeft ha, ihRight hb]
  | wider _ _ ih => exact ih h'

end

end ScriptOptimizer.Harmony
