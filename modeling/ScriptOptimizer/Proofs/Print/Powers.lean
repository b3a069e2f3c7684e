import ScriptOptimizer.Proofs.Harmony.Formula
import ScriptOptimizer.Syntax.Print

/-!
Printed expressions by the rules of the newer language. The printer puts parentheses as if a power
were a product and `??` were `||`, so some operands stand bare where those rules want parentheses;
all other expressions over names are read back as what they are.
-/

namespace ScriptOptimizer

open Harmony

namespace Harmony

/-- How tightly the printer takes a layer to bind. -/
def Layer.level : Layer → Nat
  | .operand => Level.primary
  | .unary => Level.unary
  | .power | .product => 12
  | .sum => 11
  | .shift => 10
  | .relation => 9
  | .equality => 8
  | .bitAnd => 7
  | .bitXor => 6
  | .bitOr => 5
  | .conjunction => 4
  | .disjunction | .coalesce => Level.loosestBinary
  | .expression => Level.sequence

theorem Lexeme.level_text {op : Lexeme} {layer : Layer} (h : op.layer? = some layer) :
    Level.binary op.text = layer.level := by
  cases op with
  | power | coalesce => cases h; decide
  | mark p => cases p <;> cases h <;> decide
  | word k => cases k <;> cases h <;> decide
  | _ => cases h

/-- Does an operand suit the left side of an operator? A power has no power, product or unary
expression there, `??` nothing that `&&` or `||` joins, and `||` nothing that `??` joins. -/
def Layer.SuitsLeft (own left : Layer) : Prop :=
  match own with
  | .power => left ∉ [.unary, .power, .product]
  | .coalesce => left ∉ [.conjunction, .disjunction]
  | .disjunction => left ≠ .coalesce
  | _ => True

/-- Does an operand suit the right side of an operator? Only `??` has nothing there that `&&`
joins. -/
def Layer.SuitsRight (own right : Layer) : Prop := own = .coalesce → right ≠ .conjunction

/-- The layer of an operand where a level is wanted: in parentheses it is a plain one. -/
def Layer.written (level : Nat) (layer : Layer) : Layer :=
  if level ≤ layer.level then layer else .operand

instance (own left : Layer) : Decidable (own.SuitsLeft left) := by
  unfold Layer.SuitsLeft
  cases own <;> infer_instance

instance (own right : Layer) : Decidable (own.SuitsRight right) := by
  unfold Layer.SuitsRight
  infer_instance

namespace Formula

/-- The layer of the outermost operator. -/
def layer : Formula → Layer
  | name _ => .operand
  | unary _ _ => .unary
  | binary op _ _ => op.layer?.getD .expression

/-- Do the operands suit their operators everywhere? -/
def Legible : Formula → Prop
  | name _ => True
  | unary _ f => f.Legible
  | f@(binary _ l r) =>
    (f.layer.SuitsLeft l.layer ∧ f.layer.SuitsRight r.layer) ∧ l.Legible ∧ r.Legible

instance decidableLegible : (f : Formula) → Decidable f.Legible
  | name _ => inferInstanceAs (Decidable True)
  | unary _ f => decidableLegible f
  | binary _ l r =>
    have := decidableLegible l
    have := decidableLegible r
    inferInstanceAs (Decidable ((_ ∧ _) ∧ _ ∧ _))

end Formula

/-- The tokens of a formula where a level is wanted, with the parentheses of the printer. -/
inductive Shown : Nat → List Token → Formula → Prop
  | name {level : Nat} {t : Token} : ({} : Setting).takesAsName t.lexeme = true →
      Shown level [t] (.name t.value)
  | unary {level : Nat} {t : Token} {ts : List Token} {f : Formula} : level ≤ Level.unary →
      Rules.isPrefixOperator t.lexeme = true → Shown Level.unary ts f →
      Shown level (t :: ts) (.unary t.lexeme f)
  | binary {level : Nat} {own : Layer} {t : Token} {ls rs : List Token} {f g : Formula} :
      level ≤ own.level → t.lexeme.layer? = some own → Shown own.level ls f →
      Shown (own.level + 1) rs g → Shown level (ls ++ t :: rs) (.binary t.lexeme f g)
  | parentheses {level : Nat} {t u : Token} {ts : List Token} {f : Formula} :
      f.layer.level < level → t.lexeme = .mark .leftParen → u.lexeme = .mark .rightParen →
      Shown Level.sequence ts f → Shown level (t :: ts ++ [u]) f

/-! ### Bare operands -/

theorem Lexeme.eq_power {op : Lexeme} (h : op.layer? = some .power) : op = .power := by
  cases op with
  | power => rfl
  | mark p => cases p <;> cases h
  | word k => cases k <;> cases h
  | _ => cases h

theorem Lexeme.eq_coalesce {op : Lexeme} (h : op.layer? = some .coalesce) : op = .coalesce := by
  cases op with
  | coalesce => rfl
  | mark p => cases p <;> cases h
  | word k => cases k <;> cases h
  | _ => cases h

namespace Layer

/-- A layer takes in what the printer writes bare on its left, away from powers and `??`, if it
suits there. -/
theorem includes_left {own left : Layer} (hOwn : own ∉ [operand, unary, expression])
    (hPower : own ≠ power) (hCoalesce : own ≠ coalesce) (hLeft : own.SuitsLeft left) :
    own.Includes (left.written own.level) := by
  have hAll : ∀ own ∈ all, ∀ left ∈ all, own ∉ [operand, unary, expression] → own ≠ power →
      own ≠ coalesce → own.SuitsLeft left → own.Includes (left.written own.level) := by
    decide
  exact hAll own own.mem_all left left.mem_all hOwn hPower hCoalesce hLeft

/-- On its right the next tighter layer takes in whatever the printer writes. -/
theorem includes_right {own : Layer} (hOwn : own ∉ [operand, unary, expression])
    (hPower : own ≠ power) (hCoalesce : own ≠ coalesce) (right : Layer) :
    own.tighter.Includes (right.written (own.level + 1)) := by
  have hAll : ∀ own ∈ all, ∀ right ∈ all, own ∉ [operand, unary, expression] → own ≠ power →
      own ≠ coalesce → own.tighter.Includes (right.written (own.level + 1)) := by
    decide
  exact hAll own own.mem_all right right.mem_all hOwn hPower hCoalesce

end Layer

/-- The operands suit exactly if the rules join them as the printer writes them. -/
theorem suits_iff {op : Lexeme} {own : Layer} (h : op.layer? = some own) (left right : Layer) :
    own.SuitsLeft left ∧ own.SuitsRight right ↔ ∃ l r, Joins op own l r ∧
      l.Includes (left.written own.level) ∧ r.Includes (right.written (own.level + 1)) := by
  constructor
  · rintro ⟨hLeft, hRight⟩
    by_cases hPower : own = .power
    · subst hPower
      obtain rfl := Lexeme.eq_power h
      exact ⟨_, _, .power, by revert hLeft; cases left <;> decide,
        by cases right <;> decide⟩
    by_cases hCoalesce : own = .coalesce
    · subst hCoalesce
      obtain rfl := Lexeme.eq_coalesce h
      by_cases hMore : left = .coalesce
      · exact ⟨_, _, .coalesceMore, by rw [hMore]; decide,
          by revert hRight; cases right <;> decide⟩
      · refine ⟨_, _, .coalesceFirst, ?_, by revert hRight; cases right <;> decide⟩
        revert hLeft hMore
        cases left <;> decide
    · have hOwn := Lexeme.layer?_ne h
      exact ⟨own, own.tighter, .leftGrouped h (by simp [hPower, hCoalesce]),
        Layer.includes_left hOwn hPower hCoalesce hLeft,
        Layer.includes_right hOwn hPower hCoalesce right⟩
  · rintro ⟨l, r, hJoins, hLeft, hRight⟩
    cases hJoins with
    | power => exact ⟨by revert hLeft; cases left <;> decide, nofun⟩
    | coalesceFirst | coalesceMore =>
      exact ⟨by revert hLeft; cases left <;> decide,
        by revert hRight; cases right <;> decide⟩
    | leftGrouped hOwn hNot =>
      simp only [List.mem_cons, List.not_mem_nil, or_false, not_or] at hNot
      refine ⟨?_, fun hCoalesce => absurd hCoalesce hNot.2⟩
      unfold Layer.SuitsLeft
      split
      · exact absurd rfl hNot.1
      · exact absurd rfl hNot.2
      · rintro rfl
        exact absurd hLeft (by decide)
      · trivial

/-! ### Derivations of what is shown -/

theorem Shown.yields {level : Nat} {ts : List Token} {f : Formula} (h : Shown level ts f) :
    Yields ts f := by
  induction h with
  | name hName => exact .name (Token.opens_of_name hName)
  | unary _ hOperator _ ih => exact .unary (Token.opens_of_prefix hOperator) ih
  | binary _ hOwn _ _ ihLeft ihRight =>
    exact .binary (Token.opens_of_layer hOwn) ihLeft ihRight
  | parentheses _ hOpen hClose _ ih =>
    exact .parentheses (Token.opens_of_left hOpen) (Token.opens_of_right hClose) ih

theorem Formula.layer_binary {op : Lexeme} {own : Layer} (h : op.layer? = some own)
    (f g : Formula) : (binary op f g).layer = own := by
  rw [layer, h]
  rfl

namespace Layer

theorem written_eq {level : Nat} {layer : Layer} (h : level ≤ layer.level) :
    layer.written level = layer := if_pos h

theorem written_operand (level : Nat) : operand.written level = operand := ite_self _

theorem unary_includes (layer : Layer) : unary.Includes (layer.written Level.unary) := by
  cases layer <;> decide

theorem expression_includes (layer : Layer) :
    expression.Includes (layer.written Level.sequence) := by
  cases layer <;> decide

end Layer

/-- What is shown is a formula of a layer exactly if the layer takes it in as it is written and
all its operands suit. -/
theorem Shown.derives_iff {level : Nat} {ts : List Token} {f : Formula} (h : Shown level ts f)
    {layer : Layer} : Derives layer ts f ↔ layer.Includes (f.layer.written level) ∧ f.Legible := by
  induction h generalizing layer with
  | @name level t hName =>
    rw [Formula.layer, Layer.written_operand]
    exact ⟨fun hDerives => ⟨hDerives.of_name.1, trivial⟩, fun hBoth => .wider hBoth.1 (.name hName)⟩
  | @unary level t ts f hLevel hOperator hOperand ih =>
    rw [Formula.layer, Layer.written_eq hLevel]
    constructor
    · intro hDerives
      cases hDerives.shape with
      | name _ _ _ hFormula => cases hFormula
      | parentheses _ hOpen _ hTokens _ =>
        obtain ⟨rfl, -⟩ := List.cons.inj hTokens
        rw [hOpen] at hOperator
        cases hOperator
      | unary hOwn _ hTokens hFormula hRest =>
        obtain ⟨rfl, rfl⟩ := List.cons.inj hTokens
        cases hFormula
        exact ⟨hOwn, (ih.1 hRest).2⟩
      | binary _ _ _ hFormula _ _ => cases hFormula
    · rintro ⟨hOwn, hLegible⟩
      exact .wider hOwn (.unary hOperator (ih.2 ⟨f.layer.unary_includes, hLegible⟩))
  | @binary level own t ls rs f g hLevel hOwn hLeft hRight ihLeft ihRight =>
    have hLayer := Formula.layer_binary hOwn f g
    rw [Formula.Legible, hLayer, Layer.written_eq hLevel, suits_iff hOwn]
    constructor
    · intro hDerives
      cases hDerives.shape with
      | name _ _ _ hFormula => cases hFormula
      | parentheses _ hOpen _ hTokens hInner =>
        exact absurd hTokens (hLeft.yields.balanced.not_between hInner.yields.balanced
          (Token.opens_of_left hOpen) (Token.opens_of_layer hOwn))
      | unary _ _ _ hFormula _ => cases hFormula
      | @binary own' l r t' ls' rs' f' g' hWide hJoins hTokens hFormula hLeft' hRight' =>
        obtain ⟨hLexeme, rfl, rfl⟩ := Formula.binary.inj hFormula
        have hSize : size ls = size ls' := hLeft.yields.size_eq.trans hLeft'.yields.size_eq.symm
        obtain ⟨rfl, rfl, rfl⟩ := split_eq (Token.opens_of_layer hOwn)
          (Token.opens_of_layer hJoins.layer_eq) hSize hTokens
        obtain rfl : own' = own := Option.some.inj (hJoins.layer_eq.symm.trans hOwn)
        obtain ⟨hl, hf⟩ := ihLeft.1 hLeft'
        obtain ⟨hr, hg⟩ := ihRight.1 hRight'
        exact ⟨hWide, ⟨l, r, hJoins, hl, hr⟩, hf, hg⟩
    · rintro ⟨hWide, ⟨l, r, hJoins, hl, hr⟩, hf, hg⟩
      exact .wider hWide (.binary hJoins (ihLeft.2 ⟨hl, hf⟩) (ihRight.2 ⟨hr, hg⟩))
  | @parentheses level t u ts f hLess hOpen hClose hInner ih =>
    rw [Layer.written, if_neg (Nat.not_le.2 hLess)]
    constructor
    · intro hDerives
      obtain ⟨hOwn, hInner'⟩ := hDerives.of_parentheses hOpen hInner.yields.balanced
      exact ⟨hOwn, (ih.1 hInner').2⟩
    · rintro ⟨hOwn, hLegible⟩
      exact .wider hOwn (.parentheses hOpen hClose (ih.2 ⟨f.layer.expression_includes, hLegible⟩))

end Harmony

end ScriptOptimizer
