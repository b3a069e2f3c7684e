import ScriptOptimizer.Proofs.Parse.Reading
import ScriptOptimizer.Proofs.Syntax.Bare

/-!
The levels of expressions. An expression of some level is read by the rule of that level and by
those of all lower ones, as long as what follows it is nothing that those rules would add to it.
-/

namespace ScriptOptimizer

/-! ### What a rule refuses -/

/-- The rule fails on every stream whose current token is of the type. -/
def Refuses {α : Type} (p : Parse α) (type : TokenType) : Prop :=
  ∀ s a s', s.current.type = type → p s ≠ .ok a s'

namespace Refuses

variable {α β : Type} {p : Parse α} {f : α → Parse β} {type : TokenType}

theorem bind (h : Refuses p type) : Refuses (p >>= f) type := by
  intro s b s'' hType hRun
  obtain ⟨a, s', hFirst, -⟩ := Parse.bind_ok hRun
  exact h s a s' hType hFirst

theorem current {f : Token → Parse β} (h : ∀ t, t.type = type → Refuses (f t) type) :
    Refuses (Parse.current >>= f) type :=
  fun s b s'' hType hRun => h s.current hType s b s'' hType hRun

theorem sees {f : Bool → Parse β} (wanted : TokenType)
    (h : Refuses (f (decide (type = wanted))) type) :
    Refuses (Parse.sees wanted >>= f) type := by
  intro s b s'' hType hRun
  refine h s b s'' hType ?_
  rw [← hType]
  exact hRun

theorem unexpected (wanted : Bytes) : Refuses (Parse.unexpected wanted : Parse α) type :=
  fun s a s' _ hRun => by cases hRun

end Refuses

/-- Does a token of this type start an expression without operators, calls and constructions? -/
def TokenType.startsPrimary : TokenType → Bool
  | .identifier | .number | .string | .regex => true
  | .keyword .kwThis | .keyword .kwNull | .keyword .kwTrue | .keyword .kwFalse
  | .keyword .kwFunction => true
  | .punctuator .leftParen | .punctuator .leftBracket | .punctuator .leftBrace => true
  | _ => false

/-- Is it an operator that stands before its operand? -/
def TokenType.isPrefix : TokenType → Bool
  | .punctuator .bang | .punctuator .tilde | .punctuator .plus | .punctuator .minus
  | .keyword .kwTypeof | .keyword .kwVoid | .keyword .kwDelete | .punctuator .increment
  | .punctuator .decrement => true
  | _ => false

/-- Does a token of this type start an operand? -/
def TokenType.startsOperand (type : TokenType) : Bool :=
  type.startsPrimary || type = .keyword .kwNew

/-- Does a token of this type start an expression? -/
def TokenType.startsExpression (type : TokenType) : Bool := type.startsOperand || type.isPrefix

namespace Grammar

variable (g : Grammar) {type : TokenType}

theorem primary_refuses (h : type.startsPrimary = false) : Refuses g.primary type := by
  refine Refuses.current fun t hType => ?_
  rw [hType]
  split
  case h_13 => exact Refuses.unexpected _
  all_goals cases h

theorem leftHandSide_refuses (h : type.startsOperand = false) : Refuses g.leftHandSide type := by
  simp only [TokenType.startsOperand, Bool.or_eq_false_iff, decide_eq_false_iff_not] at h
  refine Refuses.sees _ ?_
  rw [decide_eq_false h.2]
  exact (g.primary_refuses h.1).bind

theorem afterOperand_refuses (h : type.startsOperand = false) : Refuses g.afterOperand type :=
  Refuses.current fun _ _ => (g.leftHandSide_refuses h).bind

theorem startsOperand_of_isPrefix (h : type.isPrefix = true) : type.startsOperand = false := by
  unfold TokenType.isPrefix at h
  split at h
  case h_10 => cases h
  all_goals rfl

/-- Without an operator before it an operand is all there is. -/
theorem unaryRule_run {s : Stream} (h : s.current.type.isPrefix = false) :
    g.unaryRule s = g.afterOperand s := by
  have hCurrent : Parse.current s = .ok s.current s := rfl
  refine (Parse.bind_run hCurrent).trans (congrFun ?_ s)
  split
  case h_10 => rfl
  all_goals simp_all [TokenType.isPrefix]

end Grammar

/-! ### What may follow -/

/-- How tightly a type of token binds as a binary operator, where a bare `in` may be none. -/
def TokenType.binds (noIn : Bool) (type : TokenType) : Nat :=
  if noIn && type = .keyword .kwIn then 0 else type.precedence

/-- Would the rules of a level add a token of this type to the expression before it? -/
def TokenType.continues (type : TokenType) (level : Nat) (noIn : Bool) : Bool :=
  (level ≤ Level.call &&
      (type = .punctuator .dot || type = .punctuator .leftBracket ||
        type = .punctuator .leftParen)) ||
    (level ≤ Level.after &&
      (type = .punctuator .increment || type = .punctuator .decrement)) ||
    (type.binds noIn ≠ 0 && level ≤ type.binds noIn + 2) ||
    (level ≤ Level.conditional && type = .punctuator .question) ||
    (level ≤ Level.assign && type.isAssignment) ||
    (level = Level.sequence && type = .punctuator .comma)

/-- What follows is nothing that the rules of the level would add. -/
def Ends (level : Nat) (noIn : Bool) (rest : List Spelling) : Prop :=
  ∀ w, rest.head? = some w → w.type.continues level noIn = false

namespace Ends

variable {level level' : Nat} {noIn : Bool} {rest : List Spelling} {w : Spelling}

theorem mono (h : Ends level noIn rest) (hLevel : level ≤ level') : Ends level' noIn rest := by
  intro w hw
  have := h w hw
  have hZero : level' = Level.sequence → level = Level.sequence := by
    unfold Level.sequence
    omega
  simp only [TokenType.continues, Bool.or_eq_false_iff, Bool.and_eq_false_iff,
    decide_eq_false_iff_not] at this ⊢
  grind

theorem cons (h : w.type.continues level noIn = false) : Ends level noIn (w :: rest) := by
  rintro v ⟨⟩
  exact h

theorem not_continues (h : Ends level noIn (w :: rest)) : w.type.continues level noIn = false :=
  h w rfl

theorem call (h : Ends level noIn (w :: rest)) (hLevel : level ≤ Level.call) :
    w.type ≠ .punctuator .dot ∧ w.type ≠ .punctuator .leftBracket ∧
      w.type ≠ .punctuator .leftParen := by
  have := h.not_continues
  grind [TokenType.continues]

theorem after (h : Ends level noIn (w :: rest)) (hLevel : level ≤ Level.after) :
    w.type ≠ .punctuator .increment ∧ w.type ≠ .punctuator .decrement := by
  have := h.not_continues
  grind [TokenType.continues]

theorem binds (h : Ends level noIn (w :: rest)) :
    w.type.binds noIn = 0 ∨ w.type.binds noIn + 2 < level := by
  have := h.not_continues
  grind [TokenType.continues]

theorem question (h : Ends level noIn (w :: rest)) (hLevel : level ≤ Level.conditional) :
    w.type ≠ .punctuator .question := by
  have := h.not_continues
  grind [TokenType.continues]

theorem assignment (h : Ends level noIn (w :: rest)) (hLevel : level ≤ Level.assign) :
    w.type.isAssignment = false := by
  have := h.not_continues
  grind [TokenType.continues]

theorem comma (h : Ends Level.sequence noIn (w :: rest)) : w.type ≠ .punctuator .comma := by
  have := h.not_continues
  grind [TokenType.continues]

end Ends

/-! ### What the levels read -/

/-- A rule reads the spellings as the expression, up to places, wherever `follow` allows. The
grammar is nested deeper than there are tokens. -/
def ReadsBy (rule : Grammar → Parse Expr) (follow : List Spelling → Prop) (ws : List Spelling)
    (e : Expr) : Prop :=
  ∀ n, ws.length ≤ n → ∀ rest, follow rest → Reads (rule (Grammar.nested n)) ws rest
    (·.bare = e.bare)

namespace Grammar

/-- The head of a chain of member accesses and calls, where constructions are read by a rule. -/
def chainHead (g : Grammar) (constructs : Parse Expr) : Parse Expr := do
  if ← Parse.sees (.keyword .kwNew) then constructs else g.primary

theorem leftHandSide_eq (g : Grammar) :
    g.leftHandSide = g.chainHead g.constructRule >>= g.memberTail true := by
  rw [leftHandSide, chainHead, bind_assoc]
  congr
  funext b
  cases b <;> rfl

theorem constructRule_eq (g : Grammar) : g.constructRule = (do
    let start ← Parse.position
    let _ ← Parse.expect (.keyword .kwNew)
    let callee ← g.chainHead g.construct >>= g.memberTail false
    let list ← if ← Parse.sees (.punctuator .leftParen) then g.arguments else pure []
    Parse.inSlot (.construct (← Parse.spanFrom start) (.holds callee) list)) := by
  simp only [constructRule, chainHead, bind_assoc]
  congr
  funext start
  congr
  funext _
  congr
  funext b
  cases b <;> rfl

end Grammar

/-- The spellings are a chain of member accesses and, where `calls` says so, calls. -/
def ReadsChain (calls : Bool) (ws : List Spelling) (e : Expr) : Prop :=
  ∀ n k, ws.length ≤ n → ws.length ≤ k → ∀ rest,
    Extends ((Grammar.nested n).chainHead (Grammar.nested k).constructRule)
      ((Grammar.nested n).memberStep calls) ws rest (·.bare = e.bare)

/-- The spellings are operands joined by operators of a level and higher ones. -/
def ReadsJoined (level : Nat) (noIn : Bool) (ws : List Spelling) (e : Expr) : Prop :=
  ∀ least, 0 < least → least + 2 ≤ level → ∀ n, ws.length ≤ n → ∀ rest,
    Ends (min (level + 1) Level.unary) noIn rest →
      Extends (Grammar.nested n).unaryRule ((Grammar.nested n).binaryStep least noIn) ws rest
        (·.bare = e.bare)

/-- The rule of a level reads the spellings as the expression. -/
def ReadsAs (noIn : Bool) (ws : List Spelling) (e : Expr) : Nat → Prop
  | 0 => ReadsBy (·.around.expression noIn) (Ends Level.sequence noIn) ws e
  | 1 => ReadsBy (·.assignmentRule noIn) (Ends Level.assign noIn) ws e
  | 2 => ReadsBy (·.conditional noIn) (Ends Level.assign noIn) ws e
  | 13 => ReadsBy Grammar.unaryRule (Ends Level.unary noIn) ws e
  | 14 => ReadsBy Grammar.afterOperand (Ends Level.after noIn) ws e
  | 15 => ReadsChain true ws e
  | 16 => ReadsBy Grammar.primary (fun _ => True) ws e
  | level => ReadsJoined level noIn ws e

/-- The first token may begin an expression. No colon follows a name that is first, or it would be
a label. -/
def Begins : List Spelling → Prop
  | [] => False
  | w :: more => w.type.startsExpression = true ∧
    (w.type = .identifier → ∀ v, more.head? = some v → v.type ≠ .punctuator .colon)

namespace Begins

variable {ws us : List Spelling}

theorem ne_nil (h : Begins ws) : ws ≠ [] := by
  rintro rfl
  exact h

theorem of_ne {w : Spelling} (h : w.type.startsExpression = true) (hType : w.type ≠ .identifier)
    (more : List Spelling) : Begins (w :: more) :=
  ⟨h, fun hName => absurd hName hType⟩

theorem head_ne (h : Begins ws) {v : Spelling} (hv : ws.head? = some v) {type : TokenType}
    (hType : type.startsExpression = false) : v.type ≠ type := by
  match ws, h, hv with
  | _ :: _, h, rfl =>
    rintro rfl
    rw [h.1] at hType
    cases hType

theorem append (h : Begins ws) (hNext : ∀ v, us.head? = some v → v.type ≠ .punctuator .colon) :
    Begins (ws ++ us) := by
  match ws, h with
  | [w], h => exact ⟨h.1, fun _ => hNext⟩
  | w :: u :: more, h => exact h

end Begins

/-- The rules of a level and of all lower ones read the spellings as the expression. -/
structure ReadsAt (level : Nat) (noIn : Bool) (ws : List Spelling) (e : Expr) : Prop where
  begins : Begins ws
  reads {k : Nat} : k ≤ level → ReadsAs noIn ws e k

theorem ReadsAt.mono {level k : Nat} {noIn : Bool} {ws : List Spelling} {e : Expr}
    (h : ReadsAt level noIn ws e) (hk : k ≤ level) : ReadsAt k noIn ws e :=
  ⟨h.begins, fun hLow => h.reads (Nat.le_trans hLow hk)⟩

namespace ReadsAs

open Parse

variable {noIn : Bool} {ws : List Spelling} {e : Expr}

theorem joined_iff {level : Nat} (hLow : 3 ≤ level) (hHigh : level ≤ 12) :
    ReadsAs noIn ws e level ↔ ReadsJoined level noIn ws e := by
  have : level = 3 ∨ level = 4 ∨ level = 5 ∨ level = 6 ∨ level = 7 ∨ level = 8 ∨ level = 9 ∨
    level = 10 ∨ level = 11 ∨ level = 12 := by omega
  rcases this with rfl | rfl | rfl | rfl | rfl | rfl | rfl | rfl | rfl | rfl <;> exact Iff.rfl

theorem listed_of_assigned (h : ReadsAs noIn ws e 1) : ReadsAs noIn ws e 0 := by
  intro n hn rest hEnds
  refine Reads.of_cons fun w more hCons => ?_
  subst hCons
  refine Reads.last (h n hn _ (hEnds.mono (by decide))) fun a ha => ?_
  refine Reads.still (sees_reads _) fun b hb => ?_
  subst hb
  rw [decide_eq_false hEnds.comma]
  exact Reads.pure ha

theorem assigned_of_test (h : ReadsAs noIn ws e 2) : ReadsAs noIn ws e 1 := by
  intro n hn rest hEnds
  refine Reads.of_cons fun w more hCons => ?_
  subst hCons
  refine Reads.still current_still fun first _ => ?_
  refine Reads.last (h n hn _ hEnds) fun a ha => ?_
  refine Reads.still current_reads fun t hSpelled => ?_
  rw [hSpelled.type_eq, hEnds.assignment (by decide)]
  exact Reads.pure ha

theorem binaryStep_stops {g : Grammar} {least : Nat} {rest : List Spelling} (left : Expr)
    (h : Ends (least + 2) noIn rest) : Reads (g.binaryStep least noIn left) [] rest (· = none) := by
  refine Reads.of_cons fun w more hCons => ?_
  subst hCons
  refine Reads.still current_reads fun t hSpelled => ?_
  have hStop : (Grammar.precedenceOf noIn t = 0 || Grammar.precedenceOf noIn t < least) = true := by
    have hBinds : Grammar.precedenceOf noIn t = w.type.binds noIn := by
      rw [Grammar.precedenceOf, hSpelled.type_eq]
      rfl
    have := h.binds
    rw [hBinds]
    grind
  dsimp only
  rw [if_pos hStop]
  exact Reads.pure rfl

/-- Operands joined by operators of a level are read to their end by the rule of that level. -/
theorem binaryRule_of_joined {level least n : Nat} {rest : List Spelling}
    (h : ReadsJoined level noIn ws e) (hPos : 0 < least) (hLevel : least + 2 ≤ level)
    (hHigh : least + 2 ≤ Level.unary) (hn : ws.length ≤ n) (hEnds : Ends (least + 2) noIn rest) :
    Reads ((Grammar.nested n).binaryRule least noIn) ws rest (·.bare = e.bare) := by
  refine Extends.close (h least hPos hLevel n hn rest (hEnds.mono ?_)) fun a _ =>
    binaryStep_stops a hEnds
  omega

/-- An assignment may follow what is no conditional. -/
theorem conditional_of_joined (h : ReadsAs noIn ws e 3) :
    ReadsBy (·.conditional noIn) (Ends Level.conditional noIn) ws e := by
  intro n hn rest hEnds
  refine Reads.of_cons fun w more hCons => ?_
  subst hCons
  have hRule := binaryRule_of_joined h Nat.one_pos (Nat.le_refl 3) (by decide) hn
    (hEnds.mono (by decide))
  refine Reads.last hRule fun a ha => Reads.still (accept_passes (hEnds.question (by decide))) ?_
  rintro b rfl
  exact Reads.pure ha

theorem test_of_joined (h : ReadsAs noIn ws e 3) : ReadsAs noIn ws e 2 :=
  fun n hn rest hEnds => conditional_of_joined h n hn rest (hEnds.mono (by decide))

theorem joined_of_joined {level : Nat} (h : ReadsJoined (level + 1) noIn ws e) :
    ReadsJoined level noIn ws e :=
  fun least hPos hLevel n hn rest hEnds =>
    h least hPos (by omega) n hn rest (hEnds.mono (by omega))

theorem joined_of_unary {level : Nat} (h : ReadsAs noIn ws e 13) (hLevel : 12 ≤ level) :
    ReadsJoined level noIn ws e :=
  fun least _ _ n hn rest hEnds =>
    Extends.of_reads (h n hn rest (hEnds.mono (by unfold Level.unary; omega)))

theorem unary_of_operand (h : ReadsAs noIn ws e 14) : ReadsAs noIn ws e 13 := by
  intro n hn rest hEnds hRest s hShows
  obtain ⟨a, s', hRun, ha, hAfter⟩ := h n hn rest (hEnds.mono (by decide)) hRest s hShows
  refine ⟨a, s', ?_, ha, hAfter⟩
  cases hPrefix : s.current.type.isPrefix with
  | false => rw [Grammar.unaryRule_run _ hPrefix, hRun]
  | true =>
    exact absurd hRun (Grammar.afterOperand_refuses _
      (Grammar.startsOperand_of_isPrefix hPrefix) s a s' rfl)

theorem memberStep_stops {g : Grammar} {calls : Bool} {w : Spelling} {rest : List Spelling}
    (e : Expr) (hDot : w.type ≠ .punctuator .dot) (hBracket : w.type ≠ .punctuator .leftBracket)
    (hParen : calls = true → w.type ≠ .punctuator .leftParen) :
    Reads (g.memberStep calls e) [] (w :: rest) (· = none) := by
  refine Reads.still current_reads fun t hSpelled => ?_
  rw [hSpelled.type_eq]
  split
  · contradiction
  · contradiction
  · rename_i hType
    cases calls with
    | true => exact absurd hType (hParen rfl)
    | false => exact Reads.pure rfl
  · exact Reads.pure rfl

theorem operand_of_chain (h : ReadsAs noIn ws e 15) : ReadsAs noIn ws e 14 := by
  intro n hn rest hEnds
  refine Reads.of_cons fun w more hCons => ?_
  subst hCons
  obtain ⟨hDot, hBracket, hParen⟩ := hEnds.call (by decide)
  obtain ⟨hIncrement, hDecrement⟩ := hEnds.after (by decide)
  have hLeft : Reads (Grammar.nested n).leftHandSide ws (w :: more) (·.bare = e.bare) := by
    rw [Grammar.leftHandSide_eq]
    exact Extends.close (h n n hn hn _) fun a _ =>
      memberStep_stops a hDot hBracket fun _ => hParen
  refine Reads.still current_still fun first _ => Reads.last hLeft fun a ha => ?_
  refine Reads.still current_reads fun t hSpelled => ?_
  dsimp only
  rw [hSpelled.type_eq, decide_eq_false hIncrement, decide_eq_false hDecrement]
  exact Reads.pure ha

/-- What is read without operators is the head of a chain. -/
theorem chain_of_primary (h : ReadsAs noIn ws e 16) (calls : Bool) : ReadsChain calls ws e := by
  intro n k hn _ rest
  refine Extends.of_reads fun hRest s hShows => ?_
  obtain ⟨a, s', hRun, ha, hAfter⟩ := h n hn rest trivial hRest s hShows
  refine ⟨a, s', ?_, ha, hAfter⟩
  rw [Grammar.chainHead, bind_run (show sees (.keyword .kwNew) s = .ok _ s from rfl)]
  split
  · rename_i hNew
    exact absurd hRun (Grammar.primary_refuses _ rfl s a s' (of_decide_eq_true hNew))
  · exact hRun

/-- Each rule reads what the next higher one reads. -/
theorem down {level : Nat} (hLevel : level < 16) (h : ReadsAs noIn ws e (level + 1)) :
    ReadsAs noIn ws e level := by
  match level with
  | 0 => exact listed_of_assigned h
  | 1 => exact assigned_of_test h
  | 2 => exact test_of_joined h
  | 3 | 4 | 5 | 6 | 7 | 8 | 9 | 10 | 11 => exact joined_of_joined h
  | 12 => exact joined_of_unary h (Nat.le_refl _)
  | 13 => exact unary_of_operand h
  | 14 => exact operand_of_chain h
  | 15 => exact chain_of_primary h true
  | level + 16 => omega

end ReadsAs

/-- What the rule of a level reads the rules of all lower levels read too. -/
theorem ReadsAt.of_reads {level : Nat} {noIn : Bool} {ws : List Spelling} {e : Expr}
    (hBegins : Begins ws) (hLevel : level ≤ 16) (h : ReadsAs noIn ws e level) :
    ReadsAt level noIn ws e := by
  refine ⟨hBegins, fun {k} hk => ?_⟩
  induction level with
  | zero => rwa [Nat.le_zero.1 hk]
  | succ level ih =>
    rcases Nat.lt_or_eq_of_le hk with hLow | rfl
    · exact ih (Nat.le_of_succ_le hLevel) (h.down hLevel) (Nat.le_of_lt_succ hLow)
    · exact h

/-! ### What nested rules read -/

namespace ReadsAt

variable {level n : Nat} {noIn : Bool} {ws rest : List Spelling} {e : Expr}

theorem assignment (h : ReadsAt level noIn ws e) (hLevel : Level.assign ≤ level)
    (hn : ws.length < n) (hEnds : Ends Level.assign noIn rest) :
    Reads ((Grammar.nested n).assignment noIn) ws rest (·.bare = e.bare) := by
  obtain ⟨m, rfl⟩ := Nat.exists_eq_add_of_lt hn
  exact h.reads hLevel _ (Nat.le_add_right _ m) rest hEnds

theorem expression (h : ReadsAt level noIn ws e) (hn : ws.length < n)
    (hEnds : Ends Level.sequence noIn rest) :
    Reads ((Grammar.nested n).expression noIn) ws rest (·.bare = e.bare) := by
  obtain ⟨m, rfl⟩ := Nat.exists_eq_add_of_lt hn
  exact h.reads (Nat.zero_le level) _ (Nat.le_add_right _ m) rest hEnds

theorem unary (h : ReadsAt level noIn ws e) (hLevel : Level.unary ≤ level) (hn : ws.length < n)
    (hEnds : Ends Level.unary noIn rest) :
    Reads (Grammar.nested n).unary ws rest (·.bare = e.bare) := by
  obtain ⟨m, rfl⟩ := Nat.exists_eq_add_of_lt hn
  exact h.reads hLevel _ (Nat.le_add_right _ m) rest hEnds

/-- A right operand. -/
theorem binary {least : Nat} (h : ReadsAt level noIn ws e) (hLevel : least + 2 ≤ level)
    (hPos : 0 < least) (hHigh : least + 2 ≤ Level.unary) (hn : ws.length < n)
    (hEnds : Ends (least + 2) noIn rest) :
    Reads ((Grammar.nested n).binary least noIn) ws rest (·.bare = e.bare) := by
  obtain ⟨m, rfl⟩ := Nat.exists_eq_add_of_lt hn
  have hJoined : ReadsJoined (least + 2) noIn ws e := by
    rcases Nat.lt_or_eq_of_le hHigh with hLow | hEq
    · exact (ReadsAs.joined_iff (by omega) (Nat.le_of_lt_succ hLow)).1 (h.reads hLevel)
    · have hUnary : ReadsAs noIn ws e 13 := by
        have := h.reads hLevel
        rwa [hEq] at this
      exact ReadsAs.joined_of_unary hUnary (by rw [hEq]; decide)
  exact ReadsAs.binaryRule_of_joined hJoined hPos (Nat.le_refl _) hHigh (Nat.le_add_right _ m) hEnds

end ReadsAt

end ScriptOptimizer
