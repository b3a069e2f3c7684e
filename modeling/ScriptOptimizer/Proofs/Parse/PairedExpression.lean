import ScriptOptimizer.Proofs.Parse.Pairing
import ScriptOptimizer.Proofs.Syntax.Formed

/-!
Expressions side by side: each rule for expressions gives trees that differ in places only, and that
are formed from the tokens of the first text.
-/

namespace ScriptOptimizer

namespace Pairing

variable {P : Pairing} {s u : Stream} {g : Grammar} {noIn : Bool}

/-- The tokens of the first text. -/
def tokens (P : Pairing) : TokenSet := fun dot t => ∃ u, P.rel dot t u

/-- Two trees that differ in places only, of which the first is formed. -/
structure Twins {α : Type} (bare : α → α) (formed : α → Prop) (a b : α) : Prop where
  alike : Alike bare a b
  formed : formed a

/-- Expressions that belong together. -/
def Exprs (P : Pairing) (a b : Expr) (_ : Stream) : Prop :=
  Twins Expr.bare (Expr.Formed P.tokens) a b

/-- Statements that belong together. No `else` comes after a statement that one would belong to. -/
def Stmts (P : Pairing) (c : Context) (a b : Stmt) (s : Stream) : Prop :=
  Twins Stmt.bare (Stmt.Formed P.tokens c) a b ∧
    (a.endsOpen = true → s.current.type ≠ .keyword .kwElse)

/-- Side by side the rules give expressions and statements that belong together. -/
structure Rules (P : Pairing) (g : Grammar) : Prop where
  assignment (noIn : Bool) : P.Agree P.Exprs (g.assignment noIn) (g.assignment noIn)
  binary (least : Nat) (noIn : Bool) :
    P.Agree P.Exprs (g.binary least noIn) (g.binary least noIn)
  unary : P.Agree P.Exprs g.unary g.unary
  construct : P.Agree P.Exprs g.construct g.construct
  statement (c : Context) : P.Agree (P.Stmts c) (g.statement c) (g.statement c)

/-- Names that belong together. -/
def Names (P : Pairing) (dot : Bool) (a b : Ident) (_ : Stream) : Prop :=
  Twins Ident.bare (Ident.From P.tokens dot) a b

theorem Streams.name {dot : Bool} (h : P.Streams dot s u) :
    P.Outcomes false (P.Names dot) (Parse.name s) (Parse.name u) := by
  refine Streams.current ?_
  have hSame := P.same h.rel
  rw [hSame.type_eq]
  split
  case isFalse => exact h.unexpected _
  case isTrue hType =>
    have hMore := h.upcoming_ne_nil (by simp [hType])
    have hAdvance := h.advance_next hMore
    rw [hType] at hAdvance
    refine .bind hAdvance fun t v s u hRead h' => h'.nameAt ⟨?_, ?_⟩
    · rw [Alike, Ident.bare, Ident.bare]
      simp only [Ident.mk.injEq, true_and]
      exact hSame.value_eq.symm
    · exact ⟨_, ⟨_, h.rel⟩, hType, rfl⟩

theorem Twins.all_formed {α : Type} {bare : α → α} {formed : α → Prop} {as bs : List α}
    (h : List.Forall₂ (Twins bare formed) as bs) : ∀ a ∈ as, formed a := by
  induction h with
  | nil => exact List.forall_mem_nil _
  | cons h _ ih => exact List.forall_mem_cons.mpr ⟨h.formed, ih⟩

theorem Twins.all_alike {α : Type} {bare : α → α} {formed : α → Prop} {as bs : List α}
    (h : List.Forall₂ (Twins bare formed) as bs) : as.map bare = bs.map bare :=
  Alike.map_eq (h.imp fun _ _ h => h.alike)

/-- A row of expressions in slots. -/
theorem Twins.slots {as bs : List Expr}
    (h : List.Forall₂ (Twins Expr.bare (Expr.Formed P.tokens)) as bs) :
    Slot.bares (as.map .holds) = Slot.bares (bs.map .holds) ∧
      Slot.AllFormed P.tokens (as.map .holds) := by
  refine ⟨Alike.slots (h.imp fun _ _ h => h.alike), Slot.allFormed_iff.mpr ?_⟩
  simp only [List.mem_map, forall_exists_index, and_imp, forall_apply_eq_imp_iff₂]
  exact Twins.all_formed h

/-- A row of statements. -/
theorem Twins.statements {c : Context} {as bs : List Stmt}
    (h : List.Forall₂ (Twins Stmt.bare (Stmt.Formed P.tokens c)) as bs) :
    Stmt.bares as = Stmt.bares bs ∧ Stmt.AllFormed P.tokens c as := by
  refine ⟨?_, Stmt.allFormed_iff.mpr (Twins.all_formed h)⟩
  rw [Stmt.bares_eq_map, Stmt.bares_eq_map, Twins.all_alike h]

/-- A plain name in a slot. -/
theorem slotName :
    P.Agree (fun a b _ => (Slot.holds a).NameFrom P.tokens false ∧ Alike Expr.bare a b)
      (do Parse.inSlot (.ident (← Parse.name))) (do Parse.inSlot (.ident (← Parse.name))) := by
  refine fun h => .bind h.name fun a b s u hName h => h.inSlot ⟨hName.formed, ?_⟩
  rw [Alike, Expr.bare, Expr.bare, hName.alike]

/-- A literal is read at its token. -/
theorem Streams.literal {allowed : TokenType → Bool} (h : P.Streams false s u)
    (hDot : s.current.type ≠ .punctuator .dot) (hAllowed : allowed s.current.type = true) :
    P.Outcomes false (fun a b _ => ∃ lit lit', a = .literal lit ∧ b = .literal lit' ∧
        Twins Literal.bare (Literal.From P.tokens allowed) lit lit')
      ((do let _ ← Parse.advance; Parse.inSlot (← Parse.literalAt s.current)) s)
      ((do let _ ← Parse.advance; Parse.inSlot (← Parse.literalAt u.current)) u) := by
  have hSame := P.same h.rel
  refine .bind (h.advance hDot) fun _ _ s' u' _ h' => ?_
  refine .bind (h'.literalAt (Q := fun a b _ => ∃ lit lit', a = .literal lit ∧
    b = .literal lit' ∧ Twins Literal.bare (Literal.From P.tokens allowed) lit lit')
    ⟨_, _, rfl, rfl, ?_, ?_⟩) fun _ _ _ _ hLiteral h => h.inSlot hLiteral
  · rw [Alike, Literal.bare, Literal.bare, hSame.literal_eq, hSame.literalValue_eq]
  · exact ⟨_, ⟨_, h.rel⟩, hAllowed, rfl, rfl⟩

/-- Keys of entries that belong together. -/
def Keys (P : Pairing) (a b : Expr) (_ : Stream) : Prop :=
  Twins Expr.bare (fun e => (Slot.holds e).KeyFrom P.tokens) a b

theorem propertyKey : P.Agree P.Keys Grammar.propertyKey Grammar.propertyKey := by
  intro s u h
  refine Streams.current ?_
  have hSame := P.same h.rel
  have hLiteral (hType : s.current.type.isKeyLiteral = true) :
      P.Outcomes false P.Keys
        ((do let _ ← Parse.advance; Parse.inSlot (← Parse.literalAt s.current)) s)
        ((do let _ ← Parse.advance; Parse.inSlot (← Parse.literalAt u.current)) u) := by
    refine (h.literal (fun hDot => by simp [hDot, TokenType.isKeyLiteral] at hType) hType).mono ?_
    rintro _ _ _ ⟨lit, lit', rfl, rfl, hTwins⟩
    refine ⟨?_, hTwins.formed⟩
    rw [Alike, Expr.bare, Expr.bare, hTwins.alike]
  rw [h.type_eq]
  cases hType : s.current.type with
  | string => exact hLiteral (by rw [hType]; rfl)
  | number => exact hLiteral (by rw [hType]; rfl)
  | identifier =>
    refine .bind h.name fun a b s u hName h => h.inSlot ⟨?_, .inl hName.formed⟩
    rw [Alike, Expr.bare, Expr.bare, hName.alike]
  | keyword k =>
    refine .bind (h.advance (by simp [hType])) fun _ _ s' u' _ h' => ?_
    refine .bind (h'.nameAt (Q := fun a b _ => a.bare = b.bare ∧ a.name = s.current.literal)
      ⟨?_, rfl⟩) fun a b _ _ hName h' => h'.inSlot ⟨?_, .inr ⟨k, _, ⟨_, h.rel⟩, hType, hName.2⟩⟩
    · rw [Ident.bare, Ident.bare, hSame.literal_eq]
    · rw [Alike, Expr.bare, Expr.bare, hName.1]
  | _ => exact h.unexpected _

/-- Entries that belong together. -/
def Properties (P : Pairing) (a b : Property) (_ : Stream) : Prop :=
  Twins Property.bare (Property.Formed P.tokens) a b

/-- Functions that belong together, with given names. -/
def Functions (P : Pairing) (id id' : Option Ident) (a b : Function) (_ : Stream) : Prop :=
  Twins Function.bare (Function.Formed P.tokens) a b ∧
    ∃ params params' body body', a = .mk id params [] none body false ∧
      b = .mk id' params' [] none body' false ∧ params'.length = params.length

namespace Rules

variable (hRules : P.Rules g)
include hRules

theorem expression (noIn : Bool) : P.Agree P.Exprs (g.expression noIn) (g.expression noIn) := by
  intro s u h
  refine .bind (hRules.assignment noIn h) fun a b s u hFirst h => ?_
  refine h.sees _ fun comma hComma => ?_
  cases comma with
  | false => exact .pure hFirst h
  | true =>
    refine .bind (h.commaTail (hRules.assignment noIn)) fun as bs s u hRest h => ?_
    obtain ⟨hRest, hne⟩ := hRest
    refine Streams.spanFrom (h.inSlot ⟨?_, ?_⟩)
    · rw [Alike, Expr.bare, Expr.bare, (Twins.slots (.cons hFirst hRest)).1]
    · refine ⟨?_, (Twins.slots (.cons hFirst hRest)).2⟩
      have hPos := List.length_pos_iff.mpr (hne (by simpa using hComma.symm))
      simp only [List.length_map, List.length_cons]
      omega

/-- A statement in braces. -/
theorem inBlock (c : Context) :
    P.Agree (fun a b _ => Twins Stmt.bare (Stmt.Formed P.tokens c) a b) (g.inBlock c)
      (g.inBlock c) := by
  refine fun h => h.sees _ fun b _ => ?_
  cases b with
  | true => exact h.unexpected _
  | false => exact (hRules.statement c h).mono fun _ _ _ hs => hs.1

/-- Statements in braces: their lists belong together. -/
theorem block (c : Context) :
    P.Agree (fun a b _ => List.Forall₂ (Twins Stmt.bare (Stmt.Formed P.tokens c)) a.2 b.2)
      (g.block c) (g.block c) := by
  intro s u h
  refine Streams.position (.bind (h.expect (by simp)) fun _ _ s u _ h => ?_)
  refine .bind (Agree.many (Agree.sees _) (hRules.inBlock c) h) fun as bs s u has h => ?_
  refine .bind (h.advance (by simp [has.2])) fun _ _ s u _ h => ?_
  exact Streams.spanFrom (.pure has.1 h)

/-- The parameters and the body of a function. -/
theorem functionRest {id id' : Option Ident} (hAlike : id.map Ident.bare = id'.map Ident.bare)
    (hName : ∀ n, id = some n → n.From P.tokens false) :
    P.Agree (P.Functions id id') (g.functionRest id) (g.functionRest id') := by
  intro s u h
  refine .bind (h.expect (by simp)) fun _ _ s u _ h => ?_
  refine .bind (Agree.commaSeparated (by simp) slotName h) fun ps qs s u hps h => ?_
  obtain ⟨hNames, hSlots⟩ := (List.forall₂_and_left ps qs).mp hps
  refine .bind (hRules.block _ h) fun b b' s u hBody h => .pure ⟨⟨?_, ?_, ?_⟩, ?_⟩ h
  · rw [Alike, Function.bare, Function.bare, hAlike, Alike.slots hSlots, Block.bare, Block.bare,
      (Twins.statements hBody).1]
  · refine ⟨hName, ?_, rfl, rfl, rfl⟩
    simp only [List.mem_map, forall_exists_index, and_imp, forall_apply_eq_imp_iff₂]
    exact hNames
  · exact (Twins.statements hBody).2
  · exact ⟨_, _, _, _, rfl, rfl, by simp [hps.length_eq]⟩

/-- A function used as a value. -/
theorem functionExpression (h : P.Streams false s u) (hType : s.current.type ≠ .punctuator .dot) :
    P.Outcomes false P.Exprs (g.functionExpression s) (g.functionExpression u) := by
  refine Streams.position (.bind (h.advance hType) fun _ _ s u _ h => ?_)
  refine h.sees _ fun named _ => .branch (Q := fun a b _ =>
    Option.map Ident.bare a = Option.map Ident.bare b ∧ ∀ n, a = some n → n.From P.tokens false)
    ?_ fun id id' s u hId h => ?_
  · cases named with
    | false => exact .pure ⟨rfl, nofun⟩ h
    | true =>
      refine h.name.map fun a b s hName => ⟨congrArg some hName.alike, ?_⟩
      rintro n ⟨⟩
      exact hName.formed
  · refine .bind (hRules.functionRest hId.1 hId.2 h) fun fn fn' s u hFn h => ?_
    refine Streams.spanFrom (h.inSlot ⟨?_, hFn.1.formed⟩)
    rw [Alike, Expr.bare, Expr.bare, hFn.1.alike]

/-- The elements of an array, some of them left out. -/
theorem arrayLiteral : P.Agree P.Exprs g.arrayLiteral g.arrayLiteral := by
  have hItem : P.Agree (fun a b _ => Twins Slot.bare (Slot.Optional P.tokens) a b)
      (Parse.element (g.assignment false)) (Parse.element (g.assignment false)) := by
    refine fun h => .bind (h.accept (by simp)) fun b b' s u hb h => ?_
    obtain rfl : b = b' := hb.1
    cases b with
    | true => exact .pure ⟨rfl, trivial⟩ h
    | false =>
      refine .bind (hRules.assignment false h) fun a a' s u ha h => ?_
      have hSlot : Twins Slot.bare (Slot.Optional P.tokens) (.holds a) (.holds a') := by
        refine ⟨?_, ha.formed⟩
        rw [Alike, Slot.bare, Slot.bare, ha.alike]
      refine h.sees _ fun b _ => ?_
      cases b with
      | true => exact .pure hSlot h
      | false => exact .bind (h.expect (by simp)) fun _ _ _ _ _ h => .pure hSlot h
  intro s u h
  refine Streams.position (.bind (h.expect (by simp)) fun _ _ s u _ h => ?_)
  refine .bind (Agree.many (Agree.accept (by simp)) hItem h) fun as bs s u has h => ?_
  refine Streams.spanFrom (h.inSlot ⟨?_, Slot.allOptional_iff.mpr (Twins.all_formed has.1)⟩)
  rw [Alike, Expr.bare, Expr.bare, Slot.bares_eq_map, Slot.bares_eq_map, Twins.all_alike has.1]

/-- The rest of an accessor after its word. -/
theorem accessor {start start' : Place} {t v : Token} (hRel : P.rel false t v)
    (hWord : t.value = Bytes.ofString "get" ∨ t.value = Bytes.ofString "set")
    (h : P.Streams false s u) (hType : s.current.type = .identifier) :
    P.Outcomes false P.Properties (g.accessor start t s) (g.accessor start' v u) := by
  refine .bind (h.advance (by simp [hType])) fun _ _ s u _ h => ?_
  refine .bind (propertyKey h) fun key key' s u hKey h => Streams.position ?_
  have hNone : Option.map Ident.bare none = Option.map Ident.bare none := rfl
  refine .bind (hRules.functionRest hNone nofun h) fun fn fn' s u hFn h => ?_
  obtain ⟨hTwins, params, params', body, body', rfl, rfl, hLength⟩ := hFn
  have hValue := (P.same hRel).value_eq
  refine h.check hRel ⟨by simp [hValue, hLength], rfl⟩ fun hGetter => ?_
  refine h.check hRel ⟨by simp [hValue, hLength], rfl⟩ fun hSetter => ?_
  refine Streams.spanFrom (h.slotted fun s u h => Streams.spanFrom (.pure ⟨?_, ?_⟩ h))
  · rw [Alike, Property.bare, Property.bare, Slot.bare, Slot.bare, hKey.alike, Slot.bare,
      Slot.bare, Expr.bare, Expr.bare, hTwins.alike, hValue]
  · refine ⟨hKey.formed, hTwins.formed, .inr ⟨_, _, _, ?_, rfl⟩, rfl, rfl⟩
    simp only [Bool.and_eq_true, decide_eq_true_eq, not_and, Decidable.not_not] at hGetter hSetter
    exact hWord.imp (fun h => ⟨h, hGetter h⟩) fun h => ⟨h, hSetter h⟩

omit hRules in
theorem endsKey_eq {t v : Option Token} (h : v.map Token.type = t.map Token.type) :
    Grammar.endsKey v = Grammar.endsKey t := by
  cases t <;> cases v <;> simp_all [Grammar.endsKey]

theorem property : P.Agree P.Properties g.property g.property := by
  intro s u h
  have hSame := P.same h.rel
  refine Streams.position (Streams.current (Streams.got (.choice ?_ (fun hWord => ?_) fun _ => ?_)))
  · rw [hSame.type_eq, hSame.value_eq, endsKey_eq h.next_type_eq]
  · simp only [Bool.and_eq_true, Bool.or_eq_true, decide_eq_true_eq] at hWord
    exact hRules.accessor h.rel hWord.1.2 h hWord.1.1
  · refine .bind (propertyKey h) fun key key' s u hKey h => ?_
    refine .bind (h.expect (by simp)) fun _ _ s u _ h => ?_
    refine .bind (hRules.assignment false h) fun value value' s u hValue h => ?_
    refine Streams.spanFrom (.pure ⟨?_, hKey.formed, hValue.formed, .inl rfl, rfl, rfl⟩ h)
    rw [Alike, Property.bare, Property.bare, Slot.bare, Slot.bare, hKey.alike, Slot.bare,
      Slot.bare, hValue.alike]

theorem objectLiteral : P.Agree P.Exprs g.objectLiteral g.objectLiteral := by
  have hItem : P.Agree (fun a b _ => Twins Property.bare (Property.Formed P.tokens) a b)
      (Parse.withComma g.property (.punctuator .rightBrace) id)
      (Parse.withComma g.property (.punctuator .rightBrace) id) := by
    refine fun h => .bind (hRules.property h) fun a b s u hEntry h => h.sees _ fun closed _ => ?_
    cases closed with
    | true => exact .pure hEntry h
    | false => exact .bind (h.expect (by simp)) fun _ _ _ _ _ h => .pure hEntry h
  intro s u h
  refine Streams.position (.bind (h.expect (by simp)) fun _ _ s u _ h => ?_)
  refine .bind (Agree.many (Agree.accept (by simp)) hItem h) fun as bs s u has h => ?_
  refine Streams.spanFrom (h.inSlot ⟨?_, Property.allFormed_iff.mpr (Twins.all_formed has.1)⟩)
  rw [Alike, Expr.bare, Expr.bare, Property.bares_eq_map, Property.bares_eq_map,
    Twins.all_alike has.1]

theorem primary : P.Agree P.Exprs g.primary g.primary := by
  intro s u h
  refine Streams.current ?_
  have hLiteral (hType : s.current.type.isValue = true) :
      P.Outcomes false P.Exprs
        ((do let _ ← Parse.advance; Parse.inSlot (← Parse.literalAt s.current)) s)
        ((do let _ ← Parse.advance; Parse.inSlot (← Parse.literalAt u.current)) u) := by
    refine (h.literal (fun hDot => by simp [hDot, TokenType.isValue, TokenType.isLiteral] at hType)
      hType).mono ?_
    rintro _ _ _ ⟨lit, lit', rfl, rfl, hTwins⟩
    refine ⟨?_, hTwins.formed⟩
    rw [Alike, Expr.bare, Expr.bare, hTwins.alike]
  rw [h.type_eq]
  cases hType : s.current.type with
  | identifier =>
    refine .bind h.name fun a b s u hName h => h.inSlot ⟨?_, hName.formed⟩
    rw [Alike, Expr.bare, Expr.bare, hName.alike]
  | number => exact hLiteral (by rw [hType]; rfl)
  | string => exact hLiteral (by rw [hType]; rfl)
  | regex => exact hLiteral (by rw [hType]; rfl)
  | keyword k =>
    cases k with
    | kwThis =>
      refine .bind (h.advance (by simp [hType])) fun _ _ s u _ h => h.inSlot ⟨?_, trivial⟩
      rw [Alike, Expr.bare, Expr.bare]
    | kwNull => exact hLiteral (by rw [hType]; rfl)
    | kwTrue => exact hLiteral (by rw [hType]; rfl)
    | kwFalse => exact hLiteral (by rw [hType]; rfl)
    | kwFunction => exact hRules.functionExpression h (by simp [hType])
    | _ => exact h.unexpected _
  | punctuator p =>
    cases p with
    | leftParen =>
      refine .bind (h.advance (by simp [hType])) fun _ _ s u _ h => ?_
      refine .bind (hRules.expression false h) fun a b s u hInner h => ?_
      exact .bind (h.expect (by simp)) fun _ _ _ _ _ h => .pure hInner h
    | leftBracket => exact hRules.arrayLiteral h
    | leftBrace => exact hRules.objectLiteral h
    | _ => exact h.unexpected _
  | _ => exact h.unexpected _

/-- The arguments of a call. -/
theorem arguments :
    P.Agree (fun as bs _ => Slot.bares as = Slot.bares bs ∧ Slot.AllFormed P.tokens as)
      g.arguments g.arguments := by
  intro s u h
  refine .bind (h.expect (by simp)) fun _ _ s u _ h => ?_
  refine .bind (Agree.commaSeparated (by simp) (hRules.assignment false) h)
    fun as bs s u has h => ?_
  exact .pure (Twins.slots has) h

/-- One more member access or call. -/
theorem memberStep (calls : Bool) {e e' : Expr} (he : Twins Expr.bare (Expr.Formed P.tokens) e e') :
    P.Agree (Both (Twins Expr.bare (Expr.Formed P.tokens))) (g.memberStep calls e)
      (g.memberStep calls e') := by
  intro s u h
  refine Streams.current ?_
  rw [h.type_eq]
  cases hType : s.current.type with
  | punctuator p =>
    cases p with
    | dot =>
      have hDot := h.advance_next (h.upcoming_ne_nil (by simp [hType]))
      rw [hType] at hDot
      refine .bind hDot fun _ _ s u _ h => .bind h.name fun id id' s u hName h => ?_
      refine Streams.spanFrom (h.slotted fun s u h => h.counted fun s u h => ?_)
      refine .map (h.inSlot (Q := P.Exprs) ⟨?_, he.formed, hName.formed⟩) fun _ _ _ h => .some h
      rw [Alike, Expr.bare, Expr.bare, Slot.bare, Slot.bare, he.alike, Slot.bare, Slot.bare,
        Expr.bare, Expr.bare, hName.alike]
    | leftBracket =>
      refine .bind (h.advance (by simp [hType])) fun _ _ s u _ h => ?_
      refine .bind (hRules.expression false h) fun p p' s u hp h => ?_
      refine .bind (h.expect (by simp)) fun _ _ s u _ h => ?_
      refine Streams.spanFrom (h.counted fun s u h => ?_)
      refine .map (h.inSlot (Q := P.Exprs) ⟨?_, he.formed, hp.formed⟩) fun _ _ _ h => .some h
      rw [Alike, Expr.bare, Expr.bare, Slot.bare, Slot.bare, he.alike, Slot.bare, Slot.bare,
        hp.alike]
    | leftParen =>
      cases calls with
      | false => exact .pure .none h
      | true =>
        refine .bind (hRules.arguments h) fun as bs s u has h => ?_
        refine Streams.spanFrom (h.counted fun s u h => ?_)
        refine .map (h.inSlot (Q := P.Exprs) ⟨?_, he.formed, has.2⟩) fun _ _ _ h => .some h
        rw [Alike, Expr.bare, Expr.bare, Slot.bare, Slot.bare, he.alike, has.1]
    | _ => exact .pure .none h
  | _ => exact .pure .none h

theorem memberTail (calls : Bool) {e e' : Expr} (he : Twins Expr.bare (Expr.Formed P.tokens) e e')
    (h : P.Streams false s u) :
    P.Outcomes false P.Exprs (g.memberTail calls e s) (g.memberTail calls e' u) :=
  h.extend (fun _ _ h => hRules.memberStep calls h) he

theorem constructRule : P.Agree P.Exprs g.constructRule g.constructRule := by
  intro s u h
  refine Streams.position (.bind (h.expect (by simp)) fun _ _ s u _ h => ?_)
  refine h.sees _ fun nested _ => .branch (Q := P.Exprs) ?_ fun head head' s u hHead h => ?_
  · cases nested with
    | true => exact hRules.construct h
    | false => exact hRules.primary h
  · refine .bind (hRules.memberTail false hHead h) fun callee callee' s u hCallee h => ?_
    refine h.sees _ fun called _ => .branch (Q := fun as bs _ =>
      Slot.bares as = Slot.bares bs ∧ Slot.AllFormed P.tokens as) ?_ fun as bs s u has h => ?_
    · cases called with
      | true => exact hRules.arguments h
      | false => exact .pure ⟨rfl, trivial⟩ h
    · refine Streams.spanFrom (h.inSlot ⟨?_, hCallee.formed, has.2⟩)
      rw [Alike, Expr.bare, Expr.bare, Slot.bare, Slot.bare, hCallee.alike, has.1]

theorem leftHandSide : P.Agree P.Exprs g.leftHandSide g.leftHandSide := by
  intro s u h
  refine h.sees _ fun nested _ => .branch (Q := P.Exprs) ?_ fun head head' s u hHead h =>
    hRules.memberTail true hHead h
  cases nested with
  | true => exact hRules.constructRule h
  | false => exact hRules.primary h

theorem afterOperand : P.Agree P.Exprs g.afterOperand g.afterOperand := by
  intro s u h
  have hFirst := h.rel
  refine Streams.current (.bind (hRules.leftHandSide h) fun e e' s u he h => Streams.current ?_)
  have hSame := P.same h.rel
  have hAssign := Expr.isAssignable_of_bare he.alike
  refine .choice (by rw [hSame.type_eq, hSame.newlineBefore_eq]) (fun hType => ?_) fun _ =>
    .pure he h
  simp only [Bool.and_eq_true] at hType
  have hUpdate : s.current.type.isUpdate = true := hType.1
  refine h.check hFirst ⟨by rw [hAssign], rfl⟩ fun hTarget => ?_
  refine .bind (h.advance fun hDot => by simp [hDot, TokenType.isUpdate] at hUpdate)
    fun _ _ s' u' _ h' => Streams.spanFrom (h'.inSlot ⟨?_, ?_, ?_, he.formed⟩)
  · rw [Alike, Expr.bare, Expr.bare, Slot.bare, Slot.bare, he.alike, hSame.literal_eq]
  · exact ⟨_, ⟨_, h.rel⟩, hUpdate, rfl⟩
  · simpa [Slot.isAssignable] using hTarget

theorem unaryRule : P.Agree P.Exprs g.unaryRule g.unaryRule := by
  intro s u h
  refine Streams.current ?_
  have hSame := P.same h.rel
  have hUnary (hType : s.current.type.isUnary = true) :
      P.Outcomes false P.Exprs
        ((do
          let _ ← Parse.advance
          let e ← g.unary
          Parse.inSlot (.unary (← Parse.spanFrom s.current.startPlace) s.current.literal
            (.holds e))) s)
        ((do
          let _ ← Parse.advance
          let e ← g.unary
          Parse.inSlot (.unary (← Parse.spanFrom u.current.startPlace) u.current.literal
            (.holds e))) u) := by
    refine .bind
      (h.advance fun hDot => by simp [hDot, TokenType.isUnary, TokenType.isPrefix] at hType)
      fun _ _ s' u' _ h' => .bind (hRules.unary h') fun e e' s' u' he h' => ?_
    refine Streams.spanFrom (h'.inSlot ⟨?_, ⟨_, ⟨_, h.rel⟩, hType, rfl⟩, he.formed⟩)
    rw [Alike, Expr.bare, Expr.bare, Slot.bare, Slot.bare, he.alike, hSame.literal_eq]
  have hUpdate (hType : s.current.type.isUpdate = true) :
      P.Outcomes false P.Exprs
        ((do
          let _ ← Parse.advance
          let first ← Parse.current
          let e ← g.unary
          if !e.isAssignable then
            Parse.failAt first "invalid left-hand side in prefix operation"
          Parse.inSlot (.update (← Parse.spanFrom s.current.startPlace) s.current.literal true
            (.holds e))) s)
        ((do
          let _ ← Parse.advance
          let first ← Parse.current
          let e ← g.unary
          if !e.isAssignable then
            Parse.failAt first "invalid left-hand side in prefix operation"
          Parse.inSlot (.update (← Parse.spanFrom u.current.startPlace) u.current.literal true
            (.holds e))) u) := by
    refine .bind (h.advance fun hDot => by simp [hDot, TokenType.isUpdate] at hType)
      fun _ _ s' u' _ h' => Streams.current ?_
    have hFirst := h'.rel
    refine .bind (hRules.unary h') fun e e' s' u' he h' => ?_
    have hAssign := Expr.isAssignable_of_bare he.alike
    refine h'.check hFirst ⟨by rw [hAssign], rfl⟩ fun hTarget => ?_
    refine Streams.spanFrom (h'.inSlot ⟨?_, ⟨_, ⟨_, h.rel⟩, hType, rfl⟩, ?_, he.formed⟩)
    · rw [Alike, Expr.bare, Expr.bare, Slot.bare, Slot.bare, he.alike, hSame.literal_eq]
    · simpa [Slot.isAssignable] using hTarget
  rw [h.type_eq]
  cases hType : s.current.type with
  | keyword k =>
    cases k with
    | kwTypeof => exact hUnary (by rw [hType]; rfl)
    | kwVoid => exact hUnary (by rw [hType]; rfl)
    | kwDelete => exact hUnary (by rw [hType]; rfl)
    | _ => exact hRules.afterOperand h
  | punctuator p =>
    cases p with
    | bang => exact hUnary (by rw [hType]; rfl)
    | tilde => exact hUnary (by rw [hType]; rfl)
    | plus => exact hUnary (by rw [hType]; rfl)
    | minus => exact hUnary (by rw [hType]; rfl)
    | increment => exact hUpdate (by rw [hType]; rfl)
    | decrement => exact hUpdate (by rw [hType]; rfl)
    | _ => exact hRules.afterOperand h
  | _ => exact hRules.afterOperand h

/-- One more binary operator with its right operand. -/
theorem binaryStep (least : Nat) (noIn : Bool) {l l' : Expr}
    (hl : Twins Expr.bare (Expr.Formed P.tokens) l l') :
    P.Agree (Both (Twins Expr.bare (Expr.Formed P.tokens))) (g.binaryStep least noIn l)
      (g.binaryStep least noIn l') := by
  intro s u h
  have hSame := P.same h.rel
  have hPrecedence : Grammar.precedenceOf noIn u.current = Grammar.precedenceOf noIn s.current := by
    rw [Grammar.precedenceOf, Grammar.precedenceOf, hSame.type_eq]
  refine Streams.current ?_
  dsimp only
  rw [hPrecedence]
  refine .choice Iff.rfl (fun _ => .pure .none h) fun hGo => ?_
  have hPositive : 0 < s.current.type.precedence := by
    simp only [Bool.or_eq_true, decide_eq_true_eq, not_or] at hGo
    have hle : Grammar.precedenceOf noIn s.current ≤ s.current.type.precedence := by
      unfold Grammar.precedenceOf
      split <;> omega
    omega
  have hDot : s.current.type ≠ .punctuator .dot := fun hDot => by
    simp [hDot, TokenType.precedence] at hPositive
  refine .bind (h.advance hDot) fun _ _ s' u' _ h' => ?_
  refine .bind (hRules.binary _ noIn h') fun r r' s' u' hr h' => ?_
  have hLogical (hType : s.current.type.isLogical = true) :
      P.Outcomes false (Both (Twins Expr.bare (Expr.Formed P.tokens)))
        ((some <$> Parse.inSlot (.logical (l.span.join r.span) s.current.literal (.holds l)
          (.holds r))) s')
        ((some <$> Parse.inSlot (.logical (l'.span.join r'.span) u.current.literal (.holds l')
          (.holds r'))) u') := by
    refine .map (h'.inSlot (Q := P.Exprs)
      ⟨?_, ⟨_, ⟨_, h.rel⟩, hType, rfl⟩, hl.formed, hr.formed⟩) fun _ _ _ h => .some h
    rw [Alike, Expr.bare, Expr.bare, Slot.bare, Slot.bare, hl.alike, Slot.bare, Slot.bare,
      hr.alike, hSame.literal_eq]
  have hBinary (hType : s.current.type.isBinary = true) :
      P.Outcomes false (Both (Twins Expr.bare (Expr.Formed P.tokens)))
        ((do
          modify fun s : Stream => { s with census := s.census.addBinary }
          some <$> Parse.inSlot (.binary (l.span.join r.span) s.current.literal (.holds l)
            (.holds r))) s')
        ((do
          modify fun s : Stream => { s with census := s.census.addBinary }
          some <$> Parse.inSlot (.binary (l'.span.join r'.span) u.current.literal (.holds l')
            (.holds r'))) u') := by
    refine h'.counted fun s' u' h' => .map (h'.inSlot (Q := P.Exprs)
      ⟨?_, ⟨_, ⟨_, h.rel⟩, hType, rfl⟩, hl.formed, hr.formed⟩) fun _ _ _ h => .some h
    rw [Alike, Expr.bare, Expr.bare, Slot.bare, Slot.bare, hl.alike, Slot.bare, Slot.bare,
      hr.alike, hSame.literal_eq]
  rw [h.type_eq]
  cases hType : s.current.type with
  | punctuator p =>
    cases p with
    | andAnd => exact hLogical (by rw [hType]; rfl)
    | orOr => exact hLogical (by rw [hType]; rfl)
    | _ => exact hBinary (by simp [hType, TokenType.isBinary] at hPositive ⊢; exact hPositive)
  | _ => exact hBinary (by simp [hType, TokenType.isBinary] at hPositive ⊢; exact hPositive)

theorem binaryRule (least : Nat) (noIn : Bool) :
    P.Agree P.Exprs (g.binaryRule least noIn) (g.binaryRule least noIn) :=
  fun h => .bind (hRules.unaryRule h) fun _ _ _ _ hl h =>
    h.extend (fun _ _ hl => hRules.binaryStep least noIn hl) hl

theorem conditional (noIn : Bool) :
    P.Agree P.Exprs (g.conditional noIn) (g.conditional noIn) := by
  intro s u h
  refine .bind (hRules.binaryRule 1 noIn h) fun t t' s u ht h => ?_
  refine .bind (h.accept (by simp)) fun b b' s u hb h => ?_
  obtain rfl : b = b' := hb.1
  cases b with
  | false => exact .pure ht h
  | true =>
    refine .bind (hRules.assignment false h) fun y y' s u hy h => ?_
    refine .bind (h.expect (by simp)) fun _ _ s u _ h => ?_
    refine .bind (hRules.assignment noIn h) fun n n' s u hn h => ?_
    refine h.inSlot ⟨?_, ht.formed, hy.formed, hn.formed⟩
    rw [Alike, Expr.bare, Expr.bare, Slot.bare, Slot.bare, ht.alike, Slot.bare, Slot.bare,
      hy.alike, Slot.bare, Slot.bare, hn.alike]

theorem assignmentRule (noIn : Bool) :
    P.Agree P.Exprs (g.assignmentRule noIn) (g.assignmentRule noIn) := by
  intro s u h
  have hFirst := h.rel
  refine Streams.current (.bind (hRules.conditional noIn h) fun l l' s u hl h => Streams.current ?_)
  have hSame := P.same h.rel
  have hAssign := Expr.isAssignable_of_bare hl.alike
  refine .choice (by rw [hSame.type_eq]) (fun hType => ?_) fun _ => .pure hl h
  refine h.check hFirst ⟨by rw [hAssign], rfl⟩ fun hTarget => ?_
  have hDot : s.current.type ≠ .punctuator .dot := fun hDot => by
    rw [hDot] at hType
    cases hType
  refine .bind (h.advance hDot) fun _ _ s' u' _ h' => ?_
  refine .bind (hRules.assignment noIn h') fun r r' s' u' hr h' => ?_
  refine h'.inSlot ⟨?_, ⟨_, ⟨_, h.rel⟩, hType, rfl⟩, ?_, hl.formed, hr.formed⟩
  · rw [Alike, Expr.bare, Expr.bare, Slot.bare, Slot.bare, hl.alike, Slot.bare, Slot.bare,
      hr.alike, hSame.literal_eq]
  · simpa [Slot.isAssignable] using hTarget

end Rules

end Pairing

end ScriptOptimizer
