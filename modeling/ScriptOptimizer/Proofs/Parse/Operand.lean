import ScriptOptimizer.Proofs.Parse.Block

/-!
How operands are read: names, literals, functions, arrays, objects, and the chains of member
accesses, calls and constructions that begin with one of them.
-/

namespace ScriptOptimizer

open Parse

/-- What a literal token of this spelling denotes. -/
def Spelling.denotes (w : Spelling) : LiteralValue := w.token.literalValue

/-- Is a token of this type a literal other than a regular expression? -/
def TokenType.isLiteral : TokenType → Bool
  | .number | .string | .keyword .kwNull | .keyword .kwTrue | .keyword .kwFalse => true
  | _ => false

/-- Is it a literal, regular expressions included? -/
def TokenType.isValue (type : TokenType) : Bool := type.isLiteral || type = .regex

theorem TokenType.startsExpression_of_isValue {type : TokenType} (h : type.isValue = true) :
    type.startsExpression = true := by
  cases type with
  | number | string | regex => rfl
  | keyword k =>
    revert h
    cases k <;> decide
  | _ => cases h

/-- The literal is written so. -/
structure Literal.Spelled (lit : Literal) (w : Spelling) : Prop where
  raw_eq : lit.raw = w.text
  value_eq : lit.value = w.denotes

theorem Token.literalValue_of_spelled {t : Token} {w : Spelling} (h : t.Spelled w) :
    t.literalValue = w.denotes := by
  simp only [Spelling.denotes, literalValue, Spelling.token, h.type_eq, h.number_eq, h.value_eq,
    h.flags_eq]

/-! ### What one token reads as -/

namespace Reads

variable {w v : Spelling} {ws rest : List Spelling}

/-- A step that looks at the token after the current one. -/
theorem ahead {α : Type} {f : Stream → Parse α} {good : α → Prop}
    (h : ∀ s t, s.upcoming.head? = some t → t.Spelled v → Reads (f s) (w :: v :: ws) rest good) :
    Reads (get >>= f) (w :: v :: ws) rest good := by
  intro hRest s hShows
  obtain ⟨-, hMore⟩ := List.forall₂_cons.1 hShows.spelled
  obtain ⟨t, upcoming, hNext, -, hUpcoming⟩ := List.forall₂_cons_right_iff.1 hMore
  exact h s t (by rw [hUpcoming]; rfl) hNext hRest s hShows

theorem literal {lit : Literal} (h : lit.Spelled w) {t : Token} (hSpelled : t.Spelled w) :
    Reads (do inSlot (← literalAt t)) [] rest (·.bare = (Expr.literal lit).bare) := by
  refine Reads.still (literalAt_reads t) fun a ha => (inSlot_reads a).mono ?_
  rintro b rfl
  rw [ha, Expr.bare, Expr.bare, Literal.bare, Literal.bare, hSpelled.literal_eq,
    Token.literalValue_of_spelled hSpelled, h.raw_eq, h.value_eq]

end Reads

/-! ### Operands of one token -/

namespace ReadsAt

variable {level : Nat} {noIn : Bool} {ws : List Spelling} {e : Expr}

/-- What is read without operators, calls and constructions. -/
theorem of_primary (hBegins : Begins ws)
    (h : ∀ n, ws.length ≤ n → ∀ rest, Reads (Grammar.nested n).primary ws rest (·.bare = e.bare)) :
    ReadsAt Level.primary noIn ws e :=
  ReadsAt.of_reads hBegins (Nat.le_refl _) fun n hn rest _ => h n hn rest

theorem ident (id : Ident) : ReadsAt Level.primary noIn [.name id.name] (.ident id) := by
  refine of_primary ⟨rfl, by simp⟩ fun n _ rest => ?_
  refine Reads.still current_reads fun t hSpelled => ?_
  rw [hSpelled.type_eq]
  exact slotName_reads id

theorem this (span : Span) : ReadsAt Level.primary noIn [.word .kwThis] (.this span) := by
  refine of_primary ⟨rfl, by simp⟩ fun n _ rest => ?_
  refine Reads.still current_reads fun t hSpelled => ?_
  rw [hSpelled.type_eq]
  refine Reads.token advance_reads fun _ _ => (inSlot_reads _).mono ?_
  rintro a rfl
  rfl

theorem literal {lit : Literal} {w : Spelling} (h : lit.Spelled w)
    (hType : w.type.isValue = true) : ReadsAt Level.primary noIn [w] (.literal lit) := by
  have hBegins : Begins [w] := ⟨TokenType.startsExpression_of_isValue hType, by simp⟩
  refine of_primary hBegins fun n _ rest => ?_
  refine Reads.still current_reads fun t hSpelled => ?_
  have hRead : Reads (do let _ ← advance; inSlot (← literalAt t)) [w] rest
      (·.bare = (Expr.literal lit).bare) :=
    Reads.token advance_reads fun _ _ => Reads.literal h hSpelled
  rw [hSpelled.type_eq]
  revert hType
  cases w.type with
  | number | string | regex => exact fun _ => hRead
  | keyword k =>
    cases k
    case kwNull | kwTrue | kwFalse => exact fun _ => hRead
    all_goals exact fun hType => absurd hType (by decide)
  | _ => exact fun hType => by cases hType

/-- An expression in parentheses. -/
theorem parens (h : ReadsAt level false ws e) :
    ReadsAt Level.primary noIn
      (Spelling.mark .leftParen :: ws ++ [Spelling.mark .rightParen]) e := by
  refine of_primary (.of_ne rfl (by decide) _) fun n hn rest => ?_
  refine Reads.still current_reads fun t hSpelled => ?_
  rw [hSpelled.type_eq]
  refine Reads.token advance_reads fun _ _ => ?_
  refine Reads.bind (h.expression (by simp at hn; omega) ?_) fun a ha => ?_
  · rintro w hw
    cases hw
    cases noIn <;> rfl
  · exact Reads.token (expect_reads rfl) fun _ _ => Reads.pure ha

end ReadsAt

/-! ### Functions, arrays and objects -/

/-- The tokens of the name of a function, which it may lack. -/
def nameRow : Option Ident → List Spelling
  | some id => [.name id.name]
  | none => []

theorem seesName_reads (id : Option Ident) {w : Spelling} {rest : List Spelling}
    (hNext : w.type ≠ .identifier) :
    Reads (sees .identifier) [] (nameRow id ++ w :: rest) (· = id.isSome) := by
  cases id with
  | none =>
    refine (sees_reads .identifier).mono ?_
    rintro b rfl
    exact decide_eq_false hNext
  | some id => exact sees_reads .identifier

theorem optionalName_reads (id : Option Ident) {rest : List Spelling} :
    Reads (if id.isSome then some <$> name else pure none) (nameRow id) rest
      fun id' => id'.map Ident.bare = id.map Ident.bare := by
  cases id with
  | none => exact Reads.pure rfl
  | some id =>
    refine Reads.map name_reads fun a ha => ?_
    rw [Option.map_some, Option.map_some, Ident.bare, Ident.bare, ha]

theorem ReadsAt.function {noIn : Bool} {items : List (List Spelling)} {list : List Stmt}
    (h : List.Forall₂ (ReadsStmt Context.function) items list) (id : Option Ident)
    (params : List Ident) (span inner : Span) :
    ReadsAt Level.primary noIn
      (.word .kwFunction :: (nameRow id ++ (paramRow params ++ ReadsStmt.braced items)))
      (.function span (.plain id params inner list)) := by
  refine of_primary (.of_ne rfl (by decide) _) fun n hn rest => ?_
  have hDeep : items.flatten.length < n := by
    simp only [ReadsStmt.braced, List.length_cons, List.length_append] at hn
    omega
  refine Reads.still current_reads fun t hSpelled => ?_
  rw [hSpelled.type_eq]
  refine Reads.still position_reads fun _ _ => Reads.token advance_reads fun _ _ => ?_
  refine Reads.still (by simpa [paramRow] using seesName_reads id (by decide)) fun b hb => ?_
  subst hb
  refine Reads.branch (Reads.bind (optionalName_reads id) fun id' hId => ?_)
  refine Reads.last (functionRest_reads h hDeep hId params inner) fun fn hFn => ?_
  refine Reads.still (spanFrom_reads _) fun _ _ => (inSlot_reads _).mono ?_
  rintro a rfl
  rw [Expr.bare, Expr.bare, hFn]

/-- The tokens are those of an element, which may be left out. -/
def ElementAt : Option (List Spelling) → Slot → Prop
  | none, .absent => True
  | some ws, .holds e => ReadsAt Level.assign false ws e
  | _, _ => False

theorem ReadsAt.array {noIn : Bool} {row : List (Option (List Spelling))} {xs : List Slot}
    (h : List.Forall₂ ElementAt row xs) (span : Span) :
    ReadsAt Level.primary noIn
      (.mark .leftBracket :: (elementRow row ++ [Spelling.mark .rightBracket]))
      (.array span xs) := by
  refine of_primary (.of_ne rfl (by decide) _) fun n hn rest => ?_
  have hItems : List.Forall₂ (ElementReads ((Grammar.nested n).assignment false)
      (Ends Level.assign false)) row xs := by
    refine (forall₂_mem h).imp fun o x ⟨hMem, hAt⟩ => ?_
    match o, x, hAt with
    | none, .absent, _ => trivial
    | some ws, .holds e, hAt =>
      refine ⟨hAt.begins.ne_nil, fun v hv => ⟨?_, ?_⟩, fun rest hEnds => ?_⟩
      · exact hAt.begins.head_ne hv rfl
      · exact hAt.begins.head_ne hv rfl
      · refine hAt.assignment (Nat.le_refl _) ?_ hEnds
        have := length_le_elementRow hMem
        simp only [List.length_cons, List.length_append] at hn
        omega
  have hRow : Repeats (accept (.punctuator .rightBracket))
      (element ((Grammar.nested n).assignment false)) (Alike Slot.bare)
      (elementRow row ++ [Spelling.mark .rightBracket]) rest xs :=
    Rows.elements (fun _ => .cons rfl) (.cons rfl) hItems rfl
  refine Reads.still current_reads fun t hSpelled => ?_
  rw [hSpelled.type_eq]
  refine Reads.still position_reads fun _ _ => Reads.token (expect_reads rfl) fun _ _ => ?_
  refine Reads.last hRow.many fun slots hSlots => ?_
  refine Reads.still (spanFrom_reads _) fun _ _ => (inSlot_reads _).mono ?_
  rintro a rfl
  rw [Expr.bare, Expr.bare, Slot.bares_eq_map, Slot.bares_eq_map, Alike.map_eq hSlots]

/-- The token is that of a key. A reserved word is a name there. -/
inductive KeyAt : Spelling → Expr → Prop
  | literal {w : Spelling} {lit : Literal} : lit.Spelled w → w.type = .string ∨ w.type = .number →
      KeyAt w (.literal lit)
  | name (id : Ident) : KeyAt (.name id.name) (.ident id)
  | word {k : Keyword} {id : Ident} : id.name = Bytes.ofString k.text → KeyAt (.word k) (.ident id)

theorem KeyAt.reads {w : Spelling} {key : Expr} (h : KeyAt w key) {rest : List Spelling} :
    Reads Grammar.propertyKey [w] rest (·.bare = key.bare) := by
  refine Reads.still current_reads fun t hSpelled => ?_
  cases h with
  | @literal _ lit hLiteral hType =>
    have hRead : Reads (do let _ ← advance; inSlot (← literalAt t)) [w] rest
        (·.bare = (Expr.literal lit).bare) :=
      Reads.token advance_reads fun _ _ => Reads.literal hLiteral hSpelled
    rw [hSpelled.type_eq]
    rcases hType with hType | hType <;> rw [hType] <;> exact hRead
  | name id =>
    rw [hSpelled.type_eq]
    exact slotName_reads id
  | @word k id hName =>
    rw [hSpelled.type_eq]
    refine Reads.token advance_reads fun _ _ => Reads.still (nameAt_reads _ _) fun a ha => ?_
    refine (inSlot_reads _).mono ?_
    rintro b rfl
    rw [Expr.bare, Expr.bare, Ident.bare, Ident.bare, ha, hName, hSpelled.literal_eq]
    rfl

/-- The tokens are read as the entry, up to places, in a nesting deeper than there are tokens. -/
structure PropertyAt (ws : List Spelling) (p : Property) : Prop where
  starts : ∃ w more, ws = w :: more ∧ w.type ≠ .punctuator .rightBrace
  reads {n : Nat} {rest : List Spelling} : ws.length < n → Ends Level.assign false rest →
    Reads (Grammar.nested n).property ws rest (Alike Property.bare · p)

/-- An entry with a value. -/
theorem PropertyAt.init {w : Spelling} {ws : List Spelling} {key value : Expr} (hKey : KeyAt w key)
    (h : ReadsAt Level.assign false ws value) (span : Span) :
    PropertyAt (w :: .mark .colon :: ws)
      (.entry span "init" (.holds key) (.holds value) false false) := by
  refine ⟨⟨w, _, rfl, ?_⟩, fun {n rest} hn hEnds => ?_⟩
  · cases hKey with
    | literal _ hType => rcases hType with h | h <;> rw [h] <;> decide
    | name => simp [Spelling.name]
    | word => simp [Spelling.word]
  refine Reads.still position_reads fun start _ => Reads.still current_still fun word _ => ?_
  refine Reads.ahead fun s t hAhead hColon => ?_
  have hEndsKey : Grammar.endsKey (some t) = true := by
    simp [Grammar.endsKey, hColon.type_eq, Spelling.mark]
  rw [hAhead, hEndsKey, Bool.not_true, Bool.and_false]
  refine Reads.token hKey.reads fun a ha => Reads.token (expect_reads rfl) fun _ _ => ?_
  refine Reads.last (h.assignment (Nat.le_refl _) ?_ hEnds) fun b hb => ?_
  · simp only [List.length_cons] at hn
    omega
  refine Reads.still (spanFrom_reads _) fun _ _ => Reads.pure ?_
  rw [Alike, Property.bare, Property.bare, Slot.bare, Slot.bare, ha, Slot.bare, Slot.bare, hb]

/-- The word starts an accessor with so many parameters. -/
def StartsAccessor (kind : Bytes) (params : Nat) : Prop :=
  kind = Bytes.ofString "get" ∧ params = 0 ∨ kind = Bytes.ofString "set" ∧ params = 1

theorem KeyAt.notEndsKey {w : Spelling} {key : Expr} (h : KeyAt w key) {t : Token}
    (hSpelled : t.Spelled w) : Grammar.endsKey (some t) = false := by
  have hType : w.type ≠ .punctuator .colon ∧ w.type ≠ .punctuator .comma ∧
      w.type ≠ .punctuator .rightBrace := by
    cases h with
    | literal _ hType => rcases hType with h | h <;> rw [h] <;> decide
    | name => simp [Spelling.name]
    | word => simp [Spelling.word]
  simp [Grammar.endsKey, hSpelled.type_eq, hType]

theorem Function.params_length {id id' : Option Ident} {params : List Ident} {inner : Span}
    {list : List Stmt} {slots defaults : List Slot} {rest : Option Ident} {body : Block}
    {generator : Bool}
    (h : (Function.mk id slots defaults rest body generator).bare =
      (Function.plain id' params inner list).bare) : slots.length = params.length := by
  rw [Function.plain, Function.bare, Function.bare] at h
  have hLength := congrArg List.length (Function.mk.inj h).2.1
  simpa [Slot.bares_eq_map] using hLength

/-- An accessor. -/
theorem PropertyAt.accessor {kind : Bytes} {params : List Ident}
    (hKind : StartsAccessor kind params.length) {w : Spelling} {key : Expr} (hKey : KeyAt w key)
    {items : List (List Spelling)} {list : List Stmt}
    (h : List.Forall₂ (ReadsStmt Context.function) items list) (span valueSpan inner : Span) :
    PropertyAt (.name kind :: w :: (paramRow params ++ ReadsStmt.braced items))
      (.entry span kind (.holds key) (.holds (.function valueSpan (.plain none params inner list)))
        false false) := by
  refine ⟨⟨_, _, rfl, by simp [Spelling.name]⟩, fun {n rest} hn hEnds => ?_⟩
  have hDeep : items.flatten.length < n := by
    simp only [ReadsStmt.braced, List.length_cons, List.length_append] at hn
    omega
  refine Reads.still position_reads fun start _ => Reads.still current_reads fun word hWord => ?_
  have hType : word.type = .identifier := hWord.type_eq
  have hValue : word.value = kind := hWord.value_eq
  refine Reads.ahead fun s t hAhead hSpelled => ?_
  have hIs : (kind = Bytes.ofString "get" || kind = Bytes.ofString "set") = true := by
    rcases hKind with ⟨rfl, -⟩ | ⟨rfl, -⟩ <;> decide
  rw [hAhead, hKey.notEndsKey hSpelled, hValue, hIs, hType]
  have hRest : Reads ((Grammar.nested n).functionRest none)
      (paramRow params ++ ReadsStmt.braced items) rest
      (·.bare = (Function.plain none params inner list).bare) :=
    functionRest_reads h hDeep rfl params inner
  refine Reads.token advance_reads fun _ _ => Reads.token hKey.reads fun a ha => ?_
  refine Reads.still position_reads fun _ _ => Reads.last hRest fun fn hFn => ?_
  obtain ⟨id, slots, defaults, more, body, generator⟩ := fn
  have hCount := Function.params_length hFn
  have hGet : ¬(word.value = Bytes.ofString "get" && slots.length ≠ 0) = true := by
    rw [hValue, hCount]
    rcases hKind with ⟨rfl, hNone⟩ | ⟨rfl, -⟩
    · simp [hNone]
    · simp [show Bytes.ofString "set" ≠ Bytes.ofString "get" by decide]
  have hSet : ¬(word.value = Bytes.ofString "set" && slots.length ≠ 1) = true := by
    rw [hValue, hCount]
    rcases hKind with ⟨rfl, -⟩ | ⟨rfl, hOne⟩
    · simp [show Bytes.ofString "get" ≠ Bytes.ofString "set" by decide]
    · simp [hOne]
  dsimp only
  rw [if_neg hGet, if_neg hSet]
  refine Reads.still (spanFrom_reads _) fun _ _ => Reads.still (inSlot_reads _) fun v hv => ?_
  refine Reads.still (spanFrom_reads _) fun _ _ => Reads.pure ?_
  rw [Alike, Property.bare, Property.bare, Slot.bare, Slot.bare, ha, hValue, hv, Slot.bare,
    Slot.bare, Expr.bare, Expr.bare, hFn]

theorem ReadsAt.object {noIn : Bool} {items : List (List Spelling)} {list : List Property}
    (h : List.Forall₂ PropertyAt items list) (span : Span) :
    ReadsAt Level.primary noIn (.mark .leftBrace :: (commaRow items ++ [Spelling.mark .rightBrace]))
      (.object span list) := by
  refine of_primary (.of_ne rfl (by decide) _) fun n hn rest => ?_
  have hItems : ItemsRead (Grammar.nested n).property (Alike Property.bare)
      (Ends Level.assign false) items list := by
    refine (forall₂_mem h).imp fun ws p ⟨hMem, hAt⟩ => ⟨?_, fun rest hEnds => hAt.reads ?_ hEnds⟩
    · obtain ⟨w, more, rfl, -⟩ := hAt.starts
      exact List.cons_ne_nil _ _
    · have := length_le_commaRow hMem
      simp only [List.length_cons, List.length_append] at hn
      omega
  have hFirst : ∀ ws ∈ items, ∀ v, ws.head? = some v → v.type ≠ .punctuator .rightBrace := by
    intro ws hMem v hv
    obtain ⟨p, -, hAt⟩ := exists_of_forall₂ h hMem
    obtain ⟨w, more, rfl, hType⟩ := hAt.starts
    cases hv
    exact hType
  have hRow : Repeats (accept (.punctuator .rightBrace))
      (withComma (Grammar.nested n).property (.punctuator .rightBrace) id) (Alike Property.bare)
      (commaRow items ++ [Spelling.mark .rightBrace]) rest list :=
    Rows.takingCommas (fun _ => .cons rfl) (.cons rfl) hItems hFirst (by decide) rfl
  refine Reads.still current_reads fun t hSpelled => ?_
  rw [hSpelled.type_eq]
  refine Reads.still position_reads fun _ _ => Reads.token (expect_reads rfl) fun _ _ => ?_
  refine Reads.last hRow.many fun entries hEntries => ?_
  refine Reads.still (spanFrom_reads _) fun _ _ => (inSlot_reads _).mono ?_
  rintro a rfl
  rw [Expr.bare, Expr.bare, Property.bares_eq_map, Property.bares_eq_map, Alike.map_eq hEntries]

/-! ### Chains -/

namespace ReadsChain

variable {calls : Bool} {ws : List Spelling} {e : Expr}

/-- One more round of a chain. -/
theorem round (h : ReadsChain calls ws e) {us : List Spelling} {e' : Expr} (hne : us ≠ [])
    (hStep : ∀ n, us.length ≤ n → ∀ a rest, a.bare = e.bare →
      Reads ((Grammar.nested n).memberStep calls a) us rest
        fun r => ∃ b, r = some b ∧ b.bare = e'.bare) :
    ReadsChain calls (ws ++ us) e' := by
  intro n k hn hk rest
  rw [List.length_append] at hn hk
  exact Extends.round (h n k (by omega) (by omega) _) hne fun a ha =>
    hStep n (by omega) a rest ha

theorem member (h : ReadsChain calls ws e) (id : Ident) (span : Span) :
    ReadsChain calls (ws ++ [Spelling.mark .dot, .name id.name])
      (.member span (.holds e) (.holds (.ident id)) false) := by
  refine h.round (by simp) fun n _ a rest ha => ?_
  refine Reads.still current_reads fun t hSpelled => ?_
  rw [hSpelled.type_eq]
  refine Reads.token advance_reads fun _ _ => Reads.token name_reads fun i hi => ?_
  refine Reads.still (spanFrom_reads _) fun _ _ => Reads.still (inSlot_reads _) fun p hp => ?_
  refine Reads.still (modify_reads Census.addMember) fun _ _ => Reads.map (inSlot_reads _) ?_
  rintro b rfl
  refine ⟨_, rfl, ?_⟩
  rw [Expr.bare, Expr.bare, Slot.bare, Slot.bare, ha, Slot.bare, Slot.bare, hp, Expr.bare,
    Expr.bare, Ident.bare, Ident.bare, hi]

theorem index (h : ReadsChain calls ws e) {level : Nat} {us : List Spelling} {p : Expr}
    (hProperty : ReadsAt level false us p) (span : Span) :
    ReadsChain calls (ws ++ Spelling.mark .leftBracket :: (us ++ [Spelling.mark .rightBracket]))
      (.member span (.holds e) (.holds p) true) := by
  refine h.round (by simp) fun n hn a rest ha => ?_
  simp only [List.length_cons, List.length_append] at hn
  refine Reads.still current_reads fun t hSpelled => ?_
  rw [hSpelled.type_eq]
  refine Reads.token advance_reads fun _ _ => ?_
  refine Reads.bind (hProperty.expression (by omega) (.cons rfl)) fun b hb => ?_
  refine Reads.token (expect_reads rfl) fun _ _ => Reads.still (spanFrom_reads _) fun _ _ => ?_
  refine Reads.still (modify_reads Census.addMember) fun _ _ => Reads.map (inSlot_reads _) ?_
  rintro c rfl
  refine ⟨_, rfl, ?_⟩
  rw [Expr.bare, Expr.bare, Slot.bare, Slot.bare, ha, Slot.bare, Slot.bare, hb]

/-- The tokens of a list of arguments. -/
def argumentRow (items : List (List Spelling)) : List Spelling :=
  .mark .leftParen :: (commaRow items ++ [.mark .rightParen])

theorem arguments {items : List (List Spelling)} {es : List Expr}
    (h : List.Forall₂ (ReadsAt Level.assign false) items es) {n : Nat}
    (hn : (argumentRow items).length ≤ n) {rest : List Spelling} :
    Reads (Grammar.nested n).arguments (argumentRow items) rest
      fun list => Slot.bares list = Slot.bares (es.map .holds) := by
  simp only [argumentRow, List.length_cons, List.length_append] at hn
  have hItems : ItemsRead ((Grammar.nested n).assignment false) (Alike Expr.bare)
      (Ends Level.assign false) items es := by
    refine (forall₂_mem h).imp fun us e ⟨hMem, hAt⟩ =>
      ⟨hAt.begins.ne_nil, fun rest hEnds => hAt.assignment (Nat.le_refl _) ?_ hEnds⟩
    have := length_le_commaRow hMem
    omega
  have hFirst : ∀ us ∈ items, ∀ v, us.head? = some v → v.type ≠ .punctuator .rightParen := by
    intro us hMem v hv
    obtain ⟨e, -, hAt⟩ := exists_of_forall₂ h hMem
    exact hAt.begins.head_ne hv rfl
  have hRow : Reads (commaSeparated (.punctuator .rightParen) ((Grammar.nested n).assignment false))
      (commaRow items ++ [Spelling.mark .rightParen]) rest
      fun list => List.Forall₂ (Alike Expr.bare) list es :=
    Rows.commaSeparated_reads (fun _ => .cons rfl) (.cons rfl) hItems hFirst (by decide) rfl
  refine Reads.token (expect_reads rfl) fun _ _ => Reads.last hRow fun list hList => ?_
  exact Reads.pure (Alike.slots hList)

theorem call (h : ReadsChain true ws e) {items : List (List Spelling)} {es : List Expr}
    (hArguments : List.Forall₂ (ReadsAt Level.assign false) items es) (span : Span) :
    ReadsChain true (ws ++ argumentRow items) (.call span (.holds e) (es.map .holds)) := by
  refine h.round (by simp [argumentRow]) fun n hn a rest ha => ?_
  refine Reads.still current_reads fun t hSpelled => ?_
  rw [hSpelled.type_eq]
  refine Reads.last (arguments hArguments hn) fun list hList => ?_
  refine Reads.still (spanFrom_reads _) fun _ _ => ?_
  refine Reads.still (modify_reads Census.addCall) fun _ _ => Reads.map (inSlot_reads _) ?_
  rintro c rfl
  refine ⟨_, rfl, ?_⟩
  rw [Expr.bare, Expr.bare, Slot.bare, Slot.bare, ha, hList]

/-- A construction begins a chain. -/
theorem construct (h : ReadsChain false ws e) {items : List (List Spelling)} {es : List Expr}
    (hArguments : List.Forall₂ (ReadsAt Level.assign false) items es) (span : Span) :
    ReadsChain calls (.word .kwNew :: (ws ++ argumentRow items))
      (.construct span (.holds e) (es.map .holds)) := by
  intro n k hn hk rest
  obtain ⟨m, rfl⟩ : ∃ m, k = m + 1 := Nat.exists_eq_succ_of_ne_zero (by rintro rfl; cases hk)
  simp only [List.length_cons, List.length_append] at hk
  have hCallee : Reads ((Grammar.nested (m + 1)).chainHead (Grammar.nested (m + 1)).construct >>=
      (Grammar.nested (m + 1)).memberTail false) ws (argumentRow items ++ rest)
      (·.bare = e.bare) :=
    Extends.close (h (m + 1) m (by omega) (by omega) _) fun a _ =>
      ReadsAs.memberStep_stops a (by decide) (by decide) nofun
  refine Extends.of_reads (Reads.still (sees_reads _) fun b hb => ?_)
  subst hb
  rw [Spelling.word, decide_eq_true rfl, if_pos rfl, Grammar.constructRule_eq]
  refine Reads.still position_reads fun start _ => Reads.token (expect_reads rfl) fun _ _ => ?_
  refine Reads.bind hCallee fun a ha => Reads.still (sees_reads _) fun b hb => ?_
  subst hb
  refine Reads.last (arguments hArguments (by omega)) fun list hList => ?_
  refine Reads.still (spanFrom_reads _) fun _ _ => (inSlot_reads _).mono ?_
  rintro c rfl
  rw [Expr.bare, Expr.bare, Slot.bare, Slot.bare, ha, hList]

end ReadsChain

end ScriptOptimizer
