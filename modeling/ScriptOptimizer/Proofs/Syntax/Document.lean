import Mathlib.Data.List.Nodup
import ScriptOptimizer.Proofs.Json.Compact
import ScriptOptimizer.Proofs.Token.Text
import ScriptOptimizer.Syntax.Document

/-!
Trees told by their documents. Every object says of which type its node is, and its fields say all
that the node has but its place; so formed trees of clean tokens with the same text are the same up
to their places.
-/

namespace ScriptOptimizer

/-- The tokens that were scanned from well-formed text. -/
def TokenSet.clean [PatternCheck] : TokenSet := fun _ t => t.Clean

/-- The documents have the same text. -/
abbrev SameText (j k : Json) : Prop := Alike Json.compact j k

theorem SameText.lead_eq {j k : Json} (h : SameText j k) : j.lead = k.lead := by
  refine Json.lead_eq (r := []) (s := []) ?_
  rw [show j.compact = k.compact from h]

theorem SameText.items {items others : List Json} (h : SameText (.array items) (.array others)) :
    List.Forall₂ SameText items others :=
  Json.array_inj h

namespace Document

/-- Every type of node. -/
def types : List NodeType :=
  ["Program", "Identifier", "Literal", "ThisExpression", "ArrayExpression", "ObjectExpression",
    "FunctionExpression", "SequenceExpression", "UnaryExpression", "BinaryExpression",
    "LogicalExpression", "AssignmentExpression", "UpdateExpression", "ConditionalExpression",
    "NewExpression", "CallExpression", "MemberExpression", "ObjectPattern", "ArrayPattern",
    "Property", "EmptyStatement", "BlockStatement", "ExpressionStatement", "IfStatement",
    "LabeledStatement", "BreakStatement", "ContinueStatement", "WithStatement", "SwitchStatement",
    "ReturnStatement", "ThrowStatement", "TryStatement", "WhileStatement", "DoWhileStatement",
    "ForStatement", "ForInStatement", "DebuggerStatement", "FunctionDeclaration",
    "VariableDeclaration", "SwitchCase", "CatchClause", "VariableDeclarator"]

/-- The values of the fields have the same texts one by one. -/
def SameValues : List (Bytes × Json) → List (Bytes × Json) → Prop
  | f :: fields, g :: others => SameText f.2 g.2 ∧ SameValues fields others
  | [], [] => True
  | _, _ => False

theorem types_apart : ∀ a ∈ types, ∀ b ∈ types,
    Json.quote (Bytes.ofString a) = Json.quote (Bytes.ofString b) → a = b := by
  have hvalid : (types.all fun a => Utf8.isValid (Bytes.ofString a)) = true := by decide +kernel
  have htext (a : NodeType) (ha : a ∈ types) : Utf8.Text (Bytes.ofString a) :=
    Utf8.text_of_isValid (List.all_eq_true.1 hvalid a ha)
  have hnodup : (types.map Bytes.ofString).Nodup := by decide +kernel
  intro a ha b hb h
  exact List.inj_on_of_nodup_map hnodup ha hb (Json.quote_inj (htext a ha) (htext b hb) h)

section

variable {a b : NodeType} {s t : Span} {fields others : List (Bytes × Json)}

theorem fields_told (h : SameText (object false a s fields) (object false b t others)) :
    List.Forall₂ Json.AlikeField ((Bytes.ofString "type", .text a) :: fields)
      ((Bytes.ofString "type", .text b) :: others) := by
  have := Json.object_inj h
  simpa [location] using this

theorem type_told (h : SameText (object false a s fields) (object false b t others))
    (ha : a ∈ types) (hb : b ∈ types) : a = b := by
  cases fields_told h with
  | cons hType =>
    have hText := hType.2
    rw [Alike, Json.compact, Json.compact] at hText
    exact types_apart a ha b hb hText

theorem sameValues_of_alike (h : List.Forall₂ Json.AlikeField fields others) :
    SameValues fields others := by
  induction h with
  | nil => trivial
  | cons hField _ ih => exact ⟨hField.2, ih⟩

/-- Objects with the same text have values with the same texts. -/
theorem values_told (h : SameText (object false a s fields) (object false b t others)) :
    SameValues fields others := by
  cases fields_told h with
  | cons _ hFields => exact sameValues_of_alike hFields

theorem not_null (h : SameText .null (object false a s fields)) : False := by
  cases h.lead_eq

end

theorem expr_object (e : Expr) : ∃ fields, expr false e = object false e.type e.span fields := by
  cases e <;> exact ⟨_, rfl⟩

theorem stmt_object {s : Stmt} (h : s ≠ .absent) :
    ∃ fields, stmt false s = object false s.type s.span fields := by
  cases s with
  | absent => exact absurd rfl h
  | _ => exact ⟨_, rfl⟩

theorem expr_type_mem (e : Expr) : e.type ∈ types := by
  cases e <;> simp [Expr.type, types]

theorem stmt_type_mem {s : Stmt} (h : s ≠ .absent) : s.type ∈ types := by
  cases s with
  | absent => exact absurd rfl h
  | _ => simp [Stmt.type, types]

end Document

namespace Document

theorem null_ne_expr {e : Expr} (h : SameText .null (expr false e)) : False := by
  obtain ⟨fields, he⟩ := expr_object e
  rw [he] at h
  exact not_null h

theorem null_ne_stmt {s : Stmt} (hs : s ≠ .absent) (h : SameText .null (stmt false s)) : False := by
  obtain ⟨fields, hFields⟩ := stmt_object hs
  rw [hFields] at h
  exact not_null h

theorem declaration_ne_expr {s : Span} {fields : List (Bytes × Json)} {e : Expr}
    (h : SameText (object false "VariableDeclaration" s fields) (expr false e)) : False := by
  obtain ⟨others, he⟩ := expr_object e
  rw [he] at h
  have hType := type_told h (by simp [types]) (expr_type_mem e)
  cases e <;> simp [Expr.type] at hType

end Document

theorem Stmt.Formed.ne_absent {ts : TokenSet} {c : Context} {s : Stmt} (h : s.Formed ts c) :
    s ≠ .absent := by
  rintro rfl
  exact h

theorem Expr.type_told {x y : Expr} (h : SameText (Document.expr false x) (Document.expr false y)) :
    x.type = y.type := by
  obtain ⟨fields, hx⟩ := Document.expr_object x
  obtain ⟨others, hy⟩ := Document.expr_object y
  rw [hx, hy] at h
  exact Document.type_told h (Document.expr_type_mem x) (Document.expr_type_mem y)

theorem Stmt.Formed.type_told {ts us : TokenSet} {c d : Context} {x y : Stmt} (hx : x.Formed ts c)
    (hy : y.Formed us d) (h : SameText (Document.stmt false x) (Document.stmt false y)) :
    x.type = y.type := by
  obtain ⟨fields, hFields⟩ := Document.stmt_object hx.ne_absent
  obtain ⟨others, hOthers⟩ := Document.stmt_object hy.ne_absent
  rw [hFields, hOthers] at h
  exact Document.type_told h (Document.stmt_type_mem hx.ne_absent)
    (Document.stmt_type_mem hy.ne_absent)

/-! ### Names, literals and operators -/

theorem Ident.From.text [PatternCheck] {id : Ident} {dot : Bool} (h : id.From .clean dot) :
    Utf8.Text id.name := by
  obtain ⟨t, hClean, hType, hName⟩ := h
  rw [hName]
  exact hClean.value hType

theorem TokenSet.Writes.text [PatternCheck] {allowed : TokenType → Bool} {text : Bytes}
    (h : TokenSet.clean.Writes allowed text) : Utf8.Text text := by
  obtain ⟨t, hClean, -, rfl⟩ := h
  exact hClean.literal

theorem Ident.told {a b : Ident} (ha : Utf8.Text a.name) (hb : Utf8.Text b.name)
    (h : SameText (Document.expr false (.ident a)) (Document.expr false (.ident b))) :
    a.bare = b.bare := by
  obtain ⟨hName, -⟩ := Document.values_told h
  rw [Ident.bare, Ident.bare, Json.text_inj ha hb hName]

theorem Literal.told [PatternCheck] {a b : Literal} {allowed allowed' : TokenType → Bool}
    (hAllowed : ∀ type, allowed type = true → type.isValue = true)
    (hAllowed' : ∀ type, allowed' type = true → type.isValue = true)
    (ha : a.From .clean allowed) (hb : b.From .clean allowed')
    (h : SameText (Document.expr false (.literal a)) (Document.expr false (.literal b))) :
    a.bare = b.bare := by
  obtain ⟨t, hClean, hType, hRaw, hValue⟩ := ha
  obtain ⟨u, hClean', hType', hRaw', hValue'⟩ := hb
  obtain ⟨-, hText, -⟩ := Document.values_told h
  have hSame : t.literal = u.literal := by
    refine Json.text_inj hClean.literal hClean'.literal ?_
    rw [← hRaw, ← hRaw']
    exact hText
  have hDenotes := hClean.literalValue_eq hClean' (hAllowed _ hType) (hAllowed' _ hType') hSame
  rw [Literal.bare, Literal.bare, hRaw, hRaw', hValue, hValue', hSame, hDenotes]

theorem Document.ident_told {a b : Option Ident} (ha : ∀ id, a = some id → Utf8.Text id.name)
    (hb : ∀ id, b = some id → Utf8.Text id.name)
    (h : SameText (ident false a) (ident false b)) : a.map Ident.bare = b.map Ident.bare := by
  cases a with
  | none =>
    cases b with
    | none => rfl
    | some b => exact (not_null h).elim
  | some a =>
    cases b with
    | none => exact (not_null h.symm).elim
    | some b => exact congrArg some (Ident.told (ha a rfl) (hb b rfl) h)

variable [PatternCheck]

theorem Slot.NameFrom.told {s t : Slot} {dot dot' : Bool} (hs : s.NameFrom .clean dot)
    (ht : t.NameFrom .clean dot') (h : SameText (Document.slot false s) (Document.slot false t)) :
    s.bare = t.bare := by
  cases s with
  | holds x =>
    cases x with
    | ident a =>
      cases t with
      | holds y =>
        cases y with
        | ident b =>
          have hSame := Ident.told (Ident.From.text hs) (Ident.From.text ht) h
          rw [Slot.bare, Slot.bare, Expr.bare, Expr.bare, hSame]
        | _ => exact ht.elim
      | _ => exact ht.elim
    | _ => exact hs.elim
  | _ => exact hs.elim

theorem Slot.AllNames.told : (xs ys : List Slot) → (∀ x ∈ xs, x.NameFrom .clean false) →
    (∀ y ∈ ys, y.NameFrom .clean false) →
    List.Forall₂ SameText (Document.slots false xs) (Document.slots false ys) →
    Slot.bares xs = Slot.bares ys
  | [], [], _, _, _ => rfl
  | x :: xs, y :: ys, hx, hy, .cons h hs => by
    rw [Slot.bares, Slot.bares,
      Slot.NameFrom.told (hx x List.mem_cons_self) (hy y List.mem_cons_self) h,
      Slot.AllNames.told xs ys (fun x h => hx x (List.mem_cons_of_mem _ h))
        (fun y h => hy y (List.mem_cons_of_mem _ h)) hs]

/-- A key is a literal or a name. -/
theorem Slot.KeyFrom.cases {s : Slot} (h : s.KeyFrom .clean) :
    (∃ lit, s = .holds (.literal lit) ∧ lit.From .clean TokenType.isKeyLiteral) ∨
      ∃ id, s = .holds (.ident id) ∧ Utf8.Text id.name := by
  cases s with
  | holds x =>
    cases x with
    | literal lit => exact .inl ⟨lit, rfl, h⟩
    | ident id =>
      refine .inr ⟨id, rfl, ?_⟩
      rcases h with hName | ⟨k, t, hClean, -, hName⟩
      · exact Ident.From.text hName
      · rw [hName]
        exact hClean.literal
    | _ => exact h.elim
  | _ => exact h.elim

omit [PatternCheck] in
theorem TokenType.isValue_of_isKeyLiteral (type : TokenType) (h : type.isKeyLiteral = true) :
    type.isValue = true := by
  simp only [isKeyLiteral, Bool.or_eq_true, decide_eq_true_eq] at h
  rcases h with rfl | rfl <;> rfl

theorem Slot.KeyFrom.told {s t : Slot} (hs : s.KeyFrom .clean) (ht : t.KeyFrom .clean)
    (h : SameText (Document.slot false s) (Document.slot false t)) : s.bare = t.bare := by
  rcases hs.cases with ⟨a, rfl, ha⟩ | ⟨a, rfl, ha⟩
  · rcases ht.cases with ⟨b, rfl, hb⟩ | ⟨b, rfl, hb⟩
    · have hSame := Literal.told TokenType.isValue_of_isKeyLiteral
        TokenType.isValue_of_isKeyLiteral ha hb h
      rw [Slot.bare, Slot.bare, Expr.bare, Expr.bare, hSame]
    · exact absurd (Expr.type_told h) (by simp [Expr.type])
  · rcases ht.cases with ⟨b, rfl, hb⟩ | ⟨b, rfl, hb⟩
    · exact absurd (Expr.type_told h) (by simp [Expr.type])
    · rw [Slot.bare, Slot.bare, Expr.bare, Expr.bare, Ident.told ha hb h]

omit [PatternCheck] in
/-- The kinds of entries are written in ASCII. -/
theorem Property.Sorted.text {kind : Bytes} {value : Slot} (h : Property.Sorted kind value) :
    Utf8.Text kind := by
  rcases h with rfl | ⟨_, _, _, ⟨rfl, -⟩ | ⟨rfl, -⟩, -⟩
  all_goals exact Utf8.text_of_isValid (by decide)

/-! ### Trees -/

theorem Stmt.optional_told {c d : Context} {x y : Stmt} (hx : x = .absent ∨ x.Formed .clean c)
    (hy : y = .absent ∨ y.Formed .clean d)
    (h : SameText (Document.stmt false x) (Document.stmt false y))
    (hTold : x.Formed .clean c → y.Formed .clean d → x.bare = y.bare) : x.bare = y.bare := by
  rcases hx with rfl | hx
  · rcases hy with rfl | hy
    · rfl
    · exact (Document.null_ne_stmt hy.ne_absent h).elim
  · rcases hy with rfl | hy
    · exact (Document.null_ne_stmt hx.ne_absent h.symm).elim
    · exact hTold hx hy

theorem Block.optional_told {c d : Context} {x y : Block} (hx : x = .absent ∨ x.Formed .clean c)
    (hy : y = .absent ∨ y.Formed .clean d)
    (h : SameText (Document.block false x) (Document.block false y))
    (hTold : x.Formed .clean c → y.Formed .clean d → x.bare = y.bare) : x.bare = y.bare := by
  cases x with
  | absent =>
    cases y with
    | absent => rfl
    | braces => exact (Document.not_null h).elim
  | braces =>
    cases y with
    | absent => exact (Document.not_null h.symm).elim
    | braces => exact hTold (hx.resolve_left (by simp)) (hy.resolve_left (by simp))

mutual

theorem Slot.Formed.told : (s t : Slot) → s.Formed .clean → t.Formed .clean →
    SameText (Document.slot false s) (Document.slot false t) → s.bare = t.bare
  | .holds x, .holds y, hx, hy, h => congrArg Slot.holds (Expr.Formed.told x y hx hy h)
  | .absent, _, hs, _, _ => hs.elim
  | .vacant, _, hs, _, _ => hs.elim
  | _, .absent, _, ht, _ => ht.elim
  | _, .vacant, _, ht, _ => ht.elim
termination_by structural x => x

theorem Slot.Optional.told : (s t : Slot) → s.Optional .clean → t.Optional .clean →
    SameText (Document.slot false s) (Document.slot false t) → s.bare = t.bare
  | .holds x, .holds y, hx, hy, h => congrArg Slot.holds (Expr.Formed.told x y hx hy h)
  | .absent, .absent, _, _, _ => rfl
  | .absent, .holds _, _, _, h => (Document.null_ne_expr h).elim
  | .holds _, .absent, _, _, h => (Document.null_ne_expr h.symm).elim
  | .vacant, _, hs, _, _ => hs.elim
  | _, .vacant, _, ht, _ => ht.elim
termination_by structural x => x

theorem Slot.AllFormed.told : (xs ys : List Slot) → Slot.AllFormed .clean xs →
    Slot.AllFormed .clean ys →
    List.Forall₂ SameText (Document.slots false xs) (Document.slots false ys) →
    Slot.bares xs = Slot.bares ys
  | [], [], _, _, _ => rfl
  | x :: xs, y :: ys, hx, hy, .cons h hs => by
    rw [Slot.bares, Slot.bares, Slot.Formed.told x y hx.1 hy.1 h,
      Slot.AllFormed.told xs ys hx.2 hy.2 hs]
termination_by structural x => x

theorem Slot.AllOptional.told : (xs ys : List Slot) → Slot.AllOptional .clean xs →
    Slot.AllOptional .clean ys →
    List.Forall₂ SameText (Document.slots false xs) (Document.slots false ys) →
    Slot.bares xs = Slot.bares ys
  | [], [], _, _, _ => rfl
  | x :: xs, y :: ys, hx, hy, .cons h hs => by
    rw [Slot.bares, Slot.bares, Slot.Optional.told x y hx.1 hy.1 h,
      Slot.AllOptional.told xs ys hx.2 hy.2 hs]
termination_by structural x => x

theorem Expr.Formed.told : (x y : Expr) → x.Formed .clean → y.Formed .clean →
    SameText (Document.expr false x) (Document.expr false y) → x.bare = y.bare
  | .ident a, y, hx, hy, h => by
    have hType := Expr.type_told h
    cases y with
    | ident b => exact congrArg Expr.ident (Ident.told (Ident.From.text hx) (Ident.From.text hy) h)
    | _ => simp [Expr.type] at hType
  | .literal a, y, hx, hy, h => by
    have hType := Expr.type_told h
    cases y with
    | literal b => exact congrArg Expr.literal (Literal.told (fun _ h => h) (fun _ h => h) hx hy h)
    | _ => simp [Expr.type] at hType
  | .this _, y, _, _, h => by
    have hType := Expr.type_told h
    cases y with
    | this => rfl
    | _ => simp [Expr.type] at hType
  | .array _ xs, y, hx, hy, h => by
    have hType := Expr.type_told h
    cases y with
    | array _ ys =>
      obtain ⟨hItems, -⟩ := Document.values_told h
      rw [Expr.bare, Expr.bare, Slot.AllOptional.told xs ys hx hy hItems.items]
    | _ => simp [Expr.type] at hType
  | .object _ xs, y, hx, hy, h => by
    have hType := Expr.type_told h
    cases y with
    | object _ ys =>
      obtain ⟨hItems, -⟩ := Document.values_told h
      rw [Expr.bare, Expr.bare, Property.AllFormed.told xs ys hx hy hItems.items]
    | _ => simp [Expr.type] at hType
  | .function _ f, y, hx, hy, h => by
    have hType := Expr.type_told h
    cases y with
    | function _ g =>
      rw [Expr.bare, Expr.bare, Function.Formed.told f g hx hy (Document.values_told h)]
    | _ => simp [Expr.type] at hType
  | .sequence _ xs, y, hx, hy, h => by
    have hType := Expr.type_told h
    cases y with
    | sequence _ ys =>
      obtain ⟨hItems, -⟩ := Document.values_told h
      rw [Expr.bare, Expr.bare, Slot.AllFormed.told xs ys hx.2 hy.2 hItems.items]
    | _ => simp [Expr.type] at hType
  | .unary _ op s, y, hx, hy, h => by
    have hType := Expr.type_told h
    cases y with
    | unary _ op' t =>
      obtain ⟨hOperator, -, hArgument, -⟩ := Document.values_told h
      rw [Expr.bare, Expr.bare, Json.text_inj hx.1.text hy.1.text hOperator,
        Slot.Formed.told s t hx.2 hy.2 hArgument]
    | _ => simp [Expr.type] at hType
  | .binary _ op l r, y, hx, hy, h => by
    have hType := Expr.type_told h
    cases y with
    | binary _ op' l' r' =>
      obtain ⟨hOperator, hLeft, hRight, -⟩ := Document.values_told h
      rw [Expr.bare, Expr.bare, Json.text_inj hx.1.text hy.1.text hOperator,
        Slot.Formed.told l l' hx.2.1 hy.2.1 hLeft, Slot.Formed.told r r' hx.2.2 hy.2.2 hRight]
    | _ => simp [Expr.type] at hType
  | .logical _ op l r, y, hx, hy, h => by
    have hType := Expr.type_told h
    cases y with
    | logical _ op' l' r' =>
      obtain ⟨hOperator, hLeft, hRight, -⟩ := Document.values_told h
      rw [Expr.bare, Expr.bare, Json.text_inj hx.1.text hy.1.text hOperator,
        Slot.Formed.told l l' hx.2.1 hy.2.1 hLeft, Slot.Formed.told r r' hx.2.2 hy.2.2 hRight]
    | _ => simp [Expr.type] at hType
  | .assign _ op l r, y, hx, hy, h => by
    have hType := Expr.type_told h
    cases y with
    | assign _ op' l' r' =>
      obtain ⟨hOperator, hLeft, hRight, -⟩ := Document.values_told h
      rw [Expr.bare, Expr.bare, Json.text_inj hx.1.text hy.1.text hOperator,
        Slot.Formed.told l l' hx.2.2.1 hy.2.2.1 hLeft,
        Slot.Formed.told r r' hx.2.2.2 hy.2.2.2 hRight]
    | _ => simp [Expr.type] at hType
  | .update _ op before s, y, hx, hy, h => by
    have hType := Expr.type_told h
    cases y with
    | update _ op' before' t =>
      obtain ⟨hOperator, hBefore, hArgument, -⟩ := Document.values_told h
      rw [Expr.bare, Expr.bare, Json.text_inj hx.1.text hy.1.text hOperator, Json.bool_inj hBefore,
        Slot.Formed.told s t hx.2.2 hy.2.2 hArgument]
    | _ => simp [Expr.type] at hType
  | .conditional _ a b c, y, hx, hy, h => by
    have hType := Expr.type_told h
    cases y with
    | conditional _ a' b' c' =>
      obtain ⟨hTest, hYes, hNo, -⟩ := Document.values_told h
      rw [Expr.bare, Expr.bare, Slot.Formed.told a a' hx.1 hy.1 hTest,
        Slot.Formed.told b b' hx.2.1 hy.2.1 hYes, Slot.Formed.told c c' hx.2.2 hy.2.2 hNo]
    | _ => simp [Expr.type] at hType
  | .construct _ f xs, y, hx, hy, h => by
    have hType := Expr.type_told h
    cases y with
    | construct _ g ys =>
      obtain ⟨hCallee, hArguments, -⟩ := Document.values_told h
      rw [Expr.bare, Expr.bare, Slot.Formed.told f g hx.1 hy.1 hCallee,
        Slot.AllFormed.told xs ys hx.2 hy.2 hArguments.items]
    | _ => simp [Expr.type] at hType
  | .call _ f xs, y, hx, hy, h => by
    have hType := Expr.type_told h
    cases y with
    | call _ g ys =>
      obtain ⟨hCallee, hArguments, -⟩ := Document.values_told h
      rw [Expr.bare, Expr.bare, Slot.Formed.told f g hx.1 hy.1 hCallee,
        Slot.AllFormed.told xs ys hx.2 hy.2 hArguments.items]
    | _ => simp [Expr.type] at hType
  | .member _ s p computed, y, hx, hy, h => by
    have hType := Expr.type_told h
    cases y with
    | member _ t q computed' =>
      obtain ⟨hObject, hProperty, hComputed, -⟩ := Document.values_told h
      obtain rfl := Json.bool_inj hComputed
      have hName : p.bare = q.bare := by
        cases computed with
        | true => exact Slot.Formed.told p q hx.2 hy.2 hProperty
        | false => exact Slot.NameFrom.told hx.2 hy.2 hProperty
      rw [Expr.bare, Expr.bare, Slot.Formed.told s t hx.1 hy.1 hObject, hName]
    | _ => simp [Expr.type] at hType
  | .objectPattern _ _, _, hx, _, _ => hx.elim
  | .arrayPattern _ _, _, hx, _, _ => hx.elim
termination_by structural x => x

theorem Property.Formed.told : (p q : Property) → p.Formed .clean → q.Formed .clean →
    SameText (Document.property false p) (Document.property false q) → p.bare = q.bare
  | .entry _ kind key value computed shorthand, .entry _ kind' key' value' computed' shorthand',
      hp, hq, h => by
    obtain ⟨hKey, hValue, hKind, hComputed, hShorthand, -⟩ := Document.values_told h
    rw [Property.bare, Property.bare, Slot.KeyFrom.told hp.1 hq.1 hKey,
      Slot.Formed.told value value' hp.2.1 hq.2.1 hValue,
      Json.text_inj hp.2.2.1.text hq.2.2.1.text hKind, Json.bool_inj hComputed,
      Json.bool_inj hShorthand]
  | .absent, _, hp, _, _ => hp.elim
  | _, .absent, _, hq, _ => hq.elim
termination_by structural x => x

theorem Property.AllFormed.told : (xs ys : List Property) → Property.AllFormed .clean xs →
    Property.AllFormed .clean ys →
    List.Forall₂ SameText (Document.properties false xs) (Document.properties false ys) →
    Property.bares xs = Property.bares ys
  | [], [], _, _, _ => rfl
  | x :: xs, y :: ys, hx, hy, .cons h hs => by
    rw [Property.bares, Property.bares, Property.Formed.told x y hx.1 hy.1 h,
      Property.AllFormed.told xs ys hx.2 hy.2 hs]
termination_by structural x => x

theorem Function.Formed.told : (f g : Function) → f.Formed .clean → g.Formed .clean →
    Document.SameValues (Document.function false f) (Document.function false g) → f.bare = g.bare
  | .mk a xs _ _ body _, .mk b ys _ _ body' _, ⟨hf, hBody⟩, ⟨hg, hBody'⟩, h => by
    obtain ⟨hName, hParams, rfl, rfl, rfl⟩ := hf
    obtain ⟨hName', hParams', rfl, rfl, rfl⟩ := hg
    obtain ⟨hId, hNames, -, -, hBlock, -⟩ := h
    rw [Function.bare, Function.bare,
      Document.ident_told (fun id h => (hName id h).text) (fun id h => (hName' id h).text) hId,
      Slot.AllNames.told xs ys hParams hParams' hNames.items,
      Block.Formed.told body body' hBody hBody' hBlock]
termination_by structural x => x

theorem Block.Formed.told {c d : Context} : (x y : Block) → x.Formed .clean c →
    y.Formed .clean d → SameText (Document.block false x) (Document.block false y) →
    x.bare = y.bare
  | .braces _ xs, .braces _ ys, hx, hy, h => by
    obtain ⟨hBody, -⟩ := Document.values_told h
    rw [Block.bare, Block.bare, Stmt.AllFormed.told xs ys hx hy hBody.items]
  | .absent, _, hx, _, _ => hx.elim
  | _, .absent, _, hy, _ => hy.elim
termination_by structural x => x

theorem Stmt.Formed.told {c d : Context} : (x y : Stmt) → x.Formed .clean c → y.Formed .clean d →
    SameText (Document.stmt false x) (Document.stmt false y) → x.bare = y.bare
  | .absent, _, hx, _, _ => hx.elim
  | .empty _, y, hx, hy, h => by
    have hType := Stmt.Formed.type_told hx hy h
    cases y with
    | empty => rfl
    | absent => exact hy.elim
    | _ => simp [Stmt.type] at hType
  | .block _ xs, y, hx, hy, h => by
    have hType := Stmt.Formed.type_told hx hy h
    cases y with
    | block _ ys =>
      obtain ⟨hBody, -⟩ := Document.values_told h
      rw [Stmt.bare, Stmt.bare, Stmt.AllFormed.told xs ys hx hy hBody.items]
    | absent => exact hy.elim
    | _ => simp [Stmt.type] at hType
  | .expression _ s, y, hx, hy, h => by
    have hType := Stmt.Formed.type_told hx hy h
    cases y with
    | expression _ t =>
      obtain ⟨hExpr, -⟩ := Document.values_told h
      rw [Stmt.bare, Stmt.bare, Slot.Formed.told s t hx hy hExpr]
    | absent => exact hy.elim
    | _ => simp [Stmt.type] at hType
  | .conditional _ s a b, y, hx, hy, h => by
    have hType := Stmt.Formed.type_told hx hy h
    cases y with
    | conditional _ t a' b' =>
      obtain ⟨hTest, hYes, hNo, -⟩ := Document.values_told h
      rw [Stmt.bare, Stmt.bare, Slot.Formed.told s t hx.1 hy.1 hTest,
        Stmt.Formed.told a a' hx.2.1 hy.2.1 hYes,
        Stmt.optional_told (hx.2.2.imp_right And.left) (hy.2.2.imp_right And.left) hNo
          fun hx hy => Stmt.Formed.told b b' hx hy hNo]
    | absent => exact hy.elim
    | _ => simp [Stmt.type] at hType
  | .labeled _ _ a, y, hx, hy, h => by
    have hType := Stmt.Formed.type_told hx hy h
    cases y with
    | labeled _ _ b =>
      obtain ⟨hLabel, hBody, -⟩ := Document.values_told h
      obtain ⟨id, rfl, hName, -, hBody₁⟩ := hx
      obtain ⟨id', rfl, hName', -, hBody₂⟩ := hy
      rw [Stmt.bare, Stmt.bare, Document.ident_told (fun id h => Option.some.inj h ▸ hName.text)
        (fun id h => Option.some.inj h ▸ hName'.text) hLabel,
        Stmt.Formed.told a b hBody₁ hBody₂ hBody]
    | absent => exact hy.elim
    | _ => simp [Stmt.type] at hType
  | .breakTo _ a, y, hx, hy, h => by
    have hType := Stmt.Formed.type_told hx hy h
    cases y with
    | breakTo _ b =>
      obtain ⟨hLabel, -⟩ := Document.values_told h
      rw [Stmt.bare, Stmt.bare, Document.ident_told (fun id h => (hx.2 id h).1.text)
        (fun id h => (hy.2 id h).1.text) hLabel]
    | absent => exact hy.elim
    | _ => simp [Stmt.type] at hType
  | .continueTo _ a, y, hx, hy, h => by
    have hType := Stmt.Formed.type_told hx hy h
    cases y with
    | continueTo _ b =>
      obtain ⟨hLabel, -⟩ := Document.values_told h
      rw [Stmt.bare, Stmt.bare, Document.ident_told (fun id h => (hx.2 id h).1.text)
        (fun id h => (hy.2 id h).1.text) hLabel]
    | absent => exact hy.elim
    | _ => simp [Stmt.type] at hType
  | .withObject _ s a, y, hx, hy, h => by
    have hType := Stmt.Formed.type_told hx hy h
    cases y with
    | withObject _ t b =>
      obtain ⟨hObject, hBody, -⟩ := Document.values_told h
      rw [Stmt.bare, Stmt.bare, Slot.Formed.told s t hx.1 hy.1 hObject,
        Stmt.Formed.told a b hx.2 hy.2 hBody]
    | absent => exact hy.elim
    | _ => simp [Stmt.type] at hType
  | .switchOn _ s xs, y, hx, hy, h => by
    have hType := Stmt.Formed.type_told hx hy h
    cases y with
    | switchOn _ t ys =>
      obtain ⟨hTest, hCases, -⟩ := Document.values_told h
      rw [Stmt.bare, Stmt.bare, Slot.Formed.told s t hx.1 hy.1 hTest,
        Case.AllFormed.told xs ys hx.2.2 hy.2.2 hCases.items]
    | absent => exact hy.elim
    | _ => simp [Stmt.type] at hType
  | .returnValue _ s, y, hx, hy, h => by
    have hType := Stmt.Formed.type_told hx hy h
    cases y with
    | returnValue _ t =>
      obtain ⟨hArgument, -⟩ := Document.values_told h
      rw [Stmt.bare, Stmt.bare, Slot.Optional.told s t hx.2 hy.2 hArgument]
    | absent => exact hy.elim
    | _ => simp [Stmt.type] at hType
  | .throwValue _ s, y, hx, hy, h => by
    have hType := Stmt.Formed.type_told hx hy h
    cases y with
    | throwValue _ t =>
      obtain ⟨hArgument, -⟩ := Document.values_told h
      rw [Stmt.bare, Stmt.bare, Slot.Formed.told s t hx hy hArgument]
    | absent => exact hy.elim
    | _ => simp [Stmt.type] at hType
  | .tryCatch _ a k b, y, hx, hy, h => by
    have hType := Stmt.Formed.type_told hx hy h
    cases y with
    | tryCatch _ a' k' b' =>
      obtain ⟨hBlock, hHandler, hFinalizer, -⟩ := Document.values_told h
      rw [Stmt.bare, Stmt.bare, Block.Formed.told a a' hx.1 hy.1 hBlock,
        Handler.Optional.told k k' hx.2.1 hy.2.1 hHandler,
        Block.optional_told hx.2.2.1 hy.2.2.1 hFinalizer
          fun hx hy => Block.Formed.told b b' hx hy hFinalizer]
    | absent => exact hy.elim
    | _ => simp [Stmt.type] at hType
  | .whileLoop _ s a, y, hx, hy, h => by
    have hType := Stmt.Formed.type_told hx hy h
    cases y with
    | whileLoop _ t b =>
      obtain ⟨hTest, hBody, -⟩ := Document.values_told h
      rw [Stmt.bare, Stmt.bare, Slot.Formed.told s t hx.1 hy.1 hTest,
        Stmt.Formed.told a b hx.2 hy.2 hBody]
    | absent => exact hy.elim
    | _ => simp [Stmt.type] at hType
  | .doWhile _ a s, y, hx, hy, h => by
    have hType := Stmt.Formed.type_told hx hy h
    cases y with
    | doWhile _ b t =>
      obtain ⟨hBody, hTest, -⟩ := Document.values_told h
      rw [Stmt.bare, Stmt.bare, Stmt.Formed.told a b hx.1 hy.1 hBody,
        Slot.Formed.told s t hx.2 hy.2 hTest]
    | absent => exact hy.elim
    | _ => simp [Stmt.type] at hType
  | .forLoop _ i s u a, y, hx, hy, h => by
    have hType := Stmt.Formed.type_told hx hy h
    cases y with
    | forLoop _ i' s' u' a' =>
      obtain ⟨hInit, hTest, hUpdate, hBody, -⟩ := Document.values_told h
      rw [Stmt.bare, Stmt.bare, ForHead.Formed.told i i' hx.1 hy.1 hInit,
        Slot.Optional.told s s' hx.2.1 hy.2.1 hTest,
        Slot.Optional.told u u' hx.2.2.1 hy.2.2.1 hUpdate,
        Stmt.Formed.told a a' hx.2.2.2 hy.2.2.2 hBody]
    | absent => exact hy.elim
    | _ => simp [Stmt.type] at hType
  | .forIn _ l r a, y, hx, hy, h => by
    have hType := Stmt.Formed.type_told hx hy h
    cases y with
    | forIn _ l' r' a' =>
      obtain ⟨hLeft, hRight, hBody, -⟩ := Document.values_told h
      rw [Stmt.bare, Stmt.bare, ForHead.Formed.told l l' hx.1 hy.1 hLeft,
        Slot.Formed.told r r' hx.2.2.1 hy.2.2.1 hRight,
        Stmt.Formed.told a a' hx.2.2.2 hy.2.2.2 hBody]
    | absent => exact hy.elim
    | _ => simp [Stmt.type] at hType
  | .debugger _, y, hx, hy, h => by
    have hType := Stmt.Formed.type_told hx hy h
    cases y with
    | debugger => rfl
    | absent => exact hy.elim
    | _ => simp [Stmt.type] at hType
  | .function _ f, y, hx, hy, h => by
    have hType := Stmt.Formed.type_told hx hy h
    cases y with
    | function _ g =>
      rw [Stmt.bare, Stmt.bare, Function.Formed.told f g hx.2 hy.2 (Document.values_told h)]
    | absent => exact hy.elim
    | _ => simp [Stmt.type] at hType
  | .declaration _ kind xs, y, hx, hy, h => by
    have hType := Stmt.Formed.type_told hx hy h
    cases y with
    | declaration _ kind' ys =>
      obtain ⟨hDeclarators, -⟩ := Document.values_told h
      rw [Stmt.bare, Stmt.bare, hx.1, hy.1,
        Declarator.AllFormed.told xs ys hx.2.2 hy.2.2 hDeclarators.items]
    | absent => exact hy.elim
    | _ => simp [Stmt.type] at hType
termination_by structural x => x

theorem Stmt.AllFormed.told {c d : Context} : (xs ys : List Stmt) → Stmt.AllFormed .clean c xs →
    Stmt.AllFormed .clean d ys →
    List.Forall₂ SameText (Document.stmts false xs) (Document.stmts false ys) →
    Stmt.bares xs = Stmt.bares ys
  | [], [], _, _, _ => rfl
  | x :: xs, y :: ys, hx, hy, .cons h hs => by
    rw [Stmt.bares, Stmt.bares, Stmt.Formed.told x y hx.1 hy.1 h,
      Stmt.AllFormed.told xs ys hx.2 hy.2 hs]
termination_by structural x => x

theorem Case.Formed.told {c d : Context} : (x y : Case) → x.Formed .clean c → y.Formed .clean d →
    SameText (Document.case false x) (Document.case false y) → x.bare = y.bare
  | .clause _ s a, .clause _ t b, hx, hy, h => by
    obtain ⟨hTest, hBody, -⟩ := Document.values_told h
    rw [Case.bare, Case.bare, Slot.Optional.told s t hx.1 hy.1 hTest,
      Stmt.AllFormed.told a b hx.2 hy.2 hBody.items]
termination_by structural x => x

theorem Case.AllFormed.told {c d : Context} : (xs ys : List Case) → Case.AllFormed .clean c xs →
    Case.AllFormed .clean d ys →
    List.Forall₂ SameText (Document.cases false xs) (Document.cases false ys) →
    Case.bares xs = Case.bares ys
  | [], [], _, _, _ => rfl
  | x :: xs, y :: ys, hx, hy, .cons h hs => by
    rw [Case.bares, Case.bares, Case.Formed.told x y hx.1 hy.1 h,
      Case.AllFormed.told xs ys hx.2 hy.2 hs]
termination_by structural x => x

theorem Handler.Optional.told {c d : Context} : (x y : Handler) → x.Optional .clean c →
    y.Optional .clean d → SameText (Document.handler false x) (Document.handler false y) →
    x.bare = y.bare
  | .absent, .absent, _, _, _ => rfl
  | .absent, .clause _ _ _, _, _, h => (Document.not_null h).elim
  | .clause _ _ _, .absent, _, _, h => (Document.not_null h.symm).elim
  | .clause _ s a, .clause _ t b, hx, hy, h => by
    obtain ⟨hParam, hBody, -⟩ := Document.values_told h
    rw [Handler.bare, Handler.bare, Slot.NameFrom.told hx.1 hy.1 hParam,
      Block.Formed.told a b hx.2 hy.2 hBody]
termination_by structural x => x

theorem Declarator.Formed.told : (x y : Declarator) → x.Formed .clean → y.Formed .clean →
    SameText (Document.declarator false x) (Document.declarator false y) → x.bare = y.bare
  | .bind _ s i, .bind _ t j, hx, hy, h => by
    obtain ⟨hName, hInit, -⟩ := Document.values_told h
    rw [Declarator.bare, Declarator.bare, Slot.NameFrom.told hx.1 hy.1 hName,
      Slot.Optional.told i j hx.2 hy.2 hInit]
termination_by structural x => x

theorem Declarator.AllFormed.told : (xs ys : List Declarator) → Declarator.AllFormed .clean xs →
    Declarator.AllFormed .clean ys →
    List.Forall₂ SameText (Document.declarators false xs) (Document.declarators false ys) →
    Declarator.bares xs = Declarator.bares ys
  | [], [], _, _, _ => rfl
  | x :: xs, y :: ys, hx, hy, .cons h hs => by
    rw [Declarator.bares, Declarator.bares, Declarator.Formed.told x y hx.1 hy.1 h,
      Declarator.AllFormed.told xs ys hx.2 hy.2 hs]
termination_by structural x => x

theorem ForHead.Formed.told : (x y : ForHead) → x.Formed .clean → y.Formed .clean →
    SameText (Document.forHead false x) (Document.forHead false y) → x.bare = y.bare
  | .absent, .absent, _, _, _ => rfl
  | .absent, .declaration _ _ _, _, _, h => (Document.not_null h).elim
  | .declaration _ _ _, .absent, _, _, h => (Document.not_null h.symm).elim
  | .absent, .expression (.holds y), _, _, h => (Document.null_ne_expr h).elim
  | .expression (.holds x), .absent, _, _, h => (Document.null_ne_expr h.symm).elim
  | .declaration _ kind xs, .declaration _ kind' ys, hx, hy, h => by
    obtain ⟨hDeclarators, -⟩ := Document.values_told h
    rw [ForHead.bare, ForHead.bare, hx.1, hy.1,
      Declarator.AllFormed.told xs ys hx.2.2 hy.2.2 hDeclarators.items]
  | .declaration _ _ _, .expression (.holds y), _, _, h =>
    (Document.declaration_ne_expr h).elim
  | .expression (.holds x), .declaration _ _ _, _, _, h =>
    (Document.declaration_ne_expr h.symm).elim
  | .expression s, .expression t, hx, hy, h =>
    congrArg ForHead.expression (Slot.Formed.told s t hx hy h)
  | .expression .absent, _, hx, _, _ => hx.elim
  | .expression .vacant, _, hx, _, _ => hx.elim
  | _, .expression .absent, _, hy, _ => hy.elim
  | _, .expression .vacant, _, hy, _ => hy.elim
termination_by structural x => x

end

end ScriptOptimizer
