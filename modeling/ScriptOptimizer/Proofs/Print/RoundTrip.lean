import ScriptOptimizer.Pattern.Check
import ScriptOptimizer.Proofs.Parse.Regexes
import ScriptOptimizer.Proofs.Parse.WellFormed
import ScriptOptimizer.Proofs.Print.Statement
import ScriptOptimizer.Proofs.Token.Sourced

/-!
The printed text of a program reads back as the program. A program that was read is formed from the
tokens of its text; where these read again as themselves, every formed part is good, and so the text
of the whole is cut into tokens that are read as the whole.
-/

namespace ScriptOptimizer

section

variable [PatternCheck]

/-- The tokens that read again as themselves. One that stands after no dot is no reserved word. -/
def TokenSet.sound : TokenSet := fun dot t => t.Sound ∧ (dot = false → t.Free)

/-! ### What sound tokens write -/

theorem Ident.From.plain {dot : Bool} {id : Ident} (h : id.From .sound dot) :
    Word.Plain id.name := by
  obtain ⟨t, ⟨hSound, -⟩, hType, hName⟩ := h
  rw [Token.Sound, hType] at hSound
  exact hName ▸ hSound

theorem Ident.From.writable {id : Ident} (h : id.From .sound false) : id.Writable := by
  refine ⟨h.plain, ?_⟩
  obtain ⟨t, ⟨-, hFree⟩, hType, hName⟩ := h
  exact hName ▸ hFree rfl hType

/-- A sound token that is an operator is spelled as that operator. -/
theorem TokenSet.Writes.operator {allowed : TokenType → Bool} {text : Bytes}
    (h : TokenSet.sound.Writes allowed text)
    (hOperator : ∀ type, allowed type = true →
      (∃ p, type = .punctuator p ∧ p ≠ .dot) ∨ ∃ k, type = .keyword k) :
    ∃ w : Spelling, w.IsOperator ∧ allowed w.type = true ∧ text = w.text := by
  obtain ⟨t, ⟨hSound, -⟩, hAllowed, rfl⟩ := h
  rcases hOperator t.type hAllowed with ⟨p, hType, hDot⟩ | ⟨k, hType⟩
  · rw [hType] at hAllowed
    rw [Token.Sound, hType] at hSound
    exact ⟨.mark p, .inl ⟨p, rfl, hDot⟩, hAllowed, hSound⟩
  · rw [hType] at hAllowed
    rw [Token.Sound, hType] at hSound
    exact ⟨.word k, .inr ⟨k, rfl⟩, hAllowed, hSound⟩

/-- A sound token that is a punctuator is spelled as that punctuator. -/
theorem TokenSet.Writes.punctuator {allowed : TokenType → Bool} {text : Bytes}
    (h : TokenSet.sound.Writes allowed text)
    (hMark : ∀ type, allowed type = true → ∃ p, type = .punctuator p) :
    ∃ p : Punctuator, allowed (.punctuator p) = true ∧ text = Bytes.ofString p.text := by
  obtain ⟨t, ⟨hSound, -⟩, hAllowed, rfl⟩ := h
  obtain ⟨p, hType⟩ := hMark t.type hAllowed
  rw [hType] at hAllowed
  rw [Token.Sound, hType] at hSound
  exact ⟨p, hAllowed, hSound⟩

end

namespace TokenType

/-- What has a precedence is an operator. -/
theorem operator_of_precedence {type : TokenType} (h : 0 < type.precedence) :
    (∃ p, type = .punctuator p ∧ p ≠ .dot) ∨ ∃ k, type = .keyword k := by
  cases type with
  | punctuator p => exact .inl ⟨p, rfl, by rintro rfl; exact absurd h (by decide)⟩
  | keyword k => exact .inr ⟨k, rfl⟩
  | _ => exact absurd h (by decide)

theorem operator_of_isBinary (type : TokenType) (h : type.isBinary = true) :
    (∃ p, type = .punctuator p ∧ p ≠ .dot) ∨ ∃ k, type = .keyword k := by
  simp only [isBinary, Bool.and_eq_true, decide_eq_true_eq] at h
  exact operator_of_precedence h.1.1

theorem precedence_of_isLogical {type : TokenType} (h : type.isLogical = true) :
    0 < type.precedence := by
  simp only [isLogical, Bool.or_eq_true, decide_eq_true_eq] at h
  rcases h with rfl | rfl <;> decide

theorem operator_of_isLogical (type : TokenType) (h : type.isLogical = true) :
    (∃ p, type = .punctuator p ∧ p ≠ .dot) ∨ ∃ k, type = .keyword k :=
  operator_of_precedence (precedence_of_isLogical h)

theorem operator_of_isUnary (type : TokenType) (h : type.isUnary = true) :
    (∃ p, type = .punctuator p ∧ p ≠ .dot) ∨ ∃ k, type = .keyword k := by
  cases type with
  | punctuator p => exact .inl ⟨p, rfl, by rintro rfl; cases h⟩
  | keyword k => exact .inr ⟨k, rfl⟩
  | _ => cases h

theorem punctuator_of_isUpdate (type : TokenType) (h : type.isUpdate = true) :
    ∃ p, type = .punctuator p := by
  cases type with
  | punctuator p => exact ⟨p, rfl⟩
  | _ => cases h

theorem punctuator_of_isAssignment (type : TokenType) (h : type.isAssignment = true) :
    ∃ p, type = .punctuator p := by
  cases type with
  | punctuator p => exact ⟨p, rfl⟩
  | _ => cases h

end TokenType

section

variable [PatternCheck]

/-- A literal of a sound token is written as a token. -/
theorem Literal.From.literalAt {allowed : TokenType → Bool} {lit : Literal}
    (h : lit.From .sound allowed) (hValue : ∀ type, allowed type = true → type.isValue = true) :
    ∃ w, LiteralAt w lit ∧ allowed w.type = true := by
  obtain ⟨span, raw, value⟩ := lit
  obtain ⟨t, ⟨hSound, -⟩, hAllowed, hRaw, hDenotes⟩ := h
  obtain rfl : raw = t.literal := hRaw
  obtain rfl : value = t.literalValue := hDenotes
  have hIs := hValue t.type hAllowed
  unfold Token.Sound at hSound
  unfold Token.literalValue
  cases hType : t.type with
  | number =>
    rw [hType] at hSound hAllowed
    exact ⟨_, .numeral span hSound, hAllowed⟩
  | string =>
    rw [hType] at hSound hAllowed
    exact ⟨_, .quoted span hSound, hAllowed⟩
  | regex =>
    rw [hType] at hSound hAllowed
    exact ⟨_, .regex span hSound, hAllowed⟩
  | keyword k =>
    rw [hType] at hSound hAllowed hIs
    rw [show t.literal = Bytes.ofString k.text from hSound]
    have hLiteral : (TokenType.keyword k).isLiteral = true := by
      simpa [TokenType.isValue] using hIs
    have hAt := LiteralAt.word (k := k) span hLiteral
    refine ⟨.word k, ?_, hAllowed⟩
    cases k <;> exact hAt
  | _ =>
    rw [hType] at hIs
    cases hIs

theorem Slot.KeyFrom.goodKey {key : Slot} (h : key.KeyFrom .sound) :
    ∃ w e, key = .holds e ∧ GoodKey w e := by
  cases key with
  | holds e =>
    cases e with
    | literal lit =>
      obtain ⟨w, hAt, hKey⟩ := Literal.From.literalAt h fun type hKey => by
        simp only [TokenType.isKeyLiteral, Bool.or_eq_true, decide_eq_true_eq] at hKey
        rcases hKey with rfl | rfl <;> rfl
      simp only [TokenType.isKeyLiteral, Bool.or_eq_true, decide_eq_true_eq] at hKey
      exact ⟨w, _, rfl, .literal hAt hKey⟩
    | ident id =>
      rcases h with hName | ⟨k, t, ⟨hSound, -⟩, hType, hName⟩
      · exact ⟨_, _, rfl, .name hName.writable⟩
      · rw [Token.Sound, hType] at hSound
        obtain ⟨span, name⟩ := id
        obtain rfl : name = t.literal := hName
        rw [show t.literal = Bytes.ofString k.text from hSound]
        exact ⟨_, _, rfl, .word k span⟩
    | _ => exact h.elim
  | _ => exact h.elim

theorem Slot.NameFrom.writable {s : Slot} (h : s.NameFrom .sound false) :
    ∃ id : Ident, s = .holds (.ident id) ∧ id.Writable := by
  cases s with
  | holds e =>
    cases e with
    | ident id => exact ⟨id, rfl, Ident.From.writable h⟩
    | _ => exact h.elim
  | _ => exact h.elim

theorem params_writable {params : List Slot} (h : ∀ p ∈ params, p.NameFrom .sound false) :
    ∃ ids : List Ident, params = ids.map (fun id => .holds (.ident id)) ∧
      ∀ id ∈ ids, id.Writable := by
  induction params with
  | nil => exact ⟨[], rfl, List.forall_mem_nil _⟩
  | cons p params ih =>
    obtain ⟨ids, rfl, hIds⟩ := ih fun q hq => h q (List.mem_cons_of_mem _ hq)
    obtain ⟨id, rfl, hId⟩ := (h p List.mem_cons_self).writable
    exact ⟨id :: ids, rfl, List.forall_mem_cons.2 ⟨hId, hIds⟩⟩

theorem Context.Reaches.writable {c : Context} {label : Option Ident} (h : c.Reaches .sound label) :
    (∀ id, label = some id → id.Writable) ∧
      ∀ id, label = some id → c.labels.contains id.name = true :=
  ⟨fun id hId => (h id hId).1.writable, fun id hId => (h id hId).2⟩

/-- The function is plain, can be written, and its body reads back. -/
inductive Function.Good : Function → Prop
  | plain {id : Option Ident} {params : List Ident} {body : List Stmt} (span : Span) :
      (∀ n, id = some n → n.Writable) → (∀ p ∈ params, p.Writable) →
      (∀ s ∈ body, s.Good Context.function) → Good (.plain id params span body)

theorem Function.Signed.good {id : Option Ident} {params defaults : List Slot} {rest : Option Ident}
    {span : Span} {body : List Stmt} {generator : Bool}
    (h : Function.Signed .sound (.mk id params defaults rest (.braces span body) generator))
    (hBody : ∀ s ∈ body, s.Good Context.function) :
    (Function.mk id params defaults rest (.braces span body) generator).Good := by
  obtain ⟨hName, hParams, rfl, rfl, rfl⟩ := h
  obtain ⟨ids, rfl, hIds⟩ := params_writable hParams
  exact .plain span (fun n hn => (hName n hn).writable) hIds hBody

theorem Expr.Good.of_function {fn : Function} (h : fn.Good) (span : Span) :
    (Expr.function span fn).Good := by
  obtain ⟨inner, hName, hParams, hBody⟩ := h
  exact Good.function hName hParams hBody span inner

theorem Property.Good.of_init {key : Slot} {value : Expr} (hKey : key.KeyFrom .sound)
    (hValue : value.Good) (span : Span) :
    (Property.entry span (Bytes.ofString "init") key (.holds value) false false).Good := by
  obtain ⟨w, e, rfl, hGood⟩ := hKey.goodKey
  exact Property.Good.init hGood hValue span

/-- An accessor's function has no name, and as many parameters as its word asks for. -/
theorem Property.Good.of_accessor {kind : Bytes} {key : Slot} {fn : Function}
    (hKey : key.KeyFrom .sound) (hFn : fn.Good) {params : List Slot} {body : Block}
    (hEq : fn = .mk none params [] none body false) (hKind : StartsAccessor kind params.length)
    (span inner : Span) :
    (Property.entry span kind key (.holds (.function inner fn)) false false).Good := by
  obtain ⟨w, e, rfl, hGood⟩ := hKey.goodKey
  obtain ⟨bodySpan, hName, hParams, hBody⟩ := hFn
  rw [Function.plain, Function.mk.injEq] at hEq
  obtain ⟨rfl, rfl, -, -, rfl, -⟩ := hEq
  exact Property.Good.accessor (by simpa using hKind) hGood hParams hBody span inner bodySpan

theorem Declarator.Good.of_name {id : Slot} (h : id.NameFrom .sound false) {init : Slot}
    (hInit : init.Good) (span : Span) : (Declarator.bind span id init).Good := by
  obtain ⟨name, rfl, hName⟩ := h.writable
  cases init with
  | absent => exact .plain span hName
  | vacant => exact hInit.elim
  | holds e => exact .init span hName hInit

theorem Expr.Good.of_member {e : Expr} (h : e.Good) {property : Slot} {dot : Bool}
    (hName : property.NameFrom .sound dot) (span : Span) :
    (Expr.member span (.holds e) property false).Good := by
  cases property with
  | holds p =>
    cases p with
    | ident id => exact h.member (Ident.From.plain hName) span
    | _ => exact hName.elim
  | _ => exact hName.elim

omit [PatternCheck] in
/-- The operator that stands between two operands. -/
theorem Expr.operation_eq_binary {type : TokenType} (h : type.isBinary = true) {span : Span}
    {operator : Bytes} {l r : Expr} :
    operation type span operator l r = .binary span operator (.holds l) (.holds r) := by
  simp only [TokenType.isBinary, Bool.and_eq_true, decide_eq_true_eq] at h
  unfold operation
  split
  · exact absurd rfl h.1.2
  · exact absurd rfl h.2
  · rfl

omit [PatternCheck] in
theorem Expr.operation_eq_logical {type : TokenType} (h : type.isLogical = true) {span : Span}
    {operator : Bytes} {l r : Expr} :
    operation type span operator l r = .logical span operator (.holds l) (.holds r) := by
  simp only [TokenType.isLogical, Bool.or_eq_true, decide_eq_true_eq] at h
  rcases h with rfl | rfl <;> rfl

/-! ### Formed trees show what leads them -/

mutual

theorem Slot.Formed.heads : (s : Slot) → s.Formed .sound → ∃ e, s = .holds e ∧ e.Heads
  | .holds e, h => ⟨e, rfl, Expr.Formed.heads e h⟩
  | .absent, h => h.elim
  | .vacant, h => h.elim

theorem Expr.Formed.heads : (e : Expr) → e.Formed .sound → e.Heads
  | .ident _, h => .ident (Ident.From.plain h)
  | .literal lit, h => by
    obtain ⟨w, hAt, -⟩ := Literal.From.literalAt h fun _ hValue => hValue
    exact .of_token hAt.leads hAt.isRegexp fun _ _ =>
      ⟨[], by simp [Print.expr, hAt.spelled.1.raw_eq]⟩
  | .this _, _ => .of_token (Spelling.leads_word .kwThis) (iff_of_false nofun nofun)
      fun _ _ => ⟨[], rfl⟩
  | .array _ _, _ => .of_token (Spelling.leads_mark .leftBracket (by decide))
      (iff_of_false nofun nofun) fun _ _ => ⟨_, by rw [Print.expr]; rfl⟩
  | .object _ _, _ => .of_token (Spelling.leads_mark .leftBrace (by decide))
      (iff_of_false nofun nofun) fun _ _ => by
        rw [Print.expr]
        split <;> exact ⟨_, rfl⟩
  | .function _ _, _ => .of_token (Spelling.leads_word .kwFunction) (iff_of_false nofun nofun)
      fun _ _ => ⟨_, by rw [Print.expr]; rfl⟩
  | .sequence _ [], h => absurd h.1 (by simp)
  | .sequence _ (first :: rest), h => by
    obtain ⟨e, rfl, hHeads⟩ := Slot.Formed.heads first h.2.1
    refine hHeads.of_first Level.assign (Nat.le_of_ble_eq_true rfl) rfl fun depth noIn => ?_
    rw [Print.expr, Print.slots]
    cases Print.slots depth noIn rest with
    | nil => exact ⟨[], (List.append_nil _).symm⟩
    | cons => exact ⟨_, by rw [Bytes.join, List.append_assoc]; simp⟩
  | .unary _ _ _, h => by
    obtain ⟨w, hOperator, hType, rfl⟩ := h.1.operator TokenType.operator_of_isUnary
    exact .of_token (hOperator.leads (.inl hType)) (iff_of_false hOperator.type_ne nofun)
      fun depth noIn => Expr.unary_front _ _
  | .update _ _ true _, h => by
    obtain ⟨p, hType, rfl⟩ := h.1.punctuator TokenType.punctuator_of_isUpdate
    have hOperator : (Spelling.mark p).IsOperator := .inl ⟨p, rfl, by rintro rfl; cases hType⟩
    exact .of_token (hOperator.leads (.inr hType)) (iff_of_false hOperator.type_ne nofun)
      fun depth noIn => ⟨_, by rw [Print.expr]; rfl⟩
  | .update _ _ false argument, h => by
    obtain ⟨e, rfl, hHeads⟩ := Slot.Formed.heads argument h.2.2
    exact hHeads.of_first Level.call (Nat.le_of_ble_eq_true rfl) rfl fun _ _ =>
      ⟨_, by rw [Print.expr]⟩
  | .binary _ operator left _, h => by
    obtain ⟨e, rfl, hHeads⟩ := Slot.Formed.heads left h.2.1
    exact hHeads.of_first (Level.binary operator) (Nat.le_refl _) rfl
      fun _ _ => ⟨_, by rw [Print.expr, Bytes.cat, List.flatten_cons]⟩
  | .logical _ operator left _, h => by
    obtain ⟨e, rfl, hHeads⟩ := Slot.Formed.heads left h.2.1
    exact hHeads.of_first (Level.binary operator) (Nat.le_refl _) rfl
      fun _ _ => ⟨_, by rw [Print.expr, Bytes.cat, List.flatten_cons]⟩
  | .assign _ _ left _, h => by
    obtain ⟨e, rfl, hHeads⟩ := Slot.Formed.heads left h.2.2.1
    exact hHeads.of_first Level.call (Nat.le_of_ble_eq_true rfl) rfl
      fun _ _ => ⟨_, by rw [Print.expr, Bytes.cat, List.flatten_cons]⟩
  | .conditional _ test _ _, h => by
    obtain ⟨e, rfl, hHeads⟩ := Slot.Formed.heads test h.1
    exact hHeads.of_first Level.loosestBinary (Nat.le_of_ble_eq_true rfl) rfl
      fun _ _ => ⟨_, by rw [Print.expr, Bytes.cat, List.flatten_cons]⟩
  | .construct _ _ _, _ => .of_token (Spelling.leads_word .kwNew) (iff_of_false nofun nofun)
      fun _ _ => ⟨_, by rw [Print.expr]; rfl⟩
  | .call _ callee _, h => by
    obtain ⟨e, rfl, hHeads⟩ := Slot.Formed.heads callee h.1
    exact hHeads.of_first Level.call (Nat.le_of_ble_eq_true rfl) rfl
      fun _ _ => ⟨_, by rw [Print.expr, Bytes.cat, List.flatten_cons]⟩
  | .member span object property computed, h => by
    obtain ⟨e, rfl, hHeads⟩ := Slot.Formed.heads object h.1
    exact hHeads.of_object span property computed
  | .objectPattern _ _, h => h.elim
  | .arrayPattern _ _, h => h.elim

end

/-! ### Formed trees are good -/

mutual

theorem Slot.Formed.good : (s : Slot) → s.Formed .sound → ∃ e, s = .holds e ∧ e.Good
  | .holds e, h => ⟨e, rfl, Expr.Formed.good e h⟩
  | .absent, h => h.elim
  | .vacant, h => h.elim

theorem Slot.Optional.good : (s : Slot) → s.Optional .sound → s.Good
  | .holds e, h => Expr.Formed.good e h
  | .absent, _ => trivial
  | .vacant, h => h

theorem Slot.AllFormed.good : (list : List Slot) → Slot.AllFormed .sound list →
    ∃ es : List Expr, list = es.map .holds ∧ ∀ e ∈ es, e.Good
  | [], _ => ⟨[], rfl, List.forall_mem_nil _⟩
  | s :: rest, h => by
    obtain ⟨e, rfl, hGood⟩ := Slot.Formed.good s h.1
    obtain ⟨es, rfl, hMore⟩ := Slot.AllFormed.good rest h.2
    exact ⟨e :: es, rfl, List.forall_mem_cons.2 ⟨hGood, hMore⟩⟩

theorem Slot.AllOptional.good : (list : List Slot) → Slot.AllOptional .sound list →
    ∀ s ∈ list, s.Good
  | [], _ => List.forall_mem_nil _
  | s :: rest, h =>
    List.forall_mem_cons.2 ⟨Slot.Optional.good s h.1, Slot.AllOptional.good rest h.2⟩

theorem Expr.Formed.good : (e : Expr) → e.Formed .sound → e.Good
  | .ident id, h => Expr.Good.ident (Ident.From.writable h)
  | .literal lit, h => by
    obtain ⟨w, hAt, -⟩ := Literal.From.literalAt h fun _ hValue => hValue
    exact Expr.Good.literal hAt
  | .this span, _ => Expr.Good.this span
  | .array span elements, h => Expr.Good.array (Slot.AllOptional.good elements h) span
  | .object span properties, h => Expr.Good.object (Property.AllFormed.good properties h) span
  | .function span fn, h => Expr.Good.of_function (Function.Formed.good fn h) span
  | .sequence span items, h => by
    obtain ⟨es, rfl, hGood⟩ := Slot.AllFormed.good items h.2
    obtain ⟨hLength, -⟩ := h
    match es, hGood, hLength with
    | first :: second :: more, hGood, _ =>
      obtain ⟨hFirst, hMore⟩ := List.forall_mem_cons.1 hGood
      exact hFirst.sequence hMore (by simp) span
  | .unary span operator argument, h => by
    obtain ⟨e, rfl, hGood⟩ := Slot.Formed.good argument h.2
    obtain ⟨w, hOperator, hType, rfl⟩ := h.1.operator TokenType.operator_of_isUnary
    exact hGood.unaryOperator hOperator hType span
  | .binary span operator left right, h => by
    obtain ⟨l, rfl, hLeft⟩ := Slot.Formed.good left h.2.1
    obtain ⟨r, rfl, hRight⟩ := Slot.Formed.good right h.2.2
    obtain ⟨w, hOperator, hType, rfl⟩ := h.1.operator TokenType.operator_of_isBinary
    have hPositive : 0 < w.type.precedence := by
      simp only [TokenType.isBinary, Bool.and_eq_true, decide_eq_true_eq] at hType
      exact hType.1.1
    rw [← Expr.operation_eq_binary hType]
    exact hLeft.operation hRight hOperator hPositive span
  | .logical span operator left right, h => by
    obtain ⟨l, rfl, hLeft⟩ := Slot.Formed.good left h.2.1
    obtain ⟨r, rfl, hRight⟩ := Slot.Formed.good right h.2.2
    obtain ⟨w, hOperator, hType, rfl⟩ := h.1.operator TokenType.operator_of_isLogical
    rw [← Expr.operation_eq_logical hType]
    exact hLeft.operation hRight hOperator (TokenType.precedence_of_isLogical hType) span
  | .assign span operator left right, h => by
    obtain ⟨hWrites, hAssign, hLeft, hRight⟩ := h
    obtain ⟨l, rfl, hl⟩ := Slot.Formed.good left hLeft
    obtain ⟨r, rfl, hr⟩ := Slot.Formed.good right hRight
    obtain ⟨p, hType, rfl⟩ := hWrites.punctuator TokenType.punctuator_of_isAssignment
    exact hl.assign hAssign hr hType span
  | .update span operator before argument, h => by
    obtain ⟨hWrites, hAssign, hArgument⟩ := h
    obtain ⟨e, rfl, hGood⟩ := Slot.Formed.good argument hArgument
    obtain ⟨p, hType, rfl⟩ := hWrites.punctuator TokenType.punctuator_of_isUpdate
    cases before with
    | true => exact hGood.prefixed (Expr.Formed.heads e hArgument) hAssign hType span
    | false => exact hGood.postfixed hAssign hType span
  | .conditional span test consequent alternate, h => by
    obtain ⟨t, rfl, hTest⟩ := Slot.Formed.good test h.1
    obtain ⟨y, rfl, hYes⟩ := Slot.Formed.good consequent h.2.1
    obtain ⟨n, rfl, hNo⟩ := Slot.Formed.good alternate h.2.2
    exact hTest.conditional hYes hNo span
  | .construct span callee arguments, h => by
    obtain ⟨e, rfl, hCallee⟩ := Slot.Formed.good callee h.1
    obtain ⟨es, rfl, hArguments⟩ := Slot.AllFormed.good arguments h.2
    exact hCallee.construct hArguments span
  | .call span callee arguments, h => by
    obtain ⟨e, rfl, hCallee⟩ := Slot.Formed.good callee h.1
    obtain ⟨es, rfl, hArguments⟩ := Slot.AllFormed.good arguments h.2
    exact hCallee.call hArguments span
  | .member span object property true, h => by
    obtain ⟨e, rfl, hObject⟩ := Slot.Formed.good object h.1
    obtain ⟨p, rfl, hProperty⟩ := Slot.Formed.good property h.2
    exact hObject.index hProperty span
  | .member span object property false, h => by
    obtain ⟨e, rfl, hObject⟩ := Slot.Formed.good object h.1
    exact hObject.of_member (show property.NameFrom .sound true from h.2) span
  | .objectPattern _ _, h => h.elim
  | .arrayPattern _ _, h => h.elim

theorem Property.Formed.good : (p : Property) → p.Formed .sound → p.Good
  | .absent, h => h.elim
  | .entry span kind key (.holds value) computed shorthand, h => by
    obtain ⟨hKey, hValue, hSorted, rfl, rfl⟩ := h
    rcases hSorted with rfl | ⟨inner, params, body, hKind, hEq⟩
    · exact Property.Good.of_init hKey (Expr.Formed.good value hValue) span
    · cases value with
      | function place fn =>
        simp only [Slot.holds.injEq, Expr.function.injEq] at hEq
        exact Property.Good.of_accessor hKey (Function.Formed.good fn hValue) hEq.2 hKind span place
      | _ => cases hEq
  | .entry _ _ _ .absent _ _, h => h.2.1.elim
  | .entry _ _ _ .vacant _ _, h => h.2.1.elim

theorem Property.AllFormed.good : (list : List Property) → Property.AllFormed .sound list →
    ∀ p ∈ list, p.Good
  | [], _ => List.forall_mem_nil _
  | p :: rest, h =>
    List.forall_mem_cons.2 ⟨Property.Formed.good p h.1, Property.AllFormed.good rest h.2⟩

theorem Function.Formed.good : (fn : Function) → fn.Formed .sound → fn.Good
  | .mk _ _ _ _ .absent _, h => h.2.elim
  | .mk _ _ _ _ (.braces _ body) _, h => Function.Signed.good h.1 (Stmt.AllFormed.good body h.2)

theorem Stmt.Formed.good {c : Context} : (s : Stmt) → s.Formed .sound c → s.Good c
  | .absent, h => h.elim
  | .empty span, _ => Stmt.Good.empty span
  | .block span body, h => Stmt.Good.block (Stmt.AllFormed.good body h) span
  | .expression span e, h => by
    obtain ⟨x, rfl, hGood⟩ := Slot.Formed.good e h
    exact Stmt.Good.expression hGood (Expr.Formed.heads x h) span
  | .conditional span test consequent alternate, h => by
    obtain ⟨hTest, hYes, hNo⟩ := h
    obtain ⟨t, rfl, hGood⟩ := Slot.Formed.good test hTest
    have hYes := Stmt.Formed.good consequent hYes
    rcases hNo with rfl | ⟨hNo, hClosed⟩
    · exact Stmt.Good.conditional hGood hYes span
    · refine Stmt.Good.conditionalElse hGood hYes hClosed (Stmt.Formed.good alternate hNo) ?_ span
      rintro rfl
      exact hNo
  | .labeled span label body, h => by
    obtain ⟨id, rfl, hName, hNew, hBody⟩ := h
    exact Stmt.Good.labeled hName.writable hNew (Stmt.Formed.good body hBody) span
  | .breakTo span label, h => Stmt.Good.breakTo h.1 h.2.writable.1 h.2.writable.2 span
  | .continueTo span label, h => Stmt.Good.continueTo h.1 h.2.writable.1 h.2.writable.2 span
  | .withObject span object body, h => by
    obtain ⟨o, rfl, hObject⟩ := Slot.Formed.good object h.1
    exact Stmt.Good.withObject hObject (Stmt.Formed.good body h.2) span
  | .switchOn span discriminant cases, h => by
    obtain ⟨d, rfl, hTest⟩ := Slot.Formed.good discriminant h.1
    exact Stmt.Good.switchOn hTest (Case.AllFormed.good cases h.2.2) h.2.1 span
  | .returnValue span argument, h => by
    have hArgument := Slot.Optional.good argument h.2
    cases argument with
    | absent => exact Stmt.Good.returnNothing h.1 span
    | vacant => exact hArgument.elim
    | holds e => exact Stmt.Good.returnValue h.1 hArgument span
  | .throwValue span argument, h => by
    obtain ⟨e, rfl, hGood⟩ := Slot.Formed.good argument h
    exact Stmt.Good.throwValue hGood span
  | .tryCatch _ .absent _ _, h => h.1.elim
  | .tryCatch span (.braces inner body) handler finalizer, h => by
    obtain ⟨hBody, hHandler, hFinalizer, hSome⟩ := h
    exact Stmt.Good.tryCatch (Stmt.AllFormed.good body hBody)
      (Handler.Optional.good handler hHandler)
      (Block.optional_good finalizer hFinalizer) hSome span inner
  | .whileLoop span test body, h => by
    obtain ⟨t, rfl, hTest⟩ := Slot.Formed.good test h.1
    exact Stmt.Good.whileLoop hTest (Stmt.Formed.good body h.2) span
  | .doWhile span body test, h => by
    obtain ⟨t, rfl, hTest⟩ := Slot.Formed.good test h.2
    exact Stmt.Good.doWhile (Stmt.Formed.good body h.1) hTest span
  | .forLoop span init test update body, h =>
    Stmt.Good.forLoop (ForHead.Formed.good init h.1) (Slot.Optional.good test h.2.1)
      (Slot.Optional.good update h.2.2.1) (Stmt.Formed.good body h.2.2.2) span
  | .forIn span left right body, h => by
    obtain ⟨hLeft, hTarget, hRight, hBody⟩ := h
    obtain ⟨o, rfl, hObject⟩ := Slot.Formed.good right hRight
    exact Stmt.Good.forIn (ForHead.Formed.good left hLeft) hTarget hObject
      (Stmt.Formed.good body hBody) span
  | .debugger span, _ => Stmt.Good.debugger span
  | .function span fn, h => by
    obtain ⟨inner, hName, hParams, hBody⟩ := Function.Formed.good fn h.2
    obtain ⟨id, rfl⟩ := Option.isSome_iff_exists.1 h.1
    exact Stmt.Good.function (hName id rfl) hParams hBody span inner
  | .declaration span kind declarators, h => by
    obtain ⟨rfl, hSome, hList⟩ := h
    exact Stmt.Good.declaration (Declarator.AllFormed.good declarators hList) hSome span

theorem Stmt.AllFormed.good {c : Context} : (list : List Stmt) → Stmt.AllFormed .sound c list →
    ∀ s ∈ list, s.Good c
  | [], _ => List.forall_mem_nil _
  | s :: rest, h =>
    List.forall_mem_cons.2 ⟨Stmt.Formed.good s h.1, Stmt.AllFormed.good rest h.2⟩

theorem Case.AllFormed.good {c : Context} : (list : List Case) → Case.AllFormed .sound c list →
    ∀ clause ∈ list, clause.Good c
  | [], _ => List.forall_mem_nil _
  | .clause span test consequent :: rest, h =>
    List.forall_mem_cons.2 ⟨.clause span (Slot.Optional.good test h.1.1)
      (Stmt.AllFormed.good consequent h.1.2), Case.AllFormed.good rest h.2⟩

theorem Handler.Optional.good {c : Context} : (handler : Handler) → handler.Optional .sound c →
    handler.Good c
  | .absent, _ => .absent
  | .clause _ _ .absent, h => h.2.elim
  | .clause span param (.braces inner body), h => by
    have hBody := Stmt.AllFormed.good body h.2
    obtain ⟨id, rfl, hName⟩ := h.1.writable
    exact .clause span inner hName hBody

theorem Block.optional_good {c : Context} : (b : Block) → b = .absent ∨ b.Formed .sound c →
    b.Good c
  | .absent, _ => .absent
  | .braces span body, h => .braces span (Stmt.AllFormed.good body (h.resolve_left nofun))

theorem Declarator.AllFormed.good : (list : List Declarator) → Declarator.AllFormed .sound list →
    ∀ d ∈ list, d.Good
  | [], _ => List.forall_mem_nil _
  | .bind span _ init :: rest, h =>
    List.forall_mem_cons.2 ⟨.of_name h.1.1 (Slot.Optional.good init h.1.2) span,
      Declarator.AllFormed.good rest h.2⟩

theorem ForHead.Formed.good : (head : ForHead) → head.Formed .sound → head.Good
  | .absent, _ => .absent
  | .declaration span _ declarators, h => by
    obtain ⟨rfl, hSome, hList⟩ := h
    exact .declaration span (Declarator.AllFormed.good declarators hList) hSome
  | .expression s, h => by
    obtain ⟨e, rfl, hGood⟩ := Slot.Formed.good s h
    exact .expression hGood

end

/-! ### Whole programs -/

/-- Tokens that are sourced are sound. -/
theorem Sourced.along {before : Option Token} {tokens : List Token} (h : Sourced before tokens)
    {dot : Bool} (hDot : dot = false → NotDot before) :
    Pairing.Along .sound dot tokens := by
  induction tokens generalizing before dot with
  | nil => trivial
  | cons t rest ih =>
    obtain ⟨hSound, hFree, hRest⟩ := h
    refine ⟨⟨hSound, fun h => hFree (hDot h)⟩, ih hRest fun h => ?_⟩
    rintro u ⟨⟩
    exact of_decide_eq_false h

end

/-- Statements up to the end of input are read as a program. -/
theorem Grammar.program_reads {items : List (List Spelling)} {list : List Stmt}
    (h : List.Forall₂ (ReadsStmt Context.program) items list) {n : Nat}
    (hn : items.flatten.length < n) :
    Reads (Grammar.nested n).program items.flatten [.finish]
      fun p => Stmt.bares p.body = Stmt.bares list := by
  have hGo (w : Spelling) (more : List Spelling) (hStart : w.type.startsStatement = true) :
      Reads (Parse.sees .endOfInput) [] (w :: more) (· = false) := by
    refine (Parse.sees_reads _).mono ?_
    rintro b rfl
    refine decide_eq_false fun hEnd => ?_
    rw [hEnd] at hStart
    cases hStart
  have hRow : Repeats (Parse.sees .endOfInput) ((Grammar.nested n).statement Context.program)
      (Alike Stmt.bare) items.flatten [.finish] list :=
    ReadsStmt.repeats h hn (.cons (by decide) (by decide)) (Parse.sees_reads _) hGo
      fun _ _ _ _ _ hReads => hReads
  refine Reads.still Parse.position_reads fun start _ => Reads.last hRow.many fun body hBody => ?_
  refine Reads.still Parse.position_reads fun stop _ => Reads.pure ?_
  rw [Stmt.bares_eq_map, Stmt.bares_eq_map, Alike.map_eq hBody]

namespace Program

section

variable [PatternCheck]

/-- A text that is laid out as tokens, where regular expressions stand where they may, is read by
the rule for programs from a stream that shows them, in a nesting deeper than there are tokens. -/
theorem parse_lexed {ws : List Spelling} {source : Source}
    (h : Lexed NotDot false source.content ws) (hAdmitted : Spelling.Admitted true ws) :
    ∃ n s, ws.length < n ∧ s.Shows ws ∧ parse source = match (Grammar.nested n).program s with
      | .ok program _ => .ok program
      | .error d _ => .error d := by
  obtain ⟨tokens, hTokens, hSpelled⟩ := Lexer.significant_lexed h hAdmitted
  obtain ⟨first, rest, rfl⟩ : ∃ first rest, tokens = first :: rest := by
    refine List.exists_cons_of_ne_nil fun hNil => ?_
    rw [hNil, List.forall₂_nil_left_iff] at hSpelled
    exact h.ne_nil hSpelled
  refine ⟨(first :: rest).length + 1, ⟨first, rest, none, ⟨0, 0, 0⟩, some source, {}⟩, ?_,
    ⟨rfl, hSpelled⟩, ?_⟩
  · rw [hSpelled.length_eq]
    exact Nat.lt_succ_self _
  · have hStart : Stream.start (Lexer.ofSource source).source {} (first :: rest) none =
        .ok ⟨first, rest, none, ⟨0, 0, 0⟩, some source, {}⟩ := by
      cases rest <;> rfl
    unfold parse readFrom
    rw [hTokens]
    dsimp only
    rw [hStart]
    dsimp only
    cases (Grammar.nested ((first :: rest).length + 1)).program
        ⟨first, rest, none, ⟨0, 0, 0⟩, some source, {}⟩ with
    | ok program after => rfl
    | error d after => rfl

/-- The text of a program whose statements are written as good tokens. -/
theorem print_lexed {good : List Spelling → Stmt → Prop} {p : Program}
    (h : ∀ s ∈ p.body, s.Writes (good · s)) :
    ∃ items, List.Forall₂ good items p.body ∧
      Lexed NotDot false p.print (items.flatten ++ [Spelling.finish]) := by
  obtain ⟨items, hItems, hLexed⟩ := Stmt.lines_lexed h 0
  have hFinish : Lexed NotDot false [] [Spelling.finish] :=
    .finish fun _ hb => absurd hb List.not_mem_nil
  have hAll := @hLexed [] .finish [] false hFinish rfl
  rw [List.append_nil] at hAll
  exact ⟨items, hItems, hAll⟩

/-- Tokens that are read as statements are read as a program of them. -/
theorem parse_of_reads {items : List (List Spelling)} {list : List Stmt} {source : Source}
    (hItems : List.Forall₂ (ReadsStmt Context.program) items list)
    (hLexed : Lexed NotDot false source.content (items.flatten ++ [Spelling.finish]))
    (hAdmitted : Spelling.Admitted true (items.flatten ++ [Spelling.finish])) :
    ∃ q : Program, parse source = .ok q ∧ q.bare = ⟨.none, Stmt.bares list⟩ := by
  obtain ⟨n, s, hn, hShows, hParse⟩ := parse_lexed hLexed hAdmitted
  rw [List.length_append] at hn
  obtain ⟨q, after, hRun, hBody, -⟩ :=
    Grammar.program_reads hItems (Nat.lt_of_le_of_lt (Nat.le_add_right _ _) hn) (by simp) s hShows
  rw [hRun] at hParse
  exact ⟨q, hParse, congrArg (Program.mk .none) hBody⟩

omit [PatternCheck] in
/-- The tokens of a program's text, among which every regular expression stands where one may
exactly if the program keeps them. -/
theorem row_judges {items : List (List Spelling)} {p : Program}
    (h : List.Forall₂ (fun ws s => Stmt.Judged s ws) items p.body) :
    Judges p.KeepsRegexes (items.flatten ++ [Spelling.finish]) :=
  ((Stmt.row_judged h).closed (by simp [Spelling.finish])).congr p.keepsRegexes_iff.symm

/-- A program whose statements are good is what its text reads as if it keeps its regular
expressions. -/
theorem parse_print_of_good {p : Program} (h : ∀ s ∈ p.body, s.Good Context.program)
    (hKeeps : p.KeepsRegexes) {source : Source} (hText : source.content = p.print) :
    ∃ q, parse source = .ok q ∧ q.bare = p.bare := by
  obtain ⟨items, hItems, hLexed⟩ := print_lexed h
  exact parse_of_reads (hItems.imp fun _ _ h => h.1) (hText ▸ hLexed)
    ((row_judges (hItems.imp fun _ _ h => h.2)).iff.2 hKeeps)

/-- The statements of a program that was read from tokens without escapes are good. -/
theorem good_of_parse {source : Source} {p : Program} (h : parse source = .ok p)
    (hPlain : ∀ t ∈ (Lexer.ofSource source).significant.1, t.Unescaped) :
    ∀ s ∈ p.body, s.Good Context.program := by
  have hSourced := (Lexer.significant_scanned (Lexer.ofSource source)).sourced hPlain
  have hFormed := formed_of_parse h (hSourced.along fun _ t ht => by cases ht)
  exact Stmt.AllFormed.good p.body hFormed

/-- The printed text of a program that was read is read as that program again, ranges apart, unless
a regular expression or a name with an escape stood in the source. -/
theorem parse_print {source : Source} {p : Program} (h : parse source = .ok p)
    (hSimple : ∀ t ∈ (Lexer.ofSource source).significant.1, t.Simple) (name path : Bytes) :
    ∃ q, parse ⟨name, path, p.print⟩ = .ok q ∧ q.bare = p.bare := by
  have hNone : p.regexes = [] := by
    rw [regexes_of_parse h, List.filterMap_eq_nil_iff]
    exact fun t ht => Token.regex?_of_type rfl (hSimple t ht).1
  exact parse_print_of_good (good_of_parse h fun t ht => (hSimple t ht).2)
    (Node.keepsRegexes_of_plain hNone) rfl

end

/-- An `in` that must stay in parentheses in a loop head, a callee with a call on its chain, two
signs in a row, a hole at the end of an array and an `else`. -/
theorem parse_print_nested :
    let source := Source.inline
      (Bytes.ofString "for(var a=(b in c);;)new(d().e)(- -f,[1,,]);if(x)y;else({get:0})")
    ∃ p, parse source = .ok p ∧ ∃ q, parse ⟨[], [], p.print⟩ = .ok q ∧ q.bare = p.bare := by
  intro source
  have hSome : (parse source).toOption.isSome = true := by decide +kernel
  have hSimple : ∀ t ∈ (Lexer.ofSource source).significant.1, t.Simple := by
    simp only [Token.Simple]
    decide +kernel
  cases h : parse source with
  | ok p => exact ⟨p, rfl, parse_print h hSimple [] []⟩
  | error d =>
    rw [h] at hSome
    cases hSome

end Program

end ScriptOptimizer
