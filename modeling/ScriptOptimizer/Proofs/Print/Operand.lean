import ScriptOptimizer.Proofs.Print.Rereads

/-!
Operands whose text reads back: names, literals, functions, arrays, objects, and the chains of
member accesses, calls and constructions.
-/

namespace ScriptOptimizer

/-! ### Rows -/

/-- Pieces with a comma and a blank between any two. -/
theorem Lexes.row [PatternCheck] {texts : List Bytes} {rows : List (List Spelling)}
    (h : List.Forall₂ (Lexes NotDot AfterOperand (Stops false)) texts rows) (hne : texts ≠ []) :
    Lexes NotDot AfterOperand (Stops false) (Bytes.join ", " texts) (commaRow rows) := by
  induction h with
  | nil => exact absurd rfl hne
  | @cons text ws texts rows hFirst hMore ih =>
    cases hMore with
    | nil =>
      rw [commaRow, commaTail, List.flatMap_nil, List.append_nil]
      exact hFirst
    | @cons text' ws' texts rows hSecond hMore =>
      have hRest := hFirst.thenMark (p := .comma) (ih (by simp)).blank rfl
      have hText : Bytes.join ", " (text :: text' :: texts) = text ++
          (Bytes.ofString Punctuator.comma.text ++ 32 :: Bytes.join ", " (text' :: texts)) := by
        rw [Bytes.join]
        · simp [show Bytes.ofString ", " = Bytes.ofString Punctuator.comma.text ++ [32] by decide]
        · simp
      rw [hText]
      simpa [commaRow, commaTail] using hRest

/-- A row of pieces is judged by its pieces. -/
theorem Judges.row {α : Type} {verdict : α → Prop} {rows : List (List Spelling)} {xs : List α}
    (h : List.Forall₂ (fun ws x => Judges (verdict x) ws) rows xs) :
    Judges (∀ x ∈ xs, verdict x) (commaRow rows) := by
  induction h with
  | nil => exact Judges.nil.congr (by simp)
  | @cons ws x rows xs hFirst hMore ih =>
    cases hMore with
    | nil =>
      rw [commaRow, commaTail, List.flatMap_nil, List.append_nil]
      exact hFirst.congr (by simp)
    | @cons us y rows xs =>
      have hAll := (hFirst.apart (w := .mark .comma) ih (by simp) rfl).congr
        (List.forall_mem_cons).symm
      simpa [commaRow, commaTail] using hAll

/-- A row and the punctuator that closes it. -/
theorem Lexes.closedRow [PatternCheck] {texts : List Bytes} {rows : List (List Spelling)}
    (h : List.Forall₂ (Lexes NotDot AfterOperand (Stops false)) texts rows) {p : Punctuator}
    (hPlain : p.isPlain = true) (hEnds : (TokenType.punctuator p).endsOperand = true) :
    Lexes NotDot AfterOperand Anything (Bytes.join ", " texts ++ Bytes.ofString p.text)
      (commaRow rows ++ [Spelling.mark p]) := by
  cases texts with
  | nil =>
    cases h
    exact Lexes.closing hPlain hEnds
  | cons text texts => exact (Lexes.row h (by simp)).thenClosing hPlain hEnds

namespace Expr

variable [PatternCheck]

/-- The tokens of an item of a list. -/
def ItemAt (depth : Nat) (noIn : Bool) (ws : List Spelling) (e : Expr) : Prop :=
  e.Rereads Level.assign noIn (Print.slot depth noIn Level.assign (.holds e)) ws

theorem items_of_good {es : List Expr} (h : ∀ e ∈ es, e.Good) (depth : Nat) (noIn : Bool) :
    ∃ rows, List.Forall₂ (ItemAt depth noIn) rows es := by
  induction es with
  | nil => exact ⟨[], .nil⟩
  | cons e es ih =>
    obtain ⟨rows, hRows⟩ := ih fun e he => h e (List.mem_cons_of_mem _ he)
    obtain ⟨ws, hws⟩ := (h e List.mem_cons_self).slot depth noIn Level.assign (by decide)
    exact ⟨ws :: rows, .cons hws hRows⟩

theorem items_lexes {depth : Nat} {noIn : Bool} {rows : List (List Spelling)} {es : List Expr}
    (h : List.Forall₂ (ItemAt depth noIn) rows es) :
    List.Forall₂ (Lexes NotDot AfterOperand (Stops false))
      (Print.slots depth noIn (es.map .holds)) rows := by
  induction h with
  | nil => exact .nil
  | cons hFirst _ ih => exact .cons hFirst.lexes ih

/-- A list of arguments. -/
theorem arguments_lexes {es : List Expr} (h : ∀ e ∈ es, e.Good) (depth : Nat) :
    ∃ rows, List.Forall₂ (ReadsAt Level.assign false) rows es ∧
      Lexes NotDot AfterOperand Anything (Bytes.ofString "(" ++
        (Bytes.join ", " (Print.slots depth false (es.map .holds)) ++ Bytes.ofString ")"))
        (ReadsChain.argumentRow rows) ∧
      Judges (∀ e ∈ es, e.KeepsRegexes) (ReadsChain.argumentRow rows) := by
  obtain ⟨rows, hRows⟩ := items_of_good h depth false
  refine ⟨rows, hRows.imp fun ws e hAt => hAt.reads false id, ?_, ?_⟩
  · have hRow := Lexes.closedRow (p := .rightParen) (items_lexes hRows) rfl rfl
    exact hRow.mark (p := .leftParen) rfl
  · have hRow := Judges.row (hRows.imp fun ws e hAt => hAt.judged)
    exact (hRow.closed (by simp)).behind rfl

end Expr

/-! ### Functions -/

/-- The name can be written where it is no reserved word that follows a dot. -/
def Ident.Writable (id : Ident) : Prop := Word.Plain id.name ∧ Keyword.ofText? id.name = none

theorem params_lexes [PatternCheck] {params : List Ident}
    (h : ∀ p ∈ params, p.Writable) (depth : Nat) :
    List.Forall₂ (Lexes NotDot AfterOperand (Stops false))
      (Print.slots depth false (params.map fun p => .holds (.ident p)))
      (params.map fun p => [.name p.name]) := by
  induction params with
  | nil => exact .nil
  | cons p params ih =>
    obtain ⟨hPlain, hFree⟩ := h p List.mem_cons_self
    refine .cons ?_ (ih fun p hp => h p (List.mem_cons_of_mem _ hp))
    exact (Lexes.name hPlain hFree).stop_mono fun _ => Stops.mono

theorem withDefaults_nil (texts : List Bytes) : Print.withDefaults texts [] = texts := by
  cases texts <;> rfl

/-- The text of a function with a name is the name and the text of the function without. -/
theorem function_text (id : Option Ident) (params : List Ident) (span : Span) (body : List Stmt)
    (depth : Nat) :
    Print.function depth (.plain id params span body) =
      (match id with
        | some id => 32 :: id.name
        | none => []) ++
      (Bytes.ofString Punctuator.leftParen.text ++
        (Bytes.join ", " (Print.slots depth false (params.map fun p => .holds (.ident p))) ++
          Bytes.ofString Punctuator.rightParen.text) ++
        32 :: Print.braces depth (Print.stmts (depth + 1) body)) := by
  have hClose : Bytes.ofString ") " = Bytes.ofString Punctuator.rightParen.text ++ [32] := by decide
  have hBlank : Bytes.ofString " " = [32] := by decide
  cases id <;>
    simp [Function.plain, Print.function, Print.parameters, Print.optional, Print.block,
      withDefaults_nil, hClose, hBlank, Punctuator.text, show Bytes.ofString "" = [] by decide]

/-- The function keeps its regular expressions if its body does. -/
theorem Child.keep_function (id : Option Ident) (params : List Ident) (span : Span)
    (body : List Stmt) :
    KeepRegexes (function (.plain id params span body)) ↔ Stmt.RowKeepsRegexes body := by
  simp [function, Function.plain]

/-- What stands before the body of a function begins with no regular expression and holds none. -/
theorem paramRow_judged (params : List Ident) {items : List (List Spelling)} {body : List Stmt}
    (h : List.Forall₂ (fun ws s => Stmt.Judged s ws) items body) :
    Judges (Stmt.RowKeepsRegexes body) (paramRow params ++ ReadsStmt.braced items) := by
  have hNames : List.Forall₂ (fun ws (_ : Ident) => Judges True ws)
      (params.map fun p => [.name p.name]) params := by
    rw [List.forall₂_map_left_iff, List.forall₂_same]
    exact fun p _ => Judges.single _
  have hRow : Judges (∀ p ∈ params, True) (paramRow params) :=
    ((Judges.row hNames).closed (by simp)).behind rfl
  exact (hRow.append (Stmt.braced_judged h) (by simp)).congr (by simp)

variable [PatternCheck]

/-- The text of a function from its parameters on. -/
theorem function_lexes {params : List Ident} {body : List Stmt}
    (hParams : ∀ p ∈ params, p.Writable)
    (hBody : ∀ s ∈ body, s.Good Context.function) (depth : Nat) (span : Span) :
    ∃ items, List.Forall₂ (fun ws s => ReadsStmt Context.function ws s ∧ s.Judged ws) items body ∧
      Lexes NotDot AfterOperand Anything (Print.function depth (.plain none params span body))
        (paramRow params ++ ReadsStmt.braced items) := by
  obtain ⟨items, hItems, hBlock⟩ := Stmt.braces_lexes hBody depth
  refine ⟨items, hItems, ?_⟩
  have hRow := Lexes.closedRow (p := .rightParen) (params_lexes hParams depth) rfl rfl
  have hAll := (hRow.mark (p := .leftParen) rfl).append hBlock.blank.afterOperand
    fun _ _ => trivial
  rw [function_text, List.nil_append]
  simpa [paramRow] using hAll

/-- The text of a function with the word that starts it. -/
theorem wholeFunction_lexes {id : Option Ident} {params : List Ident} {body : List Stmt}
    (hName : ∀ n, id = some n → n.Writable) (hParams : ∀ p ∈ params, p.Writable)
    (hBody : ∀ s ∈ body, s.Good Context.function) (depth : Nat) (span : Span) :
    ∃ items, List.Forall₂ (ReadsStmt Context.function) items body ∧
      Lexes NotDot AfterOperand Anything
        (Bytes.ofString "function" ++ Print.function depth (.plain id params span body))
        (.word .kwFunction :: (nameRow id ++ (paramRow params ++ ReadsStmt.braced items))) ∧
      Judges (Stmt.RowKeepsRegexes body)
        (.word .kwFunction :: (nameRow id ++ (paramRow params ++ ReadsStmt.braced items))) := by
  obtain ⟨items, hItems, hLexes⟩ := function_lexes hParams hBody depth span
  have hJudged := paramRow_judged params (hItems.imp fun _ _ h => h.2)
  refine ⟨items, hItems.imp fun _ _ h => h.1, ?_, ?_⟩
  rotate_left
  · cases id with
    | none => exact hJudged.after (by simp) _
    | some id => exact (hJudged.after (by simp) _).after (by simp) _
  rw [function_text] at hLexes ⊢
  rw [List.nil_append, List.append_assoc] at hLexes
  rw [List.append_assoc]
  cases id with
  | none =>
    refine (Lexes.wordAlone .kwFunction).append hLexes fun rest _ => ?_
    rw [List.append_assoc]
    exact Stops.mark (p := .leftParen) (by decide) true _
  | some id =>
    obtain ⟨hPlain, hFree⟩ := hName id rfl
    have hNamed := (Lexes.name hPlain hFree).append hLexes.afterOperand fun rest _ => by
      rw [List.append_assoc]
      exact Stops.mark (p := .leftParen) (by decide) true _
    exact Lexes.word .kwFunction hNamed.blank (by decide)

/-! ### Literals and keys -/

/-- The literal is written as this token. -/
inductive LiteralAt : Spelling → Literal → Prop
  | numeral {raw : Bytes} {value : Binary64} (span : Span) : Numeral.Spells raw value →
      LiteralAt (.numeral raw value) ⟨span, raw, .number value⟩
  | quoted {raw value : Bytes} (span : Span) : StringLiteral.Spells raw value →
      LiteralAt (.quoted raw value) ⟨span, raw, .string value⟩
  | regex {raw : Bytes} {parts : RegexLiteral.Parts} (span : Span) :
      RegexLiteral.Spells raw parts →
      LiteralAt (.regex raw parts) ⟨span, raw, .regexp parts.body parts.flags⟩
  | word {k : Keyword} (span : Span) : (TokenType.keyword k).isLiteral = true →
      LiteralAt (.word k) ⟨span, Bytes.ofString k.text, (Spelling.word k).denotes⟩

namespace LiteralAt

variable {w : Spelling} {lit : Literal}

theorem spelled (h : LiteralAt w lit) : lit.Spelled w ∧ w.type.isValue = true := by
  cases h with
  | numeral => exact ⟨⟨rfl, rfl⟩, rfl⟩
  | quoted => exact ⟨⟨rfl, rfl⟩, rfl⟩
  | regex => exact ⟨⟨rfl, rfl⟩, rfl⟩
  | word _ hWord => exact ⟨⟨rfl, rfl⟩, by simp [TokenType.isValue, Spelling.word, hWord]⟩

theorem leads (h : LiteralAt w lit) : w.Leads := by
  cases h with
  | numeral _ hSpells => exact Spelling.leads_numeral hSpells
  | quoted _ hSpells => exact Spelling.leads_quoted hSpells
  | regex _ hSpells => exact Spelling.leads_regex hSpells
  | word => exact Spelling.leads_word _

theorem isRegexp (h : LiteralAt w lit) : w.type = .regex ↔ lit.value.isRegexp = true := by
  cases h with
  | regex => exact iff_of_true rfl rfl
  | @word k => cases k <;> exact iff_of_false nofun nofun
  | _ => exact iff_of_false nofun nofun

/-- A number wants more of what follows it than other literals do. -/
theorem lexes (h : LiteralAt w lit) :
    Lexes NotDot AfterOperand (Stops (!Print.isNumber (.holds (.literal lit)))) lit.raw [w] := by
  cases h with
  | numeral _ hSpells => exact Lexes.numeral hSpells
  | quoted _ hSpells => exact (Lexes.quoted hSpells).stop_mono fun _ _ => trivial
  | regex _ hSpells => exact Lexes.regex hSpells
  | @word k span hWord =>
    have hEnds : (TokenType.keyword k).endsOperand = true := by
      revert hWord
      exact Keyword.of_all (by decide) k
    have hNot : Print.isNumber (.holds (.literal
        ⟨span, Bytes.ofString k.text, (Spelling.word k).denotes⟩)) = false := by
      cases k <;> rfl
    rw [hNot]
    exact Lexes.operandWord hEnds

end LiteralAt

/-! ### Expressions without operators -/

namespace Expr

theorem Good.ident {id : Ident} (h : id.Writable) : (Expr.ident id).Good := by
  intro depth noIn _
  refine ⟨[.name id.name], .of_primary ?_ ?_ (fun flag => ReadsAt.ident id) ?_⟩
  · exact Lexes.name h.1 h.2
  · exact ⟨_, [], [], rfl, (List.append_nil _).symm, Spelling.leads_name h.1⟩
  · exact (Judges.single _).congr (by simp)

theorem Good.this (span : Span) : (Expr.this span).Good := by
  intro depth noIn _
  refine ⟨[.word .kwThis], .of_primary ?_ ?_ (fun flag => ReadsAt.this span) ?_⟩
  · exact Lexes.operandWord (k := .kwThis) rfl
  · exact ⟨_, [], [], rfl, (List.append_nil _).symm, Spelling.leads_word .kwThis⟩
  · exact (Judges.single _).congr (by simp [keepsRegexes_iff, Node.keepsRegex, Child.ofExpr])

theorem Good.literal {w : Spelling} {lit : Literal} (h : LiteralAt w lit) :
    (Expr.literal lit).Good := by
  intro depth noIn _
  obtain ⟨hSpelled, hType⟩ := h.spelled
  refine ⟨[w], .of_primary ?_ ?_ (fun flag => ReadsAt.literal hSpelled hType) ?_⟩
  · exact h.lexes
  · exact ⟨_, [], [], rfl, by rw [List.append_nil]; exact hSpelled.raw_eq, h.leads⟩
  · exact (Judges.single _).congr (by simp)

theorem Good.function {id : Option Ident} {params : List Ident} {body : List Stmt}
    (hName : ∀ n, id = some n → n.Writable) (hParams : ∀ p ∈ params, p.Writable)
    (hBody : ∀ s ∈ body, s.Good Context.function) (span inner : Span) :
    (Expr.function span (.plain id params inner body)).Good := by
  intro depth noIn _
  obtain ⟨items, hItems, hLexes, hJudged⟩ := wholeFunction_lexes hName hParams hBody depth inner
  refine ⟨_, .of_primary ?_ ?_ (fun flag => ReadsAt.function hItems id params span inner) ?_⟩
  · exact hLexes.stop_mono fun _ _ => trivial
  · exact .of_leads (Spelling.leads_word .kwFunction) _ _
  · refine hJudged.congr ?_
    simp [keepsRegexes_iff, Node.keepsRegex, Child.ofExpr, Child.keep_function]

/-! ### Arrays -/

/-- The text of the elements of an array and the bracket after them. -/
def elementsText (depth : Nat) (noIn : Bool) (elements : List Slot) : Bytes :=
  let hole := match elements.getLast? with
    | some .absent => ","
    | _ => ""
  Bytes.join ", " (Print.slots depth noIn elements) ++ (hole ++ Bytes.ofString "]")

omit [PatternCheck] in
theorem elementsText_cons (depth : Nat) (noIn : Bool) (s next : Slot) (others : List Slot) :
    elementsText depth noIn (s :: next :: others) = Print.slot depth noIn Level.assign s ++
      (Bytes.ofString Punctuator.comma.text ++ 32 :: elementsText depth noIn (next :: others)) := by
  have hComma : Bytes.ofString ", " = Bytes.ofString Punctuator.comma.text ++ [32] := by decide
  simp only [elementsText, Print.slots, Bytes.join, List.getLast?_cons_cons, hComma]
  simp

theorem elements_lexes {elements : List Slot} (h : ∀ s ∈ elements, s.Good) (depth : Nat)
    (noIn : Bool) :
    ∃ row, List.Forall₂ ElementAt row elements ∧
      Lexes NotDot AfterOperand Anything (elementsText depth noIn elements)
        (elementRow row ++ [Spelling.mark .rightBracket]) ∧
      Judges (∀ s ∈ elements, Child.KeepRegexes (Child.slot s)) (elementRow row) := by
  have hClose : Lexes NotDot AfterOperand Anything (Bytes.ofString Punctuator.rightBracket.text)
      [.mark .rightBracket] := Lexes.closing rfl rfl
  induction elements with
  | nil => exact ⟨[], .nil, hClose, Judges.nil.congr (by simp)⟩
  | cons s others ih =>
    obtain ⟨row, hRow, hLexes, hJudged⟩ := ih fun s hs => h s (List.mem_cons_of_mem _ hs)
    have hGood := h s List.mem_cons_self
    cases s with
    | vacant => cases hGood
    | absent =>
      refine ⟨none :: row, .cons trivial hRow, ?_, (hJudged.behind rfl).congr (by simp)⟩
      cases others with
      | nil =>
        cases hRow
        exact hClose.mark (p := .comma) rfl
      | cons next others =>
        rw [elementsText_cons]
        exact hLexes.blank.mark rfl
    | holds e =>
      obtain ⟨ws, hws⟩ := Expr.Good.slot hGood depth noIn Level.assign (by decide)
      refine ⟨some ws :: row, .cons (hws.reads false nofun) hRow, ?_⟩
      cases others with
      | nil =>
        cases hRow
        exact ⟨hws.lexes.thenClosing (p := .rightBracket) rfl rfl, hws.judged.congr (by simp)⟩
      | cons next others =>
        rw [elementsText_cons]
        cases hRow with
        | @cons o _ row _ hFirst hMore =>
          have hAll := hws.lexes.thenMark hLexes.blank (p := .comma) rfl
          refine ⟨by simpa [elementRow] using hAll, ?_⟩
          exact (hws.judged.apart (w := .mark .comma) hJudged (by simp) rfl).congr (by simp)

theorem Good.array {elements : List Slot} (h : ∀ s ∈ elements, s.Good) (span : Span) :
    (Expr.array span elements).Good := by
  intro depth noIn _
  obtain ⟨row, hRow, hLexes, hJudged⟩ := elements_lexes h depth noIn
  have hText : Print.expr depth noIn (.array span elements) =
      Bytes.ofString Punctuator.leftBracket.text ++ elementsText depth noIn elements := by
    rw [Print.expr, elementsText]
    simp only [List.flatten_cons, List.flatten_nil, List.append_nil]
    rfl
  rw [hText]
  refine ⟨_, .of_primary ?_ ?_ (fun flag => ReadsAt.array hRow span) ?_⟩
  · exact (hLexes.mark rfl).stop_mono fun _ _ => trivial
  · exact .of_leads (Spelling.leads_mark .leftBracket (by decide)) _ _
  · refine ((hJudged.closed (by simp)).behind rfl).congr ?_
    simp [keepsRegexes_iff, Node.keepsRegex, Child.ofExpr]

end Expr

/-! ### Objects -/

/-- The expression is a key whose text is one token. -/
inductive GoodKey : Spelling → Expr → Prop
  | literal {w : Spelling} {lit : Literal} : LiteralAt w lit →
      w.type = .string ∨ w.type = .number → GoodKey w (.literal lit)
  | name {id : Ident} : id.Writable → GoodKey (.name id.name) (.ident id)
  | word (k : Keyword) (span : Span) : GoodKey (.word k) (.ident ⟨span, Bytes.ofString k.text⟩)

namespace GoodKey

variable {w : Spelling} {key : Expr}

theorem keyAt (h : GoodKey w key) : KeyAt w key := by
  cases h with
  | literal hLiteral hType => exact .literal hLiteral.spelled.1 hType
  | name => exact .name _
  | word => exact .word rfl

theorem slot_eq (h : GoodKey w key) (depth : Nat) (noIn : Bool) :
    Print.slot depth noIn Level.assign (.holds key) = Print.expr depth noIn key := by
  cases h <;> exact Expr.slot_primary rfl rfl depth noIn (by decide)

theorem lexes (h : GoodKey w key) (depth : Nat) (noIn : Bool) :
    Lexes NotDot NotDot (Stops false) (Print.slot depth noIn Level.assign (.holds key)) [w] := by
  rw [h.slot_eq]
  cases h with
  | literal hLiteral _ => exact hLiteral.lexes.weaken.stop_mono fun _ => Stops.mono
  | name hName => exact (Lexes.name hName.1 hName.2).weaken.stop_mono fun _ => Stops.mono
  | word k => exact (Lexes.wordAlone k).stop_mono fun _ => Stops.mono

theorem type_ne (h : GoodKey w key) : w.type ≠ .regex := by
  cases h with
  | literal _ hType => rcases hType with h | h <;> rw [h] <;> decide
  | name => simp
  | word => simp

theorem keeps (h : GoodKey w key) : key.KeepsRegexes := by
  cases h with
  | literal => exact Child.keep_literal _
  | name => exact Child.keep_name _
  | word => exact Child.keep_name _

end GoodKey

/-- The text of the entry, at any depth, reads back. -/
def Property.Good (p : Property) : Prop :=
  ∀ depth noIn, ∃ ws,
    Lexes NotDot AfterOperand (Stops false) (Print.property depth noIn p) ws ∧ PropertyAt ws p ∧
      Judges (Node.property p).KeepsRegexes ws

/-- An entry keeps its regular expressions if its value does. -/
theorem Property.keepsRegexes_iff {w : Spelling} {key value : Expr} (hKey : GoodKey w key)
    (span : Span) (kind : Bytes) :
    (Node.property (.entry span kind (.holds key) (.holds value) false false)).KeepsRegexes ↔
      value.KeepsRegexes := by
  rw [Node.keepsRegexes_iff, ← Child.KeepRegexes]
  simp [Node.keepsRegex, Node.children, hKey.keeps]

theorem Property.Good.init {w : Spelling} {key value : Expr} (hKey : GoodKey w key)
    (hValue : value.Good) (span : Span) :
    (Property.entry span "init" (.holds key) (.holds value) false false).Good := by
  intro depth noIn
  obtain ⟨ws, hws⟩ := hValue.slot depth noIn Level.assign (by decide)
  refine ⟨_, ?_, PropertyAt.init hKey.keyAt (hws.reads false nofun) span, ?_⟩
  rotate_left
  · rw [Property.keepsRegexes_iff hKey]
    exact (hws.judged.behind rfl).after (by simp) w
  have hText : Print.property depth noIn
      (.entry span "init" (.holds key) (.holds value) false false) =
      Print.slot depth noIn Level.assign (.holds key) ++ (Bytes.ofString Punctuator.colon.text ++
        32 :: Print.slot depth noIn Level.assign (.holds value)) := by
    have hColon : Bytes.ofString ": " = Bytes.ofString Punctuator.colon.text ++ [32] := by decide
    have hInit : (Bytes.ofString "init" = Bytes.ofString "get" ||
        Bytes.ofString "init" = Bytes.ofString "set") = false := by decide
    rw [Print.property]
    · simp [hColon]
    · simp [hInit]
  rw [hText]
  exact (hKey.lexes depth noIn).append (hws.lexes.blank.mark rfl) fun rest _ => by
    rw [List.append_assoc]
    exact Stops.mark (by decide) false _

theorem Property.Good.accessor {kind : Bytes} {params : List Ident} {body : List Stmt}
    (hKind : StartsAccessor kind params.length) {w : Spelling} {key : Expr} (hKey : GoodKey w key)
    (hParams : ∀ p ∈ params, p.Writable) (hBody : ∀ s ∈ body, s.Good Context.function)
    (span valueSpan inner : Span) :
    (Property.entry span kind (.holds key)
      (.holds (.function valueSpan (.plain none params inner body))) false false).Good := by
  intro depth noIn
  obtain ⟨items, hItems, hLexes⟩ := function_lexes hParams hBody depth inner
  refine ⟨_, ?_, PropertyAt.accessor hKind hKey.keyAt (hItems.imp fun _ _ h => h.1) span valueSpan
    inner, ?_⟩
  rotate_left
  · rw [Property.keepsRegexes_iff hKey, Expr.keepsRegexes_iff]
    have hJudged := (paramRow_judged params (hItems.imp fun _ _ h => h.2)).after (by simp) w
    refine (hJudged.after hKey.type_ne _).congr ?_
    simp [Node.keepsRegex, Child.ofExpr, Child.keep_function]
  have hWritable : Word.Plain kind ∧ Keyword.ofText? kind = none := by
    rcases hKind with ⟨rfl, -⟩ | ⟨rfl, -⟩ <;>
      exact ⟨Word.plain_of_bytes (by decide) (by decide), by decide⟩
  have hIs : (kind = Bytes.ofString "get" || kind = Bytes.ofString "set") = true := by
    rcases hKind with ⟨rfl, -⟩ | ⟨rfl, -⟩ <;> decide
  have hText : Print.property depth noIn (.entry span kind (.holds key)
      (.holds (.function valueSpan (.plain none params inner body))) false false) =
      kind ++ 32 :: (Print.slot depth noIn Level.assign (.holds key) ++
        Print.function depth (.plain none params inner body)) := by
    have hBlank : Bytes.ofString " " = [32] := by decide
    rw [Function.plain, Print.property]
    · simp [Print.function, hBlank, show Bytes.ofString "" = [] by decide]
    · exact hIs
  rw [hText]
  have hRest := (hKey.lexes depth noIn).append hLexes fun rest _ => by
    rw [function_text, List.nil_append, List.append_assoc, List.append_assoc]
    exact Stops.mark (p := .leftParen) (by decide) false _
  exact ((Lexes.name hWritable.1 hWritable.2).thenBlank hRest.afterOperand).stop_mono
    fun _ _ => trivial

/-- The entries of an object read back. -/
theorem properties_lexes {list : List Property} (h : ∀ p ∈ list, p.Good) (depth : Nat)
    (noIn : Bool) :
    ∃ rows, List.Forall₂ (Lexes NotDot AfterOperand (Stops false))
      (Print.properties depth noIn list) rows ∧ List.Forall₂ PropertyAt rows list ∧
      List.Forall₂ (fun ws p => Judges (Node.property p).KeepsRegexes ws) rows list := by
  induction list with
  | nil => exact ⟨[], .nil, .nil, .nil⟩
  | cons p list ih =>
    obtain ⟨rows, hLexes, hRows, hJudged⟩ := ih fun p hp => h p (List.mem_cons_of_mem _ hp)
    obtain ⟨ws, hFirst, hAt, hVerdict⟩ := h p List.mem_cons_self depth noIn
    exact ⟨ws :: rows, .cons hFirst hLexes, .cons hAt hRows, .cons hVerdict hJudged⟩

theorem Expr.Good.object {list : List Property} (h : ∀ p ∈ list, p.Good) (span : Span) :
    (Expr.object span list).Good := by
  intro depth noIn _
  obtain ⟨rows, hLexes, hRows, hJudged⟩ := properties_lexes h depth noIn
  have hClose : Lexes NotDot AfterOperand Anything (Bytes.ofString Punctuator.rightBrace.text)
      [.mark .rightBrace] := Lexes.closing rfl rfl
  -- The text after the opening brace, which is its closing brace if there are no entries.
  obtain ⟨tail, hText, hTail⟩ : ∃ tail, Print.expr depth noIn (.object span list) =
      Bytes.ofString Punctuator.leftBrace.text ++ tail ∧
      Lexes NotDot AfterOperand Anything tail (commaRow rows ++ [Spelling.mark .rightBrace]) := by
    rw [Print.expr]
    cases hTexts : Print.properties depth noIn list with
    | nil =>
      rw [hTexts] at hLexes
      cases hLexes
      exact ⟨_, rfl, hClose⟩
    | cons text texts =>
      rw [hTexts] at hLexes
      have hInner := ((Lexes.row hLexes (by simp)).thenBlank hClose.afterOperand).blank
      refine ⟨_, ?_, hInner⟩
      have hOpen : Bytes.ofString "\x7b " = Bytes.ofString Punctuator.leftBrace.text ++ [32] := by
        decide
      have hBlank : Bytes.ofString " \x7d" = 32 :: Bytes.ofString Punctuator.rightBrace.text := by
        decide
      simp [hOpen, hBlank]
  rw [hText]
  refine ⟨_, .of_primary ((hTail.mark rfl).stop_mono fun _ _ => trivial) ?_
    (fun flag => ReadsAt.object hRows span) ?_⟩
  · exact .of_leads (Spelling.leads_mark .leftBrace (by decide)) _ _
  · refine (((Judges.row hJudged).closed (by simp)).behind rfl).congr ?_
    simp [Expr.keepsRegexes_iff, Node.keepsRegex, Child.ofExpr]

/-! ### Chains -/

namespace Expr

variable {e : Expr}

/-- The tokens are a chain, without calls if the expression has none on it. -/
structure ChainAt (e : Expr) (text : Bytes) (ws : List Spelling) : Prop where
  lexes : Lexes NotDot AfterOperand (Stops true) text ws
  front : Fronted text ws
  begins : Begins ws
  chain : ReadsChain true ws e
  pure : Print.hasCallExpr e = false → ReadsChain false ws e
  judged : Judges e.KeepsRegexes ws

theorem ChainAt.rereads {text : Bytes} {ws : List Spelling} (h : e.ChainAt text ws) (noIn : Bool) :
    e.Rereads Level.call noIn text ws :=
  ⟨h.lexes.stop_mono fun _ => Stops.weaken, h.front, fun _ _ => .of_call h.begins h.chain,
    fun _ => h.pure, h.judged⟩

theorem Rereads.chainAt {level : Nat} {noIn : Bool} {text : Bytes} {ws : List Spelling}
    (h : e.Rereads level noIn text ws) (hLevel : Level.call ≤ level)
    (hNumber : Print.isNumber (.holds e) = false) : e.ChainAt text ws := by
  have hDot : e.takesDot level = true := by simp [takesDot, hLevel, hNumber]
  refine ⟨hDot ▸ h.lexes, h.front, (h.reads false (by simp)).begins, ?_, h.chain hLevel, h.judged⟩
  exact (h.reads false (by simp)).chain hLevel

/-- What stands before the dot of a member access. A number is put in parentheses. -/
theorem Good.object_chainAt (h : e.Good) (depth : Nat) (noIn : Bool) :
    ∃ ws, e.ChainAt (if Print.isNumber (.holds e)
      then Bytes.cat ["(", Print.slot depth noIn Level.call (.holds e), ")"]
      else Print.slot depth noIn Level.call (.holds e)) ws := by
  obtain ⟨ws, hws⟩ := h.slot depth noIn Level.call (by decide)
  cases hNumber : Print.isNumber (.holds e) with
  | false => exact ⟨ws, hws.chainAt (Nat.le_refl _) hNumber⟩
  | true =>
    have hParens := hws.parens noIn
    have hText : Bytes.cat ["(", Print.slot depth noIn Level.call (.holds e), ")"] =
        Bytes.ofString "(" ++
          (Print.slot depth noIn Level.call (.holds e) ++ Bytes.ofString ")") := by
      simp
    rw [if_pos rfl, hText]
    exact ⟨_, hws.parens_lexes.stop_mono fun _ _ => trivial, hParens.front,
      (hParens.reads false nofun).begins, (hParens.reads false nofun).chain (by decide),
      hParens.chain (by decide), hParens.judged⟩

theorem Good.member (h : e.Good) {id : Ident} (hName : Word.Plain id.name) (span : Span) :
    (Expr.member span (.holds e) (.holds (.ident id)) false).Good := by
  intro depth noIn _
  obtain ⟨ws, hws⟩ := h.object_chainAt depth noIn
  have hText : Print.expr depth noIn (.member span (.holds e) (.holds (.ident id)) false) =
      (if Print.isNumber (.holds e)
        then Bytes.cat ["(", Print.slot depth noIn Level.call (.holds e), ")"]
        else Print.slot depth noIn Level.call (.holds e)) ++ (Bytes.ofString "." ++ id.name) := by
    rw [Print.expr]
    simp [slot_primary (e := .ident id) rfl rfl depth noIn (Nat.le_refl _), Print.expr_ident]
  rw [hText]
  refine ⟨_, ChainAt.rereads
    ⟨?_, hws.front.append _ _, hws.begins.append ?_, hws.chain.member id span,
      fun hCall => (hws.pure hCall).member id span, ?_⟩ noIn⟩
  · exact hws.lexes.append (Lexes.member hName).afterOperand fun rest _ =>
      Stops.of_byte (by decide)
  · rintro v ⟨⟩
    decide
  · refine (hws.judged.apart (Judges.single _) (by simp) rfl).congr ?_
    simp [keepsRegexes_iff (.member _ _ _ _), Node.keepsRegex, Child.ofExpr]

theorem Good.index {p : Expr} (h : e.Good) (hProperty : p.Good) (span : Span) :
    (Expr.member span (.holds e) (.holds p) true).Good := by
  intro depth noIn _
  obtain ⟨ws, hws⟩ := h.slot depth noIn Level.call (by decide)
  obtain ⟨us, hus⟩ := hProperty.slot depth noIn Level.sequence (by decide)
  have hText : Print.expr depth noIn (.member span (.holds e) (.holds p) true) =
      Print.slot depth noIn Level.call (.holds e) ++ (Bytes.ofString Punctuator.leftBracket.text ++
        (Print.slot depth noIn Level.sequence (.holds p) ++
          Bytes.ofString Punctuator.rightBracket.text)) := by
    rw [Print.expr]
    simp [Punctuator.text]
  have hProperty := hus.reads false (by simp)
  rw [hText]
  refine ⟨_, ChainAt.rereads
    ⟨?_, hws.front.append _ _, (hws.reads false (by simp)).begins.append ?_,
      ((hws.reads false (by simp)).chain (Nat.le_refl _)).index hProperty span,
    fun hCall => (hws.chain (Nat.le_refl _) hCall).index hProperty span, ?_⟩ noIn⟩
  · refine (hws.lexes.thenMark ?_ rfl).stop_mono fun _ _ => trivial
    exact (hus.lexes.thenClosing rfl rfl)
  · rintro v ⟨⟩
    decide
  · refine (hws.judged.apart (hus.judged.closed (by simp)) (by simp) rfl).congr ?_
    simp [keepsRegexes_iff (.member _ _ _ _), Node.keepsRegex, Child.ofExpr]

theorem Good.call {es : List Expr} (h : e.Good) (hArguments : ∀ a ∈ es, a.Good) (span : Span) :
    (Expr.call span (.holds e) (es.map .holds)).Good := by
  intro depth noIn _
  obtain ⟨ws, hws⟩ := h.slot depth noIn Level.call (by decide)
  obtain ⟨rows, hRows, hLexes, hJudged⟩ := arguments_lexes hArguments depth
  have hText : Print.expr depth noIn (.call span (.holds e) (es.map .holds)) =
      Print.slot depth noIn Level.call (.holds e) ++ (Bytes.ofString "(" ++
        (Bytes.join ", " (Print.slots depth false (es.map .holds)) ++ Bytes.ofString ")")) := by
    rw [Print.expr]
    simp
  rw [hText]
  refine ⟨_, ChainAt.rereads
    ⟨?_, hws.front.append _ _, (hws.reads false (by simp)).begins.append ?_,
      ((hws.reads false (by simp)).chain (Nat.le_refl _)).call hRows span,
    (fun hCall => by cases hCall), ?_⟩ noIn⟩
  · refine (hws.lexes.append hLexes.afterOperand fun rest _ => ?_).stop_mono fun _ _ => trivial
    rw [List.append_assoc]
    exact Stops.mark (p := .leftParen) (by decide) _ _
  · rintro v ⟨⟩
    decide
  · refine (hws.judged.append hJudged (by simp)).congr ?_
    simp [keepsRegexes_iff (.call _ _ _), Node.keepsRegex, Child.ofExpr]

/-- What stands behind `new`. A callee with a call on its chain is put in parentheses. -/
theorem Good.callee_chainAt (h : e.Good) (depth : Nat) (noIn : Bool) :
    ∃ ws, Lexes NotDot AfterOperand (Stops false) (if Print.hasCall (.holds e)
        then Bytes.cat ["(", Print.slot depth noIn Level.sequence (.holds e), ")"]
        else Print.slot depth noIn Level.call (.holds e)) ws ∧ ReadsChain false ws e ∧
      Judges e.KeepsRegexes ws := by
  cases hCall : Print.hasCall (.holds e) with
  | false =>
    obtain ⟨ws, hws⟩ := h.slot depth noIn Level.call (by decide)
    exact ⟨ws, hws.lexes.stop_mono fun _ => Stops.mono, hws.chain (Nat.le_refl _) hCall, hws.judged⟩
  | true =>
    obtain ⟨ws, hws⟩ := h.slot depth noIn Level.sequence (by decide)
    have hText : Bytes.cat ["(", Print.slot depth noIn Level.sequence (.holds e), ")"] =
        Bytes.ofString "(" ++
          (Print.slot depth noIn Level.sequence (.holds e) ++ Bytes.ofString ")") := by
      simp
    rw [if_pos rfl, hText]
    refine ⟨_, hws.parens_lexes.stop_mono fun _ _ => trivial, ?_, (hws.parens false).judged⟩
    exact ReadsAs.chain_of_primary (((hws.parens false).reads false id).reads (Nat.le_refl _)) false

theorem Good.construct {es : List Expr} (h : e.Good) (hArguments : ∀ a ∈ es, a.Good)
    (span : Span) : (Expr.construct span (.holds e) (es.map .holds)).Good := by
  intro depth noIn _
  obtain ⟨ws, hCallee, hChain, hVerdict⟩ := h.callee_chainAt depth noIn
  obtain ⟨rows, hRows, hLexes, hJudged⟩ := arguments_lexes hArguments depth
  have hText : Print.expr depth noIn (.construct span (.holds e) (es.map .holds)) =
      Bytes.ofString Keyword.kwNew.text ++ 32 :: ((if Print.hasCall (.holds e)
        then Bytes.cat ["(", Print.slot depth noIn Level.sequence (.holds e), ")"]
        else Print.slot depth noIn Level.call (.holds e)) ++ (Bytes.ofString "(" ++
        (Bytes.join ", " (Print.slots depth false (es.map .holds)) ++ Bytes.ofString ")"))) := by
    rw [Print.expr]
    simp [show Bytes.ofString "new " = Bytes.ofString Keyword.kwNew.text ++ [32] by decide]
  rw [hText]
  refine ⟨_, ChainAt.rereads ⟨?_, ?_, .of_ne rfl (by decide) _, hChain.construct hRows span,
    fun _ => hChain.construct hRows span, ?_⟩ noIn⟩
  · refine (Lexes.word .kwNew (Lexes.blank ?_) (by decide)).stop_mono fun _ _ => trivial
    refine hCallee.append hLexes.afterOperand fun rest _ => ?_
    rw [List.append_assoc]
    exact Stops.mark (p := .leftParen) (by decide) _ _
  · exact .of_leads (Spelling.leads_word .kwNew) _ _
  · refine ((hVerdict.append hJudged (by simp)).behind (by simp)).congr ?_
    simp [keepsRegexes_iff (.construct _ _ _), Node.keepsRegex, Child.ofExpr]

end Expr

end ScriptOptimizer
