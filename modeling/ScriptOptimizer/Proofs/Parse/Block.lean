import ScriptOptimizer.Proofs.Parse.Level
import ScriptOptimizer.Proofs.Parse.Rows

/-!
How statements in a row, blocks and the rest of functions are read. An `if` without `else` at the
end of a statement would take an `else` that follows, so such a statement is read as itself only
where none does.
-/

namespace ScriptOptimizer

open Parse

/-- Would the statement take an `else` that follows it as its own? -/
def Stmt.endsOpen : Stmt → Bool
  | .conditional _ _ _ .absent => true
  | .conditional _ _ _ alternate => alternate.endsOpen
  | .labeled _ _ body | .withObject _ _ body | .whileLoop _ _ body | .forLoop _ _ _ _ body
  | .forIn _ _ _ body => body.endsOpen
  | _ => false

/-- May a token of this type start a statement? Those that go on with one or end a row of them are
excluded. -/
def TokenType.startsStatement : TokenType → Bool
  | .endOfInput | .punctuator .rightBrace | .keyword .kwCase | .keyword .kwDefault
  | .keyword .kwElse | .keyword .kwFinally => false
  | _ => true

theorem TokenType.startsStatement_of_startsExpression {type : TokenType}
    (h : type.startsExpression = true) : type.startsStatement = true := by
  unfold startsStatement
  split
  case h_7 => rfl
  all_goals cases h

/-- The next token is nothing that a statement would add to itself: no `finally` and, after one that
ends open, no `else`. -/
def Follows (isOpen : Bool) (rest : List Spelling) : Prop :=
  ∀ w, rest.head? = some w →
    w.type ≠ .keyword .kwFinally ∧ (isOpen = true → w.type ≠ .keyword .kwElse)

namespace Follows

variable {w : Spelling} {rest : List Spelling}

theorem mono (h : Follows true rest) (isOpen : Bool) : Follows isOpen rest :=
  fun w hw => ⟨(h w hw).1, fun _ => (h w hw).2 rfl⟩

theorem cons (hFinally : w.type ≠ .keyword .kwFinally) (hElse : w.type ≠ .keyword .kwElse) :
    Follows true (w :: rest) := by
  rintro v ⟨⟩
  exact ⟨hFinally, fun _ => hElse⟩

theorem of_startsStatement (h : w.type.startsStatement = true) : Follows true (w :: rest) :=
  cons (fun hType => by rw [hType] at h; cases h) (fun hType => by rw [hType] at h; cases h)

end Follows

/-- The spellings are read as the statement, up to places, in a nesting deeper than there are
tokens. -/
structure ReadsStmt (c : Context) (ws : List Spelling) (s : Stmt) : Prop where
  starts : ∃ w more, ws = w :: more ∧ w.type.startsStatement = true
  reads {n : Nat} {rest : List Spelling} : ws.length < n → Follows s.endsOpen rest →
    Reads ((Grammar.nested n).statement c) ws rest (Alike Stmt.bare · s)

namespace ReadsStmt

variable {c : Context} {items : List (List Spelling)} {list : List Stmt} {rest : List Spelling}

theorem follows_flatten (h : List.Forall₂ (ReadsStmt c) items list) (hRest : Follows true rest) :
    Follows true (items.flatten ++ rest) := by
  cases h with
  | nil => exact hRest
  | cons hFirst =>
    obtain ⟨w, more, rfl, hStart⟩ := hFirst.starts
    exact .of_startsStatement hStart

/-- Statements in a row, up to a token that ends the row and starts no statement. -/
theorem repeats (h : List.Forall₂ (ReadsStmt c) items list) {isEnd : Parse Bool} {item : Parse Stmt}
    {n : Nat} (hn : items.flatten.length < n) (hRest : Follows true rest)
    (hEnd : Reads isEnd [] rest (· = true))
    (hGo : ∀ w more, w.type.startsStatement = true → Reads isEnd [] (w :: more) (· = false))
    (hItem : ∀ w ws rest good, w.type.startsStatement = true →
      Reads ((Grammar.nested n).statement c) (w :: ws) rest good → Reads item (w :: ws) rest good) :
    Repeats isEnd item (Alike Stmt.bare) items.flatten rest list := by
  induction h with
  | nil => exact .done hEnd
  | @cons ws s items list hFirst hMore ih =>
    obtain ⟨w, more, rfl, hStart⟩ := hFirst.starts
    simp only [List.flatten_cons, List.length_append] at hn
    have hRead := hFirst.reads (n := n) (by omega) ((follows_flatten hMore hRest).mono _)
    have := Repeats.more (hGo w _ hStart) (List.cons_ne_nil _ _) (hItem w more _ _ hStart hRead)
      (ih (by omega))
    simpa using this

theorem inBlock_reads {g : Grammar} {w : Spelling} {ws : List Spelling} {good : Stmt → Prop}
    (hStart : w.type.startsStatement = true) (h : Reads (g.statement c) (w :: ws) rest good) :
    Reads (g.inBlock c) (w :: ws) rest good := by
  refine Reads.still (sees_reads .endOfInput) fun b hb => ?_
  subst hb
  have hEnd : w.type ≠ .endOfInput := by
    intro hEnd
    rw [hEnd] at hStart
    cases hStart
  rw [decide_eq_false hEnd]
  exact h

/-- The tokens of a block. -/
def braced (items : List (List Spelling)) : List Spelling :=
  .mark .leftBrace :: items.flatten ++ [.mark .rightBrace]

theorem block (h : List.Forall₂ (ReadsStmt c) items list) {n : Nat}
    (hn : items.flatten.length < n) :
    Reads ((Grammar.nested n).block c) (braced items) rest
      fun p => Stmt.bares p.2 = Stmt.bares list := by
  have hGo (w : Spelling) (more : List Spelling) (hStart : w.type.startsStatement = true) :
      Reads (sees (.punctuator .rightBrace)) [] (w :: more) (· = false) := by
    refine (sees_reads _).mono ?_
    rintro b rfl
    refine decide_eq_false fun hEnd => ?_
    rw [hEnd] at hStart
    cases hStart
  have hRow : Repeats (sees (.punctuator .rightBrace)) ((Grammar.nested n).inBlock c)
      (Alike Stmt.bare) items.flatten (.mark .rightBrace :: rest) list :=
    repeats h hn (.cons (by decide) (by decide)) (sees_reads _) hGo fun _ _ _ _ => inBlock_reads
  refine Reads.still position_reads fun _ _ => Reads.token (expect_reads rfl) fun _ _ => ?_
  refine Reads.bind hRow.many fun body hBody => ?_
  refine Reads.token advance_reads fun _ _ => Reads.still (spanFrom_reads _) fun _ _ => ?_
  refine Reads.pure ?_
  rw [Stmt.bares_eq_map, Stmt.bares_eq_map, Alike.map_eq hBody]

end ReadsStmt

/-- A function with these parameters and this body, and nothing else. -/
def Function.plain (id : Option Ident) (params : List Ident) (span : Span) (body : List Stmt) :
    Function :=
  .mk id (params.map fun p => .holds (.ident p)) [] none (.braces span body) false

/-- The tokens of a list of parameters up to its end. -/
def paramRow (params : List Ident) : List Spelling :=
  .mark .leftParen :: commaRow (params.map fun p => [.name p.name]) ++ [.mark .rightParen]

theorem slotName_reads (id : Ident) {rest : List Spelling} :
    Reads (do inSlot (.ident (← name))) [.name id.name] rest (·.bare = (Expr.ident id).bare) := by
  refine Reads.last name_reads fun a ha => (inSlot_reads _).mono ?_
  rintro b rfl
  rw [Expr.bare, Expr.bare, Ident.bare, Ident.bare, ha]

theorem slotNames_read (params : List Ident) :
    ItemsRead (do inSlot (.ident (← name))) (Alike Expr.bare) (fun _ => True)
      (params.map fun p => [.name p.name]) (params.map .ident) := by
  induction params with
  | nil => exact .nil
  | cons p params ih => exact .cons ⟨by simp, fun rest _ => slotName_reads p⟩ ih

/-- Slots that hold expressions which differ in places only. -/
theorem Alike.slots {as es : List Expr} (h : List.Forall₂ (Alike Expr.bare) as es) :
    Slot.bares (as.map .holds) = Slot.bares (es.map .holds) := by
  have hMap (list : List Expr) :
      Slot.bares (list.map .holds) = (list.map Expr.bare).map .holds := by
    rw [Slot.bares_eq_map, List.map_map, List.map_map]
    exact List.map_congr_left fun e _ => by rw [Function.comp, Slot.bare, Function.comp]
  rw [hMap, hMap, Alike.map_eq h]

theorem functionRest_reads {items : List (List Spelling)} {list : List Stmt}
    (h : List.Forall₂ (ReadsStmt Context.function) items list) {n : Nat}
    (hn : items.flatten.length < n) {id id' : Option Ident}
    (hName : id.map Ident.bare = id'.map Ident.bare) (params : List Ident) (span : Span)
    {rest : List Spelling} :
    Reads ((Grammar.nested n).functionRest id) (paramRow params ++ ReadsStmt.braced items) rest
      (·.bare = (Function.plain id' params span list).bare) := by
  have hParams : Reads (commaSeparated (.punctuator .rightParen) do inSlot (.ident (← name)))
      (commaRow (params.map fun p => [.name p.name]) ++ [.mark .rightParen])
      (ReadsStmt.braced items ++ rest) fun es => List.Forall₂ (Alike Expr.bare) es
        (params.map .ident) :=
    Rows.commaSeparated_reads (fun _ => trivial) trivial (slotNames_read params)
      (by simp [Spelling.name]) (by decide) rfl
  refine Reads.token (expect_reads rfl) fun _ _ => Reads.bind hParams fun es hes => ?_
  refine Reads.last (ReadsStmt.block h hn) fun p hp => Reads.pure ?_
  have hSlots := Alike.slots hes
  rw [List.map_map] at hSlots
  rw [Function.plain, Function.bare, Function.bare, Block.bare, Block.bare, hp, hName, hSlots]
  rfl

end ScriptOptimizer
