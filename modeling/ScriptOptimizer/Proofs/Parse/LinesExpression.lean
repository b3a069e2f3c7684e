import ScriptOptimizer.Proofs.Parse.Lines

/-!
The rules for expressions keep to the rules about lines, if those nested in them do. An operator is
read behind its operand only on the line where that ends.
-/

namespace ScriptOptimizer

namespace Parse

variable {text : Bytes} {tokens : List Token}

/-! ### The children of a node -/

theorem lined_slot {e : Expr} (h : (Node.expr e).AllLined text tokens) :
    ∀ c ∈ Child.slot (.holds e), c.node.AllLined text tokens :=
  List.forall_mem_singleton.mpr h

theorem lined_slots {list : List Expr} (h : ∀ e ∈ list, (Node.expr e).AllLined text tokens) :
    ∀ c ∈ Child.slots (list.map .holds), c.node.AllLined text tokens := by
  intro c hc
  obtain ⟨slot, hSlot, hc⟩ := List.mem_flatMap.mp hc
  obtain ⟨e, he, rfl⟩ := List.mem_map.mp hSlot
  exact lined_slot (h e he) c hc

theorem lined_ident (id : Option Ident) :
    ∀ c ∈ Child.ident id, c.node.AllLined text tokens := by
  cases id with
  | none => exact List.forall_mem_nil _
  | some id => exact List.forall_mem_singleton.mpr (.ofExpr trivial (List.forall_mem_nil _))

theorem lined_stmts {list : List Stmt} (h : ∀ s ∈ list, Stands text tokens s) :
    ∀ c ∈ Child.stmts list, c.node.AllLined text tokens := by
  intro c hc
  obtain ⟨s, hs, hc⟩ := List.mem_flatMap.mp hc
  exact (h s hs).lined c hc

/-- A block of statements that were read. -/
theorem lined_block {span : Span} {body : List Stmt} (h : ∀ s ∈ body, Stands text tokens s) :
    (Node.stmt (.block span body)).AllLined text tokens :=
  .of ⟨fun s hs => (h s hs).ends, trivial⟩ (lined_stmts h)

/-- The key of an entry. -/
theorem propertyKey_expresses (text : Bytes) : Expresses tokens text Grammar.propertyKey := by
  intro s h
  refine .current ?_
  cases hType : s.current.type with
  | string => exact h.literal (by simp [hType])
  | number => exact h.literal (by simp [hType])
  | identifier => exact slotName_expresses text s h
  | keyword word =>
    refine (h.ready.advance (by simp [hType])).bind fun _ t ht => ?_
    have hHolds : Holds text tokens s (.ident ⟨s.current.span, s.current.literal⟩) t :=
      ht.2.holds h rfl trivial rfl
    exact (hHolds.counted _).slot
  | _ => exact .unexpected

namespace Lines

variable {g : Grammar} (hg : Lines text tokens g)

include hg

theorem expression (noIn : Bool) : Expresses tokens text (g.expression noIn) := by
  intro s h
  refine (hg.assignment noIn s h).bind fun e t ht => .sees fun b _ => ?_
  cases b with
  | false => exact .pure ht
  | true =>
    refine ht.passed.next (whileCommas_stays (hg.assignment noIn).passes.stays)
      fun es u hu hes => ?_
    refine .spanFrom (Holds.slot ?_)
    exact hu.holds ht.opens rfl trivial (lined_slots (List.forall_mem_cons.mpr ⟨ht.lined, hes⟩))

/-- A statement in braces. -/
theorem inBlock (c : Context) : Passes tokens (Stands text tokens) (g.inBlock c) := by
  refine fun s h => .sees fun b _ => ?_
  cases b with
  | true => exact .unexpected
  | false => exact hg.statement c s h

theorem block (c : Context) :
    Passes tokens (fun b => (Node.stmt (.block b.1 b.2)).AllLined text tokens) (g.block c) := by
  intro s h
  refine .position (h.first (expect_passes rfl) fun _ t ht _ => ?_)
  refine (many_until_good (hg.inBlock c).stays ht).bind fun body u hu => ?_
  obtain ⟨hu, hType, hBody⟩ := hu
  refine (hu.ready.advance (by simp [hType])).bind fun _ v hv => .spanFrom (.pure ?_)
  exact ⟨hv.2.passed hu.shows, lined_block hBody⟩

/-- The parameters and the body of a function, after its name. -/
theorem functionRest (id : Option Ident) :
    Passes tokens (fun fn => ∀ c ∈ Child.function fn, c.node.AllLined text tokens)
      (g.functionRest id) := by
  intro s h
  refine h.first (expect_passes rfl) fun _ t ht _ => ?_
  refine ht.next (commaSeparated_stays rfl (slotName_expresses text).passes.stays)
    fun params u hu hParams => ?_
  refine hu.next (hg.block _).stays fun b v hv hb => .pure ⟨hv, ?_⟩
  simp only [Child.function, List.forall_mem_append]
  exact ⟨⟨⟨⟨lined_ident id, lined_slots hParams⟩, List.forall_mem_nil _⟩, List.forall_mem_nil _⟩,
    List.forall_mem_singleton.mpr hb⟩

/-- A function used as a value, from its word. -/
theorem functionExpression {s : Stream} (h : Shows tokens s)
    (hType : s.current.type ≠ .endOfInput) :
    Yields g.functionExpression s fun e t => Holds text tokens s e t := by
  refine .position ((h.ready.advance hType).bind fun _ t hTook => ?_)
  have ht := hTook.2.passed h
  refine .sees fun b _ => .branch (Q := fun _ u => Passed tokens u) ?_ fun id u hu => ?_
  · cases b with
    | true => exact (name_passes t ht.shows).map fun _ _ h => h.1
    | false => exact .pure ht
  · refine (hg.functionRest id u hu.shows).bind fun fn v hv => .spanFrom (Holds.slot ?_)
    exact hv.1.holds (.here s) rfl trivial hv.2

/-- The elements of an array, holes included, each with the comma after it. -/
theorem arrayLiteral : Expresses tokens text g.arrayLiteral := by
  have hItem : Stays tokens (fun slot => ∀ c ∈ Child.slot slot, c.node.AllLined text tokens)
      (element (g.assignment false)) := by
    refine fun s h => h.next (accept_stays rfl) fun b t ht _ => ?_
    cases b with
    | true => exact .pure ⟨ht, List.forall_mem_nil _⟩
    | false =>
      refine ht.next (hg.assignment false).passes.stays fun e u hu he => .sees fun b _ => ?_
      cases b with
      | true => exact .pure ⟨hu, lined_slot he⟩
      | false =>
        exact hu.next (expect_passes rfl).stays fun _ v hv _ => .pure ⟨hv, lined_slot he⟩
  intro s h
  refine .position (h.first (expect_passes rfl) fun _ t ht _ => ?_)
  refine ht.next (many_stays (accept_stays rfl) hItem) fun elements u hu hElements => ?_
  refine .spanFrom (Holds.slot (hu.holds (.here s) rfl trivial fun c hc => ?_))
  obtain ⟨slot, hSlot, hc⟩ := List.mem_flatMap.mp hc
  exact hElements slot hSlot c hc

/-- An accessor, from its word. -/
theorem accessor {s : Stream} {start : Place} {word : Token} (h : Shows tokens s)
    (hType : s.current.type ≠ .endOfInput) :
    Yields (g.accessor start word) s fun p t =>
      Passed tokens t ∧ ∀ c ∈ Child.properties [p], c.node.AllLined text tokens := by
  refine (h.ready.advance hType).bind fun _ t hTook => ?_
  refine (hTook.2.passed h).next (propertyKey_expresses text).passes.stays fun key u hu hKey => ?_
  refine .position (hu.next (hg.functionRest none).stays fun fn v hv hfn => ?_)
  refine .check (.check (.spanFrom ?_))
  refine (hv.slot _).bind fun value w hw => .spanFrom (.pure ?_)
  obtain ⟨rfl, hw⟩ := hw
  refine ⟨hw, List.forall_mem_singleton.mpr (.of ⟨List.forall_mem_nil _, trivial⟩ ?_)⟩
  exact List.forall_mem_append.mpr ⟨lined_slot hKey, lined_slot (.ofExpr trivial hfn)⟩

theorem property : Passes tokens
    (fun p => ∀ c ∈ Child.properties [p], c.node.AllLined text tokens) g.property := by
  intro s h
  refine .position (.current ?_)
  show Yields (if _ then _ else _) s _
  split
  case isTrue hWord =>
    simp only [Bool.and_eq_true, Bool.or_eq_true, decide_eq_true_eq] at hWord
    exact hg.accessor h (by simp [hWord.1.1])
  case isFalse =>
    refine h.first (propertyKey_expresses text).passes fun key t ht hKey => ?_
    refine ht.next (expect_passes rfl).stays fun _ u hu _ => ?_
    refine hu.next (hg.assignment false).passes.stays fun value v hv hValue => .spanFrom (.pure ?_)
    refine ⟨hv, List.forall_mem_singleton.mpr (.of ⟨List.forall_mem_nil _, trivial⟩ ?_)⟩
    exact List.forall_mem_append.mpr ⟨lined_slot hKey, lined_slot hValue⟩

theorem objectLiteral : Expresses tokens text g.objectLiteral := by
  have hItem : Stays tokens (fun p => ∀ c ∈ Child.properties [p], c.node.AllLined text tokens)
      (withComma g.property (.punctuator .rightBrace) id) := by
    refine fun s h => h.next hg.property.stays fun p t ht hp => .sees fun b _ => ?_
    cases b with
    | true => exact .pure ⟨ht, hp⟩
    | false => exact ht.next (expect_passes rfl).stays fun _ u hu _ => .pure ⟨hu, hp⟩
  intro s h
  refine .position (h.first (expect_passes rfl) fun _ t ht _ => ?_)
  refine ht.next (many_stays (accept_stays rfl) hItem) fun entries u hu hEntries => ?_
  refine .spanFrom (Holds.slot (hu.holds (.here s) rfl trivial fun c hc => ?_))
  obtain ⟨p, hp, hc⟩ := List.mem_flatMap.mp hc
  exact hEntries p hp c (List.mem_flatMap.mpr ⟨p, List.mem_singleton_self p, hc⟩)

theorem primary : Expresses tokens text g.primary := by
  intro s h
  refine .current ?_
  cases hType : s.current.type with
  | identifier => exact slotName_expresses text s h
  | number => exact h.literal (by simp [hType])
  | string => exact h.literal (by simp [hType])
  | regex => exact h.literal (by simp [hType])
  | keyword word =>
    cases word with
    | kwThis =>
      refine (h.ready.advance (by simp [hType])).bind fun _ t hTook => ?_
      have hHolds : Holds text tokens s (.this s.current.span) t := hTook.2.holds h rfl trivial rfl
      exact hHolds.slot
    | kwNull => exact h.literal (by simp [hType])
    | kwTrue => exact h.literal (by simp [hType])
    | kwFalse => exact h.literal (by simp [hType])
    | kwFunction => exact hg.functionExpression h (by simp [hType])
    | _ => exact .unexpected
  | punctuator mark =>
    cases mark with
    | leftParen =>
      refine (h.ready.advance (by simp [hType])).bind fun _ t hTook => ?_
      refine (hg.expression false t (hTook.2.passed h).shows).bind fun e u hu => ?_
      refine (hu.passed.ready.expect rfl).bind fun _ v hv => .pure ?_
      obtain ⟨-, hClose, hTook'⟩ := hv
      exact ⟨hTook'.passed hu.passed.shows, hu.opens.paren hTook.2 hType,
        hu.closes.paren hTook' hClose, hu.lined⟩
    | leftBracket => exact hg.arrayLiteral s h
    | leftBrace => exact hg.objectLiteral s h
    | _ => exact .unexpected
  | _ => exact .unexpected

theorem arguments : Passes tokens
    (fun list => ∀ c ∈ Child.slots list, c.node.AllLined text tokens) g.arguments := by
  intro s h
  refine h.first (expect_passes rfl) fun _ t ht _ => ?_
  refine ht.next (commaSeparated_stays rfl (hg.assignment false).passes.stays)
    fun list u hu hList => ?_
  exact .pure ⟨hu, lined_slots hList⟩

/-- One more member access or call takes the place of the expression before it. -/
theorem memberStep (calls : Bool) {e : Expr} {s t : Stream} (h : Holds text tokens s e t) :
    Yields (g.memberStep calls e) t fun r u => Holds text tokens s (r.getD e) u := by
  refine .current ?_
  cases hType : t.current.type with
  | punctuator mark =>
    cases mark with
    | dot =>
      refine (h.passed.ready.advance (by simp [hType])).bind fun _ u hTook => ?_
      refine (hTook.2.passed h.passed.shows).next name_passes.stays fun id v hv _ => .spanFrom ?_
      have hName : (Node.expr (.ident id)).AllLined text tokens :=
        .ofExpr trivial (List.forall_mem_nil _)
      have hHolds : Holds text tokens s
          (.member ⟨e.span.start, v.stop⟩ (.holds e) (.holds (.ident id)) false) v :=
        hv.holds h.opens rfl trivial
          (List.forall_mem_append.mpr ⟨lined_slot h.lined, lined_slot hName⟩)
      exact ((hHolds.counted _).counted _).slot
    | leftBracket =>
      refine (h.passed.ready.advance (by simp [hType])).bind fun _ u hTook => ?_
      refine (hTook.2.passed h.passed.shows).next (hg.expression false).passes.stays
        fun p v hv hp => ?_
      refine hv.next (expect_passes rfl).stays fun _ w hw _ => .spanFrom ?_
      have hHolds : Holds text tokens s
          (.member ⟨e.span.start, w.stop⟩ (.holds e) (.holds p) true) w :=
        hw.holds h.opens rfl trivial
          (List.forall_mem_append.mpr ⟨lined_slot h.lined, lined_slot hp⟩)
      exact (hHolds.counted _).slot
    | leftParen =>
      cases calls with
      | false => exact .pure h
      | true =>
        refine h.passed.next hg.arguments.stays fun list u hu hList => .spanFrom ?_
        have hHolds : Holds text tokens s (.call ⟨e.span.start, u.stop⟩ (.holds e) list) u :=
          hu.holds h.opens rfl trivial (List.forall_mem_append.mpr ⟨lined_slot h.lined, hList⟩)
        exact (hHolds.counted _).slot
    | _ => exact .pure h
  | _ => exact .pure h

theorem memberTail (calls : Bool) {e : Expr} {s t : Stream} (h : Holds text tokens s e t) :
    Yields (g.memberTail calls e) t fun e u => Holds text tokens s e u :=
  extend_yields (fun _ _ h => hg.memberStep calls h) h

theorem constructRule : Expresses tokens text g.constructRule := by
  intro s h
  refine .position (h.first (expect_passes rfl) fun _ t ht _ => ?_)
  refine .sees fun nested _ => .branch (Q := fun e u => Holds text tokens t e u) ?_ ?_
  · cases nested with
    | true => exact hg.construct t ht.shows
    | false => exact hg.primary t ht.shows
  intro head u hu
  refine (hg.memberTail false hu).bind fun callee v hv => .sees fun called _ => ?_
  refine .branch (Q := fun list w =>
    Passed tokens w ∧ ∀ c ∈ Child.slots list, c.node.AllLined text tokens) ?_ fun list w hw =>
      .spanFrom (Holds.slot ?_)
  · cases called with
    | true => exact hg.arguments v hv.passed.shows
    | false => exact .pure ⟨hv.passed, List.forall_mem_nil _⟩
  · exact hw.1.holds (.here s) rfl trivial (List.forall_mem_append.mpr ⟨lined_slot hv.lined, hw.2⟩)

theorem leftHandSide : Expresses tokens text g.leftHandSide := by
  intro s h
  refine .sees fun nested _ => .branch (Q := fun e u => Holds text tokens s e u) ?_
    fun head t ht => hg.memberTail true ht
  cases nested with
  | true => exact hg.constructRule s h
  | false => exact hg.primary s h

/-- The operator behind an operand does not come first in its line. -/
theorem afterOperand : Expresses tokens text g.afterOperand := by
  intro s h
  refine .current ((hg.leftHandSide s h).bind fun e t ht => .current ?_)
  split
  case isFalse => exact .pure ht
  case isTrue hGoes =>
    simp only [Bool.and_eq_true, Bool.or_eq_true, decide_eq_true_eq, Bool.not_eq_true'] at hGoes
    obtain ⟨hMark, hLine⟩ := hGoes
    have hType : t.current.type ≠ .endOfInput := by
      rcases hMark with hMark | hMark <;> simp [hMark]
    refine .check ((ht.passed.ready.advance hType).bind fun _ u hTook => .spanFrom (Holds.slot ?_))
    refine (hTook.2.passed ht.passed.shows).holds ht.opens rfl ?_ (lined_slot ht.lined)
    obtain ⟨last, closing, hTokens, hClosing, hStop⟩ := ht.closes
    refine ⟨last, closing, t.current, ?_, rfl, hTook.2.stop_eq, hClosing, hStop, ?_⟩
    · exact infix_of_suffix _ (by simpa using hTokens)
    · intro before hBefore
      obtain ⟨front, hFront⟩ := List.getLast?_eq_some_iff.mp hBefore
      have hPair : [before, t.current] <:+: tokens := by
        rw [hFront, List.append_assoc] at hTokens
        exact infix_of_suffix [before, t.current]
          ((List.suffix_append front _).trans hTokens)
      rw [← hg.noted _ _ hPair, hLine]
      simp

theorem unaryRule : Expresses tokens text g.unaryRule := by
  intro s h
  refine .current ?_
  have hUnary (hType : s.current.type ≠ .endOfInput) :
      Yields (do
        let _ ← advance
        let e ← g.unary
        inSlot (.unary (← spanFrom s.current.startPlace) s.current.literal (.holds e))) s
        fun e t => Holds text tokens s e t := by
    refine (h.ready.advance hType).bind fun _ t hTook => ?_
    refine (hTook.2.passed h).next hg.unary.passes.stays fun e u hu he => .spanFrom ?_
    have hHolds : Holds text tokens s
        (.unary ⟨s.current.startPlace, u.stop⟩ s.current.literal (.holds e)) u :=
      hu.holds (.here s) rfl trivial (lined_slot he)
    exact hHolds.slot
  have hUpdate (hType : s.current.type ≠ .endOfInput) :
      Yields (do
        let _ ← advance
        let first ← current
        let e ← g.unary
        if !e.isAssignable then failAt first "invalid left-hand side in prefix operation"
        inSlot (.update (← spanFrom s.current.startPlace) s.current.literal true (.holds e))) s
        fun e t => Holds text tokens s e t := by
    refine (h.ready.advance hType).bind fun _ t hTook => .current ?_
    refine (hTook.2.passed h).next hg.unary.passes.stays fun e u hu he => .check (.spanFrom ?_)
    have hHolds : Holds text tokens s
        (.update ⟨s.current.startPlace, u.stop⟩ s.current.literal true (.holds e)) u :=
      hu.holds (.here s) rfl trivial (lined_slot he)
    exact hHolds.slot
  cases hType : s.current.type with
  | keyword word =>
    cases word with
    | kwTypeof | kwVoid | kwDelete => exact hUnary (by simp [hType])
    | _ => exact hg.afterOperand s h
  | punctuator mark =>
    cases mark with
    | bang | tilde | plus | minus => exact hUnary (by simp [hType])
    | increment | decrement => exact hUpdate (by simp [hType])
    | _ => exact hg.afterOperand s h
  | _ => exact hg.afterOperand s h

/-- One more binary operator takes the place of its left operand. -/
theorem binaryStep (least : Nat) (noIn : Bool) {left : Expr} {s t : Stream}
    (h : Holds text tokens s left t) :
    Yields (g.binaryStep least noIn left) t fun r u => Holds text tokens s (r.getD left) u := by
  refine .current ?_
  show Yields (if _ then _ else _) t _
  split
  case isTrue => exact .pure h
  case isFalse hGoes =>
    have hMark : t.current.type.isMark = true := by
      refine TokenType.isMark_of_precedence fun hZero => ?_
      simp [Grammar.precedenceOf, hZero] at hGoes
    refine (h.passed.ready.advance (ne_endOfInput hMark)).bind fun _ u hTook => ?_
    refine (hg.binary _ noIn u (hTook.2.passed h.passed.shows).shows).bind fun right v hv => ?_
    have hChildren := List.forall_mem_append.mpr ⟨lined_slot h.lined, lined_slot hv.lined⟩
    have hLogical : Holds text tokens s (.logical (left.span.join right.span) t.current.literal
        (.holds left) (.holds right)) v :=
      ⟨hv.passed, h.opens, hv.closes, .ofExpr trivial hChildren⟩
    have hBinary : Holds text tokens s (.binary (left.span.join right.span) t.current.literal
        (.holds left) (.holds right)) v :=
      ⟨hv.passed, h.opens, hv.closes, .ofExpr trivial hChildren⟩
    split
    · exact hLogical.slot
    · exact hLogical.slot
    · exact (hBinary.counted _).slot

theorem binaryRule (least : Nat) (noIn : Bool) : Expresses tokens text (g.binaryRule least noIn) :=
  fun s h => (hg.unaryRule s h).bind fun _ _ ht =>
    extend_yields (fun _ _ h => hg.binaryStep least noIn h) ht

theorem conditional (noIn : Bool) : Expresses tokens text (g.conditional noIn) := by
  intro s h
  refine (hg.binaryRule 1 noIn s h).bind fun test t ht => ?_
  refine (ht.passed.shows.accept rfl).bind fun b u hu => ?_
  rcases hu with ⟨rfl, -, hTook⟩ | ⟨rfl, rfl⟩
  · refine (hTook.passed ht.passed.shows).next (hg.assignment false).passes.stays
      fun consequent v hv hConsequent => ?_
    refine hv.next (expect_passes rfl).stays fun _ w hw _ => ?_
    refine (hg.assignment noIn w hw.shows).bind fun alternate x hx => Holds.slot ?_
    refine ⟨hx.passed, ht.opens, hx.closes, .ofExpr trivial ?_⟩
    simp only [Child.ofExpr, List.forall_mem_append]
    exact ⟨⟨lined_slot ht.lined, lined_slot hConsequent⟩, lined_slot hx.lined⟩
  · exact .pure ht

theorem assignmentRule (noIn : Bool) : Expresses tokens text (g.assignmentRule noIn) := by
  intro s h
  refine .current ((hg.conditional noIn s h).bind fun left t ht => .current ?_)
  split
  case isFalse => exact .pure ht
  case isTrue hType =>
    have hMark := TokenType.isMark_of_isAssignment hType
    refine .check ((ht.passed.ready.advance (ne_endOfInput hMark)).bind fun _ u hTook => ?_)
    refine (hg.assignment noIn u (hTook.2.passed ht.passed.shows).shows).bind fun right v hv => ?_
    refine Holds.slot ⟨hv.passed, ht.opens, hv.closes, .ofExpr trivial ?_⟩
    exact List.forall_mem_append.mpr ⟨lined_slot ht.lined, lined_slot hv.lined⟩

end Lines

end Parse

end ScriptOptimizer
