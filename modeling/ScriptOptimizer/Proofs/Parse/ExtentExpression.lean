import ScriptOptimizer.Proofs.Parse.Extent

/-!
The rules for expressions read the nodes of their trees. A rule may take for granted that the rules
nested in it do.
-/

namespace ScriptOptimizer

namespace Parse

/-- The rules nested in others read the nodes of their trees. -/
structure Extents (g : Grammar) : Prop where
  assignment (noIn : Bool) : Starter Part.expr (g.assignment noIn)
  binary (least : Nat) (noIn : Bool) : Starter Part.expr (g.binary least noIn)
  unary : Starter Part.expr g.unary
  construct : Starter Part.expr g.construct
  statement (c : Context) : Starter Part.stmt (g.statement c)

theorem Extents.empty : Extents Grammar.empty where
  assignment _ _ _ := .unexpected
  binary _ _ _ _ := .unexpected
  unary _ _ := .unexpected
  construct _ _ := .unexpected
  statement _ _ _ := .unexpected

/-- A name in a slot. -/
theorem slotName_starter (isKey : Bool) :
    Starter (fun e => [⟨.expr e, isKey⟩]) (do inSlot (.ident (← name))) :=
  fun _ h => h.first (name_starter isKey) fun _ _ ht => ht.slot

/-- The key of an entry. -/
theorem propertyKey_starter : Starter (fun e => [⟨.expr e, true⟩]) Grammar.propertyKey := by
  intro s h
  refine .current ?_
  cases htype : s.current.type with
  | string => exact h.literal (by rw [htype]; rfl) true
  | number => exact h.literal (by rw [htype]; rfl) true
  | identifier => exact slotName_starter true s h
  | keyword word =>
    refine (h.advance (by simp [htype])).bind fun _ t hTook => ?_
    have hleaf : Started s t [⟨.expr (.ident ⟨s.current.span, s.current.literal⟩), true⟩] :=
      hTook.2.leaf (.key htype (h.le _ List.mem_cons_self) .nil) rfl
    exact (hleaf.counted _).counted _
  | _ => exact .unexpected

/-- The values after the first, each after a comma. -/
theorem whileCommas_reader {α : Type} {roots : α → List Part} {item : Parse α}
    (hitem : Reader roots item) :
    Reader (·.flatMap roots)
      (many (return !(← accept (.punctuator .comma))) item) :=
  many_reader (fun s h => (accept_reader rfl s h).bind fun _ _ ht => .pure ht) hitem

namespace Extents

variable {g : Grammar} (hg : Extents g)

include hg

theorem expression (noIn : Bool) : Starter Part.expr (g.expression noIn) := by
  intro s h
  refine h.first (hg.assignment noIn) fun e t ht => .sees fun b _ => ?_
  cases b with
  | false => exact .pure ht
  | true =>
    refine ht.next (whileCommas_reader (hg.assignment noIn).reader) fun es u hu => .spanFrom ?_
    have hparts : (Node.expr (.sequence ⟨e.span.start, u.stop⟩ ((e :: es).map .holds))).parts =
        ⟨.expr e, false⟩ :: es.flatMap Part.expr := Part.ofChildren_holds (e :: es)
    exact (hu.close_to hparts rfl rfl rfl).slot

/-- A statement in braces. -/
theorem inBlock (c : Context) : Starter Part.stmt (g.inBlock c) := by
  refine fun s h => .sees fun b _ => ?_
  cases b with
  | true => exact .unexpected
  | false => exact hg.statement c s h

/-- A block, whose closing brace is a mark. -/
theorem block (c : Context) :
    Starter (fun b => [⟨.stmt (.block b.1 b.2), false⟩]) (g.block c) := by
  intro s h
  refine .position (h.first (expect_starter rfl) fun _ t ht => ?_)
  refine (many_until (hg.inBlock c).reader ht.ready).bind fun body u hu => ?_
  have hmark : u.current.type.isMark = true := by rw [hu.2]; rfl
  refine (hu.1.ready.advance (ne_endOfInput hmark)).bind fun _ v hTook => .spanFrom (.pure ?_)
  have hread := (ht.trans hu.1).trans (hTook.2.mark hmark).toReads
  rw [List.nil_append, List.append_nil] at hread
  exact hread.close_from (Part.ofChildren_stmts body) rfl rfl rfl

/-- The parameters and the body of a function, after its name. -/
theorem functionRest (id : Option Ident) {s : Stream} (h : Ready s) :
    Yields (g.functionRest id) s fun fn t => ∃ xs, Started s t xs ∧
      Part.ofChildren (Child.function fn) = Part.ofChildren (Child.ident id) ++ xs := by
  refine h.first (expect_starter rfl) fun _ t ht => ?_
  refine ht.next (commaSeparated_reader rfl (slotName_starter false).reader) fun params u hu => ?_
  refine hu.next (hg.block _).reader fun b v hv => .pure ⟨_, hv, ?_⟩
  simp only [Child.function, Part.ofChildren_append, Part.ofChildren_holds, List.append_assoc,
    List.nil_append]
  rfl

/-- A function used as a value starts with its word, which is a mark. -/
theorem functionExpression {s : Stream} (h : Ready s) (htype : s.current.type.isMark = true) :
    Yields g.functionExpression s fun e t => Started s t (Part.expr e) := by
  refine .position ((h.advance (ne_endOfInput htype)).bind fun _ t hTook => ?_)
  have ht := hTook.2.mark htype
  refine .sees fun b _ => .branch (Q := fun id u => Started s u (Part.ofChildren (Child.ident id)))
    ?_ fun id u hu => ?_
  · cases b with
    | true => exact (name_starter false t ht.ready).map fun _ _ h => ht.trans h.toReads
    | false => exact .pure ht
  · refine (hg.functionRest id hu.ready).bind fun fn v hv => .spanFrom ?_
    obtain ⟨xs, hxs, hparts⟩ := hv
    have hclosed : Started s v (Part.expr (.function ⟨s.current.startPlace, v.stop⟩ fn)) :=
      (hu.trans hxs.toReads).close_from hparts rfl rfl rfl
    exact hclosed.slot

/-- The elements of an array, holes included, each with the comma after it. -/
theorem arrayLiteral : Starter Part.expr g.arrayLiteral := by
  have hitem : Reader (fun e => Part.ofChildren (Child.slot e))
      (element (g.assignment false)) := by
    refine fun s h => (accept_reader rfl s h).bind fun b t ht => ?_
    cases b with
    | true => exact .pure ht
    | false =>
      refine (hg.assignment false t ht.ready).bind fun e u hu => .sees fun b _ => ?_
      have hread := ht.trans hu.toReads
      cases b with
      | true => exact .pure hread
      | false =>
        refine (expect_starter rfl u hu.ready).bind fun _ v hv => .pure ?_
        exact hread.trans hv.toReads
  intro s h
  refine .position (h.first (expect_starter rfl) fun _ t ht => ?_)
  refine ht.next (many_reader (accept_reader rfl) hitem) fun elements u hu => .spanFrom ?_
  have hclosed : Started s u (Part.expr (.array ⟨s.current.startPlace, u.stop⟩ elements)) :=
    hu.close_from (Part.ofChildren_slots elements) rfl rfl rfl
  exact hclosed.slot

/-- An accessor, from its word. -/
theorem accessor {s : Stream} (h : Ready s) (htype : s.current.type = .identifier)
    (hword : s.current.value = Bytes.ofString "get" ∨ s.current.value = Bytes.ofString "set") :
    Yields (g.accessor s.current.startPlace s.current) s fun p t =>
      Started s t (Part.ofChildren (Child.properties [p])) := by
  refine (h.advance (by simp [htype])).bind fun _ t hTook => ?_
  refine hTook.2.ready.first propertyKey_starter fun key u hu => .position ?_
  refine (hg.functionRest none hu.ready).bind fun fn v hv => .check (.check (.spanFrom ?_))
  obtain ⟨xs, hxs, hparts⟩ := hv
  have hfn : Started u v (Part.expr (.function ⟨u.current.startPlace, v.stop⟩ fn)) :=
    hxs.close_from hparts rfl rfl rfl
  refine hfn.slot.bind fun value w hw => .spanFrom (.pure ?_)
  have haccessor : (Node.property (.entry ⟨s.current.startPlace, w.stop⟩ s.current.value
      (.holds key) (.holds value) false false)).isAccessor = true := by
    simpa [Node.isAccessor] using hword
  exact hTook.2.accessor (hu.trans hw.toReads) haccessor htype rfl

theorem property : Starter (fun p => Part.ofChildren (Child.properties [p])) g.property := by
  intro s h
  refine .position (.current ?_)
  show Yields (if _ then _ else _) s _
  split
  case isTrue hword =>
    simp only [Bool.and_eq_true, Bool.or_eq_true, decide_eq_true_eq] at hword
    exact hg.accessor h hword.1.1 hword.1.2
  case isFalse =>
    refine h.first propertyKey_starter fun key t ht => ?_
    refine ht.next (expect_starter rfl).reader fun _ u hu => ?_
    refine hu.next (hg.assignment false).reader fun value v hv => .spanFrom (.pure ?_)
    exact hv.close_from rfl rfl rfl rfl

theorem objectLiteral : Starter Part.expr g.objectLiteral := by
  have hitem : Reader (fun p => Part.ofChildren (Child.properties [p]))
      (withComma g.property (.punctuator .rightBrace) id) := by
    refine fun s h => h.first hg.property fun p t ht => .sees fun b _ => ?_
    cases b with
    | true => exact .pure ht.toReads
    | false =>
      refine (expect_starter rfl t ht.ready).bind fun _ u hu => .pure ?_
      have hread := ht.toReads.trans hu.toReads
      rwa [List.append_nil] at hread
  intro s h
  refine .position (h.first (expect_starter rfl) fun _ t ht => ?_)
  refine ht.next (many_reader (accept_reader rfl) hitem) fun entries u hu => .spanFrom ?_
  have hclosed : Started s u (Part.expr (.object ⟨s.current.startPlace, u.stop⟩ entries)) :=
    hu.close_from (Part.ofChildren_properties entries) rfl rfl rfl
  exact hclosed.slot

theorem primary : Starter Part.expr g.primary := by
  intro s h
  refine .current ?_
  cases htype : s.current.type with
  | identifier => exact slotName_starter false s h
  | number => exact h.literal (by rw [htype]; rfl) false
  | string => exact h.literal (by rw [htype]; rfl) false
  | regex => exact h.literal (by rw [htype]; rfl) false
  | keyword k =>
    cases k with
    | kwThis =>
      have hmark : s.current.type.isMark = true := by rw [htype]; rfl
      refine (h.advance (ne_endOfInput hmark)).bind fun _ t hTook => ?_
      have hspan : s.current.span = ⟨s.current.startPlace, t.stop⟩ := by
        rw [hTook.2.stop_eq]
        rfl
      have hclosed : Started s t (Part.expr (.this s.current.span)) :=
        (hTook.2.mark hmark).close_from rfl rfl rfl hspan
      exact hclosed.slot
    | kwNull => exact h.literal (by rw [htype]; rfl) false
    | kwTrue => exact h.literal (by rw [htype]; rfl) false
    | kwFalse => exact h.literal (by rw [htype]; rfl) false
    | kwFunction => exact hg.functionExpression h (by rw [htype]; rfl)
    | _ => exact .unexpected
  | punctuator p =>
    cases p with
    | leftParen =>
      have hmark : s.current.type.isMark = true := by rw [htype]; rfl
      refine (h.advance (ne_endOfInput hmark)).bind fun _ t hTook => ?_
      refine (hTook.2.mark hmark).next (hg.expression false).reader fun e u hu => ?_
      refine hu.next (expect_starter rfl).reader fun _ v hv => .pure ?_
      exact hv
    | leftBracket => exact hg.arrayLiteral s h
    | leftBrace => exact hg.objectLiteral s h
    | _ => exact .unexpected
  | _ => exact .unexpected

theorem arguments : Starter (fun list => Part.ofChildren (Child.slots list)) g.arguments := by
  intro s h
  refine h.first (expect_starter rfl) fun _ t ht => ?_
  refine ht.next (commaSeparated_reader rfl (hg.assignment false).reader) fun list u hu => ?_
  refine .pure ?_
  show Started s u (Part.ofChildren (Child.slots (list.map .holds)))
  rw [Part.ofChildren_holds]
  exact hu

/-- One more member access or call takes the place of the expression before it. -/
theorem memberStep (calls : Bool) {e : Expr} {s t : Stream} (h : Started s t (Part.expr e)) :
    Yields (g.memberStep calls e) t fun r u => Started s u (Part.expr (r.getD e)) := by
  refine .current ?_
  cases htype : t.current.type with
  | punctuator p =>
    have hmark : t.current.type.isMark = true := by rw [htype]; rfl
    cases p with
    | dot =>
      refine (h.ready.advance (ne_endOfInput hmark)).bind fun _ u hTook => ?_
      have hu := h.trans (hTook.2.mark hmark).toReads
      refine hu.next (name_starter false).reader fun id v hv => .spanFrom ?_
      have hclosed : Started s v
          (Part.expr (.member ⟨e.span.start, v.stop⟩ (.holds e) (.holds (.ident id)) false)) :=
        hv.close_to rfl rfl rfl rfl
      exact ((hclosed.counted _).counted _).slot
    | leftBracket =>
      refine (h.ready.advance (ne_endOfInput hmark)).bind fun _ u hTook => ?_
      have hu := h.trans (hTook.2.mark hmark).toReads
      refine hu.next (hg.expression false).reader fun p v hv => ?_
      refine hv.next (expect_starter rfl).reader fun _ w hw => .spanFrom ?_
      have hclosed : Started s w
          (Part.expr (.member ⟨e.span.start, w.stop⟩ (.holds e) (.holds p) true)) :=
        hw.close_to rfl rfl rfl rfl
      exact (hclosed.counted _).slot
    | leftParen =>
      cases calls with
      | false => exact .pure h
      | true =>
        refine h.next hg.arguments.reader fun list u hu => .spanFrom ?_
        have hclosed : Started s u (Part.expr (.call ⟨e.span.start, u.stop⟩ (.holds e) list)) :=
          hu.close_to rfl rfl rfl rfl
        exact (hclosed.counted _).slot
    | _ => exact .pure h
  | _ => exact .pure h

theorem memberTail (calls : Bool) {e : Expr} {s t : Stream} (h : Started s t (Part.expr e)) :
    Yields (g.memberTail calls e) t fun e u => Started s u (Part.expr e) :=
  Started.extend (fun _ _ h => hg.memberStep calls h) h

theorem constructRule : Starter Part.expr g.constructRule := by
  intro s h
  refine .position (h.first (expect_starter rfl) fun _ t ht => ?_)
  refine .sees fun nested _ => .branch (Q := fun e u => Started t u (Part.expr e)) ?_ ?_
  · cases nested with
    | true => exact hg.construct t ht.ready
    | false => exact hg.primary t ht.ready
  intro head u hu
  refine (hg.memberTail false hu).bind fun callee v hv => .sees fun called _ => ?_
  have hcallee : Started s v (Part.expr callee) := ht.trans hv.toReads
  refine .branch (Q := fun list w =>
    Started s w (Part.expr callee ++ Part.ofChildren (Child.slots list))) ?_ fun list w hw =>
      .spanFrom ?_
  · cases called with
    | true => exact (hg.arguments v hcallee.ready).mono fun _ _ hw => hcallee.trans hw.toReads
    | false => exact .pure hcallee
  · have hclosed : Started s w
        (Part.expr (.construct ⟨s.current.startPlace, w.stop⟩ (.holds callee) list)) :=
      hw.close_from rfl rfl rfl rfl
    exact hclosed.slot

theorem leftHandSide : Starter Part.expr g.leftHandSide := by
  intro s h
  refine .sees fun nested _ => .branch (Q := fun e u => Started s u (Part.expr e)) ?_
    fun head t ht => hg.memberTail true ht
  cases nested with
  | true => exact hg.constructRule s h
  | false => exact hg.primary s h

theorem afterOperand : Starter Part.expr g.afterOperand := by
  intro s h
  refine .current (h.first hg.leftHandSide fun e t ht => .current ?_)
  split
  case isFalse => exact .pure ht
  case isTrue htype =>
    have hmark : t.current.type.isMark = true := by
      simp only [Bool.and_eq_true, Bool.or_eq_true, decide_eq_true_eq] at htype
      rcases htype.1 with htype | htype <;> rw [htype] <;> rfl
    refine .check ((ht.ready.advance (ne_endOfInput hmark)).bind fun _ u hTook => .spanFrom ?_)
    have hu := ht.trans (hTook.2.mark hmark).toReads
    have hclosed : Started s u
        (Part.expr (.update ⟨e.span.start, u.stop⟩ t.current.literal false (.holds e))) :=
      hu.close_to rfl rfl rfl rfl
    exact hclosed.slot

theorem unaryRule : Starter Part.expr g.unaryRule := by
  intro s h
  refine .current ?_
  have hunary (hmark : s.current.type.isMark = true) :
      Yields (do
        let _ ← advance
        let e ← g.unary
        inSlot (.unary (← spanFrom s.current.startPlace) s.current.literal (.holds e))) s
        fun e t => Started s t (Part.expr e) := by
    refine (h.advance (ne_endOfInput hmark)).bind fun _ t hTook => ?_
    refine (hTook.2.mark hmark).next hg.unary.reader fun e u hu => .spanFrom ?_
    have hclosed : Started s u (Part.expr (.unary ⟨s.current.startPlace, u.stop⟩
        s.current.literal (.holds e))) := hu.close_from rfl rfl rfl rfl
    exact hclosed.slot
  have hupdate (hmark : s.current.type.isMark = true) :
      Yields (do
        let _ ← advance
        let first ← current
        let e ← g.unary
        if !e.isAssignable then failAt first "invalid left-hand side in prefix operation"
        inSlot (.update (← spanFrom s.current.startPlace) s.current.literal true (.holds e))) s
        fun e t => Started s t (Part.expr e) := by
    refine (h.advance (ne_endOfInput hmark)).bind fun _ t hTook => .current ?_
    refine (hTook.2.mark hmark).next hg.unary.reader fun e u hu => .check (.spanFrom ?_)
    have hclosed : Started s u (Part.expr (.update ⟨s.current.startPlace, u.stop⟩
        s.current.literal true (.holds e))) := hu.close_from rfl rfl rfl rfl
    exact hclosed.slot
  cases htype : s.current.type with
  | keyword k =>
    cases k with
    | kwTypeof => exact hunary (by rw [htype]; rfl)
    | kwVoid => exact hunary (by rw [htype]; rfl)
    | kwDelete => exact hunary (by rw [htype]; rfl)
    | _ => exact hg.afterOperand s h
  | punctuator p =>
    cases p with
    | bang => exact hunary (by rw [htype]; rfl)
    | tilde => exact hunary (by rw [htype]; rfl)
    | plus => exact hunary (by rw [htype]; rfl)
    | minus => exact hunary (by rw [htype]; rfl)
    | increment => exact hupdate (by rw [htype]; rfl)
    | decrement => exact hupdate (by rw [htype]; rfl)
    | _ => exact hg.afterOperand s h
  | _ => exact hg.afterOperand s h

/-- One more binary operator takes the place of its left operand. -/
theorem binaryStep (least : Nat) (noIn : Bool) {left : Expr} {s t : Stream}
    (h : Started s t (Part.expr left)) :
    Yields (g.binaryStep least noIn left) t fun r u => Started s u (Part.expr (r.getD left)) := by
  refine .current ?_
  show Yields (if _ then _ else _) t _
  split
  case isTrue => exact .pure h
  case isFalse hgo =>
    have hmark : t.current.type.isMark = true := by
      refine TokenType.isMark_of_precedence fun hzero => ?_
      simp [Grammar.precedenceOf, hzero] at hgo
    refine (h.ready.advance (ne_endOfInput hmark)).bind fun _ u hTook => ?_
    have hu := h.trans (hTook.2.mark hmark).toReads
    refine hu.next (hg.binary _ noIn).reader fun right v hv => ?_
    have hlogical : Started s v (Part.expr (.logical (left.span.join right.span)
        t.current.literal (.holds left) (.holds right))) := hv.close_join rfl rfl rfl rfl
    have hbinary : Started s v (Part.expr (.binary (left.span.join right.span)
        t.current.literal (.holds left) (.holds right))) := hv.close_join rfl rfl rfl rfl
    split
    · exact hlogical.slot
    · exact hlogical.slot
    · exact (hbinary.counted _).slot

theorem binaryRule (least : Nat) (noIn : Bool) : Starter Part.expr (g.binaryRule least noIn) :=
  fun _ h => h.first hg.unaryRule fun _ _ ht =>
    Started.extend (fun _ _ h => hg.binaryStep least noIn h) ht

theorem conditional (noIn : Bool) : Starter Part.expr (g.conditional noIn) := by
  intro s h
  refine h.first (hg.binaryRule 1 noIn) fun test t ht => ?_
  refine ht.next (accept_reader rfl) fun b u hu => ?_
  cases b with
  | false => exact .pure hu
  | true =>
    refine hu.next (hg.assignment false).reader fun consequent v hv => ?_
    refine hv.next (expect_starter rfl).reader fun _ w hw => ?_
    refine hw.next (hg.assignment noIn).reader fun alternate x hx => ?_
    have hclosed : Started s x (Part.expr (.conditional (test.span.join alternate.span)
        (.holds test) (.holds consequent) (.holds alternate))) :=
      hx.close_join rfl rfl rfl rfl
    exact hclosed.slot

theorem assignmentRule (noIn : Bool) : Starter Part.expr (g.assignmentRule noIn) := by
  intro s h
  refine .current (h.first (hg.conditional noIn) fun left t ht => .current ?_)
  split
  case isFalse => exact .pure ht
  case isTrue htype =>
    have hmark := TokenType.isMark_of_isAssignment htype
    refine .check ((ht.ready.advance (ne_endOfInput hmark)).bind fun _ u hTook => ?_)
    have hu := ht.trans (hTook.2.mark hmark).toReads
    refine hu.next (hg.assignment noIn).reader fun right v hv => ?_
    have hclosed : Started s v (Part.expr (.assign (left.span.join right.span)
        t.current.literal (.holds left) (.holds right))) := hv.close_join rfl rfl rfl rfl
    exact hclosed.slot

end Extents

end Parse

end ScriptOptimizer
