import ScriptOptimizer.Pattern.Check
import ScriptOptimizer.Proofs.Parse.Position
import ScriptOptimizer.Proofs.Parse.Spans
import ScriptOptimizer.Proofs.Syntax.Located
import ScriptOptimizer.Proofs.Token.OneLine
import ScriptOptimizer.Proofs.Walk.Sights

/-!
Where the nodes of a program are. A node starts where a token does and stops where one does. The
start of a token was counted by the lexer, and is where the text says; its stop is counted on from
there as if no line ended in between, and is where the text says just if none does.
-/

namespace ScriptOptimizer

/-- The place is in the text, and its line and column are those of its offset. -/
structure Place.Exact (text : Bytes) (p : Place) : Prop where
  offset_nonneg : 0 ≤ p.offset
  offset_le : p.offset ≤ text.length
  line_eq : p.line = text.lineAt p.offset.toNat
  column_eq : p.column = text.columnAt p.offset.toNat

namespace Token.Exact

variable {text : Bytes} {t : Token}

theorem startPlace (h : t.Exact text) : t.startPlace.Exact text where
  offset_nonneg := Int.natCast_nonneg _
  offset_le := Int.ofNat_le.2 (Nat.le_trans h.start_le h.stop_le)
  line_eq := congrArg Nat.cast h.line_eq
  column_eq := congrArg Nat.cast h.column_eq

/-- Where a token stops is right just if no line ends in it. -/
theorem stopPlace_iff (h : t.Exact text) : t.stopPlace.Exact text ↔ t.OneLine text := by
  refine ⟨fun hStop => ?_, fun hOne => ?_⟩
  · have hLine : text.lineAt t.stop = text.lineAt t.start := by
      have := hStop.line_eq
      rw [← h.line_eq]
      exact (Int.ofNat_inj.1 this).symm
    exact (Bytes.lineAt_eq_iff h.start_le).1 hLine
  · have hLine := (Bytes.lineAt_eq_iff h.start_le).2 hOne
    have hColumn := Bytes.columnAt_eq h.start_le hOne
    rw [← h.line_eq] at hLine
    rw [← h.column_eq] at hColumn
    exact
      { offset_nonneg := Int.natCast_nonneg _
        offset_le := Int.ofNat_le.2 h.stop_le
        line_eq := congrArg Nat.cast hLine.symm
        column_eq := congrArg Nat.cast hColumn.symm }

end Token.Exact

/-- The end of input takes no bytes. -/
theorem Lexer.stopPlace_endOfInput [PatternCheck] (source : Source) :
    ∀ t ∈ (ofSource source).significant.1, t.type = .endOfInput → t.stopPlace = t.startPlace := by
  intro t ht hType
  obtain ⟨step, hStep, rfl⟩ := List.mem_map.1 (List.mem_of_mem_filter ht)
  obtain ⟨offset, hAdvances⟩ := (cuts_ofSource source).exists_advances hStep
  have hStart := hAdvances.last hType
  have hLe := hAdvances.start_le
  have hStop := hAdvances.stop_le
  have hEmpty : step.1.stop = step.1.start := by omega
  simp [Token.stopPlace, Token.startPlace, hEmpty]

/-- Below a node that is no program there is none. -/
theorem Node.isProgram_of_mem_preorder (n : Node) (h : n.isProgram = false) :
    ∀ m ∈ n.preorder, m.isProgram = false := by
  induction n using childInduction with
  | step n ih =>
    intro m hm
    rw [preorder_eq] at hm
    rcases List.mem_cons.1 hm with rfl | hm
    · exact h
    · obtain ⟨c, hc, hm⟩ := List.mem_flatMap.1 hm
      exact ih c hc (isProgram_child hc) m hm

namespace Program

/-- Every node starts where a token does and stops where one does. -/
theorem node_places [PatternCheck] {source : Source} {p : Program} (h : parse source = .ok p) :
    ∀ n ∈ (Node.program p).preorder,
      (∃ t ∈ (Lexer.ofSource source).significant.1, n.span.start = t.startPlace) ∧
      ∃ t ∈ (Lexer.ofSource source).significant.1, n.span.stop = t.stopPlace := by
  obtain ⟨ps, last, hRow, hType, hTokens, hStart, hStop⟩ := exists_row_from h
  have hLast : last ∈ (Lexer.ofSource source).significant.1 := by simp [hTokens]
  have hPiece : ∀ q ∈ ps, q.token ∈ (Lexer.ofSource source).significant.1 := fun q hq => by
    rw [hTokens]
    exact List.mem_append_left _ (List.mem_map_of_mem hq)
  intro n hn
  have hBound := hRow.bounds n (by rwa [Part.nodes_singleton])
  rw [Node.preorder_eq] at hn
  rcases List.mem_cons.1 hn with rfl | hn
  · refine ⟨hStart, last, hLast, ?_⟩
    rw [Lexer.stopPlace_endOfInput source last hLast hType]
    exact hStop
  · obtain ⟨c, hc, hn⟩ := List.mem_flatMap.1 hn
    have hBelow := Node.isProgram_of_mem_preorder _ (Node.isProgram_child hc) n hn
    cases n with
    | program q => cases hBelow
    | _ =>
      obtain ⟨⟨q, hq, hFirst⟩, r, hr, hFinal⟩ := hBound
      exact ⟨⟨_, hPiece q hq, hFirst⟩, _, hPiece r hr, hFinal⟩

/-- Nodes are where they say, up to the lines in their last tokens. A node starts at the line and
column of its first byte, and stops where a token does. The line and column there are those of the
text just if no line ends in that token, as none does unless it is a string or a regular expression.
The document of the program gives both places for every node. -/
theorem spans_located [PatternCheck] {source : Source} {p : Program} (h : parse source = .ok p) :
    ∀ n ∈ (Node.program p).preorder,
      n.span.start.Exact source.content ∧
      (∃ t ∈ (Lexer.ofSource source).significant.1, n.span.stop = t.stopPlace ∧
        (n.span.stop.Exact source.content ↔ t.OneLine source.content) ∧
        (t.type ∉ [.string, .regex] → t.OneLine source.content)) ∧
      ∃ fields, (Document.object true n.type n.span fields).Within (p.document true) := by
  intro n hn
  obtain ⟨⟨first, hFirst, hStart⟩, last, hLast, hStop⟩ := node_places h n hn
  have hTokens := ((Lexer.Exact.ofText source.content (some source)).significant).1
  have hExact := (hTokens first hFirst).startPlace
  rw [← hStart] at hExact
  refine ⟨hExact, ⟨last, hLast, hStop, ?_, Lexer.significant_oneLine source last hLast⟩, ?_⟩
  · rw [hStop]
    exact (hTokens last hLast).stopPlace_iff
  · have hPresent : n.span ≠ Span.none := fun hNone => by
      have hLine := hExact.line_eq
      rw [hNone, Bytes.lineAt] at hLine
      simp only [Span.none] at hLine
      omega
    obtain ⟨fields, hObject⟩ : ∃ fields, n.document true = _ := Document.node_object hPresent
    exact ⟨fields, hObject ▸ Node.preorder_within _ n hn⟩

/-- Two lines, and strings on one line each. -/
theorem spans_located_lines :
    let source := Source.inline (Bytes.ofString "var a = 'b';\r\nc(a + \"d\")")
    ∃ p, parse source = .ok p ∧ ∀ n ∈ (Node.program p).preorder,
      n.span.start.Exact source.content ∧ n.span.stop.Exact source.content := by
  intro source
  have hSome : (parse source).toOption.isSome = true := by decide +kernel
  have hOneLine : ∀ t ∈ (Lexer.ofSource source).significant.1,
      source.content.lineAt t.stop = source.content.lineAt t.start := by decide +kernel
  cases h : parse source with
  | ok p =>
    refine ⟨p, rfl, fun n hn => ?_⟩
    obtain ⟨hStart, ⟨t, ht, -, hStop, -⟩, -⟩ := spans_located h n hn
    have hLe := (Lexer.significant_inside source t ht).1
    exact ⟨hStart, hStop.2 ((Bytes.lineAt_eq_iff hLe).1 (hOneLine t ht))⟩
  | error d =>
    rw [h] at hSome
    cases hSome

/-- Is it one literal whose statement stops there? -/
def isLiteralUpTo (stop : Place) : Except Diagnostic Program → Bool
  | .ok ⟨_, [.expression s (.holds (.literal _))]⟩ => decide (s.stop = stop)
  | _ => false

/-- A string with a line continuation in it: what stops with it does not stop on the line where it
starts. -/
theorem spans_located_continued :
    let source := Source.inline (Bytes.ofString "\"a\\\nb\"")
    ∃ p, parse source = .ok p ∧ ∃ n ∈ (Node.program p).preorder,
      n.span.stop = ⟨1, 7, 6⟩ ∧ ¬n.span.stop.Exact source.content := by
  intro source
  have hShape : isLiteralUpTo ⟨1, 7, 6⟩ (parse source) = true := by decide +kernel
  unfold isLiteralUpTo at hShape
  have hLine : source.content.lineAt 6 = 2 := by decide +kernel
  split at hShape
  · rename_i whole span lit hParse
    have hStop : span.stop = ⟨1, 7, 6⟩ := of_decide_eq_true hShape
    refine ⟨_, hParse, .stmt (.expression span (.holds (.literal lit))), ?_, hStop,
      fun hExact => ?_⟩
    · rw [Node.preorder_eq]
      exact List.mem_cons_of_mem _ (List.mem_flatMap.2
        ⟨⟨.stmt (.expression ..), false⟩, List.mem_cons_self, Node.self_mem_preorder _⟩)
    · have hActual := hExact.line_eq
      rw [show (Node.stmt (.expression span (.holds (.literal lit)))).span.stop = _ from hStop,
        show (⟨1, 7, 6⟩ : Place).offset.toNat = 6 from rfl, hLine] at hActual
      cases hActual
  · cases hShape

end Program

end ScriptOptimizer
