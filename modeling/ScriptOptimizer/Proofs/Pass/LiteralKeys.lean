import ScriptOptimizer.Pass.CachedLiterals
import ScriptOptimizer.Pattern.Check
import ScriptOptimizer.Proofs.Parse.Spans
import ScriptOptimizer.Proofs.Token.Sourced
import ScriptOptimizer.Proofs.Token.StringScan

/-!
Which literals count as one. The key of a string literal is the text of its code points, so literals
with the same key denote the same string unless half a pair of units stands alone in one of them:
UTF-8 has no form for it, and all such halves become one replacement character.
-/

namespace ScriptOptimizer

/-- The literals of nodes that were read are tokens. -/
theorem Part.Row.literal_token {xs : List Part} {ps : List Piece} (h : Row xs ps) {lit : Literal}
    (hlit : .expr (.literal lit) ∈ nodes xs) :
    ∃ t, .leaf t ∈ ps ∧ lit.raw = t.literal ∧ lit.value = t.literalValue := by
  have hleaf {x : Part} {xs : List Part} {ps : List Piece} {t : Token}
      (hx : x.node.isLeaf = true) (hliteral : ∀ lit, .expr (.literal lit) = x.node →
        lit.raw = t.literal ∧ lit.value = t.literalValue)
      (hlit : .expr (.literal lit) ∈ nodes (x :: xs))
      (ih : .expr (.literal lit) ∈ nodes xs →
        ∃ t, .leaf t ∈ ps ∧ lit.raw = t.literal ∧ lit.value = t.literalValue) :
      ∃ u, .leaf u ∈ Piece.leaf t :: ps ∧ lit.raw = u.literal ∧ lit.value = u.literalValue := by
    rw [nodes_cons, Node.preorder_leaf hx, List.singleton_append, List.mem_cons] at hlit
    rcases hlit with hlit | hlit
    · exact ⟨t, List.mem_cons_self, hliteral lit hlit⟩
    · obtain ⟨u, hu, h⟩ := ih hlit
      exact ⟨u, List.mem_cons_of_mem _ hu, h⟩
  have hinner {n : Node} {xs : List Part} {ps qs : List Piece} (hn : n.isLeaf = false)
      (hlit : .expr (.literal lit) ∈ nodes (⟨n, false⟩ :: xs))
      (ih : .expr (.literal lit) ∈ nodes n.parts →
        ∃ t, .leaf t ∈ ps ∧ lit.raw = t.literal ∧ lit.value = t.literalValue)
      (ih' : .expr (.literal lit) ∈ nodes xs →
        ∃ t, .leaf t ∈ qs ∧ lit.raw = t.literal ∧ lit.value = t.literalValue) :
      ∃ t, .leaf t ∈ ps ++ qs ∧ lit.raw = t.literal ∧ lit.value = t.literalValue := by
    rcases mem_nodes_cons hlit with rfl | hlit | hlit
    · cases hn
    · obtain ⟨t, ht, h⟩ := ih hlit
      exact ⟨t, List.mem_append_left _ ht, h⟩
    · obtain ⟨t, ht, h⟩ := ih' hlit
      exact ⟨t, List.mem_append_right _ ht, h⟩
  induction h with
  | nil => cases hlit
  | mark _ _ ih =>
    obtain ⟨t, ht, h⟩ := ih hlit
    exact ⟨t, List.mem_cons_of_mem _ ht, h⟩
  | name _ _ _ ih => exact hleaf rfl (fun _ hEq => by cases hEq) hlit ih
  | key _ _ _ ih => exact hleaf rfl (fun _ hEq => by cases hEq) hlit ih
  | literal _ _ _ ih =>
    refine hleaf rfl (fun lit hEq => ?_) hlit ih
    obtain rfl := Expr.literal.inj (Node.expr.inj hEq)
    exact ⟨rfl, rfl⟩
  | accessor haccessor _ _ _ _ _ _ ih ih' =>
    obtain ⟨t, ht, h⟩ := hinner (Node.isLeaf_of_isAccessor haccessor) hlit ih ih'
    exact ⟨t, List.mem_cons_of_mem _ ht, h⟩
  | inner hn _ _ _ _ _ ih ih' => exact hinner hn hlit ih ih'

theorem Scanned.mem [PatternCheck] {before : Option Token} {tokens : List Token}
    (h : Scanned before tokens) {t : Token} (ht : t ∈ tokens) : ∃ before text lexeme,
      Lexeme.scan before text = .ok lexeme ∧ lexeme.Makes text t := by
  induction tokens generalizing before with
  | nil => cases ht
  | cons u rest ih =>
    obtain ⟨hHead, hRest⟩ := h
    rcases List.mem_cons.1 ht with rfl | ht
    · exact ⟨before, hHead⟩
    · exact ih hRest ht

theorem Token.type_of_string {t : Token} {s : Bytes} (h : t.literalValue = .string s) :
    t.type = .string ∧ t.value = s := by
  unfold literalValue at h
  split at h
  case h_2 htype => exact ⟨htype, LiteralValue.string.inj h⟩
  all_goals cases h

namespace Program

variable {source : Source} {p : Program} {a b lit : Literal} {s t : Bytes}

/-- A string literal of a program that was read is a spelling of its value. -/
theorem string_spells [PatternCheck] (h : parse source = .ok p)
    (hlit : .expr (.literal lit) ∈ (Node.program p).preorder) (hs : lit.value = .string s) :
    StringLiteral.Spells lit.raw s := by
  obtain ⟨ps, last, hrow, -, htokens, -⟩ := exists_row h
  have hnode : .expr (.literal lit) ∈ Part.nodes [⟨.program p, false⟩] := by
    rwa [Part.nodes_singleton]
  obtain ⟨t, ht, hraw, hvalue⟩ := hrow.literal_token hnode
  obtain ⟨htype, rfl⟩ := Token.type_of_string (hvalue.symm.trans hs)
  have hmem : t ∈ (Lexer.ofSource source).significant.1 := by
    rw [htokens]
    exact List.mem_append_left _ (List.mem_map_of_mem ht)
  obtain ⟨before, text, lexeme, hscan, hmakes⟩ :=
    (Lexer.significant_scanned (Lexer.ofSource source)).mem hmem
  have hsound := (Lexeme.scan_sound hscan hmakes (by rw [Token.Unescaped, htype]; nofun)).1
  rw [hraw]
  simpa [Token.Sound, htype] using hsound

/-- The key of a string literal is the text of its code points. -/
theorem key_of_string [PatternCheck] (h : parse source = .ok p)
    (hlit : .expr (.literal lit) ∈ (Node.program p).preorder) (hs : lit.value = .string s)
    (hraw : Utf8.isValid lit.raw = true) : LiteralKey.of? lit.value =
      some (.string ((StringLiteral.characters lit.raw).flatMap Utf8.encode)) := by
  rw [hs, ← (string_spells h hlit hs).value_eq (Utf8.text_of_isValid hraw)]
  rfl

/-- String literals have the same key just if they have the same code points once every half of a
pair that stands alone is replaced; where none does, just if they denote the same string. -/
theorem string_keys [PatternCheck] (h : parse source = .ok p)
    (ha : .expr (.literal a) ∈ (Node.program p).preorder)
    (hb : .expr (.literal b) ∈ (Node.program p).preorder)
    (hs : a.value = .string s) (ht : b.value = .string t)
    (hraw : Utf8.isValid a.raw = true) (hraw' : Utf8.isValid b.raw = true) :
    (LiteralKey.of? a.value = LiteralKey.of? b.value ↔
      (StringLiteral.characters a.raw).map Utf8.mended =
        (StringLiteral.characters b.raw).map Utf8.mended) ∧
    (StringLiteral.Whole a.raw → StringLiteral.Whole b.raw →
      (LiteralKey.of? a.value = LiteralKey.of? b.value ↔
        StringLiteral.units a.raw = StringLiteral.units b.raw)) := by
  have hkeys : LiteralKey.of? a.value = LiteralKey.of? b.value ↔
      (StringLiteral.characters a.raw).map Utf8.mended =
        (StringLiteral.characters b.raw).map Utf8.mended := by
    rw [key_of_string h ha hs hraw, key_of_string h hb ht hraw', ← Utf8.flatMap_encode_inj,
      Option.some.injEq, LiteralKey.string.injEq]
  refine ⟨hkeys, fun hwhole hwhole' => ?_⟩
  rw [hkeys, hwhole.map_mended, hwhole'.map_mended, hwhole.units_inj hwhole']

/-- The string literals of a program as they are written, with their values. -/
def strings (p : Program) : List (Bytes × Bytes) :=
  (Node.program p).preorder.filterMap fun
    | .expr (.literal ⟨_, raw, .string text⟩) => some (raw, text)
    | _ => none

theorem exists_of_mem_strings {raw : Bytes} (h : (raw, s) ∈ p.strings) :
    ∃ lit, .expr (.literal lit) ∈ (Node.program p).preorder ∧ lit.raw = raw ∧
      lit.value = .string s := by
  obtain ⟨n, hn, hsome⟩ := List.mem_filterMap.1 h
  split at hsome
  · cases hsome
    exact ⟨_, hn, rfl, rfl⟩
  · cases hsome

/-- A pair of halves behind a continued line, and an octal escape. -/
theorem string_keys_escaped :
    let source := Source.inline (Bytes.ofString "f('\\u00e9\\\n\\uD83D\\uDE00', \"\\351😀\")")
    ∃ p a b, parse source = .ok p ∧ .expr (.literal a) ∈ (Node.program p).preorder ∧
      .expr (.literal b) ∈ (Node.program p).preorder ∧ a.raw ≠ b.raw ∧
      LiteralKey.of? a.value = LiteralKey.of? b.value ∧
      StringLiteral.units a.raw = StringLiteral.units b.raw := by
  intro source
  have hstrings : (parse source).toOption.map strings = some
      [(Bytes.ofString "'\\u00e9\\\n\\uD83D\\uDE00'", Bytes.ofString "é😀"),
        (Bytes.ofString "\"\\351😀\"", Bytes.ofString "é😀")] := by decide +kernel
  cases h : parse source with
  | error d => rw [h] at hstrings; cases hstrings
  | ok p =>
    rw [h] at hstrings
    have hlist : p.strings = _ := Option.some.inj hstrings
    obtain ⟨a, ha, haraw, hs⟩ := exists_of_mem_strings (hlist ▸ List.mem_cons_self)
    obtain ⟨b, hb, hbraw, ht⟩ :=
      exists_of_mem_strings (hlist ▸ List.mem_cons_of_mem _ List.mem_cons_self)
    have hunits : StringLiteral.units a.raw = StringLiteral.units b.raw := by
      rw [haraw, hbraw]
      decide +kernel
    refine ⟨p, a, b, rfl, ha, hb, ?_, ?_, hunits⟩
    · rw [haraw, hbraw]
      decide
    · refine ((string_keys h ha hb hs ht ?_ ?_).2 ?_ ?_).2 hunits
      · rw [haraw]; decide
      · rw [hbraw]; decide
      · rw [haraw]; unfold StringLiteral.Whole; decide
      · rw [hbraw]; unfold StringLiteral.Whole; decide

/-- Two halves that stand alone denote different strings, but have one key. -/
theorem string_keys_halves :
    let source := Source.inline (Bytes.ofString "f(\"\\uD800\", \"\\uDBFF\")")
    ∃ p a b, parse source = .ok p ∧ .expr (.literal a) ∈ (Node.program p).preorder ∧
      .expr (.literal b) ∈ (Node.program p).preorder ∧
      LiteralKey.of? a.value = LiteralKey.of? b.value ∧
      StringLiteral.units a.raw ≠ StringLiteral.units b.raw := by
  intro source
  have hstrings : (parse source).toOption.map strings = some
      [(Bytes.ofString "\"\\uD800\"", Utf8.encode Utf8.replacement),
        (Bytes.ofString "\"\\uDBFF\"", Utf8.encode Utf8.replacement)] := by decide +kernel
  cases h : parse source with
  | error d => rw [h] at hstrings; cases hstrings
  | ok p =>
    rw [h] at hstrings
    have hlist : p.strings = _ := Option.some.inj hstrings
    obtain ⟨a, ha, haraw, hs⟩ := exists_of_mem_strings (hlist ▸ List.mem_cons_self)
    obtain ⟨b, hb, hbraw, ht⟩ :=
      exists_of_mem_strings (hlist ▸ List.mem_cons_of_mem _ List.mem_cons_self)
    refine ⟨p, a, b, rfl, ha, hb, by rw [hs, ht], ?_⟩
    rw [haraw, hbraw]
    decide

end Program

end ScriptOptimizer
