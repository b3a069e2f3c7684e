import ScriptOptimizer.Proofs.Parse.Spans
import ScriptOptimizer.Proofs.Syntax.Regexes

/-!
Where the regular expressions of a tree come from: they are those of the tokens that the tree was
read from, one by one.
-/

namespace ScriptOptimizer

/-- The text of a regular expression. -/
def Token.regex? (t : Token) : Option Bytes := if t.type = .regex then some t.literal else none

theorem Token.regex?_of_type {t : Token} {type : TokenType} (h : t.type = type)
    (hOther : type ≠ .regex) : t.regex? = none := if_neg (h ▸ hOther)

theorem Node.regex?_of_inner {n : Node} (h : n.isLeaf = false) : n.regex? = none := by
  unfold regex?
  split
  · cases h
  · rfl

theorem Node.regex?_literal (t : Token) :
    (Node.expr (.literal ⟨t.span, t.literal, t.literalValue⟩)).regex? = t.regex? := by
  unfold Token.literalValue Token.regex?
  cases t.type with
  | keyword k => cases k <;> rfl
  | _ => rfl

theorem TokenType.ne_regex_of_isMark {type : TokenType} (h : type.isMark = true) :
    type ≠ .regex := by
  rintro rfl
  cases h

namespace Part.Row

/-- The regular expressions of nodes are those of the tokens they were read from. -/
theorem regexes {xs : List Part} {ps : List Piece} (h : Row xs ps) :
    (nodes xs).filterMap Node.regex? = (ps.map Piece.token).filterMap Token.regex? := by
  have hleaf {x : Part} {xs : List Part} {ps : List Piece} {t : Token}
      (hx : x.node.isLeaf = true) (hRegex : x.node.regex? = t.regex?)
      (ih : (nodes xs).filterMap Node.regex? = (ps.map Piece.token).filterMap Token.regex?) :
      (nodes (x :: xs)).filterMap Node.regex? =
        (t :: ps.map Piece.token).filterMap Token.regex? := by
    rw [nodes_cons, Node.preorder_leaf hx, List.singleton_append, List.filterMap_cons,
      List.filterMap_cons, hRegex, ih]
  have hinner {n : Node} {xs : List Part} {ps qs : List Piece} (hn : n.isLeaf = false)
      (ih : (nodes n.parts).filterMap Node.regex? = (ps.map Piece.token).filterMap Token.regex?)
      (ih' : (nodes xs).filterMap Node.regex? = (qs.map Piece.token).filterMap Token.regex?) :
      (nodes (⟨n, false⟩ :: xs)).filterMap Node.regex? =
        ((ps ++ qs).map Piece.token).filterMap Token.regex? := by
    rw [nodes_cons, Node.preorder_parts, List.filterMap_append,
      List.filterMap_cons_none (Node.regex?_of_inner hn), List.map_append, List.filterMap_append,
      ← ih, ← ih']
    rfl
  induction h with
  | nil => rfl
  | mark hmark _ ih =>
    rw [List.map_cons, List.filterMap_cons_none]
    · exact ih
    · exact Token.regex?_of_type rfl (TokenType.ne_regex_of_isMark hmark)
  | name htype _ _ ih => exact hleaf rfl (Token.regex?_of_type htype nofun).symm ih
  | key htype _ _ ih => exact hleaf rfl (Token.regex?_of_type htype nofun).symm ih
  | literal _ _ _ ih => exact hleaf rfl (Node.regex?_literal _) ih
  | accessor haccessor htype _ _ _ _ _ ih ih' =>
    rw [List.cons_append, List.map_cons, List.filterMap_cons_none]
    · exact hinner (Node.isLeaf_of_isAccessor haccessor) ih ih'
    · exact Token.regex?_of_type htype nofun
  | inner hn _ _ _ _ _ ih ih' => exact hinner hn ih ih'

end Part.Row

/-- The regular expressions of a program that was read are those of its source. -/
theorem Program.regexes_of_parse [PatternCheck] {source : Source} {p : Program}
    (h : parse source = .ok p) :
    p.regexes = (Lexer.ofSource source).significant.1.filterMap Token.regex? := by
  obtain ⟨ps, last, hRow, hLast, hTokens, -⟩ := exists_row h
  have hRegexes := hRow.regexes
  rw [Part.nodes_singleton] at hRegexes
  rw [hTokens, List.filterMap_append, ← hRegexes,
    List.filterMap_cons_none (Token.regex?_of_type hLast nofun), List.filterMap_nil,
    List.append_nil]
  rfl

end ScriptOptimizer
