import ScriptOptimizer.Parse.Statement
import ScriptOptimizer.Proofs.Syntax.Formed

/-!
Which tokens a tree was read from. A reading of some tokens gives nodes in the order of the tokens,
each within the range of its tokens; the names and literals of the tree are tokens one by one, and
the tokens between them are marks, which leave no node behind.
-/

namespace ScriptOptimizer

namespace TokenType

/-- Do tokens of the type leave no name or literal in the tree? -/
def isMark : TokenType → Bool
  | punctuator _ => true
  | keyword k => !(keyword k).isValue
  | _ => false

theorem isMark_of_precedence {type : TokenType} (h : type.precedence ≠ 0) :
    type.isMark = true := by
  unfold precedence at h
  split at h <;> first | rfl | exact absurd rfl h

theorem isMark_of_isAssignment {type : TokenType} (h : type.isAssignment = true) :
    type.isMark = true := by
  unfold isAssignment at h
  split at h
  · rfl
  · cases h

end TokenType

/-- A node, and whether it is the key of an entry. -/
structure Part where
  node : Node
  isKey : Bool

namespace Part

/-- Where the node starts. -/
def start (x : Part) : Int := x.node.span.start.offset

/-- Where the node stops. -/
def stop (x : Part) : Int := x.node.span.stop.offset

/-- The nodes of children that are no keys. -/
def ofChildren (list : List Child) : List Part := list.map fun c => ⟨c.node, false⟩

/-- An expression that is no key. -/
abbrev expr (e : Expr) : List Part := [⟨.expr e, false⟩]

/-- A statement, if it is present. -/
abbrev stmt (s : Stmt) : List Part := ofChildren (Child.stmt s)

end Part

namespace Node

/-- Is it a name or a literal? -/
def isLeaf : Node → Bool
  | .expr (.ident _) | .expr (.literal _) => true
  | _ => false

/-- Is it an entry with a getter or a setter? -/
def isAccessor : Node → Bool
  | .property (.entry _ kind _ _ _ _) => kind = Bytes.ofString "get" || kind = Bytes.ofString "set"
  | _ => false

/-- The children of a node, with the key of an entry marked. -/
def parts : Node → List Part
  | .property (.entry _ _ key value _ shorthand) =>
    (Child.slot key).map (⟨·.node, true⟩) ++
      Part.ofChildren (if shorthand then [] else Child.slot value)
  | n => Part.ofChildren n.children

theorem map_parts (n : Node) : n.parts.map (·.node) = n.children.map (·.node) := by
  have h (list : List Child) : (Part.ofChildren list).map (·.node) = list.map (·.node) := by
    simp [Part.ofChildren, Function.comp_def]
  cases n with
  | property p =>
    cases p with
    | absent => rfl
    | entry span kind key value computed shorthand =>
      simp [parts, children, h, Function.comp_def]
  | _ => exact h _

/-- The children of a node lie in its range, one after another. -/
structure Fits (n : Node) : Prop where
  le : n.span.start.offset ≤ n.span.stop.offset
  low : ∀ x ∈ n.parts, n.span.start.offset ≤ x.start
  high : ∀ x ∈ n.parts, x.stop ≤ n.span.stop.offset
  apart : n.parts.Pairwise fun x y => x.stop ≤ y.start

end Node

/-- A token that was read: it became a name or a literal, it is the word of an accessor, or it left
nothing behind. -/
inductive Piece where
  | leaf (t : Token)
  | word (t : Token)
  | mark (t : Token)

namespace Piece

/-- The token. -/
def token : Piece → Token
  | leaf t | word t | mark t => t

/-- Where the last of the tokens stops; if there are none, the place before. -/
def stopAfter (before : Place) (ps : List Piece) : Place :=
  (ps.getLast?.map (·.token.stopPlace)).getD before

theorem stopAfter_append (before : Place) (ps qs : List Piece) :
    stopAfter before (ps ++ qs) = stopAfter (stopAfter before ps) qs := by
  unfold stopAfter
  rw [List.getLast?_append]
  cases qs.getLast? <;> rfl

theorem exists_stopAfter {ps : List Piece} (h : ps ≠ []) (before : Place) :
    ∃ p ∈ ps, stopAfter before ps = p.token.stopPlace := by
  refine ⟨ps.getLast h, List.getLast_mem h, ?_⟩
  rw [stopAfter, List.getLast?_eq_some_getLast h]
  rfl

end Piece

/-- The node starts where one of the tokens does and stops where one does. A program goes on to the
end of input. -/
def Node.Bound (ps : List Piece) : Node → Prop
  | .program _ => True
  | n => (∃ p ∈ ps, n.span.start = p.token.startPlace) ∧
      ∃ p ∈ ps, n.span.stop = p.token.stopPlace

namespace Node.Bound

variable {n : Node} {ps qs : List Piece}

theorem of_places (hstart : ∃ p ∈ ps, n.span.start = p.token.startPlace)
    (hstop : ∃ p ∈ ps, n.span.stop = p.token.stopPlace) : n.Bound ps := by
  cases n with
  | program => trivial
  | _ => exact ⟨hstart, hstop⟩

theorem of_token {t : Token} {p : Piece} (h : n.span = t.span) (hp : p ∈ ps)
    (htoken : p.token = t) : n.Bound ps :=
  of_places ⟨p, hp, by rw [h, htoken]; rfl⟩ ⟨p, hp, by rw [h, htoken]; rfl⟩

theorem mono (h : n.Bound ps) (hsub : ps ⊆ qs) : n.Bound qs := by
  cases n with
  | program => trivial
  | _ =>
    obtain ⟨⟨p, hp, hstart⟩, q, hq, hstop⟩ := h
    exact ⟨⟨p, hsub hp, hstart⟩, q, hsub hq, hstop⟩

end Node.Bound

/-- The nodes were read from the tokens one after another, with marks around them. -/
inductive Part.Row : List Part → List Piece → Prop
  | nil : Part.Row [] []
  | mark {t : Token} {xs : List Part} {ps : List Piece} : t.type.isMark = true → Part.Row xs ps →
      Part.Row xs (.mark t :: ps)
  | name {t : Token} {isKey : Bool} {xs : List Part} {ps : List Piece} : t.type = .identifier →
      t.start ≤ t.stop → Part.Row xs ps →
      Part.Row (⟨.expr (.ident ⟨t.span, t.value⟩), isKey⟩ :: xs) (.leaf t :: ps)
  | key {t : Token} {word : Keyword} {xs : List Part} {ps : List Piece} : t.type = .keyword word →
      t.start ≤ t.stop → Part.Row xs ps →
      Part.Row (⟨.expr (.ident ⟨t.span, t.literal⟩), true⟩ :: xs) (.leaf t :: ps)
  | literal {t : Token} {isKey : Bool} {xs : List Part} {ps : List Piece} :
      t.type.isValue = true → t.start ≤ t.stop → Part.Row xs ps →
      Part.Row (⟨.expr (.literal ⟨t.span, t.literal, t.literalValue⟩), isKey⟩ :: xs) (.leaf t :: ps)
  | accessor {n : Node} {t : Token} {xs : List Part} {ps qs : List Piece} : n.isAccessor = true →
      t.type = .identifier → n.span.start = t.startPlace → n.Fits → n.Bound (.word t :: ps) →
      Part.Row n.parts ps → Part.Row xs qs → Part.Row (⟨n, false⟩ :: xs) (.word t :: ps ++ qs)
  | inner {n : Node} {xs : List Part} {ps qs : List Piece} : n.isLeaf = false →
      n.isAccessor = false → n.Fits → n.Bound ps → Part.Row n.parts ps → Part.Row xs qs →
      Part.Row (⟨n, false⟩ :: xs) (ps ++ qs)

namespace Part

theorem Row.append {xs ys : List Part} {ps qs : List Piece} (hx : Row xs ps) (hy : Row ys qs) :
    Row (xs ++ ys) (ps ++ qs) := by
  induction hx with
  | nil => exact hy
  | mark hmark _ ih => exact .mark hmark ih
  | name htype hle _ ih => exact .name htype hle ih
  | key htype hle _ ih => exact .key htype hle ih
  | literal htype hle _ ih => exact .literal htype hle ih
  | accessor haccessor htype hstart hfits hbound hparts _ _ ih =>
    rw [List.append_assoc]
    exact .accessor haccessor htype hstart hfits hbound hparts ih
  | inner hleaf haccessor hfits hbound hparts _ _ ih =>
    rw [List.append_assoc]
    exact .inner hleaf haccessor hfits hbound hparts ih

/-- Every node that was read starts and stops with a token. -/
theorem Row.bound {xs : List Part} {ps : List Piece} (h : Row xs ps) :
    ∀ x ∈ xs, x.node.Bound ps := by
  have hcons {x : Part} {xs : List Part} {ps qs : List Piece} (hx : x.node.Bound ps)
      (ih : ∀ y ∈ xs, y.node.Bound qs) : ∀ y ∈ x :: xs, y.node.Bound (ps ++ qs) :=
    List.forall_mem_cons.2 ⟨hx.mono (List.subset_append_left ps qs),
      fun y hy => (ih y hy).mono (List.subset_append_right ps qs)⟩
  have hleaf {x : Part} {t : Token} (hx : x.node.span = t.span) : x.node.Bound [.leaf t] :=
    .of_token hx List.mem_cons_self rfl
  induction h with
  | nil => exact List.forall_mem_nil _
  | mark _ _ ih => exact fun x hx => (ih x hx).mono (List.subset_cons_self _ _)
  | name _ _ _ ih => exact hcons (hleaf rfl) ih
  | key _ _ _ ih => exact hcons (hleaf rfl) ih
  | literal _ _ _ ih => exact hcons (hleaf rfl) ih
  | accessor _ _ _ _ hbound _ _ _ ih => exact hcons hbound ih
  | inner _ _ _ hbound _ _ _ ih => exact hcons hbound ih

/-! ### The parts of each sort of node -/

@[simp] theorem ofChildren_append (xs ys : List Child) :
    ofChildren (xs ++ ys) = ofChildren xs ++ ofChildren ys := List.map_append

theorem ofChildren_slots (list : List Slot) :
    ofChildren (Child.slots list) = list.flatMap fun s => ofChildren (Child.slot s) :=
  List.map_flatMap

theorem ofChildren_holds (list : List Expr) :
    ofChildren (Child.slots (list.map .holds)) = list.flatMap expr := by
  rw [ofChildren_slots, List.flatMap_map]
  rfl

theorem ofChildren_properties (list : List Property) :
    ofChildren (Child.properties list) =
      list.flatMap fun p => ofChildren (Child.properties [p]) := by
  rw [Child.properties, ofChildren, List.map_flatMap]
  simp [Child.properties, ofChildren]

theorem ofChildren_declarators (list : List Declarator) :
    ofChildren (Child.declarators list) = list.flatMap fun d => [⟨.declarator d, false⟩] := by
  rw [← List.map_eq_flatMap]
  exact List.map_map

theorem ofChildren_cases (list : List Case) :
    ofChildren (list.map fun c => ⟨.case c, false⟩) = list.flatMap fun c => [⟨.case c, false⟩] := by
  rw [← List.map_eq_flatMap]
  exact List.map_map

theorem ofChildren_stmts (list : List Stmt) :
    ofChildren (Child.stmts list) = list.flatMap stmt :=
  List.map_flatMap

end Part

namespace Parse

/-- The tokens still to be read: they follow each other, the last of them ends the input unless a
lexical error does, and nothing was read beyond the current token. -/
structure Ready (s : Stream) : Prop where
  sorted : (s.current :: s.upcoming).Pairwise fun t u => t.stop ≤ u.start
  le : ∀ t ∈ s.current :: s.upcoming, t.start ≤ t.stop
  last : s.failure = none → ∀ t ∈ (s.current :: s.upcoming).getLast?, t.type = .endOfInput
  unread : s.failure.isSome = true → s.upcoming ≠ []
  stop_le : s.stop.offset ≤ s.current.start

/-- From one stream to another some tokens were read as nodes. -/
structure Reads (s t : Stream) (xs : List Part) : Prop where
  ready : Ready t
  pieces : ∃ ps, Part.Row xs ps ∧
    s.current :: s.upcoming = ps.map Piece.token ++ (t.current :: t.upcoming) ∧
    t.stop = Piece.stopAfter s.stop ps
  stop_le : s.stop.offset ≤ t.stop.offset
  current_le : s.current.start ≤ t.current.start
  low : ∀ x ∈ xs, s.current.start ≤ x.start
  le : ∀ x ∈ xs, x.start ≤ x.stop
  high : ∀ x ∈ xs, x.stop ≤ t.stop.offset
  apart : xs.Pairwise fun x y => x.stop ≤ y.start

/-- At least one token was read. -/
structure Started (s t : Stream) (xs : List Part) : Prop extends Reads s t xs where
  started : s.current.start ≤ t.stop.offset
  fewer : t.upcoming.length < s.upcoming.length

/-- One token was read. -/
structure Took (s t : Stream) : Prop where
  ready : Ready t
  tokens : s.upcoming = t.current :: t.upcoming
  stop_eq : t.stop = s.current.stopPlace
  le : s.current.start ≤ s.current.stop
  next_le : s.current.stop ≤ t.current.start
  stop_le : s.stop.offset ≤ s.current.start

section

variable {s t u : Stream} {xs ys : List Part} {n : Node}

theorem Reads.refl (h : Ready s) : Reads s s [] :=
  ⟨h, ⟨[], .nil, rfl, rfl⟩, Int.le_refl _, Nat.le_refl _, List.forall_mem_nil _,
    List.forall_mem_nil _, List.forall_mem_nil _, .nil⟩

theorem Reads.trans (h : Reads s t xs) (h' : Reads t u ys) : Reads s u (xs ++ ys) := by
  obtain ⟨ps, hps, htokens, hlast⟩ := h.pieces
  obtain ⟨qs, hqs, htokens', hlast'⟩ := h'.pieces
  have hbetween := h.ready.stop_le
  have hstop := h'.stop_le
  have hcurrent := h.current_le
  refine ⟨h'.ready, ⟨ps ++ qs, hps.append hqs, ?_, ?_⟩, Int.le_trans h.stop_le hstop,
    Nat.le_trans hcurrent h'.current_le, ?_, ?_, ?_, ?_⟩
  · rw [htokens, htokens', List.map_append, List.append_assoc]
  · rw [hlast', hlast, Piece.stopAfter_append]
  · intro x hx
    rcases List.mem_append.1 hx with hx | hx
    · exact h.low x hx
    · have := h'.low x hx
      omega
  · intro x hx
    exact (List.mem_append.1 hx).elim (h.le x) (h'.le x)
  · intro x hx
    rcases List.mem_append.1 hx with hx | hx
    · exact Int.le_trans (h.high x hx) hstop
    · exact h'.high x hx
  · refine List.pairwise_append.2 ⟨h.apart, h'.apart, fun x hx y hy => ?_⟩
    have := h.high x hx
    have := h'.low y hy
    omega

theorem Reads.length_le (h : Reads s t xs) : t.upcoming.length ≤ s.upcoming.length := by
  obtain ⟨ps, -, htokens, -⟩ := h.pieces
  have hlength := congrArg List.length htokens
  simp only [List.length_cons, List.length_append] at hlength
  omega

theorem Reads.start (h : Reads s t xs) (h' : Started t u ys) : Started s u (xs ++ ys) :=
  ⟨h.trans h'.toReads, Int.le_trans (Int.ofNat_le.2 h.current_le) h'.started,
    Nat.lt_of_lt_of_le h'.fewer h.length_le⟩

theorem Started.trans (h : Started s t xs) (h' : Reads t u ys) : Started s u (xs ++ ys) :=
  ⟨h.toReads.trans h', Int.le_trans h.started h'.stop_le,
    Nat.lt_of_le_of_lt h'.length_le h.fewer⟩

/-- What was read starts with the current token, and stops with the last token. -/
theorem Started.places {ps : List Piece} (h : Started s t xs)
    (htokens : s.current :: s.upcoming = ps.map Piece.token ++ (t.current :: t.upcoming))
    (hlast : t.stop = Piece.stopAfter s.stop ps) :
    (∃ p ∈ ps, s.current.startPlace = p.token.startPlace) ∧
      ∃ p ∈ ps, t.stop = p.token.stopPlace := by
  have hfewer := h.fewer
  cases ps with
  | nil =>
    have hlength := congrArg List.length htokens
    simp only [List.length_cons, List.map_nil, List.nil_append] at hlength
    omega
  | cons p ps =>
    obtain ⟨q, hq, hstop⟩ := Piece.exists_stopAfter (List.cons_ne_nil p ps) s.stop
    exact ⟨⟨p, List.mem_cons_self, congrArg Token.startPlace (List.cons.inj htokens).1⟩,
      q, hq, hlast.trans hstop⟩

/-- The count of nodes plays no part. -/
theorem Reads.counted (h : Reads s t xs) (c : Census) : Reads s { t with census := c } xs :=
  ⟨⟨h.ready.sorted, h.ready.le, h.ready.last, h.ready.unread, h.ready.stop_le⟩, h.pieces,
    h.stop_le, h.current_le, h.low, h.le, h.high, h.apart⟩

theorem Started.counted (h : Started s t xs) (c : Census) : Started s { t with census := c } xs :=
  ⟨h.toReads.counted c, h.started, h.fewer⟩

/-- One node was read. -/
theorem Started.single {x : Part} {ps : List Piece} (hready : Ready t) (hrow : Part.Row [x] ps)
    (htokens : s.current :: s.upcoming = ps.map Piece.token ++ (t.current :: t.upcoming))
    (hlast : t.stop = Piece.stopAfter s.stop ps) (hfewer : t.upcoming.length < s.upcoming.length)
    (hstop : s.stop.offset ≤ t.stop.offset) (hcurrent : s.current.start ≤ t.current.start)
    (hlow : s.current.start ≤ x.start) (hle : x.start ≤ x.stop) (hhigh : x.stop ≤ t.stop.offset) :
    Started s t [x] :=
  ⟨⟨hready, ⟨ps, hrow, htokens, hlast⟩, hstop, hcurrent, List.forall_mem_singleton.2 hlow,
    List.forall_mem_singleton.2 hle, List.forall_mem_singleton.2 hhigh,
    List.pairwise_singleton _ _⟩, by omega, hfewer⟩

/-- The node whose parts were read takes their place. It starts with what was read or with a part
that is an expression, and so it stops. -/
theorem Started.close (h : Started s t n.parts) (hleaf : n.isLeaf = false)
    (haccessor : n.isAccessor = false) (hfits : n.Fits)
    (hlow : s.current.start ≤ n.span.start.offset) (hhigh : n.span.stop.offset ≤ t.stop.offset)
    (hstart : n.span.start = s.current.startPlace ∨
      ∃ e, ⟨.expr e, false⟩ ∈ n.parts ∧ n.span.start = e.span.start)
    (hstop : n.span.stop = t.stop ∨
      ∃ e, ⟨.expr e, false⟩ ∈ n.parts ∧ n.span.stop = e.span.stop) :
    Started s t [⟨n, false⟩] := by
  obtain ⟨ps, hps, htokens, hlast⟩ := h.pieces
  obtain ⟨hfirst, hend⟩ := h.places htokens hlast
  have hbound : n.Bound ps := by
    refine .of_places ?_ ?_
    · rcases hstart with hstart | ⟨e, he, hstart⟩
      · rwa [hstart]
      · obtain ⟨⟨p, hp, hplace⟩, -⟩ := hps.bound _ he
        exact ⟨p, hp, hstart.trans hplace⟩
    · rcases hstop with hstop | ⟨e, he, hstop⟩
      · rwa [hstop]
      · obtain ⟨-, p, hp, hplace⟩ := hps.bound _ he
        exact ⟨p, hp, hstop.trans hplace⟩
  have hrow := Part.Row.inner hleaf haccessor hfits hbound hps .nil
  rw [List.append_nil] at hrow
  exact .single h.ready hrow htokens hlast h.fewer h.stop_le h.current_le hlow hfits.le hhigh

theorem Reads.fits (h : Reads s t n.parts) (hle : s.current.start ≤ t.stop.offset)
    (hspan : n.span = ⟨s.current.startPlace, t.stop⟩) : n.Fits := by
  constructor
  · rw [hspan]
    exact hle
  · rw [hspan]
    exact h.low
  · rw [hspan]
    exact h.high
  · exact h.apart

/-- A node that reaches from the first of the tokens to the last. -/
theorem Started.close_from (h : Started s t xs) (hparts : n.parts = xs) (hleaf : n.isLeaf = false)
    (haccessor : n.isAccessor = false) (hspan : n.span = ⟨s.current.startPlace, t.stop⟩) :
    Started s t [⟨n, false⟩] := by
  subst hparts
  refine h.close hleaf haccessor (h.fits h.started hspan) ?_ ?_ (.inl ?_) (.inl ?_)
  · exact Int.le_of_eq (congrArg (·.start.offset) hspan.symm)
  · exact Int.le_of_eq (congrArg (·.stop.offset) hspan)
  · exact congrArg Span.start hspan
  · exact congrArg Span.stop hspan

/-- A node that starts with the first of its parts, and stops with what was read or with a part. -/
theorem Started.close_at {e : Expr} (h : Started s t (⟨.expr e, false⟩ :: xs))
    (hparts : n.parts = ⟨.expr e, false⟩ :: xs) (hleaf : n.isLeaf = false)
    (haccessor : n.isAccessor = false) (hstart : n.span.start = e.span.start)
    (hhigh : n.span.stop.offset ≤ t.stop.offset)
    (hlast : ∀ y ∈ ⟨.expr e, false⟩ :: xs, y.stop ≤ n.span.stop.offset)
    (hstop : n.span.stop = t.stop ∨
      ∃ e, ⟨.expr e, false⟩ ∈ n.parts ∧ n.span.stop = e.span.stop) :
    Started s t [⟨n, false⟩] := by
  have hapart := List.pairwise_cons.1 h.apart
  have hle : e.span.start.offset ≤ e.span.stop.offset := h.le _ List.mem_cons_self
  have hstopLe : e.span.stop.offset ≤ n.span.stop.offset := hlast _ List.mem_cons_self
  have hlow : s.current.start ≤ e.span.start.offset := h.low _ List.mem_cons_self
  rw [← hstart] at hle hlow
  have hfits : n.Fits := by
    refine ⟨Int.le_trans hle hstopLe, ?_, hparts ▸ hlast, hparts ▸ h.apart⟩
    intro y hy
    rw [hparts] at hy
    rcases List.mem_cons.1 hy with rfl | hy
    · rw [hstart]
      exact Int.le_refl _
    · exact Int.le_trans hle (hapart.1 y hy)
  exact (hparts.symm ▸ h : Started s t n.parts).close hleaf haccessor hfits hlow hhigh
    (.inr ⟨e, hparts ▸ List.mem_cons_self, hstart⟩) hstop

/-- A node that starts with the first of its parts and stops with what was read. -/
theorem Started.close_to {e : Expr} (h : Started s t (⟨.expr e, false⟩ :: xs))
    (hparts : n.parts = ⟨.expr e, false⟩ :: xs) (hleaf : n.isLeaf = false)
    (haccessor : n.isAccessor = false) (hspan : n.span = ⟨e.span.start, t.stop⟩) :
    Started s t [⟨n, false⟩] := by
  have hstop : n.span.stop = t.stop := congrArg Span.stop hspan
  refine h.close_at hparts hleaf haccessor (by rw [hspan]) ?_ ?_ (.inl hstop)
  · exact Int.le_of_eq (congrArg Place.offset hstop)
  · rw [hstop]
    exact h.high

/-- A node that reaches from the first of its parts to the last. -/
theorem Started.close_join {e f : Expr} (h : Started s t (⟨.expr e, false⟩ :: xs ++ Part.expr f))
    (hparts : n.parts = ⟨.expr e, false⟩ :: xs ++ Part.expr f) (hleaf : n.isLeaf = false)
    (haccessor : n.isAccessor = false) (hspan : n.span = e.span.join f.span) :
    Started s t [⟨n, false⟩] := by
  have hstop : n.span.stop = f.span.stop := by rw [hspan]; rfl
  have hf : ⟨.expr f, false⟩ ∈ (⟨.expr e, false⟩ :: xs ++ Part.expr f : List Part) :=
    List.mem_append_right _ (List.mem_singleton_self _)
  refine h.close_at hparts hleaf haccessor (by rw [hspan]; rfl) ?_ (fun z hz => ?_)
    (.inr ⟨f, hparts ▸ hf, hstop⟩)
  · rw [hstop]
    exact h.high _ hf
  · rw [hstop]
    have hz' : z ∈ (⟨.expr e, false⟩ :: xs : List Part) ++ Part.expr f := hz
    rcases List.mem_append.1 hz' with hz' | hz'
    · have hapart := (List.pairwise_append.1 h.apart).2.2 z hz' _ (List.mem_singleton_self _)
      exact Int.le_trans hapart (h.le _ hf)
    · rw [List.mem_singleton.1 hz']
      exact Int.le_refl _

/-- The token read leaves no node behind. -/
theorem Took.mark (h : Took s t) (hmark : s.current.type.isMark = true) : Started s t [] := by
  have hstop : t.stop.offset = s.current.stop := by rw [h.stop_eq]; rfl
  have hle := h.le
  have hnext := h.next_le
  have hprev := h.stop_le
  refine ⟨⟨h.ready, ⟨[.mark s.current], .mark hmark .nil, ?_, h.stop_eq⟩, ?_, ?_,
    List.forall_mem_nil _, List.forall_mem_nil _, List.forall_mem_nil _, .nil⟩, ?_, ?_⟩
  · rw [h.tokens]
    rfl
  rotate_right
  · rw [h.tokens]
    exact Nat.lt_succ_self _
  all_goals omega

/-- The token read is a name or a literal. -/
theorem Took.leaf {x : Part} (h : Took s t) (hrow : Part.Row [x] [.leaf s.current])
    (hspan : x.node.span = s.current.span) : Started s t [x] := by
  have hstop : t.stop.offset = s.current.stop := by rw [h.stop_eq]; rfl
  have hle := h.le
  have hnext := h.next_le
  have hprev := h.stop_le
  have hlow : x.start = s.current.start := by rw [Part.start, hspan]; rfl
  have hhigh : x.stop = s.current.stop := by rw [Part.stop, hspan]; rfl
  refine .single h.ready hrow ?_ h.stop_eq ?_ ?_ ?_ ?_ ?_ ?_
  · rw [h.tokens]
    rfl
  · rw [h.tokens]
    exact Nat.lt_succ_self _
  all_goals omega

/-- The token read is the word of an accessor. -/
theorem Took.accessor (h : Took s t) (h' : Started t u n.parts) (haccessor : n.isAccessor = true)
    (hword : s.current.type = .identifier) (hspan : n.span = ⟨s.current.startPlace, u.stop⟩) :
    Started s u [⟨n, false⟩] := by
  obtain ⟨ps, hps, htokens, hlast⟩ := h'.pieces
  obtain ⟨-, p, hp, hplace⟩ := h'.places htokens hlast
  have hle := h.le
  have hnext := h.next_le
  have hprev := h.stop_le
  have hcurrent := h'.current_le
  have hend := h'.started
  have hstarts : n.span.start.offset = s.current.start := by rw [hspan]; rfl
  have hstops : n.span.stop.offset = u.stop.offset := by rw [hspan]
  have hfits : n.Fits := by
    refine ⟨?_, fun x hx => ?_, fun x hx => ?_, h'.apart⟩
    · omega
    · have := h'.low x hx
      omega
    · have := h'.high x hx
      omega
  have hbound : n.Bound (.word s.current :: ps) :=
    .of_places ⟨_, List.mem_cons_self, by rw [hspan]; rfl⟩
      ⟨p, List.mem_cons_of_mem _ hp, by rw [hspan, hplace]⟩
  have hrow := Part.Row.accessor haccessor hword (by rw [hspan]) hfits hbound hps .nil
  rw [List.append_nil] at hrow
  refine .single h'.ready hrow ?_ ?_ ?_ ?_ ?_ (Int.le_of_eq hstarts.symm) hfits.le
    (Int.le_of_eq hstops)
  · rw [h.tokens, htokens]
    rfl
  · rw [hlast, h.stop_eq]
    exact (Piece.stopAfter_append s.stop [.word s.current] ps).symm
  · rw [h.tokens]
    exact Nat.lt_succ_of_lt h'.fewer
  all_goals omega

end

/-! ### What a rule yields -/

/-- If the rule succeeds, its value and the tokens left are as the condition says. -/
def Yields {α : Type} (p : Parse α) (s : Stream) (Q : α → Stream → Prop) : Prop :=
  match p s with
  | .ok a t => Q a t
  | .error _ _ => True

/-- The rule reads the nodes of its value, if there are any. -/
def Reader {α : Type} (roots : α → List Part) (p : Parse α) : Prop :=
  ∀ s, Ready s → Yields p s fun a t => Reads s t (roots a)

/-- The rule reads the nodes of its value from at least one token. -/
def Starter {α : Type} (roots : α → List Part) (p : Parse α) : Prop :=
  ∀ s, Ready s → Yields p s fun a t => Started s t (roots a)

section

variable {α β : Type} {s t : Stream} {xs : List Part} {p : Parse α} {f : α → Parse β}
  {Q Q' : α → Stream → Prop} {R : β → Stream → Prop} {roots : α → List Part}

namespace Yields

theorem pure {a : α} (h : Q a s) : Yields (Pure.pure a : Parse α) s Q := h

theorem bind (h : Yields p s Q) (hnext : ∀ a t, Q a t → Yields (f a) t R) :
    Yields (p >>= f) s R := by
  show Yields (EStateM.bind p f) s R
  unfold Yields EStateM.bind at *
  cases hp : p s with
  | ok a t =>
    rw [hp] at h
    exact hnext a t h
  | error d t => trivial

theorem mono (h : Yields p s Q) (hmono : ∀ a t, Q a t → Q' a t) : Yields p s Q' := by
  unfold Yields at *
  cases hp : p s with
  | ok a t =>
    rw [hp] at h
    exact hmono a t h
  | error d t => trivial

theorem map {g : α → β} (h : Yields p s Q) (hmap : ∀ a t, Q a t → R (g a) t) :
    Yields (g <$> p) s R := by
  show Yields (EStateM.map g p) s R
  unfold Yields EStateM.map at *
  cases hp : p s with
  | ok a t =>
    rw [hp] at h
    exact hmap a t h
  | error d t => trivial

theorem unexpected {wanted : Bytes} : Yields (Parse.unexpected wanted) s Q := trivial

theorem failAt {broken : Token} {message : Bytes} : Yields (Parse.failAt broken message) s Q :=
  trivial

/-- Nothing comes after a failure. -/
theorem failed {broken : Token} {message : Bytes} :
    Yields ((Parse.failAt broken message : Parse α) >>= f) s R :=
  trivial

/-- A check that fails when its condition holds. -/
theorem check {c : Prop} [Decidable c] {broken : Token} {message : Bytes} {f : Unit → Parse β}
    (h : Yields (f ()) s R) :
    Yields (if c then Parse.failAt broken message >>= f else f ()) s R := by
  split
  · trivial
  · exact h

/-- A choice between two steps, each with the same steps after it. -/
theorem branch {b : Bool} {q : Parse α} (h : Yields (if b then p else q) s Q)
    (hnext : ∀ a t, Q a t → Yields (f a) t R) :
    Yields (if b then p >>= f else q >>= f) s R := by
  cases b with
  | true => exact h.bind hnext
  | false => exact h.bind hnext

theorem current {f : Token → Parse β} (h : Yields (f s.current) s R) :
    Yields (Parse.current >>= f) s R := h

theorem got {f : Stream → Parse β} (h : Yields (f s) s R) : Yields (get >>= f) s R := h

theorem position {f : Place → Parse β} (h : Yields (f s.current.startPlace) s R) :
    Yields (Parse.position >>= f) s R := h

theorem spanFrom {start : Place} {f : Span → Parse β} (h : Yields (f ⟨start, s.stop⟩) s R) :
    Yields (Parse.spanFrom start >>= f) s R := h

theorem sees {type : TokenType} {f : Bool → Parse β}
    (h : ∀ b, b = decide (s.current.type = type) → Yields (f b) s R) :
    Yields (Parse.sees type >>= f) s R := h _ rfl

theorem rounds {f : Nat → Parse β} (h : ∀ n, Yields (f n) s R) :
    Yields (Parse.rounds >>= f) s R := h _

end Yields

theorem Starter.reader (h : Starter roots p) : Reader roots p :=
  fun s hs => (h s hs).mono fun _ _ h => h.toReads

theorem Ready.first (h : Ready s) (hp : Starter roots p)
    (hnext : ∀ a t, Started s t (roots a) → Yields (f a) t R) : Yields (p >>= f) s R :=
  (hp s h).bind hnext

theorem Started.next {s t : Stream} (h : Started s t xs) (hp : Reader roots p)
    (hnext : ∀ a u, Started s u (xs ++ roots a) → Yields (f a) u R) : Yields (p >>= f) t R :=
  (hp t h.ready).bind fun a u h' => hnext a u (h.trans h')

/-- An expression whose nodes were read is put in a slot. -/
theorem Started.slot {e : Expr} {isKey : Bool} (h : Started s t [⟨.expr e, isKey⟩]) :
    Yields (inSlot e) t fun a u => Started s u [⟨.expr a, isKey⟩] :=
  h.counted _

end

/-! ### Reading tokens -/

section

variable {α : Type} {s t : Stream} {xs : List Part} {type : TokenType}

theorem Ready.upcoming_ne_nil (h : Ready s) (htype : s.current.type ≠ .endOfInput) :
    s.upcoming ≠ [] := by
  intro hnil
  cases hfailure : s.failure with
  | none => exact htype (h.last hfailure s.current (by simp [hnil]))
  | some d => exact h.unread (by simp [hfailure]) hnil

/-- Any token but the end of input is taken. -/
theorem Ready.advance (h : Ready s) (htype : s.current.type ≠ .endOfInput) :
    Yields Parse.advance s fun a t => a = s.current ∧ Took s t := by
  obtain ⟨c, upcoming, failure, stop, source, census⟩ := s
  have hsorted := h.sorted
  have hle := h.le
  have hlast := h.last
  have hstop := h.stop_le
  cases upcoming with
  | nil => exact absurd rfl (h.upcoming_ne_nil htype)
  | cons next rest =>
    have hgo (hunread : failure.isSome = true → rest ≠ []) :
        Took ⟨c, next :: rest, failure, stop, source, census⟩
          ⟨next, rest, failure, c.stopPlace, source, census⟩ := by
      have hnext := (List.pairwise_cons.1 hsorted).1 next List.mem_cons_self
      refine ⟨⟨(List.pairwise_cons.1 hsorted).2, fun t ht => hle t (List.mem_cons_of_mem _ ht), ?_,
        hunread, Int.ofNat_le.2 hnext⟩, rfl, rfl, hle c List.mem_cons_self, hnext, hstop⟩
      simpa using hlast
    cases rest with
    | nil =>
      cases failure with
      | none => exact And.intro rfl (hgo nofun)
      | some d => trivial
    | cons after rest =>
      have hnone : after :: rest ≠ [] := List.cons_ne_nil _ _
      cases failure with
      | none => exact And.intro rfl (hgo fun _ => hnone)
      | some d => exact And.intro rfl (hgo fun _ => hnone)

theorem ne_endOfInput (hmark : type.isMark = true) : type ≠ .endOfInput := by
  rintro rfl
  cases hmark

theorem expect_starter (hmark : type.isMark = true) :
    Starter (fun _ => []) (Parse.expect type) := by
  intro s h
  refine .sees fun b hb => ?_
  cases b with
  | false => exact .unexpected
  | true =>
    have htype : s.current.type = type := by simpa using hb.symm
    subst htype
    exact (h.advance (ne_endOfInput hmark)).mono fun _ _ h => h.2.mark hmark

/-- The current token is read if it is the mark. -/
theorem Ready.accept (h : Ready s) (hmark : type.isMark = true) :
    Yields (Parse.accept type) s fun b t => Reads s t [] ∧ (b = true → Started s t []) := by
  refine .sees fun b hb => ?_
  cases b with
  | false => exact .pure ⟨.refl h, nofun⟩
  | true =>
    have htype : s.current.type = type := by simpa using hb.symm
    subst htype
    refine (h.advance (ne_endOfInput hmark)).bind fun _ t hTook => ?_
    have hstarted := hTook.2.mark hmark
    exact .pure ⟨hstarted.toReads, fun _ => hstarted⟩

theorem accept_reader (hmark : type.isMark = true) :
    Reader (fun _ => []) (Parse.accept type) :=
  fun _ h => (h.accept hmark).mono fun _ _ h => h.1

theorem semicolon_reader : Reader (fun _ => []) Parse.semicolon := by
  intro s h
  refine (accept_reader rfl s h).bind fun b t ht => ?_
  cases b with
  | true => exact .pure ht
  | false =>
    refine .current ?_
    split
    · exact .pure ht
    · exact .unexpected

theorem atStatementEnd_reader : Reader (fun _ => []) Parse.atStatementEnd :=
  fun _ h => .current (.pure (.refl h))

theorem name_starter (isKey : Bool) :
    Starter (fun id => [⟨.expr (.ident id), isKey⟩]) Parse.name := by
  intro s h
  refine .current ?_
  split
  case isFalse => exact .unexpected
  case isTrue htype =>
    refine (h.advance (by simp [htype])).bind fun _ t hTook => ?_
    have hleaf : Started s t [⟨.expr (.ident ⟨s.current.span, s.current.value⟩), isKey⟩] :=
      hTook.2.leaf (.name htype (h.le _ List.mem_cons_self) .nil) rfl
    exact hleaf.counted _

/-- The current token is a literal. -/
theorem Ready.literal (h : Ready s) (htype : s.current.type.isValue = true) (isKey : Bool) :
    Yields (do let _ ← Parse.advance; inSlot (← literalAt s.current)) s fun e t =>
      Started s t [⟨.expr e, isKey⟩] := by
  have hend : s.current.type ≠ .endOfInput := fun hend => by
    simp [hend, TokenType.isValue, TokenType.isLiteral] at htype
  refine (h.advance hend).bind fun _ t hTook => ?_
  have hleaf : Started s t [⟨.expr (.literal ⟨s.current.span, s.current.literal,
      s.current.literalValue⟩), isKey⟩] :=
    hTook.2.leaf (.literal htype (h.le _ List.mem_cons_self) .nil) rfl
  exact (hleaf.counted _).counted _

end

/-! ### Rows -/

section

variable {α : Type} {s t : Stream} {roots : α → List Part} {isEnd : Parse Bool}
  {item : Parse α} {K : Stream → Prop}

/-- Items up to where the test holds. -/
theorem manyIn_yields
    (hend : ∀ s, Ready s → Yields isEnd s fun b t => Reads s t [] ∧ (b = true → K t))
    (hitem : Reader roots item) (n : Nat) (h : Ready s) :
    Yields (manyIn isEnd item n) s fun as t => Reads s t (as.flatMap roots) ∧ K t := by
  induction n generalizing s with
  | zero => exact .unexpected
  | succ n ih =>
    refine (hend s h).bind fun b t ht => ?_
    cases b with
    | true => exact .pure ⟨ht.1, ht.2 rfl⟩
    | false =>
      refine (hitem t ht.1.ready).bind fun a u hu => ?_
      refine (ih hu.ready).bind fun as v hv => .pure ⟨?_, hv.2⟩
      rw [List.flatMap_cons]
      exact ht.1.trans (hu.trans hv.1)

theorem many_yields
    (hend : ∀ s, Ready s → Yields isEnd s fun b t => Reads s t [] ∧ (b = true → K t))
    (hitem : Reader roots item) (h : Ready s) :
    Yields (many isEnd item) s fun as t => Reads s t (as.flatMap roots) ∧ K t :=
  .rounds fun n => manyIn_yields hend hitem n h

theorem many_reader (hend : Reader (fun _ => []) isEnd) (hitem : Reader roots item) :
    Reader (·.flatMap roots) (many isEnd item) := by
  have hend' : ∀ s, Ready s → Yields isEnd s fun b t => Reads s t [] ∧ (b = true → True) :=
    fun s h => (hend s h).mono fun _ _ h => ⟨h, fun _ => trivial⟩
  exact fun s h => (many_yields hend' hitem h).mono fun _ _ h => h.1

/-- Items up to a token of the type. -/
theorem many_until {type : TokenType} (hitem : Reader roots item) (h : Ready s) :
    Yields (many (Parse.sees type) item) s fun as t =>
      Reads s t (as.flatMap roots) ∧ t.current.type = type :=
  many_yields (fun s h => .sees (f := pure) fun b hb => .pure
    ⟨.refl h, fun htrue => by simpa [htrue] using hb⟩) hitem h

/-- A value is extended as long as a step applies. -/
theorem Started.extend {step : α → Parse (Option α)}
    (hstep : ∀ a t, Started s t (roots a) → Yields (step a) t fun r u =>
      Started s u (roots (r.getD a)))
    {a : α} (h : Started s t (roots a)) :
    Yields (Parse.extend step a) t fun b u => Started s u (roots b) := by
  have hgo (n : Nat) {a : α} {t : Stream} (h : Started s t (roots a)) :
      Yields (extendIn step n a) t fun b u => Started s u (roots b) := by
    induction n generalizing a t with
    | zero => exact .unexpected
    | succ n ih =>
      refine (hstep a t h).bind fun r u hr => ?_
      cases r with
      | none => exact .pure hr
      | some b => exact ih hr
  exact .rounds fun n => hgo n h

theorem commaSeparated_reader {close : TokenType} (hclose : close.isMark = true)
    (hitem : Reader roots item) :
    Reader (·.flatMap roots) (commaSeparated close item) := by
  have hnext : Reader roots (do let _ ← Parse.expect (.punctuator .comma); item) :=
    fun s h => h.first (expect_starter rfl) fun _ t ht =>
      (hitem t ht.ready).mono fun _ _ hu => ht.toReads.trans hu
  intro s h
  refine (accept_reader hclose s h).bind fun b t ht => ?_
  cases b with
  | true => exact .pure ht
  | false =>
    refine (hitem t ht.ready).bind fun a u hu => ?_
    refine (many_reader (accept_reader hclose) hnext u hu.ready).bind fun as v hv => .pure ?_
    exact ht.trans (hu.trans hv)

end

end Parse

end ScriptOptimizer
