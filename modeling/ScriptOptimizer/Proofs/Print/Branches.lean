import ScriptOptimizer.Proofs.Print.Operand

/-!
Trees whose branches may end in an `if` that waits for its `else`. A text does not say which `if` an
`else` belongs to: it is heard with the innermost that has none. `Stmt.reread` is the tree as it is
heard from its printed text, and the two are the same but for blocks around first branches exactly
if no other first branch than an `if` ends open in front of an `else`.
-/

namespace ScriptOptimizer

namespace Stmt

/-! ### How an `else` is heard -/

/-- The statement with an alternate for the innermost `if` at its end that has none. -/
def attach : Stmt → Stmt → Stmt
  | .conditional span test y .absent, n =>
    if y.endsOpen then .conditional span test (y.attach n) .absent else .conditional span test y n
  | .conditional span test y no, n => .conditional span test y (no.attach n)
  | .labeled span label b, n => .labeled span label (b.attach n)
  | .withObject span object b, n => .withObject span object (b.attach n)
  | .whileLoop span test b, n => .whileLoop span test (b.attach n)
  | .forLoop span init test update b, n => .forLoop span init test update (b.attach n)
  | .forIn span left right b, n => .forIn span left right (b.attach n)
  | s, _ => s

mutual

/-- The statement as it is heard from its text. An open `if` in front of an `else` is put in a block
when it is printed; any other first branch that is heard to end open takes the `else`. -/
def reread : Stmt → Stmt
  | .conditional span test y .absent => .conditional span test y.reread .absent
  | .conditional span test y n =>
    if Print.isOpenIf y then .conditional span test (.block .none [y.reread]) n.reread
    else if y.reread.endsOpen then .conditional span test (y.reread.attach n.reread) .absent
    else .conditional span test y.reread n.reread
  | .block span list => .block span (rereads list)
  | .labeled span label b => .labeled span label b.reread
  | .withObject span object b => .withObject span object b.reread
  | .whileLoop span test b => .whileLoop span test b.reread
  | .forLoop span init test update b => .forLoop span init test update b.reread
  | .forIn span left right b => .forIn span left right b.reread
  | s => s

/-- The statements as they are heard from their text. -/
def rereads : List Stmt → List Stmt
  | [] => []
  | s :: rest => s.reread :: rereads rest

end

theorem rereads_eq_map (list : List Stmt) : rereads list = list.map reread := by
  induction list with
  | nil => rfl
  | cons s rest ih => rw [rereads, ih, List.map_cons]

mutual

/-- Does every `else` stand behind a first branch that ends closed or is an open `if` itself? -/
def keepsElses : Stmt → Bool
  | .conditional _ _ y n =>
    (!n.isPresent || !y.endsOpen || Print.isOpenIf y) && y.keepsElses && n.keepsElses
  | .block _ list => keepAllElses list
  | .labeled _ _ b | .withObject _ _ b | .whileLoop _ _ b | .forLoop _ _ _ _ b | .forIn _ _ _ b =>
    b.keepsElses
  | _ => true

/-- Does every `else` in the statements stand so? -/
def keepAllElses : List Stmt → Bool
  | [] => true
  | s :: rest => s.keepsElses && keepAllElses rest

end

theorem keepAllElses_iff {list : List Stmt} :
    keepAllElses list = true ↔ ∀ s ∈ list, s.keepsElses = true := by
  induction list with
  | nil => simp [keepAllElses]
  | cons s rest ih => simp [keepAllElses, ih]

mutual

/-- Is no label in the statement nested inside itself or inside one of these labels? -/
def labelsApart : Stmt → List Bytes → Bool
  | .conditional _ _ y n, labels => y.labelsApart labels && n.labelsApart labels
  | .block _ list, labels => allLabelsApart list labels
  | .labeled _ (some id) b, labels => !labels.contains id.name && b.labelsApart (id.name :: labels)
  | .labeled _ none b, labels | .withObject _ _ b, labels | .whileLoop _ _ b, labels
  | .forLoop _ _ _ _ b, labels | .forIn _ _ _ b, labels => b.labelsApart labels
  | _, _ => true

/-- Is no label in the statements nested so? -/
def allLabelsApart : List Stmt → List Bytes → Bool
  | [], _ => true
  | s :: rest, labels => s.labelsApart labels && allLabelsApart rest labels

end

theorem allLabelsApart_iff {list : List Stmt} {labels : List Bytes} :
    allLabelsApart list labels = true ↔ ∀ s ∈ list, s.labelsApart labels = true := by
  induction list with
  | nil => simp [allLabelsApart]
  | cons s rest ih => simp [allLabelsApart, ih]

/-! ### Trees up to blocks around first branches -/

/-- What a block of one statement holds, and any other statement itself. -/
def unblock : Stmt → Stmt
  | .block _ [s] => s
  | s => s

mutual

/-- The statement without the blocks of one statement around first branches. -/
def unblocked : Stmt → Stmt
  | .conditional span test y n => .conditional span test y.unblocked.unblock n.unblocked
  | .block span list => .block span (allUnblocked list)
  | .labeled span label b => .labeled span label b.unblocked
  | .withObject span object b => .withObject span object b.unblocked
  | .whileLoop span test b => .whileLoop span test b.unblocked
  | .forLoop span init test update b => .forLoop span init test update b.unblocked
  | .forIn span left right b => .forIn span left right b.unblocked
  | s => s

/-- The statements without such blocks. -/
def allUnblocked : List Stmt → List Stmt
  | [] => []
  | s :: rest => s.unblocked :: allUnblocked rest

end

theorem allUnblocked_eq_map (list : List Stmt) : allUnblocked list = list.map unblocked := by
  induction list with
  | nil => rfl
  | cons s rest ih => rw [allUnblocked, ih, List.map_cons]

/-- The statement without places and without the blocks of one statement around first branches. -/
def shape (s : Stmt) : Stmt := s.bare.unblocked

theorem shape_block (span : Span) (list : List Stmt) :
    (Stmt.block span list).shape = .block .none (list.map shape) := by
  rw [shape, bare, unblocked, bares_eq_map, allUnblocked_eq_map, List.map_map]
  rfl

theorem shape_conditional (span : Span) (test : Slot) (y n : Stmt) :
    (Stmt.conditional span test y n).shape =
      .conditional .none test.bare y.shape.unblock n.shape := by
  rw [shape, bare, unblocked]
  rfl

/-! ### The statements in question -/

end Stmt

/-- Is it a name that can be written? -/
def Slot.IsName (s : Slot) : Prop := ∃ id : Ident, s = .holds (.ident id) ∧ id.Writable

/-- Statements of branches, loops with a test in front, `with`, labels, blocks and expression
statements, in which every expression is a name. Parts of a loop head may be left out. -/
inductive Stmt.Branching : Stmt → Prop
  | expression {e : Slot} (span : Span) : e.IsName → Branching (.expression span e)
  | block {list : List Stmt} (span : Span) : (∀ s ∈ list, Branching s) →
      Branching (.block span list)
  | conditional {test : Slot} {y : Stmt} (span : Span) : test.IsName → Branching y →
      Branching (.conditional span test y .absent)
  | conditionalElse {test : Slot} {y n : Stmt} (span : Span) : test.IsName → Branching y →
      Branching n → Branching (.conditional span test y n)
  | labeled {id : Ident} {b : Stmt} (span : Span) : id.Writable → Branching b →
      Branching (.labeled span (some id) b)
  | withObject {object : Slot} {b : Stmt} (span : Span) : object.IsName → Branching b →
      Branching (.withObject span object b)
  | whileLoop {test : Slot} {b : Stmt} (span : Span) : test.IsName → Branching b →
      Branching (.whileLoop span test b)
  | forLoop {init : ForHead} {test update : Slot} {b : Stmt} (span : Span) :
      (init = .absent ∨ ∃ s : Slot, init = .expression s ∧ s.IsName) →
      (test = .absent ∨ test.IsName) → (update = .absent ∨ update.IsName) → Branching b →
      Branching (.forLoop span init test update b)
  | forIn {left right : Slot} {b : Stmt} (span : Span) : left.IsName → right.IsName →
      Branching b → Branching (.forIn span (.expression left) right b)

namespace Stmt

variable {s y n : Stmt} {labels : List Bytes}

theorem Branching.ne_absent (h : s.Branching) : s ≠ .absent := by
  rintro rfl
  cases h

theorem Branching.isPresent (h : s.Branching) : s.isPresent = true := by
  cases h <;> rfl

theorem attach_conditional {span : Span} {test : Slot} {m : Stmt} (h : n ≠ .absent) :
    (Stmt.conditional span test y n).attach m = .conditional span test y (n.attach m) := by
  cases n with
  | absent => exact absurd rfl h
  | _ => rw [attach]; exact nofun

theorem reread_conditional {span : Span} {test : Slot} (h : n ≠ .absent) :
    (Stmt.conditional span test y n).reread =
      if Print.isOpenIf y then .conditional span test (.block .none [y.reread]) n.reread
      else if y.reread.endsOpen then .conditional span test (y.reread.attach n.reread) .absent
      else .conditional span test y.reread n.reread := by
  cases n with
  | absent => exact absurd rfl h
  | _ => rw [reread]; exact nofun

theorem isOpenIf_iff :
    Print.isOpenIf s = true ↔ ∃ span test y, s = .conditional span test y .absent := by
  constructor
  · intro h
    unfold Print.isOpenIf at h
    split at h
    case h_1 => exact ⟨_, _, _, rfl⟩
    case h_2 => cases h
  · rintro ⟨span, test, y, rfl⟩
    rfl

theorem Branching.reread_ne_absent (h : s.Branching) : s.reread ≠ .absent := by
  cases h with
  | conditionalElse span _ _ hNo =>
    rw [reread_conditional hNo.ne_absent]
    split_ifs <;> simp
  | _ => simp [reread]

theorem Branching.shape_ne_absent (h : s.Branching) : s.shape ≠ .absent := by
  cases h <;> simp [shape, bare, unblocked]

/-- What ends open is heard to end open. -/
theorem Branching.endsOpen_reread (h : s.Branching) (hOpen : s.endsOpen = true) :
    s.reread.endsOpen = true := by
  induction h with
  | expression | block => cases hOpen
  | conditional => rfl
  | @conditionalElse test y n span _ _ hNo _ ih =>
    rw [ReadsStmt.endsOpen_conditional hNo.ne_absent] at hOpen
    have hNext := ih hOpen
    rw [reread_conditional hNo.ne_absent]
    split_ifs
    · rwa [ReadsStmt.endsOpen_conditional hNo.reread_ne_absent]
    · rfl
    · rwa [ReadsStmt.endsOpen_conditional hNo.reread_ne_absent]
  | labeled _ _ _ ih | withObject _ _ _ ih | whileLoop _ _ _ ih | forLoop _ _ _ _ _ ih
  | forIn _ _ _ _ ih => exact ih hOpen

/-- How a conditional is heard of which every `else` stays with its `if`. -/
theorem Branching.reread_kept {span : Span} {test : Slot} (hNo : n.Branching)
    (hKept : (Stmt.conditional span test y n).keepsElses = true)
    (hClosed : y.endsOpen = false → y.reread.endsOpen = false) :
    (Stmt.conditional span test y n).reread = .conditional span test
      (if Print.isOpenIf y then .block .none [y.reread] else y.reread) n.reread := by
  rw [reread_conditional hNo.ne_absent]
  simp only [keepsElses, hNo.isPresent, Bool.not_true, Bool.false_or, Bool.and_eq_true,
    Bool.or_eq_true, Bool.not_eq_true'] at hKept
  by_cases hIf : Print.isOpenIf y = true
  · rw [if_pos hIf, if_pos hIf]
  · rw [if_neg hIf, if_neg hIf, hClosed (hKept.1.1.resolve_right hIf)]
    rfl

theorem Branching.endsOpen_kept (h : s.Branching) (hKept : s.keepsElses = true) :
    s.reread.endsOpen = s.endsOpen := by
  induction h with
  | expression | block => rfl
  | conditional => rfl
  | @conditionalElse test y n span _ _ hNo ihYes ihNo =>
    have hParts := hKept
    simp only [keepsElses, Bool.and_eq_true] at hParts
    rw [hNo.reread_kept hKept fun hClosed => (ihYes hParts.1.2).trans hClosed,
      ReadsStmt.endsOpen_conditional hNo.ne_absent,
      ReadsStmt.endsOpen_conditional hNo.reread_ne_absent, ihNo hParts.2]
  | labeled _ _ _ ih | withObject _ _ _ ih | whileLoop _ _ _ ih | forLoop _ _ _ _ _ ih
  | forIn _ _ _ _ ih => exact ih hKept

/-- Where every `else` stays with its `if`, no label comes to stand inside itself. -/
theorem Branching.labelsApart_reread (h : s.Branching) (hKept : s.keepsElses = true)
    (hLabels : s.labelsApart labels = true) : s.reread.labelsApart labels = true := by
  induction h generalizing labels with
  | expression => rfl
  | @block list span _ ih =>
    rw [labelsApart, allLabelsApart_iff] at hLabels
    rw [keepsElses, keepAllElses_iff] at hKept
    rw [reread, labelsApart, allLabelsApart_iff, rereads_eq_map, List.forall_mem_map]
    exact fun s hs => ih s hs (hKept s hs) (hLabels s hs)
  | conditional span _ _ ih =>
    simp only [keepsElses, labelsApart, Bool.and_eq_true] at hKept hLabels
    simpa [reread, labelsApart] using ih hKept.1.2 hLabels.1
  | @conditionalElse test y n span _ hYes hNo ihYes ihNo =>
    have hParts := hKept
    simp only [keepsElses, labelsApart, Bool.and_eq_true] at hParts hLabels
    have hYes' := ihYes hParts.1.2 hLabels.1
    rw [hNo.reread_kept hKept fun hClosed => (hYes.endsOpen_kept hParts.1.2).trans hClosed,
      labelsApart, ihNo hParts.2 hLabels.2, Bool.and_true]
    split_ifs
    · simpa [labelsApart, allLabelsApart] using hYes'
    · exact hYes'
  | labeled span _ _ ih =>
    simp only [labelsApart, Bool.and_eq_true] at hLabels
    rw [reread, labelsApart, hLabels.1, Bool.true_and]
    exact ih hKept hLabels.2
  | withObject _ _ _ ih | whileLoop _ _ _ ih | forLoop _ _ _ _ _ ih | forIn _ _ _ _ ih =>
    exact ih hKept hLabels

/-! ### What is heard where every `else` stays with its `if` -/

theorem unblock_of_ne (h : ∀ span list, s ≠ .block span list) : s.shape.unblock = s.shape := by
  cases s with
  | block span list => exact absurd rfl (h span list)
  | _ => simp [shape, bare, unblocked, unblock]

/-- A block around a branch does not matter. -/
theorem Branching.unblock_reread (h : y.Branching) :
    y.reread.shape.unblock = y.shape.unblock ↔ y.reread.shape = y.shape := by
  cases h with
  | @block list span =>
    rw [reread, shape_block, shape_block, rereads_eq_map, List.map_map]
    match list with
    | [] => rfl
    | [s] => simp [unblock]
    | s :: s' :: rest => rfl
  | conditionalElse span hTest hYes hNo =>
    rw [unblock_of_ne (by rw [reread_conditional hNo.ne_absent]; split_ifs <;> simp),
      unblock_of_ne (by simp)]
  | _ => rw [unblock_of_ne (by simp [reread]), unblock_of_ne (by simp)]

/-- A statement is heard as itself, but for blocks around first branches, exactly if every `else`
stays with its `if`. -/
theorem Branching.shape_reread_iff (h : s.Branching) :
    s.reread.shape = s.shape ↔ s.keepsElses = true := by
  induction h with
  | expression => simp [reread, keepsElses]
  | @block list span _ ih =>
    rw [reread, shape_block, shape_block, keepsElses, keepAllElses_iff, rereads_eq_map]
    simp only [block.injEq, true_and, List.map_map, List.map_inj_left, Function.comp]
    exact forall₂_congr ih
  | @conditional test y span _ hYes ih =>
    rw [reread, shape_conditional, shape_conditional, conditional.injEq, hYes.unblock_reread, ih]
    simp [keepsElses, show Stmt.absent.isPresent = false from rfl]
  | @conditionalElse test y n span _ hYes hNo ihYes ihNo =>
    have hPresent : n.isPresent = true := hNo.isPresent
    rw [reread_conditional hNo.ne_absent, keepsElses]
    split_ifs with hIf hOpen
    · -- the block that the printer puts around the first branch does not matter
      obtain ⟨place, test', y', rfl⟩ := isOpenIf_iff.1 hIf
      rw [shape_conditional, shape_conditional, shape_block, conditional.injEq,
        unblock_of_ne (s := .conditional place test' y' .absent) (by simp), ihNo]
      simp [unblock, ihYes, hIf]
    · -- the `else` goes to an `if` in the first branch, and the outer one has none
      rw [shape_conditional, shape_conditional, conditional.injEq]
      refine iff_of_false (fun hEq => hNo.shape_ne_absent hEq.2.2.2.symm) fun hKept => ?_
      simp only [hPresent, hIf, Bool.not_true, Bool.false_or, Bool.or_false, Bool.and_eq_true,
        Bool.not_eq_true'] at hKept
      rw [hYes.endsOpen_kept hKept.1.2, hKept.1.1] at hOpen
      cases hOpen
    · have hClosed : y.endsOpen = false :=
        Bool.eq_false_iff.2 fun hEnds => hOpen (hYes.endsOpen_reread hEnds)
      rw [shape_conditional, shape_conditional, conditional.injEq, hYes.unblock_reread, ihYes, ihNo]
      simp [hClosed]
  | labeled _ _ _ ih | withObject _ _ _ ih | whileLoop _ _ _ ih | forLoop _ _ _ _ _ ih
  | forIn _ _ _ _ ih =>
    rw [reread, keepsElses, ← ih]
    simp [shape, bare, unblocked]

end Stmt

end ScriptOptimizer
