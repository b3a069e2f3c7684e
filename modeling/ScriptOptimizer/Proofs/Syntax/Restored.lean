import Mathlib.Data.List.TakeWhile
import ScriptOptimizer.Proofs.Syntax.Marks

/-!
Taking changes back. Where names were put into slots and statements into bodies, putting literals
into these slots again and removing as many statements gives the outline of the old tree, except for
the texts of literals.
-/

namespace ScriptOptimizer

namespace Outline

/-- Statements without so many after the leading literals. -/
def unsplice (skip : Nat) (body : List Outline) : List Outline :=
  body.takeWhile isDirective ++ (body.dropWhile isDirective).drop skip

/-- What takes changes back: the literals that go into slots, and how many statements leave the
bodies of the program and of functions. -/
structure Undo where
  literal? : Path → Option Literal
  removed : Path → Nat

theorem sizeOf_unsplice (skip : Nat) (body : List Outline) :
    sizeOf (unsplice skip body) ≤ sizeOf body := by
  have hsublist : (unsplice skip body).Sublist body := by
    have h := (List.Sublist.refl (body.takeWhile isDirective)).append
      (List.drop_sublist skip (body.dropWhile isDirective))
    rwa [List.takeWhile_append_dropWhile] at h
  generalize unsplice skip body = rest at hsublist
  induction hsublist with
  | slnil => exact Nat.le_refl _
  | cons o _ ih =>
    simp only [List.cons.sizeOf_spec]
    omega
  | cons_cons o _ ih =>
    simp only [List.cons.sizeOf_spec]
    omega

mutual

/-- The part at a place with changes taken back: a literal keeps the range of the name in its
slot. -/
def restore (u : Undo) (skip : Nat) (place : Path) : Outline → Outline
  | gap vacant => gap vacant
  | node own inSlot parts =>
    match if inSlot then u.literal? place else none with
    | some lit => node (.expr (.literal { lit with span := own.span })) true []
    | none => node own inSlot (restoreAll u own.opensScope place 0 (unsplice skip parts))
termination_by o => sizeOf o
decreasing_by
  have := sizeOf_unsplice skip parts
  simp only [node.sizeOf_spec]
  omega

/-- The parts of one node from a number on with changes taken back. -/
def restoreAll (u : Undo) (inFunction : Bool) (parent : Path) (first : Nat) :
    List Outline → List Outline
  | [] => []
  | o :: rest =>
    o.restore u (if inFunction && o.isBlock then u.removed parent else 0) (first :: parent) ::
      restoreAll u inFunction parent (first + o.count) rest
termination_by list => sizeOf list

end

end Outline

/-- The literal without its text. All numbers that are no numbers count as one. -/
def Literal.plain (lit : Literal) : Literal where
  span := lit.span
  raw := []
  value := match lit.value with
    | .number x => .number (if x.isNaN then ⟨0x7FF8000000000001⟩ else x)
    | value => value

/-- The node without the text of a literal. -/
def Node.plain : Node → Node
  | .expr (.literal lit) => .expr (.literal lit.plain)
  | n => n

namespace Outline

mutual

/-- The outline without the texts of its literals. -/
def plain : Outline → Outline
  | gap vacant => gap vacant
  | node own inSlot parts => node own.plain inSlot (plainAll parts)

/-- The parts without the texts of their literals. -/
def plainAll : List Outline → List Outline
  | [] => []
  | o :: rest => o.plain :: plainAll rest

end

/-- Where a name goes into a slot, a literal of the same value and with the same range comes back;
nothing comes back elsewhere. -/
def Fits (c : Changes) (u : Undo) (list : List Mark) : Prop :=
  ∀ m ∈ list, m.inSlot = true → (c.name? m.place = none → u.literal? m.place = none) ∧
    ∀ id, c.name? m.place = some id → ∃ old lit, m.own = .expr (.literal old) ∧
      m.isLeaf = true ∧ u.literal? m.place = some lit ∧
      Literal.plain { lit with span := id.span } = old.plain

theorem takeWhile_splice {new : List Outline} (hnew : ∀ o ∈ new, o.isDirective = false)
    (body : List Outline) :
    (splice new body).takeWhile isDirective = body.takeWhile isDirective ∧
      (splice new body).dropWhile isDirective = new ++ body.dropWhile isDirective := by
  have hlead : ∀ o ∈ body.takeWhile isDirective, o.isDirective = true :=
    fun o ho => List.mem_takeWhile_imp ho
  have hrest : (new ++ body.dropWhile isDirective).takeWhile isDirective = [] ∧
      (new ++ body.dropWhile isDirective).dropWhile isDirective =
        new ++ body.dropWhile isDirective := by
    cases new with
    | nil =>
      simp only [List.nil_append]
      cases hdrop : body.dropWhile isDirective with
      | nil => simp
      | cons o rest =>
        have ho : o.isDirective = false := by
          have := List.head?_dropWhile_not isDirective body
          simpa [hdrop] using this
        simp [ho]
    | cons o rest => simp [hnew o (by simp)]
  rw [splice, List.append_assoc, List.takeWhile_append_of_pos hlead,
    List.dropWhile_append_of_pos hlead, hrest.1, hrest.2, List.append_nil]
  exact ⟨rfl, rfl⟩

theorem unsplice_splice {new body : List Outline} (hnew : ∀ o ∈ new, o.isDirective = false) :
    unsplice new.length (splice new body) = body := by
  obtain ⟨htake, hdrop⟩ := takeWhile_splice hnew body
  rw [unsplice, htake, hdrop, List.drop_left, List.takeWhile_append_dropWhile]

theorem isBlock_rewrite {c : Changes} {u : Undo} {place : Path} {o : Outline} (new : List Outline)
    (h : Fits c u (o.marks place)) : (o.rewrite c new place).isBlock = o.isBlock := by
  cases o with
  | gap vacant => simp [rewrite]
  | node own inSlot parts =>
    rw [rewrite]
    split
    · rename_i id hname
      cases inSlot with
      | false => simp at hname
      | true =>
        obtain ⟨old, lit, hown, -⟩ :=
          (h ⟨place, own, true, parts.isEmpty⟩ (by simp [marks]) rfl).2 id hname
        rw [show own = _ from hown]
        rfl
    · cases own with
      | stmt s => cases s <;> rfl
      | _ => rfl

theorem Fits.append {c : Changes} {u : Undo} {xs ys : List Mark} (h : Fits c u (xs ++ ys)) :
    Fits c u xs ∧ Fits c u ys :=
  ⟨fun m hm => h m (List.mem_append_left _ hm), fun m hm => h m (List.mem_append_right _ hm)⟩

mutual

/-- Taking the changes back gives the outline again, the texts of literals apart. -/
theorem restore_rewrite {c : Changes} {u : Undo}
    (hremoved : ∀ place, u.removed place = (c.inserted place).length)
    (hinserted : ∀ place, ∀ o ∈ c.inserted place, o.isDirective = false)
    (o : Outline) (new : List Outline) (place : Path)
    (hnew : ∀ o ∈ new, o.isDirective = false) (h : Fits c u (o.marks place)) :
    ((o.rewrite c new place).restore u new.length place).plain = o.plain := by
  cases o with
  | gap vacant => simp [rewrite, restore]
  | node own inSlot parts =>
    have hparts := restoreAll_rewriteAll hremoved hinserted parts own.opensScope place 0
      fun m hm => h m (by simp [marks, hm])
    rw [rewrite]
    split
    · rename_i id hname
      cases inSlot with
      | false => simp at hname
      | true =>
        obtain ⟨old, lit, hown, hleaf, hlit, hplain⟩ :=
          (h ⟨place, own, true, parts.isEmpty⟩ (by simp [marks]) rfl).2 id hname
        obtain rfl : own = _ := hown
        obtain rfl : parts = [] := List.isEmpty_iff.1 hleaf
        have hlit : u.literal? place = some lit := hlit
        simp only [restore, if_true, hlit, plain, Node.plain]
        rw [← hplain]
        rfl
    · rename_i hname
      have hnone : (if inSlot then u.literal? place else none) = none := by
        cases inSlot with
        | false => rfl
        | true => exact (h ⟨place, own, true, parts.isEmpty⟩ (by simp [marks]) rfl).1 hname
      rw [restore, hnone]
      simp only [plain, unsplice_splice hnew, hparts]
termination_by structural o

theorem restoreAll_rewriteAll {c : Changes} {u : Undo}
    (hremoved : ∀ place, u.removed place = (c.inserted place).length)
    (hinserted : ∀ place, ∀ o ∈ c.inserted place, o.isDirective = false)
    (parts : List Outline) (inFunction : Bool) (parent : Path) (first : Nat)
    (h : Fits c u (marksAll parent first parts)) :
    plainAll (restoreAll u inFunction parent first (rewriteAll c inFunction parent first parts)) =
      plainAll parts := by
  cases parts with
  | nil => simp [rewriteAll, restoreAll]
  | cons o rest =>
    rw [marksAll] at h
    obtain ⟨hfirst, hothers⟩ := h.append
    have hrest := restoreAll_rewriteAll hremoved hinserted rest inFunction parent
      (first + o.count) hothers
    have ho := restore_rewrite hremoved hinserted o
      (if inFunction && o.isBlock then c.inserted parent else []) (first :: parent) (by
        split
        · exact hinserted parent
        · simp) hfirst
    have hskip : (if inFunction && o.isBlock then c.inserted parent else []).length =
        if inFunction && o.isBlock then u.removed parent else 0 := by
      rw [hremoved]
      split <;> rfl
    rw [rewriteAll, restoreAll, isBlock_rewrite _ hfirst, count_rewrite, plainAll, plainAll, hrest,
      ← hskip, ho]
termination_by structural parts

end

end Outline

end ScriptOptimizer
