import ScriptOptimizer.Proofs.Parse.Reading
import ScriptOptimizer.Proofs.Syntax.Bare

/-!
Rows of items. The rules for arguments, sequences, objects, arrays and statement lists read their
items in different ways; each way is shown to read the tokens that a row is printed as.
-/

namespace ScriptOptimizer

open Parse

/-- The items after the first one, each behind a comma. -/
def commaTail (items : List (List Spelling)) : List Spelling :=
  items.flatMap fun ws => .mark .comma :: ws

/-- The items with a comma between any two. -/
def commaRow : List (List Spelling) → List Spelling
  | [] => []
  | ws :: others => ws ++ commaTail others

/-- The elements of an array. A comma ends every element but the last; an element that is left out
is ended by a comma also there. -/
def elementRow : List (Option (List Spelling)) → List Spelling
  | [] => []
  | none :: others => .mark .comma :: elementRow others
  | [some ws] => ws
  | some ws :: others => ws ++ .mark .comma :: elementRow others

/-- The rule reads each item in front of what may follow one. -/
def ItemsRead {α ι : Type} (item : Parse α) (good : α → ι → Prop) (follow : List Spelling → Prop)
    (items : List (List Spelling)) (xs : List ι) : Prop :=
  List.Forall₂ (fun ws x => ws ≠ [] ∧ ∀ rest, follow rest → Reads item ws rest (good · x)) items xs

theorem length_le_commaTail {items : List (List Spelling)} {ws : List Spelling} (h : ws ∈ items) :
    ws.length ≤ (commaTail items).length := by
  induction items with
  | nil => cases h
  | cons us items ih =>
    rw [commaTail, List.flatMap_cons, ← commaTail, List.length_append, List.length_cons]
    rcases List.mem_cons.1 h with rfl | hMore
    · omega
    · have := ih hMore
      omega

theorem length_le_commaRow {items : List (List Spelling)} {ws : List Spelling} (h : ws ∈ items) :
    ws.length ≤ (commaRow items).length := by
  cases items with
  | nil => cases h
  | cons us items =>
    rw [commaRow, List.length_append]
    rcases List.mem_cons.1 h with rfl | hMore
    · omega
    · have := length_le_commaTail hMore
      omega

theorem length_le_elementRow {row : List (Option (List Spelling))} {ws : List Spelling}
    (h : some ws ∈ row) : ws.length ≤ (elementRow row).length := by
  fun_induction elementRow row with
  | case1 => cases h
  | case2 row ih =>
    have := ih (by simpa using h)
    rw [List.length_cons]
    omega
  | case3 us =>
    obtain rfl : ws = us := by simpa using h
    exact Nat.le_refl _
  | case4 us row _ ih =>
    rw [List.length_append, List.length_cons]
    rcases List.mem_cons.1 h with hEq | hMore
    · cases hEq
      omega
    · have := ih hMore
      omega

/-- Rows beside each other, with the knowledge that every item is one of its row. -/
theorem forall₂_mem {α β : Type} {r : α → β → Prop} {as : List α} {bs : List β}
    (h : List.Forall₂ r as bs) : List.Forall₂ (fun a b => a ∈ as ∧ r a b) as bs := by
  induction h with
  | nil => exact .nil
  | cons hFirst _ ih =>
    exact .cons ⟨List.mem_cons_self, hFirst⟩
      (ih.imp fun _ _ h => ⟨List.mem_cons_of_mem _ h.1, h.2⟩)

theorem exists_of_forall₂ {α β : Type} {r : α → β → Prop} {as : List α} {bs : List β}
    (h : List.Forall₂ r as bs) {a : α} (ha : a ∈ as) : ∃ b ∈ bs, r a b := by
  induction h with
  | nil => cases ha
  | cons hFirst _ ih =>
    rcases List.mem_cons.1 ha with rfl | hMore
    · exact ⟨_, List.mem_cons_self, hFirst⟩
    · obtain ⟨b, hb, h⟩ := ih hMore
      exact ⟨b, List.mem_cons_of_mem _ hb, h⟩

/-- The rule reads an element of an array, unless the element is left out. -/
def ElementReads (item : Parse Expr) (follow : List Spelling → Prop) :
    Option (List Spelling) → Slot → Prop
  | none, .absent => True
  | some ws, .holds e => ws ≠ [] ∧
    (∀ v, ws.head? = some v → v.type ≠ .punctuator .comma ∧ v.type ≠ .punctuator .rightBracket) ∧
    ∀ rest, follow rest → Reads item ws rest (·.bare = e.bare)
  | _, _ => False

namespace Rows

variable {α ι : Type} {item : Parse α} {good : α → ι → Prop} {follow : List Spelling → Prop}
  {items : List (List Spelling)} {xs : List ι} {w : Spelling} {rest : List Spelling}
  (hComma : ∀ more, follow (.mark .comma :: more)) (hEnd : follow (w :: rest))

include hComma hEnd

theorem follow_commaTail (items : List (List Spelling)) :
    follow (commaTail items ++ w :: rest) := by
  cases items with
  | nil => exact hEnd
  | cons ws items => exact hComma _

theorem commas (h : ItemsRead item good follow items xs) {close : TokenType}
    (hClose : close ≠ .punctuator .comma) (hw : w.type = close) :
    Repeats (accept close) (do let _ ← expect (.punctuator .comma); item) good
      (commaTail items ++ [w]) rest xs := by
  induction h with
  | nil => exact .done (accept_reads hw)
  | @cons ws x items xs hItem _ ih =>
    have hGo : Reads (accept close) []
        (Spelling.mark .comma :: ws ++ (commaTail items ++ [w] ++ rest))
        (· = false) := accept_passes hClose.symm
    have hFirst : Reads (do let _ ← expect (.punctuator .comma); item) (.mark .comma :: ws)
        (commaTail items ++ [w] ++ rest) (good · x) := by
      refine Reads.token (expect_reads rfl) fun _ _ => hItem.2 _ ?_
      rw [List.append_assoc]
      exact follow_commaTail hComma hEnd items
    have := Repeats.more hGo (List.cons_ne_nil _ _) hFirst ih
    simpa [commaTail] using this

/-- Items between a token that was read and a closing one. -/
theorem commaSeparated_reads (h : ItemsRead item good follow items xs) {close : TokenType}
    (hFirst : ∀ ws ∈ items, ∀ v, ws.head? = some v → v.type ≠ close)
    (hClose : close ≠ .punctuator .comma) (hw : w.type = close) :
    Reads (commaSeparated close item) (commaRow items ++ [w]) rest
      fun as => List.Forall₂ good as xs := by
  cases h with
  | nil =>
    refine Reads.token (accept_reads hw) fun b hb => ?_
    subst hb
    exact Reads.pure .nil
  | @cons ws x items xs hItem hItems =>
    obtain ⟨v, ws, rfl⟩ := List.exists_cons_of_ne_nil hItem.1
    have hOpen : v.type ≠ close := hFirst _ List.mem_cons_self v rfl
    refine Reads.still (accept_passes hOpen) fun b hb => ?_
    subst hb
    rw [commaRow, List.append_assoc]
    refine Reads.bind (hItem.2 _ ?_) fun a ha => ?_
    · rw [List.append_assoc]
      exact follow_commaTail hComma hEnd items
    refine Reads.last (commas hComma hEnd hItems hClose hw).many fun as has => Reads.pure ?_
    exact .cons ha has

/-- Items after a first one, as long as there are commas. -/
theorem whileCommas (h : ItemsRead item good follow items xs)
    (hNext : w.type ≠ .punctuator .comma) :
    Repeats (return !(← accept (.punctuator .comma))) item good (commaTail items) (w :: rest)
      xs := by
  induction h with
  | nil =>
    refine .done (Reads.still (accept_passes hNext) fun b hb => ?_)
    subst hb
    exact Reads.pure rfl
  | @cons ws x items xs hItem _ ih =>
    have hGo : Reads (return !(← accept (.punctuator .comma))) [.mark .comma]
        (ws ++ (commaTail items ++ w :: rest)) (· = false) := by
      refine Reads.token (accept_reads rfl) fun b hb => ?_
      subst hb
      exact Reads.pure rfl
    have hFirst := hItem.2 _ (follow_commaTail hComma hEnd items)
    have := Repeats.more hGo hItem.1 hFirst ih
    simpa [commaTail] using this

omit hComma hEnd in
theorem withComma_comma {β : Type} {f : α → β} {ready : α → Prop} {goal : β → Prop}
    {ws : List Spelling} {close : TokenType} (hClose : close ≠ .punctuator .comma)
    (hItem : Reads item ws (.mark .comma :: rest) ready) (hGoal : ∀ a, ready a → goal (f a)) :
    Reads (withComma item close f) (ws ++ [Spelling.mark .comma]) rest goal := by
  refine Reads.bind hItem fun a ha => Reads.still (sees_reads close) fun b hb => ?_
  subst hb
  have hOpen : (Spelling.mark .comma).type ≠ close := hClose.symm
  rw [decide_eq_false hOpen]
  exact Reads.token (expect_reads rfl) fun _ _ => Reads.pure (hGoal a ha)

omit hComma hEnd in
theorem withComma_close {β : Type} {f : α → β} {ready : α → Prop} {goal : β → Prop}
    {ws : List Spelling} {close : TokenType} (hw : w.type = close)
    (hItem : Reads item ws (w :: rest) ready) (hGoal : ∀ a, ready a → goal (f a)) :
    Reads (withComma item close f) ws (w :: rest) goal := by
  refine Reads.last hItem fun a ha => Reads.still (sees_reads close) fun b hb => ?_
  subst hb
  rw [decide_eq_true hw]
  exact Reads.pure (hGoal a ha)

/-- Items that take the comma after them along. -/
theorem takingCommas (h : ItemsRead item good follow items xs) {close : TokenType}
    (hFirst : ∀ ws ∈ items, ∀ v, ws.head? = some v → v.type ≠ close)
    (hClose : close ≠ .punctuator .comma) (hw : w.type = close) :
    Repeats (accept close) (withComma item close id) good (commaRow items ++ [w]) rest xs := by
  induction h with
  | nil => exact .done (accept_reads hw)
  | @cons ws x items xs hItem hItems ih =>
    obtain ⟨v, ws, rfl⟩ := List.exists_cons_of_ne_nil hItem.1
    have hOpen : v.type ≠ close := hFirst _ List.mem_cons_self v rfl
    have ih := ih fun ws hws => hFirst ws (List.mem_cons_of_mem _ hws)
    have hGo (more : List Spelling) : Reads (accept close) [] (v :: more) (· = false) :=
      accept_passes hOpen
    cases items with
    | nil =>
      have hLast : Reads (withComma item close id) (v :: ws) (w :: rest) (good · x) :=
        withComma_close hw (hItem.2 _ hEnd) fun _ ha => ha
      have := Repeats.more (hGo _) hItem.1 hLast ih
      simpa [commaRow, commaTail] using this
    | cons next others =>
      have hMore : Reads (withComma item close id) (v :: ws ++ [Spelling.mark .comma])
          (commaRow (next :: others) ++ [w] ++ rest) (good · x) :=
        withComma_comma hClose (hItem.2 _ (hComma _)) fun _ ha => ha
      have := Repeats.more (hGo _) (by simp) hMore ih
      simpa [commaRow, commaTail] using this

omit hComma hEnd in
/-- An element that is there, with the comma after it if there is one. -/
theorem element_reads {item : Parse Expr} {v : Spelling} {ws more : List Spelling} {x : Slot}
    (hComma : v.type ≠ .punctuator .comma)
    (h : Reads (withComma item (.punctuator .rightBracket) .holds) (v :: ws) more
      (Alike Slot.bare · x)) :
    Reads (element item) (v :: ws) more (Alike Slot.bare · x) := by
  refine Reads.still (accept_passes hComma) fun b hb => ?_
  subst hb
  exact h

/-- Elements that take the comma after them along, where a comma alone leaves one out. -/
theorem elements {item : Parse Expr} {row : List (Option (List Spelling))} {xs : List Slot}
    (h : List.Forall₂ (ElementReads item follow) row xs) (hw : w.type = .punctuator .rightBracket) :
    Repeats (accept (.punctuator .rightBracket)) (element item) (Alike Slot.bare)
      (elementRow row ++ [w]) rest xs := by
  induction h with
  | nil => exact .done (accept_reads hw)
  | @cons o x row xs hItem hItems ih =>
    have hGo (v : Spelling) (more : List Spelling) (hv : v.type ≠ .punctuator .rightBracket) :
        Reads (accept (.punctuator .rightBracket)) [] (v :: more) (· = false) := accept_passes hv
    match o, x, hItem with
    | none, .absent, _ =>
      have hHole : Reads (element item) [.mark .comma] (elementRow row ++ [w] ++ rest)
          (Alike Slot.bare · .absent) := by
        refine Reads.token (accept_reads rfl) fun b hb => ?_
        subst hb
        exact Reads.pure rfl
      exact Repeats.more (hGo (.mark .comma) _ (by simp [Spelling.mark])) (by simp) hHole ih
    | some ws, .holds e, ⟨hne, hFirst, hRead⟩ =>
      obtain ⟨v, ws, rfl⟩ := List.exists_cons_of_ne_nil hne
      obtain ⟨hNoComma, hNoClose⟩ := hFirst v rfl
      have hHolds (a : Expr) (ha : a.bare = e.bare) : Alike Slot.bare (.holds a) (.holds e) := by
        rw [Alike, Slot.bare, Slot.bare, ha]
      cases row with
      | nil =>
        have hLast : Reads (withComma item (.punctuator .rightBracket) .holds) (v :: ws)
            (w :: rest) (Alike Slot.bare · (.holds e)) := withComma_close hw (hRead _ hEnd) hHolds
        have := Repeats.more (hGo v _ hNoClose) (by simp) (element_reads hNoComma hLast) ih
        simpa [elementRow] using this
      | cons next others =>
        have hMore : Reads (withComma item (.punctuator .rightBracket) .holds)
            (v :: ws ++ [Spelling.mark .comma]) (elementRow (next :: others) ++ [w] ++ rest)
            (Alike Slot.bare · (.holds e)) := withComma_comma (by simp) (hRead _ (hComma _)) hHolds
        have := Repeats.more (hGo v _ hNoClose) (by simp) (element_reads hNoComma hMore) ih
        simpa [elementRow] using this

end Rows

end ScriptOptimizer
