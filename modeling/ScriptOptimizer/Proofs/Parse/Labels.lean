import ScriptOptimizer.Pattern.Check
import ScriptOptimizer.Proofs.Parse.WellFormed

/-!
Where a labelled `continue` goes. Labels and loops are checked apart from each other: the label is
that of one statement around, and there is a loop around, but the label need not be the loop's. If
it is, the `continue` stands in that loop.
-/

namespace ScriptOptimizer

/-- The statement behind all labels in front of it. -/
def Stmt.unlabeled : Stmt → Stmt
  | .labeled _ _ body => body.unlabeled
  | s => s

namespace Program

variable {p : Program} {around : List Node} {n : Node}

/-- Of a node and the nodes around it each is a child of the next. -/
theorem Has.isChain (hHas : p.Has around n) :
    (n :: around).IsChain fun m parent => ∃ c ∈ parent.children, c.node = m := by
  induction hHas with
  | root => exact .singleton _
  | child _ hChild ih => exact List.isChain_cons_cons.2 ⟨⟨_, hChild, rfl⟩, ih⟩

/-- What stands in a labelled statement stands in the statement behind all its labels. -/
theorem Has.unlabeled_mem {span : Span} {label : Option Ident}
    (hHas : p.Has around (.stmt (.continueTo span label))) {s : Stmt} {front back : List Node}
    (hPath : .stmt (.continueTo span label) :: around = front ++ .stmt s :: back) :
    Node.stmt s.unlabeled ∈ front ++ [Node.stmt s] := by
  -- A name has no children, so nothing on the way to the node is the label itself.
  have hChain := hHas.isChain
  rw [hPath] at hChain
  fun_induction Stmt.unlabeled s generalizing front back with
  | case1 labelSpan name body ih =>
    rcases List.eq_nil_or_concat front with rfl | ⟨inside, m, rfl⟩
    · cases (List.cons.inj hPath).1
    rw [List.concat_append] at hPath hChain
    obtain ⟨c, hc, rfl⟩ := (List.isChain_append_cons_cons.1 hChain).2.1
    rcases List.mem_append.1 hc with hName | hBody
    · exfalso
      cases name with
      | none => cases hName
      | some id =>
        obtain rfl := List.mem_singleton.1 hName
        rcases List.eq_nil_or_concat inside with rfl | ⟨inside, k, rfl⟩
        · cases (List.cons.inj hPath).1
        · rw [List.concat_append] at hChain
          obtain ⟨c, hc, -⟩ := (List.isChain_append_cons_cons.1 hChain).2.1
          cases hc
    · unfold Child.stmt at hBody
      split at hBody
      · obtain rfl := List.mem_singleton.1 hBody
        rw [List.concat_eq_append]
        exact List.mem_append_left _ (ih hPath hChain)
      · cases hBody
  | case2 s => simp

/-- Of the labels around a node in the same function no two are the same. -/
theorem WellFormed.labels_apart (h : p.WellFormed) (hHas : p.Has around n) :
    (Node.own around).Pairwise fun m parent => ∀ name, m.label? = some name →
      parent.label? ≠ some name := by
  induction hHas with
  | root => exact .nil
  | @child around n c hHas _ ih =>
    rw [Node.own_cons]
    split
    · exact .nil
    · refine List.pairwise_cons.2 ⟨fun parent hParent name hName => ?_, ih⟩
      cases n with
      | stmt s => exact h.labels hHas hName parent hParent
      | _ => cases hName

/-- In a program that is read every labelled `continue` stands, in its function, in a loop and in
exactly one statement with its label. If behind all labels that statement is a loop, then the
`continue` stands in this loop. -/
theorem continues_labelled [PatternCheck] {source : Source} {p : Program} (h : parse source = .ok p)
    {around : List Node} {span : Span} {id : Ident}
    (hHas : p.Has around (.stmt (.continueTo span (some id)))) :
    (∃ n ∈ Node.own around, n.isLoop = true) ∧
    ∃ inside outside labelSpan label body,
      Node.own around = inside ++ .stmt (.labeled labelSpan (some label) body) :: outside ∧
      label.name = id.name ∧ (∀ n ∈ inside ++ outside, n.label? ≠ some id.name) ∧
      ((Node.stmt body.unlabeled).isLoop = true → .stmt body.unlabeled ∈ inside) := by
  have hFormed := Program.wellFormed_of_formed (Program.formed_any h)
  refine ⟨hFormed.continues hHas, ?_⟩
  obtain ⟨n, hn, hLabel⟩ := hFormed.continueLabels hHas
  obtain ⟨labelSpan, label, body, rfl⟩ : ∃ labelSpan label body,
      n = .stmt (.labeled labelSpan (some label) body) := by
    unfold Node.label? at hLabel
    split at hLabel
    · exact ⟨_, _, _, rfl⟩
    · cases hLabel
  obtain ⟨inside, outside, hOwn⟩ := List.append_of_mem hn
  refine ⟨inside, outside, labelSpan, label, body, hOwn, Option.some.inj hLabel, ?_,
    fun hLoop => ?_⟩
  · have hApart := hFormed.labels_apart hHas
    rw [hOwn] at hApart
    obtain ⟨-, hOutside, hInside⟩ := List.pairwise_append.1 hApart
    refine List.forall_mem_append.2 ⟨fun m hm hName => ?_, fun m hm => ?_⟩
    · exact hInside m hm _ List.mem_cons_self _ hName hLabel
    · exact (List.pairwise_cons.1 hOutside).1 m hm _ hLabel
  · obtain ⟨rest, hRest⟩ := List.takeWhile_prefix (l := around) fun n => !n.isFunction
    have hPath : .stmt (.continueTo span (some id)) :: around =
        (.stmt (.continueTo span (some id)) :: inside) ++
          .stmt (.labeled labelSpan (some label) body) :: (outside ++ rest) := by
      rw [← hRest, ← Node.own, hOwn]
      simp
    have hMem := hHas.unlabeled_mem hPath
    rw [Stmt.unlabeled] at hMem
    -- Neither the `continue` nor the labelled statement is a loop.
    rcases List.mem_append.1 hMem with hInside | hSelf
    · refine (List.mem_cons.1 hInside).resolve_left fun hEq => ?_
      rw [hEq] at hLoop
      cases hLoop
    · rw [List.mem_singleton.1 hSelf] at hLoop
      cases hLoop

/-- Is it one loop with a `continue` in it, behind two labels? -/
def isLoopLabelledTwice : Except Diagnostic Program → Bool
  | .ok ⟨_, [.labeled _ _ (.labeled _ _ (.whileLoop _ _ (.continueTo _ (some _))))]⟩ => true
  | _ => false

/-- The first of two labels of a loop. -/
theorem continues_labelled_twice :
    ∃ p around span id loop,
      parse (Source.inline (Bytes.ofString "L:M:while(a)continue L")) = .ok p ∧
      p.Has around (.stmt (.continueTo span (some id))) ∧ loop ∈ Node.own around ∧
      loop.isLoop = true := by
  have hShape : isLoopLabelledTwice (parse (Source.inline (Bytes.ofString
      "L:M:while(a)continue L"))) = true := by decide +kernel
  unfold isLoopLabelledTwice at hShape
  split at hShape
  · rename_i whole outer label inner second loop test span id hParse
    have hRoot := Has.root (p := ⟨whole, [.labeled outer label (.labeled inner second
      (.whileLoop loop test (.continueTo span (some id))))]⟩)
    have hOuter := hRoot.child (c := ⟨.stmt (.labeled ..), false⟩) List.mem_cons_self
    have hInner := hOuter.child (c := ⟨.stmt (.labeled ..), false⟩)
      (List.mem_append_right _ List.mem_cons_self)
    have hLoop := hInner.child (c := ⟨.stmt (.whileLoop ..), false⟩)
      (List.mem_append_right _ List.mem_cons_self)
    have hHas := hLoop.child (c := ⟨.stmt (.continueTo ..), false⟩)
      (List.mem_append_right _ List.mem_cons_self)
    obtain ⟨⟨n, hMem, hIs⟩, -⟩ := continues_labelled hParse hHas
    exact ⟨_, _, _, _, n, hParse, hHas, hMem, hIs⟩
  · cases hShape

/-- Is it a labelled block of one loop with a `continue` in it? -/
def isLoopInLabelledBlock : Except Diagnostic Program → Bool
  | .ok ⟨_, [.labeled _ _ (.block _ [.whileLoop _ _ (.continueTo _ (some _))])]⟩ => true
  | _ => false

/-- The label of a block with a loop in it. -/
theorem continues_labelled_block :
    ∃ p around span id, parse (Source.inline (Bytes.ofString "L:{while(1)continue L}")) = .ok p ∧
      p.Has around (.stmt (.continueTo span (some id))) ∧
      ∀ labelSpan label body, .stmt (.labeled labelSpan label body) ∈ Node.own around →
        (Node.stmt body.unlabeled).isLoop = false := by
  have hShape : isLoopInLabelledBlock (parse (Source.inline (Bytes.ofString
      "L:{while(1)continue L}"))) = true := by decide +kernel
  unfold isLoopInLabelledBlock at hShape
  split at hShape
  · rename_i whole outer label inner loop test span id hParse
    have hRoot := Has.root (p := ⟨whole, [.labeled outer label (.block inner
      [.whileLoop loop test (.continueTo span (some id))])]⟩)
    have hLabel := hRoot.child (c := ⟨.stmt (.labeled ..), false⟩) List.mem_cons_self
    have hBlock := hLabel.child (c := ⟨.stmt (.block ..), false⟩)
      (List.mem_append_right _ List.mem_cons_self)
    have hLoop := hBlock.child (c := ⟨.stmt (.whileLoop ..), false⟩) List.mem_cons_self
    have hHas := hLoop.child (c := ⟨.stmt (.continueTo ..), false⟩)
      (List.mem_append_right _ List.mem_cons_self)
    refine ⟨_, _, _, _, hParse, hHas, fun labelSpan name body hMem => ?_⟩
    simp only [Node.own, Node.isFunction, Node.function?, Option.isSome_none, Bool.not_false,
      List.takeWhile_cons_of_pos, List.takeWhile_nil, List.mem_cons, List.not_mem_nil,
      Node.stmt.injEq, Stmt.labeled.injEq, reduceCtorEq, or_false, false_or] at hMem
    obtain ⟨-, -, rfl⟩ := hMem
    rfl
  · cases hShape

end Program

end ScriptOptimizer
