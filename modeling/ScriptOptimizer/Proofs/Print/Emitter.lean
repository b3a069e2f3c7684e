import Mathlib.Data.List.Forall2
import ScriptOptimizer.Syntax.Emitter

/-!
An emitter that is used again and again. Whatever is written, the depth and the mode are afterwards
what they were before, and the text that was added is the one that the tree has by itself. So every
call on one emitter gives what a new emitter gives.
-/

namespace ScriptOptimizer.Emission

variable {x y : Emission} {d : Nat} {n : Bool} {t u : Bytes}

/-- At this depth and in this mode, if the writing gets to its end, the text has been added and
nothing else has changed. -/
def Writes (x : Emission) (depth : Nat) (noIn : Bool) (text : Bytes) : Prop :=
  ∀ before e, x ⟨depth, noIn, before⟩ = some ((), e) → e = ⟨depth, noIn, before ++ text⟩

theorem bind_eq_some {α β : Type} {x : Emission α} {f : α → Emission β} {s : Emitter}
    {r : β × Emitter} (h : (x >>= f) s = some r) :
    ∃ a s', x s = some (a, s') ∧ f a s' = some r := by
  obtain ⟨⟨a, s'⟩, hFirst, hRest⟩ := Option.bind_eq_some_iff.1 h
  exact ⟨a, s', hFirst, hRest⟩

namespace Writes

theorem congr (h : Writes x d n t) (hText : t = u) : Writes x d n u := hText ▸ h

theorem nothing : Writes (pure ()) d n [] := by
  intro before e h
  cases h
  rw [List.append_nil]

theorem broken : Writes failure d n t := by
  intro before e h
  cases h

theorem write (t : Bytes) : Writes (write t) d n t := by
  intro before e h
  cases h
  rfl

theorem writeIndent : Writes writeIndent d n (Print.indent d) := by
  intro before e h
  cases h
  rfl

theorem seq (h : Writes x d n t) (h' : Writes y d n u) :
    Writes (x >>= fun _ => y) d n (t ++ u) := by
  intro before e hRun
  obtain ⟨⟨⟩, s, hFirst, hRest⟩ := bind_eq_some hRun
  obtain rfl := h _ _ hFirst
  rw [h' _ _ hRest, List.append_assoc]

theorem deeper (h : Writes x (d + 1) n t) : Writes (deeper x) d n t := by
  intro before e hRun
  obtain ⟨⟨⟩, s, hFirst, hRest⟩ := bind_eq_some hRun
  cases hFirst
  obtain ⟨⟨⟩, s', hInner, hLast⟩ := bind_eq_some hRest
  obtain rfl := h _ _ hInner
  cases hLast
  rfl

theorem inMode {m : Bool} (h : Writes x d m t) : Writes (inMode m x) d n t := by
  intro before e hRun
  obtain ⟨saved, s, hFirst, hRest⟩ := bind_eq_some hRun
  cases hFirst
  obtain ⟨⟨⟩, s', hSet, hMore⟩ := bind_eq_some hRest
  cases hSet
  obtain ⟨⟨⟩, s'', hInner, hLast⟩ := bind_eq_some hMore
  obtain rfl := h _ _ hInner
  cases hLast
  rfl

/-- What is written into a scratch emitter leaves no trace but the text that is gone on with. -/
theorem scratch {f : Bytes → Emission} (h : Writes x d n t) (h' : Writes (f t) d n u) :
    Writes (scratch x >>= f) d n u := by
  intro before e hRun
  obtain ⟨text, s, hFirst, hRest⟩ := bind_eq_some hRun
  obtain ⟨⟨⟨⟩, s'⟩, hInner, hText⟩ := Option.map_eq_some_iff.1 hFirst
  obtain rfl := h _ _ hInner
  cases hText
  exact h' _ _ hRest

theorem line (h : Writes x d n t) : Writes (line x) d n (Print.indent d ++ (t ++ "\n")) :=
  writeIndent.seq (h.seq (write _))

theorem separated {xs : List Emission} {ts : List Bytes}
    (h : List.Forall₂ (fun x t => Writes x d n t) xs ts) :
    Writes (separated xs) d n (Bytes.join ", " ts) := by
  cases h with
  | nil => exact nothing
  | cons hFirst hRest =>
    have hMore {xs : List Emission} {ts : List Bytes} {first : Bytes}
        (h : List.Forall₂ (fun x t => Writes x d n t) xs ts) :
        ∃ u, Bytes.join ", " (first :: ts) = first ++ u ∧
          Writes (xs.forM fun y => do Emission.write ", "; y) d n u := by
      induction h generalizing first with
      | nil => exact ⟨[], (List.append_nil first).symm, nothing⟩
      | @cons y text _ _ hNext _ ih =>
        obtain ⟨u, hJoin, hAfter⟩ := @ih text
        refine ⟨", " ++ (text ++ u), ?_, ?_⟩
        · rw [Bytes.join, hJoin, List.append_assoc]
          simp
        · exact (((write _).seq hNext).seq hAfter).congr (by simp)
    obtain ⟨u, hJoin, hAfter⟩ := hMore hRest
    rw [hJoin]
    exact hFirst.seq hAfter

theorem enclose {level : Nat} {e : Expr} {text : Bool → Bytes} (h : ∀ m, Writes x d m (text m)) :
    Writes (enclose level e x) d n (Print.enclose level n e text) := by
  have hBranch : Writes (if Print.wraps level n e then
      Emission.inMode false do Emission.write "("; x; Emission.write ")" else x) d n
        (Print.enclose level n e text) := by
    unfold Print.enclose
    split
    · exact (inMode ((write _).seq ((h false).seq (write _)))).congr (by simp)
    · exact h n
  exact hBranch

theorem arguments {xs : List Emission} {ts : List Bytes}
    (h : List.Forall₂ (fun x t => Writes x d false t) xs ts) :
    Writes (arguments xs) d n (Bytes.cat ["(", Bytes.join ", " ts, ")"]) :=
  (inMode ((write _).seq ((separated h).seq (write _)))).congr (by simp)

theorem withDefaults {xs : List Emission} {ts : List Bytes} {ys : List (Option Emission)}
    {us : List (Option Bytes)} (h : List.Forall₂ (fun x t => Writes x d n t) xs ts)
    (h' : List.Forall₂ (Option.Rel fun y u => Writes y d n u) ys us) :
    List.Forall₂ (fun x t => Writes x d n t) (withDefaults xs ys) (Print.withDefaults ts us) := by
  induction h generalizing ys us with
  | nil =>
    cases h' <;> exact .nil
  | cons hFirst hRest ih =>
    cases h' with
    | nil => exact .cons hFirst hRest
    | cons hDefault hMore =>
      cases hDefault with
      | none => exact .cons hFirst (ih hMore)
      | some hValue =>
        refine .cons ((hFirst.seq ((write _).seq hValue)).congr ?_) (ih hMore)
        simp

theorem functionTail (rest : Option Ident) {xs : List Emission} {ts : List Bytes}
    (h : List.Forall₂ (fun x t => Writes x d false t) xs ts) (hBody : Writes y d false u) :
    Writes (functionTail xs rest y) d n (Print.parameters ts rest ++ u) := by
  have hRest : List.Forall₂ (fun x t => Writes x d false t)
      (rest.toList.map fun r => Emission.write (Bytes.ofString "..." ++ r.name))
      (rest.toList.map fun r => Bytes.ofString "..." ++ r.name) := by
    cases rest with
    | none => exact .nil
    | some r => exact .cons (write _) .nil
  have hAll := separated (List.rel_append h hRest)
  exact (inMode ((write _).seq (hAll.seq ((write _).seq hBody)))).congr (by simp [Print.parameters])

theorem keyed {key text : Bytes} {shorthand : Bool} (h : Writes x d n text) :
    Writes (keyed key shorthand x) d n
      (if shorthand then key else Bytes.cat [key, ": ", text]) := by
  cases shorthand with
  | true => exact ((write key).seq nothing).congr (List.append_nil key)
  | false => exact ((write key).seq ((write _).seq h)).congr (by simp)

end Writes

/-! ### Statements -/

/-- What is written where a bare `in` may stand, as it may in every statement of a tree. In the
other mode some text is written as well, and nothing else. -/
def Prints (x : Emission) (depth : Nat) (text : Bytes) : Prop :=
  Writes x depth false text ∧ ∃ other, Writes x depth true other

namespace Prints

theorem of_writes {f : Bool → Bytes} (h : ∀ m, Writes x d m (f m)) : Prints x d (f false) :=
  ⟨h false, _, h true⟩

theorem congr (h : Prints x d t) (hText : t = u) : Prints x d u := hText ▸ h

theorem nothing : Prints (pure ()) d [] := of_writes fun _ => .nothing

theorem broken : Prints failure d t := of_writes (f := fun _ => t) fun _ => .broken

theorem write (t : Bytes) : Prints (write t) d t := of_writes fun _ => .write t

theorem writeIndent : Prints writeIndent d (Print.indent d) := of_writes fun _ => .writeIndent

theorem seq (h : Prints x d t) (h' : Prints y d u) : Prints (x >>= fun _ => y) d (t ++ u) := by
  obtain ⟨hText, _, hOther⟩ := h
  obtain ⟨hText', _, hOther'⟩ := h'
  exact ⟨hText.seq hText', _, hOther.seq hOther'⟩

theorem deeper (h : Prints x (d + 1) t) : Prints (deeper x) d t := by
  obtain ⟨hText, _, hOther⟩ := h
  exact ⟨hText.deeper, _, hOther.deeper⟩

theorem line (h : Prints x d t) : Prints (line x) d (Print.indent d ++ (t ++ "\n")) :=
  writeIndent.seq (h.seq (write _))

theorem braces {empty : Bool} (hEmpty : t.isEmpty = empty) (h : Prints x (d + 1) t) :
    Prints (braces empty x) d (Print.braces d t) := by
  cases empty with
  | true => exact (write _).congr (by simp [Print.braces, hEmpty])
  | false =>
    have hAll := (write "\x7b\n").seq (h.deeper.seq (writeIndent.seq (write "\x7d")))
    exact hAll.congr (by simp [Print.braces, hEmpty])

theorem body {s : Stmt} {text : Nat → Bytes} (h : ∀ depth, Prints x depth (text depth)) :
    Prints (body s x) d (Print.body d s text) := by
  unfold Emission.body Print.body
  split
  · exact (write _).seq (h d)
  · exact write _
  · exact ((write _).seq (writeIndent.seq (h (d + 1))).deeper).congr (by simp)

theorem afterBody (block : Bool) : Prints (afterBody block) d (Print.afterBody d block) := by
  cases block with
  | true => exact write _
  | false => exact (write _).seq writeIndent

/-- What stands behind the head of a loop or of a `with`. -/
theorem behindHead {s : Stmt} {text : Nat → Bytes} (h : ∀ depth, Prints x depth (text depth)) :
    Prints (do Emission.write ")"; Emission.body s x) d
      (Bytes.ofString ")" ++ Print.body d s text) :=
  (write _).seq (body h)

/-- The first branch of an `if`, in braces where the `else` would be read as another's. -/
theorem consequent {s : Stmt} {text : Nat → Bytes} (braced : Bool)
    (h : ∀ depth, Prints x depth (text depth)) :
    Prints (if braced then do Emission.write " "; Emission.braces false (Emission.line x)
        else Emission.body s x) d
      (if braced then Bytes.ofString " " ++
          Print.braces d (Bytes.cat [Print.indent (d + 1), text (d + 1), "\n"])
        else Print.body d s text) := by
  split
  · refine (write _).seq (.braces ?_ ((h (d + 1)).line.congr (by simp)))
    simp [show Bytes.ofString "\n" ≠ [] by decide]
  · exact body h

/-- The second branch of an `if`, where an `if` goes on in the line of the `else`. -/
theorem alternate {s : Stmt} {text : Nat → Bytes} (present afterBlock : Bool)
    (h : ∀ depth, Prints x depth (text depth)) :
    Prints (if present then do
        Emission.afterBody afterBlock
        Emission.write "else"
        if Print.isIf s then
          Emission.write " "
          x
        else Emission.body s x
        else pure ()) d
      (if present then
        Bytes.cat [Print.afterBody d afterBlock, "else",
          if Print.isIf s then Bytes.ofString " " ++ text d else Print.body d s text]
        else []) := by
  have hElse : Prints (if Print.isIf s then do Emission.write " "; x else Emission.body s x) d
      (if Print.isIf s then Bytes.ofString " " ++ text d else Print.body d s text) := by
    split
    · exact (write _).seq (h d)
    · exact body h
  split
  · exact ((afterBody _).seq ((write _).seq hElse)).congr (by simp)
  · exact nothing

theorem jump (keyword : Bytes) (label : Option Ident) :
    Prints (jump keyword label) d (Print.stmt.jump keyword label) := by
  refine ((write keyword).seq ((write _).seq (write ";"))).congr ?_
  cases label <;> simp [Print.stmt.jump]

end Prints

theorem stmts_isEmpty (d : Nat) (list : List Stmt) :
    (Print.stmts d list).isEmpty = list.isEmpty := by
  have hBreak : Bytes.ofString "\n" ≠ [] := by decide
  cases list with
  | nil => rw [Print.stmts]; rfl
  | cons s rest => simp [Print.stmts, hBreak]

mutual

theorem slot_writes (level : Nat) : (s : Slot) → (d : Nat) → (n : Bool) →
    Writes (slot level s) d n (Print.slot d n level s)
  | .absent, d, n => by
    unfold slot Print.slot
    exact .nothing
  | .vacant, d, n => by
    unfold slot Print.slot
    exact .nothing
  | .holds e, d, n => by
    unfold slot Print.slot
    exact .enclose fun m => expr_writes e d m

theorem slots_write : (list : List Slot) → (d : Nat) → (n : Bool) →
    List.Forall₂ (fun x t => Writes x d n t) (slots list) (Print.slots d n list)
  | [], d, n => by
    unfold slots Print.slots
    exact .nil
  | s :: rest, d, n => by
    unfold slots Print.slots
    exact .cons (slot_writes Level.assign s d n) (slots_write rest d n)

theorem optional_writes : (list : List Slot) → (d : Nat) →
    List.Forall₂ (Option.Rel fun x t => Writes x d false t) (optional list) (Print.optional d list)
  | [], d => by
    unfold optional Print.optional
    exact .nil
  | .absent :: rest, d => by
    unfold optional Print.optional
    exact .cons .none (optional_writes rest d)
  | .vacant :: rest, d => by
    unfold optional Print.optional
    · exact .cons (.some (slot_writes Level.assign .vacant d false)) (optional_writes rest d)
  | .holds e :: rest, d => by
    unfold optional Print.optional
    · exact .cons (.some (slot_writes Level.assign (.holds e) d false)) (optional_writes rest d)

theorem expr_writes : (e : Expr) → (d : Nat) → (n : Bool) → Writes (expr e) d n (Print.expr d n e)
  | .ident id, d, n => by
    unfold expr Print.expr
    exact .write _
  | .literal lit, d, n => by
    unfold expr Print.expr
    exact .write _
  | .this _, d, n => by
    unfold expr Print.expr
    exact .write _
  | .array _ elements, d, n | .arrayPattern _ elements, d, n => by
    unfold expr Print.expr
    have hItems := Writes.separated (slots_write elements d n)
    refine ((Writes.write _).seq (hItems.seq ((Writes.write _).seq (.write _)))).congr ?_
    cases elements.getLast? with
    | none => simp
    | some s => cases s <;> simp
  | .object _ list, d, n | .objectPattern _ list, d, n => by
    have hItems := Writes.separated (properties_write list d n)
    cases list with
    | nil =>
      unfold expr Print.expr Print.properties
      exact .write _
    | cons p rest =>
      unfold properties Print.properties at hItems
      unfold expr Print.expr properties Print.properties
      exact ((Writes.write _).seq (hItems.seq (.write _))).congr (by simp)
  | .function _ fn, d, n => by
    unfold expr Print.expr
    exact (Writes.write _).seq (function_writes fn d n)
  | .sequence _ items, d, n => by
    unfold expr Print.expr
    exact .separated (slots_write items d n)
  | .unary _ operator argument, d, n => by
    unfold expr Print.expr
    refine ((Writes.write operator).seq (.scratch (slot_writes Level.unary argument d n)
      ((Writes.write _).seq (.write _)))).congr ?_
    simp [Print.unary]
  | .update _ operator true argument, d, n => by
    unfold expr Print.expr
    exact (Writes.write _).seq (slot_writes Level.unary argument d n)
  | .update _ operator false argument, d, n => by
    unfold expr Print.expr
    exact (slot_writes Level.call argument d n).seq (.write _)
  | .binary _ operator left right, d, n | .logical _ operator left right, d, n => by
    unfold expr Print.expr
    have hLeft := slot_writes (Level.binary operator) left d n
    have hRight := slot_writes (Level.binary operator + 1) right d n
    exact (hLeft.seq ((Writes.write _).seq hRight)).congr (by simp)
  | .assign _ operator left right, d, n => by
    unfold expr Print.expr
    have hLeft := slot_writes Level.call left d n
    have hRight := slot_writes Level.assign right d n
    exact (hLeft.seq ((Writes.write _).seq hRight)).congr (by simp)
  | .conditional _ test consequent alternate, d, n => by
    unfold expr Print.expr
    have hTest := slot_writes Level.loosestBinary test d n
    have hYes := slot_writes Level.assign consequent d n
    have hNo := slot_writes Level.assign alternate d n
    exact (hTest.seq ((Writes.write _).seq (hYes.seq ((Writes.write _).seq hNo)))).congr (by simp)
  | .construct _ callee args, d, n => by
    unfold expr Print.expr
    have hArguments := Writes.arguments (d := d) (n := n) (slots_write args d false)
    refine ((Writes.write _).seq (Writes.seq (t := if Print.hasCall callee then
      Bytes.cat ["(", Print.slot d n Level.sequence callee, ")"]
        else Print.slot d n Level.call callee) ?_ hArguments)).congr (by simp)
    split
    · have hCallee := slot_writes Level.sequence callee d n
      exact ((Writes.write _).seq (hCallee.seq (.write _))).congr (by simp)
    · exact slot_writes Level.call callee d n
  | .call _ callee args, d, n => by
    unfold expr Print.expr
    have hArguments := Writes.arguments (d := d) (n := n) (slots_write args d false)
    exact ((slot_writes Level.call callee d n).seq hArguments).congr (by simp)
  | .member _ object property computed, d, n => by
    have hObject := slot_writes Level.call object d n
    have hProperty (level : Nat) := slot_writes level property d n
    cases object with
    | absent => exact .broken
    | _ =>
      cases computed with
      | true =>
        unfold expr Print.expr
        exact (hObject.seq ((Writes.write _).seq ((hProperty _).seq (.write _)))).congr (by simp)
      | false =>
        unfold expr Print.expr
        split
        · exact (((Writes.write _).seq (hObject.seq (.write _))).seq
            ((Writes.write _).seq (hProperty _))).congr (by simp)
        · exact (hObject.seq ((Writes.write _).seq (hProperty _))).congr (by simp)

theorem property_writes : (p : Property) → (d : Nat) → (n : Bool) →
    Writes (property p) d n (Print.property d n p)
  | .absent, d, n => by
    unfold property
    exact .broken
  | .entry _ kind key value computed shorthand, d, n => by
    unfold property
    refine .scratch (slot_writes Level.assign key d n) ?_
    dsimp only
    have hValue := slot_writes Level.assign value d n
    cases hAccessor :
        decide (kind = Bytes.ofString "get") || decide (kind = Bytes.ofString "set") with
    | false =>
      rw [Print.property]
      · exact .keyed hValue
      · simp [hAccessor]
    | true =>
      cases value with
      | absent => exact .broken
      | vacant =>
        rw [Print.property]
        · exact .keyed hValue
        · simp
      | holds e =>
        cases e with
        | function _ fn =>
          cases fn with
          | mk id params defaults rest body generator =>
            have hParams :=
              Writes.withDefaults (slots_write params d false) (optional_writes defaults d)
            have hTail := Writes.functionTail (n := n) rest hParams (functionBody_prints body d).1
            rw [Print.property]
            · exact ((Writes.write _).seq hTail).congr (by simp)
            · exact hAccessor
        | _ =>
          rw [Print.property]
          · exact .keyed hValue
          · simp

theorem properties_write : (list : List Property) → (d : Nat) → (n : Bool) →
    List.Forall₂ (fun x t => Writes x d n t) (properties list) (Print.properties d n list)
  | [], d, n => by
    unfold properties Print.properties
    exact .nil
  | p :: rest, d, n => by
    unfold properties Print.properties
    exact .cons (property_writes p d n) (properties_write rest d n)

theorem function_writes : (fn : Function) → (d : Nat) → (n : Bool) →
    Writes (function fn) d n (Print.function d fn)
  | .mk id params defaults rest body generator, d, n => by
    have hParams := Writes.withDefaults (slots_write params d false) (optional_writes defaults d)
    have hTail := Writes.functionTail (n := n) rest hParams (functionBody_prints body d).1
    cases id with
    | none =>
      unfold function Print.function
      exact ((Writes.write _).seq ((Writes.write _).seq hTail)).congr (by simp)
    | some id =>
      unfold function Print.function
      exact ((Writes.write _).seq ((Writes.write _).seq hTail)).congr (by simp)

theorem functionBody_prints : (b : Block) → (d : Nat) →
    Prints (functionBody b) d (Print.block d b)
  | .absent, d => by
    unfold functionBody Print.block
    exact .write _
  | .braces _ list, d => by
    unfold functionBody Print.block
    exact .braces (stmts_isEmpty _ list) (stmts_print list (d + 1))

theorem block_prints : (b : Block) → (d : Nat) → Prints (block b) d (Print.block d b)
  | .absent, d => by
    unfold block
    exact .broken
  | .braces _ list, d => by
    unfold block Print.block
    exact .braces (stmts_isEmpty _ list) (stmts_print list (d + 1))

theorem stmts_print : (list : List Stmt) → (d : Nat) → Prints (stmts list) d (Print.stmts d list)
  | [], d => by
    unfold stmts Print.stmts
    exact .nothing
  | s :: rest, d => by
    unfold stmts Print.stmts
    exact ((stmt_prints s d).line.seq (stmts_print rest d)).congr (by simp)

theorem stmt_prints : (s : Stmt) → (d : Nat) → Prints (stmt s) d (Print.stmt d s)
  | .absent, d => by
    unfold stmt Print.stmt
    exact .write _
  | .empty _, d => by
    unfold stmt Print.stmt
    exact .write _
  | .block _ list, d => by
    unfold stmt Print.stmt
    exact .braces (stmts_isEmpty _ list) (stmts_print list (d + 1))
  | .expression _ e, d => by
    unfold stmt Print.stmt
    exact Prints.of_writes fun m => Writes.scratch
      (f := fun text => write (Print.expressionStatement text))
      (slot_writes Level.sequence e d m) (.write _)
  | .conditional _ test consequent alternate, d => by
    unfold stmt Print.stmt
    have hFirst := Prints.consequent (d := d) (s := consequent)
      (Print.isOpenIf consequent && alternate.isPresent) (stmt_prints consequent)
    have hSecond := Prints.alternate (d := d) (s := alternate) alternate.isPresent
      (Print.isOpenIf consequent && alternate.isPresent || Print.isBlock consequent)
      (stmt_prints alternate)
    have hTest := Prints.of_writes (slot_writes Level.sequence test d)
    have hBranches := (Prints.write ")").seq (hFirst.seq hSecond)
    exact ((Prints.write _).seq (hTest.seq hBranches)).congr (by simp)
  | .labeled _ none _, d => by
    unfold stmt
    exact .broken
  | .labeled _ (some id) s, d => by
    unfold stmt Print.stmt
    exact ((Prints.write _).seq (stmt_prints s d)).congr (by simp)
  | .breakTo _ label, d => by
    unfold stmt Print.stmt
    exact .jump "break" label
  | .continueTo _ label, d => by
    unfold stmt Print.stmt
    exact .jump "continue" label
  | .withObject _ object s, d => by
    unfold stmt Print.stmt
    have hObject := Prints.of_writes (slot_writes Level.sequence object d)
    have hBody := Prints.behindHead (d := d) (s := s) (stmt_prints s)
    exact ((Prints.write _).seq (hObject.seq hBody)).congr (by simp)
  | .switchOn _ discriminant list, d => by
    unfold stmt Print.stmt
    have hValue := Prints.of_writes (slot_writes Level.sequence discriminant d)
    have hCases := (cases_print list (d + 1)).deeper.seq (Prints.writeIndent.seq (.write "\x7d"))
    have hRest := hValue.seq ((Prints.write ") \x7b\n").seq hCases)
    exact ((Prints.write _).seq hRest).congr (by simp)
  | .returnValue _ argument, d => by
    have hValue := Prints.of_writes (slot_writes Level.sequence argument d)
    have hArgument := (Prints.write "return ").seq (hValue.seq (.write ";"))
    cases argument with
    | absent =>
      unfold stmt Print.stmt
      exact .write _
    | _ =>
      unfold stmt Print.stmt
      · exact hArgument.congr (by simp)
  | .throwValue _ argument, d => by
    unfold stmt Print.stmt
    have hValue := Prints.of_writes (slot_writes Level.sequence argument d)
    exact ((Prints.write _).seq (hValue.seq (.write _))).congr (by simp)
  | .tryCatch _ main guard finalizer, d => by
    have hLast := (Prints.write " finally ").seq (block_prints finalizer d)
    have hMain := (Prints.write "try ").seq (block_prints main d)
    cases finalizer with
    | absent =>
      unfold stmt Print.stmt
      exact (hMain.seq ((handler_prints guard d).seq .nothing)).congr (by simp)
    | braces span list =>
      unfold stmt Print.stmt
      · exact (hMain.seq ((handler_prints guard d).seq hLast)).congr (by simp)
  | .whileLoop _ test s, d => by
    unfold stmt Print.stmt
    have hTest := Prints.of_writes (slot_writes Level.sequence test d)
    have hBody := Prints.behindHead (d := d) (s := s) (stmt_prints s)
    exact ((Prints.write _).seq (hTest.seq hBody)).congr (by simp)
  | .doWhile _ s test, d => by
    unfold stmt Print.stmt
    have hBody := Prints.body (d := d) (s := s) (stmt_prints s)
    have hTest := Prints.of_writes (slot_writes Level.sequence test d)
    have hEnd := (Prints.write "while (").seq (hTest.seq (.write ");"))
    exact ((Prints.write _).seq (hBody.seq ((Prints.afterBody _).seq hEnd))).congr (by simp)
  | .forLoop _ init test update s, d => by
    unfold stmt Print.stmt
    have hBody := Prints.behindHead (d := d) (s := s) (stmt_prints s)
    have hUpdate := (Prints.write ";").seq ((headPart_prints update d).seq hBody)
    have hTest := (Prints.write ";").seq ((headPart_prints test d).seq hUpdate)
    exact ((Prints.write _).seq ((forHead_prints init d).seq hTest)).congr (by simp)
  | .forIn _ left right s, d => by
    unfold stmt Print.stmt
    have hBody := Prints.behindHead (d := d) (s := s) (stmt_prints s)
    have hRight := Prints.of_writes (slot_writes Level.sequence right d)
    have hRest := (Prints.write " in ").seq (hRight.seq hBody)
    exact ((Prints.write _).seq ((forHead_prints left d).seq hRest)).congr (by simp)
  | .debugger _, d => by
    unfold stmt Print.stmt
    exact .write _
  | .function _ fn, d => by
    unfold stmt Print.stmt
    exact .of_writes fun m => (Writes.write _).seq (function_writes fn d m)
  | .declaration _ kind list, d => by
    unfold stmt Print.stmt
    have hList (m : Bool) := Writes.separated (declarators_write list d m)
    refine Prints.congr (.of_writes fun m => (Writes.write _).seq ((hList m).seq (.write _))) ?_
    simp

theorem headPart_prints : (s : Slot) → (d : Nat) → Prints (headPart s) d (Print.headPart d s)
  | .absent, d => by
    unfold headPart Print.headPart
    exact .nothing
  | .vacant, d => by
    unfold headPart Print.headPart
    exact .write _
  | .holds e, d => by
    unfold headPart Print.headPart
    have hText (m : Bool) : Writes (enclose Level.sequence e (expr e)) d m _ :=
      .enclose fun m => expr_writes e d m
    exact .of_writes fun m => (Writes.write _).seq (hText m)

theorem cases_print : (list : List Case) → (d : Nat) → Prints (cases list) d (Print.cases d list)
  | [], d => by
    unfold cases Print.cases
    exact .nothing
  | c :: rest, d => by
    unfold cases Print.cases
    exact (case_prints c d).seq (cases_print rest d)

theorem case_prints : (c : Case) → (d : Nat) → Prints (case c) d (Print.case d c)
  | .clause _ test consequent, d => by
    have hValue := Prints.of_writes (slot_writes Level.sequence test d)
    have hTest := (Prints.write "case ").seq (hValue.seq (.write ":\n"))
    have hBody := (stmts_print consequent (d + 1)).deeper
    cases test with
    | absent =>
      unfold case Print.case
      exact (Prints.writeIndent.seq ((Prints.write _).seq hBody)).congr (by simp)
    | _ =>
      unfold case Print.case
      · exact (Prints.writeIndent.seq (hTest.seq hBody)).congr (by simp)

theorem handler_prints : (h : Handler) → (d : Nat) → Prints (handler h) d (Print.handler d h)
  | .absent, d => by
    unfold handler Print.handler
    exact .nothing
  | .clause _ param body, d => by
    have hParam := Prints.of_writes fun m => (Writes.write " (").seq
      ((slot_writes Level.assign param d m).seq (.write ")"))
    have hBody := (Prints.write " ").seq (block_prints body d)
    have hNone : Bytes.ofString " catch " = Bytes.ofString " catch" ++ Bytes.ofString " " := by
      decide
    have hOpen : Bytes.ofString " catch (" = Bytes.ofString " catch" ++ Bytes.ofString " (" := by
      decide
    have hClose : Bytes.ofString ") " = Bytes.ofString ")" ++ Bytes.ofString " " := by
      decide
    cases param with
    | absent =>
      unfold handler Print.handler
      exact ((Prints.write _).seq (Prints.nothing.seq hBody)).congr (by simp [hNone])
    | _ =>
      unfold handler Print.handler
      · exact ((Prints.write _).seq (hParam.seq hBody)).congr (by simp [hOpen, hClose])

theorem declarators_write : (list : List Declarator) → (d : Nat) → (n : Bool) →
    List.Forall₂ (fun x t => Writes x d n t) (declarators list) (Print.declarators d n list)
  | [], d, n => by
    unfold declarators Print.declarators
    exact .nil
  | v :: rest, d, n => by
    unfold declarators Print.declarators
    exact .cons (declarator_writes v d n) (declarators_write rest d n)

theorem declarator_writes : (v : Declarator) → (d : Nat) → (n : Bool) →
    Writes (declarator v) d n (Print.declarator d n v)
  | .bind _ id init, d, n => by
    have hName := slot_writes Level.assign id d n
    have hInit := (Writes.write " = ").seq (slot_writes Level.assign init d n)
    cases init with
    | absent =>
      unfold declarator Print.declarator
      exact (hName.seq .nothing).congr (List.append_nil _)
    | _ =>
      unfold declarator Print.declarator
      · exact (hName.seq hInit).congr (by simp)

theorem forHead_prints : (h : ForHead) → (d : Nat) → Prints (forHead h) d (Print.forHead d h)
  | .absent, d => by
    unfold forHead Print.forHead
    exact .of_writes fun m => .inMode .nothing
  | .declaration _ kind list, d => by
    unfold forHead Print.forHead
    have hList := Writes.separated (declarators_write list d true)
    exact (Prints.of_writes fun m => .inMode ((Writes.write _).seq hList)).congr (by simp)
  | .expression s, d => by
    unfold forHead Print.forHead
    exact .of_writes fun m => .inMode (slot_writes Level.sequence s d true)

end

/-! ### Constructs -/

/-- What is written inside other text. -/
inductive Construct where
  | expression (level : Nat) (s : Slot)
  | arguments (list : List Slot)
  | entry (p : Property)
  | function (fn : Function)
  | block (b : Block)
  | statement (s : Stmt)
  | body (s : Stmt)
  | clauses (list : List Case)
  | handler (h : Handler)
  | declarator (v : Declarator)
  | head (h : ForHead)

def Construct.emission : Construct → Emission
  | .expression level s => slot level s
  | .arguments list => Emission.arguments (slots list)
  | .entry p => property p
  | .function fn => Emission.function fn
  | .block b => Emission.block b
  | .statement s => stmt s
  | .body s => Emission.body s (stmt s)
  | .clauses list => cases list
  | .handler h => Emission.handler h
  | .declarator v => Emission.declarator v
  | .head h => forHead h

/-- Nothing changes but that text is added. -/
def Appends (x : Emission) : Prop :=
  ∀ e e', x e = some ((), e') → ∃ text, e' = { e with text := e.text ++ text }

theorem Appends.of_writes {f : Nat → Bool → Bytes} (h : ∀ d n, Writes x d n (f d n)) : Appends x :=
  fun e e' hRun => ⟨_, h e.depth e.noIn e.text e' hRun⟩

theorem Appends.of_prints {f : Nat → Bytes} (h : ∀ d, Prints x d (f d)) : Appends x := by
  rintro ⟨depth, noIn, before⟩ e' hRun
  obtain ⟨hText, other, hOther⟩ := h depth
  cases noIn with
  | false => exact ⟨_, hText before e' hRun⟩
  | true => exact ⟨_, hOther before e' hRun⟩

theorem Construct.appends (c : Construct) : Appends c.emission := by
  cases c with
  | expression level s => exact .of_writes (slot_writes level s)
  | arguments list => exact .of_writes fun d n => .arguments (slots_write list d false)
  | entry p => exact .of_writes (property_writes p)
  | function fn => exact .of_writes (function_writes fn)
  | block b => exact .of_prints (block_prints b)
  | statement s => exact .of_prints (stmt_prints s)
  | body s => exact .of_prints fun d => .body (stmt_prints s)
  | clauses list => exact .of_prints (cases_print list)
  | handler h => exact .of_prints (handler_prints h)
  | declarator v => exact .of_writes (declarator_writes v)
  | head h => exact .of_prints (forHead_prints h)

theorem scratch_still {e e' : Emitter} (h : scratch x e = some (t, e')) : e' = e := by
  obtain ⟨p, -, hSame⟩ := Option.map_eq_some_iff.1 h
  cases hSame
  rfl

/-! ### Calls -/

theorem alone_writes (s : Slot) : Writes (alone s) 0 false s.print := by
  cases s with
  | holds e =>
    rw [Slot.print, Expr.print, Print.slot]
    exact .enclose fun m => expr_writes e 0 m
  | _ => exact .write _

/-- The source text of what is asked for, whatever was written before. -/
def Call.text : Call → Bytes
  | .program p => p.print
  | .expression s => s.print

/-- The depth and the mode are those of a new emitter. -/
def IsReady (e : Emitter) : Prop := e.depth = 0 ∧ e.noIn = false

theorem Call.emission_again (c : Call) {e : Emitter} (h : IsReady e) :
    c.emission e = c.emission {} := by
  obtain ⟨depth, noIn, before⟩ := e
  obtain ⟨rfl, rfl⟩ := h
  cases c <;> rfl

theorem Call.emission_ready (c : Call) {e : Emitter} (h : c.emission {} = some (t, e)) :
    t = c.text ∧ IsReady e := by
  cases c with
  | program p =>
    obtain ⟨⟨⟩, s, hReset, hRest⟩ := bind_eq_some h
    cases hReset
    obtain ⟨⟨⟩, s', hBody, hLast⟩ := bind_eq_some hRest
    obtain rfl := (stmts_print p.body 0).1 _ _ hBody
    cases hLast
    exact ⟨rfl, rfl, rfl⟩
  | expression s =>
    obtain ⟨⟨⟩, s', hReset, hRest⟩ := bind_eq_some h
    cases hReset
    obtain ⟨⟨⟩, s'', hSlot, hLast⟩ := bind_eq_some hRest
    obtain rfl := alone_writes s _ _ hSlot
    cases hLast
    exact ⟨rfl, rfl, rfl⟩

theorem calls_cons (c : Call) (rest : List Call) (e : Emitter) :
    calls (c :: rest) e = (c.emission e).bind fun p =>
      (calls rest p.2).map fun q => (p.1 :: q.1, q.2) := by
  change (c.emission e).bind _ = _
  refine congrArg _ (funext fun p => ?_)
  change (calls rest p.2).bind _ = _
  exact (Option.map_eq_bind ..).symm

theorem calls_ready (list : List Call) {e : Emitter} (hReady : IsReady e) :
    (calls list e).map (·.1) = list.mapM (fun c => (c.emission {}).map (·.1)) ∧
      ∀ texts e', calls list e = some (texts, e') → texts = list.map Call.text ∧ IsReady e' := by
  induction list generalizing e with
  | nil =>
    refine ⟨rfl, fun texts e' h => ?_⟩
    cases h
    exact ⟨rfl, hReady⟩
  | cons c rest ih =>
    rw [calls_cons, c.emission_again hReady, List.mapM_cons]
    cases hCall : c.emission {} with
    | none => exact ⟨rfl, nofun⟩
    | some p =>
      obtain ⟨hText, hAfter⟩ := c.emission_ready hCall
      obtain ⟨hFresh, hTexts⟩ := ih hAfter
      constructor
      · change _ = (rest.mapM fun c => (c.emission {}).map (·.1)) >>= fun texts =>
          pure (p.1 :: texts)
        rw [← hFresh]
        change ((calls rest p.2).map _).map _ = _
        cases calls rest p.2 <;> rfl
      · intro texts e' h
        obtain ⟨⟨more, last⟩, hRest, hSame⟩ := Option.map_eq_some_iff.1 h
        obtain ⟨hMore, hLast⟩ := hTexts more last hRest
        cases hSame
        exact ⟨by rw [hText, hMore, List.map_cons], hLast⟩

/-- On one emitter, each of several calls gives what a new emitter gives, which is the text of the
tree by itself, and they break off where a new emitter does. After each of them the depth and the
mode are those of a new emitter, since every construct leaves them as they were. -/
theorem calls_fresh (list : List Call) :
    (calls list {}).map (·.1) = list.mapM (fun c => (c.emission {}).map (·.1)) ∧
      (∀ texts e, calls list {} = some (texts, e) → texts = list.map Call.text ∧ IsReady e) ∧
      (∀ c : Construct, Appends c.emission) ∧
      ∀ x e text e', scratch x e = some (text, e') → e' = e := by
  obtain ⟨hFresh, hTexts⟩ := calls_ready list (e := {}) ⟨rfl, rfl⟩
  exact ⟨hFresh, hTexts, Construct.appends, fun _ _ _ _ => scratch_still⟩

/-- A loop whose head holds a function with an `in` and one in parentheses, and another loop after
it. -/
example :
    let operand : Slot := .holds (.ident ⟨default, "a"⟩)
    let contains : Slot := .holds (.binary default "in" operand operand)
    let fn : Slot := .holds (.function default (.mk none [] [] none
      (.braces default [.expression default contains]) false))
    let loop : Stmt := .forLoop default (.expression (.holds (.sequence default [contains, fn])))
      .absent .absent (.empty default)
    (calls [.program ⟨default, [loop]⟩, .expression contains] {}).map (·.1) =
      some (["for ((a in a), function() \x7b\n  a in a;\n\x7d;;);\n", "a in a"] : List Bytes) := by
  decide +kernel

end ScriptOptimizer.Emission
