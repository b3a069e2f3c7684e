import ScriptOptimizer.Frontend
import ScriptOptimizer.Proofs.Harmony.Parts

/-!
Bringing a program of the newer language into the optimizer's tree, where all offsets have a place.
Each step gives a tree that shows what it was made from, of which no part stands in the way, or is
refused for a part that does. The parts of what a step goes through are those of its steps, so none
of them swallows a part.
-/

namespace ScriptOptimizer.Harmony

/-- What stands in the way of a tree: a part that has none, or one that it cannot be told where it
is. -/
inductive Obstacle where
  | unsupported (what : Bytes)
  | untold

/-- What the refusal names. -/
def Refusal.obstacle : Refusal → Obstacle
  | .unsupported what _ => .unsupported what
  | .untold => .untold

/-- What by itself stands in the way of a tree. It cannot be told where a clause ends that is
empty. -/
def Part.obstacle? : Part → Option Obstacle
  | clause (.clause _ _ []) => some .untold
  | part => part.unsupported?.map .unsupported

/-- Does the obstacle lie in one of the parts, at whatever depth? -/
def Blocked (parts : List Part) (o : Obstacle) : Prop :=
  ∃ held : Part, held.Within parts ∧ held.obstacle? = some o

/-- Can all offsets be told? -/
def Places.Told (places : Places) : Prop := ∀ offset, ∃ place, places offset = .ok place

theorem Places.Told.span {places : Places} (h : places.Told) (range : Range) :
    ∃ span, range.span places = .ok span := by
  obtain ⟨start, hStart⟩ := h range.start
  obtain ⟨stop, hStop⟩ := h range.stop
  rw [Range.span, hStart, hStop]
  exact ⟨⟨start, stop⟩, rfl⟩

variable {α β : Type} {places : Places} {parts more : List Part} {part : Part} {o : Obstacle}

theorem not_blocked_nil : ¬Blocked [] o := by
  rintro ⟨held, hWithin, -⟩
  exact Part.not_within_nil hWithin

theorem blocked_append : Blocked (parts ++ more) o ↔ Blocked parts o ∨ Blocked more o := by
  simp only [Blocked, Part.within_append, or_and_right, exists_or]

theorem blocked_cons :
    Blocked (part :: parts) o ↔ part.obstacle? = some o ∨ Blocked (part.children ++ parts) o := by
  simp only [Blocked, Part.within_cons, or_and_right, exists_or, exists_eq_left]

/-! ### Steps -/

/-- A step that goes through the parts ends with what it should, and then no part stands in the way;
or it names one that does. -/
inductive Lowers (parts : List Part) (P : α → Prop) : Except Refusal α → Prop
  | ok {a} (h : P a) (hFree : ∀ o, ¬Blocked parts o) : Lowers parts P (.ok a)
  | error {e} (h : Blocked parts e.obstacle) : Lowers parts P (.error e)

namespace Lowers

variable {P : β → Prop} {Q : α → Prop} {r : Except Refusal α} {f : α → Except Refusal β}

theorem pure {b : β} (h : P b) : Lowers [] P (.ok b) := .ok h fun _ => not_blocked_nil

theorem bind (h : Lowers parts Q r) (hRest : ∀ a, Q a → Lowers more P (f a)) :
    Lowers (parts ++ more) P (r >>= f) := by
  cases h with
  | error hBlocked => exact .error (blocked_append.2 (.inl hBlocked))
  | @ok a hFirst hFree =>
    have hLast := hRest a hFirst
    show Lowers (parts ++ more) P (f a)
    generalize f a = last at hLast
    cases hLast with
    | error hBlocked => exact .error (blocked_append.2 (.inr hBlocked))
    | ok hEnd hNone => exact .ok hEnd fun o ho => (blocked_append.1 ho).elim (hFree o) (hNone o)

/-- A last step that goes through no part. -/
theorem andThen (h : Lowers parts Q r) (hRest : ∀ a, Q a → Lowers [] P (f a)) :
    Lowers parts P (r >>= f) := List.append_nil parts ▸ h.bind hRest

/-- A last step of which something is made. -/
theorem map {g : α → β} (h : Lowers parts Q r) (hMade : ∀ a, Q a → P (g a)) :
    Lowers parts P (r >>= fun a => Pure.pure (g a)) :=
  h.andThen fun a ha => pure (hMade a ha)

theorem imp {r : Except Refusal β} {R : β → Prop} (h : Lowers parts R r) (hImp : ∀ b, R b → P b) :
    Lowers parts P r := by
  cases h with
  | error hBlocked => exact .error hBlocked
  | ok hEnd hFree => exact .ok (hImp _ hEnd) hFree

theorem span (hTold : places.Told) {range : Range} {f : Span → Except Refusal β}
    (h : ∀ span, Lowers parts P (f span)) : Lowers parts P (range.span places >>= f) := by
  obtain ⟨span, hSpan⟩ := hTold.span range
  rw [hSpan]
  exact h span

/-- A part that does not stand in the way by itself, before others. -/
theorem opened {r : Except Refusal β} (h : Lowers (part.children ++ parts) P r)
    (hPart : part.obstacle? = none := by rfl) : Lowers (part :: parts) P r := by
  cases h with
  | error hBlocked => exact .error (blocked_cons.2 (.inr hBlocked))
  | ok hEnd hFree =>
    refine .ok hEnd fun o ho => (blocked_cons.1 ho).elim ?_ (hFree o)
    rw [hPart]
    intro hNone
    cases hNone

/-- A part that does not stand in the way by itself. -/
theorem inside {r : Except Refusal β} (h : Lowers part.children P r)
    (hPart : part.obstacle? = none := by rfl) : Lowers [part] P r :=
  opened ((List.append_nil part.children).symm ▸ h) hPart

/-- A part that stands in the way by itself. -/
theorem refused {e : Refusal} (h : part.obstacle? = some e.obstacle := by rfl) :
    Lowers (part :: parts) P (.error e) := .error (blocked_cons.2 (.inl h))

theorem name (hTold : places.Told) (n : Name) : Lowers [] n.Matches (n.lower places) :=
  span hTold fun _ => pure rfl

theorem nameSlot (hTold : places.Told) (n : Name) :
    Lowers [] (fun slot => ∃ ident, slot = .holds (.ident ident) ∧ n.Matches ident)
      (n.lowerSlot places) :=
  (name hTold n).map fun ident h => ⟨ident, rfl, h⟩

theorem name? (hTold : places.Told) (n : Option Name) :
    Lowers [] (Option.Rel Name.Matches n) (lowerName? places n) := by
  cases n with
  | none => exact pure .none
  | some n => exact (name hTold n).map fun _ => .some

end Lowers

theorem Expression.plainKey?_eq_some {computed : Bool} {key : Expression} {range : Range}
    {word : Bytes} (h : key.plainKey? computed = some (range, word)) :
    computed = false ∧ ∃ raw, key = .literal range raw (.string word) ∧ isQuoted raw = false := by
  unfold plainKey? at h
  split at h
  · rename_i raw text
    by_cases hBare : (computed || isQuoted raw) = true
    · rw [if_pos hBare] at h
      cases h
    · rw [if_neg hBare] at h
      cases h
      simp only [Bool.not_eq_true, Bool.or_eq_false_iff] at hBare
      exact ⟨hBare.1, raw, rfl, hBare.2⟩
  · cases h

theorem Expression.plainKey?_eq_none {computed : Bool} {key : Expression}
    (h : key.plainKey? computed = none) (word : Bytes) : ¬key.IsPlainKey computed word := by
  rintro ⟨rfl, range, raw, rfl, hBare⟩
  simp [plainKey?, hBare] at h

namespace Lowers

variable {e : Expression} {Q : α → Prop} {r : Except Refusal α}

/-- A pattern is refused for the part of it that takes the rest. -/
theorem noRest {rest : Option Expression}
    (hRest : part.obstacle? = (rest.map fun _ => Bytes.ofString "rest element").map .unsupported)
    (h : Lowers part.children Q r) : Lowers [part] Q (refuseRest rest >>= fun _ => r) := by
  cases rest with
  | some argument => exact refused hRest
  | none => exact inside h hRest

/-- The parameter that takes the rest of the arguments has to be a name. -/
theorem lastParameter (hTold : places.Told) (e : Expression) :
    Lowers [.rest e] e.MatchesRest (lowerRest places e) := by
  cases e with
  | absent => exact inside (inside (pure .absent))
  | name id => exact inside (inside ((name hTold id).map fun _ h => .name h))
  | _ => exact refused

end Lowers

theorem hasInitializer_iff {params : List Binding} :
    hasInitializer params = true ↔ ∃ b ∈ params, b.initializer ≠ .absent := by
  rw [hasInitializer, List.any_eq_true]
  refine exists_congr fun b => and_congr_right fun _ => ?_
  cases b with
  | bind target initializer => cases initializer <;> simp [Binding.initializer, Expression.isAbsent]

theorem Statement.not_isAbsent {s : Statement} (h : s ≠ .absent) : (!s.isAbsent) = true := by
  cases s with
  | absent => exact absurd rfl h
  | _ => rfl

/-- A loop over names whose head is there does not stand in the way by itself. -/
theorem Statement.headed {range : Range} {head : LoopHead} {source : Expression} {body : Statement}
    (h : head ≠ .absent) : (Part.statement (.forIn range head source body)).obstacle? = none := by
  cases head with
  | absent => exact absurd rfl h
  | _ => rfl

theorem refuseNoHead_eq {head : LoopHead} (h : head ≠ .absent) : refuseNoHead head = .ok () := by
  cases head with
  | absent => exact absurd rfl h
  | _ => rfl

/-- A handler with a parameter does not stand in the way by itself. -/
theorem Handler.bound {range : Range} {param : Expression} {body : Block} (h : param ≠ .absent) :
    (Part.handler (.clause range param body)).obstacle? = none := by
  cases param with
  | absent => exact absurd rfl h
  | _ => rfl

/-- A clause with statements has a range and does not stand in the way by itself. -/
theorem Case.ranged (start : Int) (test : Expression) {consequent : List Statement}
    (h : consequent ≠ []) : ∃ range, (Case.clause start test consequent).range? = some range ∧
      (Part.clause (.clause start test consequent)).obstacle? = none := by
  cases consequent with
  | nil => exact absurd rfl h
  | cons s rest =>
    refine ⟨⟨start, (rest.getLast?.getD s).range.stop⟩, ?_, rfl⟩
    rw [Case.range?, List.getLast?_cons]
    rfl

mutual

theorem Expression.lowers (hTold : places.Told) (e : Expression) :
    Lowers [.expression e] e.Matches (e.lower places) := by
  cases e with
  | absent => exact .inside (.pure .absent)
  | name id =>
    rw [Expression.lower]
    refine .inside ((Lowers.nameSlot hTold id).imp ?_)
    rintro _ ⟨ident, rfl, hName⟩
    exact .name hName
  | this range =>
    rw [Expression.lower]
    exact .inside (.span hTold fun span => .pure .this)
  | literal range raw value =>
    rw [Expression.lower]
    exact .inside (.span hTold fun span => .pure .literal)
  | array range elements =>
    rw [Expression.lower]
    exact .inside (.span hTold fun span =>
      (Expression.lowers_list hTold elements).map fun _ => .array)
  | object range entries =>
    rw [Expression.lower]
    exact .inside (.span hTold fun span => (Entry.lowers_list hTold entries).map fun _ => .object)
  | arrayPattern range elements =>
    rw [Expression.lower]
    refine .noRest rfl ?_
    exact .span hTold fun span =>
      (Expression.lowers_list hTold elements).map fun _ => .arrayPattern
  | objectPattern range entries =>
    rw [Expression.lower]
    refine .noRest rfl ?_
    exact .span hTold fun span => (Entry.lowers_list hTold entries).map fun _ => .objectPattern
  | spread argument =>
    rw [Expression.lower]
    exact .refused
  | function fn =>
    rw [Expression.lower]
    exact .inside (.span hTold fun span => (Function.lowers hTold fn).map fun _ => .function)
  | sequence range items =>
    rw [Expression.lower]
    exact .inside (.span hTold fun span =>
      (Expression.lowers_list hTold items).map fun _ => .sequence)
  | unary range operator operand =>
    rw [Expression.lower]
    exact .inside (.span hTold fun span => (Expression.lowers hTold operand).map fun _ => .unary)
  | update range operator postfixed operand =>
    rw [Expression.lower]
    exact .inside (.span hTold fun span => (Expression.lowers hTold operand).map fun _ => .update)
  | binary range operator left right =>
    rw [Expression.lower]
    refine .inside (.span hTold fun span => ?_)
    refine (Expression.lowers hTold left).bind fun slot₁ h₁ => ?_
    refine (Expression.lowers hTold right).map fun slot₂ h₂ => ?_
    cases hLogical : isLogical operator with
    | true => exact .logical hLogical h₁ h₂
    | false => exact .binary hLogical h₁ h₂
  | assign range compound left right =>
    rw [Expression.lower]
    refine .inside (.span hTold fun span => ?_)
    refine (Expression.lowers hTold left).bind fun slot₁ h₁ => ?_
    refine (Expression.lowers hTold right).map fun slot₂ h₂ => ?_
    cases compound with
    | none => exact .assign h₁ h₂
    | some operator => exact .compound h₁ h₂
  | conditional range test consequent alternate =>
    rw [Expression.lower]
    refine .inside (.span hTold fun span => ?_)
    refine (Expression.lowers hTold test).bind fun slot₁ h₁ => ?_
    refine (Expression.lowers hTold consequent).bind fun slot₂ h₂ => ?_
    exact (Expression.lowers hTold alternate).map fun _ => .conditional h₁ h₂
  | construct range callee arguments =>
    rw [Expression.lower]
    refine .inside (.span hTold fun span => ?_)
    refine (Expression.lowers hTold callee).bind fun slot hCallee => ?_
    exact (Expression.lowers_list hTold arguments).map fun _ => .construct hCallee
  | call range callee arguments =>
    rw [Expression.lower]
    refine .inside (.span hTold fun span => ?_)
    refine (Expression.lowers hTold callee).bind fun slot hCallee => ?_
    exact (Expression.lowers_list hTold arguments).map fun _ => .call hCallee
  | dot range object property =>
    rw [Expression.lower]
    refine .inside ((Lowers.nameSlot hTold property).bind (fun slot hSlot => ?_))
    obtain ⟨ident, rfl, hName⟩ := hSlot
    exact .span hTold fun span => (Expression.lowers hTold object).map fun _ h => .dot h hName
  | index range object property =>
    rw [Expression.lower]
    refine .inside (.span hTold fun span => ?_)
    refine (Expression.lowers hTold object).bind fun slot₁ h₁ => ?_
    exact (Expression.lowers hTold property).map fun _ => .index h₁
  | foreign range what =>
    rw [Expression.lower]
    exact .refused

theorem Expression.lowers_list (hTold : places.Told) (es : List Expression) :
    Lowers (es.map .expression) (List.Forall₂ Expression.Matches es)
      (Expression.lowerList places es) := by
  cases es with
  | nil => exact .pure .nil
  | cons e rest =>
    rw [Expression.lowerList]
    refine (Expression.lowers hTold e).bind fun first hFirst => ?_
    exact (Expression.lowers_list hTold rest).map fun _ => .cons hFirst

theorem Entry.lowers (hTold : places.Told) (e : Entry) :
    Lowers [.entry e] e.Matches (e.lower places) := by
  cases e with
  | keyed range kind computed key value =>
    rw [Entry.lower]
    refine .inside (.span hTold fun span => ?_)
    dsimp only
    cases hPlain : key.plainKey? computed with
    | some found =>
      obtain ⟨keyRange, word⟩ := found
      obtain ⟨rfl, raw, rfl, hBare⟩ := Expression.plainKey?_eq_some hPlain
      refine .opened (.span hTold fun keySpan => ?_)
      refine (Expression.lowers hTold value).map fun slot hValue => ?_
      exact .plain ⟨rfl, keyRange, raw, rfl, hBare⟩ hValue
    | none =>
      refine (Expression.lowers hTold key).bind fun slot₁ hKey => ?_
      refine (Expression.lowers hTold value).map fun slot₂ hValue => ?_
      exact .keyed (Expression.plainKey?_eq_none hPlain) hKey hValue
  | short id initializer =>
    by_cases hAbsent : initializer = .absent
    · subst hAbsent
      rw [Entry.lower]
      refine .inside (.opened ((Lowers.nameSlot hTold id).bind fun slot hSlot => ?_))
      obtain ⟨ident, rfl, hName⟩ := hSlot
      exact .span hTold fun span => .pure (.short hName)
    · rw [Entry.lower]
      · refine .inside ((Lowers.nameSlot hTold id).bind fun slot hSlot => ?_)
        obtain ⟨ident, rfl, hName⟩ := hSlot
        refine .span hTold fun span => ?_
        exact (Expression.lowers hTold initializer).map fun _ h => .initialized hName hAbsent h
      · exact hAbsent
  | spread argument =>
    rw [Entry.lower]
    exact .refused

theorem Entry.lowers_list (hTold : places.Told) (es : List Entry) :
    Lowers (es.map .entry) (List.Forall₂ Entry.Matches es) (Entry.lowerList places es) := by
  cases es with
  | nil => exact .pure .nil
  | cons e rest =>
    rw [Entry.lowerList]
    refine (Entry.lowers hTold e).bind fun first hFirst => ?_
    exact (Entry.lowers_list hTold rest).map fun _ => .cons hFirst

theorem Binding.lowers_targets (hTold : places.Told) (bs : List Binding) :
    Lowers (bs.map (.expression ·.target))
      (List.Forall₂ Expression.Matches (bs.map Binding.target))
      (Binding.lowerTargets places bs) := by
  cases bs with
  | nil => exact .pure .nil
  | cons b rest =>
    cases b with
    | bind target initializer =>
      rw [Binding.lowerTargets]
      refine (Expression.lowers hTold target).bind fun first hFirst => ?_
      exact (Binding.lowers_targets hTold rest).map fun _ => .cons hFirst

theorem Binding.lowers_initializers (hTold : places.Told) (bs : List Binding) :
    Lowers (bs.map (.expression ·.initializer))
      (List.Forall₂ Expression.Matches (bs.map Binding.initializer))
      (Binding.lowerInitializers places bs) := by
  cases bs with
  | nil => exact .pure .nil
  | cons b rest =>
    cases b with
    | bind target initializer =>
      rw [Binding.lowerInitializers]
      refine (Expression.lowers hTold initializer).bind fun first hFirst => ?_
      exact (Binding.lowers_initializers hTold rest).map fun _ => .cons hFirst

theorem Binding.lowers_list (hTold : places.Told) (bs : List Binding) :
    Lowers (bs.flatMap Binding.parts) (List.Forall₂ Binding.Matches bs)
      (Binding.lowerList places bs) := by
  cases bs with
  | nil => exact .pure .nil
  | cons b rest =>
    cases b with
    | bind target initializer =>
      rw [Binding.lowerList]
      refine .span hTold fun span => ?_
      show Lowers ([Part.expression target] ++ ([Part.expression initializer] ++ _)) _ _
      refine (Expression.lowers hTold target).bind fun id hTarget => ?_
      refine (Expression.lowers hTold initializer).bind fun init hInit => ?_
      exact (Binding.lowers_list hTold rest).map fun _ => .cons (.bind hTarget hInit)

theorem Function.lowers (hTold : places.Told) (f : Function) :
    Lowers [.function f] f.Matches (f.lower places) := by
  cases f with
  | mk range async generator id params rest body =>
    rw [Function.lower]
    cases async with
    | true => exact .refused
    | false =>
      refine .inside ((Lowers.name? hTold id).bind fun ident hName => ?_)
      refine (Binding.lowers_targets hTold params).bind fun targets hTargets => ?_
      refine (Binding.lowers_initializers hTold params).bind fun defaults hDefaults => ?_
      refine (Lowers.lastParameter hTold rest).bind fun last hLast => ?_
      refine (Block.lowers hTold body).map fun block hBlock => ?_
      by_cases hSome : hasInitializer params = true
      · rw [if_pos hSome]
        exact .defaulted hName (hasInitializer_iff.1 hSome) hTargets hDefaults hLast hBlock
      · rw [if_neg hSome]
        refine .plain hName (fun b hb => ?_) hTargets hLast hBlock
        by_contra hInitializer
        exact hSome (hasInitializer_iff.2 ⟨b, hb, hInitializer⟩)

theorem Block.lowers (hTold : places.Told) (b : Block) :
    Lowers [.block b] b.Matches (b.lower places) := by
  cases b with
  | absent => exact .inside (.pure .absent)
  | braces range body =>
    rw [Block.lower]
    exact .inside (.span hTold fun span => (Statement.lowers_list hTold body).map fun _ => .braces)

theorem Statement.lowers (hTold : places.Told) (s : Statement) :
    Lowers [.statement s] s.Matches (s.lower places) := by
  cases s with
  | absent => exact .inside (.pure .absent)
  | empty range =>
    rw [Statement.lower]
    exact .inside (.span hTold fun span => .pure .empty)
  | block b =>
    cases b with
    | absent => exact .inside (.inside (.pure .noBlock))
    | braces range body =>
      rw [Statement.lower]
      refine .inside (.inside (.span hTold fun span => ?_))
      exact (Statement.lowers_list hTold body).map fun _ => .block
  | expression e =>
    rw [Statement.lower]
    exact .inside (.span hTold fun span => (Expression.lowers hTold e).map fun _ => .expression)
  | conditional range test consequent alternate =>
    rw [Statement.lower]
    refine .inside (.span hTold fun span => ?_)
    refine (Expression.lowers hTold test).bind fun slot hTest => ?_
    refine (Statement.lowers hTold consequent).bind fun stmt₁ h₁ => ?_
    exact (Statement.lowers hTold alternate).map fun _ => .conditional hTest h₁
  | labeled range label body =>
    rw [Statement.lower]
    refine .inside (.span hTold fun span => ?_)
    refine (Lowers.name hTold label).bind fun id hLabel => ?_
    exact (Statement.lowers hTold body).map fun _ => .labeled hLabel
  | breakTo range label =>
    rw [Statement.lower]
    refine .inside ((Lowers.name? hTold label).bind fun id hLabel => ?_)
    exact .span hTold fun span => .pure (.breakTo hLabel)
  | continueTo range label =>
    rw [Statement.lower]
    refine .inside ((Lowers.name? hTold label).bind fun id hLabel => ?_)
    exact .span hTold fun span => .pure (.continueTo hLabel)
  | withObject range object body =>
    rw [Statement.lower]
    refine .inside (.span hTold fun span => ?_)
    refine (Expression.lowers hTold object).bind fun slot hObject => ?_
    exact (Statement.lowers hTold body).map fun _ => .withObject hObject
  | switchOn range discriminant cases =>
    rw [Statement.lower]
    refine .inside ((Case.lowers_list hTold cases).bind fun clauses hClauses => ?_)
    refine .span hTold fun span => ?_
    exact (Expression.lowers hTold discriminant).map fun _ h => .switchOn h hClauses
  | returnValue range argument =>
    rw [Statement.lower]
    exact .inside (.span hTold fun span =>
      (Expression.lowers hTold argument).map fun _ => .returnValue)
  | throwValue range argument =>
    rw [Statement.lower]
    exact .inside (.span hTold fun span =>
      (Expression.lowers hTold argument).map fun _ => .throwValue)
  | tryCatch range body handler finalizer =>
    rw [Statement.lower]
    refine .inside ((Handler.lowers hTold handler).bind fun handler' hHandler => ?_)
    refine (Block.lowers hTold finalizer).bind fun finalizer' hFinalizer => ?_
    refine .span hTold fun span => ?_
    exact (Block.lowers hTold body).map fun _ h => .tryCatch h hHandler hFinalizer
  | whileLoop range test body =>
    rw [Statement.lower]
    refine .inside (.span hTold fun span => ?_)
    refine (Expression.lowers hTold test).bind fun slot hTest => ?_
    exact (Statement.lowers hTold body).map fun _ => .whileLoop hTest
  | doWhile range body test =>
    rw [Statement.lower]
    refine .inside (.span hTold fun span => ?_)
    refine (Statement.lowers hTold body).bind fun stmt hBody => ?_
    exact (Expression.lowers hTold test).map fun _ => .doWhile hBody
  | forLoop range init test update body =>
    rw [Statement.lower]
    refine .inside (.span hTold fun span => ?_)
    refine (LoopHead.lowers hTold init).bind fun head hInit => ?_
    refine (Expression.lowers hTold test).bind fun slot₁ hTest => ?_
    refine (Expression.lowers hTold update).bind fun slot₂ hUpdate => ?_
    exact (Statement.lowers hTold body).map fun _ => .forLoop hInit hTest hUpdate
  | forIn range head source body =>
    rw [Statement.lower]
    by_cases hHead : head = .absent
    · subst hHead
      refine .span hTold fun span => ?_
      exact .refused
    · refine .inside (.span hTold fun span => ?_) (Statement.headed hHead)
      rw [refuseNoHead_eq hHead]
      refine (LoopHead.lowers hTold head).bind fun head' hInto => ?_
      refine (Expression.lowers hTold source).bind fun slot hSource => ?_
      exact (Statement.lowers hTold body).map fun _ => .forIn hInto hSource
  | forOf range => exact .refused
  | debugger range =>
    rw [Statement.lower]
    exact .inside (.span hTold fun span => .pure .debugger)
  | declaration range kind bindings =>
    rw [Statement.lower]
    exact .inside (.span hTold fun span =>
      (Binding.lowers_list hTold bindings).map fun _ => .declaration)
  | function fn =>
    rw [Statement.lower]
    exact .inside (.span hTold fun span => (Function.lowers hTold fn).map fun _ => .function)
  | classDeclaration range => exact .refused
  | foreign range type => exact .refused

theorem Statement.lowers_list (hTold : places.Told) (ss : List Statement) :
    Lowers (ss.map .statement) (List.Forall₂ Statement.Matches (ss.filter (!·.isAbsent)))
      (Statement.lowerList places ss) := by
  cases ss with
  | nil => exact .pure .nil
  | cons s rest =>
    by_cases hAbsent : s = .absent
    · subst hAbsent
      rw [Statement.lowerList]
      exact .opened (Statement.lowers_list hTold rest)
    · rw [Statement.lowerList]
      · rw [List.filter_cons, if_pos (Statement.not_isAbsent hAbsent)]
        refine (Statement.lowers hTold s).bind fun first hFirst => ?_
        exact (Statement.lowers_list hTold rest).map fun _ => .cons hFirst
      · exact hAbsent

theorem Case.lowers_list (hTold : places.Told) (cs : List Case) :
    Lowers (cs.map .clause) (List.Forall₂ Case.Matches cs) (Case.lowerList places cs) := by
  cases cs with
  | nil => exact .pure .nil
  | cons c rest =>
    cases c with
    | clause start test consequent =>
      rw [Case.lowerList]
      by_cases hEmpty : consequent = []
      · subst hEmpty
        exact .refused
      · obtain ⟨range, hRange, hClause⟩ := Case.ranged start test hEmpty
        rw [hRange]
        refine .opened (.span hTold fun span => ?_) hClause
        show Lowers ([Part.expression test] ++
          (consequent.map Part.statement ++ rest.map Part.clause)) _ _
        refine (Expression.lowers hTold test).bind fun slot hTest => ?_
        refine (Statement.lowers_list hTold consequent).bind fun stmts hBody => ?_
        exact (Case.lowers_list hTold rest).map fun _ => .cons (.clause hTest hBody)

theorem Handler.lowers (hTold : places.Told) (h : Handler) :
    Lowers [.handler h] h.Matches (h.lower places) := by
  cases h with
  | absent => exact .inside (.pure .absent)
  | clause range param body =>
    by_cases hAbsent : param = .absent
    · subst hAbsent
      exact .refused
    · rw [Handler.lower]
      · refine .inside (.span hTold fun span => ?_) (Handler.bound hAbsent)
        refine (Expression.lowers hTold param).bind fun slot hParam => ?_
        exact (Block.lowers hTold body).map fun _ => .clause hParam
      · exact hAbsent

theorem LoopHead.lowers (hTold : places.Told) (h : LoopHead) :
    Lowers [.head h] h.Matches (h.lower places) := by
  cases h with
  | absent => exact .inside (.pure .absent)
  | declaration range kind bindings =>
    rw [LoopHead.lower]
    refine .inside ((Binding.lowers_list hTold bindings).andThen fun declarators h => ?_)
    exact .span hTold fun span => .pure (.declaration h)
  | expression e =>
    rw [LoopHead.lower]
    exact .inside ((Expression.lowers hTold e).map fun _ => .expression)

end

/-! ### Programs -/

theorem Statement.rangeOfList?_isSome {body : List Statement} (h : body ≠ []) :
    ∃ range, Statement.rangeOfList? body = some range := by
  cases body with
  | nil => exact absurd rfl h
  | cons s rest =>
    refine ⟨s.range.to (rest.getLast?.getD s).range, ?_⟩
    rw [Statement.rangeOfList?, List.getLast?_cons]
    rfl

theorem Script.lowers (hTold : places.Told) {s : Script} (hBody : s.body ≠ []) :
    Lowers (s.body.map .statement) s.Matches (s.lower places) := by
  obtain ⟨range, hRange⟩ := Statement.rangeOfList?_isSome hBody
  unfold Script.lower
  rw [hRange]
  refine (Statement.lowers_list hTold s.body).andThen fun body hMatches => ?_
  exact .span hTold fun span => .pure hMatches

theorem Part.obstacle?_eq_unsupported {what : Bytes} :
    part.obstacle? = some (.unsupported what) ↔ part.unsupported? = some what := by
  unfold obstacle?
  split
  · simp [unsupported?]
  · simp

theorem Part.obstacle?_eq_untold (h : part.obstacle? = some .untold) :
    ∃ start test, part = .clause (.clause start test []) := by
  unfold obstacle? at h
  split at h
  · exact ⟨_, _, rfl⟩
  · simp at h

/-- Where all offsets can be told, what is refused is a syntax error that names it. -/
theorem Refusal.readError_unsupported (hTold : places.Told) (source : Source) (what : Bytes)
    (range : Option Range) :
    ∃ location, (Refusal.unsupported what range).readError source places =
      .reported (.syntactic location (what ++ Bytes.ofString " is not supported") what) := by
  cases range with
  | none => exact ⟨_, rfl⟩
  | some range =>
    obtain ⟨span, hSpan⟩ := hTold.span range
    refine ⟨⟨span.start.line, span.start.column, range.start, range.stop, some source⟩, ?_⟩
    rw [Refusal.readError, Harmony.unsupported, hSpan]
    rfl

/-- A script with statements, in which no clause is empty, is brought into the optimizer's tree as a
whole or not at all. If all of its parts are supported, at whatever depth, it becomes a program that
shows it: with the same structure, operators, names and literals, and with holes and absent parts
where it has them. If any part is not supported, there is no program, but a syntax error that names
such a part. -/
theorem convert_faithful {source : Source} {places : Places} {s : Script} (hTold : places.Told)
    (hBody : s.body ≠ [])
    (hClauses : ∀ start test consequent,
      s.Holds (.clause (.clause start test consequent)) → consequent ≠ []) :
    ((∀ part, s.Holds part → part.unsupported? = none) →
      ∃ p, convert source places s = .ok p ∧ s.Matches p) ∧
    ((∃ part, s.Holds part ∧ part.unsupported? ≠ none) →
      ∃ part what d, s.Holds part ∧ part.unsupported? = some what ∧
        convert source places s = .error (.reported d) ∧ d.kind = .syntactic ∧
        d.message = what ++ Bytes.ofString " is not supported" ∧ d.actual = what) := by
  have hLowers := Script.lowers hTold hBody
  unfold convert
  generalize s.lower places = r at hLowers
  cases hLowers with
  | ok hMatches hFree =>
    refine ⟨fun _ => ⟨_, rfl, hMatches⟩, ?_⟩
    rintro ⟨part, hHolds, hSome⟩
    obtain ⟨what, hWhat⟩ := Option.ne_none_iff_exists'.1 hSome
    exact absurd ⟨part, hHolds, Part.obstacle?_eq_unsupported.2 hWhat⟩ (hFree _)
  | @error refusal hBlocked =>
    obtain ⟨part, hHolds, hObstacle⟩ := hBlocked
    cases refusal with
    | untold =>
      obtain ⟨start, test, rfl⟩ := Part.obstacle?_eq_untold hObstacle
      exact absurd rfl (hClauses start test [] hHolds)
    | unsupported what range =>
      have hWhat := Part.obstacle?_eq_unsupported.1 hObstacle
      obtain ⟨location, hError⟩ := Refusal.readError_unsupported hTold source what range
      refine ⟨fun hAll => ?_, fun _ => ?_⟩
      · rw [hAll part hHolds] at hWhat
        cases hWhat
      · exact ⟨part, what, _, hHolds, hWhat, congrArg Except.error hError, rfl, rfl, rfl⟩

/-- A `switch` whose clause steps a name, and one whose clause has an arrow function in an array. -/
theorem convert_faithful_switch :
    let range : Range := ⟨0, 1⟩
    let places : Places := fun offset => .ok ⟨1, offset, offset⟩
    let source := Source.inline []
    let script (e : Expression) : Script :=
      ⟨[.switchOn range (.name ⟨0, "x"⟩) [.clause 0 .absent [.expression e]]]⟩
    let stepped := script (.update range "++" true (.name ⟨0, "x"⟩))
    let arrow := script (.array range [.absent, .foreign range .arrowFunction])
    (∃ p, convert source places stepped = .ok p ∧ stepped.Matches p) ∧
    ∃ d, convert source places arrow = .error (.reported d) ∧ d.kind = .syntactic ∧
      d.message = "arrow function is not supported" := by
  intro range places source script stepped arrow
  have hTold : places.Told := fun offset => ⟨_, rfl⟩
  have hStepped := @convert_faithful source places stepped hTold (List.cons_ne_nil _ _)
    fun start test consequent hHolds => by
      simp [Script.Holds, stepped, script] at hHolds
      simp [hHolds]
  have hArrow := @convert_faithful source places arrow hTold (List.cons_ne_nil _ _)
    fun start test consequent hHolds => by
      simp [Script.Holds, arrow, script] at hHolds
      simp [hHolds]
  refine ⟨hStepped.1 fun part hHolds => ?_, ?_⟩
  · simp [Script.Holds, stepped, script] at hHolds
    rcases hHolds with rfl | rfl | rfl | rfl | rfl | rfl | rfl <;> rfl
  · obtain ⟨part, what, d, hHolds, hWhat, hError, hKind, hMessage, -⟩ :=
      hArrow.2 ⟨.expression (.foreign range .arrowFunction), by simp [Script.Holds, arrow, script],
        Option.some_ne_none _⟩
    refine ⟨d, hError, hKind, hMessage.trans ?_⟩
    simp [Script.Holds, arrow, script] at hHolds
    -- Only the arrow function is a part that is not supported.
    rcases hHolds with rfl | rfl | rfl | rfl | rfl | rfl | rfl | rfl <;> cases hWhat
    rfl

end ScriptOptimizer.Harmony
