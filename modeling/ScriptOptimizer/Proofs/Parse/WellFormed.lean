import ScriptOptimizer.Pattern.Check
import ScriptOptimizer.Proofs.Parse.PairedProgram
import ScriptOptimizer.Proofs.Syntax.WellFormed

/-!
Programs that were read are well-formed. What the grammar gives is formed in a context, the context
of a node is what the nodes around it make of it, and so what a rule checked against its context
holds of the nodes around.
-/

namespace ScriptOptimizer

/-- Any token at all. -/
def TokenSet.any : TokenSet := fun _ _ => True

theorem Ident.from_any (dot : Bool) (id : Ident) : id.From .any dot :=
  ⟨{ type := .identifier, literal := [], value := id.name, line := 1, column := 1, start := 0,
     stop := 0 }, trivial, rfl, rfl⟩

namespace Node

/-- The context inside a node of what it stands in. -/
def inner (c : Context) (n : Node) : Context :=
  if n.isFunction then .function
  else if n.isLoop then c.loop
  else if n.isSwitch then c.switch
  else match n.label? with
    | some name => c.label name
    | none => c

/-- The context that the nodes around make. -/
def context : List Node → Context
  | [] => .program
  | n :: around => inner (context around) n

/-- The node is one that the grammar can give in a context. -/
def Formed (c : Context) : Node → Prop
  | .program p => c = .program ∧ Stmt.AllFormed .any .program p.body
  | .stmt s => s.Formed .any c
  | .expr e => e.Formed .any
  | .property p => p.Formed .any
  | .case k => k.Formed .any c
  | .handler h => h ≠ .absent ∧ h.Optional .any c
  | .declarator d => d.Formed .any

end Node

/-- All children are ones that the grammar can give in a context. -/
def Child.Formed (c : Context) (list : List Child) : Prop := ∀ child ∈ list, child.node.Formed c

namespace Child.Formed

variable {c : Context}

theorem nil : Child.Formed c [] := List.forall_mem_nil _

theorem append {xs ys : List Child} (hxs : Child.Formed c xs) (hys : Child.Formed c ys) :
    Child.Formed c (xs ++ ys) := by
  intro child hMem
  exact (List.mem_append.mp hMem).elim (hxs child) (hys child)

theorem single {n : Node} {b : Bool} (h : n.Formed c) : Child.Formed c [⟨n, b⟩] := by
  intro child hMem
  obtain rfl := List.mem_singleton.mp hMem
  exact h

theorem slot {s : Slot} (h : s.Optional .any) : Child.Formed c (Child.slot s) := by
  cases s with
  | absent => exact nil
  | vacant => exact nil
  | holds e => exact single h

theorem slots {list : List Slot} (h : ∀ s ∈ list, s.Optional .any) :
    Child.Formed c (Child.slots list) := by
  intro child hMem
  obtain ⟨s, hs, hChild⟩ := List.mem_flatMap.mp hMem
  exact slot (h s hs) child hChild

theorem stmt {s : Stmt} (h : s = .absent ∨ s.Formed .any c) : Child.Formed c (Child.stmt s) := by
  unfold Child.stmt
  split
  · next hPresent =>
    refine single (h.resolve_left ?_)
    rintro rfl
    cases hPresent
  · exact nil

theorem stmts {list : List Stmt} (h : Stmt.AllFormed .any c list) :
    Child.Formed c (Child.stmts list) := by
  intro child hMem
  obtain ⟨s, hs, hChild⟩ := List.mem_flatMap.mp hMem
  exact stmt (.inr (Stmt.allFormed_iff.mp h s hs)) child hChild

theorem ident (id : Option Ident) : Child.Formed c (Child.ident id) := by
  cases id with
  | none => exact nil
  | some id => exact single (Ident.from_any false id)

theorem block {b : Block} (h : b = .absent ∨ b.Formed .any c) : Child.Formed c (Child.block b) := by
  refine stmt ?_
  cases b with
  | absent => exact .inl rfl
  | braces => exact .inr (h.resolve_left nofun)

theorem declarators {list : List Declarator} (h : Declarator.AllFormed .any list) :
    Child.Formed c (Child.declarators list) := by
  intro child hMem
  obtain ⟨d, hd, rfl⟩ := List.mem_map.mp hMem
  exact Declarator.allFormed_iff.mp h d hd

theorem properties {list : List Property} (h : Property.AllFormed .any list) :
    Child.Formed c (Child.properties list) := by
  intro child hMem
  obtain ⟨p, hp, hChild⟩ := List.mem_flatMap.mp hMem
  have hFormed := Property.allFormed_iff.mp h p hp
  cases p with
  | absent => exact hFormed.elim
  | entry =>
    obtain rfl := List.mem_singleton.mp hChild
    exact hFormed

theorem forHead {head : ForHead} (h : head.Formed .any) : Child.Formed c (Child.forHead head) := by
  cases head with
  | absent => exact nil
  | declaration => exact single h
  | expression s =>
    refine slot ?_
    cases s with
    | holds e => exact h
    | _ => exact h.elim

end Child.Formed

variable {c : Context}

theorem Slot.Formed.optional {ts : TokenSet} {s : Slot} (h : s.Formed ts) : s.Optional ts := by
  cases s with
  | holds e => exact h
  | _ => exact h.elim

theorem Slot.NameFrom.optional {dot : Bool} {ts : TokenSet} {s : Slot} (h : s.NameFrom ts dot) :
    s.Optional .any := by
  cases s with
  | holds e =>
    cases e with
    | ident id => exact Ident.from_any false id
    | _ => exact h.elim
  | _ => exact h.elim

theorem Slot.KeyFrom.optional {ts : TokenSet} {s : Slot} (h : s.KeyFrom ts) :
    s.Optional .any := by
  cases s with
  | holds e =>
    cases e with
    | ident id => exact Ident.from_any false id
    | literal lit =>
      obtain ⟨t, -, hType, hRaw, hValue⟩ := h
      refine ⟨t, trivial, ?_, hRaw, hValue⟩
      simp only [TokenType.isKeyLiteral, Bool.or_eq_true, decide_eq_true_eq] at hType
      rcases hType with hType | hType <;> rw [hType] <;> rfl
    | _ => exact h.elim
  | _ => exact h.elim

theorem Slot.AllFormed.optional {ts : TokenSet} {list : List Slot} (h : Slot.AllFormed ts list) :
    ∀ s ∈ list, s.Optional ts :=
  fun s hs => (Slot.allFormed_iff.mp h s hs).optional

theorem Child.Formed.function {fn : Function} (h : fn.Formed .any) :
    Child.Formed .function (Child.function fn) := by
  obtain ⟨id, params, defaults, rest, body, generator⟩ := fn
  obtain ⟨⟨-, hParams, rfl, rfl, -⟩, hBody⟩ := h
  refine (((ident id).append (slots fun p hp => (hParams p hp).optional)).append ?_).append ?_
    |>.append (block (.inr hBody))
  · exact nil
  · exact ident none

/-- The children of an expression that the grammar can give. -/
theorem Expr.Formed.children {e : Expr} (h : e.Formed .any) :
    Child.Formed ((Node.expr e).inner c) (Child.ofExpr e) := by
  cases e with
  | ident => exact .nil
  | literal => exact .nil
  | this => exact .nil
  | array => exact .slots (Slot.allOptional_iff.mp h)
  | object => exact .properties h
  | function => exact .function h
  | sequence => exact .slots h.2.optional
  | unary => exact .slot h.2.optional
  | binary => exact .append (.slot h.2.1.optional) (.slot h.2.2.optional)
  | logical => exact .append (.slot h.2.1.optional) (.slot h.2.2.optional)
  | assign => exact .append (.slot h.2.2.1.optional) (.slot h.2.2.2.optional)
  | update => exact .slot h.2.2.optional
  | conditional =>
    exact .append (.append (.slot h.1.optional) (.slot h.2.1.optional)) (.slot h.2.2.optional)
  | construct => exact .append (.slot h.1.optional) (.slots h.2.optional)
  | call => exact .append (.slot h.1.optional) (.slots h.2.optional)
  | member span object property computed =>
    refine .append (.slot h.1.optional) (.slot ?_)
    cases computed with
    | true => exact Slot.Formed.optional h.2
    | false => exact Slot.NameFrom.optional h.2
  | objectPattern => exact h.elim
  | arrayPattern => exact h.elim

/-- The children of a statement that the grammar can give. -/
theorem Stmt.Formed.children {s : Stmt} (h : s.Formed .any c) :
    Child.Formed ((Node.stmt s).inner c) (Child.ofStmt s) := by
  cases s with
  | absent => exact .nil
  | empty => exact .nil
  | block => exact .stmts h
  | expression => exact .slot h.optional
  | conditional =>
    exact .append (.append (.slot h.1.optional) (.stmt (.inr h.2.1)))
      (.stmt (h.2.2.imp_right And.left))
  | labeled span label body =>
    obtain ⟨id, rfl, hName, hNew, hBody⟩ := h
    exact .append (.ident _) (.stmt (.inr hBody))
  | breakTo => exact .ident _
  | continueTo => exact .ident _
  | withObject => exact .append (.slot h.1.optional) (.stmt (.inr h.2))
  | switchOn span discriminant cases =>
    refine .append (.slot h.1.optional) fun child hMem => ?_
    obtain ⟨k, hk, rfl⟩ := List.mem_map.mp hMem
    exact Case.allFormed_iff.mp h.2.2 k hk
  | returnValue => exact .slot h.2
  | throwValue => exact .slot h.optional
  | tryCatch span block handler finalizer =>
    refine .append (.append (.block (.inr h.1)) ?_) (.block h.2.2.1)
    cases handler with
    | absent => exact .nil
    | clause => exact .single ⟨nofun, h.2.1⟩
  | whileLoop => exact .append (.slot h.1.optional) (.stmt (.inr h.2))
  | doWhile => exact .append (.stmt (.inr h.1)) (.slot h.2.optional)
  | forLoop =>
    exact .append (.append (.append (.forHead h.1) (.slot h.2.1)) (.slot h.2.2.1))
      (.stmt (.inr h.2.2.2))
  | forIn =>
    exact .append (.append (.forHead h.1) (.slot h.2.2.1.optional)) (.stmt (.inr h.2.2.2))
  | debugger => exact .nil
  | function => exact .function h.2
  | declaration => exact .declarators h.2.2

theorem Node.Formed.children {n : Node} (h : n.Formed c) :
    Child.Formed (n.inner c) n.children := by
  cases n with
  | program p =>
    obtain ⟨rfl, hBody⟩ := h
    exact .stmts hBody
  | stmt s => exact Stmt.Formed.children h
  | expr e => exact Expr.Formed.children h
  | property p =>
    cases p with
    | absent => exact h.elim
    | entry span kind key value computed shorthand =>
      obtain ⟨hKey, hValue, -, -, rfl⟩ := h
      exact .append (.slot hKey.optional) (.slot hValue.optional)
  | case k =>
    obtain ⟨span, test, consequent⟩ := k
    exact .append (.slot h.1) (.stmts h.2)
  | handler k =>
    cases k with
    | absent => exact .nil
    | clause => exact .append (.slot h.2.1.optional) (.block (.inr h.2.2))
  | declarator d =>
    obtain ⟨span, id, init⟩ := d
    exact .append (.slot h.1.optional) (.slot h.2)

/-- Every node is one that the grammar can give in the context that the nodes around it make. -/
theorem Program.Has.formed {p : Program} (h : Stmt.AllFormed .any .program p.body)
    {around : List Node} {n : Node} (hHas : p.Has around n) : n.Formed (Node.context around) := by
  induction hHas with
  | root => exact ⟨rfl, h⟩
  | child hHas hChild ih => exact ih.children _ hChild

/-! ### What a context says of the nodes around -/

namespace Node

variable {n : Node} {around : List Node} {name : Bytes}

theorem own_cons : own (n :: around) = if n.isFunction then [] else n :: own around := by
  unfold own
  rw [List.takeWhile_cons]
  cases n.isFunction <;> rfl

theorem label_none (h : n.isLoop = true ∨ n.isSwitch = true) : n.label? = none := by
  cases n with
  | stmt s => cases s <;> simp_all [isLoop, isSwitch, label?]
  | _ => rfl

/-- What a node adds to the context of what stands in it. -/
theorem inner_cases (c : Context) (n : Node) :
    n.isFunction = true ∧ n.inner c = .function ∨ n.isFunction = false ∧
      (n.isLoop = true ∧ n.label? = none ∧ n.inner c = c.loop ∨
        n.isSwitch = true ∧ n.label? = none ∧ n.inner c = c.switch ∨
        (∃ name, n.label? = some name ∧ n.inner c = c.label name) ∨
        n.label? = none ∧ n.inner c = c) := by
  unfold inner
  cases hFunction : n.isFunction with
  | true => exact .inl ⟨rfl, rfl⟩
  | false =>
    refine .inr ⟨rfl, ?_⟩
    cases hLoop : n.isLoop with
    | true => exact .inl ⟨rfl, label_none (.inl hLoop), rfl⟩
    | false =>
      cases hSwitch : n.isSwitch with
      | true => exact .inr (.inl ⟨rfl, label_none (.inr hSwitch), rfl⟩)
      | false =>
        cases hLabel : n.label? with
        | some name => exact .inr (.inr (.inl ⟨name, rfl, rfl⟩))
        | none => exact .inr (.inr (.inr ⟨rfl, rfl⟩))

theorem context_inFunction (h : (context around).inFunction = true) :
    ∃ n ∈ around, n.isFunction = true := by
  induction around with
  | nil => cases h
  | cons n around ih =>
    rcases inner_cases (context around) n with ⟨hFunction, -⟩ | ⟨-, hInner⟩
    · exact ⟨n, List.mem_cons_self, hFunction⟩
    · have hOuter : (context around).inFunction = true := by
        rw [context] at h
        rcases hInner with ⟨-, -, hEq⟩ | ⟨-, -, hEq⟩ | ⟨_, -, hEq⟩ | ⟨-, hEq⟩
        all_goals rw [hEq] at h; exact h
      obtain ⟨m, hMem, hm⟩ := ih hOuter
      exact ⟨m, List.mem_cons_of_mem _ hMem, hm⟩

theorem context_inLoop (h : (context around).inLoop = true) :
    ∃ n ∈ own around, n.isLoop = true := by
  induction around with
  | nil => cases h
  | cons n around ih =>
    rw [context] at h
    rw [own_cons]
    rcases inner_cases (context around) n with ⟨-, hEq⟩ | ⟨hFunction, hInner⟩
    · rw [hEq] at h
      cases h
    · rw [hFunction, if_neg Bool.false_ne_true, List.exists_mem_cons_iff]
      rcases hInner with ⟨hLoop, -⟩ | ⟨-, -, hEq⟩ | ⟨_, -, hEq⟩ | ⟨-, hEq⟩
      · exact .inl hLoop
      all_goals rw [hEq] at h; exact .inr (ih h)

theorem context_inSwitch (h : (context around).inSwitch = true) :
    ∃ n ∈ own around, n.isSwitch = true := by
  induction around with
  | nil => cases h
  | cons n around ih =>
    rw [context] at h
    rw [own_cons]
    rcases inner_cases (context around) n with ⟨-, hEq⟩ | ⟨hFunction, hInner⟩
    · rw [hEq] at h
      cases h
    · rw [hFunction, if_neg Bool.false_ne_true, List.exists_mem_cons_iff]
      rcases hInner with ⟨-, -, hEq⟩ | ⟨hSwitch, -⟩ | ⟨_, -, hEq⟩ | ⟨-, hEq⟩
      rotate_left
      · exact .inl hSwitch
      all_goals rw [hEq] at h; exact .inr (ih h)

/-- The labels of a context are those of the nodes around in the same function. -/
theorem context_labels :
    (context around).labels.contains name = true ↔ ∃ n ∈ own around, n.label? = some name := by
  induction around with
  | nil => simp [context, Context.program, own]
  | cons n around ih =>
    rw [context, own_cons]
    rcases inner_cases (context around) n with ⟨hFunction, hEq⟩ | ⟨hFunction, hInner⟩
    · rw [hEq, hFunction]
      simp [Context.function]
    · rw [hFunction, if_neg Bool.false_ne_true, List.exists_mem_cons_iff, ← ih]
      rcases hInner with ⟨-, hNone, hEq⟩ | ⟨-, hNone, hEq⟩ | ⟨label, hSome, hEq⟩ | ⟨hNone, hEq⟩
      · rw [hEq, hNone]
        simp [Context.loop]
      · rw [hEq, hNone]
        simp [Context.switch]
      · rw [hEq, hSome]
        simp [Context.label, @eq_comm _ name label]
      · rw [hEq, hNone]
        simp

end Node

/-! ### The parts of a node -/

theorem Slot.Formed.isHeld {ts : TokenSet} {s : Slot} (h : s.Formed ts) : s.isHeld = true := by
  cases s with
  | holds => rfl
  | _ => exact h.elim

theorem Slot.Optional.isWhole {ts : TokenSet} {s : Slot} (h : s.Optional ts) :
    s.isWhole = true := by
  cases s with
  | vacant => exact h.elim
  | _ => rfl

theorem Slot.NameFrom.isHeld {dot : Bool} {ts : TokenSet} {s : Slot} (h : s.NameFrom ts dot) :
    s.isHeld = true := by
  cases s with
  | holds => rfl
  | _ => exact h.elim

theorem Slot.NameFrom.isName {dot : Bool} {ts : TokenSet} {s : Slot} (h : s.NameFrom ts dot) :
    s.isName = true := by
  cases s with
  | holds e =>
    cases e with
    | ident => rfl
    | _ => exact h.elim
  | _ => exact h.elim

theorem Slot.KeyFrom.isHeld {ts : TokenSet} {s : Slot} (h : s.KeyFrom ts) : s.isHeld = true := by
  cases s with
  | holds => rfl
  | _ => exact h.elim

theorem Slot.AllFormed.isHeld {ts : TokenSet} {list : List Slot} (h : Slot.AllFormed ts list) :
    list.all Slot.isHeld = true :=
  List.all_eq_true.mpr fun s hs => (Slot.allFormed_iff.mp h s hs).isHeld

theorem Stmt.Formed.isPresent {ts : TokenSet} {s : Stmt} (h : s.Formed ts c) :
    s.isPresent = true := by
  cases s with
  | absent => exact h.elim
  | _ => rfl

theorem Stmt.AllFormed.isPresent {ts : TokenSet} {list : List Stmt} (h : Stmt.AllFormed ts c list) :
    list.all Stmt.isPresent = true :=
  List.all_eq_true.mpr fun s hs => (Stmt.allFormed_iff.mp h s hs).isPresent

theorem Block.Formed.isPresent {ts : TokenSet} {b : Block} (h : b.Formed ts c) :
    b.isPresent = true := by
  cases b with
  | absent => exact h.elim
  | braces => rfl

theorem Function.Formed.parts {ts : TokenSet} {fn : Function} (h : fn.Formed ts) :
    fn.hasBody = true ∧ fn.params.all Slot.isHeld = true := by
  obtain ⟨id, params, defaults, rest, body, generator⟩ := fn
  obtain ⟨⟨-, hParams, -⟩, hBody⟩ := h
  exact ⟨hBody.isPresent, List.all_eq_true.mpr fun p hp => (hParams p hp).isHeld⟩

theorem Function.Formed.isPlain {ts : TokenSet} {fn : Function} (h : fn.Formed ts) :
    fn.isPlain = true := by
  obtain ⟨id, params, defaults, rest, body, generator⟩ := fn
  obtain ⟨⟨-, hParams, rfl, rfl, rfl⟩, -⟩ := h
  have hNames : params.all Slot.isName = true :=
    List.all_eq_true.mpr fun p hp => (hParams p hp).isName
  simp [Function.isPlain, hNames]

/-! ### The whole program -/

theorem Slot.isTarget_of_isAssignable {s : Slot} (h : s.isAssignable = true) :
    s.isTarget = true := by
  cases s with
  | holds e => cases e <;> first | rfl | cases h
  | _ => cases h

theorem ReadsStmt.oneDefault_countP {cases : List Case} {saw : Bool}
    (h : ReadsStmt.oneDefault saw cases = true) :
    cases.countP Case.isDefault + saw.toNat ≤ 1 := by
  induction cases generalizing saw with
  | nil => cases saw <;> simp
  | cons k cases ih =>
    obtain ⟨span, test, consequent⟩ := k
    simp only [ReadsStmt.oneDefault, Bool.and_eq_true, Bool.not_eq_true'] at h
    have hMore := ih h.2
    rw [List.countP_cons, Case.isDefault]
    cases saw <;> cases hTest : test.isAbsent <;> simp_all

theorem Expr.Formed.isComplete {e : Expr} (h : e.Formed .any) : Node.exprComplete e = true := by
  cases e with
  | ident => rfl
  | literal => rfl
  | this => rfl
  | array =>
    exact List.all_eq_true.mpr fun s hs => (Slot.allOptional_iff.mp h s hs).isWhole
  | object =>
    refine List.all_eq_true.mpr fun p hp => ?_
    have hFormed := Property.allFormed_iff.mp h p hp
    cases p with
    | absent => exact hFormed.elim
    | entry => rfl
  | function => exact Bool.and_eq_true_iff.mpr (Function.Formed.parts h)
  | sequence => exact h.2.isHeld
  | unary => exact h.2.isHeld
  | binary => exact Bool.and_eq_true_iff.mpr ⟨h.2.1.isHeld, h.2.2.isHeld⟩
  | logical => exact Bool.and_eq_true_iff.mpr ⟨h.2.1.isHeld, h.2.2.isHeld⟩
  | assign => exact Bool.and_eq_true_iff.mpr ⟨h.2.2.1.isHeld, h.2.2.2.isHeld⟩
  | update => exact h.2.2.isHeld
  | conditional =>
    simp [Node.exprComplete, h.1.isHeld, h.2.1.isHeld, h.2.2.isHeld]
  | construct => exact Bool.and_eq_true_iff.mpr ⟨h.1.isHeld, h.2.isHeld⟩
  | call => exact Bool.and_eq_true_iff.mpr ⟨h.1.isHeld, h.2.isHeld⟩
  | member span object property computed =>
    refine Bool.and_eq_true_iff.mpr ⟨h.1.isHeld, ?_⟩
    cases computed with
    | true => exact Slot.Formed.isHeld h.2
    | false => exact Slot.NameFrom.isHeld h.2
  | objectPattern => exact h.elim
  | arrayPattern => exact h.elim

theorem Stmt.Formed.isComplete {s : Stmt} (h : s.Formed .any c) : Node.stmtComplete s = true := by
  cases s with
  | absent => exact h.elim
  | empty => rfl
  | block => exact Stmt.AllFormed.isPresent h
  | expression => exact Slot.Formed.isHeld h
  | conditional => exact Bool.and_eq_true_iff.mpr ⟨h.1.isHeld, h.2.1.isPresent⟩
  | labeled =>
    obtain ⟨id, rfl, -, -, hBody⟩ := h
    exact hBody.isPresent
  | breakTo => rfl
  | continueTo => rfl
  | withObject => exact Bool.and_eq_true_iff.mpr ⟨h.1.isHeld, h.2.isPresent⟩
  | switchOn => exact h.1.isHeld
  | returnValue => exact h.2.isWhole
  | throwValue => exact Slot.Formed.isHeld h
  | tryCatch => exact h.1.isPresent
  | whileLoop => exact Bool.and_eq_true_iff.mpr ⟨h.1.isHeld, h.2.isPresent⟩
  | doWhile => exact Bool.and_eq_true_iff.mpr ⟨h.2.isHeld, h.1.isPresent⟩
  | forLoop span init test update body =>
    obtain ⟨hInit, hTest, hUpdate, hBody⟩ := h
    simp only [Node.stmtComplete, hTest.isWhole, hUpdate.isWhole, hBody.isPresent, Bool.and_true]
    cases init with
    | absent => rfl
    | declaration => simpa using hInit.2.1
    | expression => exact Slot.Formed.isHeld hInit
  | forIn span left right body =>
    obtain ⟨hLeft, hTarget, hRight, hBody⟩ := h
    simp only [Node.stmtComplete, hRight.isHeld, hBody.isPresent, Bool.and_true]
    cases left with
    | absent => cases hTarget
    | declaration => simpa using hLeft.2.1
    | expression => exact Slot.Formed.isHeld hLeft
  | debugger => rfl
  | function span fn =>
    obtain ⟨hNamed, hFormed⟩ := h
    have hParts := hFormed.parts
    obtain ⟨id, params, defaults, rest, body, generator⟩ := fn
    simp only [Node.stmtComplete, hParts.1, hParts.2, Bool.and_true]
    exact hNamed
  | declaration => simpa [Node.stmtComplete] using h.2.1

theorem Node.Formed.isComplete {n : Node} (h : n.Formed c) : n.isComplete = true := by
  cases n with
  | program => exact h.2.isPresent
  | stmt => exact Stmt.Formed.isComplete h
  | expr => exact Expr.Formed.isComplete h
  | property p =>
    cases p with
    | absent => exact h.elim
    | entry => exact Bool.and_eq_true_iff.mpr ⟨h.1.isHeld, h.2.1.isHeld⟩
  | case k =>
    obtain ⟨span, test, consequent⟩ := k
    exact Bool.and_eq_true_iff.mpr ⟨h.1.isWhole, h.2.isPresent⟩
  | handler k =>
    cases k with
    | absent => exact absurd rfl h.1
    | clause => exact Bool.and_eq_true_iff.mpr ⟨h.2.1.isHeld, h.2.2.isPresent⟩
  | declarator d =>
    obtain ⟨span, id, init⟩ := d
    exact Bool.and_eq_true_iff.mpr ⟨h.1.isHeld, h.2.isWhole⟩

/-- The value of an accessor is a function with its number of parameters. -/
theorem Property.Sorted.params {kind : Bytes} {value : Slot} (h : Property.Sorted kind value)
    (hKind : kind ≠ Bytes.ofString "init") :
    ∃ inner fn, value = .holds (.function inner fn) ∧ StartsAccessor kind fn.params.length := by
  obtain ⟨span, params, body, hStarts, rfl⟩ := h.resolve_left hKind
  exact ⟨_, _, rfl, hStarts⟩

theorem Function.Formed.of_node {n : Node} {fn : Function} (h : n.Formed c)
    (hFunction : n.function? = some fn) : fn.Formed .any := by
  cases n with
  | stmt s => cases s <;> cases hFunction; exact h.2
  | expr e => cases e <;> cases hFunction; exact h
  | _ => cases hFunction

theorem Program.wellFormed_of_formed {p : Program} (h : Stmt.AllFormed .any .program p.body) :
    p.WellFormed where
  breaks hHas := by
    have hPlace := (hHas.formed h).1
    simp only [Option.isNone_none, Bool.true_and, Bool.and_eq_false_iff,
      Bool.not_eq_false'] at hPlace
    rcases hPlace with hLoop | hSwitch
    · obtain ⟨n, hMem, hn⟩ := Node.context_inLoop hLoop
      exact ⟨n, hMem, .inl hn⟩
    · obtain ⟨n, hMem, hn⟩ := Node.context_inSwitch hSwitch
      exact ⟨n, hMem, .inr hn⟩
  continues hHas := Node.context_inLoop (hHas.formed h).1
  breakLabels hHas := Node.context_labels.mp ((hHas.formed h).2 _ rfl).2
  continueLabels hHas := Node.context_labels.mp ((hHas.formed h).2 _ rfl).2
  labels {around s name} hHas hLabel n hMem hn := by
    have hFormed := hHas.formed h
    cases s with
    | labeled span label body =>
      obtain ⟨id, rfl, -, hNew, -⟩ := hFormed
      obtain rfl : id.name = name := Option.some.inj hLabel
      exact Bool.false_ne_true (hNew.symm.trans (Node.context_labels.mpr ⟨n, hMem, hn⟩))
    | _ => cases hLabel
  returns hHas := Node.context_inFunction (hHas.formed h).1
  defaults hHas := by simpa using ReadsStmt.oneDefault_countP (hHas.formed h).2.1
  tries hHas := (hHas.formed h).2.2.2
  assignments hHas := Slot.isTarget_of_isAssignable (hHas.formed h).2.1
  updates hHas := Slot.isTarget_of_isAssignable (hHas.formed h).2.1
  forInTargets {around span target right body} hHas := by
    have hTarget := (hHas.formed h).2.1
    cases target with
    | holds e => exact Slot.isTarget_of_isAssignable hTarget
    | _ => cases hTarget
  forInDeclarations hHas := by simpa [ReadsStmt.isTarget] using (hHas.formed h).2.1
  getters hHas := by
    obtain ⟨inner, fn, hValue, hStarts⟩ := Property.Sorted.params (hHas.formed h).2.2.1 (by decide)
    rcases hStarts with ⟨-, hLength⟩ | ⟨hKind, -⟩
    · exact ⟨inner, fn, hValue, List.length_eq_zero_iff.mp hLength⟩
    · exact absurd hKind (by decide)
  setters hHas := by
    obtain ⟨inner, fn, hValue, hStarts⟩ := Property.Sorted.params (hHas.formed h).2.2.1 (by decide)
    rcases hStarts with ⟨hKind, -⟩ | ⟨-, hLength⟩
    · exact absurd hKind (by decide)
    · exact ⟨inner, fn, hValue, hLength⟩
  functions hHas hFunction := (Function.Formed.of_node (hHas.formed h) hFunction).isPlain
  sequences hHas := (hHas.formed h).1
  complete hHas := (hHas.formed h).isComplete

/-- A program that is read is one that the grammar can give. -/
theorem Program.formed_any [PatternCheck] {source : Source} {p : Program}
    (h : parse source = .ok p) : Stmt.AllFormed .any .program p.body :=
  formed_of_parse h (Pairing.Along.of_forall (p := fun _ => True) fun _ _ => trivial)

/-- Every program that is read is well-formed. -/
theorem Program.parse_wellFormed [PatternCheck] {source : Source} {p : Program}
    (h : Program.parse source = .ok p) : p.WellFormed := by
  exact Program.wellFormed_of_formed (Program.formed_any h)

/-- A labelled loop that is left from inside. -/
theorem Program.parse_wellFormed_loop :
    ∃ p, Program.parse (Source.inline (Bytes.ofString "a:while(b)break a")) = .ok p ∧
      p.WellFormed := by
  have hSome : (Program.parse
      (Source.inline (Bytes.ofString "a:while(b)break a"))).toOption.isSome = true := by
    decide +kernel
  cases h : Program.parse (Source.inline (Bytes.ofString "a:while(b)break a")) with
  | ok p => exact ⟨p, rfl, Program.parse_wellFormed h⟩
  | error d =>
    rw [h] at hSome
    cases hSome

end ScriptOptimizer
