import ScriptOptimizer.Text.Bytes

/-!
Function scopes. The scopes of a table form a tree in which a scope is numbered after the one that
encloses it; of two scopes of a table, the one that is numbered later climbs until the two meet.
-/

namespace ScriptOptimizer

/-- A declaration: a name and what declares it. -/
structure Entry (α : Type) where
  name : Bytes
  node : α
deriving Repr

/-- A scope: its number, the numbers of the scopes around it from the inside out, its distance from
the root scope, and what is declared in it, in order. The index says for each name which of the
entries is the latest with that name; a later pair hides those before it. -/
structure Scope (α : Type) where
  id : Nat
  enclosing : List Nat
  level : Nat
  entries : List (Entry α)
  index : List (Bytes × Nat)
  indexed : ∀ pair ∈ index, pair.2 < entries.length
deriving Repr

namespace Scope

variable {α : Type}

/-- Does no scope enclose it? -/
def isRoot (s : Scope α) : Bool := s.enclosing.isEmpty

/-- A scope in which nothing is declared yet. -/
def new (id : Nat) (enclosing : List Nat) (level : Nat) : Scope α :=
  ⟨id, enclosing, level, [], [], nofun⟩

/-- One more declaration. -/
def add (name : Bytes) (node : α) (s : Scope α) : Scope α where
  id := s.id
  enclosing := s.enclosing
  level := s.level
  entries := s.entries ++ [⟨name, node⟩]
  index := (name, s.entries.length) :: s.index
  indexed := by
    have hOld := s.indexed
    simp only [List.mem_cons, List.length_append, List.length_singleton]
    rintro pair (rfl | hMem)
    · exact Nat.lt_succ_self _
    · exact Nat.lt_succ_of_lt (hOld pair hMem)

/-- The latest declaration of a name directly in the scope. -/
def lookup (name : Bytes) (s : Scope α) : Option (Entry α) :=
  (s.index.lookup name).bind fun i => s.entries[i]?

/-- Does the scope itself declare the name? -/
def declares (name : Bytes) (s : Scope α) : Bool := (s.index.lookup name).isSome

/-- The scope with something else in the place of what declares its names. -/
def map {β : Type} (f : α → β) (s : Scope α) : Scope β where
  id := s.id
  enclosing := s.enclosing
  level := s.level
  entries := s.entries.map fun e => ⟨e.name, f e.node⟩
  index := s.index
  indexed := by simpa using s.indexed

end Scope

/-- A scope as seen from outside its table: the table's number, and the scope's own number followed
by those of the scopes around it. -/
structure ScopeRef where
  table : Nat
  chain : List Nat
deriving DecidableEq, Repr

namespace ScopeRef

/-- The number of the scope. -/
def id (s : ScopeRef) : Nat := s.chain.headD 0

/-- The distance from the root scope. -/
def level (s : ScopeRef) : Nat := s.chain.length - 1

/-- The scope directly around it. -/
def parent? (s : ScopeRef) : Option ScopeRef :=
  match s.chain with
  | _ :: rest@(_ :: _) => some ⟨s.table, rest⟩
  | _ => none

/-- Where two chains meet: the later-numbered front climbs. -/
def meet : List Nat → List Nat → List Nat
  | [], _ => []
  | _, [] => []
  | a :: as, b :: bs =>
    if a = b then a :: as
    else if a < b then meet (a :: as) bs
    else meet as (b :: bs)
termination_by as bs => as.length + bs.length

/-- The innermost scope that encloses both, each scope enclosing itself; there is none for scopes of
different tables. -/
def commonParent (a b : ScopeRef) : Option ScopeRef :=
  if a.table = b.table then
    match meet a.chain b.chain with
    | [] => none
    | chain => some ⟨a.table, chain⟩
  else none

/-- The innermost scope around those of two that are there. -/
def join : Option ScopeRef → Option ScopeRef → Option ScopeRef
  | none, b => b
  | a, none => a
  | some a, some b => a.commonParent b

end ScopeRef

end ScriptOptimizer

/-!
The table of scopes during one walk over a tree: the scopes that are open, the root outermost, and
those that have been left.
-/

namespace ScriptOptimizer

/-- The scopes of one walk. The root scope is always open; `inner` holds the open scopes inside it,
the innermost first, and `left` those that have been left, the latest first. -/
structure ScopeTable (α : Type) where
  root : Scope α
  inner : List (Scope α)
  left : List (Scope α)
  next : Nat
deriving Repr

namespace ScopeTable

variable {α : Type}

/-- A table with an empty root scope. -/
def empty : ScopeTable α := ⟨.new 0 [] 0, [], [], 1⟩

/-- The open scopes, the innermost first. -/
def live (t : ScopeTable α) : List (Scope α) := t.inner ++ [t.root]

/-- The innermost open scope. -/
def current (t : ScopeTable α) : Scope α := t.inner.headD t.root

/-- The number of open scopes. -/
def depth (t : ScopeTable α) : Nat := t.inner.length + 1

/-- Opens a scope inside the current one. -/
def enter (t : ScopeTable α) : ScopeTable α :=
  let scope := .new t.next (t.current.id :: t.current.enclosing) (t.current.level + 1)
  { t with inner := scope :: t.inner, next := t.next + 1 }

/-- Leaves the current scope. The root scope is never left. -/
def leave (t : ScopeTable α) : ScopeTable α :=
  match t.inner with
  | [] => t
  | scope :: inner => { t with inner, left := scope :: t.left }

/-- Declares a name in the current scope. -/
def declare (name : Bytes) (node : α) (t : ScopeTable α) : ScopeTable α :=
  match t.inner with
  | [] => { t with root := t.root.add name node }
  | scope :: inner => { t with inner := scope.add name node :: inner }

/-- Declares a name in the root scope. -/
def declareGlobal (name : Bytes) (node : α) (t : ScopeTable α) : ScopeTable α :=
  { t with root := t.root.add name node }

/-- Does the current scope itself declare the name? -/
def declaresHere (name : Bytes) (t : ScopeTable α) : Bool := t.current.declares name

/-- The nearest declaration of a name in the open scopes, and the scope that holds it. -/
def resolve (name : Bytes) (t : ScopeTable α) : Option (Entry α × Scope α) :=
  t.live.findSome? fun scope => (scope.lookup name).map (·, scope)

/-- What declares a name nearest. -/
def find? (name : Bytes) (t : ScopeTable α) : Option α := (t.resolve name).map (·.1.node)

/-- Is the nearest declaration of the name in the root scope? -/
def isGlobal (name : Bytes) (t : ScopeTable α) : Bool :=
  match t.resolve name with
  | some (_, scope) => scope.isRoot
  | none => false

/-- The table with something else in the place of what declares its names. -/
def map {β : Type} (f : α → β) (t : ScopeTable α) : ScopeTable β :=
  ⟨t.root.map f, t.inner.map (Scope.map f), t.left.map (Scope.map f), t.next⟩

/-- The scope with a number, open or left. -/
def scope? (id : Nat) (t : ScopeTable α) : Option (Scope α) :=
  (t.live ++ t.left).find? fun scope => scope.id = id

end ScopeTable

/-- A scope of the table with a number. -/
def Scope.ref {α : Type} (table : Nat) (s : Scope α) : ScopeRef := ⟨table, s.id :: s.enclosing⟩

end ScriptOptimizer
