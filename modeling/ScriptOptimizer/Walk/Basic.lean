import ScriptOptimizer.Scope.Basic
import ScriptOptimizer.Syntax.Edit
import ScriptOptimizer.Syntax.Names
import ScriptOptimizer.Syntax.Preorder

/-!
One walk over a tree. Every node is announced before its children and again after them, to the
handlers for its type and to those for every type, in the order in which they were registered; the
table of scopes follows the functions that are being visited. A handler that fails ends the walk.
-/

namespace ScriptOptimizer

/-- Whether a node is announced before or after its children. -/
inductive Phase where
  | enter
  | leave
deriving DecidableEq, Repr

/-- The word for a phase. -/
def Phase.name : Phase → String
  | enter => "enter"
  | leave => "leave"

/-- The announcement of a node. `place` is the way to it, and `parent` is missing for the root. -/
structure Event where
  phase : Phase
  node : Node
  place : Path
  inSlot : Bool
  parent : Option Node

/-- What a walk has built up: the scopes, the edits its handlers asked for, the numbers of nodes and
functions visited, and what the handlers keep for themselves. -/
structure WalkState (σ : Type) where
  symbols : ScopeTable Node
  edits : Edits
  nodes : Nat
  functions : Nat
  own : σ

/-- A step of a walk. A failure keeps what was built up to it. -/
abbrev Walk (σ : Type) := EStateM Bytes (WalkState σ)

/-- A handler for the nodes of a type, or of every type, in one phase. -/
structure Subscription (σ : Type) where
  type : Option NodeType
  phase : Phase
  handle : Event → Walk σ Unit

/-- A handler and the number of its registration. -/
structure Registered (σ : Type) where
  number : Nat
  handle : Event → Walk σ Unit

/-- The handlers for each type, or for every type, in each phase, in the order of their
registration. -/
structure Registry (σ : Type) where
  handlers : Option NodeType → Phase → List (Registered σ)
  next : Nat

namespace Registry

variable {σ : Type}

/-- A registry without handlers. -/
def empty : Registry σ := ⟨fun _ _ => [], 0⟩

/-- Registers one more handler. -/
def on (r : Registry σ) (s : Subscription σ) : Registry σ :=
  { handlers := fun type phase =>
      if type = s.type ∧ phase = s.phase then r.handlers type phase ++ [⟨r.next, s.handle⟩]
      else r.handlers type phase
    next := r.next + 1 }

/-- Registers handlers one after another. -/
def ofList (subs : List (Subscription σ)) : Registry σ := subs.foldl on empty

/-- The handlers that an event is for: those for its type and those for every type, merged by the
numbers of their registration. -/
def due (r : Registry σ) (e : Event) : List (Registered σ) :=
  (r.handlers (some e.node.type) e.phase).merge (r.handlers none e.phase)
    fun typed any => typed.number < any.number

end Registry

namespace Walk

variable {σ : Type}

/-- Changes the table of scopes. -/
def modifySymbols (f : ScopeTable Node → ScopeTable Node) : Walk σ Unit :=
  modify fun s => { s with symbols := f s.symbols }

/-- Changes what the handlers keep. -/
def modifyOwn (f : σ → σ) : Walk σ Unit := modify fun s => { s with own := f s.own }

/-- Puts a name into the slot of an event. -/
def putName (place : Path) (id : Ident) : Walk σ Unit :=
  modify fun s => { s with edits := s.edits.putName place id }

/-- Declares names, each by its own node. -/
def declareAll (names : List Ident) : Walk σ Unit :=
  names.forM fun id => modifySymbols (·.declare id.name (.expr (.ident id)))

/-- Opens the scope of a function: a declaration is known outside under its name, a function
expression inside; the parameters follow. -/
def enterFunction (n : Node) (fn : Function) (isDeclaration : Bool) : Walk σ Unit := do
  let declareName : Walk σ Unit := match fn.id with
    | some id => modifySymbols (·.declare id.name n)
    | none => pure ()
  if isDeclaration then declareName
  modify fun s => { s with symbols := s.symbols.enter, functions := s.functions + 1 }
  if !isDeclaration then declareName
  declareAll fn.paramNames

/-- Opens the scope that a node owns, and says whether there is one. The names of a catch clause are
declared in the scope around it. -/
def enterScope (n : Node) : Walk σ Bool := do
  match n with
  | .stmt (.function _ fn) =>
    enterFunction n fn true
    return true
  | .expr (.function _ fn) =>
    enterFunction n fn false
    return true
  | .handler (.clause _ param _) =>
    declareAll param.boundNames
    return false
  | _ => return false

/-- Announces an event to the handlers it is for, in order. The failure of a handler is reported
with the phase and the type of the node. -/
def dispatch (r : Registry σ) (e : Event) : Walk σ Unit :=
  (r.due e).forM fun h =>
    tryCatch (h.handle e) fun failure =>
      throw (Bytes.cat [e.phase.name, ":", e.node.type, ": ", failure])

/-- The node at a place after the edits so far: a name, if one was put into its slot. -/
def currentNode (n : Node) (place : Path) (inSlot : Bool) : Walk σ Node := do
  if inSlot then
    match (← get).edits.name? place with
    | some id => return .expr (.ident id)
    | none => return n
  else return n

/-- Is the node a name? -/
def isName : Node → Bool
  | .expr (.ident _) => true
  | _ => false

/-- Visits a node and everything below it. A node that was replaced by a name has nothing below
it. -/
def visit (r : Registry σ) (place : Path) (inSlot : Bool) (parent : Option Node) (n : Node) :
    Walk σ Unit := do
  modify fun s => { s with nodes := s.nodes + 1 }
  let opened ← enterScope n
  dispatch r ⟨.enter, n, place, inSlot, parent⟩
  let entered ← currentNode n place inSlot
  if !isName entered then
    n.children.zipIdx.attach.forM fun ⟨(c, i), h⟩ =>
      have := Node.sizeOf_child_lt (List.fst_mem_of_mem_zipIdx h)
      visit r (i :: place) c.inSlot (some n) c.node
  dispatch r ⟨.leave, entered, place, inSlot, parent⟩
  if opened then modifySymbols (·.leave)
termination_by sizeOf n

/-- The start of a walk. -/
def start (own : σ) : WalkState σ := ⟨ScopeTable.empty, {}, 0, 0, own⟩

/-- Registers the subscriptions in order and walks a tree from a node that is the root of the
walk. -/
def run (subs : List (Subscription σ)) (place : Path) (root : Node) (own : σ) :
    Option Bytes × WalkState σ :=
  match visit (Registry.ofList subs) place false none root (start own) with
  | .ok _ s => (none, s)
  | .error failure s => (some failure, s)

end Walk

end ScriptOptimizer
