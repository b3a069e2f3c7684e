import ScriptOptimizer.Pass.CachedLiterals
import ScriptOptimizer.Pass.ImplicitGlobals

/-!
Passes that share walks. Each pass keeps its own state; all of them see the same tree and the same
table of scopes, and none knows of the others. A session may walk several programs one after
another.
-/

namespace ScriptOptimizer

/-- Which pass. -/
inductive PassName where
  | implicitGlobals
  | cachedLiterals
deriving DecidableEq, Repr

namespace PassName

/-- The passes in the order in which they run by default. -/
def all : List PassName := [implicitGlobals, cachedLiterals]

/-- The name of a pass. -/
def text : PassName → String
  | implicitGlobals => "implicit-globals"
  | cachedLiterals => "cached-literals"

/-- The pass with a name. -/
def ofText? (name : Bytes) : Option PassName := all.find? fun p => Bytes.ofString p.text = name

end PassName

/-- A pass and what it has found. -/
inductive Pass where
  | implicitGlobals (found : List ImplicitGlobal)
  | cachedLiterals (state : CachedLiterals)

/-- How declared literals are named and what a declaration costs beside its name and value. -/
structure LiteralSettings where
  stem : Bytes
  overhead : Int

namespace Pass

/-- A fresh pass. -/
def start (settings : LiteralSettings) : PassName → Pass
  | .implicitGlobals => .implicitGlobals []
  | .cachedLiterals => .cachedLiterals { stem := settings.stem, overhead := settings.overhead }

end Pass

/-- The passes of a session, the log, how many walks went before, and the edits to the program of
each of these walks. -/
structure Session where
  passes : List Pass
  log : List LogEntry := []
  walks : Nat := 0
  earlier : List Edits := []

namespace Session

/-- The implicit globals of the last pass that looks for them. -/
def globals? (s : Session) : Option (List ImplicitGlobal) :=
  s.passes.reverse.findSome? fun
    | .implicitGlobals found => some found
    | .cachedLiterals _ => none

/-- The literals declared by the last pass that does so. -/
def hoisted? (s : Session) : Option (List Hoist) :=
  s.passes.reverse.findSome? fun
    | .cachedLiterals state => some state.hoisted
    | .implicitGlobals _ => none

/-- A session of fresh passes. -/
def start (settings : LiteralSettings) (names : List PassName) : Session :=
  { passes := names.map (Pass.start settings) }

/-- What a pass does at an event, given the scopes and the edits so far. -/
structure Reaction where
  pass : Pass
  symbols : ScopeTable Node
  edits : Edits
  log : List LogEntry := []

/-- The reaction of the pass that looks for implicit globals. -/
def reactGlobals (e : Event) (found : List ImplicitGlobal) (symbols : ScopeTable Node)
    (edits : Edits) : Reaction :=
  match e.phase, e.node with
  | .enter, .declarator d => ⟨.implicitGlobals found, ImplicitGlobal.declare d symbols, edits, []⟩
  | .enter, .expr x =>
    match ImplicitGlobal.target? x with
    | none => ⟨.implicitGlobals found, symbols, edits, []⟩
    | some id =>
      let (symbols, new) := ImplicitGlobal.assign id symbols found
      ⟨.implicitGlobals (found ++ new.toList), symbols, edits, new.toList.map ImplicitGlobal.entry⟩
  | _, _ => ⟨.implicitGlobals found, symbols, edits, []⟩

/-- Has the function a body? -/
def hasBody : Function → Bool
  | .mk _ _ _ _ (.braces _ _) _ => true
  | .mk _ _ _ _ .absent _ => false

/-- The reaction of the pass that declares repeated literals. -/
def reactLiterals (walk : Nat) (e : Event) (state : CachedLiterals) (symbols : ScopeTable Node)
    (edits : Edits) : Reaction :=
  let scope := symbols.current
  match e.phase, e.node with
  | .enter, .program _ =>
    ⟨.cachedLiterals (state.enterOwner walk scope.id e.place true), symbols, edits, []⟩
  | .enter, .stmt (.function _ fn) | .enter, .expr (.function _ fn) =>
    ⟨.cachedLiterals (state.enterOwner walk scope.id e.place (hasBody fn)), symbols, edits, []⟩
  | .enter, .expr (.literal lit) =>
    let (state, log) := state.enterLiteral walk (scope.ref walk) e lit
    ⟨.cachedLiterals state, symbols, edits, log⟩
  | .leave, .program _ =>
    let o := state.leaveProgram walk edits
    ⟨.cachedLiterals o.state, symbols, o.edits, o.log⟩
  | _, _ => ⟨.cachedLiterals state, symbols, edits, []⟩

/-- The reaction of a pass. -/
def react (walk : Nat) (e : Event) (symbols : ScopeTable Node) (edits : Edits) : Pass → Reaction
  | .implicitGlobals found => reactGlobals e found symbols edits
  | .cachedLiterals state => reactLiterals walk e state symbols edits

/-- What a pass does to the programs of earlier walks at an event. When a program is left all groups
are decided about, and those of earlier walks are replaced and declared in their own programs. -/
def revise (e : Event) (earlier : List Edits) : Pass → List Edits
  | .implicitGlobals _ => earlier
  | .cachedLiterals state => match e.phase, e.node with
    | .leave, .program _ => earlier.mapIdx fun walk edits => (state.leaveProgram walk edits).edits
    | _, _ => earlier

/-- The types and phases that a pass subscribes to, in order. -/
def interests : Pass → List (NodeType × Phase)
  | .implicitGlobals _ => [("VariableDeclarator", .enter), ("AssignmentExpression", .enter)]
  | .cachedLiterals _ =>
    [("Program", .enter), ("FunctionDeclaration", .enter), ("FunctionExpression", .enter),
     ("Literal", .enter), ("Program", .leave)]

/-- Lets the pass with a number react to an event. -/
def handle (index : Nat) (e : Event) : Walk Session Unit := do
  let s ← get
  match s.own.passes[index]? with
  | none => return
  | some pass =>
    let r := react s.own.walks e s.symbols s.edits pass
    set
      { s with
        symbols := r.symbols
        edits := r.edits
        own := { s.own with
          passes := s.own.passes.set index r.pass
          log := s.own.log ++ r.log
          earlier := revise e s.own.earlier pass } }

/-- The subscriptions of all passes. -/
def subscriptions (s : Session) : List (Subscription Session) :=
  s.passes.zipIdx.flatMap fun (pass, index) =>
    (interests pass).map fun (type, phase) => ⟨some type, phase, handle index⟩

/-- The entry at the end of a walk. -/
def walkEntry (nodes functions : Nat) : LogEntry :=
  ⟨.debug, "walk complete", [("nodes", .int nodes), ("scopes", .int functions)]⟩

/-- Lets the passes ride on a walk from a node of a program, and gives the program as they leave it,
the scopes of the walk and the session after it. -/
def walk (s : Session) (place : Path) (root : Node) (p : Program) :
    Program × ScopeTable Node × Session :=
  let (failure, w) := Walk.run s.subscriptions place root s
  let done := if failure.isNone then [walkEntry w.nodes w.functions] else []
  (p.edit w.edits, w.symbols,
    { w.own with
      log := w.own.log ++ done
      walks := w.own.walks + 1
      earlier := w.own.earlier ++ [w.edits] })

/-- Lets the passes ride on a walk over a program. -/
def walkProgram (s : Session) (p : Program) : Program × ScopeTable Node × Session :=
  s.walk [] (.program p) p

/-- What has become of the program of a walk, given the program that was walked. -/
def revisited (s : Session) (walk : Nat) (p : Program) : Program :=
  p.edit ((s.earlier[walk]?).getD {})

/-- Lets the passes ride on a walk over the first statement of a program only. -/
def walkFirst (s : Session) (p : Program) : Program × ScopeTable Node × Session :=
  match p.body with
  | first :: _ => s.walk [0] (.stmt first) p
  | [] => s.walkProgram p

end Session

end ScriptOptimizer
