import ScriptOptimizer.Log
import ScriptOptimizer.Walk.Basic

/-!
Repeated literals are declared once. Literals of the same value form a group; when a program has
been walked, every group whose declaration saves bytes is declared in the innermost body that
encloses all its occurrences, and the occurrences are replaced by the name.
-/

namespace ScriptOptimizer

/-- What literals of a group have in common: the type and the value. All numbers that are no numbers
count as one value, and zero and negative zero as two. -/
inductive LiteralKey where
  | string (text : Bytes)
  | number (bits : UInt64)
  | boolean (value : Bool)
  | null
deriving DecidableEq, Repr

namespace LiteralKey

/-- The key of a value. A regular expression has none, because each evaluation makes a new
object. -/
def of? : LiteralValue → Option LiteralKey
  | .string text => some (.string text)
  | .number value => some (.number (if value.isNaN then 0x7FF8000000000001 else value.bits))
  | .boolean value => some (.boolean value)
  | .null => some .null
  | .invalid | .regexp _ _ | .emptyRegexp => none

end LiteralKey

/-- A literal at a place of the tree of a walk. -/
structure Occurrence where
  literal : Literal
  walk : Nat
  place : Path

/-- The literals of one value in the order in which they were met, and the innermost scope around
them, which is missing when they stand in different walks. -/
structure LiteralGroup where
  key : LiteralKey
  occurrences : List Occurrence
  scope : Option ScopeRef

/-- A program or function that owns a scope. -/
structure ScopeOwner where
  walk : Nat
  place : Path
  hasBody : Bool
deriving DecidableEq

/-- A group that was declared: under which name, with the text and kind of its first literal, how
many occurrences were replaced, how deep the declaration is nested and how many bytes that saves. -/
structure Hoist where
  name : Bytes
  raw : Bytes
  kind : String
  occurrences : Nat
  level : Nat
  saved : Int
deriving DecidableEq, Repr

/-- The literals met so far and what was declared. `owners` lists the owner of each scope number,
the latest first, and `inserts` how many declarations each owner has received. -/
structure CachedLiterals where
  stem : Bytes
  overhead : Int
  counter : Nat := 0
  groups : List LiteralGroup := []
  owners : List (Nat × ScopeOwner) := []
  inserts : List (ScopeOwner × Nat) := []
  hoisted : List Hoist := []

namespace CachedLiterals

/-- May a name stand in the place of the literal? It may not as a plain key, nor as a statement of
its own, where the literal may be a directive. -/
def isReplaceable (e : Event) : Bool :=
  e.inSlot && match e.parent with
    | some (.property (.entry _ _ (.holds _) _ false _)) => e.place.head? ≠ some 0
    | some (.stmt (.expression _ _)) => false
    | _ => true

/-- The groups with one more occurrence of a key. -/
def record (key : LiteralKey) (o : Occurrence) (scope : ScopeRef) :
    List LiteralGroup → List LiteralGroup
  | [] => [⟨key, [o], some scope⟩]
  | g :: rest =>
    if g.key = key then
      { g with
        occurrences := g.occurrences ++ [o]
        scope := ScopeRef.join g.scope (some scope) } :: rest
    else g :: record key o scope rest

/-- A program or function is the owner of its scope. -/
def enterOwner (walk : Nat) (scope : Nat) (place : Path) (hasBody : Bool) (p : CachedLiterals) :
    CachedLiterals :=
  { p with owners := (scope, ⟨walk, place, hasBody⟩) :: p.owners }

/-- A literal is met. One of a single byte could not be shortened. -/
def enterLiteral (walk : Nat) (scope : ScopeRef) (e : Event) (lit : Literal) (p : CachedLiterals) :
    CachedLiterals × List LogEntry :=
  let isRegexp := match lit.value with
    | .regexp _ _ | .emptyRegexp => true
    | _ => false
  if lit.raw.length ≤ 1 || !isReplaceable e || isRegexp then (p, [])
  else match LiteralKey.of? lit.value with
    | none => (p, [⟨.debug, "skipping literal without value", [("raw", .text lit.raw)]⟩])
    | some key => ({ p with groups := record key ⟨lit, walk, e.place⟩ scope p.groups }, [])

/-- The bytes saved by declaring a literal of some size that occurs so often. -/
def savedBytes (count size : Nat) (overhead : Int) : Int :=
  (count * size : Nat) - ((size + count : Nat) + overhead)

/-- The declaration of a name for a literal. -/
def declaration (name : Bytes) (lit : Literal) : Stmt :=
  .declaration lit.span "var"
    [.bind lit.span (.holds (.ident ⟨lit.span, name⟩)) (.holds (.literal lit))]

/-- What one group did: the state after it, the edits to the tree of the walk, and the log. -/
structure Outcome where
  state : CachedLiterals
  edits : Edits
  log : List LogEntry

/-- Declares a group in the body of an owner and replaces its occurrences in the tree of the
walk. -/
def hoist (walk : Nat) (g : LiteralGroup) (first : Literal) (scope : ScopeRef) (owner : ScopeOwner)
    (saved : Int) (o : Outcome) : Outcome :=
  let p := o.state
  let count := g.occurrences.length
  let name := p.stem ++ Bytes.ofNat (p.counter + 1)
  let position := ((p.inserts.find? fun entry => entry.1 = owner).map (·.2)).getD 0
  let declared :=
    if owner.walk = walk then o.edits.insert owner.place position (declaration name first)
    else o.edits
  let edits := (g.occurrences.filter fun x => x.walk = walk).foldl
    (fun e x => e.putName x.place ⟨x.literal.span, name⟩) declared
  let report : Hoist := ⟨name, first.raw, first.value.kindName, count, scope.level, saved⟩
  let state :=
    { p with
      counter := p.counter + 1
      inserts := (owner, position + 1) :: p.inserts
      hoisted := p.hoisted ++ [report] }
  let entry : LogEntry :=
    ⟨.debug, "hoisted literal",
      [("name", .text name), ("raw", .text first.raw), ("occurrences", .int count),
       ("scope", .int scope.id), ("saved", .int saved)]⟩
  ⟨state, edits, o.log ++ [entry]⟩

/-- Decides about one group. -/
def settle (walk : Nat) (o : Outcome) (g : LiteralGroup) : Outcome :=
  match g.occurrences with
  | first :: _ :: _ =>
    let lit := first.literal
    let saved := savedBytes g.occurrences.length lit.raw.length o.state.overhead
    if saved ≤ 0 then o
    else match g.scope with
      | none => o
      | some scope =>
        match o.state.owners.find? fun entry => entry.1 = scope.id with
        | none =>
          let entry : LogEntry :=
            ⟨.debug, "no owner for literal scope",
              [("raw", .text lit.raw), ("scope", .int scope.id)]⟩
          { o with log := o.log ++ [entry] }
        | some (_, owner) => if owner.hasBody then hoist walk g lit scope owner saved o else o
  | _ => o

/-- A program has been walked: every group is decided about, in the order of first occurrence. -/
def leaveProgram (walk : Nat) (edits : Edits) (p : CachedLiterals) : Outcome :=
  p.groups.foldl (settle walk) ⟨p, edits, []⟩

end CachedLiterals

end ScriptOptimizer
