import ScriptOptimizer.Syntax.Basic
import ScriptOptimizer.Text.Bytes
import ScriptOptimizer.Token.Lexer

/-!
Reading a list of tokens. A reader looks at the current token and at the one after it, and stops at
the first error; a lexical error stops it as soon as the broken token would be looked at.
-/

namespace ScriptOptimizer

/-! ### Counting the nodes that are built

Nodes of the six frequent sorts are counted in batches: a full batch drops out of the count when the
next one, twice as large, is begun.
-/

/-- The nodes of one sort in the current batch. -/
structure Tally where
  capacity : Nat
  used : Nat := 0
deriving DecidableEq, Repr

/-- One more node. -/
def Tally.add (b : Tally) : Tally :=
  if b.used = b.capacity then ⟨2 * b.capacity + 1, 1⟩ else { b with used := b.used + 1 }

/-- The batches of the sorts that are counted. -/
structure Census where
  slots : Tally := ⟨512, 0⟩
  names : Tally := ⟨256, 0⟩
  literals : Tally := ⟨128, 0⟩
  members : Tally := ⟨128, 0⟩
  calls : Tally := ⟨128, 0⟩
  binaries : Tally := ⟨128, 0⟩
deriving DecidableEq, Repr

namespace Census

/-- The nodes in the current batches. -/
def total (c : Census) : Nat :=
  c.slots.used + c.names.used + c.literals.used + c.members.used + c.calls.used + c.binaries.used

/-- One more slot. -/
def addSlot (c : Census) : Census := { c with slots := c.slots.add }

/-- One more name. -/
def addName (c : Census) : Census := { c with names := c.names.add }

/-- One more literal. -/
def addLiteral (c : Census) : Census := { c with literals := c.literals.add }

/-- One more member access. -/
def addMember (c : Census) : Census := { c with members := c.members.add }

/-- One more call. -/
def addCall (c : Census) : Census := { c with calls := c.calls.add }

/-- One more binary operation. -/
def addBinary (c : Census) : Census := { c with binaries := c.binaries.add }

end Census

/-! ### Tokens that are still to be read -/

namespace Token

/-- Where the token starts. -/
def startPlace (t : Token) : Place := ⟨t.line, t.column, t.start⟩

/-- Where the token ends, counted on the line where it starts. -/
def stopPlace (t : Token) : Place := ⟨t.line, t.column + (t.stop - t.start : Nat), t.stop⟩

/-- The range of the token. -/
def span (t : Token) : Span := ⟨t.startPlace, t.stopPlace⟩

end Token

/-- The tokens that are still to be read. Comments are left out. `failure` is the lexical error
after the last of them, `stop` the end of the token read last, and `census` counts the nodes
built. -/
structure Stream where
  current : Token
  upcoming : List Token
  failure : Option Diagnostic
  stop : Place
  source : Option Source
  census : Census

/-- A reader of tokens. What it counted stays counted when it fails. -/
abbrev Parse := EStateM Diagnostic Stream

namespace Parse

/-- The current token. -/
def current : Parse Token := return (← get).current

/-- Is the current token of this type? -/
def sees (type : TokenType) : Parse Bool := return (← current).type = type

/-- Where the current token starts. -/
def position : Parse Place := return (← current).startPlace

/-- The range from a place to the end of the token read last. -/
def spanFrom (start : Place) : Parse Span := return ⟨start, (← get).stop⟩

/-- The location of a token for an error. -/
def location (t : Token) : Parse Location :=
  return ⟨t.line, t.column, t.start, t.stop, (← get).source⟩

/-- Fails at the current token, naming what was wanted if that can be said. -/
def unexpected {α : Type} (wanted : Bytes) : Parse α := do
  let t ← current
  throw (Diagnostic.unexpected (← location t) wanted t.describe)

/-- Fails at a token with a message. -/
def failAt {α : Type} (t : Token) (message : Bytes) : Parse α := do
  throw (Diagnostic.syntactic (← location t) message t.describe)

/-- Reads the current token. The end of input stays where it is. -/
def advance : Parse Token := do
  let s ← get
  match s.upcoming, s.failure with
  | [], _ => set { s with stop := s.current.stopPlace }
  | [_], some d => throw d
  | next :: rest, _ =>
    set { s with current := next, upcoming := rest, stop := s.current.stopPlace }
  return s.current

/-- Reads the current token if it is of this type, and says whether it was. -/
def accept (type : TokenType) : Parse Bool := do
  if ← sees type then
    let _ ← advance
    return true
  else return false

/-- Reads a token of this type. -/
def expect (type : TokenType) : Parse Token := do
  if ← sees type then advance
  else unexpected (Bytes.cat ["'", type.name, "'"])

/-- Ends a statement: by a semicolon, or where one may be left out, which is before a closing brace,
at the end of input and after a line break. -/
def semicolon : Parse Unit := do
  if ← accept (.punctuator .semicolon) then return
  let t ← current
  if t.type = .punctuator .rightBrace || t.type = .endOfInput || t.newlineBefore then return
  unexpected "';'"

/-- May a statement end here? -/
def atStatementEnd : Parse Bool := do
  let t ← current
  return t.type = .punctuator .semicolon || t.type = .punctuator .rightBrace ||
    t.type = .endOfInput || t.newlineBefore

/-- More than the tokens that are left. A repetition that reads a token each time ends before this
many rounds. -/
def rounds : Parse Nat := return (← get).upcoming.length + 2

/-- Items until the test holds, in at most so many rounds. -/
def manyIn {α : Type} (isEnd : Parse Bool) (item : Parse α) : Nat → Parse (List α)
  | 0 => unexpected []
  | n + 1 => do
    if ← isEnd then return []
    let first ← item
    return first :: (← manyIn isEnd item n)

/-- Items until the test holds. -/
def many {α : Type} (isEnd : Parse Bool) (item : Parse α) : Parse (List α) := do
  manyIn isEnd item (← rounds)

/-- A value extended by a step as long as the step applies, in at most so many rounds. -/
def extendIn {α : Type} (step : α → Parse (Option α)) : Nat → α → Parse α
  | 0, _ => unexpected []
  | n + 1, a => do
    match ← step a with
    | none => return a
    | some b => extendIn step n b

/-- A value extended by a step as long as the step applies. -/
def extend {α : Type} (step : α → Parse (Option α)) (a : α) : Parse α := do
  extendIn step (← rounds) a

/-- Items between the current token and a closing one, separated by commas. -/
def commaSeparated {α : Type} (close : TokenType) (item : Parse α) : Parse (List α) := do
  if ← accept close then return []
  let first ← item
  return first :: (← many (accept close) (do let _ ← expect (.punctuator .comma); item))

/-- An item and the comma after it, which only the last one before a closing token lacks. -/
def withComma {α β : Type} (item : Parse α) (close : TokenType) (f : α → β) : Parse β := do
  let a ← item
  if !(← sees close) then
    let _ ← expect (.punctuator .comma)
  return f a

/-- An expression in a slot of its own. -/
def inSlot (e : Expr) : Parse Expr := do
  modify fun s => { s with census := s.census.addSlot }
  return e

/-- A name at a token. -/
def nameAt (t : Token) (name : Bytes) : Parse Ident := do
  modify fun s => { s with census := s.census.addName }
  return ⟨t.span, name⟩

/-- Reads a name. -/
def name : Parse Ident := do
  let t ← current
  if t.type = .identifier then
    let _ ← advance
    nameAt t t.value
  else unexpected "identifier"

end Parse

/-- The start of a list of tokens; it fails if one of the first two could not be read. -/
def Stream.start (source : Option Source) (census : Census) (tokens : List Token)
    (failure : Option Diagnostic) : Except Diagnostic Stream :=
  match tokens, failure with
  | [], some d => .error d
  | [_], some d => .error d
  | [], none =>
    .ok ⟨{ type := .endOfInput, literal := [], line := 1, column := 1, start := 0, stop := 0 }, [],
      none, ⟨0, 0, 0⟩, source, census⟩
  | first :: rest, failure => .ok ⟨first, rest, failure, ⟨0, 0, 0⟩, source, census⟩

end ScriptOptimizer
