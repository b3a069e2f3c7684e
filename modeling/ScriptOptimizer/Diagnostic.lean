import ScriptOptimizer.Source.Basic

/-!
Positioned errors of the front end and how they are shown: a headline, the line they are about and a
marker under the place.
-/

namespace ScriptOptimizer

/-- A range of source text. Line and column count from one, the offsets from zero. -/
structure Location where
  line : Int
  column : Int
  start : Int
  stop : Int
  source : Option Source
deriving DecidableEq, Repr, Inhabited

/-- Whether the text could not be cut into tokens, or the tokens not read as a program. -/
inductive DiagnosticKind where
  | lexical
  | syntactic
deriving DecidableEq, Repr

/-- The word for a kind. -/
def DiagnosticKind.name : DiagnosticKind → Bytes
  | .lexical => "Lexical"
  | .syntactic => "Syntax"

/-- An error at a place in the source. `expected` and `actual` are what the grammar wanted and what
it found; `cause` is the text of an error behind this one. -/
structure Diagnostic where
  kind : DiagnosticKind
  location : Location
  message : Bytes
  expected : Bytes
  actual : Bytes
  cause : Option Bytes
deriving DecidableEq, Repr

namespace Diagnostic

/-- A lexical error. -/
def lexical (location : Location) (message : Bytes) (cause : Option Bytes) : Diagnostic :=
  ⟨.lexical, location, message, [], [], cause⟩

/-- A syntax error with a message of its own. -/
def syntactic (location : Location) (message actual : Bytes) : Diagnostic :=
  ⟨.syntactic, location, message, [], actual, none⟩

/-- The syntax error for a token that the grammar does not allow, with what it wanted if that can be
said. -/
def unexpected (location : Location) (expected actual : Bytes) : Diagnostic :=
  let message :=
    if expected = [] then Bytes.ofString "unexpected " ++ actual
    else Bytes.ofString "expected " ++ expected ++ Bytes.ofString ", got " ++ actual
  ⟨.syntactic, location, message, expected, actual, none⟩

/-- `line:column`. -/
def place (d : Diagnostic) : Bytes :=
  Bytes.ofInt d.location.line ++ Bytes.ofString ":" ++ Bytes.ofInt d.location.column

/-- The error on one line. -/
def text (d : Diagnostic) : Bytes :=
  d.kind.name ++ Bytes.ofString " Error at " ++ d.place ++ Bytes.ofString ": " ++ d.message

/-- The marker under a place: a caret, followed by tildes to the end of the range if the range lies
in the line. -/
def marker (location : Location) (width : Nat) : Bytes :=
  let column := (location.column - 1).toNat
  let range := location.stop - location.start
  let tildes := if range > 1 && column + range ≤ width then (range - 1).toNat else 0
  Bytes.replicate column 32 ++ Bytes.ofString "^" ++ Bytes.replicate tildes 126

/-- One error with the line it is about, taken from the lines of the content; an error outside them
has a headline only. -/
def render (lines : List Bytes) (d : Diagnostic) : Bytes :=
  let origin := match d.location.source with
    | some source => source.displayName ++ Bytes.ofString ": "
    | none => []
  let index := d.location.line - 1
  match if index < 0 then none else lines[index.toNat]? with
  | none => origin ++ d.kind.name ++ Bytes.ofString " Error: " ++ d.message ++ Bytes.ofString "\n"
  | some line =>
    let line := Bytes.trimEnd (fun b => b = 13 || b = 10 || b = 9 || b = 32) line
    origin ++ d.text ++ Bytes.ofString "\n  " ++ line ++ Bytes.ofString "\n  " ++
      marker d.location line.length ++ Bytes.ofString "\n\n"

/-- The errors one after another, with lines taken from the content. -/
def display (content : Bytes) (errors : List Diagnostic) : Bytes :=
  errors.flatMap (render (Bytes.splitOn 10 content))

end Diagnostic

end ScriptOptimizer
