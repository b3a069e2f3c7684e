import ScriptOptimizer.Syntax.Print

/-!
Writing source text with an emitter that is used again and again. Beside the text it has a depth and
a mode, in which a bare `in` would end the first part of a loop head. What is written inside other
text changes them on the way and sets them back; only a tree that lacks a part which is needed
breaks the writing off.
-/

namespace ScriptOptimizer

/-- What is written into. -/
structure Emitter where
  depth : Nat := 0
  noIn : Bool := false
  text : Bytes := []
deriving DecidableEq, Repr

/-- Writing, which ends early where a part is missing. -/
abbrev Emission (α : Type := Unit) := StateT Emitter Option α

namespace Emission

def write (text : Bytes) : Emission := modify fun e => { e with text := e.text ++ text }

def writeIndent : Emission := do write (Print.indent (← get).depth)

/-- Writes one level deeper. -/
def deeper (x : Emission) : Emission := do
  modify fun e => { e with depth := e.depth + 1 }
  x
  modify fun e => { e with depth := e.depth - 1 }

/-- Writes in a mode, and goes back to the mode before. -/
def inMode (noIn : Bool) (x : Emission) : Emission := do
  let saved := (← get).noIn
  modify fun e => { e with noIn }
  x
  modify fun e => { e with noIn := saved }

/-- What is written into a new emitter of the same depth and mode. -/
def scratch (x : Emission) : Emission Bytes := fun e =>
  (x { e with text := [] }).map fun (_, s) => (s.text, e)

/-- Writes one after another, with commas between them. -/
def separated : List Emission → Emission
  | [] => pure ()
  | x :: rest => do
    x
    rest.forM fun y => do
      write ", "
      y

def line (x : Emission) : Emission := do
  writeIndent
  x
  write "\n"

/-- Writes lines in braces. -/
def braces (empty : Bool) (lines : Emission) : Emission :=
  if empty then write "\x7b\x7d"
  else do
    write "\x7b\n"
    deeper lines
    writeIndent
    write "\x7d"

/-- Writes an expression where a level is wanted, in parentheses if it needs them there. -/
def enclose (level : Nat) (e : Expr) (bare : Emission) : Emission := do
  if Print.wraps level (← get).noIn e then
    inMode false do
      write "("
      bare
      write ")"
  else bare

/-- Writes the body of a compound statement. -/
def body (s : Stmt) (inline : Emission) : Emission :=
  match s with
  | .block _ _ => do
    write " "
    inline
  | .empty _ => write ";"
  | _ => do
    write "\n"
    deeper do
      writeIndent
      inline

/-- Writes what stands between a body and the word that follows it. -/
def afterBody (block : Bool) : Emission :=
  if block then write " "
  else do
    write "\n"
    writeIndent

def jump (keyword : Bytes) (label : Option Ident) : Emission := do
  write keyword
  write (match label with
    | some id => Bytes.ofString " " ++ id.name
    | none => [])
  write ";"

/-- Parameters beside their defaults. -/
def withDefaults : List Emission → List (Option Emission) → List Emission
  | [], _ => []
  | params, [] => params
  | p :: params, none :: defaults => p :: withDefaults params defaults
  | p :: params, some value :: defaults =>
    (do
      p
      write " = "
      value) :: withDefaults params defaults

/-- Writes the parameters and the body of a function. -/
def functionTail (params : List Emission) (rest : Option Ident) (body : Emission) : Emission :=
  inMode false do
    write "("
    separated (params ++ rest.toList.map fun r => write (Bytes.ofString "..." ++ r.name))
    write ") "
    body

/-- Writes arguments in parentheses. -/
def arguments (args : List Emission) : Emission :=
  inMode false do
    write "("
    separated args
    write ")"

/-- Writes the key of an entry and, unless it stands for both, its value. -/
def keyed (key : Bytes) (shorthand : Bool) (value : Emission) : Emission := do
  write key
  if shorthand then pure ()
  else
    write ": "
    value

mutual

def slot (level : Nat) : Slot → Emission
  | .holds e => enclose level e (expr e)
  | .absent | .vacant => pure ()

/-- Writes an expression without parentheses around it. -/
def expr : Expr → Emission
  | .ident id => write id.name
  | .literal lit => write lit.raw
  | .this _ => write "this"
  | .array _ elements | .arrayPattern _ elements => do
    write "["
    separated (slots elements)
    write (match elements.getLast? with
      | some .absent => ","
      | _ => "")
    write "]"
  | .object _ [] | .objectPattern _ [] => write "\x7b\x7d"
  | .object _ list | .objectPattern _ list => do
    write "\x7b "
    separated (properties list)
    write " \x7d"
  | .function _ fn => do
    write "function"
    function fn
  | .sequence _ items => separated (slots items)
  | .unary _ operator argument => do
    write operator
    let text ← scratch (slot Level.unary argument)
    let sign := operator = Bytes.ofString "+" || operator = Bytes.ofString "-"
    let blank := operator.length > 1 || (sign && text.head? = operator.head?)
    write (if blank then " " else "")
    write text
  | .update _ operator true argument => do
    write operator
    slot Level.unary argument
  | .update _ operator false argument => do
    slot Level.call argument
    write operator
  | .binary _ operator left right | .logical _ operator left right => do
    slot (Level.binary operator) left
    write (Bytes.cat [" ", operator, " "])
    slot (Level.binary operator + 1) right
  | .assign _ operator left right => do
    slot Level.call left
    write (Bytes.cat [" ", operator, " "])
    slot Level.assign right
  | .conditional _ test consequent alternate => do
    slot Level.loosestBinary test
    write " ? "
    slot Level.assign consequent
    write " : "
    slot Level.assign alternate
  | .construct _ callee args => do
    write "new "
    (if Print.hasCall callee then do
      write "("
      slot Level.sequence callee
      write ")"
    else slot Level.call callee)
    arguments (slots args)
  | .call _ callee args => do
    slot Level.call callee
    arguments (slots args)
  | .member _ .absent _ _ => failure
  | .member _ object property true => do
    slot Level.call object
    write "["
    slot Level.sequence property
    write "]"
  | .member _ object property false => do
    (if Print.isNumber object then do
      write "("
      slot Level.call object
      write ")"
    else slot Level.call object)
    write "."
    slot Level.primary property

def slots : List Slot → List Emission
  | [] => []
  | s :: rest => slot Level.assign s :: slots rest

/-- Writes an entry of an object. The value of an accessor continues its key. -/
def property : Property → Emission
  | .absent => failure
  | .entry _ kind key value computed shorthand => do
    let name ← scratch (slot Level.assign key)
    let key := if computed then Bytes.cat ["[", name, "]"] else name
    let accessor := kind = Bytes.ofString "get" || kind = Bytes.ofString "set"
    match accessor, value with
    | true, .absent => failure
    | true, .holds (.function _ (.mk _ params defaults rest body _)) =>
      write (Bytes.cat [kind, " ", key])
      functionTail (withDefaults (slots params) (optional defaults)) rest (functionBody body)
    | _, value => keyed key shorthand (slot Level.assign value)

def properties : List Property → List Emission
  | [] => []
  | p :: rest => property p :: properties rest

/-- Writes a function without the word that starts it. -/
def function : Function → Emission
  | .mk id params defaults rest body generator => do
    write (if generator then "*" else "")
    write (match id with
      | some id => Bytes.ofString " " ++ id.name
      | none => [])
    functionTail (withDefaults (slots params) (optional defaults)) rest (functionBody body)

/-- Those of the slots that are there. -/
def optional : List Slot → List (Option Emission)
  | [] => []
  | .absent :: rest => none :: optional rest
  | s :: rest => some (slot Level.assign s) :: optional rest

/-- Writes the body of a function, which may be missing. -/
def functionBody : Block → Emission
  | .absent => write "\x7b\x7d"
  | .braces _ list => braces list.isEmpty (stmts list)

def block : Block → Emission
  | .absent => failure
  | .braces _ list => braces list.isEmpty (stmts list)

def stmts : List Stmt → Emission
  | [] => pure ()
  | s :: rest => do
    line (stmt s)
    stmts rest

/-- Writes a statement without the blanks before it and the line break after it. -/
def stmt : Stmt → Emission
  | .absent => write "/* Unsupported statement type: <nil> */"
  | .empty _ => write ";"
  | .block _ list => braces list.isEmpty (stmts list)
  | .expression _ e => do
    write (Print.expressionStatement (← scratch (slot Level.sequence e)))
  | .conditional _ test consequent alternate => do
    write "if ("
    slot Level.sequence test
    write ")"
    let wrapped := Print.isOpenIf consequent && alternate.isPresent
    (if wrapped then do
      write " "
      braces false (line (stmt consequent))
    else body consequent (stmt consequent))
    if alternate.isPresent then
      afterBody (wrapped || Print.isBlock consequent)
      write "else"
      if Print.isIf alternate then
        write " "
        stmt alternate
      else body alternate (stmt alternate)
    else pure ()
  | .labeled _ none _ => failure
  | .labeled _ (some id) s => do
    write (id.name ++ Bytes.ofString ": ")
    stmt s
  | .breakTo _ label => jump "break" label
  | .continueTo _ label => jump "continue" label
  | .withObject _ object s => do
    write "with ("
    slot Level.sequence object
    write ")"
    body s (stmt s)
  | .switchOn _ discriminant list => do
    write "switch ("
    slot Level.sequence discriminant
    write ") \x7b\n"
    deeper (cases list)
    writeIndent
    write "\x7d"
  | .returnValue _ .absent => write "return;"
  | .returnValue _ argument => do
    write "return "
    slot Level.sequence argument
    write ";"
  | .throwValue _ argument => do
    write "throw "
    slot Level.sequence argument
    write ";"
  | .tryCatch _ main guard finalizer => do
    write "try "
    block main
    handler guard
    match finalizer with
    | .absent => pure ()
    | finalizer =>
      write " finally "
      block finalizer
  | .whileLoop _ test s => do
    write "while ("
    slot Level.sequence test
    write ")"
    body s (stmt s)
  | .doWhile _ s test => do
    write "do"
    body s (stmt s)
    afterBody (Print.isBlock s)
    write "while ("
    slot Level.sequence test
    write ");"
  | .forLoop _ init test update s => do
    write "for ("
    forHead init
    write ";"
    headPart test
    write ";"
    headPart update
    write ")"
    body s (stmt s)
  | .forIn _ left right s => do
    write "for ("
    forHead left
    write " in "
    slot Level.sequence right
    write ")"
    body s (stmt s)
  | .debugger _ => write "debugger;"
  | .function _ fn => do
    write "function"
    function fn
  | .declaration _ kind list => do
    write (kind ++ Bytes.ofString " ")
    separated (declarators list)
    write ";"

/-- Writes the second or third part of a loop head. -/
def headPart : Slot → Emission
  | .absent => pure ()
  | .vacant => write " "
  | .holds e => do
    write " "
    enclose Level.sequence e (expr e)

def cases : List Case → Emission
  | [] => pure ()
  | c :: rest => do
    case c
    cases rest

def case : Case → Emission
  | .clause _ test consequent => do
    writeIndent
    (match test with
    | .absent => write "default:\n"
    | test => do
      write "case "
      slot Level.sequence test
      write ":\n")
    deeper (stmts consequent)

def handler : Handler → Emission
  | .absent => pure ()
  | .clause _ param body => do
    write " catch"
    (match param with
    | .absent => pure ()
    | param => do
      write " ("
      slot Level.assign param
      write ")")
    write " "
    block body

def declarators : List Declarator → List Emission
  | [] => []
  | d :: rest => declarator d :: declarators rest

def declarator : Declarator → Emission
  | .bind _ id init => do
    slot Level.assign id
    match init with
    | .absent => pure ()
    | init =>
      write " = "
      slot Level.assign init

/-- Writes the first part of a loop head, in which no bare `in` may stand. -/
def forHead (head : ForHead) : Emission := inMode true <|
  match head with
  | .absent => pure ()
  | .declaration _ kind list => do
    write (kind ++ Bytes.ofString " ")
    separated (declarators list)
  | .expression s => slot Level.sequence s

end

/-- The source text of a program. -/
def program (p : Program) : Emission Bytes := do
  modify fun e => { e with text := [], depth := 0 }
  stmts p.body
  return (← get).text

/-- Writes the expression in a slot, or a remark for an empty one. -/
def alone : Slot → Emission
  | .holds e => enclose Level.sequence e (expr e)
  | .absent | .vacant => write "/* Unsupported expression type: <nil> */"

/-- The source text of the expression in a slot. -/
def expression (s : Slot) : Emission Bytes := do
  modify fun e => { e with text := [] }
  alone s
  return (← get).text

/-- What an emitter is asked for. -/
inductive Call where
  | program (p : Program)
  | expression (s : Slot)

def Call.emission : Call → Emission Bytes
  | .program p => Emission.program p
  | .expression s => Emission.expression s

/-- Several calls on one emitter, one after another. -/
def calls : List Call → Emission (List Bytes)
  | [] => return []
  | c :: rest => do
    let text ← c.emission
    let texts ← calls rest
    return text :: texts

end Emission

end ScriptOptimizer
