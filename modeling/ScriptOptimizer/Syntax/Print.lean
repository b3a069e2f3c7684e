import ScriptOptimizer.Syntax.Node
import ScriptOptimizer.Syntax.Precedence

/-!
The source text of a tree, one statement a line, with as few parentheses as the operators' levels
allow. In the first part of a loop head a bare `in` would be read as that of a for-in loop, so there
it is put in parentheses.
-/

namespace ScriptOptimizer

namespace Print

/-- The blanks at the start of a line. -/
def indent (depth : Nat) : Bytes := Bytes.replicate (2 * depth) 32

/-- Is an expression put in parentheses where a level is wanted? It is if its own level is lower, or
if it is an `in` where a bare one may not stand. -/
def wraps (level : Nat) (noIn : Bool) (e : Expr) : Bool :=
  let bareIn := match e with
    | .binary _ operator _ _ => operator = Bytes.ofString "in"
    | _ => false
  e.level < level || (noIn && bareIn)

/-- An expression where a level is wanted. Inside parentheses a bare `in` may stand. -/
def enclose (level : Nat) (noIn : Bool) (e : Expr) (text : Bool → Bytes) : Bytes :=
  if wraps level noIn e then Bytes.cat ["(", text false, ")"] else text noIn

/-- A unary operator before its operand's text. A word or a two-character operator is followed by a
blank, and so is a sign before the same sign. -/
def unary (operator argument : Bytes) : Bytes :=
  let sign := operator = Bytes.ofString "+" || operator = Bytes.ofString "-"
  let blank := operator.length > 1 || (sign && argument.head? = operator.head?)
  Bytes.cat [operator, if blank then " " else "", argument]

/-- An expression statement. It cannot start with a brace or the word `function`. -/
def expressionStatement (text : Bytes) : Bytes :=
  let ambiguous :=
    (Bytes.ofString "\x7b").isPrefixOf text || (Bytes.ofString "function").isPrefixOf text
  if ambiguous then Bytes.cat ["(", text, ");"] else Bytes.cat [text, ";"]

/-- The body of a compound statement: a block stays on the line of its head, an empty statement is a
semicolon, anything else goes on its own line. -/
def body (depth : Nat) (s : Stmt) (text : Nat → Bytes) : Bytes :=
  match s with
  | .block _ _ => Bytes.ofString " " ++ text depth
  | .empty _ => ";"
  | _ => Bytes.cat ["\n", indent (depth + 1), text (depth + 1)]

/-- What stands between a body and the word that follows it. -/
def afterBody (depth : Nat) (block : Bool) : Bytes :=
  if block then " " else Bytes.ofString "\n" ++ indent depth

/-- Lines in braces. -/
def braces (depth : Nat) (lines : Bytes) : Bytes :=
  if lines.isEmpty then "\x7b\x7d" else Bytes.cat ["\x7b\n", lines, indent depth, "\x7d"]

/-- Parameters beside their defaults. -/
def withDefaults : List Bytes → List (Option Bytes) → List Bytes
  | [], _ => []
  | params, [] => params
  | p :: params, none :: defaults => p :: withDefaults params defaults
  | p :: params, some value :: defaults =>
    Bytes.cat [p, " = ", value] :: withDefaults params defaults

/-- The parameters of a function in parentheses, and the blank before its body. -/
def parameters (params : List Bytes) (rest : Option Ident) : Bytes :=
  let rest := rest.toList.map fun r => Bytes.ofString "..." ++ r.name
  Bytes.cat ["(", Bytes.join ", " (params ++ rest), ") "]

/-- Is it a number, whose dot would be read as part of it? -/
def isNumber : Slot → Bool
  | .holds (.literal ⟨_, _, .number _⟩) => true
  | _ => false

/-- Is it an `if` without `else`, which would take a following `else` as its own? -/
def isOpenIf : Stmt → Bool
  | .conditional _ _ _ .absent => true
  | _ => false

/-- Is it an `if`? -/
def isIf : Stmt → Bool
  | .conditional _ _ _ _ => true
  | _ => false

/-- Is it a block? -/
def isBlock : Stmt → Bool
  | .block _ _ => true
  | _ => false

mutual

/-- Is there a call on the chain of member accesses, which would end the callee of `new` too
early? -/
def hasCall : Slot → Bool
  | .holds e => hasCallExpr e
  | _ => false

/-- Is the expression a call, or a member access with a call on its chain? -/
def hasCallExpr : Expr → Bool
  | .call _ _ _ => true
  | .member _ object _ _ => hasCall object
  | _ => false

end

mutual

/-- What a slot holds, where a level is wanted. -/
def slot (depth : Nat) (noIn : Bool) (level : Nat) : Slot → Bytes
  | .holds e => enclose level noIn e fun noIn => expr depth noIn e
  | .absent | .vacant => []

/-- An expression without parentheses around it. -/
def expr (depth : Nat) (noIn : Bool) : Expr → Bytes
  | .ident id => id.name
  | .literal lit => lit.raw
  | .this _ => "this"
  | .array _ elements | .arrayPattern _ elements =>
    let hole := match elements.getLast? with
      | some .absent => ","
      | _ => ""
    Bytes.cat ["[", Bytes.join ", " (slots depth noIn elements), hole, "]"]
  | .object _ list | .objectPattern _ list =>
    match properties depth noIn list with
    | [] => "\x7b\x7d"
    | texts => Bytes.cat ["\x7b ", Bytes.join ", " texts, " \x7d"]
  | .function _ fn => Bytes.ofString "function" ++ function depth fn
  | .sequence _ items => Bytes.join ", " (slots depth noIn items)
  | .unary _ operator argument => unary operator (slot depth noIn Level.unary argument)
  | .update _ operator true argument => operator ++ slot depth noIn Level.unary argument
  | .update _ operator false argument => slot depth noIn Level.call argument ++ operator
  | .binary _ operator left right | .logical _ operator left right =>
    Bytes.cat [slot depth noIn (Level.binary operator) left, " ", operator, " ",
      slot depth noIn (Level.binary operator + 1) right]
  | .assign _ operator left right =>
    Bytes.cat [slot depth noIn Level.call left, " ", operator, " ",
      slot depth noIn Level.assign right]
  | .conditional _ test consequent alternate =>
    Bytes.cat [slot depth noIn Level.loosestBinary test, " ? ",
      slot depth noIn Level.assign consequent, " : ", slot depth noIn Level.assign alternate]
  | .construct _ callee arguments =>
    let target :=
      if hasCall callee then Bytes.cat ["(", slot depth noIn Level.sequence callee, ")"]
      else slot depth noIn Level.call callee
    Bytes.cat ["new ", target, "(", Bytes.join ", " (slots depth false arguments), ")"]
  | .call _ callee arguments =>
    Bytes.cat [slot depth noIn Level.call callee, "(",
      Bytes.join ", " (slots depth false arguments), ")"]
  | .member _ object property computed =>
    let target := slot depth noIn Level.call object
    if computed then Bytes.cat [target, "[", slot depth noIn Level.sequence property, "]"]
    else
      Bytes.cat [if isNumber object then Bytes.cat ["(", target, ")"] else target, ".",
        slot depth noIn Level.primary property]

/-- The items of a comma-separated list. -/
def slots (depth : Nat) (noIn : Bool) : List Slot → List Bytes
  | [] => []
  | s :: rest => slot depth noIn Level.assign s :: slots depth noIn rest

/-- An entry of an object. The value of an accessor continues its key. -/
def property (depth : Nat) (noIn : Bool) : Property → Bytes
  | .absent => []
  | .entry _ kind key value computed shorthand =>
    let name := slot depth noIn Level.assign key
    let key := if computed then Bytes.cat ["[", name, "]"] else name
    let accessor := kind = Bytes.ofString "get" || kind = Bytes.ofString "set"
    match accessor, value with
    | true, .holds (.function _ (.mk _ params defaults rest body _)) =>
      let params := withDefaults (slots depth false params) (optional depth defaults)
      Bytes.cat [kind, " ", key, parameters params rest, block depth body]
    | _, value =>
      if shorthand then key else Bytes.cat [key, ": ", slot depth noIn Level.assign value]

/-- The entries of an object. -/
def properties (depth : Nat) (noIn : Bool) : List Property → List Bytes
  | [] => []
  | p :: rest => property depth noIn p :: properties depth noIn rest

/-- A function without the word that starts it. -/
def function (depth : Nat) : Function → Bytes
  | .mk id params defaults rest body generator =>
    let params := withDefaults (slots depth false params) (optional depth defaults)
    let name := match id with
      | some id => Bytes.ofString " " ++ id.name
      | none => []
    Bytes.cat [if generator then "*" else "", name, parameters params rest, block depth body]

/-- The texts of those slots that are there. -/
def optional (depth : Nat) : List Slot → List (Option Bytes)
  | [] => []
  | .absent :: rest => none :: optional depth rest
  | s :: rest => some (slot depth false Level.assign s) :: optional depth rest

/-- A block. -/
def block (depth : Nat) : Block → Bytes
  | .absent => "\x7b\x7d"
  | .braces _ list => braces depth (stmts (depth + 1) list)

/-- Statements, each on a line of its own. -/
def stmts (depth : Nat) : List Stmt → Bytes
  | [] => []
  | s :: rest => Bytes.cat [indent depth, stmt depth s, "\n", stmts depth rest]

/-- A statement without the blanks before it and the line break after it. -/
def stmt (depth : Nat) : Stmt → Bytes
  | .absent => "/* Unsupported statement type: <nil> */"
  | .empty _ => ";"
  | .block _ list => braces depth (stmts (depth + 1) list)
  | .expression _ e => expressionStatement (slot depth false Level.sequence e)
  | .conditional _ test consequent alternate =>
    let wrapped := isOpenIf consequent && alternate.isPresent
    let first :=
      if wrapped then
        Bytes.ofString " " ++ braces depth
          (Bytes.cat [indent (depth + 1), stmt (depth + 1) consequent, "\n"])
      else body depth consequent fun depth => stmt depth consequent
    let second :=
      if alternate.isPresent then
        Bytes.cat [afterBody depth (wrapped || isBlock consequent), "else",
          if isIf alternate then Bytes.ofString " " ++ stmt depth alternate
          else body depth alternate fun depth => stmt depth alternate]
      else []
    Bytes.cat ["if (", slot depth false Level.sequence test, ")", first, second]
  | .labeled _ label body =>
    Bytes.cat [match label with
      | some id => id.name
      | none => [], ": ", stmt depth body]
  | .breakTo _ label => jump "break" label
  | .continueTo _ label => jump "continue" label
  | .withObject _ object s =>
    Bytes.cat ["with (", slot depth false Level.sequence object, ")",
      body depth s fun depth => stmt depth s]
  | .switchOn _ discriminant list =>
    Bytes.cat ["switch (", slot depth false Level.sequence discriminant, ") \x7b\n",
      cases (depth + 1) list, indent depth, "\x7d"]
  | .returnValue _ .absent => "return;"
  | .returnValue _ argument => Bytes.cat ["return ", slot depth false Level.sequence argument, ";"]
  | .throwValue _ argument => Bytes.cat ["throw ", slot depth false Level.sequence argument, ";"]
  | .tryCatch _ main guard finalizer =>
    let last := match finalizer with
      | .absent => []
      | finalizer => Bytes.ofString " finally " ++ block depth finalizer
    Bytes.cat ["try ", block depth main, handler depth guard, last]
  | .whileLoop _ test s =>
    Bytes.cat ["while (", slot depth false Level.sequence test, ")",
      body depth s fun depth => stmt depth s]
  | .doWhile _ s test =>
    Bytes.cat ["do", body depth s fun depth => stmt depth s, afterBody depth (isBlock s), "while (",
      slot depth false Level.sequence test, ");"]
  | .forLoop _ init test update s =>
    Bytes.cat ["for (", forHead depth init, ";", headPart depth test, ";", headPart depth update,
      ")", body depth s fun depth => stmt depth s]
  | .forIn _ left right s =>
    Bytes.cat ["for (", forHead depth left, " in ", slot depth false Level.sequence right, ")",
      body depth s fun depth => stmt depth s]
  | .debugger _ => "debugger;"
  | .function _ fn => Bytes.ofString "function" ++ function depth fn
  | .declaration _ kind list =>
    Bytes.cat [kind, " ", Bytes.join ", " (declarators depth false list), ";"]
where
  /-- A jump with its label. -/
  jump (keyword : Bytes) (label : Option Ident) : Bytes :=
    match label with
    | some id => Bytes.cat [keyword, " ", id.name, ";"]
    | none => Bytes.cat [keyword, ";"]

/-- The second or third part of a loop head. -/
def headPart (depth : Nat) : Slot → Bytes
  | .absent => []
  | .vacant => " "
  | .holds e => Bytes.ofString " " ++ enclose Level.sequence false e fun noIn => expr depth noIn e

/-- The clauses of a switch. -/
def cases (depth : Nat) : List Case → Bytes
  | [] => []
  | c :: rest => case depth c ++ cases depth rest

/-- A clause of a switch. -/
def case (depth : Nat) : Case → Bytes
  | .clause _ .absent consequent =>
    Bytes.cat [indent depth, "default:\n", stmts (depth + 1) consequent]
  | .clause _ test consequent =>
    Bytes.cat [indent depth, "case ", slot depth false Level.sequence test, ":\n",
      stmts (depth + 1) consequent]

/-- The handler of a try statement. -/
def handler (depth : Nat) : Handler → Bytes
  | .absent => []
  | .clause _ .absent body => Bytes.cat [" catch ", block depth body]
  | .clause _ param body =>
    Bytes.cat [" catch (", slot depth false Level.assign param, ") ", block depth body]

/-- The declarators of a declaration. -/
def declarators (depth : Nat) (noIn : Bool) : List Declarator → List Bytes
  | [] => []
  | d :: rest => declarator depth noIn d :: declarators depth noIn rest

/-- A declarator. -/
def declarator (depth : Nat) (noIn : Bool) : Declarator → Bytes
  | .bind _ id .absent => slot depth noIn Level.assign id
  | .bind _ id init =>
    Bytes.cat [slot depth noIn Level.assign id, " = ", slot depth noIn Level.assign init]

/-- The first part of a loop head. -/
def forHead (depth : Nat) : ForHead → Bytes
  | .absent => []
  | .declaration _ kind list => Bytes.cat [kind, " ", Bytes.join ", " (declarators depth true list)]
  | .expression s => slot depth true Level.sequence s

end

theorem expr_ident (depth : Nat) (noIn : Bool) (id : Ident) :
    expr depth noIn (.ident id) = id.name := by
  rw [expr]

theorem stmt_block (depth : Nat) (span : Span) (list : List Stmt) :
    stmt depth (.block span list) = braces depth (stmts (depth + 1) list) := by
  rw [stmt]

end Print

/-- The source text of an expression. -/
def Expr.print (e : Expr) : Bytes := Print.slot 0 false Level.sequence (.holds e)

/-- The source text of the expression in a slot, for which an empty slot has a remark instead. -/
def Slot.print : Slot → Bytes
  | .holds e => e.print
  | .absent | .vacant => "/* Unsupported expression type: <nil> */"

/-- The source text of a program, one statement a line. -/
def Program.print (p : Program) : Bytes := Print.stmts 0 p.body

end ScriptOptimizer
