import ScriptOptimizer.Harmony.Rules
import ScriptOptimizer.Text.Placeholder

/-!
The rules for literals, templates, arrays, objects and their methods.
-/

namespace ScriptOptimizer.Harmony

namespace Rules

open Reader

/-- What a numeral at a place stands for, if it is well formed. -/
def numeralAt? (t : Token) : Reader (Option Expression) := do
  let range : Range := ⟨t.start, t.start + t.raw.length⟩
  match number? t.raw with
  | some (.double value) => return some (.literal range t.raw (.number value))
  | some .big => return some (.foreign range .bigInteger)
  | none =>
    report t.start "Illegal numeric literal"
    return none

/-- The text of a regular expression after its opening slash, and how many bytes it takes with its
end. -/
def regexBody (text : Bytes) : RegexEnd → Bytes × Nat
  | .closed width => (text.take width, width + 1)
  | .unclosed width | .cut width => ([], width)
  | .exhausted width => (text.take (width - 1), width)

/-- Is it an end without a slash that is a fault? -/
def isUnclosed : RegexEnd → Bool
  | .unclosed _ => true
  | _ => false

/-- A regular expression from its opening slash. Flags are a word right after the closing slash; its
text then runs up to the last byte of the token after them. -/
def regexLiteral : Reader Expression := do
  let p ← get
  let start := p.token.start
  let text := p.text.drop (start + 1)
  let ending := regexEnd false 0 0 text
  let (pattern, width) := regexBody text ending
  let stop := start + 1 + width
  set { p with scanner := p.scanner.move (stop - p.scanner.offset) }
  if isUnclosed ending then report start "Invalid regular expression: missing /"
  let parted := partsFlags (← get).scanner.rest
  let _ ← advance
  let flags ← current
  if !parted && flags.lexeme = .name then
    let _ ← advance
    let stop := (← get).scanner.offset - 1
    let raw := (p.text.drop start).take (stop - start)
    return .literal ⟨start, start + raw.length⟩ raw (.regexp pattern flags.raw)
  else
    return .literal ⟨start, stop⟩ ((p.text.drop start).take (stop - start)) (.regexp pattern [])

/-- What is wrong with the escapes in a stretch of a template, if something is. -/
def stretchFault? (stretch : Stretch) (text : Bytes) : Option Bytes :=
  if stretch.strayDigit then some "\\8 and \\9 are not allowed in template strings."
  else match unescape true (withPlainBreaks text) with
    | .ok _ => none
    | .error message => some (Placeholder.fillAll message)

/-- One stretch of a template and whether it is the last. A tagged template may hold any escapes. A
fault in one is reported after the character that follows the stretch. -/
def templateStretch (tagged : Bool) : Reader Bool := do
  let s := (← get).scanner
  match stretchFrom 0 0 false s.rest with
  | none =>
    let after := s.move s.rest.length
    modify fun p => { p with scanner := after.report after.offset "Unexpected end of input" }
    return true
  | some stretch =>
    let after := s.move (stretch.width + if stretch.final then 1 else 2)
    let beyond : Int := after.offset + if after.rest.isEmpty then 0 else (Utf8.decode after.rest).2
    let fault := if tagged then none else stretchFault? stretch (s.rest.take stretch.width)
    let after := match fault with
      | some message => after.report beyond message
      | none => after
    modify fun p => { p with scanner := { after with breakEnds := true } }
    return stretch.final

/-- The parts of a template after its opening quote, in at most so many rounds: where it ends. -/
def templateParts (r : Rules) (tagged : Bool) : Nat → Reader Nat
  | 0 => return (← get).scanner.offset
  | n + 1 => do
    let final ← templateStretch tagged
    let stop := (← get).scanner.offset
    let _ ← advance
    if final then return stop
    let _ ← r.expression
    if !(← sees (.mark .rightBrace)) then unexpected
    templateParts r tagged n

/-- A template, which starts at its opening quote also when it is tagged. -/
def template (r : Rules) (tagged : Bool) : Reader Expression := do
  let t ← current
  let stop ← r.templateParts tagged (← rounds)
  return .foreign ⟨t.start, stop⟩ .templateLiteral

/-- The elements of an array. A comma without an element before it leaves a hole. -/
def arrayLiteral (r : Rules) : Reader Expression := do
  let opening ← expect (.mark .leftBracket)
  let elements ← many (return (← sees (.mark .rightBracket)) || (← sees .endOfInput)) do
    if ← accept (.mark .comma) then return Expression.absent
    let e ← r.spreadable
    if !(← sees (.mark .rightBracket)) then
      let _ ← expect (.mark .comma)
    return e
  let closing ← expect (.mark .rightBracket)
  return .array ⟨opening.start, closing.start + 1⟩ elements

/-- A key of an entry or of a member of a class: what it is and the token it was read from, unless
it is computed. -/
structure Key where
  expr : Expression
  token : Option Token

namespace Key

/-- Was it computed? -/
def isComputed (k : Key) : Bool := k.token.isNone

/-- Is it this text as it stands in the source? -/
def isText (k : Key) (text : String) : Bool := k.token.any fun t => t.raw = Bytes.ofString text

/-- Is it the token? -/
def isLexeme (k : Key) (l : Lexeme) : Bool := k.token.any fun t => t.lexeme = l

/-- Is it this name? -/
def isName (k : Key) (text : String) : Bool := k.token.any fun t => t.value = Bytes.ofString text

/-- Is it private to a class? -/
def isPrivate (k : Key) : Bool := k.isLexeme .privateName

end Key

/-- What the token of a key stands for. A token that is no key is reported at the token after it. -/
def keyOf? (t : Token) : Reader (Option Expression) := do
  match t.lexeme with
  | .string =>
    return some (.literal ⟨t.start, t.start + t.raw.length⟩ t.raw (.string t.value))
  | .number => numeralAt? t
  | .privateName => return some (.foreign ⟨t.start, t.start + nameWidth t.value⟩ .privateName)
  | l =>
    if l.isWord then
      return some (.literal ⟨t.start, t.start + nameWidth t.value⟩ t.raw (.string t.value))
    unexpectedAs l
    return none

/-- A key: any word, a string, a number, or an expression in brackets. -/
def key? (r : Rules) : Reader (Option Key) := do
  if ← accept (.mark .leftBracket) then
    let e ← r.assignment
    let _ ← expect (.mark .rightBracket)
    return some ⟨e, none⟩
  let t ← advance
  return (← keyOf? t).map (⟨·, some t⟩)

/-- A binding target: a name or a pattern. -/
def target (r : Rules) : Reader Expression := do
  match ← name? with
  | some id => return .name id
  | none =>
    match ← lexeme with
    | .mark .leftBracket => (← r.arrayLiteral).bindTarget false
    | .mark .leftBrace => (← r.object).bindTarget false
    | _ => missingName

/-- A binding target with an optional initializer. -/
def binding (r : Rules) : Reader Binding := do
  let t ← r.target
  let initializer ← if ← accept (.mark .assign) then r.assignment else pure .absent
  return .bind t initializer

/-- One parameter. -/
def parameter (r : Rules) : Reader Binding := do
  let b ← r.binding
  if !(← sees (.mark .rightParen)) then
    let _ ← expect (.mark .comma)
  return b

/-- Parameters in parentheses and the one that takes the rest of the arguments. -/
def parameters (r : Rules) : Reader (List Binding × Expression) := do
  let _ ← expect (.mark .leftParen)
  let isEnd : Reader Bool := return (← sees (.mark .rightParen)) || (← sees .endOfInput) ||
    (← sees .ellipsis)
  within Setting.parameters do
    let list ← many isEnd r.parameter
    let rest ← if ← accept .ellipsis then (← r.assignment).bindTarget false else pure .absent
    let _ ← expect (.mark .rightParen)
    return (list, rest)

/-- Reports parameters that an accessor cannot have. -/
def checkAccessor (kind : EntryKind) (start : Nat) (params : List Binding) (rest : Expression) :
    Reader Unit := do
  if kind = .getter && !(params.isEmpty && rest.isAbsent) then
    report start "Getter must not have any formal parameters."
  if kind = .setter && !(params.length = 1 && rest.isAbsent) then
    report start "Setter must have exactly one formal parameter."

/-- The parameters and the body of a method. -/
def method (r : Rules) (start : Nat) (kind : EntryKind) (generator async : Bool) :
    Reader Function := do
  let opening ← current
  within (Setting.functionHead async generator) do
    let (params, rest) ← r.parameters
    checkAccessor kind opening.start params rest
    let body ← r.functionBlock async async generator
    return .mk ⟨start, body.range.stop⟩ async generator none params rest body

/-- An entry whose value is a method. -/
def methodEntry (r : Rules) (start : Nat) (kind : EntryKind) (generator async : Bool) (k : Key) :
    Reader Entry := do
  let fn ← r.method start kind generator async
  return .keyed (k.expr.range.to fn.range) kind k.isComputed k.expr (.function fn)

/-- An entry whose value follows a colon. -/
def valueEntry (r : Rules) (k : Key) : Reader Entry := do
  let _ ← expect (.mark .colon)
  let value ← r.assignment
  return .keyed (k.expr.range.to value.range) .value k.isComputed k.expr value

/-- An entry that is a name alone, with the value that a pattern may give it. A key that cannot be a
name is reported, and a value is looked for. -/
def shortEntry (r : Rules) (k : Key) : Reader Entry := do
  let setting ← setting
  match k.token.filter fun t => setting.takesAsName t.lexeme with
  | some t =>
    let initializer ← if ← accept (.mark .assign) then r.assignment else pure .absent
    return .short ⟨t.start, t.value⟩ initializer
  | none =>
    unexpected
    r.valueEntry k

/-- An accessor or an asynchronous method after its word, unless its key is none. -/
def wordEntry? (r : Rules) (start : Nat) (word : Key) : Reader (Option Entry) := do
  match ← r.key? with
  | none => return none
  | some k =>
    if word.isLexeme .kwAsync then some <$> r.methodEntry start .method false true k
    else if word.isText "get" then some <$> r.methodEntry start .getter false false k
    else some <$> r.methodEntry start .setter false false k

/-- Is the key a word that makes an accessor or an asynchronous method of the key after it? -/
def startsMethod (k : Key) : Bool := k.isText "get" || k.isText "set" || k.isLexeme .kwAsync

/-- An entry of an object after its key. -/
def entryAfter? (r : Rules) (start : Nat) (generator : Bool) (k : Key) :
    Reader (Option Entry) := do
  if k.isPrivate then return some (← r.valueEntry k)
  if generator then return some (← r.methodEntry start .method true false k)
  match ← lexeme with
  | .mark .leftParen => some <$> r.methodEntry start .method false false k
  | .mark .comma | .mark .rightBrace | .mark .assign => some <$> r.shortEntry k
  | .mark .colon => some <$> r.valueEntry k
  | _ => if startsMethod k then r.wordEntry? start k else some <$> r.valueEntry k

/-- An entry of an object, unless its key is none. -/
def entry? (r : Rules) : Reader (Option Entry) := do
  if ← accept .ellipsis then return some (.spread (← r.assignment))
  let start := (← current).start
  let generator ← accept (.mark .times)
  match ← r.key? with
  | some k => r.entryAfter? start generator k
  | none => return none

/-- The entries of an object. -/
def objectRule (r : Rules) : Reader Expression := do
  let opening ← expect (.mark .leftBrace)
  let entries ← many (return (← sees (.mark .rightBrace)) || (← sees .endOfInput)) do
    let e ← r.entry?
    if !(← sees (.mark .rightBrace)) then
      let _ ← expect (.mark .comma)
    return e
  let closing ← expect (.mark .rightBrace)
  return .object ⟨opening.start, closing.start + 1⟩ (entries.filterMap id)

end Rules

end ScriptOptimizer.Harmony
