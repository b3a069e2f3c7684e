import ScriptOptimizer.Text.Quoted
import ScriptOptimizer.Text.Utf16

/-!
Reading JSON. The text is read byte by byte, with the arrays and objects that are still open on a
stack, and the first byte that cannot stand where it does is reported.
-/

namespace ScriptOptimizer

/-- A JSON value that was read. Numbers are kept by their digits. -/
inductive JsonValue where
  | null
  | bool (value : Bool)
  | number (digits : Bytes)
  | text (value : Bytes)
  | array (items : List JsonValue)
  | object (fields : List (Bytes × JsonValue))
deriving Inhabited

namespace JsonReader

/-- An array or object that is still open, with what it holds so far in reverse: the items of an
array, the fields of an object, and those with the name of a field before and after its colon. -/
inductive Frame where
  | items (done : List JsonValue)
  | fields (done : List (Bytes × JsonValue))
  | named (done : List (Bytes × JsonValue)) (name : Bytes)
  | valued (done : List (Bytes × JsonValue)) (name : Bytes)

/-- What is read at a byte. -/
inductive Phase where
  | value
  | valueOrEnd
  | name
  | nameOrEnd
  | after
  | string
  | escape
  | hex (left : Nat)
  | minus
  | zero
  | whole
  | point
  | fraction
  | mark
  | sign
  | exponent
  | word (whole left : Bytes) (value : JsonValue)

/-- How far a text was read. `token` holds the bytes of the current string or number in reverse. -/
structure Progress where
  phase : Phase := .value
  stack : List Frame := []
  token : Bytes := []
  result : Option JsonValue := none

/-- Is it a blank? -/
def isBlank (b : UInt8) : Bool := b = 32 || b = 9 || b = 10 || b = 13

/-- The byte in single quotes. -/
def quoted (b : UInt8) : Bytes :=
  if b = 34 then "'\"'" else Quoted.rune b.toNat

/-- The message for a byte that cannot stand where it does. -/
def misplaced {α : Type} (b : UInt8) (place : Bytes) : Except Bytes α :=
  .error (Bytes.cat ["invalid character ", quoted b, " ", place])

/-- The control character of an escape with one letter, or the letter itself. -/
def escaped : UInt8 → UInt8
  | 98 => 8
  | 102 => 12
  | 110 => 10
  | 114 => 13
  | 116 => 9
  | b => b

/-- The unit of an escape by number at the front of a text. -/
def unit? : Bytes → Option Nat
  | 92 :: 117 :: rest =>
    if rest.length < 4 then none else Bytes.hex? (rest.take 4)
  | _ => none

/-- What a string with escapes stands for, `skip` bytes of which belong to a part that was already
read. Half a pair of surrogates and malformed bytes read as replacement characters. -/
def unquoteFrom (skip : Nat) : Bytes → Bytes
  | [] => []
  | b :: rest =>
    match skip with
    | k + 1 => unquoteFrom k rest
    | 0 =>
      match unit? (b :: rest) with
      | some unit =>
        match (unit? (rest.drop 5)).bind (Utf16.pair? unit) with
        | some rune => Utf8.encode rune ++ unquoteFrom 11 rest
        | none => Utf8.encode unit ++ unquoteFrom 5 rest
      | none =>
        if b = 92 then escaped ((rest.head?).getD 92) :: unquoteFrom 1 rest
        else
          let (rune, width) := Utf8.decode (b :: rest)
          Utf8.encode rune ++ unquoteFrom (width - 1) rest

namespace Progress

/-- At a phase of the current string or number, with one more byte of it. -/
def take (p : Progress) (phase : Phase) (b : UInt8) : Progress :=
  { p with phase, token := b :: p.token }

/-- After a value, which is put into what is open. -/
def complete (p : Progress) (v : JsonValue) : Progress :=
  match p.stack with
  | .items done :: rest => { phase := .after, stack := .items (v :: done) :: rest }
  | .valued done name :: rest => { phase := .after, stack := .fields ((name, v) :: done) :: rest }
  | stack => { phase := .after, stack, result := some v }

/-- After a string, which is the name of a field where one is due. -/
def completeString (p : Progress) : Progress :=
  let text := unquoteFrom 0 p.token.reverse
  match p.stack with
  | .fields done :: rest => { phase := .after, stack := .named done text :: rest }
  | _ => p.complete (.text text)

/-- After a number. -/
def completeNumber (p : Progress) : Progress := p.complete (.number p.token.reverse)

/-- How deep arrays and objects may be nested. -/
def depthLimit : Nat := 10000

/-- Inside an array or object that was opened. -/
def enter (p : Progress) (phase : Phase) (frame : Frame) (b : UInt8) : Except Bytes Progress :=
  if p.stack.length < depthLimit then .ok { phase, stack := frame :: p.stack }
  else misplaced b "exceeded max depth"

/-- At the first byte of a value. -/
def beginValue (p : Progress) (b : UInt8) : Except Bytes Progress :=
  if isBlank b then .ok p
  else if b = 123 then p.enter .nameOrEnd (.fields []) b
  else if b = 91 then p.enter .valueOrEnd (.items []) b
  else if b = 34 then .ok { p with phase := .string, token := [] }
  else if b = 45 then .ok { p with phase := .minus, token := [b] }
  else if b = 48 then .ok { p with phase := .zero, token := [b] }
  else if Bytes.isDigit b then .ok { p with phase := .whole, token := [b] }
  else if b = 116 then .ok { p with phase := .word "true" "rue" (.bool true) }
  else if b = 102 then .ok { p with phase := .word "false" "alse" (.bool false) }
  else if b = 110 then .ok { p with phase := .word "null" "ull" .null }
  else misplaced b "looking for beginning of value"

/-- At the first byte of the name of a field. -/
def beginName (p : Progress) (b : UInt8) : Except Bytes Progress :=
  if isBlank b then .ok p
  else if b = 34 then .ok { p with phase := .string, token := [] }
  else misplaced b "looking for beginning of object key string"

/-- At a byte after a value or a name. -/
def afterValue (p : Progress) (b : UInt8) : Except Bytes Progress :=
  if isBlank b then .ok p
  else match p.stack with
    | [] => misplaced b "after top-level value"
    | .items done :: rest =>
      if b = 44 then .ok { p with phase := .value }
      else if b = 93 then .ok ({ p with stack := rest }.complete (.array done.reverse))
      else misplaced b "after array element"
    | .fields done :: rest =>
      if b = 44 then .ok { p with phase := .name }
      else if b = 125 then .ok ({ p with stack := rest }.complete (.object done.reverse))
      else misplaced b "after object key:value pair"
    | .named done name :: rest | .valued done name :: rest =>
      if b = 58 then .ok { p with phase := .value, stack := .valued done name :: rest }
      else misplaced b "after object key"

/-- At a byte inside a string. -/
def inString (p : Progress) (b : UInt8) : Except Bytes Progress :=
  if b = 34 then .ok p.completeString
  else if b = 92 then .ok (p.take .escape b)
  else if b < 32 then misplaced b "in string literal"
  else .ok (p.take .string b)

/-- At the byte after a backslash. -/
def inEscape (p : Progress) (b : UInt8) : Except Bytes Progress :=
  if b = 117 then .ok (p.take (.hex 4) b)
  else if (Bytes.ofString "bfnrt\\/\"").contains b then .ok (p.take .string b)
  else misplaced b "in string escape code"

/-- At a byte that has to be a digit. -/
def digit (p : Progress) (phase : Phase) (place : Bytes) (b : UInt8) : Except Bytes Progress :=
  if Bytes.isDigit b then .ok (p.take phase b) else misplaced b place

/-- At a byte of a number that may end before it. -/
def inNumber (p : Progress) (b : UInt8) : Except Bytes Progress :=
  let exponential := b = 101 || b = 69
  match p.phase with
  | .whole | .zero =>
    if b = 46 then .ok (p.take .point b)
    else if exponential then .ok (p.take .mark b)
    else p.completeNumber.afterValue b
  | .fraction => if exponential then .ok (p.take .mark b) else p.completeNumber.afterValue b
  | _ => p.completeNumber.afterValue b

/-- At a byte of a word. -/
def inWord (p : Progress) (whole left : Bytes) (v : JsonValue) (b : UInt8) :
    Except Bytes Progress :=
  match left with
  | [] => p.afterValue b
  | due :: rest =>
    if b ≠ due then
      misplaced b (Bytes.cat ["in literal ", whole, " (expecting ", quoted due, ")"])
    else if rest.isEmpty then .ok (p.complete v)
    else .ok { p with phase := .word whole rest v }

/-- One byte further. -/
def step (p : Progress) (b : UInt8) : Except Bytes Progress :=
  match p.phase with
  | .value => p.beginValue b
  | .valueOrEnd => if b = 93 then p.afterValue b else p.beginValue b
  | .name => p.beginName b
  | .nameOrEnd => if b = 125 then p.afterValue b else p.beginName b
  | .after => p.afterValue b
  | .string => p.inString b
  | .escape => p.inEscape b
  | .hex left =>
    if Bytes.isHexDigit b then .ok (p.take (if left ≤ 1 then .string else .hex (left - 1)) b)
    else misplaced b "in \\u hexadecimal character escape"
  | .minus =>
    if b = 48 then .ok (p.take .zero b) else p.digit .whole "in numeric literal" b
  | .whole => if Bytes.isDigit b then .ok (p.take .whole b) else p.inNumber b
  | .zero => p.inNumber b
  | .point => p.digit .fraction "after decimal point in numeric literal" b
  | .fraction => if Bytes.isDigit b then .ok (p.take .fraction b) else p.inNumber b
  | .mark =>
    if b = 43 || b = 45 then .ok (p.take .sign b)
    else p.digit .exponent "in exponent of numeric literal" b
  | .sign => p.digit .exponent "in exponent of numeric literal" b
  | .exponent => if Bytes.isDigit b then .ok (p.take .exponent b) else p.inNumber b
  | .word whole left v => p.inWord whole left v b

/-- The value at the end of a text, which ends what a blank would end. -/
def finish (p : Progress) : Except Bytes JsonValue := do
  let p ← p.step 32
  match p.stack, p.result with
  | [], some v => return v
  | _, _ => .error "unexpected end of JSON input"

end Progress

end JsonReader

/-- Reads a JSON text, or tells what is wrong with it. -/
def JsonValue.parse (text : Bytes) : Except Bytes JsonValue := do
  let p ← text.foldlM JsonReader.Progress.step {}
  p.finish

end ScriptOptimizer
