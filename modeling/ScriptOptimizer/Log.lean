import ScriptOptimizer.Text.Utf8

/-!
Log entries and their lines on a console.
-/

namespace ScriptOptimizer

/-- How important an entry is. -/
inductive LogLevel where
  | debug
  | info
  | warn
  | error
deriving DecidableEq, Repr

namespace LogLevel

/-- The word for a level. -/
def name : LogLevel → String
  | debug => "debug"
  | info => "info"
  | warn => "warn"
  | error => "error"

/-- The level with a name. -/
def ofName? (word : String) : Option LogLevel := [debug, info, warn, error].find? (·.name = word)

/-- The rank of a level, the least important first. -/
def rank : LogLevel → Nat
  | debug => 0
  | info => 1
  | warn => 2
  | error => 3

/-- The least important level that a verbosity shows: from two on everything, at one no debug
entries, otherwise warnings and errors. -/
def ofVerbosity (verbosity : Int) : LogLevel :=
  if verbosity ≥ 2 then debug else if verbosity = 1 then info else warn

end LogLevel

/-- The value of a field. -/
inductive LogValue where
  | text (value : Bytes)
  | int (value : Int)
deriving DecidableEq, Repr

/-- An entry: its level, its message and its fields in order. -/
structure LogEntry where
  level : LogLevel
  message : Bytes
  fields : List (Bytes × LogValue)
deriving DecidableEq, Repr

namespace LogValue

/-- A code point inside a quoted field value, with the bytes it was read from. -/
def escape (rune : Nat) (bytes : Bytes) : Bytes :=
  if rune = Utf8.replacement && bytes.length = 1 then "\\ufffd"
  else match rune with
    | 0x22 => "\\\""
    | 0x5C => "\\\\"
    | 0x0A => "\\n"
    | 0x0D => "\\r"
    | 0x09 => "\\t"
    | _ => if rune < 0x20 then Bytes.ofString "\\u" ++ Bytes.hexDigits 4 rune else Utf8.encode rune

/-- A quoted text. -/
def quote (text : Bytes) : Bytes :=
  Bytes.cat ["\"", (Utf8.runes text).flatMap fun (rune, bytes) => escape rune bytes, "\""]

/-- The text of a value. -/
def render : LogValue → Bytes
  | text value => quote value
  | int value => Bytes.ofInt value

end LogValue

namespace LogEntry

/-- The line of an entry: the level in capitals, the message and the fields if there are any,
divided by tabs. -/
def line (e : LogEntry) : Bytes :=
  let fields := e.fields.map fun (key, value) => Bytes.cat [LogValue.quote key, ": ", value.render]
  let shown : Bytes :=
    if fields.isEmpty then [] else Bytes.cat ["\t\x7b", Bytes.join ", " fields, "\x7d"]
  Bytes.cat [e.level.name.map Char.toUpper, "\t", e.message, shown, "\n"]

/-- The lines of the entries that a verbosity shows. -/
def console (verbosity : Int) (entries : List LogEntry) : Bytes :=
  let shown := entries.filter fun e => (LogLevel.ofVerbosity verbosity).rank ≤ e.level.rank
  Bytes.cat (shown.map line)

end LogEntry

end ScriptOptimizer
