import ScriptOptimizer.Options

/-!
The arguments of the command line. Flags and inputs may stand in any order; after `--` there are
inputs only, of which `--` itself is never one, and a wish for help comes before any fault.
-/

namespace ScriptOptimizer

/-- What the command line asks for. -/
structure Arguments where
  inputs : List Bytes := []
  frontend : Bytes := []
  passes : Bytes := []
  stem : Bytes := []
  overhead : Option Int := none
  format : Bytes := Bytes.ofString "estree"
  loc : Bool := false
  globals : Bool := false
  stats : Bool := false
  output : Bytes := []
  workers : Int := 0
  verbose : Bool := false
  debug : Bool := false
deriving DecidableEq, Repr

/-- Why arguments are not taken. -/
inductive ArgumentError where
  | help
  | version
  | unknown (arg : Bytes)
  | missingValue (arg : Bytes)
  | badValue (arg reason : Bytes)
deriving DecidableEq, Repr

/-- The text of an error. -/
def ArgumentError.message : ArgumentError → Bytes
  | .help => "help requested by user"
  | .version => "version requested by user"
  | .unknown arg => Bytes.cat ["unknown argument ", arg]
  | .missingValue arg => Bytes.cat ["missing value for ", arg]
  | .badValue arg reason => Bytes.cat ["error processing ", arg, ": ", reason]

/-- A flag. -/
inductive Flag where
  | frontend | passes | stem | overhead | format | loc | globals | stats | output | workers
  | verbose | debug
deriving DecidableEq, Repr

/-- What a flag is followed by. -/
inductive FlagValue where
  | text
  | number
  | nothing
deriving DecidableEq, Repr

namespace Flag

/-- Every flag. -/
def all : List Flag :=
  [frontend, passes, stem, overhead, format, loc, globals, stats, output, workers, verbose, debug]

/-- The names of a flag. The empty name is that of the first flag. -/
def names : Flag → List String
  | frontend => ["frontend", ""]
  | passes => ["passes"]
  | stem => ["prefix"]
  | overhead => ["overhead"]
  | format => ["format", "f"]
  | loc => ["loc"]
  | globals => ["globals"]
  | stats => ["stats"]
  | output => ["output", "o"]
  | workers => ["workers", "j"]
  | verbose => ["verbose", "v"]
  | debug => ["debug"]

/-- The flag with a name. -/
def ofName? (name : Bytes) : Option Flag :=
  all.find? fun f => f.names.any fun n => Bytes.ofString n = name

/-- What the flag is followed by. -/
def value : Flag → FlagValue
  | overhead | workers => .number
  | loc | globals | stats | verbose | debug => .nothing
  | _ => .text

end Flag

namespace Arguments

/-- Without the dashes in front. -/
def bare (arg : Bytes) : Bytes := arg.dropWhile (· = 45)

/-- Does the argument name a flag? A dash or two alone do not. -/
def isFlag (arg : Bytes) : Bool := arg.head? = some 45 && bare arg ≠ []

/-- The name of a flag and the value given with it; no value counts as an empty one. -/
def nameAndValue (arg : Bytes) : Bytes × Bytes :=
  let name := (bare arg).takeWhile (· ≠ 61)
  (name, ((bare arg).drop (name.length + 1)))

/-- The reason why a text is no value. -/
def syntaxReason (reader : Bytes) (text : Bytes) (what : Bytes) : Bytes :=
  Bytes.cat ["strconv.", reader, ": parsing ", Quoted.text text, ": ", what]

/-- Reads a whole number. -/
def number (text : Bytes) : Except Bytes Int :=
  match decimalInt64? text with
  | some value => .ok value
  | none =>
    let digits := match text with
      | 43 :: digits | 45 :: digits => digits
      | digits => digits
    let what := if digits ≠ [] && digits.all Bytes.isDigit then "value out of range"
      else "invalid syntax"
    .error (syntaxReason "ParseInt" text what)

/-- Reads a truth value. -/
def truth (text : Bytes) : Except Bytes Bool :=
  let isOne (words : List String) := words.any fun w => Bytes.ofString w = text
  if isOne ["1", "t", "T", "TRUE", "true", "True"] then .ok true
  else if isOne ["0", "f", "F", "FALSE", "false", "False"] then .ok false
  else .error (syntaxReason "ParseBool" text "invalid syntax")

/-- May the argument be the value of a flag? A number may start with a dash. -/
def isValue (flag : Flag) (arg : Bytes) : Bool :=
  !isFlag arg || (flag.value = .number && (decimalInt64? arg).isSome)

/-- The arguments with a flag set. -/
def set (a : Arguments) (flag : Flag) (text : Bytes) : Except Bytes Arguments :=
  match flag with
  | .frontend => .ok { a with frontend := text }
  | .passes => .ok { a with passes := text }
  | .stem => .ok { a with stem := text }
  | .overhead => (number text).map fun n => { a with overhead := some n }
  | .format => .ok { a with format := text }
  | .loc => (truth text).map fun b => { a with loc := b }
  | .globals => (truth text).map fun b => { a with globals := b }
  | .stats => (truth text).map fun b => { a with stats := b }
  | .output => .ok { a with output := text }
  | .workers => (number text).map fun n => { a with workers := n }
  | .verbose => (truth text).map fun b => { a with verbose := b }
  | .debug => (truth text).map fun b => { a with debug := b }

/-- The arguments with a flag set, or the error for the argument that set it. -/
def setBy (a : Arguments) (arg : Bytes) (flag : Flag) (text : Bytes) :
    Except ArgumentError Arguments :=
  (a.set flag text).mapError (ArgumentError.badValue arg)

/-- Reads arguments one after another. -/
def readFrom (a : Arguments) : List Bytes → Except ArgumentError Arguments
  | [] => .ok a
  | arg :: rest =>
    if arg = Bytes.ofString "--" then .ok { a with inputs := a.inputs ++ rest.filter (· ≠ arg) }
    else if !isFlag arg then readFrom { a with inputs := a.inputs ++ [arg] } rest
    else if arg = Bytes.ofString "-h" || arg = Bytes.ofString "--help" then .error .help
    else if arg = Bytes.ofString "--version" then .error .version
    else
      let (name, value) := nameAndValue arg
      match Flag.ofName? name with
      | none => .error (.unknown arg)
      | some flag =>
        if value ≠ [] then do readFrom (← a.setBy arg flag value) rest
        else if flag.value = .nothing then do readFrom (← a.setBy arg flag "true") rest
        else match rest with
          | [] => .error (.missingValue arg)
          | next :: rest =>
            if isValue flag next then do readFrom (← a.setBy arg flag next) rest
            else .error (.missingValue arg)

/-- Is help asked for before a `--`? -/
def wantsHelp (args : List Bytes) : Bool :=
  (args.takeWhile (· ≠ Bytes.ofString "--")).any fun arg =>
    arg = Bytes.ofString "-h" || arg = Bytes.ofString "--help"

/-- Reads arguments. -/
def read (args : List Bytes) : Except ArgumentError Arguments :=
  match readFrom {} args with
  | .ok a => .ok a
  | .error e => .error (if wantsHelp args then .help else e)

/-- The line that shows how to call the program. -/
def usage : Bytes :=
  Bytes.cat ["Usage: jsopt [--frontend FRONTEND] [--passes PASSES] [--prefix PREFIX] ",
    "[--overhead OVERHEAD] [--format FORMAT] [--loc] [--globals] [--stats] [--output OUTPUT] ",
    "[--workers WORKERS] [--verbose] [--debug] [INPUTS [INPUTS ...]]\n"]

/-- The text that explains the program. -/
def help : Bytes :=
  Bytes.cat ["jsopt parses JavaScript, reports implicit globals and hoists repeated literals.\n",
    usage,
    "\nPositional arguments:\n",
    "  INPUTS                 input files (stdin when empty)\n",
    "\nOptions:\n",
    "  --frontend FRONTEND    parser front end: in or goja\n",
    "  --passes PASSES        comma separated passes to run\n",
    "  --prefix PREFIX        identifier prefix for hoisted literals\n",
    "  --overhead OVERHEAD    fixed byte cost of one hoisted declaration\n",
    "  --format FORMAT, -f FORMAT\n",
    "                         output format: estree, js, debug or pretty [default: estree]\n",
    "  --loc                  include loc and range in ESTree output\n",
    "  --globals              list implicit globals on stderr\n",
    "  --stats                report hoisting savings on stderr\n",
    "  --output OUTPUT, -o OUTPUT\n",
    "                         output file, or directory when several inputs are given\n",
    "  --workers WORKERS, -j WORKERS\n",
    "                         parallel compiles for several inputs (default: NumCPU)\n",
    "  --verbose, -v          log progress\n",
    "  --debug                log every pass decision\n",
    "  --help, -h             display this help and exit\n"]

end Arguments

end ScriptOptimizer
