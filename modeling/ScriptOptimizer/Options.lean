import ScriptOptimizer.Pass.Session
import ScriptOptimizer.Text.Category
import ScriptOptimizer.Text.Quoted

/-!
The settings of a compiler, where they come from and which of them are refused.
-/

namespace ScriptOptimizer

/-- The settings of a compiler. `passes` is missing when a list without any name was given, and a
missing tag lets a random one be chosen. -/
structure Options where
  frontend : Bytes
  passes : Option (List Bytes)
  literalStem : Bytes
  literalTag : Bytes
  overhead : Int
deriving DecidableEq, Repr

/-- Why settings are refused. -/
inductive OptionsError where
  | unknownFrontend (name : Bytes)
  | unknownPass (name : Bytes)
  | negativeOverhead (overhead : Int)
deriving DecidableEq, Repr

/-- The text of a refusal. -/
def OptionsError.message : OptionsError → Bytes
  | .unknownFrontend name =>
    Bytes.cat ["unknown frontend ", Quoted.text name, " (want \"in\" or \"goja\")"]
  | .unknownPass name =>
    Bytes.cat ["unknown pass ", Quoted.text name, " (known: [cached-literals implicit-globals])"]
  | .negativeOverhead overhead =>
    Bytes.cat ["size overhead must not be negative, got ", Bytes.ofInt overhead]

/-- The parts of a comma-separated list without surrounding white space; blank parts are dropped. -/
def splitList (text : Bytes) : List Bytes :=
  (Bytes.splitOn 44 text).map Category.trim |>.filter (· ≠ [])

/-- Variables of the environment by name. -/
abbrev Environment := List (Bytes × Bytes)

namespace Environment

/-- The value of a variable. An empty one counts as unset. -/
def get? (env : Environment) (name : String) : Option Bytes :=
  match env.find? fun entry => entry.1 = Bytes.ofString name with
  | some (_, []) => none
  | some (_, value) => some value
  | none => none

end Environment

/-- A decimal number with an optional sign that fits in 64 bits. -/
def decimalInt64? (text : Bytes) : Option Int :=
  let (negative, digits) := match text with
    | 43 :: digits => (false, digits)
    | 45 :: digits => (true, digits)
    | digits => (false, digits)
  if digits = [] || !digits.all Bytes.isDigit then none
  else
    let value : Int := Bytes.valueInBase 10 digits
    let signed := if negative then -value else value
    if -0x8000000000000000 ≤ signed && signed < 0x8000000000000000 then some signed else none

namespace Options

/-- The name of the built-in reader. -/
def builtIn : Bytes := "in"

/-- The name of the reader for newer programs. -/
def harmony : Bytes := "goja"

/-- Every pass over what the built-in reader gives. -/
def default : Options :=
  ⟨builtIn, some (PassName.all.map fun p => Bytes.ofString p.text), "__const_literal_$", [], 2⟩

/-- The first setting that is refused. -/
def fault? (o : Options) : Option OptionsError :=
  if o.frontend ≠ builtIn && o.frontend ≠ harmony then some (.unknownFrontend o.frontend)
  else match (o.passes.getD []).find? fun name => (PassName.ofText? name).isNone with
    | some name => some (.unknownPass name)
    | none => if o.overhead < 0 then some (.negativeOverhead o.overhead) else none

/-- The parts of a list, missing when there are none. -/
def passList (text : Bytes) : Option (List Bytes) :=
  match splitList text with
  | [] => none
  | list => some list

/-- The defaults with the variables of the environment laid over them. -/
def ofEnvironment (env : Environment) : Options :=
  { default with
    frontend := (env.get? "JSOPT_FRONTEND").getD default.frontend
    passes := match env.get? "JSOPT_PASSES" with
      | some text => passList text
      | none => default.passes
    literalStem := (env.get? "JSOPT_LITERAL_PREFIX").getD default.literalStem
    overhead := ((env.get? "JSOPT_SIZE_OVERHEAD").bind decimalInt64?).getD default.overhead }

/-- The text of a refusal of settings from the environment. -/
def environmentMessage (e : OptionsError) : Bytes := Bytes.ofString "environment: " ++ e.message

/-- The passes by name. -/
def passNames (o : Options) : List PassName := (o.passes.getD []).filterMap PassName.ofText?

/-- How declared literals are named and what they cost. An empty stem means the default one. -/
def literals (o : Options) : LiteralSettings :=
  let stem := if o.literalStem = [] then default.literalStem else o.literalStem
  ⟨stem ++ o.literalTag, o.overhead⟩

end Options

end ScriptOptimizer
