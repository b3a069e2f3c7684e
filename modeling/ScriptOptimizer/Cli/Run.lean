import ScriptOptimizer.Batch
import ScriptOptimizer.Cli.Amount
import ScriptOptimizer.Cli.Arguments
import ScriptOptimizer.Syntax.Compact
import ScriptOptimizer.Syntax.Document
import ScriptOptimizer.Syntax.Print

/-!
A call of the program: what it writes and with which code it ends, as a function of its arguments
and what it finds around it.
-/

namespace ScriptOptimizer.Cli

/-- What a call finds around it. `tag` is the part of literal names that differs from call to call,
`elapsed` the text for the time a compilation took, and `dump` writes a program out with all its
fields. -/
structure Surroundings where
  environment : Environment
  input : Bytes
  files : FileTree
  processors : Int
  tag : Bytes
  elapsed : Bytes
  dump : Program → Bytes

/-- What a call has done so far: its exit code, what it wrote, and the files after it. A call is
broken off when an input cannot be read on. -/
structure Report where
  code : Nat := 0
  brokenOff : Bool := false
  out : Bytes := []
  err : Bytes := []
  files : FileTree

/-- The code after wrong usage. -/
def usageCode : Nat := 64
/-- The code after wrong input. -/
def dataCode : Nat := 65
/-- The code after a failure of the surroundings. -/
def softwareCode : Nat := 70

namespace Report

/-- With more text for standard output. -/
def print (text : Bytes) (r : Report) : Report := { r with out := r.out ++ text }

/-- With more text for standard error. -/
def complain (text : Bytes) (r : Report) : Report := { r with err := r.err ++ text }

/-- Ended with a message. -/
def fail (code : Nat) (message : Bytes) (r : Report) : Report :=
  { r.complain (Bytes.cat ["jsopt: ", message, "\n"]) with code }

end Report

/-- The output formats. -/
def formats : List String := ["estree", "js", "debug", "pretty"]

/-- The settings: those of the environment, with the arguments laid over them. -/
def options (a : Arguments) (s : Surroundings) : Options :=
  let o := Options.ofEnvironment s.environment
  { o with
    frontend := if a.frontend = [] then o.frontend else a.frontend
    passes := if a.passes = [] then o.passes else Options.passList a.passes
    literalStem := if a.stem = [] then o.literalStem else a.stem
    literalTag := s.tag
    overhead := a.overhead.getD o.overhead }

/-- The text of a program in the format asked for. -/
def rendering (a : Arguments) (s : Surroundings) (p : Program) : Bytes :=
  if a.format = Bytes.ofString "js" then p.print
  else if a.format = Bytes.ofString "debug" then p.compact?.getD [] ++ Bytes.ofString "\n"
  else if a.format = Bytes.ofString "pretty" then s.dump p ++ Bytes.ofString "\n"
  else (p.document a.loc).indented "  " 0 ++ Bytes.ofString "\n"

/-- How talkative the log is. -/
def verbosity (a : Arguments) : Int := if a.debug then 2 else if a.verbose then 1 else 0

/-- The log of a compilation, whose last entry tells the time it took. -/
def logText (a : Arguments) (s : Surroundings) (c : Compiled) : Bytes :=
  let time : Bytes × LogValue := ("elapsed", .text s.elapsed)
  LogEntry.console (verbosity a) <| c.log.map fun e =>
    if e.level = .info then { e with fields := e.fields ++ [time] } else e

/-- What is said about a compiled source. -/
def remarks (a : Arguments) (c : Compiled) : Bytes :=
  let name := c.source.displayName
  let globals := if a.globals then
      c.globals.flatMap fun g =>
        Bytes.cat [name, ":", Bytes.ofInt g.place.line, ":", Bytes.ofInt g.place.column,
          ": implicit global ", g.name, "\n"]
    else []
  let stats : Bytes := if a.stats then
      Bytes.cat [name, ": hoisted ", Bytes.ofNat c.hoisted.length, " literals, saved about ",
        Amount.size c.saved.toNat, " of ", Amount.size c.source.content.length, "\n"]
    else []
  globals ++ stats

/-- Reports why an input was not compiled. -/
def reportError (e : JobError) (r : Report) : Report :=
  match e with
  | .read (.reported d) =>
    let content := (d.location.source.map (·.content)).getD []
    { r.complain (Diagnostic.display content [d]) with code := dataCode }
  | .read .brokenOff => { r with brokenOff := true }
  | e => r.fail softwareCode e.message

/-- Reports one input, and writes its text to a file, or to standard output when there is no
path. -/
def finish (a : Arguments) (s : Surroundings) (path : Bytes) (outcome : Except JobError Compiled)
    (r : Report) : Report :=
  match outcome with
  | .error e => reportError e r
  | .ok c =>
    let r := r.complain (remarks a c)
    let text := rendering a s c.program
    if path = [] then r.print text
    else match r.files.write path text with
      | .ok files => { r with files }
      | .error reason => r.fail softwareCode (Bytes.cat ["creating ", path, ": ", reason])

/-- The part of a path's last element from its last dot on. -/
def extension (path : Bytes) : Bytes :=
  let last := ((Bytes.splitOn 47 path).getLast?).getD []
  let tail := last.reverse.takeWhile (· ≠ 46)
  if tail.length = last.length then [] else (46 :: tail.reverse)

/-- The name of the file that takes the text of an input. -/
def outputName (input format : Bytes) : Bytes :=
  let base := baseName input
  let stem := if base.reverse.take (extension input).length = (extension input).reverse then
      base.take (base.length - (extension input).length)
    else base
  let ending : String :=
    if format = Bytes.ofString "estree" then ".json"
    else if format = Bytes.ofString "js" then ".js"
    else ".txt"
  stem ++ Bytes.ofString ending

variable [PatternCheck] [ScriptReader]

/-- Compiles several inputs and reports them in order. -/
def runBatch (a : Arguments) (o : Options) (s : Surroundings) (r : Report) : Report :=
  let made := if a.output = [] then .ok r.files else r.files.makeFolder a.output
  match made with
  | .error reason => r.fail softwareCode (Bytes.cat ["creating ", a.output, ": ", reason])
  | .ok files =>
    let workers := if a.workers ≤ 0 then s.processors else a.workers
    let batch := Batch.run o files workers false (a.inputs.map Job.ofPath)
    let logs := batch.results.flatMap fun result =>
      match result.outcome with
      | .ok c => logText a s c
      | .error _ => []
    let step (r : Report) (result : BatchResult) : Report :=
      let name := outputName result.path a.format
      let path := if a.output = [] then [] else Path.inside a.output name
      let after := finish a s path result.outcome { r with code := 0 }
      { after with code := max r.code after.code }
    let r := batch.results.foldl step ({ r with files }.complain logs)
    if a.stats then
      r.complain (Bytes.cat [Amount.count batch.completed, " files compiled, ",
        Amount.count batch.failed, " failed on ", Bytes.ofInt batch.workers, " workers\n"])
    else r

/-- Compiles one input and reports it. -/
def runOne (a : Arguments) (o : Options) (s : Surroundings) (job : Job) (r : Report) : Report :=
  let outcome := job.run o r.files
  let logs := match outcome with
    | .ok c => logText a s c
    | .error _ => []
  finish a s a.output outcome (r.complain logs)

/-- A call with arguments that were taken. -/
def runWith (a : Arguments) (s : Surroundings) (r : Report) : Report :=
  if !formats.any (fun f => Bytes.ofString f = a.format) then
    r.fail usageCode (Bytes.cat ["unknown format ", Quoted.text a.format])
  else match (Options.ofEnvironment s.environment).fault? with
    | some e => r.fail usageCode (Options.environmentMessage e)
    | none =>
      let o := options a s
      match o.fault? with
      | some e => r.fail usageCode e.message
      | none =>
        match a.inputs with
        | [] =>
          runOne a o s (Job.ofSource (Source.standardInput (Source.decode s.input))) r
        | [path] => runOne a o s (Job.ofPath path) r
        | _ => runBatch a o s r

/-- A call of the program. -/
def run (args : List Bytes) (s : Surroundings) : Report :=
  let r : Report := { files := s.files }
  match Arguments.read args with
  | .ok a => runWith a s r
  | .error .help => r.print Arguments.help
  | .error e => (r.complain Arguments.usage).fail usageCode e.message

end ScriptOptimizer.Cli
