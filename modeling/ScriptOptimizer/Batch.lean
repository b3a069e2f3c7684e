import ScriptOptimizer.Compile

/-!
Compiling several inputs. Each input has its own outcome, and the outcomes stand in the order of the
inputs, however the work is shared out.
-/

namespace ScriptOptimizer

/-- Why an input was not compiled. -/
inductive JobError where
  | read (e : ReadError)
  | file (path reason : Bytes)
  | cancelled
deriving DecidableEq, Repr

/-- The text of an error that has no place in a source. -/
def JobError.message : JobError → Bytes
  | .read (.reported d) => d.text
  | .read .brokenOff => []
  | .file path reason => Bytes.cat ["reading ", path, ": ", reason]
  | .cancelled => "context canceled"

/-- An input: a source, or a path at which one is to be read. -/
structure Job where
  path : Bytes
  source : Option Source

namespace Job

/-- The input of a source. -/
def ofSource (s : Source) : Job := ⟨s.displayName, some s⟩

/-- The input at a path. -/
def ofPath (path : Bytes) : Job := ⟨path, none⟩

/-- Compiles one input. -/
def run [PatternCheck] [ScriptReader] (o : Options) (files : FileTree) (job : Job) :
    Except JobError Compiled :=
  let compile (s : Source) := (o.compile files s).mapError JobError.read
  match job.source with
  | some s => compile s
  | none => match files.source job.path with
    | .error reason => .error (.file job.path reason)
    | .ok s => compile s

end Job

/-- The outcome of one input of a batch. -/
structure BatchResult where
  index : Nat
  path : Bytes
  outcome : Except JobError Compiled

/-- The outcomes of a batch in the order of its inputs. -/
structure Batch where
  results : List BatchResult
  workers : Int

namespace Batch

/-- Compiles all inputs; once cancelled, none. -/
def run [PatternCheck] [ScriptReader] (o : Options) (files : FileTree) (workers : Int)
    (cancelled : Bool) (jobs : List Job) : Batch :=
  let results := jobs.zipIdx.map fun (job, index) =>
    ⟨index, job.path, if cancelled then .error .cancelled else job.run o files⟩
  ⟨results, workers⟩

/-- Was the input compiled? -/
def succeeded (r : BatchResult) : Bool :=
  match r.outcome with
  | .ok _ => true
  | .error _ => false

/-- How many inputs were compiled. -/
def completed (b : Batch) : Nat := (b.results.filter succeeded).length

/-- How many inputs were not. -/
def failed (b : Batch) : Nat := (b.results.filter fun r => !succeeded r).length

end Batch

end ScriptOptimizer
