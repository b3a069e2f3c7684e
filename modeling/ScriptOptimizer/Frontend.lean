import ScriptOptimizer.FileTree
import ScriptOptimizer.Harmony.Lower
import ScriptOptimizer.Options
import ScriptOptimizer.Parse.Statement
import ScriptOptimizer.Source.Basic

/-!
Reading a source with the reader that the settings name: the built-in one, or the one for the newer
language, whose programs are then brought into the optimizer's tree.
-/

namespace ScriptOptimizer

/-- Why a source has no program: an error at a place in it, or something without which reading
cannot go on, as the range of a construct with nothing in it. -/
inductive ReadError where
  | reported (d : Diagnostic)
  | brokenOff
deriving DecidableEq, Repr

/-- Why a source is no script: the first of the faults that were listed, with its line and column, a
reason without a place, or something without which reading cannot go on. -/
inductive ScriptFailure where
  | listed (line column : Int) (message : Bytes)
  | unlisted (message : Bytes)
  | brokenOff
deriving DecidableEq, Repr

/-- A failure as the reason why a source has no program. The error has no range. -/
def ScriptFailure.readError (source : Source) : ScriptFailure → ReadError
  | listed line column message => reported line column message
  | unlisted message => reported 0 0 message
  | brokenOff => .brokenOff
where
  /-- The error at a line and column. -/
  reported (line column : Int) (message : Bytes) : ReadError :=
    .reported ⟨.syntactic, ⟨line, column, 0, 0, some source⟩, message, [], [], some message⟩

/-- What reads programs of the newer language: a source, among files that it may refer to, as a
script and the places of its offsets. -/
class ScriptReader where
  read (files : FileTree) (source : Source) :
    Except ScriptFailure (Harmony.Script × Harmony.Places)

namespace Harmony

/-- The error for a construct that is not supported. One without a range is at line zero. -/
def unsupported (source : Source) (places : Places) (what : Bytes) :
    Option Range → Except Refusal Diagnostic
  | none => .ok (diagnostic ⟨0, 0, 0, 0, some source⟩)
  | some r => do
    let span ← r.span places
    return diagnostic ⟨span.start.line, span.start.column, r.start, r.stop, some source⟩
where
  /-- The error at a location. -/
  diagnostic (location : Location) : Diagnostic :=
    Diagnostic.syntactic location (what ++ Bytes.ofString " is not supported") what

/-- A refusal as the reason why a source has no program. -/
def Refusal.readError (source : Source) (places : Places) : Refusal → ReadError
  | .untold => .brokenOff
  | .unsupported what range =>
    match Harmony.unsupported source places what range with
    | .ok d => .reported d
    | .error _ => .brokenOff

/-- A script as a program of the optimizer, or the reason why it has none. -/
def convert (source : Source) (places : Places) (script : Script) : Except ReadError Program :=
  (script.lower places).mapError fun refusal => refusal.readError source places

/-- Reads a source as a program of the newer language and brings it into the optimizer's tree. -/
def read [ScriptReader] (files : FileTree) (source : Source) : Except ReadError Program := do
  let (script, places) ←
    (ScriptReader.read files source).mapError (ScriptFailure.readError source)
  convert source places script

end Harmony

/-- Reads a source with the reader that is named, among files that it may refer to. -/
def Source.read [PatternCheck] [ScriptReader] (frontend : Bytes) (files : FileTree)
    (source : Source) : Except ReadError Program :=
  if frontend = Options.harmony then Harmony.read files source
  else match Program.parse source with
    | .ok program => .ok program
    | .error d => .error (.reported d)

end ScriptOptimizer
