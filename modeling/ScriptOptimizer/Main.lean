import ScriptOptimizer.Cli.Run
import ScriptOptimizer.Harmony.Statement
import ScriptOptimizer.Pattern.Check

/-!
The command line: it looks at the files that a call names, makes the call and does what the report
of the call says.
-/

namespace ScriptOptimizer.Cli

/-- The text of some bytes as a path. -/
def pathText (path : Bytes) : String :=
  (String.fromUTF8? ⟨path.toArray⟩).getD ""

/-- The variables of the environment that settings come from. -/
def readEnvironment : IO Environment := do
  let names := ["JSOPT_FRONTEND", "JSOPT_PASSES", "JSOPT_LITERAL_PREFIX", "JSOPT_SIZE_OVERHEAD"]
  let values ← names.mapM fun name => do
    return (← IO.getEnv name).map fun value => (Bytes.ofString name, Bytes.ofString value)
  return values.filterMap id

/-- Is there a folder at a path? -/
def folderExists (path : Bytes) : IO Bool :=
  try
    let resolved ← IO.FS.realPath (pathText path)
    resolved.isDir
  catch _ => return false

/-- The content of the file at a path, if it can be read. -/
def fileContent? (path : Bytes) : IO (Option Bytes) :=
  try return some (← IO.FS.readBinFile (pathText path)).data.toList
  catch _ => return none

/-- The paths that begin a path, from the shortest to the whole of it. -/
def beginnings (path : Bytes) : List Bytes :=
  (List.range (path.length + 1)).map path.take |>.filter fun start =>
    start ≠ [] && (start.length = path.length || (path.drop start.length).head? = some 47)

/-- What stands at some paths and at the paths that begin them. -/
def readTree (paths : List Bytes) : IO FileTree := do
  let looked ← (paths.flatMap beginnings).mapM fun path => do
    if ← folderExists path then return (none, some path)
    else return ((← fileContent? path).map fun content => (path, content), none)
  let files := (looked.filterMap (·.1)).map fun (path, content) => (Path.clean path, content)
  let folders := (looked.filterMap (·.2)).map fun path => PathParts.ofText (Path.clean path)
  return { FileTree.ofFiles files with folders }

/-- The files that hold the source maps of the inputs, as far as the inputs are there. -/
def mapFiles (files : FileTree) (input : Option Bytes) (inputs : List Bytes) : List Bytes :=
  let sources := inputs.filterMap (fun path => (files.source path).toOption) ++
    input.toList.map fun raw => Source.standardInput (Source.decode raw)
  sources.filterMap fun s => SourceMap.file? s.displayName s.content

/-- How many processors there are, as far as the system tells. -/
def countProcessors : IO Nat :=
  try
    let lines ← IO.FS.lines "/proc/cpuinfo"
    return max 1 (lines.toList.filter fun line => line.startsWith "processor").length
  catch _ => return 1

/-- Writes the files that a call made or changed. -/
def writeFiles (before after : FileTree) : IO Unit := do
  for folder in after.folders do
    if !before.isFolder folder then IO.FS.createDirAll (pathText (PathParts.text folder))
  for (path, content) in after.changedFrom before do
    IO.FS.writeBinFile (pathText path) ⟨content.toArray⟩

/-- A program with all its fields, as the document with its places. -/
def dump (p : Program) : Bytes := (p.document true).indented "  " 0

/-- Makes a call with what stands around it, once to learn how long it takes and once to tell. -/
def call (args : List Bytes) (a : Arguments) : IO Report := do
  let named ← readTree (a.output :: a.inputs)
  let input ← if a.inputs = [] then fileContent? "/dev/stdin" else pure none
  let files ← readTree (a.output :: a.inputs ++ mapFiles named input a.inputs)
  let around : Surroundings :=
    { environment := ← readEnvironment, input := input.getD [], files
      processors := ← countProcessors, tag := Amount.base36 (← IO.rand 0 0xFFFFFFFF)
      elapsed := [], dump }
  let started ← IO.monoNanosNow
  let rehearsal := run args around
  let stopped ← if rehearsal.out.length + rehearsal.err.length = 0 then pure started
    else IO.monoNanosNow
  let report := run args { around with elapsed := Amount.duration (stopped - started) }
  writeFiles files report.files
  return report

/-- Writes bytes to a stream. -/
def writeTo (stream : IO.FS.Stream) (text : Bytes) : IO Unit :=
  stream.write ⟨text.toArray⟩

end ScriptOptimizer.Cli

open ScriptOptimizer in
/-- Reads the arguments, makes the call and ends with its code. -/
def main (words : List String) : IO UInt32 := do
  let args := words.map Bytes.ofString
  let report ← match Arguments.read args with
    | .ok a => Cli.call args a
    | .error _ =>
      pure (Cli.run args
        { environment := [], input := [], files := { files := [] }, processors := 1, tag := []
          elapsed := [], dump := Cli.dump })
  Cli.writeTo (← IO.getStdout) report.out
  Cli.writeTo (← IO.getStderr) report.err
  return if report.brokenOff then 2 else report.code.toUInt32
