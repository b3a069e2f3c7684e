import ScriptOptimizer.FileTree
import ScriptOptimizer.SourceMap.Document
import ScriptOptimizer.SourceMap.Mapping
import ScriptOptimizer.Syntax.Span
import ScriptOptimizer.Text.Base64
import ScriptOptimizer.Text.Category
import ScriptOptimizer.Url.Basic

/-!
Source maps. A script can say at its end where its source map is: in the script itself, or in a file
beside it. The map has to be there and well formed. A place in the script is then told as the place
that it came from, if the map has one.
-/

namespace ScriptOptimizer

/-- A map in use: the line and column from which it counts, how many sources it has, and its
mappings. -/
structure SourceMap.Region where
  line : Int
  column : Int
  sources : Nat
  mappings : Array SourceMap.Mapping
deriving DecidableEq, Repr

/-- A source map in use, with its last region first. -/
structure SourceMap where
  regions : List SourceMap.Region := []
deriving DecidableEq, Repr

namespace SourceMap

/-- Why the source map of a script cannot be used: it cannot be had, it is malformed, or a section
of it has no map. -/
inductive Fault where
  | unavailable (reason : Bytes)
  | malformed (reason : Bytes)
  | noChart
deriving DecidableEq, Repr

/-- What the line starts with that says where the map is. -/
def marker : Bytes := "//# sourceMappingURL="

/-- Can the line stand after the one that says where the map is? -/
def isTrailing (line : Bytes) : Bool := line = [] || line = Bytes.ofString "\x7d)"

/-- Where a script says that its map is. -/
def link? (text : Bytes) : Option Bytes :=
  match (Bytes.splitOn 10 text).reverse.dropWhile isTrailing with
  | [] => none
  | line :: _ => Bytes.dropStart? marker line

/-- How an address starts that holds the map itself. -/
def dataStart : Bytes := "data:application/json"

/-- What an address holds after its comma, or all of it. -/
def payload (address : Bytes) : Bytes :=
  let head := address.takeWhile (· ≠ 44)
  if head.length = address.length then address else address.drop (head.length + 1)

/-- The address that a text leads to from a script with a name, if both are addresses. -/
def resolve? (name address : Bytes) : Option Url := do
  let url ← (Url.parse (Category.trim address)).toOption
  if url.isAbsolute then return url
  match (Url.parse (Category.trim name)).toOption.filter fun base => base.path.head? = some 47 with
  | some base => return base.resolve url
  | none => (Url.parse (Path.inside (Path.folder name) url.path)).toOption

/-- The file that holds the map of a script, if it is in one. -/
def file? (name text : Bytes) : Option Bytes := do
  let address ← link? text
  if dataStart.isPrefixOf address then none
  else
    let url ← resolve? name address
    if url.scheme = [] || url.scheme = Bytes.ofString "file" then return url.path else none

/-- The text of the map at an address, if that is one. -/
def load (files : FileTree) (name address : Bytes) : Except Bytes (Option Bytes) :=
  if dataStart.isPrefixOf address then
    match Base64.decode (payload address) with
    | .ok data => .ok (some data)
    | .error offset =>
      .error (Bytes.ofString "illegal base64 data at input byte " ++ Bytes.ofNat offset)
  else match resolve? name address with
    | none => .ok none
    | some url =>
      if url.scheme = [] || url.scheme = Bytes.ofString "file" then
        (files.read url.path).map some
      else .error (Bytes.ofString "unsupported source map URL scheme: " ++ url.scheme)

/-- Checks the version of a map, which may be left out. -/
def checkVersion (version : Int) : Except Bytes Unit :=
  if version = 3 || version = 0 then .ok ()
  else .error (Bytes.cat ["sourcemap: got version=", Bytes.ofInt version,
    ", but only 3rd version is supported"])

/-- The mappings of a map of a script with a name. -/
def Chart.survey (name : Bytes) (m : Chart) : Except Bytes (Array Mapping) := do
  checkVersion m.version
  match Url.complaint? (if m.root = [] then name else m.root) with
  | some complaint => throw complaint
  | none => pure ()
  if m.mappings = [] then .error "sourcemap: mappings are empty"
  else match survey? m.mappings with
    | none => .error "EOF"
    | some mappings => return mappings.toArray

/-- The regions of sections in order. -/
def regionsOf (name : Bytes) : List Section → Except Fault (List Region)
  | [] => .ok []
  | ⟨_, _, none⟩ :: _ => .error .noChart
  | ⟨line, column, some chart⟩ :: rest => do
    let mappings ← (chart.survey name).mapError .malformed
    return ⟨line, column, chart.sources, mappings⟩ :: (← regionsOf name rest)

/-- The source map that a script with a name is given. -/
def ofDocument (name : Bytes) (d : Document) : Except Fault SourceMap := do
  (checkVersion d.chart.version).mapError .malformed
  let regions ← regionsOf name (if d.sections.isEmpty then [⟨0, 0, some d.chart⟩] else d.sections)
  return ⟨regions.reverse⟩

/-- The source map of a script, which is empty if it has none. -/
def ofScript (files : FileTree) (name text : Bytes) : Except Fault SourceMap := do
  match link? text with
  | none => return {}
  | some address =>
    match ← (load files name address).mapError .unavailable with
    | none => return {}
    | some data => ofDocument name (← (Document.parse data).mapError .malformed)

/-- The mapping of a place, with how many sources its map has. The last region that starts before
the end of the line decides. -/
def locate? (m : SourceMap) (p : Place) : Option (Nat × Mapping) := do
  let region ← m.regions.find? (·.line < p.line)
  let line := wrap 64 (p.line - region.line)
  let column := wrap 64 (p.column - region.column)
  return (region.sources, ← mappingAt? region.mappings line column)

/-- The place that a place came from, or the place itself if it has no mapping. None if it came from
a source that is not there. -/
def trace? (m : SourceMap) (p : Place) : Option Place :=
  match m.locate? p with
  | none => some p
  | some (sources, mapping) =>
    if mapping.source < sources then some ⟨mapping.sourceLine, mapping.sourceColumn, p.offset⟩
    else none

end SourceMap

end ScriptOptimizer
