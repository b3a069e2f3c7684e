import ScriptOptimizer.Json.Reader

/-!
What a source map says: a version, where its sources lie, and its mappings, or several such maps as
sections. A part that is not of the right sort is reported and left out.
-/

namespace ScriptOptimizer.SourceMap

/-- One map: where its sources lie, how many they are, and its mappings. -/
structure Chart where
  version : Int := 0
  root : Bytes := []
  sources : Nat := 0
  mappings : Bytes := []
deriving DecidableEq, Repr

/-- A section: how far its map is moved, and the map, which may be missing. -/
structure Section where
  line : Int := 0
  column : Int := 0
  chart : Option Chart := none
deriving DecidableEq, Repr

/-- A source map: one map, or sections with maps. -/
structure Document where
  chart : Chart := {}
  sections : List Section := []
deriving DecidableEq, Repr

/-- A reader of parts of a source map, which keeps the first complaint. -/
abbrev Intake := StateM (Option Bytes)

/-- Where a part stands: what it belongs to, and the names that lead to it. -/
structure Spot where
  owner : Bytes
  path : List Bytes
deriving DecidableEq, Repr

/-- The spot of a part of what stands at a spot. -/
def Spot.part (s : Spot) (owner name : Bytes) : Spot := ⟨owner, s.path ++ [name]⟩

/-- Complains that something of one sort stands where another is due. -/
def complain (spot : Spot) (found due : Bytes) : Intake Unit :=
  let place : Bytes := if spot.path.isEmpty then "Go value"
    else Bytes.cat ["Go struct field ", spot.owner, ".", Bytes.join "." spot.path]
  let message := Bytes.cat ["json: cannot unmarshal ", found, " into ", place, " of type ", due]
  modify fun first => first <|> some message

/-- The word for the sort of a value. -/
def sort : JsonValue → Bytes
  | .null => "null"
  | .bool _ => "bool"
  | .number _ => "number"
  | .text _ => "string"
  | .array _ => "array"
  | .object _ => "object"

/-- A letter without its case. Two letters beyond ASCII fold to ones of ASCII. -/
def foldCase (rune : Nat) : Nat :=
  if 97 ≤ rune && rune ≤ 122 then rune - 32
  else if rune = 0x17F then 83
  else if rune = 0x212A then 75
  else rune

/-- Is it the name of a part, whatever the case of its letters? -/
def isNamed (key : Bytes) (name : String) : Bool :=
  let fold (text : Bytes) : List Nat := (Utf8.runes text).map fun (rune, _) => foldCase rune
  fold key = fold (Bytes.ofString name)

/-- A whole number, or the number before it where there is none. -/
def intakeInt (spot : Spot) (old : Int) (v : JsonValue) : Intake Int := do
  match v with
  | .null => return old
  | .number digits =>
    let negative := digits.head? = some 45
    let size := Bytes.valueInBase 10 (if negative then digits.drop 1 else digits)
    let value : Int := if negative then -size else size
    let whole := digits.all fun b => Bytes.isDigit b || b = 45
    if whole && -0x8000000000000000 ≤ value && value < 0x8000000000000000 then return value
    complain spot (Bytes.ofString "number " ++ digits) "int"
    return old
  | v =>
    complain spot (sort v) "int"
    return old

/-- A text, or the text before it where there is none. -/
def intakeText (spot : Spot) (old : Bytes) (v : JsonValue) : Intake Bytes := do
  match v with
  | .null => return old
  | .text t => return t
  | v =>
    complain spot (sort v) "string"
    return old

/-- How many texts there are in a list of them, or how many there were before it. -/
def intakeTexts (spot : Spot) (old : Nat) (v : JsonValue) : Intake Nat := do
  match v with
  | .null => return 0
  | .array items =>
    items.forM fun item => do let _ ← intakeText spot [] item
    return items.length
  | v =>
    complain spot (sort v) "[]string"
    return old

/-- Checks a list of values of any sort. -/
def checkList (spot : Spot) (v : JsonValue) : Intake Unit := do
  match v with
  | .null | .array _ => return
  | v => complain spot (sort v) "[]json.RawMessage"

/-- One field of a map. -/
def intakeChartField (spot : Spot) (owner : Bytes) (m : Chart) (field : Bytes × JsonValue) :
    Intake Chart := do
  let (key, v) := field
  let spotOf (name : String) : Spot := spot.part owner (Bytes.ofString name)
  if isNamed key "version" then
    return { m with version := ← intakeInt (spotOf "version") m.version v }
  else if isNamed key "sourceRoot" then
    return { m with root := ← intakeText (spotOf "sourceRoot") m.root v }
  else if isNamed key "sources" then
    return { m with sources := ← intakeTexts (spotOf "sources") m.sources v }
  else if isNamed key "mappings" then
    return { m with mappings := ← intakeText (spotOf "mappings") m.mappings v }
  else
    if isNamed key "file" then
      let _ ← intakeText (spotOf "file") [] v
    else if isNamed key "sourcesContent" then
      let _ ← intakeTexts (spotOf "sourcesContent") 0 v
    else if isNamed key "names" then checkList (spotOf "names") v
    return m

/-- How far the map of a section is moved. -/
def intakeOffset (spot : Spot) (part : Section) (v : JsonValue) : Intake Section := do
  let spotOf (name : String) : Spot := spot.part [] (Bytes.ofString name)
  match v with
  | .null => return part
  | .object fields =>
    fields.foldlM (fun part (key, v) => do
      if isNamed key "line" then
        return { part with line := ← intakeInt (spotOf "line") part.line v }
      else if isNamed key "column" then
        return { part with column := ← intakeInt (spotOf "column") part.column v }
      else return part) part
  | v =>
    complain spot (sort v)
      "struct \x7b Line int \"json:\\\"line\\\"\"; Column int \"json:\\\"column\\\"\" \x7d"
    return part

/-- The map of a section. -/
def intakeChart (spot : Spot) (old : Option Chart) (v : JsonValue) : Intake (Option Chart) := do
  match v with
  | .null => return none
  | .object fields =>
    return some (← fields.foldlM (intakeChartField spot "sourceMap") (old.getD {}))
  | v =>
    complain spot (sort v) "sourcemap.sourceMap"
    return some (old.getD {})

/-- A section, on top of what it was before. -/
def intakeSection (spot : Spot) (old : Section) (v : JsonValue) : Intake Section := do
  match v with
  | .null => return old
  | .object fields =>
    fields.foldlM (fun part (key, v) => do
      if isNamed key "map" then
        return { part with chart := ← intakeChart (spot.part "section" "map") part.chart v }
      else if isNamed key "offset" then intakeOffset (spot.part "section" "offset") part v
      else return part) old
  | v =>
    complain spot (sort v) "sourcemap.section"
    return old

/-- The sections, each on top of the one that stood in its place before. -/
def intakeSections (spot : Spot) : List Section → List JsonValue → Intake (List Section)
  | _, [] => return []
  | old, v :: rest => do
    let first ← intakeSection spot (old.headD {}) v
    return first :: (← intakeSections spot (old.drop 1) rest)

/-- One field of a source map. -/
def intakeField (d : Document) (field : Bytes × JsonValue) : Intake Document := do
  if isNamed field.1 "sections" then
    let spot : Spot := ⟨"v3", ["sections"]⟩
    match field.2 with
    | .null => return { d with sections := [] }
    | .array items => return { d with sections := ← intakeSections spot d.sections items }
    | v =>
      complain spot (sort v) "[]sourcemap.section"
      return d
  else
    return { d with chart := ← intakeChartField ⟨"v3", ["sourceMap"]⟩ "v3" d.chart field }

/-- What a value says as a source map. -/
def intake (v : JsonValue) : Intake Document := do
  match v with
  | .null => return {}
  | .object fields => fields.foldlM intakeField {}
  | v =>
    complain ⟨[], []⟩ (sort v) "sourcemap.v3"
    return {}

/-- Reads a source map, or tells what is wrong with its text. -/
def Document.parse (text : Bytes) : Except Bytes Document := do
  let v ← JsonValue.parse text
  match (intake v).run none with
  | (document, none) => return document
  | (_, some complaint) => throw complaint

end ScriptOptimizer.SourceMap
