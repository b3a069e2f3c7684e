import ScriptOptimizer.Text.Base64

/-!
The mappings of a source map: segments between commas, each with up to five numbers, on lines
between semicolons. A number counts from the number of the same sort before it, and is written in
digits of five bits, lowest first, each of which says whether another one follows.
-/

namespace ScriptOptimizer.SourceMap

/-- Where a piece of a text starts, and where what it was made from stands in which source. Lines
count from one, columns and sources from zero. -/
structure Mapping where
  line : Int
  column : Int
  source : Int
  sourceLine : Int
  sourceColumn : Int
deriving DecidableEq, Repr

/-- A number in so many bits, one of which is for its sign. -/
def wrap (bits : Nat) (n : Int) : Int := n.bmod (1 <<< bits)

/-- The number that digits stand for, the highest first. Its lowest bit is for the sign. -/
def number (digits : List Nat) : Int :=
  let n := wrap 32 (digits.foldl (fun n d => n * 32 + d) 0 : Nat)
  if n % 2 = 1 then wrap 32 (-(n / 2)) else n / 2

/-- What a number in a segment is for. -/
inductive Field where
  | column
  | source
  | sourceLine
  | sourceColumn
  | name
deriving DecidableEq, Repr

/-- What the next number is for. After the last one of a segment they start again. -/
def Field.next : Field → Field
  | column => source
  | source => sourceLine
  | sourceLine => sourceColumn
  | sourceColumn => name
  | name => column

/-- The mapping that is a number away in a field. Names are not kept. -/
def Mapping.move (m : Mapping) (n : Int) : Field → Mapping
  | .column => { m with column := wrap 32 (m.column + n) }
  | .source => { m with source := wrap 32 (m.source + n) }
  | .sourceLine => { m with sourceLine := wrap 32 (m.sourceLine + n) }
  | .sourceColumn => { m with sourceColumn := wrap 32 (m.sourceColumn + n) }
  | .name => m

/-- How far the mappings were read: the numbers as they stand, what the next one is for, and the
mappings found, the latest first. -/
structure Survey where
  current : Mapping := ⟨1, 0, 0, 1, 0⟩
  field : Field := .column
  found : List Mapping := []
deriving DecidableEq, Repr

namespace Survey

/-- Takes the next number. -/
def take (s : Survey) (n : Int) : Survey :=
  { s with current := s.current.move n s.field, field := s.field.next }

/-- Ends a segment. One without numbers repeats what stands, and none leads to the first place of a
source. -/
def endSegment (s : Survey) : Survey :=
  let found := if s.current.sourceLine = 1 && s.current.sourceColumn = 0 then s.found
    else s.current :: s.found
  { s with field := .column, found }

/-- Ends a segment and its line. -/
def endLine (s : Survey) : Survey :=
  let s := s.endSegment
  { s with current := { s.current with line := wrap 32 (s.current.line + 1), column := 0 } }

end Survey

/-- The mappings in what is left of a text, inside a number some digits of which were read, the
latest first. None if a number breaks off. -/
def surveyFrom (s : Survey) (digits : List Nat) : Bytes → Option (List Mapping)
  | [] => if digits.isEmpty then some s.endSegment.found.reverse else none
  | b :: rest =>
    if digits.isEmpty && b = 44 then surveyFrom s.endSegment [] rest
    else if digits.isEmpty && b = 59 then surveyFrom s.endLine [] rest
    else
      let digit := (Base64.digit? b).getD 0
      let digits := digit % 32 :: digits
      if 32 ≤ digit then surveyFrom s digits rest else surveyFrom (s.take (number digits)) [] rest

/-- The mappings in a text, or none if it breaks off inside a number. -/
def survey? (text : Bytes) : Option (List Mapping) := surveyFrom {} [] text

/-- The first index from `low` up to `high` that passes a test which all after it pass, found in so
many halvings. -/
def firstPassing (test : Nat → Bool) : (rounds low high : Nat) → Nat
  | 0, low, _ => low
  | rounds + 1, low, high =>
    if low < high then
      let middle := (low + high) / 2
      if test middle then firstPassing test rounds low middle
      else firstPassing test rounds (middle + 1) high
    else low

/-- Does the mapping start at a place or after it? -/
def Mapping.startsFrom (line column : Int) (m : Mapping) : Bool :=
  if m.line = line then column ≤ m.column else line ≤ m.line

/-- The mapping of a place: the one that starts there, or else the one before the next that starts
after it. A place after all of them has none. -/
def mappingAt? (mappings : Array Mapping) (line column : Int) : Option Mapping := do
  let test (i : Nat) : Bool := mappings[i]?.any (·.startsFrom line column)
  let index := firstPassing test mappings.size 0 mappings.size
  let next ← mappings[index]?
  if next.line ≤ line && next.column ≤ column then return next
  else if index = 0 then none
  else mappings[index - 1]?

end ScriptOptimizer.SourceMap
