import ScriptOptimizer.Source.Basic

/-!
Paths as texts with slashes, and a tree of files with what reading, creating and making folders in
it gives. A path starts at the root if its first byte is a slash, and in the working folder
otherwise.
-/

namespace ScriptOptimizer.Path

/-- One more part of a path: empty parts and `.` are dropped, and `..` takes the part before it
back. Where there is none, `..` is kept unless the path starts at the root. -/
def addPart (rooted : Bool) (done : List Bytes) (part : Bytes) : List Bytes :=
  if part = [] || part = Bytes.ofString "." then done
  else if part = Bytes.ofString ".." then
    match done.getLast? with
    | none => if rooted then done else [part]
    | some last => if last = part then done ++ [part] else done.dropLast
  else done ++ [part]

/-- The shortest path that leads to the same place. -/
def clean (path : Bytes) : Bytes :=
  let rooted := path.head? = some 47
  let text := Bytes.join "/" ((Bytes.splitOn 47 path).foldl (addPart rooted) [])
  if rooted then 47 :: text else if text = [] then "." else text

/-- A path inside a folder. -/
def inside (folder name : Bytes) : Bytes := clean (folder ++ 47 :: name)

/-- The folder that a path leads into. -/
def folder (path : Bytes) : Bytes :=
  clean (path.reverse.dropWhile (· ≠ 47)).reverse

end ScriptOptimizer.Path

namespace ScriptOptimizer

/-- The parts of a path between slashes. The root is a part of its own. -/
abbrev PathParts := List Bytes

namespace PathParts

/-- The part that is the root. -/
def root : Bytes := "/"

/-- The folder in which a path starts. -/
def origin (path : Bytes) : PathParts := if path.head? = some 47 then [root] else []

/-- The parts of a path as they stand, without those that lead nowhere. -/
def ofText (path : Bytes) : PathParts :=
  origin path ++ (Bytes.splitOn 47 path).filter fun p => p ≠ [] && p ≠ Bytes.ofString "."

/-- The text of a path. -/
def text : PathParts → Bytes
  | [] => []
  | first :: rest =>
    if first = root then 47 :: Bytes.join "/" rest else Bytes.join "/" (first :: rest)

/-- The folder around a folder. The root is in itself, and beyond the working folder no names are
known. -/
def parent (parts : PathParts) : PathParts :=
  if parts = [root] then parts
  else if parts.all (· = Bytes.ofString "..") then parts ++ [Bytes.ofString ".."]
  else parts.dropLast

end PathParts

/-- A tree of files: the contents by path, and the folders beside those that the files lie in. -/
structure FileTree where
  files : List (PathParts × Bytes)
  folders : List PathParts := []
deriving DecidableEq, Repr

/-- Why a file cannot be had. -/
inductive FileFault where
  | missing
  | notFolder
  | isFolder
  | badName
  | longName
deriving DecidableEq, Repr

/-- The text of a fault. -/
def FileFault.message : FileFault → Bytes
  | .missing => "no such file or directory"
  | .notFolder => "not a directory"
  | .isFolder => "is a directory"
  | .badName => "invalid argument"
  | .longName => "file name too long"

namespace FileTree

/-- The content at a path. -/
def content? (t : FileTree) (parts : PathParts) : Option Bytes :=
  (t.files.find? fun f => f.1 = parts).map (·.2)

/-- Is there a folder? The root, the working folder and those around it always are. -/
def isFolder (t : FileTree) (parts : PathParts) : Bool :=
  parts = [PathParts.root] || parts.all (· = Bytes.ofString "..") ||
    t.folders.any (fun f => parts.isPrefixOf f) ||
    t.files.any (fun f => parts.isPrefixOf f.1 && f.1 ≠ parts)

/-- How long the name of a file may be. -/
def nameLimit : Nat := 255

/-- How long a path may not be. -/
def pathLimit : Nat := 4096

/-- Follows parts from a folder: the path they lead to, whose last part may be new. -/
def follow (t : FileTree) (folder : PathParts) : List Bytes → Except FileFault PathParts
  | [] => .ok folder
  | part :: rest =>
    if !t.isFolder folder then
      .error (if (t.content? folder).isSome then .notFolder else .missing)
    else if part = [] || part = Bytes.ofString "." then t.follow folder rest
    else if part = Bytes.ofString ".." then t.follow (PathParts.parent folder) rest
    else if part.length > nameLimit then .error .longName
    else t.follow (folder ++ [part]) rest

/-- The path that a text leads to. -/
def locate (t : FileTree) (path : Bytes) : Except FileFault PathParts :=
  if path.contains 0 then .error .badName
  else if path = [] then .error .missing
  else if path.length ≥ pathLimit then .error .longName
  else t.follow (PathParts.origin path) (Bytes.splitOn 47 path)

/-- A failed action on a path. -/
def failure (action : Bytes) (path : Bytes) (fault : FileFault) : Bytes :=
  Bytes.cat [action, " ", path, ": ", fault.message]

/-- The content of the file at a path. -/
def read (t : FileTree) (path : Bytes) : Except Bytes Bytes :=
  match t.locate path with
  | .error fault => .error (failure "open" path fault)
  | .ok parts =>
    if t.isFolder parts then .error (failure "read" path .isFolder)
    else match t.content? parts with
      | some content => .ok content
      | none => .error (failure "open" path .missing)

/-- The tree with a file created or overwritten. -/
def write (t : FileTree) (path content : Bytes) : Except Bytes FileTree :=
  match t.locate path with
  | .error fault => .error (failure "open" path fault)
  | .ok parts =>
    if t.isFolder parts then .error (failure "open" path .isFolder)
    else .ok { t with files := (parts, content) :: t.files.filter (fun f => f.1 ≠ parts) }

/-- The tree with a folder and those around it. -/
def makeFolder (t : FileTree) (path : Bytes) : Except Bytes FileTree :=
  let parts := PathParts.ofText path
  let around := (List.range parts.length).map fun n => parts.take (n + 1)
  match around.find? fun f => (t.content? f).isSome with
  | some file => .error (failure "mkdir" (PathParts.text file) .notFolder)
  | none => .ok { t with folders := parts :: t.folders }

/-- The files that are new or have other contents than before. -/
def changedFrom (t before : FileTree) : List (Bytes × Bytes) :=
  (t.files.filter fun f => before.content? f.1 ≠ some f.2).map fun (parts, content) =>
    (PathParts.text parts, content)

/-- A tree of the files at given paths. -/
def ofFiles (files : List (Bytes × Bytes)) : FileTree :=
  { files := files.map fun (path, content) => (PathParts.ofText path, content) }

/-- The source in the file at a path. -/
def source (t : FileTree) (path : Bytes) : Except Bytes Source :=
  (t.read path).map fun raw => Source.file path (Source.decode raw)

end FileTree

end ScriptOptimizer
