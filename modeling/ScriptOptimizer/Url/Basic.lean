import ScriptOptimizer.Url.Host

/-!
Addresses: a scheme, whose the address is, and a path. What follows a question mark or a number sign
only has to be well formed.
-/

namespace ScriptOptimizer

/-- An address. `owned` says that it names a host or a user; `raw` is its path with the escapes as
they stand, and `path` the path that they stand for. -/
structure Url where
  scheme : Bytes
  owned : Bool
  raw : Bytes
  path : Bytes
deriving DecidableEq, Repr

namespace Url

/-- Does it start with a scheme? -/
def isAbsolute (u : Url) : Bool := u.scheme ≠ []

/-- Is it a control? -/
def isControl (b : UInt8) : Bool := b < 32 || b = 127

/-- May the byte stand in a scheme? The first one has to be a letter. -/
def isSchemeByte (b : UInt8) : Bool := isAlphanumeric b || isOneOf "+-." b

/-- The small letter of a capital one. -/
def lower (b : UInt8) : UInt8 := if 65 ≤ b && b ≤ 90 then b + 32 else b

/-- The scheme of an address, which may be empty, and what follows its colon. -/
def cutScheme (text : Bytes) : Except Fault (Bytes × Bytes) :=
  let scheme := text.takeWhile isSchemeByte
  let startsWithLetter := scheme.head?.any fun b => isAlphanumeric b && !Bytes.isDigit b
  match text.drop scheme.length with
  | 58 :: rest =>
    if scheme = [] then .error .noScheme
    else if startsWithLetter then .ok (scheme.map lower, rest)
    else .ok ([], text)
  | _ => .ok ([], text)

/-- The address with a path. -/
def withPath (scheme : Bytes) (owned : Bool) (raw : Bytes) : Except Fault Url := do
  return ⟨scheme, owned, raw, ← unescape raw⟩

/-- An address without a scheme, or one whose path starts with a slash, after the scheme. -/
def hierarchical (scheme rest : Bytes) : Except Fault Url := do
  let slashes := Bytes.ofString "//"
  let owned := slashes.isPrefixOf rest &&
    (scheme ≠ [] || !(Bytes.ofString "///").isPrefixOf rest)
  if owned then
    let authority := (rest.drop 2).takeWhile (· ≠ 47)
    checkAuthority authority
    withPath scheme (authority ≠ []) (rest.drop (2 + authority.length))
  else withPath scheme false rest

/-- An address without a number sign. A path without a slash at its start is not taken apart when
there is a scheme; without one, it may have no colon in its first part. -/
def ofPlain (text : Bytes) : Except Fault Url := do
  if text.any isControl then throw .control
  let (scheme, rest) ← cutScheme text
  let rest := rest.takeWhile (· ≠ 63)
  if rest.head? = some 47 then hierarchical scheme rest
  else if scheme ≠ [] then return ⟨scheme, false, [], []⟩
  else if (rest.takeWhile (· ≠ 47)).contains 58 then throw .colon
  else hierarchical scheme rest

/-- Reads an address. -/
def parse (text : Bytes) : Except Fault Url := do
  let plain := text.takeWhile (· ≠ 35)
  let url ← ofPlain plain
  let _ ← unescape (text.drop (plain.length + 1))
  return url

/-- The text of the fault that reading an address finds, if there is one. -/
def complaint? (text : Bytes) : Option Bytes :=
  let plain := text.takeWhile (· ≠ 35)
  match ofPlain plain, parse text with
  | .error fault, _ => some (Bytes.cat ["parse ", Quoted.text plain, ": ", fault.message])
  | .ok _, .error fault => some (Bytes.cat ["parse ", Quoted.text text, ": ", fault.message])
  | .ok _, .ok _ => none

/-- The path with its escapes, or with plain ones if those are not allowed. -/
def escapedPath (u : Url) : Bytes := if isEscapedPath u.raw then u.raw else escapePath u.path

/-- One more part of a path that starts with a slash. -/
def addPart (done : List Bytes) (part : Bytes) : List Bytes :=
  if part = Bytes.ofString "." then done
  else if part = Bytes.ofString ".." then done.dropLast
  else done ++ [part]

/-- A path without parts that lead nowhere. It ends with a slash if its last part was such a one. -/
def withoutDots (path : Bytes) : Bytes :=
  let parts := Bytes.splitOn 47 path
  let done := parts.foldl addPart []
  let last := (parts.getLast?).getD []
  let closing := if last = Bytes.ofString "." || last = Bytes.ofString ".." then [47] else []
  let text := 47 :: Bytes.join "/" done ++ closing
  if (Bytes.ofString "//").isPrefixOf text then text.drop 1 else text

/-- The path that a path leads to from another one. -/
def resolvePath (base path : Bytes) : Bytes :=
  let whole :=
    if path = [] then base
    else if path.head? = some 47 then path
    else (base.reverse.dropWhile (· ≠ 47)).reverse ++ path
  if whole = [] then [] else withoutDots whole

/-- The address that an address without a scheme leads to from another one. -/
def resolve (base u : Url) : Url :=
  let raw := if u.owned then resolvePath u.escapedPath []
    else resolvePath base.escapedPath u.escapedPath
  ⟨base.scheme, u.owned || base.owned, raw, (unescape raw).toOption.getD []⟩

end Url

end ScriptOptimizer
