import ScriptOptimizer.Text.Quoted

/-!
Bytes of an address that are written by their number after a percent sign.
-/

namespace ScriptOptimizer.Url

/-- Why a text is no address. -/
inductive Fault where
  | control
  | noScheme
  | colon
  | escape (text : Bytes)
  | hostByte (b : UInt8)
  | port (text : Bytes)
  | bracket
  | literal
  | user
deriving DecidableEq, Repr

/-- The text of a fault. -/
def Fault.message : Fault → Bytes
  | control => "net/url: invalid control character in URL"
  | noScheme => "missing protocol scheme"
  | colon => "first path segment in URL cannot contain colon"
  | escape text => Bytes.ofString "invalid URL escape " ++ Quoted.text text
  | hostByte b => Bytes.cat ["invalid character ", Quoted.text [b], " in host name"]
  | port text => Bytes.cat ["invalid port ", Quoted.text text, " after host"]
  | bracket => "missing ']' in host"
  | literal => "invalid IP-literal"
  | user => "net/url: invalid userinfo"

/-- Is it a letter or a digit? -/
def isAlphanumeric (b : UInt8) : Bool :=
  Bytes.isDigit b || (65 ≤ b && b ≤ 90) || (97 ≤ b && b ≤ 122)

/-- Is it one of the characters of a string? -/
def isOneOf (marks : String) (b : UInt8) : Bool := (Bytes.ofString marks).contains b

/-- Can the byte stand in a host as it is? -/
def isHostByte (b : UInt8) : Bool :=
  b ≥ 0x80 || isAlphanumeric b || isOneOf "!$&'()*+,;=:[]<>\"-_.~" b

/-- Can the byte stand in a path as it is? -/
def isPathByte (b : UInt8) : Bool := isAlphanumeric b || isOneOf "-_.~$&+,/:;=@" b

/-- Is the path written the way that escapes allow? -/
def isEscapedPath (path : Bytes) : Bool :=
  path.all fun b => isPathByte b || isOneOf "!'()*[]%" b

/-- The byte of an escape after its percent sign. In a host only bytes beyond ASCII and the percent
sign itself may be escaped. -/
def escapedByte (inHost : Bool) : Bytes → Except Fault UInt8
  | high :: low :: _ =>
    match Bytes.hexValue? high, Bytes.hexValue? low with
    | some h, some l =>
      if inHost && h < 8 && !(high = 50 && low = 53) then .error (.escape [37, high, low])
      else .ok (h * 16 + l).toUInt8
    | _, _ => .error (.escape [37, high, low])
  | rest => .error (.escape (37 :: rest))

/-- The text that a text with escapes stands for, `skip` bytes of which belong to an escape that was
already read. -/
def unescapeFrom (inHost : Bool) (skip : Nat) : Bytes → Except Fault Bytes
  | [] => .ok []
  | b :: rest =>
    match skip with
    | k + 1 => unescapeFrom inHost k rest
    | 0 => do
      if b = 37 then
        let first ← escapedByte inHost rest
        return first :: (← unescapeFrom inHost 2 rest)
      else if inHost && !isHostByte b then .error (.hostByte b)
      else return b :: (← unescapeFrom inHost 0 rest)

/-- The text that a text with escapes stands for. -/
def unescape (text : Bytes) : Except Fault Bytes := unescapeFrom false 0 text

/-- A path with escapes for the bytes that need them. -/
def escapePath (path : Bytes) : Bytes :=
  path.flatMap fun b => if isPathByte b then [b] else 37 :: Bytes.hexDigits 2 b.toNat

end ScriptOptimizer.Url

/-!
The part of an address that says whose it is: a user, a host and a port. Only whether it is well
formed matters.
-/

namespace ScriptOptimizer.Url

/-- What stands before and after the last occurrence of a byte. -/
def cutLast? (sep : UInt8) (text : Bytes) : Option (Bytes × Bytes) :=
  let after := (text.reverse.takeWhile (· ≠ sep)).reverse
  if after.length = text.length then none
  else some (text.take (text.length - after.length - 1), after)

/-- Is it empty, or a colon before digits? -/
def isPort : Bytes → Bool
  | [] => true
  | b :: rest => b = 58 && rest.all Bytes.isDigit

/-- Is it four numbers below 256 between dots, none with a zero in front? -/
def isDotted (text : Bytes) : Bool :=
  let parts := Bytes.splitOn 46 text
  parts.length = 4 && parts.all fun part =>
    part ≠ [] && part.all Bytes.isDigit && Bytes.valueInBase 10 part < 256 &&
      (part.length = 1 || part.head? ≠ some 48)

/-- How many groups of two bytes a list of groups writes, the last of which may be dotted; none if
one of them is no group. -/
def groupCount? : List Bytes → Option Nat
  | [] => some 0
  | [last] =>
    if isDotted last then some 2
    else if last ≠ [] && last.length ≤ 4 && last.all Bytes.isHexDigit then some 1
    else none
  | group :: rest =>
    if group ≠ [] && group.length ≤ 4 && group.all Bytes.isHexDigit then
      (groupCount? rest).map (· + 1)
    else none

/-- The groups of a text between colons; an empty text has none. -/
def groups (text : Bytes) : List Bytes := if text = [] then [] else Bytes.splitOn 58 text

/-- What stands before and after the first double colon. -/
def cutDoubleColon? : Bytes → Option (Bytes × Bytes)
  | 58 :: 58 :: rest => some ([], rest)
  | b :: rest => (cutDoubleColon? rest).map fun (before, after) => (b :: before, after)
  | [] => none

/-- Is it an address of eight groups, of which a double colon may leave out some? -/
def isLongAddress (text : Bytes) : Bool :=
  match cutDoubleColon? text with
  | none => groupCount? (groups text) = some 8
  | some (before, after) =>
    match groupCount? (groups before), groupCount? (groups after) with
    | some m, some n => m + n < 8 && !(groups before).any (·.contains 46)
    | _, _ => false

/-- Checks what stands between brackets: a long address, with a zone after a percent sign. -/
def checkLiteral (text : Bytes) : Except Fault Unit := do
  let plain ← unescapeFrom true 0 text
  let address := plain.takeWhile (· ≠ 37)
  let zoned := address.length < plain.length
  if isLongAddress address && !(zoned && address.length + 1 = plain.length) then return
  else throw .literal

/-- Checks a host with its port. -/
def checkHost (host : Bytes) : Except Fault Unit := do
  match cutLast? 91 host, cutLast? 93 host with
  | some _, none => throw .bracket
  | some (before, _), some (inside, port) =>
    if !isPort port then throw (.port port)
    checkLiteral (inside.drop (before.length + 1))
  | none, _ =>
    match cutLast? 58 host with
    | some (_, port) => if !isPort (58 :: port) then throw (.port (58 :: port))
    | none => pure ()
    let _ ← unescapeFrom true 0 host

/-- Checks the name and the password of a user. -/
def checkUser (user : Bytes) : Except Fault Unit := do
  if !user.all (fun b => isAlphanumeric b || isOneOf "-._:~!$&'()*+,;=%@" b) then throw .user
  let name := user.takeWhile (· ≠ 58)
  let _ ← unescape name
  let _ ← unescape (user.drop (name.length + 1))

/-- Checks whose address it is. -/
def checkAuthority (text : Bytes) : Except Fault Unit :=
  match cutLast? 64 text with
  | none => checkHost text
  | some (user, host) => do
    checkHost host
    checkUser user

end ScriptOptimizer.Url
