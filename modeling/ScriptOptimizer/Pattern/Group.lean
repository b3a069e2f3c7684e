import ScriptOptimizer.Pattern.Captures

/-!
The openings of groups: plain ones, captures with a number or a name, assertions, options, and
conditional groups, which choose between two alternatives by whether a group has captured or whether
a condition matches.
-/

namespace ScriptOptimizer.Pattern

/-- The kind of a group. A conditional one has a number of parts so far, which for one with a
condition of its own includes that. -/
inductive GroupKind where
  | plain
  | ifCaptured (parts : Nat)
  | ifMatched (parts : Nat)
deriving DecidableEq, Repr

namespace GroupKind

/-- The kind with one part more. -/
def addPart : GroupKind → GroupKind
  | plain => plain
  | ifCaptured parts => ifCaptured (parts + 1)
  | ifMatched parts => ifMatched (parts + 1)

/-- Has the group more parts than its kind may have? -/
def isOverfull : GroupKind → Bool
  | plain => false
  | ifCaptured parts => parts > 2
  | ifMatched parts => parts > 3

/-- Is the group one whose condition matches, in which groups may not set options? -/
def hasCondition : GroupKind → Bool
  | ifMatched _ => true
  | _ => false

end GroupKind

/-- What the opening of a group does: open one, or change the options up to the end of the enclosing
group. -/
inductive Opening where
  | group (kind : GroupKind) (options : Options) (rest : Runes)
  | settings (options : Options) (rest : Runes)

/-- The fault of an opening of which `rest` was not read. -/
def unrecognized (whole rest : Runes) : Except Fault Opening :=
  .error (.unrecognizedGrouping (whole.take (whole.length - rest.length)))

/-- Does something other than a dash or the closing mark come next? -/
def isBogus (close : Nat) : Runes → Bool
  | c :: _ => c ≠ close && c ≠ 45
  | [] => false

/-- The rest after the number or the name of a group whose capture is taken back, read after the
dash before it. -/
def afterTakenBack (known : Captures) (close : Nat) (runes : Runes) : Except Fault Runes := do
  match runes with
  | [] => throw .invalidGroupName
  | d :: _ =>
    let rest ←
      if isDigitRune d then do
        let (number, rest) ← decimal 0 runes
        if !known.numbers.contains number then throw (.undefinedNumber number)
        pure rest
      else if isWordRune d then do
        let name := runes.takeWhile isWordRune
        if !known.names.contains name then throw (.undefinedName name)
        pure (runes.drop name.length)
      else throw .invalidGroupName
    if rest ≠ [] && rest.head? ≠ some close then throw .invalidGroupName
    return rest

/-- The opening of a named or numbered group, read after `(?<` or `(?'`, which `close` ends. -/
def namedOpening (known : Captures) (options : Options) (whole : Runes) (close : Nat)
    (runes : Runes) : Except Fault Opening := do
  match runes with
  | [] => unrecognized whole runes
  | c :: _ =>
    let (found, rest) ←
      if isDigitRune c then do
        let (number, rest) ← decimal 0 runes
        if isBogus close rest then throw .invalidGroupName
        if number = 0 then throw .zeroGroupNumber
        pure (known.numbers.contains number, rest)
      else if isWordRune c then do
        let name := runes.takeWhile isWordRune
        let rest := runes.drop name.length
        if isBogus close rest then throw .invalidGroupName
        pure (known.names.contains name, rest)
      else if c = 45 then pure (true, runes)
      else throw .invalidGroupName
    let rest ← match found, rest with
      | true, 45 :: more => afterTakenBack known close more
      | _, _ => pure rest
    match found, rest with
    | true, c :: after =>
      if c = close then pure (.group .plain options after) else unrecognized whole after
    | _, _ => unrecognized whole rest

/-- The opening of a group with a condition that has to match, read after the parenthesis of the
condition, which does not capture. -/
def conditionOpening (options : Options) (runes : Runes) : Except Fault Opening :=
  let opened : Except Fault Opening := .ok (.group (.ifMatched 0) options (40 :: runes))
  match runes with
  | 63 :: 35 :: _ => .error .conditionComment
  | 63 :: 39 :: _ => .error .conditionCapture
  | 63 :: 60 :: c :: _ => if c = 33 || c = 61 then opened else .error .conditionCapture
  | _ => opened

/-- The opening of a conditional group, read after `(?(`: the number or the name of a group in
parentheses, or else a condition. -/
def conditionalOpening (known : Captures) (options : Options) (runes : Runes) :
    Except Fault Opening :=
  if (runes.head?.map isDigitRune).getD false then do
    let (number, rest) ← decimal 0 runes
    match rest with
    | 41 :: rest =>
      if known.numbers.contains number then return .group (.ifCaptured 0) options rest
      else throw (.undefinedCondition number)
    | _ => throw (.malformedCondition number)
  else
    let name := runes.takeWhile isWordRune
    match known.names.contains name, runes.drop name.length with
    | true, 41 :: rest => .ok (.group (.ifCaptured 0) options rest)
    | _, _ => conditionOpening options runes

/-- The opening of a group that may set options, read after its question mark. -/
def optionOpening (inside : GroupKind) (options : Options) (whole runes : Runes) :
    Except Fault Opening :=
  let (changed, after) :=
    if inside.hasCondition then (options, runes) else optionLetters options false runes
  match after with
  | [] => unrecognized whole []
  | c :: rest =>
    if c = 41 then .ok (.settings changed rest)
    else if c = 58 then .ok (.group .plain changed rest)
    else unrecognized whole rest

/-- The opening of a group inside another, read after its parenthesis. -/
def opening (known : Captures) (inside : GroupKind) (options : Options) (runes : Runes) :
    Except Fault Opening :=
  match runes with
  | 63 :: 41 :: _ => .ok (.group .plain options runes)
  | 63 :: rest =>
    match rest with
    | [] => unrecognized runes []
    | c :: more =>
      if c = 58 || c = 61 || c = 33 || c = 62 then .ok (.group .plain options more)
      else if c = 39 || c = 60 then
        match more with
        | [] => unrecognized runes []
        | d :: after =>
          if d = 61 || d = 33 then
            if c = 60 then .ok (.group .plain options after) else unrecognized runes after
          else namedOpening known options runes (if c = 60 then 62 else 39) more
      else if c = 40 then conditionalOpening known options more
      else optionOpening inside options runes rest
  | _ => .ok (.group .plain options runes)

end ScriptOptimizer.Pattern
