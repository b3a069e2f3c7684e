import ScriptOptimizer.Harmony.Reader
import ScriptOptimizer.Harmony.Tree

/-!
Arrays and objects as patterns. A pattern is read as an array or object first; when it turns out to
be a target of an assignment or a binding, its parts have to be targets as well. Each part that is
none is reported and left unread.
-/

namespace ScriptOptimizer.Harmony

open Reader

/-- Reports a part that cannot be assigned to. -/
def refuseAssigned (range : Range) : Reader Expression := do
  report range.start "Invalid destructuring assignment target"
  return .unread

/-- Reports a part that cannot be bound. -/
def refuseBound (range : Range) : Reader Expression := do
  report range.start "Invalid destructuring binding target"
  return .unread

/-- Reports a spread part that others follow. -/
def reportNotLast (range : Range) : Reader Unit :=
  report range.start "Rest element must be last element"

/-- Reports a comma between the argument of a spread element and the closing bracket. -/
def refuseComma (argument array : Range) : Reader Unit := do
  match ← commaBetween argument.stop (array.stop - 1) with
  | some offset => report offset "Comma is not allowed here"
  | none => return

mutual

/-- An expression as the target of an assignment. An element of a pattern may have an
initializer. -/
def Expression.assignTarget (element : Bool) : Expression → Reader Expression
  | .absent => return .absent
  | .array range elements => do
    match ← Expression.assignTargets range elements with
    | some targets => return .arrayPattern range targets
    | none => return .unread
  | .object range entries => do
    match ← Entry.assignTargets entries with
    | some targets => return .objectPattern range targets
    | none => return .unread
  | .assign range compound left right => do
    if element && compound.isNone then
      return .assign range none (← left.assignTarget false) right
    else refuseAssigned range
  | .arrayPattern range elements => return .arrayPattern range elements
  | .objectPattern range entries => return .objectPattern range entries
  | e => do if e.isAssignable then return e else refuseAssigned e.range

/-- The elements of an array as those of an assignment pattern. -/
def Expression.assignTargets (array : Range) : List Expression → Reader (Option (List Expression))
  | [] => return some []
  | .spread argument :: rest => do
    if !rest.isEmpty then
      reportNotLast argument.range
      return none
    refuseComma argument.range array
    return some [.spread (← argument.assignTarget false)]
  | e :: rest => do
    let first ← e.assignTarget true
    return (← Expression.assignTargets array rest).map (first :: ·)

/-- The entries of an object as those of an assignment pattern. -/
def Entry.assignTargets : List Entry → Reader (Option (List Entry))
  | [] => return some []
  | .keyed range kind computed key value :: rest => do
    if kind ≠ .value then
      let _ ← refuseAssigned range
      return none
    let first := Entry.keyed range kind computed key (← value.assignTarget true)
    return (← Entry.assignTargets rest).map (first :: ·)
  | .short id initializer :: rest => do
    return (← Entry.assignTargets rest).map (.short id initializer :: ·)
  | .spread argument :: rest => do
    if rest.isEmpty then return some [.spread argument]
    reportNotLast argument.range
    return none

end

/-- The part of an object that takes the rest can only be a name where it is bound. -/
def Expression.bindRest (e : Expression) : Reader Expression := do
  match e with
  | .name _ => return e
  | _ =>
    report e.range.start "Invalid binding rest"
    return .unread

mutual

/-- An expression as the target of a binding. An element of a pattern may have an initializer; the
name `await` is refused where it is an operator. The elements of an array only have to be such as
can be assigned to. -/
def Expression.bindTarget (element : Bool) : Expression → Reader Expression
  | .absent => return .absent
  | .array range elements => do
    match ← Expression.bindTargets range elements with
    | some targets => return .arrayPattern range targets
    | none => return .unread
  | .object range entries => do
    match ← Entry.bindTargets entries with
    | some targets => return .objectPattern range targets
    | none => return .unread
  | .arrayPattern range elements => do
    return .arrayPattern range (← Expression.rebindTargets elements)
  | .objectPattern range entries => do
    match ← Entry.bindTargets entries with
    | some targets => return .objectPattern range targets
    | none => return .unread
  | .assign range compound left right => do
    if !element then refuseBound range
    else if compound.isSome then refuseAssigned range
    else return .assign range none (← left.bindTarget false) right
  | .name id => do
    if (← setting).allowAwait && id.text = Bytes.ofString "await" then refuseBound id.range
    else return .name id
  | e => refuseBound e.range

/-- The elements of an array as those of a binding pattern. -/
def Expression.bindTargets (array : Range) : List Expression → Reader (Option (List Expression))
  | [] => return some []
  | .spread argument :: rest => do
    if !rest.isEmpty then
      reportNotLast argument.range
      return none
    refuseComma argument.range array
    return some [.spread (← argument.bindTarget false)]
  | e :: rest => do
    let first ← e.assignTarget true
    return (← Expression.bindTargets array rest).map (first :: ·)

/-- The elements of an assignment pattern as those of a binding pattern, none of which may have an
initializer. -/
def Expression.rebindTargets : List Expression → Reader (List Expression)
  | [] => return []
  | .spread argument :: rest => do
    let first := Expression.spread (← argument.bindTarget false)
    return first :: (← Expression.rebindTargets rest)
  | e :: rest => do
    let first ← e.bindTarget false
    return first :: (← Expression.rebindTargets rest)

/-- The entries of an object as those of a binding pattern. -/
def Entry.bindTargets : List Entry → Reader (Option (List Entry))
  | [] => return some []
  | .keyed range kind computed key value :: rest => do
    if kind ≠ .value then
      let _ ← refuseBound range
      return none
    let first := Entry.keyed range kind computed key (← value.bindTarget true)
    return (← Entry.bindTargets rest).map (first :: ·)
  | .short id initializer :: rest => do
    return (← Entry.bindTargets rest).map (.short id initializer :: ·)
  | .spread argument :: rest => do
    if !rest.isEmpty then
      reportNotLast argument.range
      return none
    return some [.spread (← argument.bindRest)]

end

/-- The items of a parenthesized list as parameters. Only the faults matter, since what they are
parameters of is not kept. -/
def Expression.checkParameters : List Expression → Reader Unit
  | [] => return
  | e :: rest => do
    let _ ← e.bindTarget true
    checkParameters rest

end ScriptOptimizer.Harmony
