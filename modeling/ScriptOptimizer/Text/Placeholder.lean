import ScriptOptimizer.Text.Utf8

/-!
Messages are forms: a percent sign in one starts a placeholder, with flags, a width, a precision and
a letter, and two of them stand for one. This is how a form is filled in when there is nothing to
fill it with: each placeholder says what it misses.
-/

namespace ScriptOptimizer.Placeholder

/-- A number at the front of a text, `value` of which was read: whether there is one, and what
follows it. A number that grows too large is none and takes the rest of the text with it. -/
def number (value : Nat) (found : Bool) : Bytes → Bool × Bytes
  | [] => (found, [])
  | b :: rest =>
    if Bytes.isDigit b then
      if value > 1000000 then (false, []) else number (value * 10 + (b.toNat - 48)) true rest
    else (found, b :: rest)

/-- The place of a value, a number in brackets at the front of a text: whether the number is one,
and what follows. Text without a bracket has no place. -/
def selection? : Bytes → Option (Bool × Bytes)
  | 91 :: rest =>
    let inside := rest.takeWhile (· ≠ 93)
    if rest.length < 2 || inside.length = rest.length then some (false, rest)
    else some (number 0 false inside = (true, []), rest.drop (inside.length + 1))
  | _ => none

/-- What was read of a placeholder: what was written for it, what follows, whether a place of a
value came last, and whether there was one at all that cannot be right. -/
structure Progress where
  written : Bytes
  rest : Bytes
  placed : Bool := false
  misplaced : Bool := false
deriving DecidableEq, Repr

namespace Progress

/-- Reads the place of a value if there is one. No place is right when there are no values. -/
def select (p : Progress) : Progress :=
  match selection? p.rest with
  | none => { p with placed := false }
  | some (found, rest) => { p with rest, placed := found, misplaced := true }

/-- Reads a number that a star can stand for, and complains about a star. -/
def amount (complaint : Bytes) (p : Progress) : Progress :=
  match p.rest with
  | 42 :: rest => { p with written := p.written ++ complaint, rest, placed := false }
  | _ => { p with rest := (number 0 false p.rest).2 }

/-- Reads the width. -/
def width (p : Progress) : Progress := p.amount "%!(BADWIDTH)"

/-- Reads the precision after its point if there is one. -/
def precision (p : Progress) : Progress :=
  match p.rest with
  | 46 :: rest => ({ p with rest }.select).amount "%!(BADPREC)"
  | _ => p

/-- Reads the letter of the placeholder, or finds that there is none. -/
def letter (p : Progress) : Progress :=
  match p.rest with
  | [] => { p with written := p.written ++ Bytes.ofString "%!(NOVERB)" }
  | 37 :: rest => { p with written := p.written ++ Bytes.ofString "%", rest }
  | text =>
    let (rune, size) := Utf8.decode text
    let complaint := if p.misplaced then "(BADINDEX)" else "(MISSING)"
    { p with
      written := p.written ++ Bytes.cat ["%!", Utf8.encode rune, Bytes.ofString complaint]
      rest := text.drop size }

end Progress

/-- Is it one of the flags that a placeholder may start with? -/
def isFlag (b : UInt8) : Bool := b = 35 || b = 48 || b = 43 || b = 45 || b = 32

/-- A placeholder after its percent sign: what is written for it, and what follows it. -/
def fill (text : Bytes) : Bytes × Bytes :=
  let p : Progress := ⟨[], text.dropWhile isFlag, false, false⟩
  let p := p.select.width.precision
  let p := if p.placed then p else p.select
  (p.letter.written, p.letter.rest)

/-- A form filled in, `skip` bytes of which belong to a placeholder that was already filled. -/
def fillFrom (skip : Nat) : Bytes → Bytes
  | [] => []
  | b :: rest =>
    match skip with
    | k + 1 => fillFrom k rest
    | 0 =>
      if b = 37 then
        let (written, after) := fill rest
        written ++ fillFrom (rest.length - after.length) rest
      else b :: fillFrom 0 rest

/-- A form filled in with nothing. -/
def fillAll (form : Bytes) : Bytes := fillFrom 0 form

end ScriptOptimizer.Placeholder
