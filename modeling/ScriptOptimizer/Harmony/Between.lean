import ScriptOptimizer.Token.Gap

/-!
What stands between the tokens of the newer language: white space, line breaks and comments. A line
break can end a statement, so what is skipped also says whether it does.
-/

namespace ScriptOptimizer.Harmony

/-- The bytes of white space at the front of a text, other than a line break. -/
def blankWidth : Bytes → Nat
  | [] => 0
  | b :: rest =>
    if b = 32 || b = 9 || b = 11 || b = 12 then 1
    else if b < 0x80 then 0
    else
      let (rune, width) := Utf8.decode (b :: rest)
      if rune = 0x2028 || rune = 0x2029 then 0
      else if rune = 0xFEFF || Category.isWhiteSpace rune then width
      else 0

/-- How many bytes a line break at the front of a text takes, at the end of the text none. -/
def lineBreakWidth : Bytes → Nat
  | 13 :: 10 :: _ => 2
  | [] => 0
  | b :: _ => if b < 0x80 then 1 else 3

/-- The bytes of white space at the front of a text, `skip` bytes of which were already read, up to
a line break or the next token. -/
def blanksWidth (skip : Nat) : Bytes → Nat
  | [] => 0
  | b :: rest =>
    match skip with
    | k + 1 => blanksWidth k rest + 1
    | 0 =>
      match blankWidth (b :: rest) with
      | 0 => 0
      | width + 1 => blanksWidth width rest + 1

/-- What stands between two tokens: its width, whether it ends a statement, whether a line break
after it would, and whether its last comment is closed. -/
structure Between where
  width : Nat
  afterBreak : Bool
  breakEnds : Bool
  closed : Bool := true
deriving DecidableEq, Repr

/-- Where in the text between two tokens a byte stands. -/
inductive Region where
  | blank
  | line
  | block
deriving DecidableEq, Repr

namespace Between

/-- One byte more. -/
def grow (g : Between) : Between := { g with width := g.width + 1 }

/-- A line break in a comment with an end mark ends a statement wherever it stands. -/
def breakInside (g : Between) : Between := { g with afterBreak := true, breakEnds := false }

/-- A line break elsewhere ends a statement only where one may end. -/
def breakOutside (g : Between) : Between := if g.breakEnds then g.breakInside else g

/-- What stands between two tokens at the front of a text, after `g` of it. `skip` bytes of the
front were already read. -/
def scanFrom (region : Region) (skip : Nat) (g : Between) : Bytes → Between
  | [] => if region = .block then { g with closed := false } else g
  | b :: rest =>
    match skip with
    | k + 1 => scanFrom region k g.grow rest
    | 0 =>
      let lineBreak := startsWithLineBreak (b :: rest)
      match region with
      | .block =>
        if b = 42 && rest.head? = some 47 then scanFrom .blank 1 g.grow rest
        else scanFrom .block 0 (if lineBreak then g.breakInside.grow else g.grow) rest
      | _ =>
        if lineBreak then scanFrom .blank (if b < 0x80 then 0 else 2) g.breakOutside.grow rest
        else if region = .line then scanFrom .line 0 g.grow rest
        else if b = 47 && rest.head? = some 47 then scanFrom .line 1 g.grow rest
        else if b = 47 && rest.head? = some 42 then scanFrom .block 1 g.grow rest
        else
          match blankWidth (b :: rest) with
          | 0 => g
          | width + 1 => scanFrom .blank width g.grow rest

end Between

end ScriptOptimizer.Harmony
