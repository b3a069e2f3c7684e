import ScriptOptimizer.Harmony.Literal
import ScriptOptimizer.Harmony.Word

/-!
How far a numeral of the newer language reaches. Its digits may be grouped by underscores, each of
which has to stand between two digits.
-/

namespace ScriptOptimizer.Harmony

/-- Is it a digit of the base? -/
def isDigitIn (base : Nat) (b : UInt8) : Bool := (Bytes.hexValue? b).any (· < base)

/-- How many bytes a numeral takes, whether it is well formed so far, and where a digit is first
missing after an underscore. -/
structure NumeralShape where
  width : Nat
  wellFormed : Bool
  missing : Option Nat
deriving DecidableEq, Repr

namespace NumeralShape

/-- May the byte stand in a run of digits? -/
def isGrouped (base : Nat) (separated : Bool) (b : UInt8) : Bool :=
  isDigitIn base b || (separated && b = 95)

/-- Where in a run of digits at the front of a text a digit is missing: right after an
underscore. -/
def missingDigit? (base : Nat) (separated : Bool) : Bytes → Option Nat
  | [] => none
  | b :: rest =>
    if !isGrouped base separated b then none
    else if b = 95 && !(rest.head?.any (isDigitIn base)) then some 1
    else (missingDigit? base separated rest).map (· + 1)

/-- A run of digits after `width` bytes of a text: where it ends, and where a digit is first missing
in it or was before. -/
def digits (base : Nat) (separated : Bool) (text : Bytes) (width : Nat) (missing : Option Nat) :
    Nat × Option Nat :=
  let run := text.drop width
  (width + (run.takeWhile (isGrouped base separated)).length,
    missing <|> (missingDigit? base separated run).map (· + width))

/-- The end of a numeral after `width` bytes: a mark for integers without bounds may follow, in
either case of the letter, else neither a word nor a digit. -/
def close (text : Bytes) (width : Nat) (missing : Option Nat) : NumeralShape :=
  let after := text.drop width
  if after.head?.any fun b => b = 110 || b = 78 then ⟨width + 1, true, missing⟩
  else ⟨width, !(startsWord after || after.head?.any Bytes.isDigit), missing⟩

/-- The exponent of a numeral, if there is one, after `width` bytes, and its end. -/
def exponent (text : Bytes) (width : Nat) (missing : Option Nat) : NumeralShape :=
  match text.drop width with
  | e :: rest =>
    if e = 101 || e = 69 then
      let sign := if rest.head?.any fun s => s = 43 || s = 45 then 1 else 0
      if (rest.drop sign).head?.any Bytes.isDigit then
        let (width, missing) := digits 10 true text (width + 1 + sign) missing
        close text width missing
      else ⟨width + 1 + sign, false, missing⟩
    else close text width missing
  | [] => close text width missing

/-- The numeral at the front of a text. -/
def scan (text : Bytes) : NumeralShape :=
  match prefixBase? text with
  | some base =>
    if (text.drop 2).head?.any (isDigitIn base) then
      let (width, missing) := digits base true text 2 none
      close text width missing
    else ⟨2, false, none⟩
  | none =>
    if text.head? = some 48 && !((text.drop 1).head?.any fun b => b = 46 || b = 101 || b = 69) then
      let (width, missing) := digits 8 false text 1 none
      close text width missing
    else
      let (whole, missing) := digits 10 true text 0 none
      if (text.drop whole).head? = some 46 then
        let (width, missing) := digits 10 true text (whole + 1) missing
        exponent text width missing
      else exponent text whole missing

end NumeralShape

end ScriptOptimizer.Harmony
