import ScriptOptimizer.Decimal.Binary64

/-!
The fewest decimal digits that read back as a given number, and of those the nearest to it; and how
they are laid out: positionally where that is short, and with an exponent elsewhere.
-/

namespace ScriptOptimizer

/-- A decimal `0.d₁d₂…dₙ · 10 ^ point`, where the digits are those of `digits`. -/
structure DecimalDigits where
  digits : Bytes
  point : Int
deriving DecidableEq, Repr

namespace Binary64

/-- Is `10 ^ k * den ≤ num`? -/
def reachesPower (num den : Nat) (k : Int) : Bool :=
  if k < 0 then den ≤ num * Nat.pow 10 k.natAbs else den * Nat.pow 10 k.natAbs ≤ num

/-- The largest `k` with `10 ^ k * den ≤ num`, for positive arguments, from an estimate by the
binary logarithm that is at most one too small. -/
def floorLog10 (num den : Nat) : Int :=
  let k := Int.fdiv (floorLog2 num den * 30103) 100000 - 1
  if reachesPower num den (k + 2) then k + 2
  else if reachesPower num den (k + 1) then k + 1
  else k

/-- The reals that round to a number: `low` and `high` over a common denominator with the number
itself, and whether the ends belong to them. -/
structure Interval where
  low : Nat
  value : Nat
  high : Nat
  den : Nat
  closed : Bool

/-- The interval of a finite number `m * 2 ^ q`. Below a power of two the neighbour is half as
far. -/
def interval (m : Nat) (q : Int) : Interval :=
  let step := if m = hiddenBit && q > -1074 then 1 else 2
  let (unit, den) := scale 1 (q - 2)
  ⟨(4 * m - step) * unit, 4 * m * unit, (4 * m + 2) * unit, den, m % 2 = 0⟩

/-- Is a fraction in the interval? -/
def Interval.holds (i : Interval) (num den : Nat) : Bool :=
  let n := num * i.den
  if i.closed then i.low * den ≤ n && n ≤ i.high * den else i.low * den < n && n < i.high * den

/-- The best decimal with `count` digits, if one lies in the interval: a multiple of
`10 ^ (top + 1 - count)`, with that multiple as a whole number. -/
def Interval.best? (i : Interval) (top : Int) (count : Nat) : Option Nat :=
  let grid := top + 1 - count
  let power := Nat.pow 10 grid.natAbs
  let (gridNum, gridDen) := if grid < 0 then (1, power) else (power, 1)
  let below := i.value * gridDen / (i.den * gridNum)
  let twice := 2 * (i.value * gridDen % (i.den * gridNum))
  let nearer := if twice > i.den * gridNum || (twice = i.den * gridNum && below % 2 = 1)
    then [below + 1, below] else [below, below + 1]
  nearer.find? fun n => i.holds (n * gridNum) gridDen

/-- The first digit count from `count` on at which the interval has a decimal; `tries` bounds the
search, and seventeen digits always suffice. -/
def Interval.search (i : Interval) (top : Int) (count : Nat) : Nat → Nat × Nat
  | 0 => (0, count)
  | tries + 1 =>
    match i.best? top count with
    | some n => (n, count)
    | none => i.search top (count + 1) tries

/-- The shortest digits of a finite number, its sign apart. -/
def shortest (x : Binary64) : DecimalDigits :=
  let (m, q) := x.mantissaExponent
  if m = 0 then ⟨"0", 1⟩
  else
    let (num, den) := scale m q
    let top := floorLog10 num den
    let (n, count) := (interval m q).search top 1 17
    let text := Bytes.ofNat n
    ⟨Bytes.trimEnd (· = 48) text, top + 1 + ((text.length : Int) - count)⟩

end Binary64

end ScriptOptimizer

namespace ScriptOptimizer.DecimalDigits

/-- The digits with the decimal point in its place and no exponent. -/
def positional (d : DecimalDigits) : Bytes :=
  let n : Int := d.digits.length
  if d.point ≤ 0 then Bytes.ofString "0." ++ Bytes.replicate d.point.natAbs 48 ++ d.digits
  else if n ≤ d.point then d.digits ++ Bytes.replicate (d.point - n).toNat 48
  else d.digits.take d.point.toNat ++ Bytes.ofString "." ++ d.digits.drop d.point.toNat

/-- One digit before the point, and a signed exponent without leading zeros. -/
def scientific (d : DecimalDigits) : Bytes :=
  let fraction := d.digits.drop 1
  let mantissa := d.digits.take 1 ++ if fraction = [] then [] else Bytes.ofString "." ++ fraction
  let e := d.point - 1
  mantissa ++ Bytes.ofString (if e < 0 then "e-" else "e+") ++ Bytes.ofNat e.natAbs

/-- The range of leading exponents, from 10 ^ -6 up to but not including 10 ^ 21, in which numbers
are written positionally. -/
def isPositional (d : DecimalDigits) : Bool := -6 ≤ d.point - 1 && d.point - 1 < 21

end ScriptOptimizer.DecimalDigits

namespace ScriptOptimizer.Binary64

/-- The text of a finite number in a JSON document; the sign of zero is kept. -/
def jsonText (x : Binary64) : Bytes :=
  let d := x.shortest
  let body := if d.isPositional then d.positional else d.scientific
  if x.isNegative then Bytes.byte '-' :: body else body

end ScriptOptimizer.Binary64
