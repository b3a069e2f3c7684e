import ScriptOptimizer.Text.Bytes

/-!
Double-precision numbers as their bits, and the rule that gives a decimal numeral its value: the
nearest number, a tie going to the even neighbour, computed in exact arithmetic.
-/

namespace ScriptOptimizer

/-- A double-precision number, by its 64 bits. -/
structure Binary64 where
  bits : UInt64
deriving DecidableEq, Repr, Inhabited

namespace Binary64

/-- The bits of positive infinity. -/
def infinityBits : Nat := 0x7FF0000000000000

/-- The sign bit. -/
def signBit : Nat := 0x8000000000000000

/-- What the first bit of a mantissa counts, which is not stored. -/
def hiddenBit : Nat := 0x10000000000000

/-- Is the sign bit set? -/
def isNegative (x : Binary64) : Bool := x.bits.toNat / signBit = 1

/-- The bits without the sign. -/
def magnitude (x : Binary64) : Nat := x.bits.toNat % signBit

/-- Neither infinite nor a NaN? -/
def isFinite (x : Binary64) : Bool := x.magnitude < infinityBits

/-- Is it a NaN? -/
def isNaN (x : Binary64) : Bool := x.magnitude > infinityBits

/-- Positive infinity. -/
def infinity : Binary64 := ⟨infinityBits.toUInt64⟩

/-- Zero. -/
def zero : Binary64 := ⟨0⟩

/-- `m` and `q` such that a finite number is `m * 2 ^ q`, its sign apart. -/
def mantissaExponent (x : Binary64) : Nat × Int :=
  let field : Nat := x.magnitude / hiddenBit
  let fraction : Nat := x.magnitude % hiddenBit
  if field = 0 then (fraction, -1074) else (fraction + hiddenBit, (field : Int) - 1075)

/-- The quotient rounded to the nearest number, a tie going to the even one. -/
def roundDiv (num den : Nat) : Nat :=
  let q := num / den
  let twice := 2 * (num % den)
  if twice > den || (twice = den && q % 2 = 1) then q + 1 else q

/-- `n * 2 ^ e` as a fraction. -/
def scale (n : Nat) (e : Int) : Nat × Nat :=
  if e < 0 then (n, 1 <<< e.natAbs) else (n <<< e.natAbs, 1)

/-- The largest `k` with `2 ^ k * den ≤ num`, for positive arguments. -/
def floorLog2 (num den : Nat) : Int :=
  let k : Int := (num.log2 : Int) - den.log2
  let reached := if k < 0 then den ≤ num <<< k.natAbs else den <<< k.natAbs ≤ num
  if reached then k else k - 1

/-- The number nearest to a fraction; one too large is infinite. -/
def ofFraction (num den : Nat) : Binary64 :=
  if num = 0 then zero
  else
    let e := max (-1074) (floorLog2 num den - 52)
    let m := if e < 0 then roundDiv (num <<< e.natAbs) den else roundDiv num (den <<< e.natAbs)
    let bits := (e + 1074).toNat * hiddenBit + m
    if bits ≥ infinityBits then infinity else ⟨bits.toUInt64⟩

/-- The number nearest to a natural number. -/
def ofNat (n : Nat) : Binary64 := ofFraction n 1

/-- The number nearest to `n * 10 ^ e`. Exponents far outside the range are not computed. -/
def ofScientific (n : Nat) (e : Int) : Binary64 :=
  let digits : Int := (Nat.toDigits 10 n).length
  if n = 0 || digits + e < -330 then zero
  else if digits + e > 310 then infinity
  else if e < 0 then ofFraction n (Nat.pow 10 e.natAbs)
  else ofFraction (n * Nat.pow 10 e.natAbs) 1

/-- The number with the opposite sign. -/
def neg (x : Binary64) : Binary64 := ⟨x.bits ^^^ 0x8000000000000000⟩

/-- The value of a decimal numeral: digits, at most one point, and an exponent after `e`. -/
def ofNumeral (text : Bytes) : Binary64 :=
  let whole := text.takeWhile Bytes.isDigit
  let rest := text.dropWhile Bytes.isDigit
  let (fraction, rest) :=
    match rest with
    | 46 :: rest => (rest.takeWhile Bytes.isDigit, rest.dropWhile Bytes.isDigit)
    | _ => ([], rest)
  let exponent : Int :=
    match rest with
    | _ :: 43 :: digits => Bytes.valueInBase 10 digits
    | _ :: 45 :: digits => -(Bytes.valueInBase 10 digits : Int)
    | _ :: digits => Bytes.valueInBase 10 digits
    | [] => 0
  ofScientific (Bytes.valueInBase 10 (whole ++ fraction)) (exponent - fraction.length)

end Binary64

end ScriptOptimizer
