import ScriptOptimizer.Text.Bytes

/-!
Amounts as people read them.
-/

namespace ScriptOptimizer.Amount

/-- The units of sizes, each a thousand times the one before. -/
def units : List String := ["B", "kB", "MB", "GB", "TB", "PB", "EB"]

/-- How many times a number can be divided by a thousand before it is less. `fuel` bounds the
answer. -/
def thousands : Nat → Nat → Nat
  | 0, _ => 0
  | fuel + 1, n => if n < 1000 then 0 else thousands fuel (n / 1000) + 1

/-- A size in bytes. Below ten it is exact; otherwise it is given in the largest unit that fits,
with one decimal where that is less than ten. A half is rounded up to the tenth, and then to the
even whole. -/
def size (n : Nat) : Bytes :=
  if n < 10 then Bytes.cat [Bytes.ofNat n, " B"]
  else
    let power := thousands 6 n
    let scale := Nat.pow 1000 power
    let tenths := (20 * n + scale) / (2 * scale)
    let unit := units.getD power "EB"
    let whole := tenths / 10
    let up := tenths % 10 > 5 || (tenths % 10 = 5 && whole % 2 = 1)
    let number : Bytes :=
      if tenths < 100 then Bytes.cat [Bytes.ofNat whole, ".", Bytes.ofNat (tenths % 10)]
      else Bytes.ofNat (if up then whole + 1 else whole)
    Bytes.cat [number, " ", unit]

/-- Digits in groups of three, the last group full. -/
def groups : Nat → Bytes → Bytes
  | _, [] => []
  | left, d :: rest =>
    if left % 3 = 0 && left ≠ 0 && rest.length + 1 = left then
      Bytes.byte ',' :: d :: groups (left - 1) rest
    else d :: groups (left - 1) rest

/-- A count with commas between thousands. -/
def count (n : Nat) : Bytes :=
  match Bytes.ofNat n with
  | [] => []
  | d :: rest => d :: groups rest.length rest

/-- The digits of a number in base 36, with small letters. -/
def base36 (n : Nat) : Bytes :=
  let digits := "0123456789abcdefghijklmnopqrstuvwxyz".toList
  let rec digitsOnto : Nat → Nat → Bytes → Bytes
    | 0, _, done => done
    | fuel + 1, n, done =>
      let done := Bytes.byte (digits.getD (n % 36) '0') :: done
      if n < 36 then done else digitsOnto fuel (n / 36) done
  digitsOnto (n.log2 + 1) n []

/-- A number of units of `10 ^ places` with the decimals that are not zero at the end. -/
def decimals (places n : Nat) : Bytes :=
  let unit := Nat.pow 10 places
  let whole := n / unit
  let fraction := Bytes.ofNat (unit + n % unit) |>.drop 1
  let kept := Bytes.trimEnd (· = 48) fraction
  if kept = [] then Bytes.ofNat whole else Bytes.cat [Bytes.ofNat whole, ".", kept]

/-- A time in nanoseconds, in the largest unit below a second that fits, or in seconds after minutes
and hours. -/
def duration (n : Nat) : Bytes :=
  if n = 0 then "0s"
  else if n < 1000 then Bytes.cat [Bytes.ofNat n, "ns"]
  else if n < 1000000 then Bytes.cat [decimals 3 n, "µs"]
  else if n < 1000000000 then Bytes.cat [decimals 6 n, "ms"]
  else
    let minutes := n / 60000000000
    let seconds := Bytes.cat [decimals 9 (n % 60000000000), "s"]
    if minutes = 0 then seconds
    else if minutes < 60 then Bytes.cat [Bytes.ofNat minutes, "m", seconds]
    else Bytes.cat [Bytes.ofNat (minutes / 60), "h", Bytes.ofNat (minutes % 60), "m", seconds]

end ScriptOptimizer.Amount
