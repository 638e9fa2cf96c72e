/-!
# Decimals

The decimal text of a double. A finite double is `m * 2 ^ q` exactly; its shortest decimal is the
one with the fewest digits among those that read back as the same double, and the nearest of them
where there are several. Everything is decided in exact arithmetic on natural numbers.

`Decimal.ofDouble?` chooses the digits. `Decimal.positional` and `Decimal.scientific` write them.
-/

namespace CodeGraph

/-- The number `digits * 10 ^ exponent`. -/
structure Decimal where
  digits : Nat
  exponent : Int
  deriving DecidableEq, Repr

namespace Decimal

/-- The significand and the power of two of a finite double, its sign left out. -/
def binary? (x : Float) : Option (Nat × Int) :=
  let bits := x.toBits.toNat
  let fraction : Nat := bits % Nat.pow 2 52
  let power : Nat := bits / Nat.pow 2 52 % Nat.pow 2 11
  if power = 2047 then none
  else if power = 0 then some (fraction, -1074)
  else some (Nat.pow 2 52 + fraction, (power : Int) - 1075)

/-- Whether the sign bit is set. -/
def isNegative (x : Float) : Bool :=
  x.toBits.toNat / Nat.pow 2 63 == 1

/-- The reals that round to `m * 2 ^ q`, in the unit `1 / scale`: the two ends and the value. The
lower gap is half as wide where the significand is the least of its binade. -/
structure Interval where
  low : Nat
  value : Nat
  high : Nat
  scale : Nat
  /-- An end rounds to an even significand. -/
  closed : Bool

def Interval.of (m : Nat) (q : Int) : Interval :=
  let gap := if m = Nat.pow 2 52 ∧ -1074 < q then 1 else 2
  let up := Nat.pow 2 (q - 2).toNat
  let down := Nat.pow 2 (2 - q).toNat
  ⟨(4 * m - gap) * up, 4 * m * up, (4 * m + 2) * up, down, m % 2 == 0⟩

/-- Whether `d * 10 ^ e` lies in the interval. -/
def Interval.holds (i : Interval) (d : Nat) (e : Int) : Bool :=
  let x := d * Nat.pow 10 e.toNat * i.scale
  let unit := Nat.pow 10 (-e).toNat
  if i.closed then i.low * unit ≤ x && x ≤ i.high * unit
  else i.low * unit < x && x < i.high * unit

/-- How many decimal digits the whole part of `n / scale` has, or minus the number of zeros after
the point when there is no whole part. -/
private def magnitude (n scale : Nat) : Int :=
  if scale ≤ n then (Nat.toDigits 10 (n / scale)).length
  else
    let rec zeros : Nat → Nat → Int
      | 0, _ => 0
      | fuel + 1, n => if scale ≤ 10 * n then 0 else zeros fuel (10 * n) - 1
    zeros 400 n

/-- The neighbour of the value on the grid of multiples of `10 ^ e` that reads back as the value;
of two such neighbours the nearer one, of two equally near the even one. -/
private def onGrid? (i : Interval) (e : Int) : Option Nat :=
  let step := Nat.pow 10 e.toNat * i.scale
  let unit := Nat.pow 10 (-e).toNat
  let below := i.value * unit / step
  let rest := i.value * unit % step
  match i.holds below e, i.holds (below + 1) e with
  | true, true =>
    if 2 * rest < step ∨ (2 * rest = step ∧ below % 2 = 0) then some below else some (below + 1)
  | true, false => some below
  | false, true => some (below + 1)
  | false, false => none

/-- The digits of the first grid that has a hit, from coarse to fine. -/
private def search (i : Interval) (size : Int) : Nat → Decimal
  | 0 => ⟨i.value, 0⟩
  | left + 1 =>
    let e := size - (17 - left : Nat)
    match onGrid? i e with
    | some d => ⟨d, e⟩
    | none => search i size left

/-- Moves the zeros at the end of the digits into the exponent. -/
private def trim : Nat → Decimal → Decimal
  | 0, d => d
  | fuel + 1, d =>
    if d.digits ≠ 0 ∧ d.digits % 10 = 0 then trim fuel ⟨d.digits / 10, d.exponent + 1⟩ else d

/-- The shortest decimal of the size of a double, if the double is finite. -/
def ofDouble? (x : Float) : Option Decimal :=
  (binary? x).map fun (m, q) =>
    if m = 0 then ⟨0, 0⟩
    else
      let i := Interval.of m q
      trim 20 (search i (magnitude i.value i.scale) 17)

def digitChars (d : Decimal) : List Char :=
  Nat.toDigits 10 d.digits

/-- The exponent of the leading digit. -/
def leading (d : Decimal) : Int :=
  d.exponent + (d.digitChars.length - 1 : Nat)

/-- Without an exponent; a whole number ends in `.0`. -/
def positional (d : Decimal) : String :=
  let cs := d.digitChars
  if 0 ≤ d.exponent then
    String.ofList (cs ++ List.replicate d.exponent.toNat '0') ++ ".0"
  else
    let places := (-d.exponent).toNat
    let padded := List.replicate (places + 1 - cs.length) '0' ++ cs
    let whole := padded.length - places
    String.ofList (padded.take whole) ++ "." ++ String.ofList (padded.drop whole)

/-- One digit before the point, none after it if there is no more, and a signed exponent. -/
def scientific (d : Decimal) : String :=
  let mantissa := match d.digitChars with
    | [] => ""
    | [c] => c.toString
    | c :: rest => c.toString ++ "." ++ String.ofList rest
  let e := d.leading
  mantissa ++ (if 0 ≤ e then "e+" else "e-") ++ toString e.natAbs

/-- The nearest whole number to `n / d`; a half goes to the even neighbour. -/
def roundHalfEven (n d : Nat) : Nat :=
  let whole := n / d
  let twice := 2 * (n % d)
  if d < twice ∨ (twice = d ∧ whole % 2 = 1) then whole + 1 else whole

/-- With the sign of the double in front. -/
def signed (x : Float) (text : String) : String :=
  if isNegative x then "-" ++ text else text

/-- With a fixed number of places after the point, rounded from the exact value. -/
def fixed (places : Nat) (x : Float) : String :=
  match binary? x with
  | none => if x.isNaN then "NaN" else signed x "inf"
  | some (m, q) =>
    let n := roundHalfEven (m * Nat.pow 10 places * Nat.pow 2 q.toNat)
      (Nat.pow 2 (-q).toNat)
    let cs := Nat.toDigits 10 n
    let padded := List.replicate (places + 1 - cs.length) '0' ++ cs
    let whole := padded.length - places
    signed x (String.ofList (padded.take whole) ++
      (if places = 0 then "" else "." ++ String.ofList (padded.drop whole)))

end Decimal

end CodeGraph
