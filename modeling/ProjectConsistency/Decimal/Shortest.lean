import ProjectConsistency.Decimal.Double

/-!
# The shortest decimal that reads back

Every decimal between the midpoints to the neighbours of a double reads back as that double; the
midpoints themselves do when the significand is even. Of those decimals the one with the fewest
digits is chosen, of several the nearest, and of two equally near the one that ends in an even
digit.

- `Double.interval`: the number and its two midpoints as numerators over one denominator.
- `Double.shortest`: digits `d` and exponent `e` of the chosen decimal `d * 10 ^ e`.
- `Double.exponentText`, `Double.plainText`: the two layouts of the digits.
-/

namespace ProjectConsistency
namespace Double

/-- A number and the bounds of the decimals that read back as it, over the denominator `unit`. -/
structure Interval where
  low : Nat
  value : Nat
  high : Nat
  unit : Nat
  closed : Bool

def interval (x : Double) : Interval :=
  let (m, q) := x.parts
  let below := if x.fraction = 0 && 1 < x.biasedExponent then 1 else 2
  let up := Nat.pow 2 q.toNat
  { low := (4 * m - below) * up
    value := 4 * m * up
    high := (4 * m + 2) * up
    unit := 4 * Nat.pow 2 (-q).toNat
    closed := m % 2 == 0 }

namespace Interval

/-- `numerator / unit` over a denominator larger by the given factor lies in the interval. -/
def holds (i : Interval) (factor numerator : Nat) : Bool :=
  let low := i.low * factor
  let high := i.high * factor
  (low < numerator && numerator < high) ||
    (i.closed && (numerator == low || numerator == high))

/-- The least `k` with `unit ≤ value * 10 ^ k`, searched upwards for at most `steps` places. -/
def places (i : Interval) : Nat → Nat → Nat
  | 0, k => k
  | steps + 1, k => if i.unit ≤ i.value * Nat.pow 10 k then k else places i steps (k + 1)

/-- The exponent of the first significant digit. -/
def leading (i : Interval) : Int :=
  if i.unit ≤ i.value then (digitCount (i.value / i.unit) : Int) - 1
  else -(i.places 330 0 : Int)

/-- The nearer neighbour of the value on the grid of multiples of `10 ^ e` that reads back. -/
def onGrid (i : Interval) (e : Int) : Option Nat :=
  let up := Nat.pow 10 e.toNat
  let down := Nat.pow 10 (-e).toNat
  let step := up * i.unit
  let scaled := i.value * down
  let lower := scaled / step
  let rest := scaled % step
  let lowerFits := i.holds down (lower * step)
  let upperFits := i.holds down ((lower + 1) * step)
  if lowerFits && upperFits then
    if 2 * rest < step || (2 * rest = step && lower % 2 = 0) then some lower else some (lower + 1)
  else if lowerFits then some lower
  else if upperFits then some (lower + 1)
  else none

/-- The first grid, from coarse to fine, that has a decimal in the interval. -/
def search (i : Interval) : Nat → Int → Nat × Int
  | 0, e => (i.value * Nat.pow 10 (-e).toNat / (i.unit * Nat.pow 10 e.toNat), e)
  | steps + 1, e =>
      match i.onGrid e with
      | some d => (d, e)
      | none => search i steps (e - 1)

end Interval

/-- Drops trailing zeros of the digits, for at most the given number of places. -/
def dropZeros : Nat → Nat → Int → Nat × Int
  | 0, d, e => (d, e)
  | steps + 1, d, e => if d % 10 = 0 then dropZeros steps (d / 10) (e + 1) else (d, e)

/-- Digits `d` and exponent `e` of the shortest decimal `d * 10 ^ e` of a finite positive double. -/
def shortest (x : Double) : Nat × Int :=
  let i := x.interval
  let (d, e) := i.search 17 i.leading
  dropZeros 20 d e

/-! ## Layouts -/

def zeros (n : Nat) : String :=
  String.ofList (List.replicate n '0')

/-- Digits with a point after the first `point` of them; `point` may lie outside the digits. -/
def positional (digits : List Char) (point : Int) : String :=
  if point ≤ 0 then "0." ++ zeros (-point).toNat ++ String.ofList digits
  else if (digits.length : Int) ≤ point then
    String.ofList digits ++ zeros (point - digits.length).toNat ++ ".0"
  else
    String.ofList (digits.take point.toNat) ++ "." ++ String.ofList (digits.drop point.toNat)

/-- One digit before the point, and the exponent with its sign. -/
def scientific (digits : List Char) (exponent : Int) : String :=
  let mantissa := match digits with
    | [d] => String.ofList [d]
    | d :: rest => String.ofList (d :: '.' :: rest)
    | [] => ""
  mantissa ++ (if exponent < 0 then "e-" else "e+") ++ toString exponent.natAbs

def signText (x : Double) : String :=
  if x.isNegative then "-" else ""

/--
The layout of data formats: positional while the first significant digit lies between the fifth
place after the point and the sixteenth before it, and with an exponent elsewhere.
-/
def exponentText (x : Double) : String :=
  if x.isZero then x.signText ++ "0.0"
  else
    let (d, e) := x.shortest
    let digits := Nat.toDigits 10 d
    let point := e + digits.length
    x.signText ++
      (if -5 < point && point ≤ 16 then positional digits point else scientific digits (point - 1))

/-- The layout of messages: always positional and with a point; words for what is no number. -/
def plainText (x : Double) : String :=
  if x.isNaN then "NaN"
  else if !x.isFinite then x.signText ++ "inf"
  else if x.isZero then x.signText ++ "0.0"
  else
    let (d, e) := x.shortest
    let digits := Nat.toDigits 10 d
    x.signText ++ positional digits (e + digits.length)

end Double
end ProjectConsistency
