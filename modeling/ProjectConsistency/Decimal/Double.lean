/-!
# Double-precision numbers

A double is held by its bits, so equality tells the two zeros apart.

- `Double`: a 64-bit binary number; `Double.parts` reads a finite one as `significand * 2 ^ exponent`.
- `Double.scale?`: `significand * 10 ^ exponent` by one multiplication or division of doubles, which
  is at most one unit in the last place away from the nearest double.
- `Double.nearest?`: the double nearest to `significand * 10 ^ exponent`.
-/

namespace ProjectConsistency

/-- A double-precision number, held by its bits. -/
structure Double where
  bits : UInt64
  deriving DecidableEq, Repr

namespace Double

/-- The number as a value of the machine type. -/
def toFloat (x : Double) : Float :=
  Float.ofBits x.bits

/-- The number held by a value of the machine type. -/
def ofFloat (x : Float) : Double :=
  ⟨x.toBits⟩

def isNegative (x : Double) : Bool :=
  x.bits >>> 63 == 1

def biasedExponent (x : Double) : Nat :=
  ((x.bits >>> 52) &&& 0x7FF).toNat

/-- The bits below the exponent. -/
def fraction (x : Double) : Nat :=
  (x.bits &&& 0xFFFFFFFFFFFFF).toNat

def isFinite (x : Double) : Bool :=
  x.biasedExponent != 0x7FF

def isNaN (x : Double) : Bool :=
  !x.isFinite && x.fraction != 0

/-- Positive or negative zero. -/
def isZero (x : Double) : Bool :=
  x.biasedExponent == 0 && x.fraction == 0

/-- The bit before the fraction of a normal number. -/
def hiddenBit : Nat := 4503599627370496

/-- `(m, q)` such that the magnitude of a finite number is `m * 2 ^ q`. -/
def parts (x : Double) : Nat × Int :=
  if x.biasedExponent = 0 then (x.fraction, -1074)
  else (x.fraction + hiddenBit, (x.biasedExponent : Int) - 1075)

def withSign (negative : Bool) (x : Float) : Double :=
  ofFloat (if negative then -x else x)

/-! ## From decimal notation -/

/-- The largest power of ten below infinity is `10 ^ 308`. -/
def powerOfTen (k : Nat) : Float :=
  OfScientific.ofScientific 1 false k

/-- Divides by `10 ^ 308` until the rest of the exponent is in range or nothing is left. -/
def scaleDown : Nat → Float → Nat → Float
  | 0, x, _ => x
  | steps + 1, x, k =>
      if k ≤ 308 then x / powerOfTen k
      else if x == 0 then x
      else scaleDown steps (x / powerOfTen 308) (k - 308)

/--
`significand * 10 ^ exponent` in double arithmetic, or nothing if it is too large. The significand
is less than `2 ^ 64`, so after two divisions by `10 ^ 308` nothing is left of it.
-/
def scale? (negative : Bool) (significand : Nat) (exponent : Int) : Option Double :=
  let x := (UInt64.ofNat significand).toFloat
  if exponent < 0 then
    some (withSign negative (scaleDown 4 x exponent.natAbs))
  else if exponent ≤ 308 then
    let y := x * powerOfTen exponent.natAbs
    if y.isInf then none else some (withSign negative y)
  else if significand = 0 then some (withSign negative 0)
  else none

def digitCount (n : Nat) : Nat :=
  (Nat.toDigits 10 n).length

/-- The double nearest to `significand * 10 ^ exponent`, or nothing if that is an infinity. -/
def nearest? (negative : Bool) (significand : Nat) (exponent : Int) : Option Double :=
  let magnitude := exponent + digitCount significand
  if significand = 0 || magnitude < -400 then some (withSign negative 0)
  else if magnitude > 400 then none
  else
    let x : Float := OfScientific.ofScientific significand (exponent < 0) exponent.natAbs
    if x.isInf then none else some (withSign negative x)

end Double

end ProjectConsistency
