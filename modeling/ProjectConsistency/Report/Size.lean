/-!
# Sizes

A size of 1024 bytes or more is given in the largest of the units KB to TB that it reaches, with
one decimal place. The number of bytes is first rounded to 53 significant bits; the division is
exact, and of two equally near decimals the one with an even last digit is taken.

- `roundBits`: a number rounded to 53 significant bits.
- `humanSize`: the text of a size.
-/

namespace ProjectConsistency
namespace Report

/-- A quotient rounded to the nearest integer, a half to the even neighbour. -/
def divNearest (n d : Nat) : Nat :=
  let q := n / d
  let r := n % d
  if 2 * r < d || (2 * r = d && q % 2 = 0) then q else q + 1

def roundBits (n : Nat) : Nat :=
  let step := Nat.pow 2 (n.log2 - 52)
  divNearest n step * step

def units : List String :=
  ["KB", "MB", "GB", "TB"]

/-- The largest unit that a number of bytes reaches, and its size, starting from a unit's size. -/
def unitFrom (bytes size : Nat) : List String → Nat × String
  | [] => (size, "B")
  | [u] => (size, u)
  | u :: v :: rest => if bytes < size * 1024 then (size, u) else unitFrom bytes (size * 1024) (v :: rest)

/-- A number of tenths as a decimal with one place. -/
def tenths (n : Nat) : String :=
  toString (n / 10) ++ "." ++ toString (n % 10)

/-- The text of a number of bytes. -/
def humanSize (bytes : Nat) : String :=
  if bytes < 1024 then toString bytes ++ " B"
  else
    let rounded := roundBits bytes
    let (size, unit) := unitFrom rounded 1024 units
    tenths (divNearest (10 * rounded) size) ++ " " ++ unit

end Report
end ProjectConsistency
