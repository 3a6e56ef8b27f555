/-!
# Glob patterns

A pattern is a list of tokens. It is matched against the bytes of a name, so a token for one place
stands for one byte and a literal character for all of its bytes.

- `Glob.ByteClass`: a class in brackets, as ranges of characters; `ByteClass.holds` for bytes.
- `Glob.Token`: one part of a pattern.
- `Glob.Pattern`: a whole pattern.
-/

namespace ProjectConsistency
namespace Glob

def bytesOf (c : Char) : List UInt8 :=
  String.utf8EncodeChar c

/-- A class in brackets: single characters and ranges, taken as they are or negated. -/
structure ByteClass where
  negated : Bool
  ranges : List (Char × Char)
  deriving DecidableEq, Repr

namespace ByteClass

/--
A byte is in a range. A character of several bytes stands for each of them; a range between two
characters goes from the last byte of the first to the first byte of the second.
-/
def inRange (b : UInt8) (low high : Char) : Bool :=
  let lows := bytesOf low
  let highs := bytesOf high
  lows.contains b || highs.contains b ||
    match lows.getLast?, highs.head? with
    | some l, some h => l ≤ b && b ≤ h
    | _, _ => false

def holds (cls : ByteClass) (b : UInt8) : Bool :=
  cls.ranges.any (fun (low, high) => inRange b low high) != cls.negated

end ByteClass

inductive Token where
  /-- The bytes of a character. -/
  | literal (c : Char)
  /-- Any byte. -/
  | one
  /-- Any bytes. -/
  | many
  /-- A byte of a class. -/
  | byteClass (cls : ByteClass)
  /-- Any whole folders at the start: nothing, or bytes that end in a slash. -/
  | folders
  /-- A slash and any bytes after it. -/
  | inside
  /-- A slash, or any bytes between two slashes. -/
  | between
  /-- One of several branches. -/
  | oneOf (branches : List (List Token))
  deriving Repr

abbrev Pattern := List Token

end Glob
end ProjectConsistency
