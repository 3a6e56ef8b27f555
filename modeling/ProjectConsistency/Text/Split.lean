/-!
# Cutting texts

- `splitOn`: the pieces between the occurrences of a character; always at least one piece.
- `splitOnce`, `splitLast`: the two sides of the first or last occurrence of a character.
- `startsWith`: a text at the start of another.
-/

namespace ProjectConsistency
namespace Text

/-- The pieces between the occurrences of `sep`. -/
def splitOn (sep : Char) : List Char → List (List Char)
  | [] => [[]]
  | c :: rest =>
      if c = sep then [] :: splitOn sep rest
      else match splitOn sep rest with
        | piece :: pieces => (c :: piece) :: pieces
        | [] => [[c]]

/-- What stands before and after the first occurrence of `sep`. -/
def splitOnce (sep : Char) (cs : List Char) : Option (List Char × List Char) :=
  match cs.dropWhile (· ≠ sep) with
  | [] => none
  | _ :: after => some (cs.takeWhile (· ≠ sep), after)

/-- What stands before and after the last occurrence of `sep`. -/
def splitLast (sep : Char) (cs : List Char) : Option (List Char × List Char) :=
  (splitOnce sep cs.reverse).map fun (after, before) => (before.reverse, after.reverse)

/-- The text begins with `piece`. -/
def startsWith (piece cs : List Char) : Bool :=
  piece.isPrefixOf cs

/-- Two texts agree up to the case of their ASCII letters. -/
def eqIgnoringAsciiCase (xs ys : List Char) : Bool :=
  xs.map Char.toLower == ys.map Char.toLower

def lowerAscii (cs : List Char) : List Char :=
  cs.map Char.toLower

end Text
end ProjectConsistency
